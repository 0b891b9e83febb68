/-
Dumps of a registry in use.

A dump is written by an emitter of its own, from a copy of the hot buffer and into a writer of
its own. So it can be suspended and gone on with while the registry is in use, and even the
drains of its writer may call the registry. A `Scene` is a registry together with that writer,
and an `Inspection` is what becomes of a request for a dump in such a scene.

However the two are interleaved, the dump shows the messages that were in memory when it was
asked for. And the registry is what was made of it from outside: a dump that is written or gone
on with reaches it through the calls that the drains of its writer make, and through nothing else.

The first half of that is known of any emitter that starts at a buffer of messages. An inspection
follows a session (`Inspection.Follows`) as long as there is something left of the dump.
-/
import Logbook.Proofs.Emission.Session
import Logbook.Proofs.Registry.Order
import Logbook.Proofs.Registry.Recorded

set_option autoImplicit false

namespace Logbook

/-! ## Drains that call nobody -/

/-- A drain that makes no call. -/
def Reentry.Silent {α : Type} : Reentry α → Prop
  | .done _ => True
  | .report _ next => next.Silent
  | .call _ _ => False

theorem Reentry.Silent.bind_done {α β : Type} {p : Reentry α} (h : p.Silent) (g : α → β) :
    (p.bind fun a => .done (g a)).Silent := by
  induction p with
  | done a => trivial
  | report d next ih => exact ih h
  | call c next ih => exact h.elim

/-- A drain that does something else with its result makes the same calls. -/
theorem Reentry.run_bind_done {α β σ : Type} (p : Reentry α) (g : α → β)
    (report : σ → Diagnostic → σ) (answer : σ → Call → σ × Reply) (s : σ) :
    (p.bind fun a => .done (g a)).run report answer s
      = ((p.run report answer s).1, g (p.run report answer s).2) := by
  induction p generalizing s with
  | done a => rfl
  | report d next ih => exact ih (report s d)
  | call c next ih => exact ih (answer s c).2 (answer s c).1

theorem Buffered.silent_drain {φ : Type} [Flusher φ] (w : Buffered φ) :
    (Writer.drain w).Silent := by
  show (Buffered.drain w).Silent
  unfold Buffered.drain
  split
  · trivial
  · split <;> trivial

/-- **Writers whose drains call nobody.** -/
def Writer.IsSilent (υ : Type) [Writer υ] : Prop := ∀ u : υ, (Writer.drain u).Silent

/-! ## A registry and the writer of a dump -/

/-- **A registry in use, and the writer that a dump of it goes to.** The calls that the drains of
that writer have made are noted. -/
structure Scene (ω υ : Type) where
  host : Host ω
  writer : Recorded υ
  made : List Call
  reports : List Diagnostic

namespace Scene

variable {ω υ : Type}

/-- Before the writer is given anything. -/
def before (p : Host ω) (u : υ) : Scene ω υ := ⟨p, .of u, [], []⟩

def report (s : Scene ω υ) (d : Diagnostic) : Scene ω υ := { s with reports := s.reports ++ [d] }

variable [Writer ω]

/-- The registry is not busy with the dump, so any call is answered in full. -/
def ask (s : Scene ω υ) (c : Call) : Scene ω υ × Reply :=
  ({ s with host := s.host.access (.call c) }, (s.host.registry.call c).2)

/-- A call that a drain of the dump makes. -/
def answer (s : Scene ω υ) (c : Call) : Scene ω υ × Reply :=
  ({ (s.ask c).1 with made := s.made ++ [c] }, (s.ask c).2)

/-- The surroundings of a dump. -/
def sink [Writer υ] : Sink (Scene ω υ) where
  emit s text := { s with writer := Writer.emit s.writer text }
  report := report
  wantsDrain s := Writer.wantsDrain s.writer
  drain s :=
    let (s, writer, signal) := (Writer.drain s.writer).run report answer s
    ({ s with writer := writer }, signal)

/-- **A registry that is free is dumped as it is**, and the dump is written at once. -/
theorem request_of_free [Writer υ] {s : Scene ω υ} (hfree : s.host.registry.busy = false)
    (logger : String) :
    Dump.request sink ask logger s
      = (Dump.ofBuffer s.host.registry.emitter.style s.host.registry.hot).write sink s := by
  refine Dump.request_of_made ?_
  have hcall : s.host.registry.call (.dump logger) = _ :=
    Registry.answer_dump_of_free hfree logger
  rw [ask, Host.access, Registry.access, hcall]
  rfl

/-- **A registry that is busy is not dumped.** It reports that, and the writer is not called. -/
theorem request_of_busy [Writer υ] {s : Scene ω υ} (hbusy : s.host.registry.busy = true)
    (logger : String) :
    Dump.request sink ask logger s
      = (none, { s with host := ⟨s.host.registry.report (.busyDump logger), s.host.installed⟩ }) := by
  refine Dump.request_of_refused ?_
  have hcall : s.host.registry.call (.dump logger) = _ :=
    Registry.answer_dump_of_busy hbusy logger
  rw [ask, Host.access, Registry.access, hcall]
  rfl

/-! ## What a dump does to the registry -/

/-- **Calls are all that is between two scenes**: they are noted, and the registry is what they
make of it. -/
def Called (s s' : Scene ω υ) (calls : List Call) : Prop :=
  s'.made = s.made ++ calls ∧ s'.host = s.host.run (calls.map .call)

theorem called_nil {s s' : Scene ω υ} (hmade : s'.made = s.made) (hhost : s'.host = s.host) :
    s.Called s' [] :=
  ⟨by rw [hmade, List.append_nil], hhost⟩

theorem Called.trans {s s' s'' : Scene ω υ} {calls calls' : List Call} (h : s.Called s' calls)
    (h' : s'.Called s'' calls') : s.Called s'' (calls ++ calls') := by
  refine ⟨?_, ?_⟩
  · rw [h'.1, h.1, List.append_assoc]
  · rw [h'.2, h.2, List.map_append, Host.run, Host.run, Host.run, List.foldl_append]

/-- The calls of a drain are what it does. -/
theorem called_run {α : Type} (p : Reentry α) (s : Scene ω υ) :
    ∃ calls, s.Called (p.run report answer s).1 calls ∧ (p.Silent → calls = []) := by
  induction p generalizing s with
  | done a => exact ⟨[], called_nil rfl rfl, fun _ => rfl⟩
  | report d next ih =>
    obtain ⟨calls, hcalled, hsilent⟩ := ih (s.report d)
    exact ⟨calls, (called_nil rfl rfl).trans hcalled, hsilent⟩
  | call c next ih =>
    obtain ⟨calls, hcalled, -⟩ := ih (s.answer c).2 (s.answer c).1
    have hfirst : s.Called (s.answer c).1 [c] := ⟨rfl, rfl⟩
    exact ⟨[c] ++ calls, hfirst.trans hcalled, fun hsilent => hsilent.elim⟩

variable [Writer υ]

/-- **A dump that is written** leaves the registry as the calls make it that the drains of its
writer make. If these make none, it leaves the registry as it is. -/
theorem called_write (d : Dump) (s : Scene ω υ) :
    ∃ calls, s.Called (d.write sink s).2 calls ∧ (Writer.IsSilent υ → calls = []) := by
  rw [Dump.write_eq]
  refine Emitter.resume_keeps (P := fun s' : Scene ω υ =>
    ∃ calls, s.Called s' calls ∧ (Writer.IsSilent υ → calls = []))
    ?_ ?_ ?_ d.emitter d.buffer s ⟨[], called_nil rfl rfl, fun _ => rfl⟩
  · exact fun _ _ h => h
  · exact fun _ _ h => h
  · rintro s' ⟨calls, hcalled, hsilent⟩
    obtain ⟨calls', hcalled', hsilent'⟩ := called_run (Writer.drain s'.writer) s'
    refine ⟨calls ++ calls', hcalled.trans hcalled', fun hall => ?_⟩
    rw [hsilent hall, hsilent' ((hall s'.writer.inner).bind_done s'.writer.drained),
      List.nil_append]

/-! ## What a dump writes -/

/-- The writer was given what the session has on record. -/
def Noted (s : Scene ω υ) (record : Record) : Prop :=
  s.writer.handed = String.join (record.drains.map (·.text)) ∧ s.writer.held = record.loose

theorem noted_resume {t : Session (Scene ω υ)} (h : t.world.Noted t.record) :
    (t.resume sink).world.Noted (t.resume sink).record := by
  refine Emitter.resume_keeps (P := fun p : Scene ω υ × Record => p.1.Noted p.2)
    ?_ ?_ ?_ t.emitter t.buffer (t.world, t.record) h
  · rintro p text ⟨hhanded, hheld⟩
    refine ⟨hhanded, ?_⟩
    show p.1.writer.held ++ text = p.2.loose ++ text
    rw [hheld]
  · exact fun _ _ h => h
  · rintro p ⟨hhanded, hheld⟩
    -- the drain is that of the inner writer, and at its end the record moves on
    have hdrain := Reentry.run_bind_done (Writer.drain p.1.writer.inner) p.1.writer.drained report
      answer p.1
    have hwriter : (sink.drain p.1).1.writer
        = (p.1.writer.drained ((Writer.drain p.1.writer.inner).run report answer p.1).2).1 :=
      congrArg (fun result => result.2.1) hdrain
    refine ⟨?_, ?_⟩
    · show (sink.drain p.1).1.writer.handed = _
      rw [hwriter]
      simp only [Recorded.drained, Sink.recorded, List.map_append, List.map_cons, List.map_nil,
        String.join_append, String.join_cons, String.join_nil, String.append_empty, hhanded, hheld]
    · show (sink.drain p.1).1.writer.held = _
      rw [hwriter]
      rfl

end Scene

/-! ## Dumps under way -/

/-- What can happen while a dump is under way. -/
inductive Moment (ω : Type) where
  /-- The dump is gone on with. -/
  | resume
  /-- The drain that the dump waits for comes to an end. -/
  | settle (outcome : Signal)
  /-- Something is done with the registry. -/
  | access (a : Access ω)

/-- **A dump that was asked for**: what is left of it, its scene, and a count of the calls that no
outstanding drain held up. -/
structure Inspection (ω υ : Type) where
  left : Option Dump
  scene : Scene ω υ
  calls : Nat

namespace Inspection

variable {ω υ : Type} [Writer ω] [Writer υ]

/-- **A dump is asked for** in some scene. -/
def start (logger : String) (s : Scene ω υ) : Inspection ω υ :=
  let (left, scene) := Dump.request Scene.sink Scene.ask logger s
  ⟨left, scene, 1⟩

/-- **One moment.** A dump that is done, or that was not made, is not gone on with. -/
def step (t : Inspection ω υ) : Moment ω → Inspection ω υ
  | .resume =>
    match t.left with
    | none => t
    | some d =>
      let (left, scene) := d.write Scene.sink t.scene
      ⟨left, scene, if d.emitter.isWaiting then t.calls else t.calls + 1⟩
  | .settle outcome => { t with left := t.left.map (·.settle outcome) }
  | .access a => { t with scene := { t.scene with host := t.scene.host.access a } }

def run (t : Inspection ω υ) (moments : List (Moment ω)) : Inspection ω υ :=
  moments.foldl step t

theorem step_resume (d : Dump) (s : Scene ω υ) (calls : Nat) :
    (⟨some d, s, calls⟩ : Inspection ω υ).step .resume
      = ⟨(d.write Scene.sink s).1, (d.write Scene.sink s).2,
          if d.emitter.isWaiting then calls else calls + 1⟩ := rfl

/-- A request to a registry that is free is the first call of its dump. -/
theorem start_of_free {s : Scene ω υ} (hfree : s.host.registry.busy = false) (logger : String) :
    let d := Dump.ofBuffer s.host.registry.emitter.style s.host.registry.hot
    start logger s = (⟨some d, s, 0⟩ : Inspection ω υ).step .resume := by
  intro d
  have hready : d.emitter.isWaiting = false := rfl
  rw [start, Scene.request_of_free hfree, step_resume, hready]
  rfl

/-- **While a drain is outstanding a resume changes nothing.** -/
theorem step_of_waiting {t : Inspection ω υ} {d : Dump} (hleft : t.left = some d)
    (hwaits : d.emitter.isWaiting = true) : t.step .resume = t := by
  obtain ⟨left, scene, calls⟩ := t
  obtain rfl : left = some d := hleft
  rw [step_resume, Dump.write_eq, Emitter.resume_of_waiting hwaits, if_pos hwaits]
  rfl

/-- A drain that has come to an end is not waited for any more. -/
theorem isWaiting_of_settled {t : Inspection ω υ} {d : Dump} {outcome : Signal}
    (hleft : (t.step (.settle outcome)).left = some d) (houtcome : outcome ≠ .outstanding) :
    d.emitter.isWaiting = false := by
  obtain ⟨d', -, rfl⟩ := Option.map_eq_some_iff.mp hleft
  rw [Dump.settle_emitter]
  exact Emitter.isWaiting_settle d'.emitter houtcome

/-- A resume does to the registry what a write does, or nothing if the dump is done. -/
theorem called_step (t : Inspection ω υ) :
    ∃ calls, t.scene.Called (t.step .resume).scene calls ∧ (Writer.IsSilent υ → calls = []) := by
  obtain ⟨left, scene, calls⟩ := t
  cases left with
  | none => exact ⟨[], Scene.called_nil rfl rfl, fun _ => rfl⟩
  | some d => exact Scene.called_write d scene

end Inspection

/-! ## A dump under way is a session -/

def Moment.move {ω υ : Type} [Writer ω] : Moment ω → Move (Scene ω υ)
  | .resume => .resume
  | .settle outcome => .settle outcome
  | .access a => .outside fun s => { s with host := s.host.access a }

theorem Scene.noted_run {ω υ : Type} [Writer ω] [Writer υ] {t : Session (Scene ω υ)}
    (h : t.world.Noted t.record) (moments : List (Moment ω)) :
    (t.run sink (moments.map Moment.move)).world.Noted
      (t.run sink (moments.map Moment.move)).record := by
  induction moments generalizing t with
  | nil => exact h
  | cons m moments ih =>
    refine ih (t := t.move sink m.move) ?_
    unfold Session.move
    split
    · exact h
    · cases m with
      | resume => exact noted_resume h
      | settle outcome => exact h
      | access a => exact h

namespace Inspection

variable {ω υ : Type} [Writer ω] [Writer υ] {t : Inspection ω υ} {q : Session (Scene ω υ)}

/-- **An inspection follows a session**: what is left of the dump is what the session has left,
in the same scene. After the end only the writers are compared, since the registry goes on being
used and the session does not look at it any more. -/
structure Follows (t : Inspection ω υ) (q : Session (Scene ω υ)) : Prop where
  left : t.left = if q.finished then none else some ⟨q.buffer, q.emitter⟩
  calls : t.calls = q.calls
  scene : q.finished = false → t.scene = q.world
  writer : t.scene.writer = q.world.writer

theorem Follows.step (h : t.Follows q) (m : Moment ω) :
    (t.step m).Follows (q.move Scene.sink m.move) := by
  obtain ⟨left, scene, calls⟩ := t
  obtain ⟨hleft, hcalls, hscene, hwriter⟩ := h
  by_cases hfinished : q.finished = true
  · obtain rfl : left = none := by rwa [if_pos hfinished] at hleft
    have hstays : q.move Scene.sink m.move = q := if_pos hfinished
    rw [hstays]
    cases m with
    | resume | settle outcome => exact ⟨hleft, hcalls, hscene, hwriter⟩
    | access a => exact ⟨hleft, hcalls, fun hrun => absurd hfinished (by simp [hrun]), hwriter⟩
  · have hrun : q.finished = false := by simpa using hfinished
    obtain rfl : left = some ⟨q.buffer, q.emitter⟩ := by rwa [if_neg hfinished] at hleft
    obtain rfl : scene = q.world := hscene hrun
    obtain rfl : calls = q.calls := hcalls
    cases m with
    | resume =>
      -- the session takes notes on the way, and these are not seen by its emitter
      obtain ⟨hemitter, hbuffer, hworld, hend⟩ := Session.resume_plain Scene.sink q
      have hmove : q.move Scene.sink Moment.resume.move = q.resume Scene.sink := if_neg hfinished
      rw [hmove, step_resume, Dump.write_eq]
      refine ⟨?_, rfl, fun _ => hworld.symm, congrArg Scene.writer hworld.symm⟩
      show (if _ then _ else _) = if (q.resume Scene.sink).finished then _ else _
      simp only [hend, decide_eq_true_eq, hemitter, hbuffer]
    | settle outcome =>
      have hmove : q.move Scene.sink (Moment.settle outcome).move
          = { q with emitter := q.emitter.settle outcome } := if_neg hfinished
      rw [hmove]
      exact ⟨(if_neg hfinished).symm, rfl, fun _ => rfl, rfl⟩
    | access a =>
      have hmove : q.move Scene.sink (Moment.access a).move
          = { q with world := { q.world with host := q.world.host.access a } } := if_neg hfinished
      rw [hmove]
      exact ⟨(if_neg hfinished).symm, rfl, fun _ => rfl, rfl⟩

theorem Follows.run (h : t.Follows q) (moments : List (Moment ω)) :
    (t.run moments).Follows (q.run Scene.sink (moments.map Moment.move)) := by
  induction moments generalizing t q with
  | nil => exact h
  | cons m moments ih => exact ih (h.step m)

omit [Writer ω] [Writer υ] in
/-- A dump that was just made follows the session that starts at its copy. -/
theorem follows_start (style : Style) (b : Buffer) (s : Scene ω υ) :
    (⟨some (.ofBuffer style b), s, 0⟩ : Inspection ω υ).Follows
      (.start (b.copyRetained .all .empty) style s) :=
  ⟨rfl, rfl, fun _ => rfl, rfl⟩

omit [Writer υ] in
/-- The style of a dump stays. -/
theorem styles_of_moments (moments : List (Moment ω)) :
    (moments.map (Moment.move (υ := υ))).filterMap Move.style? = [] := by
  rw [List.filterMap_map]
  refine List.filterMap_eq_nil_iff.mpr fun m _ => ?_
  cases m <;> rfl

/-- The copy that a dump is made from holds every message. -/
theorem slots_copy {b : Buffer} {ms : List Message} (h : b.slots = ms.flatMap Message.slots) :
    (b.copyRetained .all .empty).slots = ms.flatMap Message.slots := by
  have hall : ms.filter (·.level.passes .all) = ms :=
    List.filter_eq_self.mpr fun m _ => m.level.passes_all
  rw [Buffer.slots_copyRetained h, Buffer.slots_empty, List.nil_append, hall]

/-- **A dump accounts for the messages of its buffer**: its writer was handed those that are not
still to come, and there are none to come when nothing is left of the dump. -/
theorem accounts_run {b : Buffer} {ms : List Message} (hb : b.slots = ms.flatMap Message.slots)
    (style : Style) (p : Host ω) (u : υ) (moments : List (Moment ω)) :
    let t := (⟨some (.ofBuffer style b), .before p u, 0⟩ : Inspection ω υ).run moments
    ∃ rest : List Message,
      t.scene.writer.handed ++ Message.printAll style rest = Message.printAll style ms ∧
      t.scene.writer.held = "" ∧ (t.left = none → rest = []) ∧
      (t.left ≠ none → t.calls ≤ ms.length + 1) := by
  intro t
  let q := (Session.start (b.copyRetained .all .empty) style (Scene.before p u)).run Scene.sink
    (moments.map Moment.move)
  have hfollows : t.Follows q := (follows_start style b (Scene.before p u)).run moments
  have hfinished : t.left = none ↔ q.finished = true := by
    rw [hfollows.left]
    cases q.finished <;> simp
  obtain ⟨portions, last, done, rest, h⟩ : ∃ portions last done rest, q.Accounts _ ms [style]
      portions last done rest :=
    Session.accounts_run (Session.accounts_start (slots_copy hb) style (Scene.before p u)
      (List.mem_singleton_self style)) Scene.sink fun style' hstyle => by
        rw [styles_of_moments] at hstyle
        contradiction
  obtain ⟨hhanded, hheld⟩ : q.world.Noted q.record := Scene.noted_run ⟨rfl, rfl⟩ moments
  refine ⟨rest, ?_, ?_, ?_, ?_⟩
  · have htext : t.scene.writer.handed = Message.printAll style done := by
      rw [hfollows.writer, hhanded]
      exact h.text_eq
    rw [htext, h.messages, Message.printAll_append]
  · rw [hfollows.writer, hheld, h.loose]
  · exact fun hnone => h.concluded (h.atEnd (hfinished.mp hnone)).1
  · intro hsome
    rw [hfollows.calls]
    exact h.calls_le (by simpa using mt hfinished.mpr hsome)

end Inspection

namespace Host

variable {ω υ : Type} [Writer ω] [Writer υ]

/-- **A dump is a snapshot.** Take a registry after anything that was done with it, and ask it for
a dump into any writer. While the dump is under way its drains come to an end at any time, the
registry is used in any way, and the drains of the dump may call it too.

* To make the dump leaves the registry as it is. One that is busy is not dumped: it reports that,
  the writer is not called and there is nothing to go on with.
* To write the dump, at once and whenever it is gone on with, leaves the registry as the calls
  make it that the drains of its writer make meanwhile. If these make none, the registry is left
  as it is, and the default writer makes none.
* What the writer was handed is all messages that were in memory then, in order and in the style
  of the registry, up to the messages that are still to come. None are when nothing is left of
  the dump, and nothing is held back between two calls.
* While a drain is outstanding nothing happens, and once it has come to an end the dump waits no
  more. It cannot go on for ever: it is done after two more calls than there are messages, not
  counting those that found a drain outstanding. -/
theorem dumps_what_is_in_memory (s : Settings) (w : ω) (accesses : List (Access ω))
    (logger : String) (u : υ) (moments : List (Moment ω)) :
    let p := (start s w).run accesses
    let style := p.registry.emitter.style
    let asked := Inspection.start logger (Scene.before p u)
    let t := asked.run moments
    ∃ hot rest : List Message,
      p.registry.hot.slots = hot.flatMap Message.slots ∧
      p.registry.call (.dump logger)
        = (p.registry, .dump (some (.ofBuffer style p.registry.hot))) ∧
      (∀ s : Scene ω υ, s.host.registry.busy = true →
        Dump.request Scene.sink Scene.ask logger s = (none,
          { s with host := ⟨s.host.registry.report (.busyDump logger), s.host.installed⟩ })) ∧
      (∃ calls, (Scene.before p u).Called asked.scene calls ∧
        (Writer.IsSilent υ → calls = [])) ∧
      (∃ calls, t.scene.Called (t.step .resume).scene calls ∧
        (Writer.IsSilent υ → calls = [])) ∧
      (∀ (φ : Type) [Flusher φ], Writer.IsSilent (Buffered φ)) ∧
      t.scene.writer.handed ++ Message.printAll style rest = Message.printAll style hot ∧
      t.scene.writer.held = "" ∧
      (t.left = none → rest = []) ∧
      (∀ d, t.left = some d → d.emitter.isWaiting = true → t.step .resume = t) ∧
      (∀ d outcome, (t.step (.settle outcome)).left = some d → outcome ≠ .outstanding →
        d.emitter.isWaiting = false) ∧
      (t.left ≠ none → t.calls ≤ hot.length + 1) := by
  intro p style asked t
  obtain ⟨_, _, hot, horderly⟩ := inOrder_run (Relays.none ω) s w accesses
  have hfree : (Scene.before p u).host.registry.busy = false := horderly.free
  -- the request is the first moment of its dump, so that all of it is one run
  have hasked : asked = _ := Inspection.start_of_free hfree logger
  have ht : t = Inspection.run ⟨some (.ofBuffer style p.registry.hot), .before p u, 0⟩
      (.resume :: moments) := congrArg (fun t : Inspection ω υ => t.run moments) hasked
  obtain ⟨rest, htext, hheld, hdone, hcalls⟩ :=
    Inspection.accounts_run horderly.hot style p u (.resume :: moments)
  rw [← ht] at htext hheld hdone hcalls
  refine ⟨hot, rest, horderly.hot, Registry.answer_dump_of_free hfree logger,
    fun s hbusy => Scene.request_of_busy hbusy logger, ?_, t.called_step,
    fun φ _ => Buffered.silent_drain, htext, hheld, hdone,
    fun d hleft hwaits => Inspection.step_of_waiting hleft hwaits,
    fun d outcome hleft houtcome => Inspection.isWaiting_of_settled hleft houtcome, hcalls⟩
  rw [hasked]
  exact Inspection.called_step _

end Host

end Logbook
