/-
The callback at the end of a run.

A callback may be left with an emitter at any time: before a run, between two of its calls, while
its last drain is under way. It takes the place of one that was left before, and it runs when
the run comes to its end, which a call finds in one of three ways. The last drain may be over when
it returns, it may have been completed since, or it may have been given up. This file says once
what a call comes to (`Emitter.Ends`), whichever way it takes, and which drains it has seen
answered by then; the rest is an account of what was installed and what ran.

What a callback finds is what the call leaves. It is handed nothing and it is the last that a call
does, after the buffer was cleared and the emitter taken back to its start.
-/
import Logbook.Proofs.Emission.Sink

set_option autoImplicit false

namespace Logbook

/-! ## How a call ends -/

/-- A sink that notes how the drains of another are answered. -/
def Sink.answering {σ : Type} (k : Sink σ) : Sink (σ × List Signal) where
  emit p text := (k.emit p.1 text, p.2)
  report p d := (k.report p.1 d, p.2)
  wantsDrain p := k.wantsDrain p.1
  drain p := (((k.drain p.1).1, p.2 ++ [(k.drain p.1).2]), (k.drain p.1).2)

namespace Sink

variable {σ : Type} (k : Sink σ)

theorem agrees_answering : k.answering.Agrees k Prod.fst :=
  ⟨fun _ _ => rfl, fun _ _ => rfl, fun _ => rfl, fun _ => rfl⟩

/-- The answer of a drain is noted last. -/
theorem answers_drain {k : Sink σ} {p q : σ × List Signal} {signal : Signal}
    (h : k.answering.drain p = (q, signal)) : q.2 = p.2 ++ [signal] := by
  cases h
  rfl

end Sink

namespace Emitter

variable {σ : Type} {k : Sink σ} {e : Emitter} {b : Buffer}

/-- **How a call ends** that goes on with a run. A drain that is left outstanding stops it at once,
so there is none among the answers exactly if the run comes to its end. -/
inductive Ends (e : Emitter) (b : Buffer) : Resumed (σ × List Signal) → Prop where
  | done (s : σ) (answers : List Signal) (hover : .outstanding ∉ answers) :
    Ends e b ⟨e.rewound, b.clear, (s, answers), .done, e.callback⟩
  | pending (frames : List Frame) (c : Cursor) (next : AfterDrain) (s : σ)
      (answers : List Signal) (hleft : .outstanding ∈ answers) :
    Ends e b ⟨{ e with frames := frames, cursor := c, phase := .draining .outstanding next }, b,
      (s, answers), .pending, none⟩

/-- How a call ends does not tell where the emitter stood. -/
theorem Ends.of_moved {frames : List Frame} {c : Cursor} {r : Resumed (σ × List Signal)}
    (h : Ends { e with frames := frames, cursor := c } b r) : Ends e b r := by
  cases h with
  | done s answers hover => exact .done s answers hover
  | pending frames' c' next s answers hleft => exact .pending frames' c' next s answers hleft

theorem conclude_ends (e : Emitter) {p : σ × List Signal} (hover : .outstanding ∉ p.2) :
    Ends e b (e.conclude k.answering b p) := by
  -- a message that is cut short is reported, and that answers no drain
  have hreport : (if e.frames.isEmpty then p
      else k.answering.report p (.endedInsideMessage e.frames.length)).2 = p.2 := by
    split <;> rfl
  unfold conclude
  simp only
  split <;> rename_i q hdrain
  · exact .pending [] e.cursor .conclude q.1 q.2 (by simp [Sink.answers_drain hdrain])
  · have hq : q.2 = p.2 ++ [.completed] := by rw [Sink.answers_drain hdrain, hreport]
    exact .done q.1 q.2 (by simp [hq, hover])
  · have hq : q.2 = p.2 ++ [.dropped] := by rw [Sink.answers_drain hdrain, hreport]
    exact .done (k.report q.1 .drainDropped) q.2 (by simp [hq, hover])

/-- **A walk.** A drain that is left outstanding ends it, so none was when it comes to a slot. -/
theorem walk_ends (e : Emitter) {p : σ × List Signal} (hover : .outstanding ∉ p.2) :
    Ends e b (e.walk k.answering b p) := by
  have hadvance : ∀ (e : Emitter) (c : Cursor) (x : Slot) (p : σ × List Signal),
      (e.advance k.answering c x p).2.2.2 = p.2 := fun e c x p =>
    advance_eq_of_report (k := k.answering) (f := Prod.snd) (fun _ _ => rfl) e c x p
  fun_induction walk k.answering e b p with
  | case1 e p hfrom => exact conclude_ends e hover
  | case2 e p c x hfrom next hwants q hdrain =>
    exact .pending _ _ .proceed q.1 q.2 (by simp [Sink.answers_drain hdrain])
  | case3 e p c x hfrom next hwants q hdrain ih =>
    have hq : q.2 = p.2 ++ [.completed] := by rw [Sink.answers_drain hdrain, hadvance]
    exact (ih (by simp [hq, hover])).of_moved
  | case4 e p c x hfrom next hwants q hdrain ih =>
    have hq : q.2 = p.2 ++ [.dropped] := by rw [Sink.answers_drain hdrain, hadvance]
    exact (ih (by simp [Sink.answering, hq, hover])).of_moved
  | case5 e p c x hfrom next hwants ih =>
    exact (ih (by rw [hadvance]; exact hover)).of_moved

theorem resume_ends (hwaits : e.isWaiting = false) (s : σ) :
    Ends e b (e.resume k.answering b (s, [])) := by
  have hgoOn : ∀ {s : σ} (next : AfterDrain), Ends e b (e.goOn k.answering b (s, []) next) := by
    intro s next
    cases next with
    | proceed => exact walk_ends e List.not_mem_nil
    | conclude => exact .done s [] List.not_mem_nil
  unfold resume
  split
  · exact walk_ends e List.not_mem_nil
  · rename_i hphase
    simp [isWaiting, hphase] at hwaits
  · exact hgoOn _
  · exact hgoOn _

/-- How the drains of a call are answered. -/
def answers (k : Sink σ) (e : Emitter) (b : Buffer) (s : σ) : List Signal :=
  (e.resume k.answering b (s, [])).state.2

/-- **What a call comes to.** It is done or pending, and by that it is known what it leaves: the
emitter at its start, the buffer cleared and the callback called, or the emitter behind an
outstanding drain and everything else as it was. -/
theorem resume_cases (k : Sink σ) (e : Emitter) (b : Buffer) (s : σ) :
    let r := e.resume k b s
    (r.status = .done ∧ e.isWaiting = false ∧ .outstanding ∉ e.answers k b s ∧
        r.emitter = e.rewound ∧ r.buffer = b.clear ∧ r.called = e.callback) ∨
      (r.status = .pending ∧ (e.isWaiting = true ∨ .outstanding ∈ e.answers k b s) ∧
        r.emitter.isWaiting = true ∧ r.emitter.callback = e.callback ∧ r.buffer = b ∧
        r.called = none) := by
  intro r
  have hr : r = (e.resume k.answering b (s, [])).map Prod.fst :=
    resume_map k.agrees_answering e b (s, [])
  by_cases hwaits : e.isWaiting = true
  · rw [hr, resume_of_waiting hwaits]
    exact .inr ⟨rfl, .inl hwaits, hwaits, rfl, rfl, rfl⟩
  · have hfree : e.isWaiting = false := by simpa using hwaits
    have hends : Ends e b (e.resume k.answering b (s, [])) := resume_ends hfree s
    rw [hr, answers]
    generalize e.resume k.answering b (s, []) = noted at hends
    cases hends with
    | done s answers hover => exact .inl ⟨rfl, hfree, hover, rfl, rfl, rfl⟩
    | pending frames c next s answers hleft => exact .inr ⟨rfl, .inr hleft, rfl, rfl, rfl, rfl⟩

/-- **An emitter at its start**: no run is under way, and nothing is left of the one before. -/
structure AtStart (e : Emitter) : Prop where
  phase : e.phase = .idle
  frames : e.frames = []
  cursor : e.cursor = .start

theorem AtStart.isIdle (h : e.AtStart) : e.isIdle = true := by simp [Emitter.isIdle, h.phase]

end Emitter

/-! ## An emitter among occasions -/

/-- What can happen to an emitter. The surroundings of a call, their state and the buffer may be
any, so whatever becomes of them between two calls is covered, and a run may be gone on with in
another buffer. -/
inductive Occasion (σ : Type) where
  | install (name : String)
  | restyle (style : Style)
  /-- An outstanding drain comes to an end. -/
  | settle (outcome : Signal)
  | resume (k : Sink σ) (b : Buffer) (s : σ)

/-- What is noted of callbacks: that one was installed, and how each call returned. -/
inductive Entered where
  | installed (name : String)
  | returned (status : EmitStatus) (called : Option String)

namespace Entered

/-- Whether a call was done. -/
def isEnd : Entered → Bool
  | .returned .done _ => true
  | _ => false

def installed? : Entered → Option String
  | .installed name => some name
  | .returned _ _ => none

def called? : Entered → Option String
  | .installed _ => none
  | .returned _ called => called

/-- **The callback that was installed last** since a call was done, if one was. -/
def due (entries : List Entered) : Option String :=
  (entries.reverse.takeWhile (!·.isEnd)).findSome? installed?

theorem due_append_singleton (entries : List Entered) (x : Entered) :
    due (entries ++ [x]) = if x.isEnd then none else x.installed?.or (due entries) := by
  rw [due, List.reverse_append, List.reverse_singleton, List.singleton_append, List.takeWhile_cons]
  cases x.isEnd with
  | true => rfl
  | false =>
    simp only [Bool.not_false, if_true, List.findSome?_cons]
    cases x.installed? <;> rfl

end Entered

/-- An emitter with what is noted of its callbacks. -/
structure Course where
  emitter : Emitter
  entries : List Entered

namespace Course

variable {σ : Type} {t : Course}

def start (style : Style) : Course := ⟨.new style, []⟩

def meet (t : Course) : Occasion σ → Course
  | .install name => ⟨t.emitter.onComplete name, t.entries ++ [.installed name]⟩
  | .restyle style => { t with emitter := { t.emitter with style := style } }
  | .settle outcome => { t with emitter := t.emitter.settle outcome }
  | .resume k b s =>
    let r := t.emitter.resume k b s
    ⟨r.emitter, t.entries ++ [.returned r.status r.called]⟩

def run (t : Course) (occasions : List (Occasion σ)) : Course := occasions.foldl meet t

/-- The callbacks that were installed, in their order. -/
def installed (t : Course) : List String := t.entries.filterMap Entered.installed?

/-- The callbacks that ran, in their order. -/
def called (t : Course) : List String := t.entries.filterMap Entered.called?

theorem called_install (t : Course) (name : String) :
    (t.meet (.install name : Occasion σ)).called = t.called := by
  simp [meet, called, Entered.called?]

theorem installed_install (t : Course) (name : String) :
    (t.meet (.install name : Occasion σ)).installed = t.installed ++ [name] := by
  simp [meet, installed, Entered.installed?]

theorem called_resume (t : Course) (k : Sink σ) (b : Buffer) (s : σ) :
    (t.meet (.resume k b s)).called = t.called ++ (t.emitter.resume k b s).called.toList := by
  rw [called, meet, List.filterMap_append, ← called]
  cases (t.emitter.resume k b s).called <;> rfl

theorem installed_resume (t : Course) (k : Sink σ) (b : Buffer) (s : σ) :
    (t.meet (.resume k b s)).installed = t.installed := by
  simp [meet, installed, Entered.installed?]

/-- **A course is in order** if the emitter holds the callback that is due, if the callbacks that
ran and the one it holds are among those that were installed, each for itself, and if between two
runs it is at its start. -/
structure InOrder (t : Course) : Prop where
  due : t.emitter.callback = Entered.due t.entries
  called : (t.called ++ t.emitter.callback.toList).Sublist t.installed
  atStart : t.emitter.isIdle = true → t.emitter.AtStart

theorem inOrder_start (style : Style) : (start style).InOrder :=
  ⟨rfl, List.Sublist.slnil, fun _ => ⟨rfl, rfl, rfl⟩⟩

theorem InOrder.install (h : t.InOrder) (name : String) :
    (t.meet (.install name : Occasion σ)).InOrder where
  due := by rw [meet, Entered.due_append_singleton]; rfl
  called := by
    -- the callback that it held before is dropped, and no other takes its place in the list
    have hbefore : t.called.Sublist t.installed :=
      (List.sublist_append_left _ _).trans h.called
    rw [called_install, installed_install]
    exact hbefore.append (List.Sublist.refl [name])
  atStart hidle := ⟨(h.atStart hidle).phase, (h.atStart hidle).frames, (h.atStart hidle).cursor⟩

theorem InOrder.settle (h : t.InOrder) (outcome : Signal) :
    (t.meet (.settle outcome : Occasion σ)).InOrder := by
  have hcallback : (t.emitter.settle outcome).callback = t.emitter.callback := by
    unfold Emitter.settle
    split <;> rfl
  refine ⟨hcallback.trans h.due, ?_, fun hidle => ?_⟩
  · rw [meet, hcallback]
    exact h.called
  · have hstart := h.atStart ((Emitter.isIdle_settle t.emitter outcome).symm.trans hidle)
    have hsame : t.emitter.settle outcome = t.emitter := by rw [Emitter.settle, hstart.phase]
    rw [meet, hsame]
    exact hstart

theorem InOrder.resume (h : t.InOrder) (k : Sink σ) (b : Buffer) (s : σ) :
    (t.meet (.resume k b s)).InOrder := by
  have hemitter : (t.meet (.resume k b s)).emitter = (t.emitter.resume k b s).emitter := rfl
  rcases Emitter.resume_cases k t.emitter b s with
    ⟨hstatus, -, -, hstart, -, hcalled⟩ | ⟨hstatus, -, hwaits, hcallback, -, hcalled⟩
  -- what it held is now what ran last
  · refine ⟨?_, ?_, fun _ => ?_⟩
    · rw [hemitter, hstart, meet, hstatus, Entered.due_append_singleton]
      rfl
    · rw [called_resume, installed_resume, hcalled, hemitter, hstart]
      exact (List.append_nil _).symm ▸ h.called
    · rw [hemitter, hstart]
      exact ⟨rfl, rfl, rfl⟩
  · refine ⟨?_, ?_, fun hidle => ?_⟩
    · rw [hemitter, hcallback, meet, hstatus, Entered.due_append_singleton]
      exact h.due
    · rw [called_resume, installed_resume, hcalled, hemitter, hcallback, Option.toList_none,
        List.append_nil]
      exact h.called
    · rw [hemitter, Emitter.isIdle_of_isWaiting hwaits] at hidle
      exact absurd hidle (by simp)

theorem InOrder.meet (h : t.InOrder) (o : Occasion σ) : (t.meet o).InOrder := by
  cases o with
  | install name => exact h.install name
  | restyle style =>
    exact ⟨h.due, h.called, fun hidle =>
      ⟨(h.atStart hidle).phase, (h.atStart hidle).frames, (h.atStart hidle).cursor⟩⟩
  | settle outcome => exact h.settle outcome
  | resume k b s => exact h.resume k b s

/-- **Whatever happens to an emitter**, its course is in order. -/
theorem inOrder_run (style : Style) (occasions : List (Occasion σ)) :
    ((start style).run occasions).InOrder := by
  have hrun : ∀ (occasions : List (Occasion σ)) {t : Course}, t.InOrder →
      (t.run occasions).InOrder := by
    intro occasions
    induction occasions with
    | nil => exact fun h => h
    | cons o occasions ih => exact fun h => ih (h.meet o)
  exact hrun occasions (inOrder_start style)

/-- **A callback runs at the end of a run, and once.** Take any occasions, in any order: callbacks
are installed, calls are made in any surroundings and over any buffer, drains come to an end. Let
`t` be the course so far, and look at any call that comes next.

* Its drains are answered alike whether or not the answers are noted. It is done exactly if no
  drain was outstanding when it began and none was left outstanding since.
* If it is done, the callback runs that was installed last since the call before that was done, if
  there is one. The buffer is cleared then, and the emitter is idle and at its start.
* If it is not done, no callback runs, and the one that is due stays due.
* In all of the course, the callbacks that ran are some of those that were installed, in their
  order, and none of them twice. So if each was installed once, each ran once at most. -/
theorem callback_runs_at_end (style : Style) (occasions : List (Occasion σ)) (k : Sink σ)
    (b : Buffer) (s : σ) :
    let t := (start style).run occasions
    let r := t.emitter.resume k b s
    (r = (t.emitter.resume k.answering b (s, [])).map Prod.fst ∧
      (r.status = .done ↔
        t.emitter.isWaiting = false ∧ .outstanding ∉ t.emitter.answers k b s)) ∧
    (r.status = .done → r.called = Entered.due t.entries ∧ r.buffer = b.clear ∧
      r.buffer.isEmpty = true ∧ r.emitter.isIdle = true ∧ r.emitter.AtStart) ∧
    (r.status ≠ .done → r.called = none ∧ r.buffer = b ∧ r.emitter.isWaiting = true ∧
      Entered.due (t.meet (.resume k b s)).entries = Entered.due t.entries) ∧
    t.called.Sublist t.installed ∧ (t.installed.Nodup → t.called.Nodup) := by
  intro t r
  have h : t.InOrder := inOrder_run style occasions
  have hcalled : t.called.Sublist t.installed := (List.sublist_append_left _ _).trans h.called
  have hnext : (t.meet (.resume k b s)).InOrder := h.resume k b s
  refine ⟨⟨Emitter.resume_map k.agrees_answering t.emitter b (s, []), ?_⟩, ?_, ?_, hcalled,
    fun hnodup => hnodup.sublist hcalled⟩
  · rcases Emitter.resume_cases k t.emitter b s with
      ⟨hstatus, hwaits, hover, -⟩ | ⟨hstatus, hleft, -⟩
    · exact ⟨fun _ => ⟨hwaits, hover⟩, fun _ => hstatus⟩
    · refine ⟨fun hdone => absurd (hdone.symm.trans hstatus) (by simp), fun ⟨hwaits, hover⟩ => ?_⟩
      rcases hleft with hwaits' | hleft
      · exact absurd (hwaits'.symm.trans hwaits) (by simp)
      · exact absurd hleft hover
  · intro hdone
    rcases Emitter.resume_cases k t.emitter b s with
      ⟨-, -, -, hemitter, hbuffer, hcallback⟩ | ⟨hstatus, -⟩
    · have hstart : r.emitter.AtStart := hemitter ▸ ⟨rfl, rfl, rfl⟩
      have hempty : r.buffer.isEmpty = true := by
        rw [hbuffer]
        exact (Buffer.isEmpty_iff_slots _).mpr (Buffer.slots_clear b)
      exact ⟨hcallback.trans h.due, hbuffer, hempty, hstart.isIdle, hstart⟩
    · exact absurd (hdone.symm.trans hstatus) (by simp)
  · intro hpending
    rcases Emitter.resume_cases k t.emitter b s with
      ⟨hstatus, -⟩ | ⟨-, -, hwaits, hcallback, hbuffer, hnone⟩
    · exact absurd hstatus hpending
    · exact ⟨hnone, hbuffer, hwaits, hnext.due.symm.trans (hcallback.trans h.due)⟩

/-- A callback that is left while the last drain is under way takes the place of the first. -/
example :
    let k : Sink Unit := ⟨fun _ _ => (), fun _ _ => (), fun _ => false, fun _ => ((), .outstanding)⟩
    let go : Occasion Unit := .resume k .empty ()
    ((start .bare).run [.install "first", go, .install "second", .settle .dropped, go, go,
      .settle .completed, go]).called = ["second"] := by decide +kernel

end Course

end Logbook
