/-
A run and the schedule of its drains.

While a run is under way its caller decides when to go on, a drain that is outstanding is
completed or given up at some time, the style may be changed and the world changes as it
likes. `Session` is a run together with all of that, and it records what is drained: a
drain takes the text that was emitted since the one before.

What is recorded depends on the schedule in one respect only, where the text is cut. A
session at any time accounts for the messages of its buffer: they stand in portions, one
for each drain, and each portion is a list of whole messages in the style of its drain.
-/
import Logbook.Proofs.Emission.Sink
import Logbook.Proofs.Buffer.Retained

set_option autoImplicit false

namespace Logbook

/-! ## Buffers of whole messages -/

/-- **A buffer that holds messages**: what was recorded, and kept by its level since. -/
inductive Buffer.Holds : Buffer → List Message → Prop where
  | empty : Holds .empty []
  | log {b : Buffer} {ms : List Message} (h : Holds b ms) (m : Message) :
    Holds (b.log m.clock m.origin m.level m.format m.args).1 (ms ++ [m])
  | retain {b target : Buffer} {ms ms' : List Message} (h : Holds b ms)
      (htarget : Holds target ms') (threshold : Level) :
    Holds (b.copyRetained threshold target) (ms' ++ ms.filter (·.level.passes threshold))
  | clear {b : Buffer} {ms : List Message} (h : Holds b ms) : Holds b.clear []

theorem Buffer.Holds.slots_eq {b : Buffer} {ms : List Message} (h : b.Holds ms) :
    b.slots = ms.flatMap Message.slots := by
  induction h with
  | empty => rw [slots_empty, List.flatMap_nil]
  | log h m ih => rw [(slots_log _ m).1, ih, List.flatMap_append, List.flatMap_singleton]
  | retain h htarget threshold ih ih' =>
    rw [slots_copyRetained ih, ih', List.flatMap_append]
  | clear h ih => rw [slots_clear, List.flatMap_nil]

/-! ## Recording drains -/

/-- What one drain took, in which style it was printed, and whether the surroundings had
asked for the drain. -/
structure Drain where
  style : Style
  text : String
  asked : Bool

/-- What was drained, in order, and what was emitted since. -/
structure Record where
  drains : List Drain
  loose : String

/-- A sink that records what is drained from another. -/
def Sink.recorded {σ : Type} (k : Sink σ) (style : Style) : Sink (σ × Record) where
  emit p text := (k.emit p.1 text, { p.2 with loose := p.2.loose ++ text })
  report p d := (k.report p.1 d, p.2)
  wantsDrain p := k.wantsDrain p.1
  drain p :=
    (((k.drain p.1).1, ⟨p.2.drains ++ [⟨style, p.2.loose, k.wantsDrain p.1⟩], ""⟩),
      (k.drain p.1).2)

theorem Sink.agrees_recorded {σ : Type} (k : Sink σ) (style : Style) :
    (k.recorded style).Agrees k Prod.fst :=
  ⟨fun _ _ => rfl, fun _ _ => rfl, fun _ => rfl, fun _ => rfl⟩

/-! ## Sessions -/

/-- A run under way, with a count of the calls that no outstanding drain held up. -/
structure Session (σ : Type) where
  emitter : Emitter
  buffer : Buffer
  world : σ
  record : Record
  calls : Nat
  finished : Bool

/-- What can happen during a run. -/
inductive Move (σ : Type) where
  | resume
  /-- An outstanding drain comes to an end. -/
  | settle (outcome : Signal)
  | restyle (style : Style)
  | outside (f : σ → σ)

def Move.style? {σ : Type} : Move σ → Option Style
  | .restyle style => some style
  | _ => none

namespace Session

variable {σ : Type}

def start (b : Buffer) (style : Style) (world : σ) : Session σ :=
  ⟨.new style, b, world, ⟨[], ""⟩, 0, false⟩

def resume (k : Sink σ) (t : Session σ) : Session σ :=
  let r := t.emitter.resume (k.recorded t.emitter.style) t.buffer (t.world, t.record)
  { emitter := r.emitter
    buffer := r.buffer
    world := r.state.1
    record := r.state.2
    calls := if t.emitter.isWaiting then t.calls else t.calls + 1
    finished := r.status = .done }

/-- **The record is not seen by the run**: a call is what it is without. -/
theorem resume_plain (k : Sink σ) (t : Session σ) :
    let r := t.emitter.resume k t.buffer t.world
    (t.resume k).emitter = r.emitter ∧ (t.resume k).buffer = r.buffer ∧
      (t.resume k).world = r.state ∧ (t.resume k).finished = (r.status = .done : Bool) := by
  have hsame := Emitter.resume_map (k.agrees_recorded t.emitter.style) t.emitter t.buffer
    (t.world, t.record)
  intro r
  have hr : r = (t.emitter.resume (k.recorded t.emitter.style) t.buffer
    (t.world, t.record)).map Prod.fst := hsame
  rw [hr]
  exact ⟨rfl, rfl, rfl, rfl⟩

/-- **One move.** A run that is finished is left as it is. -/
def move (k : Sink σ) (t : Session σ) (m : Move σ) : Session σ :=
  if t.finished then t
  else
    match m with
    | .resume => t.resume k
    | .settle outcome => { t with emitter := t.emitter.settle outcome }
    | .restyle style => { t with emitter := { t.emitter with style := style } }
    | .outside f => { t with world := f t.world }

def run (k : Sink σ) (t : Session σ) (moves : List (Move σ)) : Session σ :=
  moves.foldl (move k) t

def text (t : Session σ) : String := String.join (t.record.drains.map (·.text))

end Session

/-! ## Portions -/

/-- A drain with the messages it took. -/
structure Portion where
  drain : Drain
  messages : List Message

/-- **A drain takes whole messages**, printed in its style. -/
def Portion.IsWhole (p : Portion) : Prop :=
  p.drain.text = Message.printAll p.drain.style p.messages

/-- **The drains of some messages**, since the record was `drains`: portions that were asked
for, and at the end of a run the portion of its last drain. That one comes after any that
was asked for at the same point. -/
structure Record.Accounts (r : Record) (drains : List Drain) (styles : List Style)
    (done : List Message) (portions : List Portion) (last : Option Portion) : Prop where
  messages : done = (portions ++ last.toList).flatMap (·.messages)
  drains : r.drains = drains ++ (portions ++ last.toList).map (·.drain)
  whole : ∀ p ∈ portions ++ last.toList, p.IsWhole ∧ p.drain.style ∈ styles
  asked : ∀ p ∈ portions, p.drain.asked = true ∧ p.messages ≠ []
  ending : ∀ p ∈ last, p.drain.asked = true → p.messages = []

/-- What is true of the record of a call, stage by stage. What was printed and not drained
yet is the loose text. -/
def Record.During {σ : Type} (k : Sink σ) (drains : List Drain) (style : Style) :
    Stage → List Message → σ × Record → Prop
  | .drained, done, p =>
    p.2.loose = "" ∧ ∃ portions, p.2.Accounts drains [style] done portions none
  | .between, done, p =>
    ∃ before tail portions, done = before ++ tail ∧
      p.2.Accounts drains [style] before portions none ∧
      p.2.loose = Message.printAll style tail ∧
      (tail ≠ [] → k.wantsDrain p.1 = false)
  | .printed, done, p =>
    ∃ before tail portions, done = before ++ tail ∧
      p.2.Accounts drains [style] before portions none ∧
      p.2.loose = Message.printAll style tail ∧ tail ≠ []
  | .concluded, done, p =>
    p.2.loose = "" ∧ ∃ portions last, p.2.Accounts drains [style] done portions (some last)

namespace Record

variable {σ : Type} {k : Sink σ} {drains : List Drain} {style : Style} {styles : List Style}
  {done before tail : List Message} {portions : List Portion} {r : Record}

theorem foldl_emit (k : Sink σ) (style : Style) (texts : List String) (p : σ × Record) :
    (texts.foldl (k.recorded style).emit p).2
      = { p.2 with loose := p.2.loose ++ String.join texts } := by
  induction texts generalizing p with
  | nil => simp
  | cons text texts ih =>
    rw [List.foldl_cons, ih, String.join_cons]
    simp only [Sink.recorded, String.append_assoc]

/-- The record after a drain. -/
def drained (r : Record) (style : Style) (asked : Bool) : Record :=
  ⟨r.drains ++ [⟨style, r.loose, asked⟩], ""⟩

namespace Accounts

theorem refl (r : Record) (styles : List Style) : r.Accounts r.drains styles [] [] none :=
  ⟨rfl, by simp, by simp, by simp, by simp⟩

/-- Loose text that is whole messages makes a whole portion. -/
theorem whole_drained (h : r.Accounts drains [style] before portions none)
    (hloose : r.loose = Message.printAll style tail) (asked : Bool) :
    ∀ p ∈ portions ++ [⟨⟨style, r.loose, asked⟩, tail⟩],
      p.IsWhole ∧ p.drain.style ∈ [style] := by
  intro p hp
  rcases List.mem_append.mp hp with hp | hp
  · exact h.whole p (by rw [Option.toList_none, List.append_nil]; exact hp)
  · rw [List.mem_singleton.mp hp]
    exact ⟨hloose, List.mem_singleton_self style⟩

/-- A drain that was asked for takes the loose text. -/
theorem drain (h : r.Accounts drains [style] before portions none)
    (hloose : r.loose = Message.printAll style tail) (htail : tail ≠ []) :
    (r.drained style true).Accounts drains [style] (before ++ tail)
      (portions ++ [⟨⟨style, r.loose, true⟩, tail⟩]) none where
  messages := by
    rw [h.messages]
    simp
  drains := by
    rw [drained, h.drains]
    simp
  whole := by
    rw [Option.toList_none, List.append_nil]
    exact h.whole_drained hloose true
  asked := by
    intro p hp
    rcases List.mem_append.mp hp with hp | hp
    · exact h.asked p hp
    · rw [List.mem_singleton.mp hp]
      exact ⟨rfl, htail⟩
  ending := by simp

/-- So does the last drain. A question before it would have left nothing loose. -/
theorem conclude (h : r.Accounts drains [style] before portions none)
    (hloose : r.loose = Message.printAll style tail) {asked : Bool}
    (hasked : tail ≠ [] → asked = false) :
    (r.drained style asked).Accounts drains [style] (before ++ tail) portions
      (some ⟨⟨style, r.loose, asked⟩, tail⟩) where
  messages := by
    rw [h.messages]
    simp
  drains := by
    rw [drained, h.drains]
    simp
  whole := h.whole_drained hloose asked
  asked := h.asked
  ending := by
    intro p hp hask
    obtain rfl := Option.mem_some.mp hp
    by_cases htail : tail = []
    · exact htail
    · exact absurd (hask.symm.trans (hasked htail)) (by simp)

/-- What one call drains goes on from what the calls before have drained. -/
theorem append {r' : Record} {after : List Message} {portions' : List Portion}
    {last : Option Portion} (h : r.Accounts drains styles before portions none)
    (h' : r'.Accounts r.drains [style] after portions' last) (hstyle : style ∈ styles) :
    r'.Accounts drains styles (before ++ after) (portions ++ portions') last where
  messages := by
    rw [h.messages, h'.messages]
    simp
  drains := by
    rw [h'.drains, h.drains]
    simp
  whole := by
    intro p hp
    rw [List.append_assoc] at hp
    rcases List.mem_append.mp hp with hp | hp
    · exact h.whole p (by rw [Option.toList_none, List.append_nil]; exact hp)
    · obtain ⟨hwhole, hp⟩ := h'.whole p hp
      exact ⟨hwhole, (List.mem_singleton.mp hp) ▸ hstyle⟩
  asked := by
    intro p hp
    rcases List.mem_append.mp hp with hp | hp
    · exact h.asked p hp
    · exact h'.asked p hp
  ending := h'.ending

/-- A call that printed nothing and made no last drain made none. -/
theorem drains_of_nil (h : r.Accounts drains styles [] portions none) : r.drains = drains := by
  -- every portion that was asked for has a message, and here there is none
  have hnil : portions = [] := by
    cases portions with
    | nil => rfl
    | cons p ps =>
      have hmessages := h.messages
      simp only [Option.toList_none, List.append_nil, List.flatMap_cons] at hmessages
      exact absurd (List.append_eq_nil_iff.mp hmessages.symm).1 (h.asked p List.mem_cons_self).2
  rw [h.drains, hnil]
  simp

end Accounts

/-- **A recording sink keeps account** of every message of a call. -/
theorem tracks_recorded (k : Sink σ) (style : Style) (drains : List Drain) :
    (k.recorded style).Tracks style (During k drains style) where
  print := by
    rintro done p m texts ⟨before, tail, portions, hdone, h, hloose, -⟩ htexts
    refine ⟨before, tail ++ [m], portions, ?_, ?_, ?_, by simp⟩
    · rw [hdone, List.append_assoc]
    · rw [foldl_emit]
      exact ⟨h.messages, h.drains, h.whole, h.asked, h.ending⟩
    · rw [foldl_emit, htexts, hloose, Message.printAll_append, Message.printAll_singleton]
  pass := by
    rintro done p ⟨before, tail, portions, hdone, h, hloose, -⟩ hwants
    exact ⟨before, tail, portions, hdone, h, hloose, fun _ => hwants⟩
  drain := by
    rintro done p ⟨before, tail, portions, rfl, h, hloose, htail⟩ hwants
    have hasked : k.wantsDrain p.1 = true := hwants
    refine ⟨rfl, portions ++ [⟨⟨style, p.2.loose, true⟩, tail⟩], ?_⟩
    simp only [Sink.recorded, hasked]
    exact h.drain hloose htail
  enter := by
    rintro done p ⟨hloose, portions, h⟩
    exact ⟨done, [], portions, (List.append_nil _).symm, h, hloose, fun hnil => absurd rfl hnil⟩
  conclude := by
    rintro done p ⟨before, tail, portions, rfl, h, hloose, hwants⟩
    exact ⟨rfl, portions, _, h.conclude hloose hwants⟩
  report := fun h => h
  reportLast := fun h => h

end Record

/-! ## The account of a session -/

namespace Session

variable {σ : Type} {k : Sink σ} {b : Buffer} {ms : List Message} {styles : List Style}

/-- **A session accounts for the messages of its buffer**: some were drained, the others
are still to come, and the emitter stands between two messages. -/
structure Accounts (t : Session σ) (b : Buffer) (ms : List Message) (styles : List Style)
    (portions : List Portion) (last : Option Portion) (done rest : List Message) : Prop where
  messages : ms = done ++ rest
  record : t.record.Accounts [] styles done portions last
  loose : t.record.loose = ""
  style : t.emitter.style ∈ styles
  /-- The last drain is made when all is printed. -/
  concluded : last.isSome = true → rest = []
  underWay : t.finished = false → t.buffer = b ∧ t.emitter.Rests b rest ∧
    last.isSome = t.emitter.isConcluding ∧ t.calls ≤ portions.length + last.toList.length
  atEnd : t.finished = true →
    last.isSome = true ∧ t.buffer.slots = [] ∧ t.emitter.isIdle = true

theorem accounts_start (hb : b.slots = ms.flatMap Message.slots) (style : Style) (world : σ)
    (hstyle : style ∈ styles) :
    (start b style world).Accounts b ms styles [] none [] ms where
  messages := rfl
  record := Record.Accounts.refl _ styles
  loose := rfl
  style := hstyle
  concluded := by simp
  underWay := by
    intro _
    refine ⟨rfl, ⟨rfl, ?_, ?_⟩, rfl, Nat.zero_le _⟩
    · rw [← hb]
      exact b.after_start
    · simp [start, Emitter.new, Emitter.isConcluding]
  atEnd := by simp [start]

/-- **While a drain is outstanding a call changes nothing at all.** -/
theorem resume_of_waiting {t : Session σ} (hwaits : t.emitter.isWaiting = true)
    (hrun : t.finished = false) : t.resume k = t := by
  obtain ⟨emitter, buffer, world, record, calls, finished⟩ := t
  obtain rfl : finished = false := hrun
  simp only at hwaits
  simp [resume, Emitter.resume_of_waiting hwaits, hwaits]

/-- **A walk keeps account.** What it prints goes on from what was drained before. -/
theorem accounts_walked {t : Session σ} {portions : List Portion} {done rest : List Message}
    (h : t.Accounts b ms styles portions none done rest) (hrun : t.finished = false)
    {r : Resumed (σ × Record)}
    (hwalked : t.emitter.Walked b (Record.During k t.record.drains t.emitter.style) rest r) :
    ∃ portions' last' done' rest',
      ({ emitter := r.emitter, buffer := r.buffer, world := r.state.1, record := r.state.2
         calls := t.calls + 1, finished := r.status = .done } : Session σ).Accounts b ms styles
        portions' last' done' rest' := by
  obtain ⟨-, hrests, -, hcalls⟩ := h.underWay hrun
  cases hwalked with
  | finished s hrecord =>
    obtain ⟨hloose, portions', last', hrecord⟩ := hrecord
    refine ⟨portions ++ portions', some last', done ++ rest, [], ?_⟩
    exact {
      messages := by rw [h.messages, List.append_nil]
      record := h.record.append hrecord h.style
      loose := hloose
      style := h.style
      concluded := fun _ => rfl
      underWay := by simp
      atEnd := fun _ => ⟨rfl, Buffer.slots_clear _, rfl⟩ }
  | suspended emitted rest' c s hemitted hms hafter hrecord =>
    obtain ⟨hloose, portions', hrecord⟩ := hrecord
    -- some message was printed, so this call adds a portion and is paid for by it
    have hpos : portions' ≠ [] := by
      rintro rfl
      exact hemitted (by simpa using hrecord.messages)
    have hlength := List.length_pos_iff.mpr hpos
    refine ⟨portions ++ portions', none, done ++ emitted, rest', ?_⟩
    exact {
      messages := by rw [h.messages, hms, List.append_assoc]
      record := h.record.append hrecord h.style
      loose := hloose
      style := h.style
      concluded := by simp
      underWay := by
        intro _
        refine ⟨rfl, ⟨hrests.frames, hafter, by simp [Emitter.isConcluding]⟩, rfl, ?_⟩
        simp only [List.length_append, Option.toList_none, List.length_nil] at hcalls ⊢
        omega
      atEnd := by simp }
  | concluding c s hafter hrecord =>
    obtain ⟨hloose, portions', last', hrecord⟩ := hrecord
    refine ⟨portions ++ portions', some last', done ++ rest, [], ?_⟩
    exact {
      messages := by rw [h.messages, List.append_nil]
      record := h.record.append hrecord h.style
      loose := hloose
      style := h.style
      concluded := fun _ => rfl
      underWay := by
        intro _
        refine ⟨rfl, ⟨hrests.frames, hafter, fun _ => rfl⟩, rfl, ?_⟩
        simp only [List.length_append, Option.toList_none, Option.toList_some, List.length_nil,
          List.length_singleton] at hcalls ⊢
        omega
      atEnd := by simp }

theorem accounts_resume {t : Session σ} {portions : List Portion} {last : Option Portion}
    {done rest : List Message} (h : t.Accounts b ms styles portions last done rest)
    (hrun : t.finished = false) (k : Sink σ) :
    ∃ portions' last' done' rest',
      (t.resume k).Accounts b ms styles portions' last' done' rest' := by
  obtain ⟨rfl, hrests, hlast, hcalls⟩ := h.underWay hrun
  have hstart : Record.During k t.record.drains t.emitter.style .drained [] (t.world, t.record) :=
    ⟨h.loose, [], Record.Accounts.refl _ _⟩
  have hout := Emitter.resume_outcome
    (Record.tracks_recorded k t.emitter.style t.record.drains) hrests rfl hstart
  by_cases hwaits : t.emitter.isWaiting = true
  · rw [resume_of_waiting hwaits hrun]
    exact ⟨portions, last, done, rest, h⟩
  unfold resume
  rw [if_neg hwaits]
  generalize t.emitter.resume (k.recorded t.emitter.style) t.buffer (t.world, t.record) = r at hout
  cases hout with
  | waiting h => exact absurd h hwaits
  | settled s' _ hconcludes hrecord =>
    obtain ⟨hloose, portions', hrecord⟩ := hrecord
    refine ⟨portions, last, done, rest, ?_⟩
    exact {
      messages := h.messages
      record := { h.record with drains := hrecord.drains_of_nil.trans h.record.drains }
      loose := hloose
      style := h.style
      concluded := h.concluded
      underWay := by simp
      atEnd := fun _ => ⟨hlast.trans hconcludes, Buffer.slots_clear _, rfl⟩ }
  | walked r _ hproceeds hwalked =>
    -- a run that still walks has not made its last drain
    obtain rfl : last = none := by
      rw [hproceeds] at hlast
      simpa using hlast
    exact accounts_walked h hrun hwalked

/-- **A move keeps account**, if the style it asks for is known. -/
theorem accounts_move {t : Session σ} {portions : List Portion} {last : Option Portion}
    {done rest : List Message} (h : t.Accounts b ms styles portions last done rest) (k : Sink σ)
    (m : Move σ) (hstyle : ∀ style ∈ m.style?, style ∈ styles) :
    ∃ portions' last' done' rest',
      (t.move k m).Accounts b ms styles portions' last' done' rest' := by
  unfold move
  split
  · exact ⟨portions, last, done, rest, h⟩
  · rename_i hfinished
    have hrun : t.finished = false := by simpa using hfinished
    cases m with
    | resume => exact accounts_resume h hrun k
    | settle outcome =>
      refine ⟨portions, last, done, rest, { h with style := ?_, underWay := ?_, atEnd := ?_ }⟩
      · show (t.emitter.settle outcome).style ∈ styles
        rw [Emitter.style_settle]
        exact h.style
      · intro _
        obtain ⟨hbuffer, hrests, hlast, hcalls⟩ := h.underWay hrun
        refine ⟨hbuffer, hrests.settle outcome, ?_, hcalls⟩
        rw [hlast]
        exact (Emitter.isConcluding_settle t.emitter outcome).symm
      · exact fun hend => absurd hend hfinished
    | restyle style =>
      refine ⟨portions, last, done, rest, { h with style := ?_, underWay := ?_, atEnd := ?_ }⟩
      · exact hstyle style rfl
      · intro _
        obtain ⟨hbuffer, hrests, hlast, hcalls⟩ := h.underWay hrun
        exact ⟨hbuffer, ⟨hrests.frames, hrests.after, hrests.concluding⟩, hlast, hcalls⟩
      · exact fun hend => absurd hend hfinished
    | outside f =>
      refine ⟨portions, last, done, rest, { h with underWay := ?_, atEnd := ?_ }⟩
      · exact fun _ => h.underWay hrun
      · exact fun hend => absurd hend hfinished

/-- **So does a whole session.** -/
theorem accounts_run {t : Session σ} {portions : List Portion} {last : Option Portion}
    {done rest : List Message} (h : t.Accounts b ms styles portions last done rest) (k : Sink σ)
    {moves : List (Move σ)} (hstyles : ∀ style ∈ moves.filterMap Move.style?, style ∈ styles) :
    ∃ portions' last' done' rest',
      (t.run k moves).Accounts b ms styles portions' last' done' rest' := by
  induction moves generalizing t portions last done rest with
  | nil => exact ⟨portions, last, done, rest, h⟩
  | cons m moves ih =>
    obtain ⟨portions', last', done', rest', h'⟩ := accounts_move h k m fun style hm =>
      hstyles style (List.mem_filterMap.mpr ⟨m, List.mem_cons_self, hm⟩)
    refine ih h' fun style hmoves => hstyles style ?_
    obtain ⟨m', hm', hstyle⟩ := List.mem_filterMap.mp hmoves
    exact List.mem_filterMap.mpr ⟨m', List.mem_cons_of_mem m hm', hstyle⟩

/-! ## What a session drains -/

/-- What a call drains is added, in the style that is in force. -/
theorem drains_resume (k : Sink σ) (t : Session σ) :
    ∃ added, (t.resume k).record.drains = t.record.drains ++ added ∧
      ∀ d ∈ added, d.style = t.emitter.style := by
  refine Emitter.resume_keeps
    (P := fun p : σ × Record => ∃ added, p.2.drains = t.record.drains ++ added ∧
      ∀ d ∈ added, d.style = t.emitter.style)
    ?_ ?_ ?_ t.emitter t.buffer (t.world, t.record) ⟨[], by simp, by simp⟩
  · exact fun _ _ h => h
  · exact fun _ _ h => h
  · rintro p ⟨added, hadded, hstyle⟩
    refine ⟨added ++ [⟨t.emitter.style, p.2.loose, k.wantsDrain p.1⟩], ?_, ?_⟩
    · simp only [Sink.recorded, hadded, List.append_assoc]
    · intro d hd
      rcases List.mem_append.mp hd with hd | hd
      · exact hstyle d hd
      · rw [List.mem_singleton.mp hd]

/-- As long as the style stays, all that is drained is in that style, and what was drained
before stays as it is. -/
theorem drains_run (k : Sink σ) (t : Session σ) {moves : List (Move σ)}
    (hmoves : moves.filterMap Move.style? = []) :
    ∃ added, (t.run k moves).record.drains = t.record.drains ++ added ∧
      ∀ d ∈ added, d.style = t.emitter.style := by
  induction moves generalizing t with
  | nil => exact ⟨[], by simp [run], by simp⟩
  | cons m moves ih =>
    obtain ⟨hm, hrest⟩ : m.style? = none ∧ moves.filterMap Move.style? = [] := by
      rw [List.filterMap_cons] at hmoves
      cases hm : m.style? with
      | none => exact ⟨rfl, by rwa [hm] at hmoves⟩
      | some style => simp [hm] at hmoves
    obtain ⟨added, hadded, hstyle⟩ : ∃ added,
        (t.move k m).record.drains = t.record.drains ++ added ∧
          ∀ d ∈ added, d.style = t.emitter.style := by
      unfold move
      split
      · exact ⟨[], by simp, by simp⟩
      · cases m with
        | resume => exact drains_resume k t
        | settle outcome => exact ⟨[], by simp, by simp⟩
        | restyle style => simp [Move.style?] at hm
        | outside f => exact ⟨[], by simp, by simp⟩
    have hsame : (t.move k m).emitter.style = t.emitter.style := by
      unfold move
      split
      · rfl
      · cases m with
        | resume => exact Emitter.style_resume _ _ _ _
        | settle outcome => exact Emitter.style_settle t.emitter outcome
        | restyle style => simp [Move.style?] at hm
        | outside f => rfl
    obtain ⟨added', hadded', hstyle'⟩ := ih (t.move k m) hrest
    refine ⟨added ++ added', ?_, ?_⟩
    · show ((t.move k m).run k moves).record.drains = _
      rw [hadded', hadded, List.append_assoc]
    · intro d hd
      rcases List.mem_append.mp hd with hd | hd
      · exact hstyle d hd
      · exact (hstyle' d hd).trans hsame

/-- Whole portions in one style are as the messages are printed. -/
theorem Accounts.text_eq {t : Session σ} {style : Style} {portions : List Portion}
    {last : Option Portion} {done rest : List Message}
    (h : t.Accounts b ms [style] portions last done rest) :
    t.text = Message.printAll style done := by
  have hjoin : ∀ ps : List Portion, (∀ p ∈ ps, p.IsWhole ∧ p.drain.style ∈ [style]) →
      String.join ((ps.map (·.drain)).map (·.text))
        = Message.printAll style (ps.flatMap (·.messages)) := by
    intro ps hps
    induction ps with
    | nil => rfl
    | cons p ps ih =>
      obtain ⟨hwhole, hstyle⟩ := hps p List.mem_cons_self
      rw [List.map_cons, List.map_cons, String.join_cons, List.flatMap_cons,
        Message.printAll_append, ih fun q hq => hps q (List.mem_cons_of_mem p hq), hwhole,
        List.mem_singleton.mp hstyle]
  rw [text, h.record.drains, List.nil_append, hjoin _ h.record.whole, h.record.messages]

/-- A run goes on for at most one call more than there are messages. -/
theorem Accounts.calls_le {t : Session σ} {portions : List Portion} {last : Option Portion}
    {done rest : List Message} (h : t.Accounts b ms styles portions last done rest)
    (hrun : t.finished = false) : t.calls ≤ ms.length + 1 := by
  obtain ⟨-, -, -, hcalls⟩ := h.underWay hrun
  have hportions : portions.length ≤ (portions.flatMap (·.messages)).length := by
    rw [List.length_flatMap]
    -- no two portions share a message and none is empty, so there are no more of them than messages
    have hasked := h.record.asked
    clear h hcalls
    induction portions with
    | nil => simp
    | cons p ps ih =>
      have hpos := List.length_pos_iff.mpr (hasked p List.mem_cons_self).2
      have hrest := ih fun q hq => hasked q (List.mem_cons_of_mem p hq)
      simp only [List.length_cons, List.map_cons, List.sum_cons]
      omega
  have hlast : last.toList.length ≤ 1 := by cases last <;> simp
  have hms : (portions.flatMap (·.messages)).length ≤ ms.length := by
    rw [h.messages, h.record.messages, List.flatMap_append]
    simp only [List.length_append]
    omega
  omega

/-- **A run does not depend on the schedule of its drains.** Take any surroundings, any style
and any moves, and let `t` be the session they lead to.

* It accounts for the messages of its buffer: each drain took whole messages in the style in
  force, and when the run is finished the buffer is empty, the emitter idle, no message is
  left and a last drain was made.
* If the style was never changed, what was drained is what a sink that never asks would have
  been given, up to the messages that are still to come.
* While a drain is outstanding a call changes nothing.
* Until the style is changed, all that is drained from now on is in the style of now, and
  what was drained before stays.
* It cannot go on for ever: it is finished after two more calls than there are messages, not
  counting those that found a drain outstanding. -/
theorem run_of_any_schedule (hb : b.Holds ms) (k : Sink σ) (style : Style) (world : σ)
    (moves : List (Move σ)) :
    let t := (start b style world).run k moves
    (∃ portions last done rest,
      t.Accounts b ms (style :: moves.filterMap Move.style?) portions last done rest ∧
      (t.finished = true → rest = []) ∧
      (moves.filterMap Move.style? = [] →
        t.text ++ Message.printAll style rest = b.rendered style)) ∧
    (t.finished = false → t.emitter.isWaiting = true → t.move k .resume = t) ∧
    (∀ more : List (Move σ), more.filterMap Move.style? = [] →
      ∃ added, (t.run k more).record.drains = t.record.drains ++ added ∧
        ∀ d ∈ added, d.style = t.emitter.style) ∧
    (t.finished = false → t.calls ≤ ms.length + 1) := by
  intro t
  obtain ⟨portions, last, done, rest, h⟩ := accounts_run
    (accounts_start hb.slots_eq style world List.mem_cons_self) k
    (fun style' h' => List.mem_cons_of_mem style h')
  refine ⟨⟨portions, last, done, rest, h, ?_, ?_⟩, ?_, ?_, ?_⟩
  -- a run that is finished has made its last drain, and that comes after all messages
  · exact fun hfinished => h.concluded (h.atEnd hfinished).1
  · intro hsame
    rw [hsame] at h
    rw [h.text_eq, Buffer.rendered_messages hb.slots_eq, h.messages,
      Message.printAll_append]
  · intro hrun hwaits
    rw [move, if_neg (by simp [hrun])]
    exact resume_of_waiting hwaits hrun
  · exact fun more hmore => drains_run k t hmore
  · exact h.calls_le

def greeting : Message :=
  { clock := .stepping default 0
    origin := ⟨.new "app" "::1", "app"⟩
    level := .info
    format := ⟨"greeting", "good morning".toList, [], rfl⟩
    args := .none }

/-- Surroundings that want a drain after every message and leave it outstanding. -/
def reluctant : Sink String where
  emit text piece := text ++ piece
  report text _ := text
  wantsDrain _ := true
  drain text := (text, .outstanding)

/-- One message, and two drains of which the first is given up. -/
theorem run_of_greeting :
    let b := (Buffer.empty.log greeting.clock greeting.origin greeting.level greeting.format
      greeting.args).1
    let t := (start b .standard "").run reluctant [.resume, .settle .dropped, .resume]
    b.Holds [greeting] ∧
      (∃ portions last done rest, t.Accounts b [greeting] [.standard] portions last done rest ∧
        t.text ++ Message.printAll .standard rest = b.rendered .standard) ∧
      (t.finished = false → t.calls ≤ 2) := by
  intro b t
  have hb : b.Holds [greeting] := Buffer.Holds.empty.log greeting
  obtain ⟨⟨portions, last, done, rest, h, -, htext⟩, -, -, hcalls⟩ := run_of_any_schedule hb
    reluctant .standard "" [.resume, .settle .dropped, .resume]
  exact ⟨hb, ⟨portions, last, done, rest, h, htext rfl⟩, hcalls⟩

end Session

end Logbook
