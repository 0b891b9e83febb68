/-
Every message is delivered once.

A registry is followed through any number of operations. At each point its messages are in
one of four places: handed over by a writer, held by a writer, in the pending buffer after
the cursor, or in the hot buffer. `Registry.Sound` describes such a point, and what an
operation does is to move messages from one place to the next, or to add one at the end.
The text that the four places stand for together is therefore the text of what was logged,
in the order in which it was logged.

The writer may be anything that hands over all it holds when it is drained, and its drains
may call the registry. Such calls are made of a busy registry and keep all four places.
-/
import Logbook.Proofs.Registry.Calls
import Logbook.Proofs.Emission.Walk

set_option autoImplicit false

namespace Logbook

/-! ## Writers that hand over what they hold -/

/-- **A writer that hands over all it holds when it is drained**, whatever the calls are
answered that the drain makes. What it holds and what it has handed over are read off its
state. -/
structure Ledger (ω : Type) [Writer ω] where
  held : ω → String
  handed : ω → String
  held_emit : ∀ w text, held (Writer.emit w text) = held w ++ text
  handed_emit : ∀ w text, handed (Writer.emit w text) = handed w
  drain : ∀ w, (Writer.drain w).Always fun p => held p.1 = "" ∧ handed p.1 = handed w ++ held w

/-- The default writer in front of a flusher that captures. -/
def Buffered.ledger : Ledger (Buffered Captured) where
  held w := w.held
  handed w := w.flusher.contents
  held_emit _ _ := rfl
  handed_emit _ _ := rfl
  drain w := by
    show (Buffered.drain w).Always _
    unfold Buffered.drain
    by_cases hempty : w.held.isEmpty = true
    · have hheld : w.held = "" := String.isEmpty_iff.mp hempty
      rw [if_pos hempty]
      exact ⟨hheld, by rw [hheld, String.append_empty]⟩
    · rw [if_neg hempty]
      exact ⟨rfl, rfl⟩

namespace Ledger

variable {ω : Type} [Writer ω] (L : Ledger ω)

def Fresh : Type := { w : ω // L.held w = "" ∧ L.handed w = "" }

def written (w : ω) : String := L.handed w ++ L.held w

theorem written_foldl_emit (texts : List String) (w : ω) :
    L.written (texts.foldl Writer.emit w) = L.written w ++ String.join texts := by
  induction texts generalizing w with
  | nil => simp
  | cons text texts ih =>
    rw [List.foldl_cons, ih, String.join_cons, written, written, L.held_emit, L.handed_emit]
    simp only [String.append_assoc]

end Ledger

namespace Registry

variable {ω : Type} [Writer ω] {L : Ledger ω} {style : Style}

/-! ## The surroundings of a run -/

/-- **What a run that started at `r` has come to** when it has printed `done`: these are
written, and after a drain nothing is held. -/
structure Writing (L : Ledger ω) (style : Style) (r : Registry ω) (stage : Stage)
    (done : List Message) (s : Registry ω) : Prop where
  frame : ({ r with busy := true, writer := s.writer } : Registry ω).Keeps s
  written : L.written s.writer = L.written r.writer ++ Message.printAll style done
  held : stage = .drained ∨ stage = .concluded → L.held s.writer = ""

theorem foldl_emit (texts : List String) (s : Registry ω) :
    texts.foldl sink.emit s = { s with writer := texts.foldl Writer.emit s.writer } := by
  induction texts generalizing s with
  | nil => rfl
  | cons text texts ih => rw [List.foldl_cons, ih, List.foldl_cons, sink]

namespace Writing

variable {r s : Registry ω} {stage stage' : Stage} {done : List Message}

theorem report (h : Writing L style r stage done s) (d : Diagnostic) :
    Writing L style r stage done (s.report d) :=
  ⟨h.frame.trans (keeps_report s d), h.written, h.held⟩

/-- A stage at which something may be held. -/
theorem relax (h : Writing L style r stage done s) (hdrained : stage' ≠ .drained)
    (hconcluded : stage' ≠ .concluded) : Writing L style r stage' done s :=
  ⟨h.frame, h.written, fun hstage =>
    (hstage.elim (absurd · hdrained) (absurd · hconcluded))⟩

/-- A drain hands over what was held, and its calls change nothing of this. -/
theorem drain (h : Writing L style r stage done s) (stage' : Stage) :
    Writing L style r stage' done (sink.drain s).1 := by
  have hbusy : s.busy = true := h.frame.busy
  have hkeeps := Reentry.keeps_run (Writer.drain s.writer) hbusy
  obtain ⟨hheld, hhanded⟩ := Reentry.run_always (L.drain s.writer) Registry.report answer s
  have hwritten := h.written
  simp only [sink]
  -- the writer of the registry is put in at the end, in place of whatever the calls had seen
  refine ⟨(h.frame.trans hkeeps).withWriter _, ?_, fun _ => hheld⟩
  rw [← hwritten, Ledger.written, Ledger.written, hheld, hhanded, String.append_empty]

end Writing

/-- **A registry keeps track** of what its run has written. -/
theorem tracks_sink (L : Ledger ω) (style : Style) (r : Registry ω) :
    (sink : Sink (Registry ω)).Tracks style (Writing L style r) where
  print := by
    intro done s m texts h htexts
    rw [foldl_emit]
    refine ⟨h.frame.withWriter _, ?_, by simp⟩
    show L.written (texts.foldl Writer.emit s.writer) = _
    rw [L.written_foldl_emit, h.written, htexts, Message.printAll_append,
      Message.printAll_singleton, String.append_assoc]
  pass := fun h _ => h.relax (by simp) (by simp)
  drain := fun h _ => h.drain _
  enter := fun h => h.relax (by simp) (by simp)
  conclude := fun h => h.drain _
  report := fun h => h.report _
  reportLast := fun h => h.report _

/-! ## Between calls -/

/-- **A registry between two calls**, with messages that the run under way has not printed
yet and messages in its hot buffer. -/
structure Sound (L : Ledger ω) (style : Style) (r : Registry ω) (waiting hot : List Message) :
    Prop where
  free : r.busy = false
  wide : r.IsWide
  style : r.emitter.style = style
  hot : r.hot.slots = hot.flatMap Message.slots
  rests : r.emitter.Rests r.pending waiting
  held : L.held r.writer = ""

/-- **The messages that a registry still has**: those that the run under way has not printed
yet, and those of the hot buffer. -/
structure Retains (r : Registry ω) (waiting hot : List Message) : Prop where
  waiting : r.pending.after r.emitter.cursor = waiting.flatMap Message.slots
  hot : r.hot.slots = hot.flatMap Message.slots

theorem Sound.retains {r : Registry ω} {waiting hot : List Message}
    (h : r.Sound L style waiting hot) : r.Retains waiting hot := ⟨h.rests.after, h.hot⟩

/-- The pending buffer holds messages only while a run is under way. -/
def Settled (r : Registry ω) : Prop :=
  r.emitter.isIdle = true → r.pending.slots = [] ∧ r.emitter.cursor = .start

/-- Those of some messages that are to be written. -/
def passing (r : Registry ω) (ms : List Message) : List Message :=
  ms.filter (·.level.passes r.writeLevel)

/-- **The text that stands for the messages of a registry**, from those that are handed over
to those that were logged last. -/
def delivery (L : Ledger ω) (style : Style) (r : Registry ω) (waiting hot : List Message) :
    String :=
  L.handed r.writer ++ L.held r.writer ++ Message.printAll style waiting
    ++ Message.printAll style (r.passing hot)

omit [Writer ω] in
theorem passing_of_writeLevel {r s : Registry ω} (h : s.writeLevel = r.writeLevel)
    (ms : List Message) : s.passing ms = r.passing ms := by
  rw [passing, passing, h]

/-- How many drains can still hold up a run of so many messages: one for each message and
one at the end. No run is made of no message. -/
def runHoldups (n : Nat) : Nat := if n = 0 then 0 else n + 1

/-- How many drains can still hold up the run under way and the next one. -/
def holdups (r : Registry ω) (waiting hot : List Message) : Nat :=
  (if r.emitter.isIdle || r.emitter.isConcluding then 0 else waiting.length + 1)
    + runHoldups (r.passing hot).length

theorem sound_new (s : Settings) (w : L.Fresh) :
    (Registry.new s w.val).Sound L s.style [] [] ∧ (Registry.new s w.val).Settled := by
  have hafter : Buffer.empty.after Cursor.start = [] := by
    rw [Buffer.after_start, Buffer.slots_empty]
  refine ⟨⟨rfl, isWide_new s w.val, rfl, Buffer.slots_empty, ⟨rfl, hafter, fun _ => rfl⟩,
    w.property.1⟩, fun _ => ⟨Buffer.slots_empty, rfl⟩⟩

theorem Sound.waiting_of_idle {r : Registry ω} {waiting hot : List Message}
    (h : r.Sound L style waiting hot) (hsettled : r.Settled) (hidle : r.emitter.isIdle = true) :
    waiting = [] := by
  obtain ⟨hslots, hcursor⟩ := hsettled hidle
  have hafter := h.rests.after
  rw [hcursor, Buffer.after_start, hslots] at hafter
  exact Message.eq_nil_of_flatMap_slots hafter.symm

/-- What keeps the four places keeps a registry sound, and its delivery. -/
theorem Sound.keeps {r s : Registry ω} {waiting hot : List Message}
    (h : r.Sound L style waiting hot) (hkeeps : r.Keeps s) :
    s.Sound L style waiting hot ∧ (r.Settled → s.Settled) ∧
      s.delivery L style waiting hot = r.delivery L style waiting hot ∧
      s.holdups waiting hot = r.holdups waiting hot := by
  refine ⟨⟨hkeeps.busy.trans h.free, hkeeps.wide h.wide, ?_, ?_, ?_, ?_⟩, ?_, ?_, ?_⟩
  · rw [hkeeps.emitter]
    exact h.style
  · rw [hkeeps.hot]
    exact h.hot
  · rw [hkeeps.emitter, hkeeps.pending]
    exact h.rests
  · rw [hkeeps.writer]
    exact h.held
  · intro hsettled
    rw [Settled, hkeeps.emitter, hkeeps.pending]
    exact hsettled
  · rw [delivery, delivery, passing_of_writeLevel hkeeps.writeLevel, hkeeps.writer]
  · rw [holdups, holdups, passing_of_writeLevel hkeeps.writeLevel, hkeeps.emitter]

theorem Sound.settle {r : Registry ω} {waiting hot : List Message}
    (h : r.Sound L style waiting hot) (hsettled : r.Settled) (outcome : Signal) :
    (r.settle outcome).Sound L style waiting hot ∧ (r.settle outcome).Settled ∧
      (r.settle outcome).holdups waiting hot = r.holdups waiting hot := by
  refine ⟨⟨h.free, ⟨h.wide.fresh, h.wide.loggers⟩, ?_, h.hot, h.rests.settle outcome, h.held⟩,
    ?_, ?_⟩
  · exact (Emitter.style_settle r.emitter outcome).trans h.style
  · intro hidle
    have hidle' : r.emitter.isIdle = true :=
      (Emitter.isIdle_settle r.emitter outcome).symm.trans hidle
    exact ⟨(hsettled hidle').1,
      (Emitter.cursor_settle r.emitter outcome).trans (hsettled hidle').2⟩
  · show (if (r.emitter.settle outcome).isIdle || (r.emitter.settle outcome).isConcluding then 0
      else waiting.length + 1) + _ = _
    rw [Emitter.isIdle_settle, Emitter.isConcluding_settle]
    rfl

/-! ## A run -/

/-- **From `r` to `r'` messages were moved on** from place to place, in their order. -/
structure Advances (L : Ledger ω) (style : Style) (r : Registry ω) (waiting hot : List Message)
    (r' : Registry ω) (waiting' hot' : List Message) : Prop where
  sound : r'.Sound L style waiting' hot'
  settled : r'.Settled
  closed : r'.closed = r.closed
  writeLevel : r'.writeLevel = r.writeLevel
  delivery : r'.delivery L style waiting' hot' = r.delivery L style waiting hot

theorem Advances.trans {r r' r'' : Registry ω}
    {waiting hot waiting' hot' waiting'' hot'' : List Message}
    (h : Advances L style r waiting hot r' waiting' hot')
    (h' : Advances L style r' waiting' hot' r'' waiting'' hot'') :
    Advances L style r waiting hot r'' waiting'' hot'' :=
  ⟨h'.sound, h'.settled, h'.closed.trans h.closed, h'.writeLevel.trans h.writeLevel,
    h'.delivery.trans h.delivery⟩

/-- After a drain a run has moved what it has printed to the writer. -/
theorem Writing.advances {r s : Registry ω} {stage : Stage} {printed left hot : List Message}
    (h : Writing L style r stage printed s) (hstage : stage = .drained ∨ stage = .concluded)
    (hsound : r.Sound L style (printed ++ left) hot) {e : Emitter} {b : Buffer}
    (hstyle : e.style = style) (hrests : e.Rests b left)
    (hsettled : e.isIdle = true → b.slots = [] ∧ e.cursor = .start) :
    Advances L style r (printed ++ left) hot
      { s with busy := false, emitter := e, pending := b } left hot := by
  have hheld := h.held hstage
  have hwide : s.IsWide := h.frame.wide ⟨hsound.wide.fresh, hsound.wide.loggers⟩
  have hhot : s.hot.slots = hot.flatMap Message.slots := by
    rw [h.frame.hot]
    exact hsound.hot
  refine ⟨⟨rfl, ⟨hwide.fresh, hwide.loggers⟩, hstyle, hhot, hrests, hheld⟩, hsettled,
    h.frame.closed, h.frame.writeLevel, ?_⟩
  have hwritten := h.written
  have hlevel : s.writeLevel = r.writeLevel := h.frame.writeLevel
  rw [Ledger.written, Ledger.written] at hwritten
  simp only [delivery, passing, hlevel]
  rw [hwritten, Message.printAll_append]
  simp only [String.append_assoc]

/-- A run that has printed all leaves nothing. -/
theorem Writing.advances_all {r s : Registry ω} {stage : Stage} {printed hot : List Message}
    (h : Writing L style r stage printed s) (hstage : stage = .drained ∨ stage = .concluded)
    (hsound : r.Sound L style printed hot) {e : Emitter} {b : Buffer}
    (hstyle : e.style = style) (hrests : e.Rests b [])
    (hsettled : e.isIdle = true → b.slots = [] ∧ e.cursor = .start) :
    Advances L style r printed hot { s with busy := false, emitter := e, pending := b } [] hot := by
  have hsound' : r.Sound L style (printed ++ []) hot := by
    rw [List.append_nil]
    exact hsound
  have hadvances := h.advances hstage hsound' hstyle hrests hsettled
  rwa [List.append_nil] at hadvances

inductive Ran (L : Ledger ω) (style : Style) (r : Registry ω) (waiting hot : List Message) :
    Registry ω × FlushResult → Prop where
  /-- Nothing: a drain is outstanding. -/
  | waiting (hwaits : r.emitter.isWaiting = true) : Ran L style r waiting hot (r, .pending)
  /-- All is printed and drained. -/
  | done (r' : Registry ω) (h : Advances L style r waiting hot r' [] hot)
      (hidle : r'.emitter.isIdle = true) : Ran L style r waiting hot (r', .done)
  /-- A drain was left outstanding, after a message or at the end. -/
  | suspended (r' : Registry ω) (left : List Message)
      (h : Advances L style r waiting hot r' left hot) (hwaits : r'.emitter.isWaiting = true)
      (hproceeds : r.emitter.isConcluding = false)
      (hprogress : left.length < waiting.length ∨ r'.emitter.isConcluding = true) :
    Ran L style r waiting hot (r', .pending)

theorem Sound.run {r : Registry ω} {waiting hot : List Message}
    (h : r.Sound L style waiting hot) : Ran L style r waiting hot r.run := by
  have hstart : Writing L style r .drained [] { r with busy := true } := by
    refine ⟨Keeps.refl _, ?_, fun _ => h.held⟩
    rw [Message.printAll, List.map_nil, String.join_nil, String.append_empty]
  have hout := Emitter.resume_outcome (tracks_sink L style r) h.rests h.style hstart
  unfold Registry.run
  generalize r.emitter.resume sink r.pending { r with busy := true } = resumed at hout
  cases hout with
  | waiting hwaits =>
    -- the registry was not busy before, so setting and resetting the flag leaves it the same
    have hsame : ({ r with busy := false } : Registry ω) = r := by rw [← h.free]
    show Ran L style r waiting hot ({ r with busy := false }, .pending)
    rw [hsame]
    exact .waiting hwaits
  | settled s hwaits hconcludes hwriting =>
    obtain rfl := h.rests.concluding hconcludes
    exact .done _ (hwriting.advances_all (.inl rfl) h h.style (.rewound r.emitter r.pending)
      fun _ => ⟨Buffer.slots_clear _, rfl⟩) rfl
  | walked resumed hwaits hproceeds hwalked =>
    cases hwalked with
    | finished s hwriting =>
      exact .done _ (hwriting.advances_all (.inr rfl) h h.style (.rewound r.emitter r.pending)
        fun _ => ⟨Buffer.slots_clear _, rfl⟩) rfl
    | suspended printed left c s hprinted hms hafter hwriting =>
      subst hms
      refine .suspended _ left (hwriting.advances (.inl rfl) h h.style
        ⟨h.rests.frames, hafter, ?_⟩ ?_) rfl hproceeds (.inl ?_)
      · simp [Emitter.isConcluding]
      · simp [Emitter.isIdle]
      · have hpos := List.length_pos_iff.mpr hprinted
        rw [List.length_append]
        omega
    | concluding c s hafter hwriting =>
      have hadvances := hwriting.advances_all (.inr rfl) h
        (e := { r.emitter with cursor := c, phase := .draining .outstanding .conclude })
        h.style ⟨h.rests.frames, hafter, fun _ => rfl⟩ (by simp [Emitter.isIdle])
      exact .suspended _ [] hadvances rfl hproceeds (.inr rfl)

/-! ## A flush -/

/-- **What a flush comes to.** -/
inductive Flushed (L : Ledger ω) (style : Style) (r : Registry ω) (waiting hot : List Message) :
    Registry ω × FlushResult → Prop where
  /-- Nothing: a drain is outstanding. -/
  | waiting (hwaits : r.emitter.isWaiting = true) : Flushed L style r waiting hot (r, .pending)
  /-- There was nothing to write. -/
  | empty (r' : Registry ω) (h : Advances L style r waiting hot r' [] [])
      (hidle : r'.emitter.isIdle = true) : Flushed L style r waiting hot (r', .empty)
  /-- A run was finished. If it was a new one there was something to write, and all of it is
  written now. -/
  | done (r' : Registry ω) (hot' : List Message) (h : Advances L style r waiting hot r' [] hot')
      (hidle : r'.emitter.isIdle = true)
      (hnew : r.emitter.isIdle = true → r.passing hot ≠ [] ∧ hot' = [])
      (hholdups : r'.holdups [] hot' ≤ r.holdups waiting hot) :
    Flushed L style r waiting hot (r', .done)
  /-- A drain was left outstanding, and one less can follow. -/
  | suspended (r' : Registry ω) (left hot' : List Message)
      (h : Advances L style r waiting hot r' left hot') (hwaits : r'.emitter.isWaiting = true)
      (hholdups : r'.holdups left hot' < r.holdups waiting hot) :
    Flushed L style r waiting hot (r', .pending)

theorem Advances.refl {r : Registry ω} {waiting hot : List Message}
    (h : r.Sound L style waiting hot) (hsettled : r.Settled) :
    Advances L style r waiting hot r waiting hot :=
  ⟨h, hsettled, rfl, rfl, rfl⟩

/-- However a flush ends, messages were moved on at most. -/
theorem Flushed.advances {r : Registry ω} {waiting hot : List Message}
    {result : Registry ω × FlushResult} (h : Flushed L style r waiting hot result)
    (hsound : r.Sound L style waiting hot) (hsettled : r.Settled) :
    ∃ waiting' hot', Advances L style r waiting hot result.1 waiting' hot' := by
  cases h with
  | waiting hwaits => exact ⟨waiting, hot, .refl hsound hsettled⟩
  | empty r' h hidle => exact ⟨[], [], h⟩
  | done r' hot' h hidle hnew hholdups => exact ⟨[], hot', h⟩
  | suspended r' left hot' h hwaits hholdups => exact ⟨left, hot', h⟩

omit [Writer ω] in
theorem refill_of_idle {r : Registry ω} (hidle : r.emitter.isIdle = true) :
    r.refill
      = { r with hot := r.hot.clear, pending := r.hot.copyRetained r.writeLevel r.pending } := by
  rw [Registry.refill, if_pos hidle, Buffer.moveRetained]

omit [Writer ω] in
/-- A run that is under way gets nothing more to print. -/
theorem refill_of_not_idle {r : Registry ω} (hidle : r.emitter.isIdle = false) :
    r.refill = r := by
  rw [Registry.refill, if_neg (by simp [hidle])]

/-- Between runs what passes becomes what waits. -/
theorem Sound.refill {r : Registry ω} {waiting hot : List Message}
    (h : r.Sound L style waiting hot) (hsettled : r.Settled) (hidle : r.emitter.isIdle = true) :
    r.refill.Sound L style (r.passing hot) [] ∧ r.refill.emitter = r.emitter ∧
      r.refill.closed = r.closed ∧ r.refill.writeLevel = r.writeLevel ∧
      r.refill.delivery L style (r.passing hot) [] = r.delivery L style waiting hot := by
  obtain ⟨hslots, hcursor⟩ := hsettled hidle
  obtain rfl := h.waiting_of_idle hsettled hidle
  have hpending : (r.hot.copyRetained r.writeLevel r.pending).slots
      = (r.passing hot).flatMap Message.slots := by
    rw [Buffer.slots_copyRetained h.hot, hslots, List.nil_append, passing]
  have hrests : r.emitter.Rests (r.hot.copyRetained r.writeLevel r.pending) (r.passing hot) := by
    refine ⟨h.rests.frames, ?_, ?_⟩
    · rw [hcursor, Buffer.after_start, hpending]
    · intro hconcludes
      rw [Emitter.isConcluding_of_isIdle hidle] at hconcludes
      exact absurd hconcludes Bool.false_ne_true
  rw [refill_of_idle hidle]
  refine ⟨⟨h.free, ⟨h.wide.fresh, h.wide.loggers⟩, h.style, Buffer.slots_clear r.hot, hrests,
    h.held⟩, rfl, rfl, rfl, ?_⟩
  simp [delivery, passing, Message.printAll]

/-- **A flush with nothing to write** empties the hot buffer, and that is all. -/
theorem flush_of_nothing {r : Registry ω} {hot : List Message} (hfree : r.busy = false)
    (hidle : r.emitter.isIdle = true) (hpending : r.pending.slots = [])
    (hhot : r.hot.slots = hot.flatMap Message.slots) (hnone : r.passing hot = []) :
    r.flush = ({ r with hot := r.hot.clear }, .empty) := by
  have hretained : retained r.writeLevel false r.hot.slots = [] := by
    rw [hhot, retained_messages]
    exact congrArg (List.flatMap Message.slots) hnone
  -- an empty hot buffer is cleared all the same, and nothing is moved
  have hrefill : r.refill = { r with hot := r.hot.clear } := by
    rw [refill_of_idle hidle, Buffer.copyRetained, hretained]
    rfl
  have hempty : r.pending.isEmpty = true := (Buffer.isEmpty_iff_slots _).mpr hpending
  rw [Registry.flush, if_neg (by simp [hfree]), hrefill]
  simp only [hidle, hempty, Bool.and_self, if_true]

/-- **Any other flush is a run**: it goes on with the one under way, or starts one. -/
theorem Sound.flush_eq_run {r : Registry ω} {waiting hot : List Message}
    (h : r.Sound L style waiting hot) (hsettled : r.Settled)
    (hrun : r.emitter.isIdle = false ∨ r.passing hot ≠ []) : r.flush = r.refill.run := by
  rw [Registry.flush, if_neg (by simp [h.free])]
  refine if_neg ?_
  rw [Bool.and_eq_true, not_and]
  intro hidle hempty
  by_cases hidle₀ : r.emitter.isIdle = true
  · -- what passes stands in the pending buffer now, so that is empty only if nothing does
    obtain ⟨hsound, hemitter, -⟩ := h.refill hsettled hidle₀
    have hafter := hsound.rests.after
    rw [hemitter, (hsettled hidle₀).2, Buffer.after_start, (Buffer.isEmpty_iff_slots _).mp hempty]
      at hafter
    exact (hrun.resolve_left (by simp [hidle₀])) (Message.eq_nil_of_flatMap_slots hafter.symm)
  · rw [refill_of_not_idle (by simpa using hidle₀)] at hidle
    exact hidle₀ hidle

/-- A flush between runs starts one if there is something to write. -/
theorem Sound.flush_of_idle {r : Registry ω} {waiting hot : List Message}
    (h : r.Sound L style waiting hot) (hsettled : r.Settled) (hidle : r.emitter.isIdle = true) :
    Flushed L style r waiting hot r.flush := by
  obtain rfl := h.waiting_of_idle hsettled hidle
  by_cases hpassing : r.passing hot = []
  · rw [flush_of_nothing h.free hidle (hsettled hidle).1 h.hot hpassing]
    refine .empty _ ⟨?_, hsettled, rfl, rfl, ?_⟩ hidle
    · exact ⟨h.free, ⟨h.wide.fresh, h.wide.loggers⟩, h.style, Buffer.slots_clear r.hot, h.rests,
        h.held⟩
    · rw [delivery, delivery, hpassing]
      rfl
  · obtain ⟨hsound, hemitter, hclosed, hlevel, hdelivery⟩ := h.refill hsettled hidle
    rw [h.flush_eq_run hsettled (.inr hpassing)]
    have hran := hsound.run
    generalize r.refill.run = result at hran
    -- the run starts from the refilled registry, the statement speaks of the one before
    have hadvances : ∀ {r' : Registry ω} {left : List Message},
        Advances L style r.refill (r.passing hot) [] r' left [] →
        Advances L style r [] hot r' left [] := by
      intro r' left h'
      exact ⟨h'.sound, h'.settled, h'.closed.trans hclosed, h'.writeLevel.trans hlevel,
        h'.delivery.trans hdelivery⟩
    have hbefore : r.holdups [] hot = (r.passing hot).length + 1 := by
      simp [holdups, runHoldups, hidle, hpassing]
    rcases hran with hwaits | ⟨r', h', hidle''⟩ | ⟨r', left, h', hwaits, hproceeds, hprogress⟩
    · exact absurd (Emitter.isIdle_of_isWaiting hwaits) (by simp [hemitter, hidle])
    · refine .done r' [] (hadvances h') hidle'' (fun _ => ⟨hpassing, rfl⟩) ?_
      simp [holdups, runHoldups, hidle'', passing]
    · refine .suspended r' left [] (hadvances h') hwaits ?_
      have hnone : r'.passing [] = [] := rfl
      rw [hbefore, holdups, hnone, List.length_nil, runHoldups, if_pos rfl]
      rcases hprogress with hless | hconcludes
      · split <;> omega
      · simp [hconcludes]

/-- A flush during a run goes on with it, and the hot buffer has to wait. -/
theorem Sound.flush_of_not_idle {r : Registry ω} {waiting hot : List Message}
    (h : r.Sound L style waiting hot) (hsettled : r.Settled) (hidle : ¬ r.emitter.isIdle = true) :
    Flushed L style r waiting hot r.flush := by
  have hnotIdle : r.emitter.isIdle = false := by simpa using hidle
  rw [h.flush_eq_run hsettled (.inl hnotIdle), refill_of_not_idle hnotIdle]
  have hran := h.run
  generalize r.run = result at hran
  rcases hran with hwaits | ⟨r', h', hidle'⟩ | ⟨r', left, h', hwaits, hproceeds, hprogress⟩
  · exact .waiting hwaits
  · refine .done r' hot h' hidle' (fun h => absurd h hidle) ?_
    rw [holdups, holdups, passing_of_writeLevel h'.writeLevel, hidle', Bool.true_or, if_pos rfl]
    omega
  · refine .suspended r' left hot h' hwaits ?_
    have hproceeds' : ¬ (r.emitter.isIdle || r.emitter.isConcluding) = true := by
      simp [hnotIdle, hproceeds]
    rw [holdups, holdups, passing_of_writeLevel h'.writeLevel, if_neg hproceeds']
    rcases hprogress with hless | hconcludes
    · split <;> omega
    · rw [hconcludes, Bool.or_true, if_pos rfl]
      omega

theorem Sound.flush {r : Registry ω} {waiting hot : List Message}
    (h : r.Sound L style waiting hot) (hsettled : r.Settled) :
    Flushed L style r waiting hot r.flush := by
  by_cases hidle : r.emitter.isIdle = true
  · exact h.flush_of_idle hsettled hidle
  · exact h.flush_of_not_idle hsettled hidle

/-! ## A close -/

/-- **What flushing until nothing is left comes to.** -/
inductive FlushedAll (L : Ledger ω) (style : Style) (r : Registry ω) (waiting hot : List Message) :
    Registry ω × FlushResult → Prop where
  /-- Nothing: a drain is outstanding. -/
  | waiting (hwaits : r.emitter.isWaiting = true) : FlushedAll L style r waiting hot (r, .pending)
  /-- All is written. -/
  | done (r' : Registry ω) (h : Advances L style r waiting hot r' [] [])
      (hidle : r'.emitter.isIdle = true) : FlushedAll L style r waiting hot (r', .done)
  /-- A drain was left outstanding, and one less can follow. -/
  | suspended (r' : Registry ω) (left hot' : List Message)
      (h : Advances L style r waiting hot r' left hot') (hwaits : r'.emitter.isWaiting = true)
      (hholdups : r'.holdups left hot' < r.holdups waiting hot) :
    FlushedAll L style r waiting hot (r', .pending)

theorem Sound.flushAll {r : Registry ω} {waiting hot : List Message}
    (h : r.Sound L style waiting hot) (hsettled : r.Settled) :
    FlushedAll L style r waiting hot r.flushAll := by
  fun_induction Registry.flushAll r generalizing waiting hot with
  | case1 r r' hflush ih =>
    have hflushed := h.flush hsettled
    rw [hflush] at hflushed
    cases hflushed with
    | done _ hot' hadvances hidle hnew hholdups =>
      -- between runs no drain is outstanding, so the rest cannot end at once
      have hrest := ih hadvances.sound hadvances.settled
      generalize r'.flushAll = result at hrest
      cases hrest with
      | waiting hwaits => exact absurd (Emitter.isIdle_of_isWaiting hwaits) (by simp [hidle])
      | done r'' hadvances' hidle' => exact .done r'' (hadvances.trans hadvances') hidle'
      | suspended r'' left hot'' hadvances' hwaits hless =>
        exact .suspended r'' left hot'' (hadvances.trans hadvances') hwaits
          (Nat.lt_of_lt_of_le hless hholdups)
  | case2 r r' hflush =>
    have hflushed := h.flush hsettled
    rw [hflush] at hflushed
    cases hflushed with
    | empty _ hadvances hidle => exact .done r' hadvances hidle
  | case3 r r' hflush =>
    have hflushed := h.flush hsettled
    rw [hflush] at hflushed
    cases hflushed with
    | waiting hwaits => exact .waiting hwaits
    | suspended _ left hot' hadvances hwaits hless =>
      exact .suspended r' left hot' hadvances hwaits hless

/-- However flushing ends, messages were moved on at most, and no more drains can follow than
before. -/
theorem FlushedAll.advances {r : Registry ω} {waiting hot : List Message}
    {result : Registry ω × FlushResult} (h : FlushedAll L style r waiting hot result)
    (hsound : r.Sound L style waiting hot) (hsettled : r.Settled) :
    ∃ waiting' hot', Advances L style r waiting hot result.1 waiting' hot' ∧
      result.1.holdups waiting' hot' ≤ r.holdups waiting hot := by
  cases h with
  | waiting hwaits => exact ⟨waiting, hot, .refl hsound hsettled, Nat.le_refl _⟩
  | done r' h hidle =>
    refine ⟨[], [], h, ?_⟩
    simp [holdups, runHoldups, hidle, passing]
  | suspended r' left hot' h hwaits hholdups => exact ⟨left, hot', h, Nat.le_of_lt hholdups⟩

/-- That no more is recorded changes nothing of what was. -/
theorem Sound.closing {r : Registry ω} {waiting hot : List Message}
    (h : r.Sound L style waiting hot) :
    ({ r with closed := true } : Registry ω).Sound L style waiting hot :=
  ⟨h.free, ⟨h.wide.fresh, h.wide.loggers⟩, h.style, h.hot, h.rests, h.held⟩

theorem Sound.close {r : Registry ω} {waiting hot : List Message}
    (h : r.Sound L style waiting hot) (hsettled : r.Settled) :
    FlushedAll L style { r with closed := true } waiting hot r.close := by
  rw [Registry.close, if_neg (by simp [h.free])]
  exact h.closing.flushAll hsettled

/-! ## A log -/

/-- **The text that a log stands for**: that of its message, if it is one that is to be
written, its format is known and the registry is open. -/
def logText (style : Style) (r : Registry ω) (logger : String) (level : Level) (format : String)
    (args : Arguments) : String :=
  if level ≠ .off ∧ level.passes r.writeLevel = true ∧ r.closed = false then
    match (r.loggerAt logger).formats.get? format with
    | some f => Message.print ⟨r.clock, ⟨r.context, logger⟩, level, f, args⟩ style
    | none => ""
  else
    ""

/-- A message that is recorded is the last one of the hot buffer. -/
theorem Sound.record {r : Registry ω} {waiting hot : List Message}
    (h : r.Sound L style waiting hot) (m : Message) {b : Buffer} (clock : Clock)
    (hb : b.slots = r.hot.slots ++ m.slots) :
    ({ r with hot := b, clock := clock } : Registry ω).Sound L style waiting (hot ++ [m]) ∧
      ({ r with hot := b, clock := clock } : Registry ω).delivery L style waiting (hot ++ [m])
        = r.delivery L style waiting hot
          ++ if m.level.passes r.writeLevel then m.print style else "" := by
  refine ⟨⟨h.free, ⟨h.wide.fresh, h.wide.loggers⟩, h.style, ?_, h.rests, h.held⟩, ?_⟩
  · show b.slots = _
    rw [hb, h.hot, List.flatMap_append, List.flatMap_singleton]
  · simp only [delivery, passing, List.filter_append, Message.printAll_append]
    by_cases hpasses : m.level.passes r.writeLevel = true
    · simp [hpasses, Message.printAll_singleton, String.append_assoc]
    · simp [hpasses, Message.printAll]

/-- **A log adds its text at the end.** -/
theorem Sound.log {r : Registry ω} {waiting hot : List Message}
    (h : r.Sound L style waiting hot) (hsettled : r.Settled) (logger : String) (level : Level)
    (format : String) (args : Arguments) :
    ∃ hot', (r.log logger level format args).Sound L style waiting hot' ∧
      (r.log logger level format args).Settled ∧
      (r.log logger level format args).delivery L style waiting hot'
        = r.delivery L style waiting hot ++ r.logText style logger level format args := by
  -- in all cases but one nothing is recorded, and then the text is empty as well
  have hsame : ∀ {s : Registry ω}, r.Keeps s → r.logText style logger level format args = "" →
      ∃ hot', s.Sound L style waiting hot' ∧ s.Settled ∧ s.delivery L style waiting hot'
        = r.delivery L style waiting hot ++ r.logText style logger level format args := by
    intro s hkeeps hnone
    obtain ⟨hsound, hsettled', hdelivery, -⟩ := h.keeps hkeeps
    exact ⟨hot, hsound, hsettled' hsettled, by rw [hdelivery, hnone, String.append_empty]⟩
  unfold Registry.log
  by_cases henabled : r.isEnabled logger level = true
  · rw [if_pos henabled]
    cases hformat : (r.loggerAt logger).formats.get? format with
    | none =>
      refine hsame (keeps_report r _) ?_
      rw [logText, hformat]
      exact ite_self _
    | some f =>
      dsimp only
      rw [if_neg (by simp [h.free])]
      by_cases hclosed : r.closed = true
      · rw [if_pos hclosed]
        refine hsame (Keeps.refl r) ?_
        rw [logText, if_neg (by simp [hclosed])]
      · have hopen : r.closed = false := by simpa using hclosed
        -- no logger records the level off
        have hoff : level ≠ .off := by
          rintro rfl
          simp [isEnabled, Logger.isEnabled] at henabled
        let m : Message := ⟨r.clock, ⟨r.context, logger⟩, level, f, args⟩
        obtain ⟨hsound, hdelivery⟩ := h.record m
          (r.hot.log r.clock ⟨r.context, logger⟩ level f args).2 (Buffer.slots_log r.hot m).1
        rw [if_neg hclosed]
        refine ⟨hot ++ [m], hsound, hsettled, hdelivery.trans ?_⟩
        rw [logText, hformat]
        simp [hoff, hopen, m]
  · rw [if_neg henabled]
    refine hsame (Keeps.refl r) ?_
    -- what is to be written is enabled in every logger, so this message is not
    rw [logText, if_neg]
    rintro ⟨hoff, hpasses, -⟩
    exact henabled (h.wide.isEnabled hoff hpasses logger)

end Registry

end Logbook
