/-
A walk through a buffer of whole messages.

The emitter goes from slot to slot and asks its surroundings about a drain when a message
ends. This file lifts that to messages. `walk_message` is one message; `resume_outcome` is
what one call comes to: some messages are printed whole, in the style of the emitter, and
the call either finishes the run or leaves it between two messages, behind a drain.

What the surroundings make of the texts is kept open. `Sink.Tracks` says what has to be
shown of them, one operation at a time, for a property that speaks of the messages printed
so far; `resume_outcome` then carries it through a call. A sink that records, a registry
with its writer and a plain gatherer of text are all dealt with in that way, so the walk is
looked at once.
-/
import Logbook.Emission.Emitter
import Logbook.Proofs.Emission.Printer

set_option autoImplicit false

namespace Logbook

/-! ## What a sink is fed -/

namespace Frame

def texts (style : Style) : List Frame → List Slot → List String
  | _, [] => []
  | frames, s :: rest => (step style frames s).text :: texts style (step style frames s).frames rest

theorem join_texts (style : Style) (frames : List Frame) (ss : List Slot) :
    String.join (texts style frames ss) = (steps style frames ss).text := by
  induction ss generalizing frames with
  | nil => rfl
  | cons s ss ih => rw [texts, String.join_cons, ih, steps, Step.followedBy]

end Frame

namespace Sink

variable {σ : Type} (k : Sink σ)

/-- The surroundings after the texts and reports of some slots. -/
def feed (style : Style) : List Frame → List Slot → σ → σ
  | _, [], s => s
  | frames, x :: rest, s =>
    feed style (Frame.step style frames x).frames rest
      (k.reportAll (k.emit s (Frame.step style frames x).text) (Frame.step style frames x).reports)

theorem feed_append (style : Style) (frames : List Frame) (xs ys : List Slot) (s : σ) :
    k.feed style frames (xs ++ ys) s
      = k.feed style (Frame.steps style frames xs).frames ys (k.feed style frames xs s) := by
  induction xs generalizing frames s with
  | nil => rfl
  | cons x xs ih =>
    rw [List.cons_append, feed, ih, feed]
    rfl

/-- Slots that report nothing feed their texts and nothing else. -/
theorem feed_of_no_reports {style : Style} {frames : List Frame} {xs : List Slot}
    (h : (Frame.steps style frames xs).reports = []) (s : σ) :
    k.feed style frames xs s = (Frame.texts style frames xs).foldl k.emit s := by
  induction xs generalizing frames s with
  | nil => rfl
  | cons x xs ih =>
    rw [Frame.steps, Frame.Step.followedBy] at h
    obtain ⟨hx, hxs⟩ := List.append_eq_nil_iff.mp h
    rw [feed, hx, ih hxs]
    rfl

end Sink

/-! ## The walk, slot by slot and message by message -/

namespace Buffer

theorem after_start (b : Buffer) : b.after Cursor.start = b.slots := by
  unfold after slots Cursor.start
  cases b.blocks <;> simp

end Buffer

namespace Emitter

variable {σ : Type} {k : Sink σ} {b : Buffer}

/-- What follows the end of a message: a drain if one is wanted, and the rest. -/
def afterMessage (k : Sink σ) (e : Emitter) (b : Buffer) (s : σ) : Resumed σ :=
  if k.wantsDrain s then
    match k.drain s with
    | (s, .outstanding) => e.suspend b s .proceed
    | (s, .completed) => e.walk k b s
    | (s, .dropped) => e.walk k b (k.report s .drainDropped)
  else
    e.walk k b s

theorem walk_of_nil {e : Emitter} (h : b.after e.cursor = []) (s : σ) :
    e.walk k b s = e.conclude k b s := by
  -- a walk is not structural, so its equation is taken apart by what stands at the cursor
  have hfrom := (b.slotFrom_eq_none_iff e.cursor).mpr h
  unfold walk
  split
  · rfl
  · rename_i heq
    rw [hfrom] at heq
    simp at heq

/-- A slot that is found is stepped over, and the walk goes on at once unless the slot ended
a message. -/
theorem walk_of_slotFrom {e : Emitter} {at' : Cursor} {x : Slot}
    (h : b.slotFrom e.cursor = some (at', x)) (s : σ) :
    e.walk k b s
      = (let e' := { e with frames := (Frame.step e.style e.frames x).frames, cursor := at'.next }
         if (Frame.step e.style e.frames x).ended then
           e'.afterMessage k b (k.feed e.style e.frames [x] s)
         else e'.walk k b (k.feed e.style e.frames [x] s)) := by
  rw [walk]
  split
  · rename_i heq
    rw [h] at heq
    simp at heq
  · rename_i at'' x'' heq
    rw [h] at heq
    obtain ⟨rfl, rfl⟩ := Prod.mk.inj (Option.some.inj heq)
    simp only [advance, afterMessage, Sink.feed]
    by_cases hended : (Frame.step e.style e.frames x).ended = true
    · simp only [hended, Bool.true_and, if_true]
      rfl
    · simp only [hended, Bool.false_and, Bool.false_eq_true, if_false]

/-- **One slot.** It is the first of those that are left, and the others are left then. -/
theorem walk_of_cons {e : Emitter} {x : Slot} {rest : List Slot}
    (h : b.after e.cursor = x :: rest) (s : σ) :
    ∃ c : Cursor, b.after c = rest ∧
      e.walk k b s
        = (let e' := { e with frames := (Frame.step e.style e.frames x).frames, cursor := c }
           if (Frame.step e.style e.frames x).ended then
             e'.afterMessage k b (k.feed e.style e.frames [x] s)
           else e'.walk k b (k.feed e.style e.frames [x] s)) := by
  cases hfrom : b.slotFrom e.cursor with
  | none =>
    rw [(b.slotFrom_eq_none_iff e.cursor).mp hfrom] at h
    simp at h
  | some p =>
    obtain ⟨at', x'⟩ := p
    have hcons := Buffer.after_eq_cons_of_slotFrom hfrom
    rw [h] at hcons
    obtain ⟨rfl, rfl⟩ := List.cons.inj hcons
    exact ⟨at'.next, rfl, walk_of_slotFrom hfrom s⟩

/-- Slots that end no message are walked without a question. -/
theorem walk_of_append {e : Emitter} {xs rest : List Slot} (h : b.after e.cursor = xs ++ rest)
    (hended : (Frame.steps e.style e.frames xs).ended = false) (s : σ) :
    ∃ c : Cursor, b.after c = rest ∧
      e.walk k b s
        = ({ e with frames := (Frame.steps e.style e.frames xs).frames, cursor := c } : Emitter).walk
            k b (k.feed e.style e.frames xs s) := by
  induction xs generalizing e s with
  | nil => exact ⟨e.cursor, h, rfl⟩
  | cons x xs ih =>
    rw [Frame.steps, Frame.Step.followedBy] at hended
    obtain ⟨hx, hxs⟩ := Bool.or_eq_false_iff.mp hended
    obtain ⟨c, hc, hwalk⟩ := walk_of_cons (k := k) h s
    obtain ⟨c', hc', hwalk'⟩ := ih
      (e := { e with frames := (Frame.step e.style e.frames x).frames, cursor := c }) hc hxs
      (k.feed e.style e.frames [x] s)
    refine ⟨c', hc', ?_⟩
    rw [hwalk]
    simp only [hx, Bool.false_eq_true, if_false]
    exact hwalk'

/-- **One message.** It is fed whole, and then the walk stands between two messages. -/
theorem walk_message {e : Emitter} {m : Message} {rest : List Slot} (hframes : e.frames = [])
    (h : b.after e.cursor = m.slots ++ rest) (s : σ) :
    ∃ c : Cursor, b.after c = rest ∧
      e.walk k b s = ({ e with cursor := c } : Emitter).afterMessage k b
        ((Frame.texts e.style [] m.slots).foldl k.emit s) := by
  have hstart := Frame.steps_start e.style m e.frames
  have hreports : (Frame.steps e.style [] m.slots).reports = [] := by
    rw [Frame.steps_message]
    rfl
  rw [Message.slots, List.append_assoc] at h
  -- only the last slot ends the message, so all before it are walked without a question
  obtain ⟨c, hc, hwalk⟩ := walk_of_append (k := k) h (by rw [hstart]) s
  rw [hstart] at hwalk
  obtain ⟨c', hc', hwalk'⟩ := walk_of_cons (k := k)
    (e := { e with frames := [.message m.format []], cursor := c }) hc (k.feed e.style e.frames m.start s)
  refine ⟨c', hc', ?_⟩
  rw [hwalk, hwalk', ← k.feed_of_no_reports hreports, Message.slots, k.feed_append,
    Frame.steps_start, hframes]
  simp [Frame.step, Frame.endMessage]

end Emitter

/-! ## The surroundings of a call -/

inductive Stage where
  /-- Nothing was emitted since the last drain. -/
  | drained
  /-- Before a message or the end of the buffer. -/
  | between
  /-- After a message, before the question whether to drain. -/
  | printed
  /-- After the last drain of the run. -/
  | concluded
  deriving DecidableEq, Repr

/-- **What has to be shown of the surroundings**, one operation at a time, for a property
that speaks of the stage of a call and of the messages it has printed. -/
structure Sink.Tracks {σ : Type} (k : Sink σ) (style : Style)
    (P : Stage → List Message → σ → Prop) : Prop where
  /-- A message comes in pieces, which together are its text. -/
  print : ∀ {done s} {m : Message} {texts : List String}, P .between done s →
    String.join texts = m.print style → P .printed (done ++ [m]) (texts.foldl k.emit s)
  pass : ∀ {done s}, P .printed done s → k.wantsDrain s = false → P .between done s
  drain : ∀ {done s}, P .printed done s → k.wantsDrain s = true → P .drained done (k.drain s).1
  enter : ∀ {done s}, P .drained done s → P .between done s
  conclude : ∀ {done s}, P .between done s → P .concluded done (k.drain s).1
  report : ∀ {done s}, P .drained done s → P .drained done (k.report s .drainDropped)
  reportLast : ∀ {done s}, P .concluded done s → P .concluded done (k.report s .drainDropped)

namespace Emitter

variable {σ : Type} {k : Sink σ} {b : Buffer} {style : Style}
  {P : Stage → List Message → σ → Prop}

def rewound (e : Emitter) : Emitter :=
  { e with frames := [], cursor := .start, phase := .idle, callback := none }

/-- **What a walk comes to**, before `ms` are printed. -/
inductive Walked (e : Emitter) (b : Buffer) (P : Stage → List Message → σ → Prop)
    (ms : List Message) : Resumed σ → Prop where
  /-- All is printed and drained. -/
  | finished (s : σ) (h : P .concluded ms s) :
    Walked e b P ms ⟨e.rewound, b.clear, s, .done, e.callback⟩
  /-- A drain after a message is outstanding. -/
  | suspended (emitted rest : List Message) (c : Cursor) (s : σ) (hemitted : emitted ≠ [])
      (hms : ms = emitted ++ rest) (hafter : b.after c = rest.flatMap Message.slots)
      (h : P .drained emitted s) :
    Walked e b P ms
      ⟨{ e with cursor := c, phase := .draining .outstanding .proceed }, b, s, .pending, none⟩
  /-- The last drain is outstanding. -/
  | concluding (c : Cursor) (s : σ) (hafter : b.after c = []) (h : P .concluded ms s) :
    Walked e b P ms
      ⟨{ e with cursor := c, phase := .draining .outstanding .conclude }, b, s, .pending, none⟩

theorem conclude_walked (hk : k.Tracks style P) {e : Emitter} (hframes : e.frames = [])
    (hafter : b.after e.cursor = []) {ms : List Message} {s : σ} (h : P .between ms s) :
    Walked e b P ms (e.conclude k b s) := by
  have hnext := hk.conclude h
  -- no message is open, so there is none to be reported as cut short
  have hsame : ({ e with frames := [] } : Emitter) = e := by rw [← hframes]
  simp only [conclude, hframes, List.isEmpty_nil, if_true, hsame]
  split <;> rename_i s' heq <;> rw [heq] at hnext
  · exact .concluding e.cursor s' hafter hnext
  · exact .finished s' hnext
  · exact .finished _ (hk.reportLast hnext)

/-- **The walk between messages.** The induction is on the messages that are left; a
question that is answered with no or with a finished drain leads back to it. -/
theorem walk_walked (hk : k.Tracks style P) {e : Emitter} (hstyle : e.style = style)
    (hframes : e.frames = []) {ms : List Message}
    (hafter : b.after e.cursor = ms.flatMap Message.slots) {done : List Message} {s : σ}
    (h : P .between done s) : Walked e b P (done ++ ms) (e.walk k b s) := by
  induction ms generalizing e done s with
  | nil =>
    rw [walk_of_nil hafter, List.append_nil]
    exact conclude_walked hk hframes hafter h
  | cons m ms ih =>
    rw [List.flatMap_cons] at hafter
    obtain ⟨c, hc, hwalk⟩ := walk_message (k := k) hframes hafter s
    have hjoin : String.join (Frame.texts e.style [] m.slots) = m.print style := by
      rw [Frame.join_texts, Frame.steps_message, hstyle]
    have hprinted := hk.print h hjoin
    have hdone : done ++ m :: ms = (done ++ [m]) ++ ms := by
      rw [List.append_assoc, List.singleton_append]
    -- what a walk comes to does not tell where the cursor stood before
    have hgo : ∀ {s' : σ}, P .between (done ++ [m]) s' →
        Walked e b P (done ++ m :: ms) (({ e with cursor := c } : Emitter).walk k b s') := by
      intro s' h'
      rw [hdone]
      have hwalked := ih (e := { e with cursor := c }) hstyle hframes hc h'
      generalize ({ e with cursor := c } : Emitter).walk k b s' = r at hwalked
      cases hwalked with
      | finished s h => exact .finished s h
      | suspended emitted rest c s hemitted hms hafter h =>
        exact .suspended emitted rest c s hemitted hms hafter h
      | concluding c s hafter h => exact .concluding c s hafter h
    rw [hwalk, afterMessage]
    by_cases hwants : k.wantsDrain ((Frame.texts e.style [] m.slots).foldl k.emit s) = true
    · have hdrained := hk.drain hprinted hwants
      rw [if_pos hwants]
      split <;> rename_i s' heq <;> rw [heq] at hdrained
      · exact .suspended (done ++ [m]) ms c s' (by simp) hdone hc hdrained
      · exact hgo (hk.enter hdrained)
      · exact hgo (hk.enter (hk.report hdrained))
    · rw [if_neg hwants]
      exact hgo (hk.pass hprinted (by simpa using hwants))

/-! ## A call -/

/-- Whether the drain that a run waits for is still outstanding. -/
def isWaiting (e : Emitter) : Bool :=
  match e.phase with
  | .draining .outstanding _ => true
  | _ => false

/-- Whether a run is at its last drain. -/
def isConcluding (e : Emitter) : Bool :=
  match e.phase with
  | .draining _ .conclude => true
  | _ => false

theorem isIdle_of_isWaiting {e : Emitter} (h : e.isWaiting = true) : e.isIdle = false := by
  cases hphase : e.phase with
  | idle => simp [isWaiting, hphase] at h
  | draining signal next => simp [isIdle, hphase]

theorem isConcluding_of_isIdle {e : Emitter} (h : e.isIdle = true) : e.isConcluding = false := by
  have hphase : e.phase = .idle := by simpa [isIdle] using h
  rw [isConcluding, hphase]

/-- **An emitter that stands between two messages** of a buffer, before `ms`. -/
structure Rests (e : Emitter) (b : Buffer) (ms : List Message) : Prop where
  frames : e.frames = []
  after : b.after e.cursor = ms.flatMap Message.slots
  /-- At the last drain there is nothing more to print. -/
  concluding : e.isConcluding = true → ms = []

/-- **What a call comes to**, before `ms` are printed. -/
inductive Outcome (e : Emitter) (b : Buffer) (P : Stage → List Message → σ → Prop)
    (ms : List Message) (s : σ) : Resumed σ → Prop where
  /-- Nothing: the drain is still outstanding. -/
  | waiting (hwaits : e.isWaiting = true) : Outcome e b P ms s ⟨e, b, s, .pending, none⟩
  /-- The end of the run: its last drain is over. -/
  | settled (s' : σ) (hwaits : e.isWaiting = false) (hconcludes : e.isConcluding = true)
      (h : P .drained [] s') :
    Outcome e b P ms s ⟨e.rewound, b.clear, s', .done, e.callback⟩
  | walked (r : Resumed σ) (hwaits : e.isWaiting = false) (hproceeds : e.isConcluding = false)
      (h : Walked e b P ms r) :
    Outcome e b P ms s r

theorem resume_of_waiting {e : Emitter} (h : e.isWaiting = true) (s : σ) :
    e.resume k b s = ⟨e, b, s, .pending, none⟩ := by
  obtain ⟨style, frames, cursor, phase, callback⟩ := e
  rcases phase with _ | ⟨signal, next⟩
  · simp [isWaiting] at h
  · cases signal with
    | outstanding => rfl
    | completed => simp [isWaiting] at h
    | dropped => simp [isWaiting] at h

theorem resume_outcome (hk : k.Tracks style P) {e : Emitter} {ms : List Message}
    (hrests : e.Rests b ms) (hstyle : e.style = style) {s : σ} (h : P .drained [] s) :
    Outcome e b P ms s (e.resume k b s) := by
  -- once the drain is over it does not matter whether it was completed or given up
  have hgoOn : ∀ (signal : Signal) (next : AfterDrain) {s' : σ},
      e.phase = .draining signal next → e.isWaiting = false → P .drained [] s' →
      Outcome e b P ms s (e.goOn k b s' next) := by
    intro signal next s' hphase hwaits h'
    cases next with
    | proceed =>
      refine .walked _ hwaits (by rw [isConcluding, hphase]) ?_
      exact walk_walked hk hstyle hrests.frames hrests.after (hk.enter h')
    | conclude => exact .settled s' hwaits (by rw [isConcluding, hphase]) h'
  unfold resume
  split
  · rename_i hphase
    refine .walked _ (by rw [isWaiting, hphase]) (by rw [isConcluding, hphase]) ?_
    exact walk_walked hk hstyle hrests.frames hrests.after (hk.enter h)
  · rename_i next hphase
    have hsame : ({ e with phase := .draining .outstanding next } : Emitter) = e := by
      rw [← hphase]
    rw [suspend, hsame]
    exact .waiting (by rw [isWaiting, hphase])
  · rename_i next hphase
    exact hgoOn _ next hphase (by rw [isWaiting, hphase]) h
  · rename_i next hphase
    exact hgoOn _ next hphase (by rw [isWaiting, hphase]) (hk.report h)

theorem style_resume (k : Sink σ) (e : Emitter) (b : Buffer) (s : σ) :
    (e.resume k b s).emitter.style = e.style := by
  have hwalk : ∀ (e : Emitter) (s : σ), (e.walk k b s).emitter.style = e.style := by
    intro e s
    fun_induction walk k e b s with
    | case1 e s hfrom =>
      unfold conclude
      simp only
      split <;> rfl
    | case2 => rfl
    | case3 e s at' slot hfrom next hwants s' hd ih => exact ih
    | case4 e s at' slot hfrom next hwants s' hd ih => exact ih
    | case5 e s at' slot hfrom next hwants ih => exact ih
  have hgoOn : ∀ (s : σ) (next : AfterDrain), (e.goOn k b s next).emitter.style = e.style := by
    intro s next
    cases next with
    | proceed => exact hwalk e s
    | conclude => rfl
  unfold resume
  split
  · exact hwalk e s
  · rfl
  · exact hgoOn s _
  · exact hgoOn _ _

/-- The end of a drain leaves the emitter at the same point of its run. -/
theorem isConcluding_settle (e : Emitter) (outcome : Signal) :
    (e.settle outcome).isConcluding = e.isConcluding := by
  obtain ⟨style, frames, cursor, phase, callback⟩ := e
  rcases phase with _ | ⟨signal, next⟩
  · rfl
  · cases next <;> rfl

theorem isIdle_settle (e : Emitter) (outcome : Signal) :
    (e.settle outcome).isIdle = e.isIdle := by
  obtain ⟨style, frames, cursor, phase, callback⟩ := e
  cases phase <;> rfl

theorem cursor_settle (e : Emitter) (outcome : Signal) :
    (e.settle outcome).cursor = e.cursor := by
  unfold settle
  split <;> rfl

theorem frames_settle (e : Emitter) (outcome : Signal) :
    (e.settle outcome).frames = e.frames := by
  unfold settle
  split <;> rfl

theorem style_settle (e : Emitter) (outcome : Signal) : (e.settle outcome).style = e.style := by
  unfold settle
  split <;> rfl

/-- A drain that has come to an end is waited for no longer. -/
theorem isWaiting_settle (e : Emitter) {outcome : Signal} (houtcome : outcome ≠ .outstanding) :
    (e.settle outcome).isWaiting = false := by
  obtain ⟨style, frames, cursor, phase, callback⟩ := e
  rcases phase with _ | ⟨signal, next⟩
  · rfl
  · cases signal with
    | outstanding =>
      cases outcome with
      | outstanding => exact absurd rfl houtcome
      | completed | dropped => rfl
    | completed | dropped => rfl

namespace Rests

variable {e : Emitter} {ms : List Message}

theorem rewound (e : Emitter) (b : Buffer) : e.rewound.Rests b.clear [] :=
  ⟨rfl, by rw [Emitter.rewound, Buffer.after_start, Buffer.slots_clear, List.flatMap_nil], fun _ => rfl⟩

theorem settle (h : e.Rests b ms) (outcome : Signal) : (e.settle outcome).Rests b ms := by
  refine ⟨?_, ?_, ?_⟩
  · rw [frames_settle, h.frames]
  · rw [cursor_settle, h.after]
  · rw [isConcluding_settle]
    exact h.concluding

end Rests

end Emitter

/-! ## A sink that never asks -/

/-- Surroundings that gather the text and never ask for a drain. -/
def Sink.transcript : Sink String where
  emit text piece := text ++ piece
  report text _ := text
  wantsDrain _ := false
  drain text := (text, .completed)

/-- **The text of a buffer**, as an emitter renders it in one call. -/
def Buffer.rendered (b : Buffer) (style : Style) : String :=
  ((Emitter.new style).resume Sink.transcript b "").state

namespace Emitter

theorem walk_transcript (e : Emitter) (b : Buffer) (text : String) :
    (e.walk Sink.transcript b text).state
      = text ++ (Frame.steps e.style e.frames (b.after e.cursor)).text := by
  -- a transcript holds text only
  have hreports : ∀ (ds : List Diagnostic) (s : String), Sink.transcript.reportAll s ds = s := by
    intro ds
    induction ds with
    | nil => exact fun _ => rfl
    | cons d ds ih => exact fun s => ih s
  generalize hxs : b.after e.cursor = xs
  induction xs generalizing e text with
  | nil =>
    rw [walk_of_nil hxs, conclude]
    by_cases hframes : e.frames.isEmpty = true <;>
      simp [hframes, Sink.transcript, finish, Frame.steps]
  | cons x xs ih =>
    obtain ⟨c, hc, hwalk⟩ := walk_of_cons (k := Sink.transcript) hxs text
    have hrest := ih { e with frames := (Frame.step e.style e.frames x).frames, cursor := c }
      (Sink.transcript.feed e.style e.frames [x] text) hc
    simp only [afterMessage, Sink.feed, hreports] at hwalk hrest
    rw [hwalk]
    simp only [Sink.transcript, Bool.false_eq_true, ite_self] at hrest ⊢
    rw [hrest, Frame.steps, Frame.Step.followedBy, String.append_assoc]

end Emitter

namespace Buffer

theorem rendered_eq_steps (b : Buffer) (style : Style) :
    b.rendered style = (Frame.steps style [] b.slots).text := by
  have hwalk := Emitter.walk_transcript (Emitter.new style) b ""
  rw [Emitter.new, after_start, String.empty_append] at hwalk
  exact hwalk

/-- **A buffer of whole messages** is rendered as these are printed. -/
theorem rendered_messages {b : Buffer} {ms : List Message}
    (hb : b.slots = ms.flatMap Message.slots) (style : Style) :
    b.rendered style = Message.printAll style ms := by
  rw [rendered_eq_steps, hb]
  clear hb
  induction ms with
  | nil => rfl
  | cons m ms ih =>
    rw [List.flatMap_cons, Frame.steps_append, Frame.Step.followedBy, Frame.steps_message, ih,
      Message.printAll_cons]

end Buffer

end Logbook
