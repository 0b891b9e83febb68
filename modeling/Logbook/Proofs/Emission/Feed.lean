/-
Messages that arrive while a run is under way.

An emitter that waits for a drain has its place in the buffer, and the buffer may be recorded
into meanwhile. Wherever the cursor rests, what is recorded comes behind what is left of the
buffer (`Buffer.after_log`), so a run that goes on after the drain finds it and prints it, in
its order and once.

There is one point of a run at which that is not so. After the last drain nothing is looked for
any more: the buffer is cleared, whatever it holds by then. A message that arrives while that
drain is under way is dropped without being printed (`loses_what_comes_last`). What holds of
every schedule is that nothing else is ever dropped.
-/
import Logbook.Proofs.Emission.Sink
import Logbook.Proofs.Buffer.Cursor

set_option autoImplicit false

namespace Logbook

/-! ## The cursor of a suspended run -/

namespace Emitter

variable {σ : Type} {k : Sink σ} {b : Buffer}

theorem covers_conclude {e : Emitter} (h : b.Covers e.cursor) (s : σ)
    (hpending : (e.conclude k b s).status = .pending) :
    b.Covers (e.conclude k b s).emitter.cursor := by
  unfold conclude at hpending ⊢
  simp only at hpending ⊢
  split <;> rename_i hd <;> simp only [hd] at hpending
  · exact h
  · simp [finish] at hpending
  · simp [finish] at hpending

/-- **A walk that is suspended** leaves its cursor in a block. -/
theorem covers_walk {e : Emitter} (h : b.Covers e.cursor) (s : σ)
    (hpending : (e.walk k b s).status = .pending) : b.Covers (e.walk k b s).emitter.cursor := by
  fun_induction walk k e b s with
  | case1 e s hfrom => exact covers_conclude h s hpending
  | case2 e s at' slot hfrom => exact Buffer.covers_of_slotFrom hfrom
  | case3 e s at' slot hfrom next hwants s' hd ih =>
    exact ih (Buffer.covers_of_slotFrom hfrom) hpending
  | case4 e s at' slot hfrom next hwants s' hd ih =>
    exact ih (Buffer.covers_of_slotFrom hfrom) hpending
  | case5 e s at' slot hfrom next hwants ih =>
    exact ih (Buffer.covers_of_slotFrom hfrom) hpending

theorem covers_resume {e : Emitter} (h : b.Covers e.cursor) (s : σ)
    (hpending : (e.resume k b s).status = .pending) :
    b.Covers (e.resume k b s).emitter.cursor := by
  have hgoOn : ∀ (s : σ) (next : AfterDrain), (e.goOn k b s next).status = .pending →
      b.Covers (e.goOn k b s next).emitter.cursor := by
    intro s next hpending
    cases next with
    | proceed => exact covers_walk h s hpending
    | conclude => simp [goOn, finish] at hpending
  unfold resume at hpending ⊢
  split at hpending
  · exact covers_walk h s hpending
  · exact h
  · exact hgoOn _ _ hpending
  · exact hgoOn _ _ hpending

/-- **After the last drain the buffer is cleared**, whatever it holds. -/
theorem resume_of_concluding {e : Emitter} (hconcludes : e.isConcluding = true)
    (hwaits : e.isWaiting = false) (s : σ) :
    ∃ s', (s' = s ∨ s' = k.report s .drainDropped) ∧
      e.resume k b s = ⟨e.rewound, b.clear, s', .done, e.callback⟩ := by
  obtain ⟨style, frames, cursor, phase, callback⟩ := e
  rcases phase with _ | ⟨signal, next⟩
  · simp [isConcluding] at hconcludes
  · cases next with
    | proceed => simp [isConcluding] at hconcludes
    | conclude =>
      cases signal with
      | outstanding => simp [isWaiting] at hwaits
      | completed => exact ⟨s, .inl rfl, rfl⟩
      | dropped => exact ⟨_, .inr rfl, rfl⟩

end Emitter

/-! ## Feeds -/

/-- A sink that writes down what is emitted to another. -/
def Sink.transcribed {σ : Type} (k : Sink σ) : Sink (σ × String) :=
  k.noting (fun text piece => text ++ piece) fun text _ => text

/-- **A run from one end to the next**: what was logged meanwhile, what of that came while the
last drain was under way, and the text that was emitted. -/
structure Run where
  logged : List Message
  late : List Message
  text : String

/-- An emitter and a buffer that is recorded into at any time, the run that is under way, and
the runs that have come to an end. -/
structure Feed (σ : Type) where
  emitter : Emitter
  buffer : Buffer
  world : σ
  current : Run
  past : List Run

/-- What can happen to a feed. -/
inductive Turn (σ : Type) where
  | log (m : Message)
  | resume
  /-- An outstanding drain comes to an end. -/
  | settle (outcome : Signal)
  | outside (f : σ → σ)

namespace Run

/-- Nothing has come yet. -/
def none : Run := ⟨[], [], ""⟩

/-- **All was printed but what came late**, once and in order. -/
def Prints (r : Run) (style : Style) : Prop :=
  ∃ early, r.logged = early ++ r.late ∧ r.text = Message.printAll style early

end Run

namespace Feed

variable {σ : Type}

def start (style : Style) (world : σ) : Feed σ := ⟨.new style, .empty, world, .none, []⟩

/-- A message is recorded, and is late if the run is at its last drain. -/
def log (t : Feed σ) (m : Message) : Feed σ :=
  { t with
    buffer := (t.buffer.log m.clock m.origin m.level m.format m.args).1
    current :=
      { t.current with
        logged := t.current.logged ++ [m]
        late := if t.emitter.isConcluding then t.current.late ++ [m] else t.current.late } }

/-- A call of the emitter. When it is done the run is put to the others. -/
def resume (k : Sink σ) (t : Feed σ) : Feed σ :=
  let r := t.emitter.resume k.transcribed t.buffer (t.world, t.current.text)
  let current := { t.current with text := r.state.2 }
  match r.status with
  | .done => ⟨r.emitter, r.buffer, r.state.1, .none, t.past ++ [current]⟩
  | .pending => ⟨r.emitter, r.buffer, r.state.1, current, t.past⟩

/-- **What is written down is not seen by the run**: a call is what it is without. -/
theorem resume_plain (t : Feed σ) (k : Sink σ) :
    let r := t.emitter.resume k t.buffer t.world
    (t.resume k).emitter = r.emitter ∧ (t.resume k).buffer = r.buffer ∧
      (t.resume k).world = r.state := by
  have hsame := Emitter.resume_map (k.agrees_noting (fun text piece => text ++ piece)
    fun text _ => text) t.emitter t.buffer (t.world, t.current.text)
  intro r
  have hr : r = (t.emitter.resume k.transcribed t.buffer (t.world, t.current.text)).map Prod.fst :=
    hsame
  rw [hr, resume]
  dsimp only
  split
  · exact ⟨rfl, rfl, rfl⟩
  · exact ⟨rfl, rfl, rfl⟩

def turn (k : Sink σ) (t : Feed σ) : Turn σ → Feed σ
  | .log m => t.log m
  | .resume => t.resume k
  | .settle outcome => { t with emitter := t.emitter.settle outcome }
  | .outside f => { t with world := f t.world }

def run (k : Sink σ) (t : Feed σ) (turns : List (Turn σ)) : Feed σ := turns.foldl (turn k) t

end Feed

/-! ## What a feed prints -/

/-- What is true of the text of a call: it goes on from what was emitted before. -/
theorem Sink.tracks_transcribed {σ : Type} (k : Sink σ) (style : Style) (text : String) :
    k.transcribed.Tracks style fun _ done p => p.2 = text ++ Message.printAll style done where
  print := by
    intro done p m texts h htexts
    have hall : ∀ (texts : List String) (p : σ × String),
        (texts.foldl k.transcribed.emit p).2 = p.2 ++ String.join texts := by
      intro texts
      induction texts with
      | nil => simp
      | cons text texts ih =>
        intro p
        rw [List.foldl_cons, ih, String.join_cons]
        simp only [Sink.transcribed, Sink.noting, String.append_assoc]
    rw [hall, h, htexts, Message.printAll_append, Message.printAll_singleton, String.append_assoc]
  pass h _ := h
  drain h _ := h
  enter h := h
  conclude h := h
  report h := h
  reportLast h := h

namespace Feed

variable {σ : Type} {k : Sink σ} {style : Style} {t : Feed σ} {printed waiting : List Message}

/-- **A feed accounts for what was logged** in the run that is under way: some is printed, the
rest is what the cursor has still to meet, and at the last drain that is what came late. -/
structure Accounts (t : Feed σ) (style : Style) (printed waiting : List Message) : Prop where
  past : ∀ r ∈ t.past, r.Prints style
  logged : t.current.logged = printed ++ waiting
  text : t.current.text = Message.printAll style printed
  late : t.current.late = if t.emitter.isConcluding then waiting else []
  style : t.emitter.style = style
  frames : t.emitter.frames = []
  path : t.buffer.path = []
  covers : t.buffer.Covers t.emitter.cursor
  after : t.buffer.after t.emitter.cursor = waiting.flatMap Message.slots

theorem accounts_start (style : Style) (world : σ) : (start style world).Accounts style [] [] where
  logged := rfl
  text := rfl
  late := rfl
  style := rfl
  frames := rfl
  path := rfl
  covers := Buffer.covers_start _
  after := by rw [start, Emitter.new, Buffer.after_start, Buffer.slots_empty, List.flatMap_nil]
  past := by simp [start]

theorem accounts_log (h : t.Accounts style printed waiting) (m : Message) :
    (t.log m).Accounts style printed (waiting ++ [m]) := by
  obtain ⟨hafter, hcovers⟩ := Buffer.after_log h.covers h.path m
  exact {
    logged := by rw [log, h.logged, List.append_assoc]
    text := h.text
    late := by
      simp only [log, h.late]
      split <;> rfl
    style := h.style
    frames := h.frames
    path := Buffer.path_log h.path m
    covers := hcovers
    after := by
      rw [log, hafter, h.after, List.flatMap_append, List.flatMap_singleton]
    past := h.past }

/-- The end of a run, with a buffer that was cleared. -/
theorem accounts_of_done (h : t.Accounts style printed waiting) {e : Emitter}
    (hstyle : e.style = style) (world : σ) {current : Run} (hcurrent : current.Prints style) :
    (⟨e.rewound, t.buffer.clear, world, .none, t.past ++ [current]⟩ : Feed σ).Accounts
      style [] [] where
  logged := rfl
  text := rfl
  late := rfl
  style := hstyle
  frames := rfl
  path := rfl
  covers := Buffer.covers_start _
  after := by rw [Emitter.rewound, Buffer.after_start, Buffer.slots_clear, List.flatMap_nil]
  past := by
    intro r hr
    rcases List.mem_append.mp hr with hr | hr
    · exact h.past r hr
    · rw [List.mem_singleton.mp hr]
      exact hcurrent

/-- A call that stops between two messages, with the text of those that it printed. -/
theorem accounts_of_pending (h : t.Accounts style printed waiting) {e : Emitter}
    {printed' waiting' : List Message} (hprinted : printed ++ waiting = printed' ++ waiting')
    (hstyle : e.style = style) (hframes : e.frames = []) (hcovers : t.buffer.Covers e.cursor)
    (hafter : t.buffer.after e.cursor = waiting'.flatMap Message.slots)
    (hlate : t.current.late = if e.isConcluding then waiting' else []) (world : σ) {text : String}
    (htext : text = Message.printAll style printed') :
    (⟨e, t.buffer, world, { t.current with text := text }, t.past⟩ : Feed σ).Accounts style
      printed' waiting' where
  past := h.past
  logged := h.logged.trans hprinted
  text := htext
  late := hlate
  style := hstyle
  frames := hframes
  path := h.path
  covers := hcovers
  after := hafter

theorem accounts_resume (h : t.Accounts style printed waiting) (k : Sink σ) :
    ∃ printed' waiting', (t.resume k).Accounts style printed' waiting' := by
  by_cases hconcludes : t.emitter.isConcluding = true
  · by_cases hwaits : t.emitter.isWaiting = true
    · rw [resume, Emitter.resume_of_waiting hwaits]
      exact ⟨printed, waiting, h⟩
    -- the run is over, and what is waiting has all come late
    · obtain ⟨s', hs', hresume⟩ := Emitter.resume_of_concluding (k := k.transcribed)
        (b := t.buffer) hconcludes (by simpa using hwaits) (t.world, t.current.text)
      have htext : s'.2 = t.current.text := by
        rcases hs' with rfl | rfl
        · rfl
        · rfl
      rw [resume, hresume]
      refine ⟨[], [], accounts_of_done h h.style s'.1 ⟨printed, ?_, htext.trans h.text⟩⟩
      rw [h.logged, h.late, if_pos hconcludes]
  -- before the last drain nothing is late, and a call prints from where the cursor rests
  · have hrests : t.emitter.Rests t.buffer waiting :=
      ⟨h.frames, h.after, fun hc => absurd hc hconcludes⟩
    have hout := Emitter.resume_outcome (Sink.tracks_transcribed k style t.current.text) hrests
      h.style (s := (t.world, t.current.text)) (by simp [Message.printAll])
    have hcovers := Emitter.covers_resume (k := k.transcribed) h.covers (t.world, t.current.text)
    have hlate : t.current.late = [] := by rw [h.late, if_neg hconcludes]
    unfold resume
    generalize t.emitter.resume k.transcribed t.buffer (t.world, t.current.text) = r
      at hout hcovers
    cases hout with
    | waiting => exact ⟨printed, waiting, h⟩
    | settled s' _ hc => exact absurd hc hconcludes
    | walked r _ _ hwalked =>
      cases hwalked with
      | finished s' htext =>
        refine ⟨[], [], accounts_of_done h h.style s'.1 ⟨printed ++ waiting, ?_, ?_⟩⟩
        · rw [hlate, List.append_nil, h.logged]
        · rw [htext, h.text, Message.printAll_append]
      | suspended emitted rest c s' _ hms hafter htext =>
        refine ⟨printed ++ emitted, rest, accounts_of_pending
          (e := { t.emitter with cursor := c, phase := .draining .outstanding .proceed }) h ?_
          h.style h.frames (hcovers rfl) hafter hlate s'.1 ?_⟩
        · rw [hms, List.append_assoc]
        · rw [htext, h.text, Message.printAll_append]
      | concluding c s' hafter htext =>
        refine ⟨printed ++ waiting, [], accounts_of_pending
          (e := { t.emitter with cursor := c, phase := .draining .outstanding .conclude }) h
          (List.append_nil _).symm h.style h.frames (hcovers rfl) hafter hlate s'.1 ?_⟩
        rw [htext, h.text, Message.printAll_append]

theorem accounts_turn (h : t.Accounts style printed waiting) (k : Sink σ) (turn : Turn σ) :
    ∃ printed' waiting', (t.turn k turn).Accounts style printed' waiting' := by
  cases turn with
  | log m => exact ⟨printed, waiting ++ [m], accounts_log h m⟩
  | resume => exact accounts_resume h k
  | settle outcome =>
    refine ⟨printed, waiting, h.past, h.logged, h.text, ?_, ?_, ?_, h.path, ?_, ?_⟩
    · rw [turn, Emitter.isConcluding_settle]
      exact h.late
    · exact (Emitter.style_settle t.emitter outcome).trans h.style
    · exact (Emitter.frames_settle t.emitter outcome).trans h.frames
    · rw [turn, Emitter.cursor_settle]
      exact h.covers
    · rw [turn, Emitter.cursor_settle]
      exact h.after
  | outside f =>
    exact ⟨printed, waiting, h.past, h.logged, h.text, h.late, h.style, h.frames, h.path,
      h.covers, h.after⟩

/-- **Whatever happens**, a feed accounts for what was logged. -/
theorem accounts_run (h : t.Accounts style printed waiting) (k : Sink σ) (turns : List (Turn σ)) :
    ∃ printed' waiting', (t.run k turns).Accounts style printed' waiting' := by
  induction turns generalizing t printed waiting with
  | nil => exact ⟨printed, waiting, h⟩
  | cons turn turns ih =>
    obtain ⟨printed', waiting', h'⟩ := accounts_turn h k turn
    exact ih h'

/-- **Nothing is lost but what comes last.** Take any surroundings and any turns: messages are
logged, calls are made and drains come to an end in whatever order.

* Of a run that has come to its end, all that was logged was printed, once and in order, but for
  what came while its last drain was under way. So all was printed exactly if what came late
  has no text, and in particular if nothing came late.
* Of the run that is under way, what was logged is printed in part and the rest is still in the
  buffer. At the last drain that rest is what came late.
* The next call is what it is without anything being written down, and when it is done, the
  buffer holds nothing. -/
theorem prints_all_but_late (k : Sink σ) (style : Style) (world : σ) (turns : List (Turn σ)) :
    let t := (start style world).run k turns
    (∀ r ∈ t.past, r.Prints style ∧
      (r.text = Message.printAll style r.logged ↔ Message.printAll style r.late = "")) ∧
    (∃ printed waiting, t.current.logged = printed ++ waiting ∧
      t.current.text = Message.printAll style printed ∧
      t.buffer.after t.emitter.cursor = waiting.flatMap Message.slots ∧
      t.current.late = if t.emitter.isConcluding then waiting else []) ∧
    let r := t.emitter.resume k t.buffer t.world
    (t.resume k).emitter = r.emitter ∧ (t.resume k).buffer = r.buffer ∧
      (t.resume k).world = r.state ∧ (r.status = .done → r.buffer.slots = []) := by
  intro t
  obtain ⟨printed, waiting, h⟩ := accounts_run (accounts_start style world) k turns
  obtain ⟨hemitter, hbuffer, hworld⟩ := t.resume_plain k
  refine ⟨fun r hr => ⟨h.past r hr, ?_⟩,
    ⟨printed, waiting, h.logged, h.text, h.after, h.late⟩, hemitter, hbuffer, hworld,
    fun hdone => ?_⟩
  · obtain ⟨early, hlogged, htext⟩ := h.past r hr
    rw [htext, hlogged, Message.printAll_append, ← String.toList_inj, String.toList_append,
      List.self_eq_append_right, String.toList_eq_nil_iff]
  · rw [(Emitter.resume_of_done hdone).1, Buffer.slots_clear]

/-- A message without arguments. -/
def note (name : String) (template : List Char) (h : Template.scan 0 0 template = .ok []) :
    Message :=
  { clock := .stepping default 0
    origin := ⟨.new "app" "::1", "app"⟩
    level := .info
    format := ⟨name, template, [], h⟩
    args := .none }

/-- Surroundings that want no drain, and leave the last one outstanding. -/
def tardy : Sink String where
  emit text piece := text ++ piece
  report text _ := text
  wantsDrain _ := false
  drain text := (text, .outstanding)

/-- **A message that comes while the last drain is under way** is dropped with the rest of the
buffer, and the run counts as done. -/
theorem loses_what_comes_last :
    let t := (start .bare "").run tardy
      [.log (note "first" "one".toList rfl), .resume, .log (note "second" "two".toList rfl),
        .settle .completed, .resume]
    ∃ r ∈ t.past, r.text = "one\n" ∧ Message.printAll .bare r.logged = "one\ntwo\n" ∧
      t.buffer.isEmpty = true := by
  decide +kernel

end Feed

end Logbook
