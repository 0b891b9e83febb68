/-
The emitter never loses its place.

The emitter has no account of where in a message it is. It goes by its frames: an entry is taken
off the format when a value is complete, and those without a value are run over on the way. But
a slot that is admitted at a place (`Place.Admits`) leaves the frames at the next place and has
nothing to be reported (`Frame.standAt_step`), and recording admits every slot. So a walk through
a buffer of messages keeps to the places of its slots, wherever drains hold it up, and none of
the reports that there are for slots out of place is ever made.

A call is looked at round by round here, since between two rounds a message may be open. To the
surroundings nothing of that is seen, and what they are told is noted by a sink around them.
-/
import Logbook.Proofs.Emission.Place
import Logbook.Proofs.Emission.Session

set_option autoImplicit false

namespace Logbook

/-- **A buffer of messages** has a meaning slot by slot. -/
theorem Buffer.Holds.leads {b : Buffer} {ms : List Message} (hb : b.Holds ms) :
    Leads none b.slots none := by
  rw [hb.slots_eq]
  exact .flatMap fun m _ => m.leads_slots

/-! ## The frames follow -/

namespace Frame

/-- The bracket that a frame stands for. -/
def shape? : Frame → Option Shape
  | .message _ _ => none
  | .record _ _ => some .record
  | .sequence _ => some .sequence

/-- **Frames stand at a place** if they are the message with the entries that are left, and on
top of it a frame for each open bracket, of its kind. Between two messages there is none. -/
def StandAt (frames : List Frame) : Option Place → Prop
  | none => frames = []
  | some p => ∃ nodes, frames = nodes ++ [.message p.format p.rest] ∧
      nodes.map shape? = p.nodes.map some

variable {p : Place} {frames : List Frame}

/-- At the level of the message there is the frame of the message and no other. -/
theorem StandAt.of_no_nodes (h : StandAt frames (some p)) (hnodes : p.nodes = []) :
    frames = [.message p.format p.rest] := by
  obtain ⟨nodes, rfl, hshapes⟩ := h
  rw [hnodes, List.map_nil, List.map_eq_nil_iff] at hshapes
  rw [hshapes, List.nil_append]

/-- Inside of a node its frame is on top. -/
theorem StandAt.of_nodes (h : StandAt frames (some p)) {shape : Shape} {outer : List Shape}
    (hnodes : p.nodes = shape :: outer) :
    ∃ top under, frames = top :: under ∧ top.shape? = some shape ∧
      StandAt under (some { p with nodes := outer }) := by
  obtain ⟨nodes, rfl, hshapes⟩ := h
  rw [hnodes, List.map_cons] at hshapes
  obtain ⟨top, under, rfl, htop, hunder⟩ := List.map_eq_cons_iff.mp hshapes
  exact ⟨top, under ++ [.message p.format p.rest], rfl, htop, under, rfl, hunder⟩

/-- A frame on top for one bracket more. -/
theorem StandAt.cons (h : StandAt frames (some p)) {top : Frame} {shape : Shape}
    (htop : top.shape? = some shape) : StandAt (top :: frames) (some (p.inside shape)) := by
  obtain ⟨nodes, rfl, hshapes⟩ := h
  exact ⟨top :: nodes, rfl, by rw [List.map_cons, htop, hshapes]; rfl⟩

theorem literals_eq_dropWhile (f : Format) (es : List Entry) :
    (literals f es).2 = es.dropWhile Entry.isLiteral := by
  induction es with
  | nil => rfl
  | cons e es ih =>
    cases hd : e.directive with
    | literal c =>
      have hliteral : e.isLiteral = true := by rw [Entry.isLiteral, hd, Directive.isLiteral]
      rw [List.dropWhile_cons_of_pos hliteral, ← ih]
      simp [literals, hd]
    | _ =>
      have hprints : ¬ e.isLiteral = true := by simp [Entry.isLiteral, hd, Directive.isLiteral]
      rw [List.dropWhile_cons_of_neg hprints]
      simp [literals, hd]

/-- What comes before a value changes no more than a comma. -/
theorem standAt_beforeValue (h : StandAt frames (some p)) :
    StandAt (beforeValue frames).2 (some p) := by
  cases hnodes : p.nodes with
  | nil =>
    have hframes := h.of_no_nodes hnodes
    rw [hframes] at h ⊢
    exact h
  | cons shape outer =>
    obtain ⟨top, under, rfl, htop, hunder⟩ := h.of_nodes hnodes
    have hback : p = ({ p with nodes := outer } : Place).inside shape := by
      rw [Place.inside, ← hnodes]
    rw [hback]
    rcases top with _ | ⟨comma, _ | _⟩ | comma
    · simp [shape?] at htop
    · exact hunder.cons htop
    · exact hunder.cons htop
    · exact hunder.cons htop

/-- **A complete value takes its entry**, if it is not inside of a node. -/
theorem standAt_afterValue (h : StandAt frames (some p)) (hp : p.Expects) :
    StandAt (afterValue frames).frames (some p.value) ∧ (afterValue frames).reports = [] := by
  cases hnodes : p.nodes with
  -- the entry is the first of those that are left, and `hp` says that there is one
  | nil =>
    obtain ⟨e, rest, hrest⟩ := List.exists_cons_of_ne_nil (hp.2 hnodes)
    have hleft : p.format.left p.values = e :: rest := by
      rw [← hrest, Place.rest, if_pos hp.1]
    have hvalue : p.value = { p with values := p.values + 1 } := by rw [Place.value, hnodes]
    have hnext : p.value.rest = rest.dropWhile Entry.isLiteral := by
      rw [hvalue, Place.rest, if_pos hp.1, Format.left, hleft, List.tail_cons]
    rw [h.of_no_nodes hnodes, hrest]
    refine ⟨⟨[], ?_, by rw [hvalue, hnodes]; rfl⟩, rfl⟩
    rw [hnext, ← literals_eq_dropWhile p.format, hvalue]
    rfl
  | cons shape outer =>
    have hvalue : p.value = p := by rw [Place.value, hnodes]
    obtain ⟨top, under, rfl, htop, -⟩ := h.of_nodes hnodes
    rw [hvalue]
    cases top with
    | message f rest => simp [shape?] at htop
    | record comma named => exact ⟨h, rfl⟩
    | sequence comma => exact ⟨h, rfl⟩

theorem standAt_value (h : StandAt frames (some p)) (hp : p.Expects)
    (render : (nested : Bool) → String) :
    StandAt (value render frames).frames (some p.value) ∧ (value render frames).reports = [] :=
  standAt_afterValue (standAt_beforeValue h) hp

/-- **A slot that is admitted is followed**, and there is nothing to report. -/
theorem standAt_step {place : Option Place} (h : StandAt frames place) {x : Slot}
    (hx : Place.Admits place x) (style : Style) :
    StandAt (step style frames x).frames (Place.next place x) ∧
      (step style frames x).reports = [] := by
  cases place with
  | none =>
    cases x with
    | format f =>
      obtain rfl : frames = [] := h
      exact ⟨⟨[], rfl, rfl⟩, rfl⟩
    | _ => exact hx.elim
  | some p =>
    cases x with
    | format f => exact hx.elim
    | level l =>
      obtain ⟨hbegun, hnodes, hvalues⟩ := hx
      have hrest : p.rest = p.format.entries := by rw [Place.rest, hbegun]; rfl
      have hnext : ({ p with begun := true } : Place).rest
          = p.format.entries.dropWhile Entry.isLiteral := by
        rw [Place.rest, if_pos rfl, hvalues, Format.left]
      rw [h.of_no_nodes hnodes, hrest]
      refine ⟨⟨[], ?_, by rw [hnodes]; rfl⟩, rfl⟩
      rw [hnext, ← literals_eq_dropWhile p.format]
      rfl
    | finish =>
      obtain ⟨-, hnodes, -, -⟩ := hx
      rw [h.of_no_nodes hnodes]
      exact ⟨rfl, rfl⟩
    | opening shape =>
      refine ⟨(standAt_beforeValue h).cons ?_, rfl⟩
      cases shape <;> rfl
    | closing shape =>
      obtain ⟨outer, hnodes, hp⟩ := hx
      obtain ⟨top, under, rfl, htop, hunder⟩ := h.of_nodes hnodes
      have hnext : Place.next (some p) (.closing shape)
          = some ({ p with nodes := outer } : Place).value := by
        rw [Place.next, hnodes, List.tail_cons]
      rw [hnext]
      -- the frame of the node is taken away, and with it the value of a frame below is complete
      cases top with
      | message f rest => simp [shape?] at htop
      | record comma named => exact standAt_afterValue hunder hp
      | sequence comma => exact standAt_afterValue hunder hp
    | name s =>
      obtain ⟨outer, hnodes⟩ : ∃ outer, p.nodes = .record :: outer := by
        cases hnodes : p.nodes with
        | nil => simp [Place.Admits, hnodes] at hx
        | cons shape outer => exact ⟨outer, by simpa [Place.Admits, hnodes] using hx⟩
      obtain ⟨top, under, rfl, htop, hunder⟩ := h.of_nodes hnodes
      have hback : p = ({ p with nodes := outer } : Place).inside .record := by
        rw [Place.inside, ← hnodes]
      cases top with
      | message f rest => simp [shape?] at htop
      | record comma named =>
        refine ⟨?_, rfl⟩
        rw [Place.next, hback]
        exact hunder.cons rfl
      | sequence comma => simp [shape?] at htop
    | scalar s => exact standAt_value h hx _
    | marker m => exact standAt_value h hx _

end Frame

/-! ## The emitter follows -/

namespace Emitter

variable {σ : Type} {k : Sink σ} {b : Buffer}

/-- **One round of a walk**: the emitter that goes on and its surroundings, or what the call
ends with. -/
def round (k : Sink σ) (b : Buffer) (p : Emitter × σ) : Except (Resumed σ) (Emitter × σ) :=
  match b.slotFrom p.1.cursor with
  | none => .error (p.1.conclude k b p.2)
  | some (at', slot) =>
    let next := p.1.advance k at' slot p.2
    if next.2.1 && k.wantsDrain next.2.2 then
      match k.drain next.2.2 with
      | (s, .outstanding) => .error (next.1.suspend b s .proceed)
      | (s, .completed) => .ok (next.1, s)
      | (s, .dropped) => .ok (next.1, k.report s .drainDropped)
    else
      .ok (next.1, next.2.2)

/-- A walk is made of rounds. -/
theorem walk_eq_round (k : Sink σ) (e : Emitter) (b : Buffer) (s : σ) :
    e.walk k b s
      = match round k b (e, s) with
        | .error r => r
        | .ok (e', s') => e'.walk k b s' := by
  rw [walk, round]
  split
  · rename_i hfrom
    simp only [hfrom]
  · rename_i at' slot hfrom
    simp only [hfrom]
    split
    · generalize k.drain (e.advance k at' slot s).2.2 = drained
      obtain ⟨s', signal⟩ := drained
      cases signal <;> rfl
    · rfl

/-- **What a walk passes through**: a round leads from one to the next. -/
inductive Passes (k : Sink σ) (b : Buffer) (p : Emitter × σ) : Emitter × σ → Prop where
  | start : Passes k b p p
  | round {q q' : Emitter × σ} (h : Passes k b p q) (hround : round k b q = .ok q') :
    Passes k b p q'

/-- The walk goes on from whatever it passes through. -/
theorem walk_of_passes {p q : Emitter × σ} (h : Passes k b p q) :
    p.1.walk k b p.2 = q.1.walk k b q.2 := by
  induction h with
  | start => rfl
  | round _ hround ih => rw [ih, walk_eq_round, hround]

/-- **An emitter follows a buffer** if its frames stand at the place behind the slots that
are before its cursor. -/
def Follows (e : Emitter) (b : Buffer) : Prop :=
  ∃ read, b.slots = read ++ b.after e.cursor ∧ Frame.StandAt e.frames (Place.of read)

/-- A round is a step over the first slot that is left. -/
theorem step_of_round {p q : Emitter × σ} (h : round k b p = .ok q) :
    ∃ x, b.after p.1.cursor = x :: b.after q.1.cursor ∧
      q.1.frames = (Frame.step p.1.style p.1.frames x).frames := by
  unfold round at h
  split at h
  · simp at h
  · rename_i at' x hfrom
    refine ⟨x, ?_⟩
    rw [Buffer.after_eq_cons_of_slotFrom hfrom]
    dsimp only at h
    split at h
    · split at h
      · simp at h
      · obtain rfl := Except.ok.inj h
        exact ⟨rfl, rfl⟩
      · obtain rfl := Except.ok.inj h
        exact ⟨rfl, rfl⟩
    · obtain rfl := Except.ok.inj h
      exact ⟨rfl, rfl⟩

/-- **A round keeps following**, since the slot that it steps over is admitted. -/
theorem Follows.round (hleads : Leads none b.slots none) {p q : Emitter × σ}
    (h : p.1.Follows b) (hround : round k b p = .ok q) : q.1.Follows b := by
  obtain ⟨read, hslots, hstand⟩ := h
  obtain ⟨x, hafter, hframes⟩ := step_of_round hround
  rw [hafter] at hslots
  have hadmits : Place.Admits (Place.of read) x := Leads.admits (hslots ▸ hleads)
  refine ⟨read ++ [x], by rw [hslots]; simp, ?_⟩
  rw [hframes, Place.of, List.foldl_append]
  exact (Frame.standAt_step hstand hadmits p.1.style).1

theorem Follows.passes (hleads : Leads none b.slots none) {p q : Emitter × σ}
    (h : p.1.Follows b) (hpasses : Passes k b p q) : q.1.Follows b := by
  induction hpasses with
  | start => exact h
  | round _ hround ih => exact ih.round hleads hround

end Emitter

/-! ## Nothing is reported of a buffer of messages -/

/-- **What a walk leaves alone**, as long as nothing is reported but that a drain was dropped. -/
structure Sink.Spares {σ : Type} (k : Sink σ) (Q : σ → Prop) : Prop where
  emit : ∀ {s} (text : String), Q s → Q (k.emit s text)
  drain : ∀ {s}, Q s → Q (k.drain s).1
  dropped : ∀ {s}, Q s → Q (k.report s .drainDropped)

namespace Emitter

variable {σ : Type} {k : Sink σ} {b : Buffer} {Q : σ → Prop}

/-- At the end of a buffer of messages no frame is left. -/
theorem Follows.frames_eq_nil (hleads : Leads none b.slots none) {e : Emitter}
    (h : e.Follows b) (hend : b.after e.cursor = []) : e.frames = [] := by
  obtain ⟨read, hslots, hstand⟩ := h
  rw [hend, List.append_nil] at hslots
  rw [Place.of, ← hslots, ← hleads.eq_foldl] at hstand
  exact hstand

/-- The last drain finds no message open. -/
theorem conclude_spares (hk : k.Spares Q) {e : Emitter} (hframes : e.frames = []) {s : σ}
    (hs : Q s) : Q (e.conclude k b s).state := by
  have hdrain := hk.drain hs
  simp only [conclude, hframes, List.isEmpty_nil, if_true]
  split <;> rename_i hd <;> rw [hd] at hdrain
  · exact hdrain
  · exact hdrain
  · exact hk.dropped hdrain

/-- **A round reports nothing** of a slot that is admitted. -/
theorem round_spares (hk : k.Spares Q) (hleads : Leads none b.slots none) {e : Emitter}
    (h : e.Follows b) {s : σ} (hs : Q s) :
    (∀ r, round k b (e, s) = .error r → Q r.state) ∧
      ∀ q, round k b (e, s) = .ok q → Q q.2 := by
  unfold round
  cases hfrom : b.slotFrom e.cursor with
  | none =>
    have hframes := h.frames_eq_nil hleads ((b.slotFrom_eq_none_iff e.cursor).mp hfrom)
    refine ⟨fun r hr => ?_, fun q hq => by simp at hq⟩
    rw [← Except.error.inj hr]
    exact conclude_spares hk hframes hs
  | some found =>
    obtain ⟨at', x⟩ := found
    obtain ⟨read, hslots, hstand⟩ := h
    rw [Buffer.after_eq_cons_of_slotFrom hfrom] at hslots
    have hadmits : Place.Admits (Place.of read) x := Leads.admits (hslots ▸ hleads)
    have hquiet := (Frame.standAt_step hstand hadmits e.style).2
    have hnext : Q (e.advance k at' x s).2.2 := by
      simp only [advance, hquiet]
      exact hk.emit _ hs
    have hdrain := hk.drain hnext
    refine ⟨fun r hr => ?_, fun q hq => ?_⟩
    · dsimp only at hr
      split at hr
      · split at hr <;> rename_i hd <;> rw [hd] at hdrain
        · rw [← Except.error.inj hr]
          exact hdrain
        · simp at hr
        · simp at hr
      · simp at hr
    · dsimp only at hq
      split at hq
      · split at hq <;> rename_i hd <;> rw [hd] at hdrain
        · simp at hq
        · rw [← Except.ok.inj hq]
          exact hdrain
        · rw [← Except.ok.inj hq]
          exact hk.dropped hdrain
      · rw [← Except.ok.inj hq]
        exact hnext

/-- **Nor does a walk.** The induction is on the slots that are left. -/
theorem walk_spares (hk : k.Spares Q) (hleads : Leads none b.slots none) {e : Emitter}
    (h : e.Follows b) {s : σ} (hs : Q s) : Q (e.walk k b s).state := by
  generalize hxs : b.after e.cursor = xs
  induction xs generalizing e s with
  | nil =>
    rw [walk_of_nil hxs]
    exact conclude_spares hk (h.frames_eq_nil hleads hxs) hs
  | cons x xs ih =>
    obtain ⟨herror, hok⟩ := round_spares hk hleads h hs
    rw [walk_eq_round]
    cases hround : round k b (e, s) with
    | error r => exact herror r hround
    | ok q =>
      obtain ⟨y, hafter, -⟩ := step_of_round hround
      obtain ⟨-, hrest⟩ := List.cons.inj (hafter.symm.trans hxs)
      exact ih (h.round hleads hround) (hok q hround) hrest

theorem resume_spares (hk : k.Spares Q) (hleads : Leads none b.slots none) {e : Emitter}
    (h : e.Follows b) {s : σ} (hs : Q s) : Q (e.resume k b s).state := by
  have hgoOn : ∀ {s : σ} (next : AfterDrain), Q s → Q (e.goOn k b s next).state := by
    intro s next hs
    cases next with
    | proceed => exact walk_spares hk hleads h hs
    | conclude => exact hs
  unfold resume
  split
  · exact walk_spares hk hleads h hs
  · exact hs
  · exact hgoOn _ hs
  · exact hgoOn _ (hk.dropped hs)

/-- Between two messages an emitter follows. -/
theorem Rests.follows {e : Emitter} {done rest : List Message} (h : e.Rests b rest)
    (hslots : b.slots = (done ++ rest).flatMap Message.slots) : e.Follows b := by
  refine ⟨done.flatMap Message.slots, by rw [hslots, h.after, List.flatMap_append], ?_⟩
  have hdone : Leads none (done.flatMap Message.slots) none := .flatMap fun m _ => m.leads_slots
  rw [Place.of, ← hdone.eq_foldl]
  exact h.frames

end Emitter

/-! ## Sessions that are watched -/

/-- A sink that notes what is reported to another. -/
def Sink.watched {σ : Type} (k : Sink σ) : Sink (σ × List Diagnostic) :=
  k.noting (fun notes _ => notes) fun notes d => notes ++ [d]

/-- What happens outside leaves the notes alone. -/
def Move.watched {σ : Type} : Move σ → Move (σ × List Diagnostic)
  | .resume => .resume
  | .settle outcome => .settle outcome
  | .restyle style => .restyle style
  | .outside f => .outside fun p => (f p.1, p.2)

/-- Nothing was reported but that drains were dropped. -/
def Undisturbed {σ : Type} (world : σ × List Diagnostic) : Prop := ∀ d ∈ world.2, d = .drainDropped

namespace Session

variable {σ : Type} {b : Buffer} {ms : List Message} {styles : List Style}

theorem spares_undisturbed (k : Sink σ) (style : Style) :
    (k.watched.recorded style).Spares fun p => Undisturbed p.1 where
  emit _ hs := hs
  drain hs := hs
  dropped hs := by
    intro d hd
    rcases List.mem_append.mp hd with hd | hd
    · exact hs d hd
    · exact List.mem_singleton.mp hd

theorem undisturbed_move {t : Session (σ × List Diagnostic)} {portions : List Portion}
    {last : Option Portion} {done rest : List Message} (hb : b.Holds ms)
    (h : t.Accounts b ms styles portions last done rest) (hworld : Undisturbed t.world)
    (k : Sink σ) (m : Move σ) : Undisturbed (t.move k.watched m.watched).world := by
  unfold move
  split
  · exact hworld
  · rename_i hfinished
    cases m with
    -- notes are made in a call only, and it begins between two messages
    | resume =>
      obtain ⟨hbuffer, hrests, -, -⟩ := h.underWay (by simpa using hfinished)
      have hfollows := hrests.follows (h.messages ▸ hb.slots_eq)
      rw [Move.watched, resume, hbuffer]
      exact Emitter.resume_spares (s := (t.world, t.record))
        (spares_undisturbed k t.emitter.style) hb.leads hfollows hworld
    | settle outcome => exact hworld
    | restyle style => exact hworld
    | outside f => exact hworld

theorem undisturbed_run {t : Session (σ × List Diagnostic)} {portions : List Portion}
    {last : Option Portion} {done rest : List Message} (hb : b.Holds ms)
    (h : t.Accounts b ms styles portions last done rest) (hworld : Undisturbed t.world)
    (k : Sink σ) {moves : List (Move σ)}
    (hstyles : ∀ m ∈ moves, ∀ style ∈ m.watched.style?, style ∈ styles) :
    Undisturbed (t.run k.watched (moves.map Move.watched)).world := by
  induction moves generalizing t portions last done rest with
  | nil => exact hworld
  | cons m moves ih =>
    obtain ⟨portions', last', done', rest', h'⟩ :=
      accounts_move h k.watched m.watched (hstyles m List.mem_cons_self)
    exact ih h' (undisturbed_move hb h hworld k m)
      fun m' hm' => hstyles m' (List.mem_cons_of_mem m hm')

/-- **The emitter never loses its place.** Take any buffer that holds messages, as they were
recorded or as they were kept by their levels, and a session over it under any moves.

* Nothing was reported but that drains were dropped: no message began or ended inside of
  another, no bracket was left open or closed without being open, no value came for which there
  was no entry. That reports are noted is not seen by a call.
* While it is under way, take anything that a next walk passes through. The slots before the
  cursor lead to a place, and the frames stand there: the message with the entries that are left
  behind as many values, and a frame of the right kind for each bracket that is open. The next
  slot is admitted at the place, and no step over it reports anything.
* At the end of a message there is the frame of the message alone, with no entry left, and there
  were as many values as there are entries that take one. At the end of the buffer there is
  no frame. -/
theorem keeps_place_in_messages (hb : b.Holds ms) (k : Sink σ) (style : Style) (world : σ)
    (moves : List (Move σ)) :
    let t := (start b style (world, [])).run k.watched (moves.map Move.watched)
    (Undisturbed t.world ∧ t.emitter.resume k t.buffer t.world.1
      = (t.emitter.resume k.watched t.buffer t.world).map Prod.fst) ∧
    (t.finished = false → ∀ (s s' : σ) (e : Emitter), Emitter.Passes k b (t.emitter, s) (e, s') →
      t.emitter.walk k t.buffer s = e.walk k b s' ∧
      ∃ read, b.slots = read ++ b.after e.cursor ∧ Frame.StandAt e.frames (Place.of read) ∧
        (∀ x rest, b.after e.cursor = x :: rest → Place.Admits (Place.of read) x ∧
          (Frame.step e.style e.frames x).reports = []) ∧
        (∀ rest, b.after e.cursor = .finish :: rest → ∃ f : Format,
          Place.of read = some ⟨f, true, [], f.valueCount⟩ ∧ e.frames = [.message f []]) ∧
        (b.after e.cursor = [] → e.frames = [])) := by
  intro t
  have hstart : (start b style (world, ([] : List Diagnostic))).Accounts b ms
      (style :: (moves.map Move.watched).filterMap Move.style?) [] none [] ms :=
    accounts_start hb.slots_eq style _ List.mem_cons_self
  refine ⟨⟨undisturbed_run hb hstart (fun d hd => absurd hd List.not_mem_nil) k ?_,
    Emitter.resume_map (k.agrees_noting _ _) t.emitter t.buffer t.world⟩, ?_⟩
  · exact fun m hm style' hstyle => List.mem_cons_of_mem style
      (List.mem_filterMap.mpr ⟨m.watched, List.mem_map_of_mem hm, hstyle⟩)
  · intro hrun s s' e hpasses
    obtain ⟨portions, last, done, rest, h⟩ := accounts_run hstart k.watched
      fun style' hstyle => List.mem_cons_of_mem style hstyle
    obtain ⟨hbuffer, hrests, -, -⟩ := h.underWay hrun
    have hfollows : e.Follows b :=
      Emitter.Follows.passes (p := (t.emitter, s)) hb.leads
        (hrests.follows (h.messages ▸ hb.slots_eq)) hpasses
    have hend := hfollows.frames_eq_nil hb.leads
    obtain ⟨read, hslots, hstand⟩ := hfollows
    have hnext : ∀ x rest, b.after e.cursor = x :: rest → Place.Admits (Place.of read) x :=
      fun x rest hafter => Leads.admits (hafter ▸ hslots ▸ hb.leads)
    refine ⟨?_, read, hslots, hstand, fun x rest hafter => ?_, fun rest hafter => ?_, hend⟩
    -- a session that is not finished has the buffer that it started with
    · rw [hbuffer]
      exact Emitter.walk_of_passes hpasses
    · have hx := hnext x rest hafter
      exact ⟨hx, (Frame.standAt_step hstand hx e.style).2⟩
    · have hx := hnext .finish rest hafter
      cases hplace : Place.of read with
      | none =>
        rw [hplace] at hx
        exact hx.elim
      | some p =>
        rw [hplace] at hx hstand
        obtain ⟨hbegun, hnodes, hnone, hvalues⟩ := hx
        refine ⟨p.format, ?_, by rw [hstand.of_no_nodes hnodes, hnone]⟩
        rw [← hvalues, ← hnodes, ← hbegun]

/-- A message with a sequence in it, in a format that ends with an escaped character. -/
def receipt : Message :=
  { clock := .stepping default 0
    origin := ⟨.new "app" "::1", "app"⟩
    level := .info
    format := ⟨"receipt", "got ${0:a} ##".toList,
      [⟨.compound .sequence 0 Bounds.standard, ⟨4, 10⟩⟩, ⟨.literal .hash, ⟨11, 13⟩⟩], rfl⟩
    args := ⟨⟨#[], #[#[.scalar (.bool true), .foreign]]⟩, [.node ⟨.sequence, 0⟩]⟩ }

/-- One message, and a drain after it that is given up. -/
theorem keeps_place_in_receipt :
    let b := (Buffer.empty.log receipt.clock receipt.origin receipt.level receipt.format
      receipt.args).1
    let t := (start b .standard ("", [])).run reluctant.watched [.resume, .settle .dropped, .resume]
    b.Holds [receipt] ∧ Undisturbed t.world := by
  intro b t
  have hb : b.Holds [receipt] := Buffer.Holds.empty.log receipt
  obtain ⟨⟨hworld, -⟩, -⟩ := keeps_place_in_messages hb reluctant .standard ""
    [.resume, .settle .dropped, .resume]
  exact ⟨hb, hworld⟩

end Session

end Logbook
