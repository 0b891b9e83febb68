/-
Surroundings that are seen through a function.

To record what a run does one puts something around its surroundings, and that has to change
nothing. It does not: when every operation of some surroundings is one of other surroundings,
seen through a function from the states of the first to those of the second, a whole call of
the emitter is a call in the others, with the same slots, suspensions and result.

Two surroundings that are not seen through each other may still be related, and a call then keeps
the relation: the pairs that are related make surroundings of their own, and both are seen
through these.
-/
import Logbook.Proofs.Emission.Walk

set_option autoImplicit false

namespace Logbook

/-- **The operations of some surroundings are those of others**, seen through `f`. -/
structure Sink.Agrees {σ τ : Type} (k : Sink σ) (k' : Sink τ) (f : σ → τ) : Prop where
  emit : ∀ s text, k'.emit (f s) text = f (k.emit s text)
  report : ∀ s d, k'.report (f s) d = f (k.report s d)
  wantsDrain : ∀ s, k'.wantsDrain (f s) = k.wantsDrain s
  drain : ∀ s, k'.drain (f s) = (f (k.drain s).1, (k.drain s).2)

/-- What a call leaves behind, with its state seen through a function. -/
def Resumed.map {σ τ : Type} (f : σ → τ) (r : Resumed σ) : Resumed τ :=
  ⟨r.emitter, r.buffer, f r.state, r.status, r.called⟩

/-- What a report leaves as it is, any number of them does. -/
theorem Sink.reportAll_eq_of_report {σ ν : Type} {k : Sink σ} {f : σ → ν}
    (hreport : ∀ s d, f (k.report s d) = f s) (s : σ) (ds : List Diagnostic) :
    f (k.reportAll s ds) = f s := by
  induction ds generalizing s with
  | nil => rfl
  | cons d ds ih => exact (ih (k.report s d)).trans (hreport s d)

namespace Emitter

/-- Where reports are not seen, a step is seen by its text. -/
theorem advance_eq_of_report {σ ν : Type} {k : Sink σ} {f : σ → ν}
    (hreport : ∀ s d, f (k.report s d) = f s) (e : Emitter) (c : Cursor) (x : Slot) (s : σ) :
    f (e.advance k c x s).2.2 = f (k.emit s (Frame.step e.style e.frames x).text) :=
  Sink.reportAll_eq_of_report hreport _ _

variable {σ τ : Type} {k : Sink σ} {k' : Sink τ} {f : σ → τ}

theorem conclude_map (hf : k.Agrees k' f) (e : Emitter) (b : Buffer) (s : σ) :
    e.conclude k' b (f s) = (e.conclude k b s).map f := by
  -- the report of an open message comes before the drain, so it is brought through first
  have hstart : (if e.frames.isEmpty then f s
        else k'.report (f s) (.endedInsideMessage e.frames.length))
      = f (if e.frames.isEmpty then s else k.report s (.endedInsideMessage e.frames.length)) := by
    rw [hf.report]
    split <;> rfl
  unfold conclude
  simp only
  rw [hstart, hf.drain]
  generalize k.drain _ = result
  obtain ⟨s', signal⟩ := result
  cases signal with
  | outstanding => rfl
  | completed => rfl
  | dropped =>
    simp only
    rw [hf.report]
    rfl

theorem feed_map (hf : k.Agrees k' f) (style : Style) (frames : List Frame) (x : Slot) (s : σ) :
    k'.feed style frames [x] (f s) = f (k.feed style frames [x] s) := by
  have hreports : ∀ (ds : List Diagnostic) (s : σ),
      k'.reportAll (f s) ds = f (k.reportAll s ds) := by
    intro ds
    induction ds with
    | nil => exact fun _ => rfl
    | cons d ds ih =>
      intro s
      have hrest := ih (k.report s d)
      rw [← hf.report] at hrest
      exact hrest
  simp only [Sink.feed]
  rw [hf.emit, hreports]

/-- **The walk.** The induction is on the slots that are left, since a drain that is not left
outstanding leads back to it. -/
theorem walk_map (hf : k.Agrees k' f) (e : Emitter) (b : Buffer) (s : σ) :
    e.walk k' b (f s) = (e.walk k b s).map f := by
  generalize hxs : b.after e.cursor = xs
  induction xs generalizing e s with
  | nil => rw [walk_of_nil hxs, walk_of_nil hxs, conclude_map hf]
  | cons x xs ih =>
    cases hfrom : b.slotFrom e.cursor with
    | none =>
      rw [(b.slotFrom_eq_none_iff e.cursor).mp hfrom] at hxs
      simp at hxs
    | some p =>
      obtain ⟨at', x'⟩ := p
      have hcons := Buffer.after_eq_cons_of_slotFrom hfrom
      rw [hxs] at hcons
      obtain ⟨rfl, hrest⟩ := List.cons.inj hcons
      -- one slot less is left for the emitter that has stepped over it
      have hnext := ih { e with
        frames := (Frame.step e.style e.frames x).frames, cursor := at'.next }
      rw [walk_of_slotFrom hfrom, walk_of_slotFrom hfrom, feed_map hf]
      generalize k.feed e.style e.frames [x] s = s'
      split
      · unfold afterMessage
        rw [hf.wantsDrain, hf.drain]
        split
        · generalize k.drain s' = result
          obtain ⟨s'', signal⟩ := result
          cases signal with
          | outstanding => rfl
          | completed => exact hnext s'' hrest.symm
          | dropped =>
            simp only
            rw [hf.report]
            exact hnext _ hrest.symm
        · exact hnext s' hrest.symm
      · exact hnext s' hrest.symm

/-- **A call** in surroundings that agree is the same call. -/
theorem resume_map (hf : k.Agrees k' f) (e : Emitter) (b : Buffer) (s : σ) :
    e.resume k' b (f s) = (e.resume k b s).map f := by
  have hgoOn : ∀ (s : σ) (next : AfterDrain),
      e.goOn k' b (f s) next = (e.goOn k b s next).map f := by
    intro s next
    cases next with
    | proceed => exact walk_map hf e b s
    | conclude => rfl
  unfold resume
  split
  · exact walk_map hf e b s
  · rfl
  · exact hgoOn s _
  · rw [hf.report]
    exact hgoOn _ _

end Emitter

/-! ## Two surroundings side by side -/

/-- **Operations of two surroundings that keep a relation** of their states. Both ask for the
same drains and answer them with the same signals. -/
structure Sink.Matches {σ τ : Type} (k : Sink σ) (k' : Sink τ) (R : σ → τ → Prop) : Prop where
  emit : ∀ {s t} (text : String), R s t → R (k.emit s text) (k'.emit t text)
  report : ∀ {s t} (d : Diagnostic), R s t → R (k.report s d) (k'.report t d)
  wantsDrain : ∀ {s t}, R s t → k.wantsDrain s = k'.wantsDrain t
  drain : ∀ {s t}, R s t → R (k.drain s).1 (k'.drain t).1 ∧ (k.drain s).2 = (k'.drain t).2

namespace Sink.Matches

variable {σ τ : Type} {k : Sink σ} {k' : Sink τ} {R : σ → τ → Prop}

/-- Both surroundings as one, whose states are the pairs that are related. -/
def paired (h : k.Matches k' R) : Sink { p : σ × τ // R p.1 p.2 } where
  emit p text := ⟨(k.emit p.val.1 text, k'.emit p.val.2 text), h.emit text p.property⟩
  report p d := ⟨(k.report p.val.1 d, k'.report p.val.2 d), h.report d p.property⟩
  wantsDrain p := k.wantsDrain p.val.1
  drain p :=
    (⟨((k.drain p.val.1).1, (k'.drain p.val.2).1), (h.drain p.property).1⟩, (k.drain p.val.1).2)

theorem agrees_left (h : k.Matches k' R) : h.paired.Agrees k fun p => p.val.1 :=
  ⟨fun _ _ => rfl, fun _ _ => rfl, fun _ => rfl, fun _ => rfl⟩

theorem agrees_right (h : k.Matches k' R) : h.paired.Agrees k' fun p => p.val.2 where
  emit _ _ := rfl
  report _ _ := rfl
  wantsDrain p := (h.wantsDrain p.property).symm
  drain p := by
    show k'.drain p.val.2 = ((k'.drain p.val.2).1, (k.drain p.val.1).2)
    rw [(h.drain p.property).2]

/-- **A call in one is a call in the other**: both leave the same emitter and the same buffer, end
alike, and keep the relation. -/
theorem resume (h : k.Matches k' R) (e : Emitter) (b : Buffer) {s : σ} {t : τ} (hst : R s t) :
    (e.resume k b s).emitter = (e.resume k' b t).emitter ∧
      (e.resume k b s).buffer = (e.resume k' b t).buffer ∧
      (e.resume k b s).status = (e.resume k' b t).status ∧
      R (e.resume k b s).state (e.resume k' b t).state := by
  -- either call is that of the pair, seen from its side
  have hleft : e.resume k b s = (e.resume h.paired b ⟨(s, t), hst⟩).map fun p => p.val.1 :=
    Emitter.resume_map h.agrees_left e b ⟨(s, t), hst⟩
  have hright : e.resume k' b t = (e.resume h.paired b ⟨(s, t), hst⟩).map fun p => p.val.2 :=
    Emitter.resume_map h.agrees_right e b ⟨(s, t), hst⟩
  rw [hleft, hright]
  exact ⟨rfl, rfl, rfl, (e.resume h.paired b ⟨(s, t), hst⟩).state.property⟩

end Sink.Matches

/-! ## Taking notes -/

namespace Sink

variable {σ ν : Type}

/-- A sink that takes notes of what another is given. -/
def noting (k : Sink σ) (emit : ν → String → ν) (report : ν → Diagnostic → ν) : Sink (σ × ν) where
  emit p text := (k.emit p.1 text, emit p.2 text)
  report p d := (k.report p.1 d, report p.2 d)
  wantsDrain p := k.wantsDrain p.1
  drain p := (((k.drain p.1).1, p.2), (k.drain p.1).2)

/-- **Notes are not seen** by who is given what they are of. -/
theorem agrees_noting (k : Sink σ) (emit : ν → String → ν) (report : ν → Diagnostic → ν) :
    (k.noting emit report).Agrees k Prod.fst :=
  ⟨fun _ _ => rfl, fun _ _ => rfl, fun _ => rfl, fun _ => rfl⟩

end Sink

end Logbook
