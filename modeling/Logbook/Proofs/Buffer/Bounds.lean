/-
What the bounds of an expansion let through.

A value is shown as many levels deep as the bounds allow, and of each node as many children.
This file says where exactly the walk stops. It is inside one node more at each level, and at
the nodes that it meets with no level left it stops, not a level earlier and not a level later;
of a node that it enters it shows the first children, up to the length that holds for nodes of
that shape, and a marker after them if there are more.

A walk that was stopped nowhere has shown all there is. Then larger bounds change nothing, and
that is one induction on the levels of the smaller walk, as the larger one takes the same steps.
-/
import Logbook.Proofs.Buffer.Expansion
import Mathlib.Data.List.Induction

set_option autoImplicit false

namespace Logbook

/-- Bounds that let through no more than others. -/
structure Bounds.Within (b b' : Bounds) : Prop where
  depth : b.depth ≤ b'.depth
  length : ∀ shape, b.length shape ≤ b'.length shape

/-- Whether a slot stands in the place of something that the bounds leave out. -/
def Slot.isOmission : Slot → Bool
  | .marker .lengthReached | .marker (.tooDeep _) => true
  | _ => false

/-! ## Nesting -/

/-- Where no bracket is opened inside `n` others, no more than `n` are ever open. -/
theorem nesting_le {n : Nat} {ss : List Slot}
    (h : ∀ front shape back, ss = front ++ .opening shape :: back →
      front.countP Slot.isOpening < front.countP Slot.isClosing + n)
    (front back : List Slot) (hss : ss = front ++ back) :
    front.countP Slot.isOpening ≤ front.countP Slot.isClosing + n := by
  induction front using List.reverseRecOn generalizing back with
  | nil => exact Nat.zero_le _
  | append_singleton front s ih =>
    rw [List.append_assoc, List.singleton_append] at hss
    have hbefore := ih (s :: back) hss
    rw [List.countP_append, List.countP_append, List.countP_singleton, List.countP_singleton]
    cases s with
    | opening shape =>
      have hless := h front shape back hss
      simp only [Slot.isOpening, Slot.isClosing, if_true, Bool.false_eq_true, if_false]
      omega
    | _ =>
      simp only [Slot.isOpening, Slot.isClosing, if_true, Bool.false_eq_true, if_false]
      omega

namespace Heap

variable {h : Heap} {bounds bounds' : Bounds} {depth depth' : Nat} {path inside : List Ref}
  {v : Value} {front back : List Slot} {r : Ref}

/-! ## Where the walk stops -/

/-- **How a node is shown where the walk meets it.** It is inside of it already, or it has no
level left, or it enters it. -/
theorem Meets.cases_node (hm : h.Meets bounds depth path v front r inside) :
    ∃ back,
      (r ∈ inside ∧ h.slots bounds depth path v = front ++ .marker .cycle :: back) ∨
      (r ∉ inside ∧ inside.length = path.length + depth ∧
        h.slots bounds depth path v = front ++ .marker (.tooDeep r.shape) :: back) ∨
      (r ∉ inside ∧ ∃ left, path.length + depth = inside.length + left + 1 ∧
        h.slots bounds depth path v = front ++ .opening r.shape ::
          ((h.shown bounds r).flatMap (h.childSlots bounds left (r :: inside))
            ++ cutMark (h.isCut bounds r) ++ .closing r.shape :: back)) := by
  obtain ⟨left, back, hlevels, hslots⟩ := hm.slots_eq
  refine ⟨back, ?_⟩
  by_cases hr : r ∈ inside
  · exact .inl ⟨hr, by rw [hslots, slots_of_mem hr]; simp⟩
  · cases left with
    | zero => exact .inr (.inl ⟨hr, by omega, by rw [hslots, slots, if_neg hr]; simp⟩)
    | succ left =>
      refine .inr (.inr ⟨hr, left, by omega, ?_⟩)
      rw [hslots, slots_node hr]
      simp

/-- **A marker for a node that lies too deep stands where no level is left.** -/
theorem Meets.tooDeep_iff (hm : h.Meets bounds depth path v front r inside) (shape : Shape) :
    (∃ back, h.slots bounds depth path v = front ++ .marker (.tooDeep shape) :: back) ↔
      r ∉ inside ∧ inside.length = path.length + depth ∧ r.shape = shape := by
  obtain ⟨back, ⟨hr, hslots⟩ | ⟨hr, hlength, hslots⟩ | ⟨hr, left, hlevels, hslots⟩⟩ :=
    hm.cases_node
  · simp [hslots, hr]
  · simp [hslots, hr, hlength]
  · simp [hslots, hr]
    omega

/-- **A bracket is opened where one is left.** -/
theorem Meets.opening_iff (hm : h.Meets bounds depth path v front r inside) (shape : Shape) :
    (∃ back, h.slots bounds depth path v = front ++ .opening shape :: back) ↔
      r ∉ inside ∧ inside.length < path.length + depth ∧ r.shape = shape := by
  obtain ⟨back, ⟨hr, hslots⟩ | ⟨hr, hlength, hslots⟩ | ⟨hr, left, hlevels, hslots⟩⟩ :=
    hm.cases_node
  · simp [hslots, hr]
  · simp [hslots, hr, hlength]
  · have hless : inside.length < path.length + depth := by omega
    simp [hslots, hr, hless]

/-- **A bracket is opened for a node that the walk enters**, with a level left for it. Behind it
stand the first children, a marker if there are more, and the closing bracket. -/
theorem exists_entered {shape : Shape}
    (hslots : h.slots bounds depth path v = front ++ .opening shape :: back) :
    ∃ r inside left back', h.Meets bounds depth path v front r inside ∧ r.shape = shape ∧
      r ∉ inside ∧ path.length + depth = inside.length + left + 1 ∧
      back = (h.shown bounds r).flatMap (h.childSlots bounds left (r :: inside))
        ++ cutMark (h.isCut bounds r) ++ .closing shape :: back' := by
  obtain ⟨r, inside, hm⟩ := exists_meets_of_isNode rfl hslots
  obtain ⟨back', ⟨-, heq⟩ | ⟨-, -, heq⟩ | ⟨hr, left, hlevels, heq⟩⟩ := hm.cases_node
  · simp [heq] at hslots
  · simp [heq] at hslots
  · rw [heq] at hslots
    obtain ⟨hshape, hback⟩ := List.cons.inj (List.append_cancel_left hslots)
    obtain rfl := Slot.opening.inj hshape
    exact ⟨r, inside, left, back', hm, rfl, hr, hlevels, hback.symm⟩

/-- **A marker for more children stands only behind the last child** of a node that has more, and
right before the bracket that closes it. -/
theorem exists_cut
    (hslots : h.slots bounds depth path v = front ++ .marker .lengthReached :: back) :
    ∃ front' r inside left back', h.Meets bounds depth path v front' r inside ∧ r ∉ inside ∧
      path.length + depth = inside.length + left + 1 ∧ h.isCut bounds r = true ∧
      front = front' ++ .opening r.shape
        :: (h.shown bounds r).flatMap (h.childSlots bounds left (r :: inside)) ∧
      back = .closing r.shape :: back' := by
  obtain ⟨front', r, inside, hm, hplace⟩ := exists_stands rfl hslots
  obtain ⟨back', hnode⟩ := hm.cases_node
  rcases hplace with rfl | ⟨left, tail, back'', hr, hlevels, rfl, hend⟩
  -- no node starts with such a marker
  · obtain ⟨-, heq⟩ | ⟨-, -, heq⟩ | ⟨-, left, -, heq⟩ := hnode
    · simp [heq] at hslots
    · simp [heq] at hslots
    · simp [heq] at hslots
  · -- the closing bracket is none, so the marker is the one before it
    have hcut : h.isCut bounds r = true := by
      refine Classical.byContradiction fun hcut => ?_
      have hmem : .marker .lengthReached ∈ cutMark (h.isCut bounds r) ++ [.closing r.shape] :=
        hend ▸ List.mem_append_right tail List.mem_cons_self
      simp [hcut, cutMark] at hmem
    rw [hcut] at hend
    obtain ⟨rfl, -⟩ : tail = [] ∧ back'' = [.closing r.shape] := by
      cases tail with
      | nil => exact ⟨rfl, by simpa [cutMark] using hend.symm⟩
      | cons x tail => cases tail <;> simp [cutMark] at hend
    obtain ⟨hr', -⟩ | ⟨-, hlength, -⟩ | ⟨-, left', hlevels', heq⟩ := hnode
    · exact absurd hr' hr
    · omega
    · obtain rfl : left = left' := by omega
      refine ⟨front', r, inside, left, back', hm, hr, hlevels, hcut, by simp, ?_⟩
      rw [hslots, hcut] at heq
      simpa [cutMark] using heq

/-! ## Larger bounds -/

/-- **A walk that leaves nothing out is the same within larger bounds.** -/
theorem slots_of_within (hlength : ∀ shape, bounds.length shape ≤ bounds'.length shape)
    (hdepth : depth ≤ depth')
    (hwhole : ∀ s ∈ h.slots bounds depth path v, s.isOmission = false) :
    h.slots bounds' depth' path v = h.slots bounds depth path v := by
  induction depth generalizing depth' path v with
  | zero =>
    rcases v with s | _ | r
    · rw [slots, slots]
    · rw [slots, slots]
    · by_cases hr : r ∈ path
      · rw [slots_of_mem hr, slots_of_mem hr]
      · rw [slots, if_neg hr] at hwhole
        exact absurd (hwhole _ List.mem_cons_self) (by simp [Slot.isOmission])
  | succ depth ih =>
    rcases v with s | _ | r
    · rw [slots, slots]
    · rw [slots, slots]
    · by_cases hr : r ∈ path
      · rw [slots_of_mem hr, slots_of_mem hr]
      · obtain ⟨depth', rfl⟩ : ∃ d, depth' = d + 1 := ⟨depth' - 1, by omega⟩
        rw [slots_node hr] at hwhole
        -- no marker stands behind the children, so the bound lets all of them through
        have hall : (h.children r).length ≤ bounds.length r.shape := by
          refine Nat.le_of_not_lt fun hmore => ?_
          have hcut : h.isCut bounds r = true := decide_eq_true hmore
          have hmark := hwhole (.marker .lengthReached) (by simp [hcut, cutMark])
          simp [Slot.isOmission] at hmark
        have hall' := Nat.le_trans hall (hlength r.shape)
        have hcut : h.isCut bounds r = false := by simpa [isCut] using hall
        have hcut' : h.isCut bounds' r = false := by simpa [isCut] using hall'
        have hshown : h.shown bounds r = h.children r := List.take_of_length_le hall
        have hshown' : h.shown bounds' r = h.children r := List.take_of_length_le hall'
        rw [slots_node hr, slots_node hr, hcut, hcut', hshown', hshown]
        congr 3
        rw [List.flatMap_def, List.flatMap_def]
        congr 1
        refine List.map_congr_left fun c hc => ?_
        have hinner : ∀ s ∈ h.slots bounds depth (r :: path) c.value, s.isOmission = false := by
          intro s hs
          refine hwhole s (List.mem_append_left _ (List.mem_append_left _ (List.mem_cons_of_mem _ ?_)))
          rw [hshown, List.mem_flatMap]
          exact ⟨c, hc, List.mem_append_right _ hs⟩
        rw [childSlots, childSlots, ih (by omega) hinner]

end Heap

namespace Buffer

/-- **Bounds are kept exactly at every level, and what they leave out is marked.** Take any heap,
any value, any bounds and any buffer, and let `inside` be the nodes that the walk is inside of
where it meets a node.

* No more brackets are open at a time than the bounds have levels.
* A bracket is opened exactly where the walk meets a node that it is not inside of and a level is
  left. Where none is left there is a marker for a node of that shape, and it stands nowhere else.
* Between the brackets of a node stand its first children in order, as many as there are or as
  the length for nodes of its shape allows, each with its name, if it has one, and one group of
  slots for its value. A marker follows them, and only one, exactly if there are more.
* That marker stands nowhere but right before the closing bracket of a node with more children.
* If none of these markers was appended, larger bounds append the same slots. -/
theorem expand_within_bounds (h : Heap) (v : Value) (bounds : Bounds) (b : Buffer) :
    ∃ added,
      (b.expand h v bounds).slots = b.slots ++ added ∧
      (∀ front back, added = front ++ back →
        front.countP Slot.isOpening ≤ front.countP Slot.isClosing + bounds.depth) ∧
      (∀ front r inside, h.Meets bounds bounds.depth b.path v front r inside → ∀ shape,
        ((∃ back, added = front ++ .opening shape :: back) ↔
          r ∉ inside ∧ inside.length < b.path.length + bounds.depth ∧ r.shape = shape) ∧
        ((∃ back, added = front ++ .marker (.tooDeep shape) :: back) ↔
          r ∉ inside ∧ inside.length = b.path.length + bounds.depth ∧ r.shape = shape)) ∧
      (∀ front shape back, added = front ++ .marker (.tooDeep shape) :: back →
        ∃ r inside, h.Meets bounds bounds.depth b.path v front r inside) ∧
      (∀ front shape back, added = front ++ .opening shape :: back →
        ∃ r inside left back', h.Meets bounds bounds.depth b.path v front r inside ∧
          b.path.length + bounds.depth = inside.length + left + 1 ∧
          back = ((h.children r).take (min (h.children r).length (bounds.length shape))).flatMap
              (fun c => c.label ++ h.slots bounds left (r :: inside) c.value)
            ++ (if bounds.length shape < (h.children r).length then [.marker .lengthReached]
              else [])
            ++ .closing shape :: back' ∧
          ∀ c ∈ h.children r, Group (h.slots bounds left (r :: inside) c.value)) ∧
      (∀ front back, added = front ++ .marker .lengthReached :: back →
        ∃ front' r inside left back', h.Meets bounds bounds.depth b.path v front' r inside ∧
          bounds.length r.shape < (h.children r).length ∧
          front = front' ++ .opening r.shape
            :: ((h.children r).take (bounds.length r.shape)).flatMap
              (fun c => c.label ++ h.slots bounds left (r :: inside) c.value) ∧
          back = .closing r.shape :: back') ∧
      (∀ bounds', bounds.Within bounds' → (∀ s ∈ added, s.isOmission = false) →
        (b.expand h v bounds').slots = b.slots ++ added) := by
  have hexpand : ∀ bounds : Bounds,
      (b.expand h v bounds).slots = b.slots ++ h.slots bounds bounds.depth b.path v :=
    fun bounds => (slots_appendValue h bounds bounds.depth b v).1
  refine ⟨h.slots bounds bounds.depth b.path v, hexpand bounds, ?_, ?_, ?_, ?_, ?_, ?_⟩
  · refine nesting_le fun front shape back hslots => ?_
    obtain ⟨r, inside, left, -, hm, -, -, hlevels, -⟩ := Heap.exists_entered hslots
    obtain ⟨n, hn, hopen⟩ := hm.leavesOpen
    rw [LeavesOpen] at hopen
    omega
  · exact fun front r inside hm shape => ⟨hm.opening_iff shape, hm.tooDeep_iff shape⟩
  · exact fun front shape back hslots => Heap.exists_meets_of_isNode rfl hslots
  · intro front shape back hslots
    obtain ⟨r, inside, left, back', hm, rfl, -, hlevels, hback⟩ := Heap.exists_entered hslots
    refine ⟨r, inside, left, back', hm, hlevels, ?_, fun c _ => h.group_slots _ _ _ c.value⟩
    have hshown : (h.children r).take (min (h.children r).length (bounds.length r.shape))
        = h.shown bounds r := by
      rw [Nat.min_comm, ← List.take_eq_take_min, Heap.shown]
    rw [hback, hshown]
    simp only [cutMark, Heap.isCut, decide_eq_true_eq]
    rfl
  · intro front back hslots
    obtain ⟨front', r, inside, left, back', hm, -, -, hcut, hfront, hback⟩ := Heap.exists_cut hslots
    exact ⟨front', r, inside, left, back', hm, of_decide_eq_true hcut, hfront, hback⟩
  · intro bounds' hwithin hwhole
    rw [hexpand bounds', Heap.slots_of_within hwithin.length hwithin.depth hwhole]

end Buffer

end Logbook
