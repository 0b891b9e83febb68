/-
What is appended for a value, whatever graph it belongs to.

Nodes refer to each other as they like, so a walk through them need not end by itself. It
ends because it never enters a node that it is inside of: the nodes it has not entered yet
become fewer with every level, and this bounds the levels however many the bounds allow.
`Heap.fullSlots` is the walk with no bound on the depth at all, which is defined by that
count alone, and a bound beyond the number of nodes makes no difference to it.

What is appended is one group, with brackets that match. A marker for a cycle stands where
the walk meets a node that it is inside of, and nowhere else. `Heap.Meets` says where the
walk meets a node and which nodes it is inside of there; these are the nodes on the way
from the root to it, and their brackets are the ones that are open.
-/
import Logbook.Proofs.Buffer.Slots

set_option autoImplicit false

namespace Logbook

/-! ## Groups -/

/-- The marker of what the bounds cut off, if they do. -/
def cutMark (cut : Bool) : List Slot := if cut then [.marker .lengthReached] else []

/-- **The slots of one value.** A node is in brackets, with a name and one value for each
field of a record, and one value for each item of a sequence. -/
inductive Group : List Slot → Prop where
  | scalar (s : Scalar) : Group [.scalar s]
  | foreign : Group [.marker .foreign]
  | cycle : Group [.marker .cycle]
  | tooDeep (shape : Shape) : Group [.marker (.tooDeep shape)]
  | record (fields : List (String × List Slot)) (cut : Bool) (h : ∀ f ∈ fields, Group f.2) :
    Group (.opening .record :: (fields.flatMap fun f => .name f.1 :: f.2) ++ cutMark cut
      ++ [.closing .record])
  | sequence (items : List (List Slot)) (cut : Bool) (h : ∀ i ∈ items, Group i) :
    Group (.opening .sequence :: items.flatten ++ cutMark cut ++ [.closing .sequence])

theorem eq_of_mem_cutMark {cut : Bool} {y : Slot} (hy : y ∈ cutMark cut) :
    y = .marker .lengthReached := by
  cases cut with
  | false => simp [cutMark] at hy
  | true => exact List.mem_singleton.mp hy

namespace Heap

/-- The slots of one child, inside the nodes of a path. -/
def childSlots (h : Heap) (bounds : Bounds) (depth : Nat) (path : List Ref) (c : Child) :
    List Slot :=
  c.label ++ h.slots bounds depth path c.value

theorem slots_node {h : Heap} {bounds : Bounds} {depth : Nat} {path : List Ref} {r : Ref}
    (hr : r ∉ path) :
    h.slots bounds (depth + 1) path (.node r)
      = .opening r.shape :: (h.shown bounds r).flatMap (h.childSlots bounds depth (r :: path))
        ++ cutMark (h.isCut bounds r) ++ [.closing r.shape] := by
  rw [slots, if_neg hr]
  rfl

theorem slots_of_mem {h : Heap} {bounds : Bounds} {path : List Ref} {r : Ref} (hr : r ∈ path)
    (depth : Nat) : h.slots bounds depth path (.node r) = [.marker .cycle] := by
  cases depth <;> rw [slots, if_pos hr]

theorem mem_children_of_mem_shown {h : Heap} {bounds : Bounds} {r : Ref} {c : Child}
    (hc : c ∈ h.shown bounds r) : c ∈ h.children r := List.mem_of_mem_take hc

theorem mem_children_of_shown {h : Heap} {bounds : Bounds} {r : Ref} {before after : List Child}
    {c : Child} (hshown : h.shown bounds r = before ++ c :: after) : c ∈ h.children r :=
  mem_children_of_mem_shown (hshown ▸ List.mem_append_right before List.mem_cons_self)

/-! ## One group for a value -/

/-- **A value is appended as one group.** -/
theorem group_slots (h : Heap) (bounds : Bounds) (depth : Nat) (path : List Ref) (v : Value) :
    Group (h.slots bounds depth path v) := by
  induction depth generalizing path v with
  | zero =>
    rcases v with s | _ | r
    · exact .scalar s
    · exact .foreign
    · by_cases hr : r ∈ path
      · rw [slots_of_mem hr]
        exact .cycle
      · rw [slots, if_neg hr]
        exact .tooDeep r.shape
  | succ depth ih =>
    rcases v with s | _ | r
    · exact .scalar s
    · exact .foreign
    · by_cases hr : r ∈ path
      · rw [slots_of_mem hr]
        exact .cycle
      · have hname : ∀ c ∈ h.shown bounds r, c.name.isSome = decide (r.shape = .record) :=
          fun c hc => name_of_mem_children (mem_children_of_mem_shown hc)
        rw [slots_node hr]
        generalize h.shown bounds r = cs at hname
        cases hshape : r.shape with
        | record =>
          -- every child has a name, which is put before its value
          have hfields : cs.flatMap (h.childSlots bounds depth (r :: path))
              = (cs.map fun c => (c.name.getD "", h.slots bounds depth (r :: path) c.value)).flatMap
                  fun f => .name f.1 :: f.2 := by
            rw [List.flatMap_map, List.flatMap_def, List.flatMap_def]
            congr 1
            refine List.map_congr_left fun c hc => ?_
            obtain ⟨name, hc⟩ := Option.isSome_iff_exists.mp ((hname c hc).trans (by simp [hshape]))
            simp [childSlots, Child.label, hc]
          rw [hfields]
          refine .record _ _ fun f hf => ?_
          obtain ⟨c, -, rfl⟩ := List.mem_map.mp hf
          exact ih (r :: path) c.value
        | sequence =>
          have hitems : cs.flatMap (h.childSlots bounds depth (r :: path))
              = (cs.map fun c => h.slots bounds depth (r :: path) c.value).flatten := by
            rw [List.flatMap_def]
            congr 1
            refine List.map_congr_left fun c hc => ?_
            have hc : c.name = none := by simpa [hshape] using hname c hc
            simp [childSlots, Child.label, hc]
          rw [hitems]
          refine .sequence _ _ fun i hi => ?_
          obtain ⟨c, -, rfl⟩ := List.mem_map.mp hi
          exact ih (r :: path) c.value

end Heap

/-! ## Brackets -/

def Slot.isOpening : Slot → Bool
  | .opening _ => true
  | _ => false

def Slot.isClosing : Slot → Bool
  | .closing _ => true
  | _ => false

/-- Some brackets that are opened are closed again, but for `n` of them. -/
def LeavesOpen (ss : List Slot) (n : Nat) : Prop :=
  ss.countP Slot.isOpening = ss.countP Slot.isClosing + n

theorem LeavesOpen.append {ss ts : List Slot} {m n : Nat} (hs : LeavesOpen ss m)
    (ht : LeavesOpen ts n) : LeavesOpen (ss ++ ts) (m + n) := by
  unfold LeavesOpen at *
  rw [List.countP_append, List.countP_append]
  omega

theorem LeavesOpen.flatMap {α : Type} {xs : List α} {f : α → List Slot}
    (h : ∀ x ∈ xs, LeavesOpen (f x) 0) : LeavesOpen (xs.flatMap f) 0 := by
  induction xs with
  | nil => rfl
  | cons x xs ih =>
    exact (h x List.mem_cons_self).append (ih fun y hy => h y (List.mem_cons_of_mem x hy))

theorem LeavesOpen.node {inner : List Slot} (h : LeavesOpen inner 0) (shape : Shape) :
    LeavesOpen (.opening shape :: inner ++ [.closing shape]) 0 := by
  unfold LeavesOpen at *
  simp only [List.countP_append, List.countP_cons, List.countP_nil, Slot.isOpening,
    Slot.isClosing, if_true, Bool.false_eq_true, if_false]
  omega

theorem leavesOpen_label (c : Child) : LeavesOpen c.label 0 := by
  cases hc : c.name <;> simp [LeavesOpen, Child.label, hc, Slot.isOpening, Slot.isClosing]

theorem leavesOpen_cutMark (cut : Bool) : LeavesOpen (cutMark cut) 0 := by
  cases cut <;> rfl

/-- **The brackets of a group match.** -/
theorem Group.leavesOpen {ss : List Slot} (h : Group ss) : LeavesOpen ss 0 := by
  induction h with
  | scalar s => rfl
  | foreign => rfl
  | cycle => rfl
  | tooDeep shape => rfl
  | record fields cut h ih =>
    have hfields : LeavesOpen (fields.flatMap fun f => .name f.1 :: f.2) 0 :=
      .flatMap fun f hf => by
        have hname : LeavesOpen [.name f.1] 0 := rfl
        exact hname.append (ih f hf)
    exact (hfields.append (leavesOpen_cutMark cut)).node .record
  | sequence items cut h ih =>
    have hitems : LeavesOpen items.flatten 0 := by
      rw [← List.flatMap_id]
      exact .flatMap ih
    exact (hitems.append (leavesOpen_cutMark cut)).node .sequence

/-! ## Where the walk meets a node -/

/-- Whether a slot is the first one of a node: its opening bracket, or a marker in its place. -/
def Slot.isNode : Slot → Bool
  | .opening _ | .marker .cycle | .marker (.tooDeep _) => true
  | _ => false

/-- Whether a slot is one that a node has for itself, at its start or at its end. -/
def Slot.isOfNode : Slot → Bool
  | .opening _ | .closing _ | .marker .cycle | .marker (.tooDeep _) | .marker .lengthReached => true
  | _ => false

theorem Slot.isOfNode_of_isNode {y : Slot} (hy : y.isNode = true) : y.isOfNode = true := by
  unfold isNode at hy
  split at hy <;> simp_all [isOfNode]

theorem Child.isOfNode_of_mem_label {c : Child} {y : Slot} (hy : y ∈ c.label) :
    y.isOfNode = false := by
  unfold Child.label at hy
  split at hy
  · rw [List.mem_singleton.mp hy]
    rfl
  · simp at hy

namespace Heap

/-- **Where the walk meets a node.** A value that is appended inside the nodes of `path`, with
`depth` levels left, is walked through, and after the slots of `front` the walk meets `r`
inside the nodes of `inside`, innermost first. -/
inductive Meets (h : Heap) (bounds : Bounds) :
    (depth : Nat) → (path : List Ref) → (v : Value) → (front : List Slot) → (r : Ref) →
      (inside : List Ref) → Prop where
  | here {depth : Nat} {path : List Ref} {r : Ref} : Meets h bounds depth path (.node r) [] r path
  | child {depth : Nat} {path inside : List Ref} {r r' : Ref} {before after : List Child}
      {c : Child} {front : List Slot} (hr : r ∉ path)
      (hshown : h.shown bounds r = before ++ c :: after)
      (hmeets : Meets h bounds depth (r :: path) c.value front r' inside) :
    Meets h bounds (depth + 1) path (.node r)
      (.opening r.shape :: before.flatMap (h.childSlots bounds depth (r :: path)) ++ c.label
        ++ front) r' inside

/-- **The way to a node** from a root along references: the nodes it goes through, innermost
first. -/
inductive Way (h : Heap) (root : Ref) : Ref → List Ref → Prop where
  | root : Way h root root []
  | step {r r' : Ref} {inside : List Ref} (hway : Way h root r inside) {c : Child}
      (hc : c ∈ h.children r) (hvalue : c.value = .node r') : Way h root r' (r :: inside)

variable {h : Heap} {bounds : Bounds} {depth : Nat} {path inside : List Ref} {v : Value}
  {front : List Slot} {r : Ref}

theorem Meets.exists_node (hm : h.Meets bounds depth path v front r inside) :
    ∃ root, v = .node root := by
  cases hm with
  | here => exact ⟨_, rfl⟩
  | child => exact ⟨_, rfl⟩

/-- The walk is inside the nodes on the way to the one that it meets. -/
theorem Meets.way {root first : Ref} (hm : h.Meets bounds depth path v front r inside)
    (hv : v = .node first) (hpath : h.Way root first path) : h.Way root r inside := by
  induction hm generalizing first with
  | here =>
    obtain rfl := Value.node.inj hv
    exact hpath
  | child hr hshown hmeets ih =>
    obtain rfl := Value.node.inj hv
    obtain ⟨next, hnext⟩ := hmeets.exists_node
    have hc := mem_children_of_shown hshown
    exact ih hnext (hpath.step hc hnext)

/-- A node is not entered while the walk is inside it. -/
theorem Meets.nodup (hm : h.Meets bounds depth path v front r inside) (hpath : path.Nodup) :
    inside.Nodup := by
  induction hm with
  | here => exact hpath
  | child hr hshown hmeets ih => exact ih (List.nodup_cons.mpr ⟨hr, hpath⟩)

/-- Every level that the walk enters uses up one of the nodes that were free. -/
theorem Meets.length_le (hm : h.Meets bounds depth path v front r inside) :
    inside.length + h.free inside ≤ path.length + h.free path := by
  induction hm with
  | here => exact Nat.le_refl _
  | child hr hshown hmeets ih =>
    have hc := mem_children_of_shown hshown
    have hfree := free_cons_lt (mem_refs_of_mem_children hc) hr
    rw [List.length_cons] at ih
    omega

/-- The brackets that are open are those of the nodes that the walk is inside of. -/
theorem Meets.leavesOpen (hm : h.Meets bounds depth path v front r inside) :
    ∃ n, inside.length = path.length + n ∧ LeavesOpen front n := by
  induction hm with
  | here => exact ⟨0, rfl, rfl⟩
  | @child depth path inside r r' before after c front hr hshown hmeets ih =>
    obtain ⟨n, hlength, hopen⟩ := ih
    refine ⟨n + 1, by rw [hlength, List.length_cons]; omega, ?_⟩
    have hbefore : LeavesOpen (before.flatMap (h.childSlots bounds depth (r :: path))) 0 :=
      .flatMap fun c' _ => (leavesOpen_label c').append (group_slots _ _ _ _ _).leavesOpen
    have hopening : LeavesOpen [.opening r.shape] 1 := rfl
    have hall := ((hopening.append hbefore).append (leavesOpen_label c)).append hopen
    rw [Nat.add_comm n 1]
    exact hall

/-- What is appended where the walk meets a node is what is appended for that node, with the
levels that are left. -/
theorem Meets.slots_eq (hm : h.Meets bounds depth path v front r inside) :
    ∃ left back, path.length + depth = inside.length + left ∧
      h.slots bounds depth path v = front ++ h.slots bounds left inside (.node r) ++ back := by
  induction hm with
  | @here depth path r => exact ⟨depth, [], rfl, by simp⟩
  | @child depth path inside r r' before after c front hr hshown hmeets ih =>
    obtain ⟨left, back, hlevels, hslots⟩ := ih
    refine ⟨left, back ++ after.flatMap (h.childSlots bounds depth (r :: path))
      ++ cutMark (h.isCut bounds r) ++ [.closing r.shape], ?_, ?_⟩
    · rw [List.length_cons] at hlevels
      omega
    · rw [slots_node hr, hshown, List.flatMap_append, List.flatMap_cons]
      simp only [childSlots, hslots, List.cons_append, List.append_assoc]

/-- **A marker for a cycle stands where the walk meets a node that it is inside of.** -/
theorem Meets.cycle_iff (hm : h.Meets bounds depth path v front r inside) :
    (∃ back, h.slots bounds depth path v = front ++ .marker .cycle :: back) ↔ r ∈ inside := by
  obtain ⟨left, rest, -, hslots⟩ := hm.slots_eq
  constructor
  · rintro ⟨back, hback⟩
    rw [hslots, List.append_assoc] at hback
    have hhead := List.append_cancel_left hback
    refine Classical.byContradiction fun hr => ?_
    cases left with
    | zero => simp [slots, hr] at hhead
    | succ left => simp [slots_node hr] at hhead
  · intro hr
    exact ⟨rest, by rw [hslots, slots_of_mem hr]; simp⟩

/-! ## Every marker is where the walk meets a node -/

section Split

variable {α β : Type} {ss ts front back : List β} {y : β}

/-- What stands in two lists stands in one of them. -/
theorem split_append (h : ss ++ ts = front ++ y :: back) :
    (∃ back', ss = front ++ y :: back') ∨
      ∃ front', front = ss ++ front' ∧ ts = front' ++ y :: back := by
  rcases List.append_eq_append_iff.mp h with ⟨front', hfront, hts⟩ | ⟨rest, hss, hback⟩
  · exact .inr ⟨front', hfront, hts⟩
  · rcases List.cons_eq_append_iff.mp hback with ⟨rfl, hts⟩ | ⟨back', rfl, -⟩
    · exact .inr ⟨[], by simpa using hss.symm, hts⟩
    · exact .inl ⟨back', hss⟩

theorem split_flatMap {f : α → List β} {xs : List α} (h : xs.flatMap f = front ++ y :: back) :
    ∃ before x after front' back', xs = before ++ x :: after ∧
      front = before.flatMap f ++ front' ∧ f x = front' ++ y :: back' := by
  induction xs generalizing front with
  | nil => simp at h
  | cons x xs ih =>
    rw [List.flatMap_cons] at h
    rcases split_append h with ⟨back', hx⟩ | ⟨front', rfl, hxs⟩
    · exact ⟨[], x, xs, front, back', rfl, rfl, hx⟩
    · obtain ⟨before, z, after, front'', back', rfl, rfl, hz⟩ := ih hxs
      exact ⟨x :: before, z, after, front'', back', rfl, by simp, hz⟩

end Split

theorem cycle_not_mem_label (c : Child) : .marker .cycle ∉ c.label := by
  intro hmem
  have hnode := Child.isOfNode_of_mem_label hmem
  contradiction

/-- **What a node has for itself stands where the walk meets that node**, as its first slot, or
after its children. The induction is on the levels, as the walk is. -/
theorem exists_stands {y : Slot} (hy : y.isOfNode = true) {back : List Slot}
    (hslots : h.slots bounds depth path v = front ++ y :: back) :
    ∃ front' r inside, h.Meets bounds depth path v front' r inside ∧
      (front = front' ∨ ∃ left tail back', r ∉ inside ∧
        path.length + depth = inside.length + left + 1 ∧
        front = front' ++ .opening r.shape
          :: (h.shown bounds r).flatMap (h.childSlots bounds left (r :: inside)) ++ tail ∧
        cutMark (h.isCut bounds r) ++ [.closing r.shape] = tail ++ y :: back') := by
  -- so it is not a slot of any other sort
  have hne : ∀ x : Slot, x.isOfNode = false → y ≠ x := by
    rintro x hx rfl
    rw [hy] at hx
    contradiction
  have hmem : y ∈ h.slots bounds depth path v :=
    hslots ▸ List.mem_append_right front List.mem_cons_self
  induction depth generalizing path v front back with
  | zero =>
    rcases v with s | _ | r
    · exact absurd (List.mem_singleton.mp hmem) (hne _ rfl)
    · exact absurd (List.mem_singleton.mp hmem) (hne _ rfl)
    · cases front with
      | nil => exact ⟨[], r, path, .here, .inl rfl⟩
      | cons x front => by_cases hr : r ∈ path <;> simp [slots, hr] at hslots
  | succ depth ih =>
    rcases v with s | _ | r
    · exact absurd (List.mem_singleton.mp hmem) (hne _ rfl)
    · exact absurd (List.mem_singleton.mp hmem) (hne _ rfl)
    · cases front with
      | nil => exact ⟨[], r, path, .here, .inl rfl⟩
      | cons x front =>
        by_cases hr : r ∈ path
        · simp [slots_of_mem hr] at hslots
        · rw [slots_node hr, List.append_assoc, List.cons_append] at hslots
          obtain ⟨rfl, hinner⟩ := List.cons.inj hslots
          rcases split_append hinner with ⟨back', hchildren⟩ | ⟨tail, rfl, hend⟩
          -- the slot belongs to a node further inside
          · obtain ⟨before, c, after, front', back', hshown, rfl, hc⟩ := split_flatMap hchildren
            rcases split_append hc with ⟨back', hlabel⟩ | ⟨front', rfl, hvalue⟩
            · have hmem : y ∈ c.label := hlabel ▸ List.mem_append_right _ List.mem_cons_self
              exact absurd rfl (hne y (Child.isOfNode_of_mem_label hmem))
            · have hmem : y ∈ h.slots bounds depth (r :: path) c.value :=
                hvalue ▸ List.mem_append_right front' List.mem_cons_self
              obtain ⟨front'', r', inside, hm, hplace⟩ := ih hvalue hmem
              refine ⟨_, r', inside, .child hr hshown hm, ?_⟩
              rcases hplace with rfl | ⟨left, tail, back', hr', hlevels, rfl, hend⟩
              · exact .inl (by simp)
              · refine .inr ⟨left, tail, back', hr', ?_, by simp, hend⟩
                rw [List.length_cons] at hlevels
                omega
          -- it is behind the children of the node itself
          · exact ⟨[], r, path, .here, .inr ⟨depth, tail, back, hr, rfl, by simp, hend⟩⟩

/-- **The first slot of a node stands where the walk meets that node.** -/
theorem exists_meets_of_isNode {y : Slot} (hy : y.isNode = true) {back : List Slot}
    (hslots : h.slots bounds depth path v = front ++ y :: back) :
    ∃ r inside, h.Meets bounds depth path v front r inside := by
  obtain ⟨front', r, inside, hm, rfl | ⟨left, tail, back', -, -, -, hend⟩⟩ :=
    exists_stands (Slot.isOfNode_of_isNode hy) hslots
  · exact ⟨r, inside, hm⟩
  -- after its children a node has no such slot
  · have hmem : y ∈ cutMark (h.isCut bounds r) ++ [.closing r.shape] :=
      hend ▸ List.mem_append_right _ List.mem_cons_self
    rcases List.mem_append.mp hmem with hcut | hclosing
    · rw [eq_of_mem_cutMark hcut] at hy
      contradiction
    · rw [List.mem_singleton.mp hclosing] at hy
      contradiction

/-- **A marker for a cycle stands only where the walk meets a node.** -/
theorem exists_meets {back : List Slot}
    (hslots : h.slots bounds depth path v = front ++ .marker .cycle :: back) :
    ∃ r inside, h.Meets bounds depth path v front r inside :=
  exists_meets_of_isNode rfl hslots

/-- Where the walk meets a node that it is inside of, the value contains itself. -/
theorem Meets.reenters (hm : h.Meets bounds depth path v front r inside) (hr : r ∈ inside) :
    h.reenters path v = true := by
  induction hm with
  | here => rw [Heap.reenters, dif_pos hr]
  | child hr' hshown hmeets ih =>
    have hc := mem_children_of_shown hshown
    rw [Heap.reenters, dif_neg hr']
    exact List.any_eq_true.mpr ⟨⟨_, hc⟩, List.mem_attach _ _, ih hr⟩

/-- A value that does not contain itself is appended without a marker for a cycle, however
often it meets one node side by side. -/
theorem cycle_not_mem_slots (hv : h.reenters path v = false) :
    .marker .cycle ∉ h.slots bounds depth path v := by
  intro hmem
  obtain ⟨front, back, hslots⟩ := List.append_of_mem hmem
  obtain ⟨r, inside, hm⟩ := exists_meets hslots
  have hr := hm.cycle_iff.mp ⟨back, hslots⟩
  rw [hm.reenters hr] at hv
  contradiction

/-! ## The walk without a bound on the depth -/

/-- **The slots of a value, as many levels deep as there are.** What goes down from level to
level is the number of nodes that the walk is not inside of. -/
def fullSlots (h : Heap) (bounds : Bounds) (path : List Ref) (v : Value) : List Slot :=
  match v with
  | .scalar s => [.scalar s]
  | .foreign => [.marker .foreign]
  | .node r =>
    if _hr : r ∈ path then
      [.marker .cycle]
    else
      .opening r.shape
        :: (h.shown bounds r).attach.flatMap
            (fun ⟨c, _⟩ => c.label ++ h.fullSlots bounds (r :: path) c.value)
        ++ cutMark (h.isCut bounds r) ++ [.closing r.shape]
termination_by h.free path
decreasing_by exact free_cons_lt (mem_refs_of_mem_children (mem_children_of_mem_shown ‹_›)) _hr

theorem fullSlots_node (hr : r ∉ path) :
    h.fullSlots bounds path (.node r)
      = .opening r.shape
        :: (h.shown bounds r).flatMap
            (fun c => c.label ++ h.fullSlots bounds (r :: path) c.value)
        ++ cutMark (h.isCut bounds r) ++ [.closing r.shape] := by
  rw [fullSlots, dif_neg hr]
  simp

/-- **A bound on the depth that is beyond the nodes there are is none.** -/
theorem slots_eq_fullSlots (hdepth : h.free path < depth) :
    h.slots bounds depth path v = h.fullSlots bounds path v := by
  induction depth generalizing path v with
  | zero => omega
  | succ depth ih =>
    rcases v with s | _ | r
    · rw [slots, fullSlots]
    · rw [slots, fullSlots]
    · by_cases hr : r ∈ path
      · rw [slots_of_mem hr, fullSlots, dif_pos hr]
      · rw [slots_node hr, fullSlots_node hr, List.flatMap_def, List.flatMap_def]
        congr 4
        refine List.map_congr_left fun c hc => ?_
        have hfree := free_cons_lt (mem_refs_of_mem_children (mem_children_of_mem_shown hc)) hr
        rw [childSlots, ih (by omega)]

end Heap

/-! ## Arguments side by side -/

/-- Each argument is walked through from outside all nodes, so one node in two arguments is
no cycle. -/
theorem Directive.cycle_not_mem_slots (d : Directive) (clock : Clock) (origin : Origin)
    (f : Format) {args : Arguments}
    (hargs : ∀ v ∈ args.values, args.heap.reenters [] v = false) :
    .marker .cycle ∉ (d.slots clock origin f args).1 := by
  have hvalue : ∀ {i : Nat} {v : Value}, args.values[i]? = some v →
      ∀ bounds : Bounds, .marker .cycle ∉ args.heap.slots bounds bounds.depth [] v :=
    fun hi _ => Heap.cycle_not_mem_slots (hargs _ (List.mem_of_getElem? hi))
  cases d with
  | literal c => simp [slots, slot?]
  | expando e => cases e <;> simp [slots, slot?]
  | scalar kind i =>
    simp only [slots, slot?, Option.toList_some, ScalarKind.slot]
    split
    · split <;> simp
    · simp
  | general i =>
    simp only [slots]
    split
    · rename_i v hi
      exact hvalue hi Bounds.standard
    · simp
  | compound shape i bounds =>
    simp only [slots]
    split
    · rename_i r hi
      split
      · exact hvalue hi bounds
      · simp
    · simp

theorem Message.cycle_not_mem_slots {m : Message}
    (hargs : ∀ v ∈ m.args.values, m.args.heap.reenters [] v = false) :
    .marker .cycle ∉ m.slots := by
  have hbody : ∀ (es : List Entry) (clock : Clock), .marker .cycle ∉ (m.body clock es).1 := by
    intro es
    induction es with
    | nil => simp [body]
    | cons e es ih =>
      intro clock hmem
      rw [body] at hmem
      rcases List.mem_append.mp hmem with hfirst | hrest
      · exact e.directive.cycle_not_mem_slots clock m.origin m.format hargs hfirst
      · exact ih _ hrest
  simp [slots, start, hbody]

namespace Buffer

/-- **Any value is appended as one group, with a marker exactly at the back edges.** Take any
heap, however its nodes refer to each other, any value, any bounds and a buffer that is
inside no node.

* The value is appended as one group, and the buffer is inside no node again.
* Where the walk meets a node it is inside the nodes on the way to it, each of them once, and
  theirs are the brackets that are open. There is a marker for a cycle there exactly if the
  node is one of them, and there is no marker elsewhere.
* A value that does not contain itself has no such marker, and neither has a message whose
  arguments do not, whatever nodes they share.
* The walk is never inside more nodes than there are, and a bound on the depth beyond their
  number is as good as none. -/
theorem expand_marks_back_edges (h : Heap) (v : Value) (bounds : Bounds) (b : Buffer)
    (hb : b.path = []) :
    ∃ added,
      ((b.expand h v bounds).slots = b.slots ++ added ∧ (b.expand h v bounds).path = [] ∧
        Group added) ∧
      (∀ front r inside, h.Meets bounds bounds.depth [] v front r inside →
        ((∃ back, added = front ++ .marker .cycle :: back) ↔ r ∈ inside) ∧
        (∃ root, v = .node root ∧ h.Way root r inside) ∧ inside.Nodup ∧
        LeavesOpen front inside.length ∧ inside.length ≤ h.refs.length) ∧
      (∀ front back, added = front ++ .marker .cycle :: back →
        ∃ r inside, h.Meets bounds bounds.depth [] v front r inside) ∧
      (h.reenters [] v = false → .marker .cycle ∉ added) ∧
      (∀ m : Message, (∀ v ∈ m.args.values, m.args.heap.reenters [] v = false) →
        ∃ logged, (b.log m.clock m.origin m.level m.format m.args).1.slots = b.slots ++ logged ∧
          .marker .cycle ∉ logged) ∧
      (h.refs.length < bounds.depth → added = h.fullSlots bounds [] v) := by
  obtain ⟨hslots, hpath⟩ := slots_appendValue h bounds bounds.depth b v
  rw [hb] at hslots hpath
  have hfree : h.free [] ≤ h.refs.length := List.countP_le_length
  refine ⟨h.slots bounds bounds.depth [] v, ⟨hslots, hpath, h.group_slots _ _ _ v⟩, ?_,
    fun front back => Heap.exists_meets, Heap.cycle_not_mem_slots, ?_, ?_⟩
  · intro front r inside hm
    obtain ⟨root, hroot⟩ := hm.exists_node
    obtain ⟨n, hn, hopen⟩ := hm.leavesOpen
    obtain rfl : n = inside.length := by rw [hn]; simp
    have hlength := hm.length_le
    exact ⟨hm.cycle_iff, ⟨root, hroot, hm.way hroot .root⟩, hm.nodup List.nodup_nil, hopen,
      by simp only [List.length_nil] at hlength; omega⟩
  · intro m hargs
    exact ⟨m.slots, (slots_log b m).1, Message.cycle_not_mem_slots hargs⟩
  · intro hdepth
    exact Heap.slots_eq_fullSlots (by omega)

/-- A record whose only field is the record itself, without bounds. -/
theorem expand_of_self_reference :
    let r : Ref := ⟨.record, 0⟩
    let h : Heap := ⟨#[⟨[("me", .node r)]⟩], #[]⟩
    let bounds : Bounds := ⟨Bounds.unbounded, Bounds.unbounded, Bounds.unbounded⟩
    Buffer.empty.path = [] ∧ h.refs.length < bounds.depth ∧
      h.Meets bounds bounds.depth [] (.node r) [.opening .record, .name "me"] r [r] ∧
      ∃ added back, (Buffer.empty.expand h (.node r) bounds).slots = added ∧ Group added ∧
        added = [.opening .record, .name "me"] ++ .marker .cycle :: back ∧
        added = h.fullSlots bounds [] (.node r) := by
  intro r h bounds
  have hmeets : h.Meets bounds (18446744073709551614 + 1) [] (.node r)
      [.opening .record, .name "me"] r [r] :=
    .child (by simp) (show _ = [] ++ (⟨some "me", .node r⟩ : Child) :: [] from rfl) .here
  have hdepth : h.refs.length < bounds.depth := by decide
  obtain ⟨added, ⟨hslots, -, hgroup⟩, hmarks, -, -, -, hfull⟩ :=
    expand_marks_back_edges h (.node r) bounds Buffer.empty rfl
  obtain ⟨hcycle, -⟩ := hmarks _ r [r] hmeets
  obtain ⟨back, hback⟩ := hcycle.mpr List.mem_cons_self
  rw [slots_empty, List.nil_append] at hslots
  exact ⟨rfl, hdepth, hmeets, added, back, hslots, hgroup, hback, hfull hdepth⟩

end Buffer

end Logbook
