/-
Two ways of finding out that a value contains itself.

A layout is refused when its writer meets a node that it is writing already, and an argument is
shown with a marker where the recorder meets a node that it is showing already. The two keep the
nodes they are inside of each in its own way, the first stops and the second goes on, and yet
they find the same thing: that there is a way from the root to a node from which there is a way
back to it. `Heap.Loops` says that of the references alone, without any walk.

A walk that finds no node inside itself has seen all that can be reached, since it turns back
nowhere. That is why finding nothing is as much as there being no cycle, and a node that is
shared is not mistaken for one.
-/
import Mathlib.Logic.Relation
import Logbook.Format.Layout
import Logbook.Proofs.Buffer.Expansion

set_option autoImplicit false

namespace Logbook

namespace Heap

/-! ## Cycles of references -/

/-- The second node stands directly inside the first. -/
def Contains (h : Heap) (r r' : Ref) : Prop := ∃ c ∈ h.children r, c.value = .node r'

/-- **A cycle can be reached from a node**: there is a way along references to a node, and from
that node a way of one step or more back to it. -/
def Loops (h : Heap) (root : Ref) : Prop :=
  ∃ r, Relation.ReflTransGen h.Contains root r ∧ Relation.TransGen h.Contains r r

variable {h : Heap} {path : List Ref} {v : Value} {r : Ref}

theorem reenters_node (hr : r ∉ path) :
    h.reenters path (.node r) = (h.children r).any fun c => h.reenters (r :: path) c.value := by
  rw [reenters, dif_neg hr]
  simp

/-- What is found below a node is found from the node. -/
theorem Loops.of_contains {r' : Ref} (hr : h.Contains r r') (hloops : h.Loops r') : h.Loops r := by
  obtain ⟨s, hs, hback⟩ := hloops
  exact ⟨s, .head hr hs, hback⟩

/-- **A node that is met inside itself is on a cycle.** The nodes of the path are those that the
walk came through, so from each of them there is a way to where it stands. -/
theorem loops_of_reenters (hv : h.reenters path v = true) (hnode : v = .node r)
    (hpath : ∀ q ∈ path, Relation.TransGen h.Contains q r) : h.Loops r := by
  fun_induction reenters h path v generalizing r with
  | case1 path s hs =>
    obtain rfl := Value.node.inj hnode
    exact ⟨s, .refl, hpath s hs⟩
  | case2 path s hs ih =>
    obtain rfl := Value.node.inj hnode
    obtain ⟨⟨c, hc⟩, -, hfound⟩ := List.any_eq_true.mp hv
    cases hvalue : c.value with
    | scalar x => simp [hvalue, reenters] at hfound
    | foreign => simp [hvalue, reenters] at hfound
    | node r' =>
      have hstep : h.Contains s r' := ⟨c, hc, hvalue⟩
      refine (ih c hc hfound hvalue fun q hq => ?_).of_contains hstep
      rcases List.mem_cons.mp hq with rfl | hq
      · exact .single hstep
      · exact .tail (hpath q hq) hstep
  | case3 path v hv' => exact absurd hnode (hv' r)

/-- **Where a walk finds nothing there is nothing**: what can be reached from a node is neither
one of those that the walk came through, nor on a cycle. -/
theorem not_mem_of_reaches (hv : h.reenters path v = false) (hnode : v = .node r) {r' : Ref}
    (hreach : Relation.ReflTransGen h.Contains r r') :
    r' ∉ path ∧ ¬ Relation.TransGen h.Contains r' r' := by
  fun_induction reenters h path v generalizing r with
  | case1 path s hs => simp at hv
  | case2 path s hs ih =>
    obtain rfl := Value.node.inj hnode
    have hbelow : ∀ {t : Ref}, h.Contains s t → Relation.ReflTransGen h.Contains t r' →
        r' ∉ s :: path ∧ ¬ Relation.TransGen h.Contains r' r' := by
      intro t hstep hreach'
      obtain ⟨c, hc, hvalue⟩ := hstep
      have hnone := List.any_eq_false.mp hv ⟨c, hc⟩ (List.mem_attach _ _)
      exact ih c hc (by simpa using hnone) hvalue hreach'
    rcases Relation.ReflTransGen.cases_head hreach with rfl | ⟨t, hstep, hreach'⟩
    · refine ⟨hs, fun hback => ?_⟩
      -- a way back to the node would lead through one of its children
      obtain ⟨t, hstep, hreach'⟩ := Relation.TransGen.head'_iff.mp hback
      exact (hbelow hstep hreach').1 List.mem_cons_self
    · obtain ⟨hmem, hcycle⟩ := hbelow hstep hreach'
      exact ⟨fun hr' => hmem (List.mem_cons_of_mem s hr'), hcycle⟩
  | case3 path v hv' => exact absurd hnode (hv' r)

/-- **A walk meets a node inside itself exactly if a cycle can be reached.** -/
theorem reenters_iff_loops : h.reenters [] (.node r) = true ↔ h.Loops r := by
  constructor
  · intro hv
    exact loops_of_reenters hv rfl (by simp)
  · rintro ⟨s, hs, hback⟩
    refine Bool.of_not_eq_false fun hv => ?_
    exact (not_mem_of_reaches hv rfl hs).2 hback

/-! ## Cycles where a value is shown -/

/-- **Shown in full, a value has a marker for a cycle exactly if the walk meets a node inside
itself.** In full means that no bound cuts off a child. -/
theorem cycle_mem_fullSlots_iff {bounds : Bounds}
    (hall : ∀ r, (h.children r).length ≤ bounds.length r.shape) :
    .marker .cycle ∈ h.fullSlots bounds path v ↔ h.reenters path v = true := by
  fun_induction reenters h path v with
  | case1 path r hr =>
    rw [fullSlots, dif_pos hr]
    simp
  | case2 path r hr ih =>
    have hshown : h.shown bounds r = h.children r := List.take_of_length_le (hall r)
    have hcut : h.isCut bounds r = false := by
      rw [isCut, decide_eq_false_iff_not]
      have := hall r
      omega
    rw [fullSlots_node hr, hshown, hcut, List.any_eq_true]
    -- the brackets and the names around the children are no markers
    simp only [cutMark, Bool.false_eq_true, if_false, List.append_nil, List.mem_append,
      List.mem_cons, List.mem_flatMap, List.not_mem_nil, or_false, reduceCtorEq, false_or]
    constructor
    · rintro ⟨c, hc, hlabel | hvalue⟩
      · exact absurd hlabel (cycle_not_mem_label c)
      · exact ⟨⟨c, hc⟩, List.mem_attach _ _, (ih c hc).mp hvalue⟩
    · rintro ⟨⟨c, hc⟩, -, hfound⟩
      exact ⟨c, hc, .inr ((ih c hc).mpr hfound)⟩
  | case3 path v hv =>
    rcases v with s | _ | r
    · simp [fullSlots]
    · simp [fullSlots]
    · exact absurd rfl (hv r)

end Heap

/-! ## Cycles where a layout is written -/

namespace Layout

/-- **A layout is written in one pass**, down to so many levels of nodes. The writing is refused
where it meets a node that it is inside of. Nothing is said where the levels do not suffice. -/
def writeWithin (h : Heap) (levels : Nat) (path : List Ref) (v : Value) :
    ExceptT LayoutFault Option String :=
  match v with
  | .scalar s => pure (scalar s)
  | .foreign => pure (quote "<Value>")
  | .node r =>
    if r ∈ path then throw .selfReferring
    else
      match levels with
      | 0 => ExceptT.mk none
      | levels + 1 => do
        let inner ← (h.children r).mapM fun c => do
          let text ← writeWithin h levels (r :: path) c.value
          return label c.name ++ text
        return enclose r.shape (", ".intercalate inner)

/-- Where each of some parts is either written or refused, the first refusal is that of all. -/
theorem mapM_refused {α β : Type} {write : α → ExceptT LayoutFault Option β} {text : α → β}
    {refused : α → Bool} {fault : LayoutFault} {xs : List α}
    (h : ∀ x ∈ xs, write x = if refused x then throw fault else pure (text x)) :
    xs.mapM write = if xs.any refused then throw fault else pure (xs.map text) := by
  induction xs with
  | nil => rfl
  | cons x xs ih =>
    rw [List.mapM_cons, h x List.mem_cons_self, ih fun y hy => h y (List.mem_cons_of_mem x hy)]
    by_cases hx : refused x = true
    · simp only [hx, if_true, List.any_cons, Bool.true_or]
      rfl
    · by_cases hxs : xs.any refused = true
      · simp only [hx, hxs, if_true, List.any_cons, Bool.or_true]
        rfl
      · simp only [hx, hxs, List.any_cons, Bool.or_self]
        rfl

theorem write_node {h : Heap} {path : List Ref} {r : Ref} (hr : r ∉ path) :
    write h path (.node r)
      = enclose r.shape (", ".intercalate
          ((h.children r).map fun c => label c.name ++ write h (r :: path) c.value)) := by
  rw [write, dif_neg hr]
  simp

/-- **With more levels than there are nodes the writing comes to an end**: it is refused if a
node is met inside itself, and it is the template of the layout otherwise. -/
theorem writeWithin_eq {h : Heap} {levels : Nat} {path : List Ref} {v : Value}
    (hlevels : h.free path < levels) :
    writeWithin h levels path v
      = if h.reenters path v then throw .selfReferring else pure (write h path v) := by
  induction levels generalizing path v with
  | zero => omega
  | succ levels ih =>
    rcases v with s | _ | r
    · simp [writeWithin, Heap.reenters, write]
    · simp [writeWithin, Heap.reenters, write]
    · by_cases hr : r ∈ path
      · rw [writeWithin, if_pos hr, Heap.reenters, dif_pos hr]
        rfl
      · have hchildren : ∀ c ∈ h.children r,
            (do let text ← writeWithin h levels (r :: path) c.value
                return label c.name ++ text : ExceptT LayoutFault Option String)
              = if h.reenters (r :: path) c.value then throw .selfReferring
                else pure (label c.name ++ write h (r :: path) c.value) := by
          intro c hc
          -- the node is a node of the heap, since it has a child, and now it is not free any more
          have hfree := Heap.free_cons_lt (Heap.mem_refs_of_mem_children hc) hr
          rw [ih (by omega)]
          split <;> rfl
        rw [writeWithin, if_neg hr, Heap.reenters_node hr, write_node hr]
        simp only [mapM_refused hchildren]
        split <;> rfl

end Layout

namespace Format

theorem ofLayout_node (name : String) (h : Heap) (r : Ref) :
    ofLayout name h (.node r)
      = if h.reenters [] (.node r) then .error (.badLayout name .selfReferring)
        else compile name (Layout.write h [] (.node r)).toList := rfl

/-- A template is never refused as a layout is. -/
theorem compile_ne_badLayout (name : String) (template : List Char) (fault : LayoutFault) :
    compile name template ≠ .error (.badLayout name fault) := by
  unfold compile
  split
  · simp
  · split <;> simp

theorem ofLayout_selfReferring_iff (name : String) (h : Heap) (r : Ref) :
    ofLayout name h (.node r) = .error (.badLayout name .selfReferring) ↔ h.Loops r := by
  rw [← Heap.reenters_iff_loops, ofLayout_node]
  by_cases hr : h.reenters [] (.node r) = true
  · rw [if_pos hr]
    exact ⟨fun _ => hr, fun _ => rfl⟩
  · rw [if_neg hr]
    exact ⟨fun heq => absurd heq (compile_ne_badLayout name _ _), fun heq => absurd heq hr⟩

end Format

/-! ## Both find the same -/

/-- No bounds but those of a word. -/
def Bounds.full : Bounds := ⟨unbounded, unbounded, unbounded⟩

theorem Buffer.slots_expand {b : Buffer} (hb : b.path = []) (h : Heap) (v : Value)
    (bounds : Bounds) :
    (b.expand h v bounds).slots = b.slots ++ h.slots bounds bounds.depth [] v := by
  rw [expand, (slots_appendValue h bounds bounds.depth b v).1, hb]

/-- **A layout is refused exactly where an argument is shown with a marker for a cycle.** Take
any heap, however its nodes refer to each other, any record or sequence of it as the root, and a
buffer that is inside no node. There are fewer nodes, and fewer children of each, than a word
can count.

* Writing the layout comes to an end, within one level more than there are nodes. It is refused
  exactly if a cycle can be reached from the root, and compiling the layout goes by that: a
  refusal is passed on, and what is written is compiled.
* So the layout is refused as one that refers to itself exactly if a cycle can be reached.
* The value is shown, without bounds, with a marker for a cycle in exactly the same case.
* If no cycle can be reached the layout is compiled, whatever nodes it shares. -/
theorem Heap.cycles_found_alike (name : String) (h : Heap) (root : Ref) (b : Buffer)
    (hb : b.path = []) (hnodes : h.refs.length < Bounds.unbounded)
    (hchildren : ∀ r, (h.children r).length < Bounds.unbounded) :
    (∀ levels, h.refs.length < levels →
      ∃ result, (Layout.writeWithin h levels [] (.node root)).run = some result ∧
        (result = .error .selfReferring ↔ h.Loops root) ∧
        Format.ofLayout name h (.node root) = match result with
          | .error fault => .error (.badLayout name fault)
          | .ok text => Format.compile name text.toList) ∧
    (Format.ofLayout name h (.node root) = .error (.badLayout name .selfReferring) ↔
      h.Loops root) ∧
    (∃ added, (b.expand h (.node root) Bounds.full).slots = b.slots ++ added ∧
      (.marker .cycle ∈ added ↔ h.Loops root)) ∧
    (¬ h.Loops root → Format.ofLayout name h (.node root)
      = Format.compile name (Layout.write h [] (.node root)).toList) := by
  have hfree : h.free [] ≤ h.refs.length := List.countP_le_length
  refine ⟨?_, Format.ofLayout_selfReferring_iff name h root, ?_, ?_⟩
  · intro levels hlevels
    rw [Layout.writeWithin_eq (by omega), ← reenters_iff_loops, Format.ofLayout_node]
    by_cases hr : h.reenters [] (.node root) = true
    · rw [if_pos hr, if_pos hr]
      exact ⟨.error .selfReferring, rfl, by simp [hr], rfl⟩
    · rw [if_neg hr, if_neg hr]
      exact ⟨.ok (Layout.write h [] (.node root)), rfl, by simp [hr], rfl⟩
  · refine ⟨_, b.slots_expand hb h (.node root) Bounds.full, ?_⟩
    have hdepth : h.free [] < Bounds.full.depth := Nat.lt_of_le_of_lt hfree hnodes
    rw [slots_eq_fullSlots hdepth, cycle_mem_fullSlots_iff, reenters_iff_loops]
    -- every length that is asked for is the same word
    intro r
    have hlength : Bounds.full.length r.shape = Bounds.unbounded := by cases r.shape <;> rfl
    rw [hlength]
    exact Nat.le_of_lt (hchildren r)
  · intro hnone
    rw [Format.ofLayout_node, if_neg (mt reenters_iff_loops.mp hnone)]

/-- A record with a sequence in it that holds the record, both twice. -/
theorem Heap.cycles_found_in_each_other :
    let r : Ref := ⟨.record, 0⟩
    let s : Ref := ⟨.sequence, 0⟩
    let h : Heap := ⟨#[⟨[("all", .node s), ("more", .node s)]⟩], #[#[.node r, .node r]]⟩
    Buffer.empty.path = [] ∧ h.refs.length < Bounds.unbounded ∧
      (∀ r, (h.children r).length < Bounds.unbounded) ∧ h.Loops r ∧
      Format.ofLayout "each other" h (.node r)
        = .error (.badLayout "each other" .selfReferring) ∧
      ∃ added, (Buffer.empty.expand h (.node r) Bounds.full).slots = Buffer.empty.slots ++ added ∧
        .marker .cycle ∈ added := by
  intro r s h
  have hnodes : h.refs.length < Bounds.unbounded := by decide
  have hchildren : ∀ r, (h.children r).length < Bounds.unbounded := by
    rintro ⟨shape, index⟩
    cases shape <;> rcases index with _ | index <;>
      simp [h, children, fields, items, Named.empty] <;> decide
  have hto : h.Contains r s := ⟨⟨some "all", .node s⟩, by simp [h, r, children, fields], rfl⟩
  have hback : h.Contains s r := ⟨⟨none, .node r⟩, by simp [h, s, children, items], rfl⟩
  have hloops : h.Loops r := ⟨r, .refl, .tail (.single hto) hback⟩
  obtain ⟨-, hrefused, ⟨added, hslots, hmarked⟩, -⟩ :=
    cycles_found_alike "each other" h r Buffer.empty rfl hnodes hchildren
  exact ⟨rfl, hnodes, hchildren, hloops, hrefused.mpr hloops, added, hslots, hmarked.mpr hloops⟩

end Logbook
