/-
The contents of records and sequences.

A heap holds the fields of every record and the items of every sequence. A walk
through a value graph goes from a node to its children and keeps the path of nodes
it is inside of. It never has to enter a node of that path again, and then the path
grows by a new node of the heap with every level: `Heap.free`, the number of nodes
not on the path, is what such walks count down.
-/
import Logbook.Named
import Logbook.Value.Basic

set_option autoImplicit false

namespace Logbook

/-- One value inside a node: a field with its name, or an item without one. -/
structure Child where
  name : Option String
  value : Value
  deriving DecidableEq, Repr

/-- **The contents of all nodes.** Every record that was ever made is here under its number,
and so is every sequence; none is ever taken away. -/
structure Heap where
  records : Array (Named Value)
  sequences : Array (Array Value)
  deriving Repr

namespace Heap

def empty : Heap := ⟨#[], #[]⟩

instance : Inhabited Heap := ⟨empty⟩

/-! ## Reading -/

/-- `Record::fields`. A number that no record has stands for a record without fields. -/
def fields (h : Heap) (index : Nat) : Named Value :=
  (h.records[index]?).getD Named.empty

/-- `Sequence::items`. -/
def items (h : Heap) (index : Nat) : Array Value :=
  (h.sequences[index]?).getD #[]

/-- **What stands directly inside a node**, in order. -/
def children (h : Heap) (r : Ref) : List Child :=
  match r.shape with
  | .record => (h.fields r.index).entries.map fun (name, value) => ⟨some name, value⟩
  | .sequence => (h.items r.index).toList.map fun value => ⟨none, value⟩

/-- The debug text of a node. It tells the size alone, since a node may contain itself. -/
def describe (h : Heap) (r : Ref) : String :=
  (match r.shape with | .record => "Record" | .sequence => "Sequence")
    ++ " \x7b len: " ++ Decimal.intText (h.children r).length ++ " \x7d"

/-! ## Building and changing -/

/-- A new record, `Value::record`. No reference to it was there before. -/
def addRecord (h : Heap) (fields : Named Value) : Ref × Heap :=
  (⟨.record, h.records.size⟩, { h with records := h.records.push fields })

/-- A new sequence, `Value::sequence`. -/
def addSequence (h : Heap) (items : Array Value) : Ref × Heap :=
  (⟨.sequence, h.sequences.size⟩, { h with sequences := h.sequences.push items })

def addNode (h : Heap) : Shape → Ref × Heap
  | .record => h.addRecord Named.empty
  | .sequence => h.addSequence #[]

/-- **Puts a field into a record**, in place of one with the same name: `Record::insert` through
any of the references to it. -/
def insert (h : Heap) (index : Nat) (name : String) (value : Value) : Heap :=
  { h with records := h.records.modify index (·.insert name value) }

/-- `Sequence::push`. -/
def push (h : Heap) (index : Nat) (value : Value) : Heap :=
  { h with sequences := h.sequences.modify index (·.push value) }

/-! ## Walking -/

/-- All nodes there are. -/
def refs (h : Heap) : List Ref :=
  (List.range h.records.size).map (⟨.record, ·⟩)
    ++ (List.range h.sequences.size).map (⟨.sequence, ·⟩)

/-- The number of nodes that are not on a path. -/
def free (h : Heap) (path : List Ref) : Nat :=
  h.refs.countP (· ∉ path)

/-- A node that has children is a node of the heap. -/
theorem mem_refs_of_mem_children {h : Heap} {r : Ref} {c : Child} (hc : c ∈ h.children r) :
    r ∈ h.refs := by
  obtain ⟨shape, index⟩ := r
  cases shape with
  | record =>
    have hlt : index < h.records.size := by
      refine Decidable.byContradiction fun hge => ?_
      simp [children, fields, Array.getElem?_eq_none (Nat.le_of_not_lt hge), Named.empty] at hc
    simp [refs, hlt]
  | sequence =>
    have hlt : index < h.sequences.size := by
      refine Decidable.byContradiction fun hge => ?_
      simp [children, items, Array.getElem?_eq_none (Nat.le_of_not_lt hge)] at hc
    simp [refs, hlt]

theorem countP_lt_of_mem {α : Type} {p q : α → Bool} {x : α} (hpq : ∀ a, q a = true → p a = true)
    (hp : p x = true) (hq : q x = false) : ∀ {l : List α}, x ∈ l → l.countP q < l.countP p
  | a :: l, hx => by
    have hle : l.countP q ≤ l.countP p := List.countP_mono_left fun b _ => hpq b
    rcases List.mem_cons.mp hx with rfl | hx
    · simp [hp, hq]; omega
    · have hlt := countP_lt_of_mem hpq hp hq hx
      by_cases ha : q a = true
      · simp [ha, hpq a ha]; omega
      · rw [List.countP_cons_of_neg ha]
        rw [List.countP_cons]; omega

/-- **A step into a node** that is not on the path leaves fewer nodes free. -/
theorem free_cons_lt {h : Heap} {path : List Ref} {r : Ref} (hr : r ∈ h.refs) (hp : r ∉ path) :
    h.free (r :: path) < h.free path := by
  refine countP_lt_of_mem (x := r) (fun a ha => ?_) (by simp [hp]) (by simp) hr
  simp only [List.mem_cons, not_or, decide_eq_true_eq] at ha ⊢
  exact ha.2

/-- **Whether a walk from a value meets a node inside itself**, given the nodes it is
inside of. A node that is met twice side by side does not count. -/
def reenters (h : Heap) (path : List Ref) (v : Value) : Bool :=
  match v with
  | .node r =>
    if _hp : r ∈ path then true
    else (h.children r).attach.any fun ⟨c, _⟩ => h.reenters (r :: path) c.value
  | _ => false
termination_by h.free path
decreasing_by exact free_cons_lt (mem_refs_of_mem_children ‹_›) _hp

end Heap

end Logbook
