/-
The names that a record writes.

The fields of a record are a map, and a heap has many records, which change at any time and may
refer to each other. `Heap.Change` is what can be done to a heap. Of all of it a record holds what
was put into that record, so it has its names in the order in which they first came.

An expansion puts a name before the value of each field, and there are names inside the values
too. `outerNames` reads those that are the record's own off the slots, by counting brackets: a
value is one group, and a group has no name outside its brackets. What is read off is what the
record holds, each name once.
-/
import Logbook.Proofs.Buffer.Bounds
import Logbook.Proofs.Layout.Cycles
import Logbook.Proofs.Value.Named

set_option autoImplicit false

namespace Logbook

/-! ## What is done to a heap -/

namespace Heap

/-- **What can be done to a heap**: a node is added to it, a field is put into a record, or an
item into a sequence. -/
inductive Change where
  | addRecord (fields : List (String × Value))
  | addSequence (items : Array Value)
  | insert (index : Nat) (name : String) (value : Value)
  | push (index : Nat) (value : Value)

def change (h : Heap) : Change → Heap
  | .addRecord fields => (h.addRecord (.ofList fields)).2
  | .addSequence items => (h.addSequence items).2
  | .insert index name value => h.insert index name value
  | .push index value => h.push index value

def changeAll (h : Heap) (changes : List Change) : Heap := changes.foldl change h

/-- What a change puts into a record. -/
def Change.putInto? (index : Nat) : Change → Option (String × Value)
  | .insert i name value => if i = index then some (name, value) else none
  | _ => none

/-- All that is put into a record, in order. -/
def putInto (index : Nat) (changes : List Change) : List (String × Value) :=
  changes.filterMap (Change.putInto? index)

/-- **A change puts what it says into a record**, and leaves all the others as they are. -/
theorem fields_change {h : Heap} {index : Nat} {puts : List (String × Value)}
    (hindex : index < h.records.size) (hfields : h.fields index = .ofList puts) (c : Change) :
    index < (h.change c).records.size ∧
      (h.change c).fields index = .ofList (puts ++ (c.putInto? index).toList) := by
  cases c with
  | addRecord fields =>
    have hsame : (h.change (.addRecord fields)).fields index = h.fields index := by
      simp only [change, addRecord, Heap.fields]
      rw [Array.getElem?_push, if_neg (by omega)]
    rw [hsame, hfields]
    simp only [change, addRecord, Change.putInto?, Option.toList_none, List.append_nil,
      Array.size_push, and_true]
    omega
  | addSequence items => simpa [change, addSequence, Change.putInto?] using ⟨hindex, hfields⟩
  | insert i name value =>
    refine ⟨by simpa [change, Heap.insert] using hindex, ?_⟩
    have hrecord : h.records[index]? = some (.ofList puts) := by
      rw [← hfields, Heap.fields, Array.getElem?_eq_getElem hindex, Option.getD_some]
    simp only [change, Heap.insert, Change.putInto?, Heap.fields, Array.getElem?_modify, hrecord]
    by_cases hi : i = index
    · rw [if_pos hi, if_pos hi, Option.toList_some, Named.ofList_append_singleton]
      rfl
    · rw [if_neg hi, if_neg hi, Option.toList_none, List.append_nil, Option.getD_some]
  | push i value => simpa [change, Heap.push, Change.putInto?] using ⟨hindex, hfields⟩

/-- **A record holds what was put into it**, whatever else was done. -/
theorem fields_changeAll {h : Heap} {index : Nat} {puts : List (String × Value)}
    (hindex : index < h.records.size) (hfields : h.fields index = .ofList puts)
    (changes : List Change) :
    (h.changeAll changes).fields index = .ofList (puts ++ putInto index changes) := by
  induction changes generalizing h puts with
  | nil => simpa [changeAll, putInto] using hfields
  | cons c changes ih =>
    obtain ⟨hindex', hfields'⟩ := fields_change hindex hfields c
    have hstep := ih hindex' hfields'
    rw [List.append_assoc] at hstep
    have hputs : putInto index (c :: changes)
        = (c.putInto? index).toList ++ putInto index changes := by
      unfold putInto
      rw [List.filterMap_cons]
      cases c.putInto? index <;> rfl
    rw [hputs]
    exact hstep

end Heap

/-! ## The names that a record writes -/

/-- **The names that stand inside no bracket**, in slots before which `level` are open. -/
def outerNames (level : Nat) : List Slot → List String
  | [] => []
  | .opening _ :: ss => outerNames (level + 1) ss
  | .closing _ :: ss => outerNames (level - 1) ss
  | .name s :: ss => if level = 0 then s :: outerNames level ss else outerNames level ss
  | _ :: ss => outerNames level ss

/-- What is read off each part is read off all of them. -/
theorem outerNames_flatMap {β : Type} {level : Nat} {xs : List β} {f : β → List Slot}
    {own : β → List String}
    (h : ∀ x ∈ xs, ∀ rest, outerNames level (f x ++ rest) = own x ++ outerNames level rest)
    (rest : List Slot) :
    outerNames level (xs.flatMap f ++ rest) = xs.flatMap own ++ outerNames level rest := by
  induction xs with
  | nil => rfl
  | cons x xs ih =>
    have hxs := ih fun y hy => h y (List.mem_cons_of_mem x hy)
    rw [List.flatMap_cons, List.flatMap_cons, List.append_assoc, List.append_assoc,
      h x List.mem_cons_self, hxs]

theorem outerNames_cutMark (cut : Bool) (level : Nat) (rest : List Slot) :
    outerNames level (cutMark cut ++ rest) = outerNames level rest := by
  cases cut <;> rfl

/-- **A group has no such name**, since all of its own are inside its brackets. -/
theorem Group.outerNames_append {ss : List Slot} (h : Group ss) (level : Nat) (rest : List Slot) :
    outerNames level (ss ++ rest) = outerNames level rest := by
  induction h generalizing level rest with
  | scalar s => rfl
  | foreign => rfl
  | cycle => rfl
  | tooDeep shape => rfl
  | record fields cut _ ih =>
    -- inside the brackets one more is open, so the names of the fields are passed over
    have hfields : ∀ rest,
        outerNames (level + 1) ((fields.flatMap fun f => .name f.1 :: f.2) ++ rest)
          = (fields.flatMap fun _ => []) ++ outerNames (level + 1) rest :=
      outerNames_flatMap fun f hf rest => by
        rw [List.cons_append, outerNames, if_neg (Nat.succ_ne_zero level), ih f hf]
        rfl
    simp only [List.cons_append, List.append_assoc, outerNames]
    rw [hfields, List.flatMap_eq_nil_iff.mpr fun _ _ => rfl, outerNames_cutMark]
    rfl
  | sequence items cut _ ih =>
    have hitems : ∀ rest, outerNames (level + 1) (items.flatMap id ++ rest)
        = (items.flatMap fun _ => []) ++ outerNames (level + 1) rest :=
      outerNames_flatMap fun i hi rest => ih i hi (level + 1) rest
    simp only [List.cons_append, List.append_assoc, outerNames]
    rw [← List.flatMap_id, hitems, List.flatMap_eq_nil_iff.mpr fun _ _ => rfl, outerNames_cutMark]
    rfl

namespace Heap

variable {h : Heap} {bounds : Bounds} {depth : Nat} {path inside : List Ref} {v : Value}
  {front : List Slot} {r : Ref}

/-- **The names that are read off the children of a node are their own**, in order. -/
theorem outerNames_children (cs : List Child) (depth : Nat) (path : List Ref) (cut : Bool) :
    outerNames 0 (cs.flatMap (h.childSlots bounds depth path) ++ cutMark cut)
      = cs.flatMap fun c => c.name.toList := by
  have hchild : ∀ c ∈ cs, ∀ rest, outerNames 0 (h.childSlots bounds depth path c ++ rest)
      = c.name.toList ++ outerNames 0 rest := by
    intro c _ rest
    have hvalue := (h.group_slots bounds depth path c.value).outerNames_append 0 rest
    cases hname : c.name with
    | none => simpa [childSlots, Child.label, hname] using hvalue
    | some name => simpa [childSlots, Child.label, hname, outerNames] using hvalue
  have hmark : outerNames 0 (cutMark cut) = [] := by cases cut <;> rfl
  rw [outerNames_flatMap hchild, hmark, List.append_nil]

theorem names_shown (bounds : Bounds) (hshape : r.shape = .record) :
    ((h.shown bounds r).flatMap fun c => c.name.toList)
      = (h.fields r.index).names.take bounds.recordLength := by
  rw [shown, children, hshape, Named.names, ← List.map_take, ← List.map_take, List.flatMap_map]
  exact List.map_eq_flatMap.symm

/-- **A record that is entered writes its names**, as many as the bound lets through. -/
theorem exists_names_written (h : Heap) (bounds : Bounds) (depth : Nat) (hshape : r.shape = .record)
    (hr : r ∉ path) :
    ∃ inner, h.slots bounds (depth + 1) path (.node r)
        = .opening .record :: inner ++ [.closing .record] ∧
      outerNames 0 inner = (h.fields r.index).names.take bounds.recordLength := by
  rw [slots_node hr, hshape]
  refine ⟨_, rfl, ?_⟩
  exact (outerNames_children _ depth (r :: path) _).trans (names_shown bounds hshape)

/-- So it does wherever the walk enters it. -/
theorem Meets.exists_names_written (hm : h.Meets bounds depth path v front r inside)
    (hshape : r.shape = .record) (hr : r ∉ inside)
    (hlevel : inside.length < path.length + depth) :
    ∃ inner back, Group (.opening .record :: inner ++ [.closing .record]) ∧
      h.slots bounds depth path v
        = front ++ (.opening .record :: inner ++ [.closing .record]) ++ back ∧
      outerNames 0 inner = (h.fields r.index).names.take bounds.recordLength := by
  obtain ⟨left, back, hlevels, hslots⟩ := hm.slots_eq
  obtain ⟨left, rfl⟩ : ∃ n, left = n + 1 := ⟨left - 1, by omega⟩
  obtain ⟨inner, hinner, hnames⟩ := h.exists_names_written bounds left hshape hr
  have hgroup := h.group_slots bounds (left + 1) inside (.node r)
  rw [hinner] at hgroup hslots
  exact ⟨inner, back, hgroup, hslots, hnames⟩

/-- **A record has its names in the order in which they first came, and under each the value that
came last.** Take any heap and add a record to it, with fields put into it one after another, and
then change the heap in any way. Of all that, `puts` is what was put into this record.

* The names of its fields are those that were put, each once, in the order of the first time.
* Each field has the value that was put last under its name. Under a name that was put that value
  is found, and under any other nothing.
* There are as many fields as there are different names.
* Wherever an expansion enters the record, inside whatever value and within whatever bounds, it
  writes the names in this order between the brackets of the record, up to the bound.
* An expansion of the record without bounds but those of a word writes all of them, so each name
  once. -/
theorem record_keeps_first_order (h : Heap) (first : List (String × Value))
    (changes : List Change) :
    let r := (h.addRecord (.ofList first)).1
    let h' := (h.addRecord (.ofList first)).2.changeAll changes
    let puts := first ++ putInto r.index changes
    let m := h'.fields r.index
    InFirstOrder m.names (puts.map Prod.fst) ∧
    (∀ e ∈ m.entries, IsLast puts e.1 e.2) ∧
    (∀ name, (∀ value, m.get? name = some value ↔ IsLast puts name value) ∧
      (m.get? name = none ↔ name ∉ puts.map Prod.fst)) ∧
    m.size = (puts.map Prod.fst).toFinset.card ∧
    (∀ (b : Buffer) v bounds front inside,
      h'.Meets bounds bounds.depth b.path v front r inside → r ∉ inside →
        inside.length < b.path.length + bounds.depth →
      ∃ inner back, Group (.opening .record :: inner ++ [.closing .record]) ∧
        (b.expand h' v bounds).slots
          = b.slots ++ front ++ (.opening .record :: inner ++ [.closing .record]) ++ back ∧
        outerNames 0 inner = m.names.take bounds.recordLength) ∧
    (m.size ≤ Bounds.unbounded → ∀ b : Buffer, r ∉ b.path →
      ∃ inner, (b.expand h' (.node r) Bounds.full).slots
          = b.slots ++ .opening .record :: inner ++ [.closing .record] ∧
        outerNames 0 inner = m.names) := by
  intro r h' puts m
  have hm : m = .ofList puts := by
    refine fields_changeAll ?_ ?_ changes
    · simp [r, addRecord]
    · simp [r, addRecord, fields]
  have horder : InFirstOrder m.names (puts.map Prod.fst) := hm ▸ Named.inFirstOrder_ofList puts
  have hlast : ∀ name value, m.get? name = some value ↔ IsLast puts name value :=
    fun name value => hm ▸ Named.get?_ofList puts name value
  have hexpand : ∀ (b : Buffer) v bounds,
      (b.expand h' v bounds).slots = b.slots ++ h'.slots bounds bounds.depth b.path v :=
    fun b v bounds => (b.slots_appendValue h' bounds bounds.depth v).1
  have hshape : r.shape = .record := rfl
  refine ⟨horder, ?_, ?_, ?_, ?_, ?_⟩
  · exact fun e he => (hlast e.1 e.2).mp (Named.get?_of_mem horder.distinct he)
  · intro name
    exact ⟨hlast name, by rw [Named.get?_eq_none_iff, horder.mem_iff]⟩
  · rw [← horder.length, Named.names, List.length_map, Named.size]
  · intro b v bounds front inside hmeets hr hlevel
    obtain ⟨inner, back, hgroup, hslots, hnames⟩ := hmeets.exists_names_written hshape hr hlevel
    refine ⟨inner, back, hgroup, ?_, hnames⟩
    rw [hexpand, hslots]
    simp only [List.append_assoc]
  · intro hsize b hr
    obtain ⟨depth, hdepth⟩ : ∃ depth, Bounds.full.depth = depth + 1 :=
      ⟨Bounds.unbounded - 1, by decide⟩
    obtain ⟨inner, hslots, hnames⟩ := h'.exists_names_written Bounds.full depth hshape hr
    have hall : m.names.length ≤ Bounds.full.recordLength := by
      rw [Named.names, List.length_map]
      exact hsize
    refine ⟨inner, ?_, hnames.trans (List.take_of_length_le hall)⟩
    rw [hexpand, hdepth, hslots, List.append_assoc]

/-- A name that is put twice, with another in between whose value is a record that has the first
name too. The record stands in a sequence. -/
theorem record_keeps_place_of_name_put_twice :
    let r : Ref := ⟨.record, 0⟩
    let s : Ref := ⟨.sequence, 0⟩
    let zeta : String × Value := ("zeta", .scalar (.bool false))
    let h := (Heap.empty.addRecord (.ofList [zeta])).2.changeAll
      [.addRecord [zeta], .insert 0 "alpha" (.node ⟨.record, 1⟩), .addSequence #[.node r],
        .insert 0 "zeta" (.scalar (.bool true))]
    h.Meets Bounds.full Bounds.full.depth [] (.node s) [.opening .sequence] r [s] ∧ r ∉ [s] ∧
      [s].length < 0 + Bounds.full.depth ∧ (h.fields 0).size ≤ Bounds.unbounded ∧
      (h.fields 0).names = ["zeta", "alpha"] ∧ (h.fields 0).names.Nodup ∧
      (h.fields 0).get? "zeta" = some (.scalar (.bool true)) ∧
      (∃ inner back, (Buffer.empty.expand h (.node s) Bounds.full).slots
          = .opening .sequence :: (.opening .record :: inner ++ [.closing .record]) ++ back ∧
        outerNames 0 inner = ["zeta", "alpha"]) ∧
      ∃ inner, (Buffer.empty.expand h (.node r) Bounds.full).slots
          = .opening .record :: inner ++ [.closing .record] ∧
        outerNames 0 inner = ["zeta", "alpha"] := by
  intro r s zeta h
  have hmeets : h.Meets Bounds.full (18446744073709551614 + 1) [] (.node s) [.opening .sequence]
      r [s] := .child (by simp) (show _ = [] ++ (⟨none, .node r⟩ : Child) :: [] from rfl) .here
  have hr : r ∉ [s] := by decide
  have hlevel : [s].length < 0 + Bounds.full.depth := by decide
  have hsize : (h.fields 0).size ≤ Bounds.unbounded := by decide
  have hnames : (h.fields 0).names = ["zeta", "alpha"] := by decide
  obtain ⟨horder, -, hget, -, hinside, hroot⟩ := record_keeps_first_order Heap.empty [zeta]
    [.addRecord [zeta], .insert 0 "alpha" (.node ⟨.record, 1⟩), .addSequence #[.node r],
      .insert 0 "zeta" (.scalar (.bool true))]
  obtain ⟨inner, back, -, hslots, hinner⟩ :=
    hinside Buffer.empty (.node s) Bounds.full _ _ hmeets hr hlevel
  obtain ⟨inner', hslots', hinner'⟩ := hroot hsize Buffer.empty List.not_mem_nil
  have hlast : IsLast [zeta, ("alpha", .node ⟨.record, 1⟩), ("zeta", .scalar (.bool true))]
      "zeta" (.scalar (.bool true)) := ⟨[zeta, ("alpha", .node ⟨.record, 1⟩)], [], rfl, by simp⟩
  rw [Buffer.slots_empty] at hslots hslots'
  refine ⟨hmeets, hr, hlevel, hsize, hnames, horder.distinct, ((hget "zeta").1 _).mpr hlast,
    ⟨inner, back, hslots, ?_⟩, ⟨inner', hslots', ?_⟩⟩
  · exact (hinner.trans (congrArg _ hnames)).trans (by decide)
  · exact hinner'.trans hnames

end Heap

end Logbook
