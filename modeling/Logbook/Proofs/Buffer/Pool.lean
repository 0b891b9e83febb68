/-
Several buffers, under any operations in any order.

What a buffer shows is a list of slots, and how it keeps them is in the blocks. This file says
of every operation what it does to the list, and shows that the blocks stay in order meanwhile.
The two do not get in each other's way: a block that is taken up again holds nothing
(`Buffer.spareEmpty`), and an operation that appends may leave the rest of a block unused but
never puts a slot behind the end of one.

For the last of these the list is not enough. A slot may be put into the last block without a
look at it, and then it depends on what was reserved, and on how much of that was used up, that
it has a place. So beside the slots there is a number, the room that was reserved last less
the slots that came since. It is a lower bound of the room in the last block, because no
operation takes more of that than it has slots (`Packed`).
-/
import Logbook.Proofs.Buffer.Blocks
import Logbook.Proofs.Buffer.Retained

set_option autoImplicit false

namespace Logbook

/-! ## One buffer -/

/-- What is done to one buffer. -/
inductive Change where
  | create
  | append (s : Slot)
  | appendTag (t : Tag)
  | reserve (n : Nat)
  /-- A slot is put into room that was reserved. -/
  | push (s : Slot)
  | log (m : Message)
  | expand (h : Heap) (v : Value) (bounds : Bounds)
  | clear

/-- Room that no block can have is refused, and the buffer stays as it is. -/
def Buffer.perform (b : Buffer) : Change → Buffer
  | .create => .empty
  | .append s => b.append s
  | .appendTag t => (b.appendTag t).1
  | .reserve n => (b.reserve? n).getD b
  | .push s => b.push s
  | .log m => (b.log m.clock m.origin m.level m.format m.args).1
  | .expand h v bounds => b.expand h v bounds
  | .clear => b.clear

/-- **What a buffer is said to contain**: the slots that were appended since it was cleared, and
the room that was reserved last and is not used up. -/
structure Contents where
  slots : List Slot
  room : Nat

namespace Contents

def none : Contents := ⟨[], 0⟩

/-- Slots that are appended use up reserved room. -/
def add (c : Contents) (ss : List Slot) : Contents := ⟨c.slots ++ ss, c.room - ss.length⟩

/-- What a buffer contains after an operation. -/
def perform (c : Contents) : Change → Contents
  | .create => .none
  | .append s => c.add [s]
  | .appendTag t => c.add t.slot?.toList
  | .reserve n => if n ≤ Block.capacity then { c with room := n } else c
  | .push s => c.add [s]
  | .log m => c.add m.slots
  | .expand h v bounds => c.add (h.slots bounds bounds.depth [] v)
  | .clear => .none

/-- A slot is put into the last block only where room is left of what was reserved. -/
def Allows (c : Contents) : Change → Prop
  | .push _ => 0 < c.room
  | _ => True

end Contents

namespace Buffer

/-- **A buffer is what it is said to contain.** -/
structure Is (b : Buffer) (c : Contents) : Prop where
  slots : b.slots = c.slots
  packed : b.Packed c.room
  path : b.path = []

namespace Is

variable {b : Buffer} {c : Contents}

theorem empty : Buffer.empty.Is .none := ⟨slots_empty, .empty, rfl⟩

theorem appendAll (h : b.Is c) (ss : List Slot) : (b.appendAll ss).Is (c.add ss) where
  slots := by rw [slots_appendAll, h.slots, Contents.add]
  packed := h.packed.appendAll ss
  path := by rw [path_appendAll, h.path]

theorem reserve (h : b.Is c) {n : Nat} (hn : n ≤ Block.capacity) :
    (b.withRoom n).Is { c with room := n } where
  slots := by rw [slots_withRoom, h.slots]
  packed := (h.packed.withRoom hn).weaken (Nat.le_max_right _ _)
  path := by rw [path_withRoom, h.path]

theorem push (h : b.Is c) (hroom : 0 < c.room) (s : Slot) : (b.push s).Is (c.add [s]) where
  slots := by rw [slots_push, h.slots, Contents.add]
  packed := by
    have hone : b.Packed (c.room - 1 + 1) := by
      rw [Nat.sub_add_cancel hroom]
      exact h.packed
    exact hone.push s
  path := h.path

theorem clear (h : b.Is c) : b.clear.Is .none := ⟨slots_clear b, h.packed.clear, rfl⟩

/-- **An operation that is allowed** leaves a buffer that is what it is said to contain. -/
theorem perform (h : b.Is c) {o : Change} (hallowed : c.Allows o) :
    (b.perform o).Is (c.perform o) := by
  cases o with
  | create => exact empty
  | append s => exact h.appendAll [s]
  | appendTag t =>
    rw [Buffer.perform, Buffer.appendTag, Contents.perform]
    cases t.slot? with
    | none => exact h.appendAll []
    | some s => exact h.appendAll [s]
  -- a reservation takes the place of the one before, also where it is the smaller one
  | reserve n =>
    rw [Buffer.perform, reserve?, Contents.perform]
    split
    · rename_i hn
      exact h.reserve hn
    · exact h
  | push s => exact h.push hallowed s
  | log m => exact ⟨(slots_log b m).1.trans (by rw [h.slots]; rfl), h.packed.log h.path m,
      path_log h.path m⟩
  | expand heap v bounds =>
    rw [Buffer.perform, expand, appendValue_eq, h.path]
    exact h.appendAll _
  | clear => exact h.clear

/-- **What is seen of a buffer** is its list of slots. -/
theorem seen (h : b.Is c) :
    b.size = c.slots.length ∧ (b.isEmpty = true ↔ c.slots = []) ∧
      ∀ i, b.tagAt i = (c.slots[i]?.map Slot.tag).getD .clear := by
  refine ⟨?_, ?_, fun i => ?_⟩
  · rw [size_eq_length_slots, h.slots]
  · rw [isEmpty_iff_slots, h.slots]
  · rw [tagAt, h.slots]
    cases c.slots[i]? <;> rfl

end Is

/-- Blocks that were emptied are empty, and one block leaves no other to be put aside. -/
theorem clear_clear (b : Buffer) : b.clear.clear = b.clear := by
  simp [clear, Block.emptied]

end Buffer

/-! ## Buffers that are filled from each other -/

/-- A map with another value under one name. -/
def putAt {α : Type} (f : String → α) (name : String) (a : α) : String → α :=
  fun other => if other = name then a else f other

/-- Buffers by their names. -/
abbrev Pool : Type := String → Buffer

/-- What the buffers of a pool are said to contain. -/
abbrev Account : Type := String → Contents

/-- What is done to the buffers of a pool. -/
inductive Command where
  | on (name : String) (o : Change)
  | copy (source target : String) (threshold : Level)
  | move (source target : String) (threshold : Level)

namespace Pool

/-- No buffer was filled yet. -/
def fresh : Pool := fun _ => .empty

def command (p : Pool) : Command → Pool
  | .on name o => putAt p name ((p name).perform o)
  | .copy source target threshold =>
    putAt p target ((p source).copyRetained threshold (p target))
  | .move source target threshold =>
    let moved := (p source).moveRetained threshold (p target)
    putAt (putAt p source moved.1) target moved.2

end Pool

namespace Account

def blank : Account := fun _ => .none

/-- What is kept of one buffer is appended to the other, and uses up its room. -/
def command (a : Account) : Command → Account
  | .on name o => putAt a name ((a name).perform o)
  | .copy source target threshold =>
    putAt a target ((a target).add (retained threshold false (a source).slots))
  | .move source target threshold =>
    putAt (putAt a source .none) target
      ((a target).add (retained threshold false (a source).slots))

def Allows (a : Account) : Command → Prop
  | .on name o => (a name).Allows o
  | .copy _ _ _ | .move _ _ _ => True

/-- Every command is allowed where it is given. -/
def AllowsAll : Account → List Command → Prop
  | _, [] => True
  | a, c :: cs => a.Allows c ∧ (a.command c).AllowsAll cs

end Account

namespace Pool

/-- Every buffer is what it is said to contain. -/
def Agrees (p : Pool) (a : Account) : Prop := ∀ name, (p name).Is (a name)

variable {p : Pool} {a : Account}

/-- To change one buffer as it is said to be changed is enough. -/
theorem Agrees.put (h : p.Agrees a) {b : Buffer} {c : Contents} (hb : b.Is c) (name : String) :
    Agrees (putAt p name b) (putAt a name c) := by
  intro other
  unfold putAt
  split
  · exact hb
  · exact h other

theorem Agrees.command (h : p.Agrees a) {c : Command} (hallowed : a.Allows c) :
    (p.command c).Agrees (a.command c) := by
  cases c with
  | on name o => exact h.put ((h name).perform hallowed) name
  | copy source target threshold =>
    refine h.put ?_ target
    rw [Buffer.copyRetained, (h source).slots]
    exact (h target).appendAll _
  | move source target threshold =>
    refine Agrees.put (h.put (h source).clear source) ?_ target
    rw [Buffer.moveRetained, Buffer.copyRetained, (h source).slots]
    exact (h target).appendAll _

/-- **Whatever is done to the buffers**, they are what they are said to contain. -/
theorem Agrees.commands (h : p.Agrees a) {cs : List Command} (hallowed : a.AllowsAll cs) :
    (cs.foldl Pool.command p).Agrees (cs.foldl Account.command a) := by
  induction cs generalizing p a with
  | nil => exact h
  | cons c cs ih => exact ih (h.command hallowed.1) hallowed.2

/-- **Buffers stay in order under any commands.** Take a pool of buffers and any list of
commands, each of them allowed: a slot is put without a look only where room is left of what was
reserved last. Then of every buffer of the pool:

* It has a block. None of its blocks holds more than a block can, and none but the last is
  empty. At most four are put aside, and those hold nothing.
* It is inside of no node.
* Its slots are those that were appended since it was last cleared, in their order, and its
  size, its being empty and its tags are those of that list.
* The room that it is said to have is there.
* To clear it leaves no slot, and to clear it once more changes nothing. -/
theorem buffers_stay_in_order {cs : List Command} (hallowed : Account.blank.AllowsAll cs)
    (name : String) :
    let b := cs.foldl command fresh name
    let contents := cs.foldl Account.command .blank name
    (b.blocks ≠ [] ∧ (∀ block ∈ b.blocks, block.slots.size ≤ 1024) ∧
      (∀ block ∈ b.blocks.dropLast, block.slots ≠ #[]) ∧
      b.spare.length ≤ 4 ∧ ∀ block ∈ b.spare, block.slots = #[]) ∧
    b.path = [] ∧
    (b.slots = contents.slots ∧ b.size = contents.slots.length ∧
      (b.isEmpty = true ↔ contents.slots = []) ∧
      ∀ i, b.tagAt i = (contents.slots[i]?.map Slot.tag).getD .clear) ∧
    contents.room ≤ b.tail.remaining ∧
    b.clear.slots = [] ∧ b.clear.clear = b.clear := by
  intro b contents
  have hfresh : fresh.Agrees .blank := fun _ => .empty
  have h : b.Is contents := hfresh.commands hallowed name
  refine ⟨⟨?_, h.packed.bounded, ?_, h.packed.spare, b.spareEmpty⟩, h.path, ⟨h.slots, h.seen⟩,
    h.packed.room, b.slots_clear, b.clear_clear⟩
  · simp [Buffer.blocks]
  · rw [Buffer.blocks, List.dropLast_concat]
    exact h.packed.filled

/-- A block is left in part, is put aside with a slot in it, and is taken up again. -/
def recycling : List Command :=
  [.on "hot" (.append .finish), .on "hot" (.reserve 1024), .on "hot" (.push (.opening .record)),
   .move "hot" "pending" .all, .on "hot" (.append .finish), .on "hot" (.reserve 1024)]

/-- The slot that was in the block is not seen again, and the block has all its room. -/
theorem in_order_after_recycling :
    Account.blank.AllowsAll recycling ∧
      (recycling.foldl command fresh "hot").slots = [.finish] ∧
      1024 ≤ (recycling.foldl command fresh "hot").tail.remaining := by
  have hallowed : Account.blank.AllowsAll recycling := by
    refine ⟨trivial, trivial, ?_, trivial, trivial, trivial, trivial⟩
    show 0 < 1024
    decide
  obtain ⟨-, -, ⟨hslots, -⟩, hroom, -⟩ := buffers_stay_in_order hallowed "hot"
  exact ⟨hallowed, hslots, hroom⟩

end Pool

end Logbook
