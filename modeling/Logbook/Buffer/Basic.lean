/-
Buffers: growing lists of slots, kept in blocks.

A buffer is a list of blocks of bounded size, of which the last is being filled. A
block that has no room is left behind and a new one is started, so slots never move;
room for several slots can be reserved, and then the rest of a block may stay unused.
Clearing keeps one empty block and puts up to four others aside, to be filled again
later. What a buffer holds is `Buffer.slots`; where the blocks end is seen only by
those who count them. This is `TaggedBuffer`.

While the contents of a node are being appended the buffer also keeps the path of
nodes it is inside of.
-/
import Logbook.Diagnostic

set_option autoImplicit false

namespace Logbook

structure Block where
  slots : Array Slot

namespace Block

/-- `BLOCK_CAPACITY`. Appending and reserving keep to it; a push into room that nobody
reserved would not. -/
def capacity : Nat := 1024

def empty : Block := ⟨#[]⟩

/-- The room a block has left, none once it is full. -/
def remaining (b : Block) : Nat := capacity - b.slots.size

/-- A block with one more slot, whether it has room or not. -/
def push (b : Block) (s : Slot) : Block := ⟨b.slots.push s⟩

/-- The same block without its slots, as it is put aside. -/
def emptied (b : Block) : Block := ⟨b.slots.take 0⟩

theorem slots_emptied (b : Block) : b.emptied.slots = #[] := by
  simp [emptied]

end Block

/-- **A buffer of slots.** There is always a block to fill, so the last one stands apart from
the others. -/
structure Buffer where
  /-- The blocks before the last. -/
  earlier : Array Block
  /-- The block that is being filled. -/
  tail : Block
  /-- Blocks put aside by a clearing. -/
  spare : List Block
  /-- They hold nothing, so one that is taken up again adds no slot of an earlier message. -/
  spareEmpty : ∀ block ∈ spare, block.slots = #[]
  /-- The nodes whose contents are being appended, innermost first: `cycle_guard`. -/
  path : List Ref

namespace Buffer

/-- `SPARE_BLOCKS`, how many blocks are put aside at most. -/
def spareLimit : Nat := 4

/-- A new buffer: one block, with nothing in it. -/
def empty : Buffer :=
  { earlier := #[], tail := .empty, spare := [], spareEmpty := by simp, path := [] }

instance : Inhabited Buffer := ⟨empty⟩

/-! ## What a buffer holds -/

def blocks (b : Buffer) : List Block := b.earlier.toList ++ [b.tail]

/-- **The slots a buffer holds**, in order. Two buffers of the same slots may differ in their
blocks: the end of a block is left unused where a reservation did not fit in. -/
def slots (b : Buffer) : List Slot := b.blocks.flatMap (·.slots.toList)

/-- The number of slots, `TaggedBuffer::len`. -/
def size (b : Buffer) : Nat := b.blocks.foldr (fun block n => block.slots.size + n) 0

def isEmpty (b : Buffer) : Bool := b.blocks.all (·.slots.isEmpty)

def blockCount (b : Buffer) : Nat := b.earlier.size + 1

/-- The tag of the slot at an index, and `clear` past the end: `TaggedBuffer::tag_at`. -/
def tagAt (b : Buffer) (index : Nat) : Tag :=
  match b.slots[index]? with
  | some s => s.tag
  | none => .clear

/-! ## Appending -/

/-- The buffer with room for `n` slots in its last block, if a block can have it:
`tail_with_room`. A block that was put aside is used before a new one is made. -/
def withRoom (b : Buffer) (n : Nat) : Buffer :=
  if b.tail.remaining < n then
    -- which spare block is taken does not matter, they are all empty
    match h : b.spare with
    | block :: rest =>
      { b with
        earlier := b.earlier.push b.tail
        tail := block
        spare := rest
        spareEmpty := fun x hx => b.spareEmpty x (h ▸ List.mem_cons_of_mem block hx) }
    | [] => { b with earlier := b.earlier.push b.tail, tail := .empty }
  else
    b

/-- Puts a slot into the last block, whether it has room or not: `TaggedBuffer::append_unchecked`.
A caller reserves the room before. -/
def push (b : Buffer) (s : Slot) : Buffer := { b with tail := b.tail.push s }

/-- **Appends a slot**, in a new block if the last one is full: `TaggedBuffer::append`. -/
def append (b : Buffer) (s : Slot) : Buffer := (b.withRoom 1).push s

/-- Appends slots one after the other. -/
def appendAll (b : Buffer) (ss : List Slot) : Buffer := ss.foldl append b

/-- Room for `n` slots in the last block, if that is no more than a block holds:
`TaggedBuffer::ensure_capacity`. The next `n` slots can then be put there without looking. -/
def reserve? (b : Buffer) (n : Nat) : Option Buffer :=
  if n ≤ Block.capacity then some (b.withRoom n) else none

/-- Appends the slot of a tag, `TaggedBuffer::append_tag_only`. A tag that stands for more than
itself appends nothing and is reported. -/
def appendTag (b : Buffer) (t : Tag) : Buffer × Option Diagnostic :=
  match t.slot? with
  | some s => (b.append s, none)
  | none => (b, some (.payloadMissing t))

/-! ## Clearing -/

/-- **Drops every slot**, `TaggedBuffer::clear`. The first block stays as the last one, emptied;
of the others as many are put aside, emptied too, as the limit allows. The path is forgotten. -/
def clear (b : Buffer) : Buffer :=
  let (head, others) :=
    match b.earlier.toList with
    | [] => (b.tail, [])
    | first :: rest => (first, rest ++ [b.tail])
  { earlier := #[]
    tail := head.emptied
    -- the blocks are taken from the end, so the later ones are put aside first
    spare := b.spare ++ (others.reverse.take (spareLimit - b.spare.length)).map Block.emptied
    spareEmpty := by
      intro block hblock
      rcases List.mem_append.mp hblock with hold | hnew
      · exact b.spareEmpty block hold
      · obtain ⟨other, _, rfl⟩ := List.mem_map.mp hnew
        exact other.slots_emptied
    path := [] }

/-! ## Sizes and the view -/

theorem size_eq_length_slots (b : Buffer) : b.size = b.slots.length := by
  unfold size slots
  induction b.blocks with
  | nil => rfl
  | cons block rest ih =>
    simp only [List.foldr_cons, List.flatMap_cons, List.length_append, Array.length_toList, ih]

theorem isEmpty_iff_slots (b : Buffer) : b.isEmpty = true ↔ b.slots = [] := by
  simp [isEmpty, slots, List.flatMap_eq_nil_iff, Array.isEmpty_iff]

theorem slots_clear (b : Buffer) : b.clear.slots = [] := by
  simp [clear, slots, blocks, Block.emptied]

end Buffer

end Logbook
