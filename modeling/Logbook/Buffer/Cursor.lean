/-
Walking through a buffer.

A cursor is a block and a position in it. It may rest at the end of a block, full or
not, and a slot that is appended later is then the next one it meets, be it in the same
block or in a new one. `slotFrom` finds the first slot at or after a cursor, and the
slots it has still to meet are `after`: one step takes the first of them away, and there
is no step exactly when there are none.
-/
import Logbook.Buffer.Basic

set_option autoImplicit false

namespace Logbook

/-- A position in a buffer, the number of a block and of a slot in it. It need not be the
position of a slot. -/
structure Cursor where
  block : Nat
  slot : Nat
  deriving DecidableEq, Repr

namespace Cursor

def start : Cursor := ⟨0, 0⟩

/-- The position one slot further in the same block, `Cursor::advanced`. It may be past the end
of the block: whether the next slot comes there or in the next block is not settled yet. -/
def next (c : Cursor) : Cursor := { c with slot := c.slot + 1 }

/-- The first position of the next block. -/
def nextBlock (c : Cursor) : Cursor := ⟨c.block + 1, 0⟩

end Cursor

namespace Buffer

/-- The block of a number, the last one included. -/
def block? (b : Buffer) (i : Nat) : Option Block :=
  if i = b.earlier.size then some b.tail else b.earlier[i]?

/-- **The slots from a cursor on.** No run reads this list; it is what the looks of a cursor
come to, taken together. -/
def after (b : Buffer) (c : Cursor) : List Slot :=
  match b.blocks.drop c.block with
  | [] => []
  | block :: rest => block.slots.toList.drop c.slot ++ rest.flatMap (·.slots.toList)

theorem block?_eq_getElem? (b : Buffer) (i : Nat) : b.block? i = b.blocks[i]? := by
  unfold block? blocks
  by_cases h : i = b.earlier.size
  · simp [h]
  · rw [List.getElem?_append]
    by_cases hlt : i < b.earlier.size
    · simp [h, hlt]
    · simp [h, hlt]
      omega

theorem lt_blockCount_of_block? {b : Buffer} {i : Nat} {block : Block}
    (h : b.block? i = some block) : i < b.blockCount := by
  rw [block?_eq_getElem?] at h
  have := (List.getElem?_eq_some_iff.mp h).1
  simpa [blocks, blockCount] using this

/-- **The first slot at or after a cursor**, with its position: `TaggedBuffer::entry_from`. A
block with nothing more in it is passed over, and there are only so many blocks. -/
def slotFrom (b : Buffer) (c : Cursor) : Option (Cursor × Slot) :=
  match _h : b.block? c.block with
  | none => none
  | some block =>
    match block.slots[c.slot]? with
    | some s => some (c, s)
    | none => b.slotFrom c.nextBlock
termination_by b.blockCount - c.block
decreasing_by
  have := lt_blockCount_of_block? _h
  simp only [Cursor.nextBlock]
  omega

/-! ## A step takes the first of the slots that are left -/

theorem after_of_block? {b : Buffer} {c : Cursor} {block : Block}
    (h : b.block? c.block = some block) :
    b.after c = block.slots.toList.drop c.slot
      ++ (b.blocks.drop (c.block + 1)).flatMap (·.slots.toList) := by
  rw [block?_eq_getElem?] at h
  obtain ⟨hlt, hget⟩ := List.getElem?_eq_some_iff.mp h
  rw [after, List.drop_eq_getElem_cons hlt, hget]

theorem after_nextBlock (b : Buffer) (c : Cursor) :
    b.after c.nextBlock = (b.blocks.drop (c.block + 1)).flatMap (·.slots.toList) := by
  unfold after Cursor.nextBlock
  cases b.blocks.drop (c.block + 1) <;> simp

/-- There is no slot from a cursor on exactly when none is left. -/
theorem slotFrom_eq_none_iff (b : Buffer) (c : Cursor) :
    b.slotFrom c = none ↔ b.after c = [] := by
  fun_induction slotFrom b c with
  | case1 c h =>
    rw [block?_eq_getElem?, List.getElem?_eq_none_iff] at h
    simp [after, List.drop_eq_nil_of_le h]
  | case2 c block h s hs =>
    have hlt := (Array.getElem?_eq_some_iff.mp hs).1
    simp [after_of_block? h, Nat.not_le.mpr hlt]
  | case3 c block h hs ih =>
    have hnil : block.slots.toList.drop c.slot = [] :=
      List.drop_eq_nil_of_le (by simpa using Array.getElem?_eq_none_iff.mp hs)
    rw [ih, after_nextBlock, after_of_block? h, hnil, List.nil_append]

/-- **What a cursor finds is the first of the slots that are left**, and the others
are left after it. -/
theorem after_eq_cons_of_slotFrom {b : Buffer} {c at' : Cursor} {s : Slot}
    (h : b.slotFrom c = some (at', s)) : b.after c = s :: b.after at'.next := by
  fun_induction slotFrom b c with
  | case1 c h' => simp at h
  | case2 c block h' s' hs =>
    simp only [Option.some.injEq, Prod.mk.injEq] at h
    obtain ⟨rfl, rfl⟩ := h
    obtain ⟨hlt, hget⟩ := Array.getElem?_eq_some_iff.mp hs
    have hnext : b.block? c.next.block = some block := h'
    rw [after_of_block? h', after_of_block? hnext,
      List.drop_eq_getElem_cons (by simpa using hlt)]
    simp [Cursor.next, hget]
  | case3 c block h' hs ih =>
    have hnil : block.slots.toList.drop c.slot = [] :=
      List.drop_eq_nil_of_le (by simpa using Array.getElem?_eq_none_iff.mp hs)
    rw [← ih h, after_nextBlock, after_of_block? h', hnil, List.nil_append]

end Buffer

end Logbook
