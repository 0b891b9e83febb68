/-
A cursor in a buffer that grows.

What a cursor has still to meet is a list of slots, and growth adds to the end of that list
(`after_log`). That is plain as long as the cursor stands before a slot. But a walk that is
suspended at the end of the buffer leaves its cursor at the end of a block, and it depends on
the room of that block whether the next slot comes there or in a block that does not exist yet.
In either case the cursor finds it, if it rests in a block and not beyond the end of it, which
is where a step leaves it (`covers_of_slotFrom`).
-/
import Logbook.Buffer.Cursor
import Logbook.Proofs.Buffer.Blocks

set_option autoImplicit false

namespace Logbook

namespace Buffer

/-- **A cursor rests in a block**, or at its end. -/
def Covers (b : Buffer) (c : Cursor) : Prop :=
  ∃ block, b.blocks[c.block]? = some block ∧ c.slot ≤ block.slots.size

theorem covers_start (b : Buffer) : b.Covers .start := by
  cases hblocks : b.blocks with
  | nil => simp [blocks] at hblocks
  | cons block rest => exact ⟨block, by rw [hblocks]; rfl, Nat.zero_le _⟩

/-- A step leaves the cursor in the block of the slot that it found. -/
theorem covers_of_slotFrom {b : Buffer} {c at' : Cursor} {s : Slot}
    (h : b.slotFrom c = some (at', s)) : b.Covers at'.next := by
  fun_induction slotFrom b c with
  | case1 c hblock => simp at h
  | case2 c block hblock s' hslot =>
    simp only [Option.some.injEq, Prod.mk.injEq] at h
    obtain ⟨rfl, rfl⟩ := h
    have hlt := (Array.getElem?_eq_some_iff.mp hslot).1
    exact ⟨block, (b.block?_eq_getElem? c.block).symm.trans hblock, hlt⟩
  | case3 c block hblock hslot ih => exact ih h

theorem blocks_withRoom (b : Buffer) (n : Nat) :
    (b.withRoom n).blocks = b.blocks ∨
      ∃ block : Block, block.slots = #[] ∧ (b.withRoom n).blocks = b.blocks ++ [block] := by
  unfold withRoom
  split
  · split
    · rename_i block rest hspare
      refine .inr ⟨block, b.spareEmpty block (by rw [hspare]; exact List.mem_cons_self), ?_⟩
      simp [blocks]
    · exact .inr ⟨.empty, rfl, by simp [blocks]⟩
  · exact .inl rfl

/-- A block without slots has none to be met. -/
theorem after_withRoom (b : Buffer) (n : Nat) (c : Cursor) :
    (b.withRoom n).after c = b.after c := by
  rcases b.blocks_withRoom n with hsame | ⟨new, hnew, hblocks⟩
  · rw [after, hsame, after]
  · rw [after, hblocks, after, List.drop_append]
    cases hdrop : b.blocks.drop c.block with
    | nil =>
      -- the cursor is behind the old blocks, so only the new one can be left
      cases c.block - b.blocks.length with
      | zero => simp [hnew]
      | succ k => simp
    | cons block rest =>
      have hempty : ∀ i, ([new].drop i).flatMap (fun block => block.slots.toList) = [] := by
        intro i
        refine List.flatMap_eq_nil_iff.mpr fun block hblock => ?_
        rw [List.mem_singleton.mp (List.mem_of_mem_drop hblock), hnew]
      simp only [List.cons_append, List.flatMap_append, hempty, List.append_nil]

theorem covers_withRoom {b : Buffer} {c : Cursor} (h : b.Covers c) (n : Nat) :
    (b.withRoom n).Covers c := by
  obtain ⟨block, hblock, hslot⟩ := h
  refine ⟨block, ?_, hslot⟩
  rcases b.blocks_withRoom n with hsame | ⟨new, -, hblocks⟩
  · rw [hsame, hblock]
  · rw [hblocks, List.getElem?_append_left (List.getElem?_eq_some_iff.mp hblock).1, hblock]

/-- **A slot in the last block is the last one to be met**, wherever the cursor rests. -/
theorem after_push {b : Buffer} {c : Cursor} (h : b.Covers c) (s : Slot) :
    (b.push s).after c = b.after c ++ [s] ∧ (b.push s).Covers c := by
  obtain ⟨block, hblock, hslot⟩ := h
  have hlt := (List.getElem?_eq_some_iff.mp hblock).1
  have hblocks : (b.push s).blocks = b.earlier.toList ++ [b.tail.push s] := rfl
  rw [blocks, List.length_append, List.length_singleton] at hlt
  by_cases hlast : c.block = b.earlier.toList.length
  -- at the last block the slot comes behind those that are left of it
  · have htail : block = b.tail := by
      rw [blocks, hlast, List.getElem?_concat_length] at hblock
      exact (Option.some.inj hblock).symm
    rw [htail] at hslot
    refine ⟨?_, b.tail.push s, ?_, ?_⟩
    · rw [after, after, hblocks, blocks, hlast, List.drop_left, List.drop_left]
      simp only [Block.push, Array.toList_push, List.flatMap_nil, List.append_nil]
      exact List.drop_append_of_le_length (by simpa using hslot)
    · rw [hblocks, hlast, List.getElem?_concat_length]
    · simp only [Block.push, Array.size_push]
      omega
  · have hearlier : c.block < b.earlier.toList.length := by omega
    refine ⟨?_, block, ?_, hslot⟩
    · rw [after, after, hblocks, blocks, List.drop_append_of_le_length (Nat.le_of_lt hearlier),
        List.drop_append_of_le_length (Nat.le_of_lt hearlier),
        List.drop_eq_getElem_cons hearlier]
      simp [Block.push]
    · rw [blocks, List.getElem?_append_left hearlier] at hblock
      rw [hblocks, List.getElem?_append_left hearlier, hblock]

theorem after_appendAll {b : Buffer} {c : Cursor} (h : b.Covers c) (ss : List Slot) :
    (b.appendAll ss).after c = b.after c ++ ss ∧ (b.appendAll ss).Covers c := by
  induction ss generalizing b with
  | nil => exact ⟨by simp, h⟩
  | cons s ss ih =>
    obtain ⟨hafter, hcovers⟩ := after_push (covers_withRoom h 1) s
    obtain ⟨hafter', hcovers'⟩ := ih hcovers
    rw [appendAll_cons]
    refine ⟨?_, hcovers'⟩
    rw [append, hafter', hafter, after_withRoom, List.append_assoc, List.singleton_append]

theorem after_pushAll {b : Buffer} {c : Cursor} (h : b.Covers c) (ss : List Slot) :
    (b.pushAll ss).after c = b.after c ++ ss ∧ (b.pushAll ss).Covers c := by
  induction ss generalizing b with
  | nil => exact ⟨by simp [pushAll], h⟩
  | cons s ss ih =>
    obtain ⟨hafter, hcovers⟩ := after_push h s
    obtain ⟨hafter', hcovers'⟩ := ih hcovers
    refine ⟨?_, hcovers'⟩
    show ((b.push s).pushAll ss).after c = _
    rw [hafter', hafter, List.append_assoc, List.singleton_append]

/-- **A message that is recorded comes behind what a cursor has still to meet.** -/
theorem after_log {b : Buffer} {c : Cursor} (h : b.Covers c) (hpath : b.path = []) (m : Message) :
    (b.log m.clock m.origin m.level m.format m.args).1.after c = b.after c ++ m.slots ∧
      (b.log m.clock m.origin m.level m.format m.args).1.Covers c := by
  rcases log_eq hpath m with hlog | ⟨-, hlog⟩
  · rw [hlog]
    exact after_appendAll h m.slots
  · rw [hlog, ← after_withRoom b m.slots.length c]
    exact after_pushAll (covers_withRoom h _) m.slots

end Buffer

end Logbook
