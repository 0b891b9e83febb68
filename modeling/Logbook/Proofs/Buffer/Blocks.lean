/-
How a buffer is filled, block by block.

Which slots an operation adds is known (`slots_log`), without a look at blocks. Here blocks are
looked at, and it turns out that there are only two ways of adding slots: to append them one
after the other, and to make room once and push them. A value, however deep it is, is appended
in the first way (`appendValue_eq`), and so is a message that no reserved room is made for
(`log_eq`). What is shown of these two ways therefore holds of every operation.

What is shown here is the state that the blocks are left in. `Packed` counts the room that is
known to be in the last block, and a slot takes one place of it, in whichever way it comes. A
reservation that was made before other slots were appended is therefore still good for what is
left of it.
-/
import Logbook.Proofs.Buffer.Reserve

set_option autoImplicit false

namespace Logbook

namespace Buffer

/-! ## Appending one by one, and pushing -/

/-- Puts slots into the last block, whether it has room or not. -/
def pushAll (b : Buffer) (ss : List Slot) : Buffer := ss.foldl push b

@[simp] theorem appendAll_nil (b : Buffer) : b.appendAll [] = b := rfl

theorem appendAll_cons (b : Buffer) (s : Slot) (ss : List Slot) :
    b.appendAll (s :: ss) = (b.append s).appendAll ss := rfl

theorem appendAll_append (b : Buffer) (ss ts : List Slot) :
    b.appendAll (ss ++ ts) = (b.appendAll ss).appendAll ts := List.foldl_append

theorem pushAll_append (b : Buffer) (ss ts : List Slot) :
    b.pushAll (ss ++ ts) = (b.pushAll ss).pushAll ts := List.foldl_append

@[simp] theorem path_appendAll (b : Buffer) (ss : List Slot) : (b.appendAll ss).path = b.path := by
  induction ss generalizing b with
  | nil => rfl
  | cons s ss ih => rw [appendAll_cons, ih, path_append]

@[simp] theorem path_pushAll (b : Buffer) (ss : List Slot) : (b.pushAll ss).path = b.path := by
  induction ss generalizing b with
  | nil => rfl
  | cons s ss ih => exact ih (b.push s)

/-- A buffer inside the nodes of another path. -/
def onPath (b : Buffer) (path : List Ref) : Buffer := { b with path := path }

@[simp] theorem onPath_path (b : Buffer) : b.onPath b.path = b := rfl

/-- No block depends on the path. -/
theorem withRoom_onPath (b : Buffer) (path : List Ref) (n : Nat) :
    (b.onPath path).withRoom n = (b.withRoom n).onPath path := by
  obtain ⟨earlier, tail, spare, spareEmpty, path'⟩ := b
  by_cases hroom : tail.remaining < n
  · cases spare <;> simp [withRoom, onPath, hroom]
  · simp [withRoom, onPath, hroom]

theorem append_onPath (b : Buffer) (path : List Ref) (s : Slot) :
    (b.onPath path).append s = (b.append s).onPath path := by
  rw [append, withRoom_onPath]
  rfl

theorem appendAll_onPath (b : Buffer) (path : List Ref) (ss : List Slot) :
    (b.onPath path).appendAll ss = (b.appendAll ss).onPath path := by
  induction ss generalizing b with
  | nil => rfl
  | cons s ss ih => rw [appendAll_cons, append_onPath, ih, appendAll_cons]

theorem appendName_eq (b : Buffer) (c : Child) : b.appendName c.name = b.appendAll c.label := by
  unfold appendName Child.label
  cases c.name <;> rfl

/-- **A value is appended slot by slot.** -/
theorem appendValue_eq (h : Heap) (bounds : Bounds) (depth : Nat) (b : Buffer) (v : Value) :
    appendValue h bounds depth b v = b.appendAll (h.slots bounds depth b.path v) := by
  induction depth generalizing b v with
  | zero =>
    cases v with
    | scalar s => rfl
    | foreign => rfl
    | node r =>
      unfold appendValue Heap.slots
      split <;> rfl
  | succ depth ih =>
    cases v with
    | scalar s => rfl
    | foreign => rfl
    | node r =>
      by_cases hr : r ∈ b.path
      · rw [appendValue, Heap.slots, if_pos hr, if_pos hr]
        rfl
      -- every child finds the path as the node has left it, since the one before has restored it
      · have hfold : ∀ (cs : List Child) (b' : Buffer), b'.path = r :: b.path →
            cs.foldl (fun b c => appendValue h bounds depth (b.appendName c.name) c.value) b'
              = b'.appendAll
                (cs.flatMap fun c => c.label ++ h.slots bounds depth (r :: b.path) c.value) := by
          intro cs
          induction cs with
          | nil => exact fun b' _ => rfl
          | cons c cs ihcs =>
            intro b' hpath
            rw [List.foldl_cons, List.flatMap_cons, appendName_eq, ih, path_appendAll, hpath,
              ihcs _ (by rw [path_appendAll, path_appendAll, hpath]), appendAll_append,
              appendAll_append]
        have hinside := hfold (h.shown bounds r) ((b.enter r).append (.opening r.shape)) (by simp)
        have henter : (b.enter r).append (.opening r.shape)
            = (b.append (.opening r.shape)).onPath (r :: b.path) := append_onPath b _ _
        -- what is inside is appended on the longer path, and leaving restores the shorter one
        have hleave : ∀ ss : List Slot,
            (((b.append (.opening r.shape)).onPath (r :: b.path)).appendAll ss).leave
              = (b.append (.opening r.shape)).appendAll ss := by
          intro ss
          have hpath : ((b.append (.opening r.shape)).appendAll ss).path = b.path := by simp
          rw [appendAll_onPath]
          show ((b.append (.opening r.shape)).appendAll ss).onPath b.path = _
          rw [← hpath, onPath_path]
        unfold Heap.shown at hinside
        rw [appendValue, Heap.slots, if_neg hr, if_neg hr]
        dsimp only
        rw [hinside, henter]
        simp only [List.cons_append, appendAll_cons, appendAll_append, Heap.shown, Heap.isCut,
          decide_eq_true_eq]
        split
        · have hcut := hleave
            (((h.children r).take (bounds.length r.shape)).flatMap
                (fun c => c.label ++ h.slots bounds depth (r :: b.path) c.value)
              ++ [.marker .lengthReached])
          rw [appendAll_append, appendAll_append] at hcut
          exact congrArg (fun b' : Buffer => b'.append (.closing r.shape)) hcut
        · exact congrArg (fun b' : Buffer => b'.append (.closing r.shape)) (hleave _)

theorem appendArgument_eq {b : Buffer} (hpath : b.path = []) (h : Heap) (v : Value)
    (bounds : Bounds) :
    b.appendArgument h v bounds = b.appendAll (h.slots bounds bounds.depth [] v) := by
  have hsame : ({ b with path := [] } : Buffer) = b := by rw [← hpath]
  rw [appendArgument, hsame, expand, appendValue_eq, hpath]

theorem appendDirective_eq {b : Buffer} (hpath : b.path = []) (clock : Clock) (origin : Origin)
    (f : Format) (args : Arguments) (d : Directive) :
    (b.appendDirective clock origin f args d).1
      = b.appendAll (d.slots clock origin f args).1 := by
  cases d with
  | literal c => rfl
  | expando e => cases e <;> rfl
  | scalar kind i => rfl
  | general i =>
    simp only [appendDirective, Directive.slots]
    rcases args.values[i]? with _ | v
    · rfl
    · exact appendArgument_eq hpath args.heap v Bounds.standard
  | compound shape i bounds =>
    simp only [appendDirective, Directive.slots]
    rcases args.values[i]? with _ | s | _ | r
    · rfl
    · rfl
    · rfl
    · by_cases hshape : r.shape = shape
      · simp only [if_pos hshape]
        exact appendArgument_eq hpath args.heap (.node r) bounds
      · simp only [if_neg hshape]
        rfl

theorem pushDirective_eq (b : Buffer) (clock : Clock) (origin : Origin) (f : Format)
    (args : Arguments) {d : Directive} (hd : d.isSingleSlot = true) :
    (b.pushDirective clock origin f args d).1 = b.pushAll (d.slots clock origin f args).1 := by
  cases d with
  | literal c => rfl
  | expando e => cases e <;> rfl
  | scalar kind i => rfl
  | general i => simp [Directive.isSingleSlot] at hd
  | compound shape i bounds => simp [Directive.isSingleSlot] at hd

/-- Directives that are put one by one are put as the slots of all. -/
theorem foldl_directives_eq (m : Message) (put : Buffer → Clock → Directive → Buffer × Clock)
    (putAll : Buffer → List Slot → Buffer) (P : Buffer → Prop)
    (hnil : ∀ b, putAll b [] = b)
    (happend : ∀ b ss ts, putAll b (ss ++ ts) = putAll (putAll b ss) ts)
    (hkeeps : ∀ b ss, P b → P (putAll b ss)) (es : List Entry)
    (hput : ∀ e ∈ es, ∀ (b : Buffer) (clock : Clock), P b →
      (put b clock e.directive).1
          = putAll b (e.directive.slots clock m.origin m.format m.args).1 ∧
        (put b clock e.directive).2 = (e.directive.slots clock m.origin m.format m.args).2)
    {b : Buffer} (hb : P b) (clock : Clock) :
    (es.foldl (fun p e => put p.1 p.2 e.directive) (b, clock)).1
      = putAll b (m.body clock es).1 := by
  induction es generalizing b clock with
  | nil => exact (hnil b).symm
  | cons e es ih =>
    obtain ⟨hbuffer, hclock⟩ := hput e List.mem_cons_self b clock hb
    rw [List.foldl_cons, Message.body]
    dsimp only
    have hsame : put b clock e.directive
        = (putAll b (e.directive.slots clock m.origin m.format m.args).1,
            (e.directive.slots clock m.origin m.format m.args).2) := Prod.ext hbuffer hclock
    rw [hsame, ih (fun e' he' => hput e' (List.mem_cons_of_mem _ he')) (hkeeps _ _ hb), happend]

/-- A message without reserved room is appended slot by slot. -/
theorem appendMessage_eq {b : Buffer} (hpath : b.path = []) (m : Message) :
    (b.appendMessage m.clock m.origin m.level m.format m.args).1 = b.appendAll m.slots := by
  have hfold := foldl_directives_eq m
    (fun b clock d => b.appendDirective clock m.origin m.format m.args d) appendAll
    (fun b => b.path = []) appendAll_nil appendAll_append
    (fun b ss hb => by rw [path_appendAll, hb]) m.format.entries
    (fun e _ b clock hb =>
      ⟨appendDirective_eq hb clock m.origin m.format m.args e.directive,
        (slots_appendDirective b clock m.origin m.format m.args e.directive).2⟩)
    (b := (b.append (.format m.format)).append (.level m.level)) (by simp [hpath]) m.clock
  rw [appendMessage]
  dsimp only
  rw [hfold, Message.slots, appendAll_append]
  rfl

/-- A message in reserved room is pushed slot by slot. -/
theorem pushMessage_eq (b : Buffer) {m : Message} (hsingle : m.format.isSingleSlot = true) :
    (b.pushMessage m.clock m.origin m.level m.format m.args).1 = b.pushAll m.slots := by
  have hall := Format.isSingleSlot_of_mem hsingle
  have hfold := foldl_directives_eq m
    (fun b clock d => b.pushDirective clock m.origin m.format m.args d) pushAll
    (fun _ => True) (fun _ => rfl) pushAll_append (fun _ _ _ => trivial) m.format.entries
    (fun e he b clock _ =>
      ⟨pushDirective_eq b clock m.origin m.format m.args (hall e he),
        (slots_pushDirective b clock m.origin m.format m.args (hall e he)).2⟩)
    (b := (b.push (.format m.format)).push (.level m.level)) trivial m.clock
  rw [pushMessage]
  dsimp only
  rw [hfold, Message.slots, pushAll_append]
  rfl

/-- **A message is appended slot by slot, or pushed into room for all of them.** -/
theorem log_eq {b : Buffer} (hpath : b.path = []) (m : Message) :
    (b.log m.clock m.origin m.level m.format m.args).1 = b.appendAll m.slots ∨
      (m.slots.length ≤ Block.capacity ∧
        (b.log m.clock m.origin m.level m.format m.args).1
          = (b.withRoom m.slots.length).pushAll m.slots) := by
  by_cases hreserved : m.format.isSingleSlot = true ∧ slotCount m.format ≤ Block.capacity
  · obtain ⟨hsingle, hfits⟩ := hreserved
    have hlength := m.length_slots hsingle
    right
    refine ⟨by rw [hlength]; exact hfits, ?_⟩
    rw [(b.log_of_fits m.clock m.origin m.level m.args hsingle hfits).2,
      pushMessage_eq _ hsingle, hlength]
  · left
    rw [← appendMessage_eq hpath m, log]
    by_cases hsingle : m.format.isSingleSlot = true
    · have hlarge : ¬ slotCount m.format ≤ Block.capacity := fun h => hreserved ⟨hsingle, h⟩
      rw [if_pos hsingle, reserve?, if_neg hlarge]
    · rw [if_neg hsingle]

theorem path_log {b : Buffer} (hpath : b.path = []) (m : Message) :
    (b.log m.clock m.origin m.level m.format m.args).1.path = [] := by
  rcases log_eq hpath m with h | ⟨-, h⟩
  · rw [h, path_appendAll, hpath]
  · rw [h, path_pushAll, path_withRoom, hpath]

/-! ## The state of the blocks -/

/-- **The blocks of a buffer**: none holds more than a block can, only the last can be empty,
few are put aside, and the last one has room for some slots more. -/
structure Packed (b : Buffer) (room : Nat) : Prop where
  bounded : ∀ block ∈ b.blocks, block.slots.size ≤ Block.capacity
  filled : ∀ block ∈ b.earlier.toList, block.slots ≠ #[]
  spare : b.spare.length ≤ spareLimit
  room : room ≤ b.tail.remaining

/-- Making room leaves the blocks as they are, or starts one that holds nothing behind a last
one that holds something. -/
theorem withRoom_cases (b : Buffer) {n : Nat} (hn : n ≤ Block.capacity) :
    b.withRoom n = b ∧ n ≤ b.tail.remaining ∨
      (b.withRoom n).earlier.toList = b.earlier.toList ++ [b.tail] ∧ b.tail.slots ≠ #[] ∧
        (b.withRoom n).tail.slots = #[] ∧ (b.withRoom n).spare.length ≤ b.spare.length := by
  by_cases hroom : b.tail.remaining < n
  · right
    -- an empty block has room for any reservation, so one that lacks room is not empty
    have hfilled : b.tail.slots ≠ #[] := by
      intro hnone
      rw [Block.remaining, hnone] at hroom
      exact absurd hroom (Nat.not_lt.mpr hn)
    unfold withRoom
    rw [if_pos hroom]
    split
    · rename_i block rest hspare
      refine ⟨by simp, hfilled, ?_, by simp [hspare]⟩
      exact b.spareEmpty block (by rw [hspare]; exact List.mem_cons_self)
    · exact ⟨by simp, hfilled, rfl, Nat.le_refl _⟩
  · left
    exact ⟨by rw [withRoom, if_neg hroom], Nat.not_lt.mp hroom⟩

namespace Packed

variable {b : Buffer} {room : Nat}

theorem empty : Buffer.empty.Packed 0 where
  bounded := by simp [blocks, Buffer.empty, Block.empty]
  filled := by simp [Buffer.empty]
  spare := Nat.zero_le _
  room := Nat.zero_le _

theorem weaken (h : b.Packed room) {room' : Nat} (hle : room' ≤ room) : b.Packed room' :=
  ⟨h.bounded, h.filled, h.spare, Nat.le_trans hle h.room⟩

/-- **Making room loses none** that was there before. -/
theorem withRoom (h : b.Packed room) {n : Nat} (hn : n ≤ Block.capacity) :
    (b.withRoom n).Packed (max room n) := by
  have hmax : max room n ≤ Block.capacity :=
    Nat.max_le.mpr ⟨Nat.le_trans h.room (Nat.sub_le _ _), hn⟩
  rcases b.withRoom_cases hn with ⟨hsame, hroom⟩ | ⟨hearlier, htail, hnew, hspare⟩
  · rw [hsame]
    exact ⟨h.bounded, h.filled, h.spare, Nat.max_le.mpr ⟨h.room, hroom⟩⟩
  · refine ⟨?_, ?_, Nat.le_trans hspare h.spare, ?_⟩
    · intro block hblock
      rw [blocks, hearlier] at hblock
      rcases List.mem_append.mp hblock with hold | hlast
      · exact h.bounded block hold
      · rw [List.mem_singleton.mp hlast, hnew]
        exact Nat.zero_le _
    · intro block hblock
      rw [hearlier] at hblock
      rcases List.mem_append.mp hblock with hold | hlast
      · exact h.filled block hold
      · rw [List.mem_singleton.mp hlast]
        exact htail
    · rw [Block.remaining, hnew]
      exact hmax

/-- **A slot takes one place** of the room that is there. -/
theorem push (h : b.Packed (room + 1)) (s : Slot) : (b.push s).Packed room := by
  have hroom := h.room
  rw [Block.remaining] at hroom
  refine ⟨?_, h.filled, h.spare, ?_⟩
  · intro block hblock
    rcases List.mem_append.mp hblock with hold | hlast
    · exact h.bounded block (List.mem_append_left _ hold)
    · rw [List.mem_singleton.mp hlast]
      simp only [Buffer.push, Block.push, Array.size_push]
      omega
  · simp only [Buffer.push, Block.push, Block.remaining, Array.size_push]
    omega

theorem append (h : b.Packed room) (s : Slot) : (b.append s).Packed (room - 1) := by
  have hone : 1 ≤ Block.capacity := by decide
  exact ((h.withRoom hone).weaken (by omega : room - 1 + 1 ≤ max room 1)).push s

theorem appendAll (h : b.Packed room) (ss : List Slot) :
    (b.appendAll ss).Packed (room - ss.length) := by
  induction ss generalizing b room with
  | nil => exact h
  | cons s ss ih =>
    rw [appendAll_cons]
    exact (ih (h.append s)).weaken (by rw [List.length_cons]; omega)

theorem pushAll {ss : List Slot} (h : b.Packed (room + ss.length)) :
    (b.pushAll ss).Packed room := by
  induction ss generalizing b with
  | nil => exact h
  | cons s ss ih =>
    have hone : b.Packed (room + ss.length + 1) := h
    exact ih (hone.push s)

/-- A message takes as much of the room as it has slots, in whichever way it is recorded. -/
theorem log (h : b.Packed room) (hpath : b.path = []) (m : Message) :
    (b.log m.clock m.origin m.level m.format m.args).1.Packed (room - m.slots.length) := by
  rcases log_eq hpath m with hlog | ⟨hfits, hlog⟩
  · rw [hlog]
    exact h.appendAll m.slots
  · rw [hlog]
    exact ((h.withRoom hfits).weaken (by omega)).pushAll

theorem clear (h : b.Packed room) : b.clear.Packed 0 where
  bounded := by simp [blocks, Buffer.clear, Block.emptied]
  filled := by simp [Buffer.clear]
  spare := by
    have hspare := h.spare
    simp only [Buffer.clear, List.length_append, List.length_map, List.length_take]
    omega
  room := Nat.zero_le _

end Packed

end Buffer

end Logbook
