/-
Recording in reserved room, and recording slot by slot.

A message whose directives take one slot at most is put into room that was reserved once,
without another look at the block; every other message is appended slot by slot. The choice
is made by the shape of the format and by the size of a block, and this file shows that it
cannot be noticed: the slots are the same, the clock is read alike, and the room is filled
exactly, so it was neither too small nor left in part to the next message.

Reading the clock is an effect, so a slot that is resolved twice or not at all would show
in every wall time after it. That none is follows from one count: **before any entry the
clock was read as often as there are wall times among the entries before it**.
-/
import Logbook.Proofs.Buffer.Slots

set_option autoImplicit false

namespace Logbook

/-! ## Readings of the clock -/

/-- The clock after some more readings. -/
def Clock.skip (c : Clock) (n : Nat) : Clock := { c with taken := c.taken + n }

@[simp] theorem Clock.skip_zero (c : Clock) : c.skip 0 = c := rfl

@[simp] theorem Clock.skip_skip (c : Clock) (m n : Nat) : (c.skip m).skip n = c.skip (m + n) := by
  simp [skip, Nat.add_assoc]

def Entry.isWallTime (e : Entry) : Bool := e.directive = .expando .wallTime

theorem Directive.clock_slots (d : Directive) (clock : Clock) (origin : Origin) (f : Format)
    (args : Arguments) :
    (d.slots clock origin f args).2
      = clock.skip (if d = .expando .wallTime then 1 else 0) := by
  cases d with
  | literal c => rfl
  | expando e => cases e <;> rfl
  | scalar kind i => rfl
  | general i =>
    simp only [Directive.slots]
    cases args.values[i]? <;> rfl
  | compound shape i bounds =>
    simp only [Directive.slots]
    rcases args.values[i]? with _ | s | _ | r
    · rfl
    · rfl
    · rfl
    · by_cases hshape : r.shape = shape <;> simp [hshape]

namespace Message

/-- **The clock is read once for every wall time**, and for nothing else. -/
theorem clock_body (m : Message) (clock : Clock) (es : List Entry) :
    (m.body clock es).2 = clock.skip (es.countP Entry.isWallTime) := by
  induction es generalizing clock with
  | nil => rfl
  | cons e es ih =>
    rw [body]
    dsimp only
    rw [ih, Directive.clock_slots, Clock.skip_skip, List.countP_cons, Nat.add_comm]
    simp [Entry.isWallTime]

theorem body_append (m : Message) (clock : Clock) (es es' : List Entry) :
    (m.body clock (es ++ es')).1
      = (m.body clock es).1
        ++ (m.body (clock.skip (es.countP Entry.isWallTime)) es').1 := by
  induction es generalizing clock with
  | nil => rfl
  | cons e es ih =>
    have hclock : (e.directive.slots clock m.origin m.format m.args).2.skip
          (es.countP Entry.isWallTime)
        = clock.skip ((e :: es).countP Entry.isWallTime) := by
      rw [Directive.clock_slots, Clock.skip_skip, List.countP_cons, Nat.add_comm]
      simp [Entry.isWallTime]
    rw [List.cons_append, body, body]
    dsimp only
    rw [ih, hclock, List.append_assoc]

/-- **An entry finds the clock read for the wall times before it.** -/
theorem slots_split (m : Message) {before after : List Entry} {e : Entry}
    (h : m.format.entries = before ++ e :: after) :
    m.slots = .format m.format :: .level m.level :: (m.body m.clock before).1
      ++ (e.directive.slots (m.clock.skip (before.countP Entry.isWallTime)) m.origin m.format
        m.args).1
      ++ (m.body (m.clock.skip ((before ++ [e]).countP Entry.isWallTime)) after).1
      ++ [.finish] := by
  have hentries : m.format.entries = (before ++ [e]) ++ after := by simp [h]
  rw [slots, start, hentries, m.body_append, m.body_append]
  simp only [body, List.append_nil, List.cons_append, List.append_assoc]

end Message

/-! ## Counting slots -/

theorem Directive.length_slots {d : Directive} (hd : d.isSingleSlot = true) (clock : Clock)
    (origin : Origin) (f : Format) (args : Arguments) :
    (d.slots clock origin f args).1.length = if d.isLiteral then 0 else 1 := by
  cases d with
  | literal c => rfl
  | expando e => cases e <;> rfl
  | scalar kind i => rfl
  | general i => simp [isSingleSlot] at hd
  | compound shape i bounds => simp [isSingleSlot] at hd

/-- Directives of one slot have as many slots as there are of them, whatever the arguments
are. Escaped characters have none. -/
theorem Message.length_body (m : Message) (clock : Clock) {es : List Entry}
    (hes : ∀ e ∈ es, e.directive.isSingleSlot = true) :
    (m.body clock es).1.length = es.countP fun e => !e.directive.isLiteral := by
  induction es generalizing clock with
  | nil => rfl
  | cons e es ih =>
    rw [body]
    dsimp only
    rw [List.length_append, Directive.length_slots (hes e List.mem_cons_self),
      ih _ fun e' he' => hes e' (List.mem_cons_of_mem e he'), List.countP_cons, Nat.add_comm]
    cases e.directive.isLiteral <;> rfl

theorem Message.length_slots (m : Message) (hsingle : m.format.isSingleSlot = true) :
    m.slots.length = Buffer.slotCount m.format := by
  have hall := Format.isSingleSlot_of_mem hsingle
  simp only [slots, start, List.length_append, List.length_cons, List.length_nil,
    m.length_body m.clock hall, Buffer.slotCount]
  omega

/-! ## Room in a block -/

namespace Buffer

/-- A block that was made room in has it, as long as a block can. -/
theorem remaining_withRoom (b : Buffer) {n : Nat} (hn : n ≤ Block.capacity) :
    n ≤ (b.withRoom n).tail.remaining := by
  unfold withRoom
  split
  · split
    · rename_i block rest hspare
      have hempty : block.slots = #[] :=
        b.spareEmpty block (by rw [hspare]; exact List.mem_cons_self)
      simpa [Block.remaining, hempty] using hn
    · simpa [Block.remaining, Block.empty] using hn
  · rename_i hroom
    omega

theorem earlier_pushDirective (b : Buffer) (clock : Clock) (origin : Origin) (f : Format)
    (args : Arguments) (d : Directive) :
    (b.pushDirective clock origin f args d).1.earlier = b.earlier := by
  unfold pushDirective
  split <;> rfl

/-- What is put into reserved room leaves the blocks before it alone. -/
theorem earlier_pushMessage (b : Buffer) (clock : Clock) (origin : Origin) (level : Level)
    (f : Format) (args : Arguments) :
    (b.pushMessage clock origin level f args).1.earlier = b.earlier := by
  have hfold : ∀ (es : List Entry) (p : Buffer × Clock),
      (es.foldl (fun p e => p.1.pushDirective p.2 origin f args e.directive) p).1.earlier
        = p.1.earlier := by
    intro es
    induction es with
    | nil => exact fun p => rfl
    | cons e es ih => exact fun p => (ih _).trans (earlier_pushDirective _ _ _ _ _ _)
  exact hfold f.entries _

/-- Slots that were added behind the same earlier blocks are all in the last one. -/
theorem tail_of_earlier {b b' : Buffer} {ss : List Slot} (hearlier : b'.earlier = b.earlier)
    (hslots : b'.slots = b.slots ++ ss) :
    b'.tail.slots.toList = b.tail.slots.toList ++ ss := by
  simp only [slots, blocks, hearlier, List.flatMap_append, List.flatMap_singleton,
    List.append_assoc] at hslots
  exact List.append_cancel_left hslots

/-- **A message in reserved room fills it exactly.** -/
theorem tail_pushMessage {b room : Buffer} (m : Message)
    (hsingle : m.format.isSingleSlot = true)
    (hroom : b.reserve? (slotCount m.format) = some room) :
    (room.pushMessage m.clock m.origin m.level m.format m.args).1.tail.slots.toList
        = room.tail.slots.toList ++ m.slots ∧
      room.tail.slots.size + slotCount m.format ≤ Block.capacity := by
  refine ⟨tail_of_earlier (earlier_pushMessage _ _ _ _ _ _) (slots_pushMessage room hsingle).1, ?_⟩
  unfold reserve? at hroom
  split at hroom
  · rename_i hn
    have hremaining := b.remaining_withRoom hn
    rw [Option.some.inj hroom, Block.remaining] at hremaining
    have hpos : 0 < slotCount m.format := by unfold slotCount; omega
    omega
  · simp at hroom

/-- Directives of one slot go into reserved room, if a block can hold all of them. -/
theorem log_of_fits (b : Buffer) (clock : Clock) (origin : Origin) (level : Level) {f : Format}
    (args : Arguments) (hsingle : f.isSingleSlot = true) (hfits : slotCount f ≤ Block.capacity) :
    b.reserve? (slotCount f) = some (b.withRoom (slotCount f)) ∧
      b.log clock origin level f args
        = (b.withRoom (slotCount f)).pushMessage clock origin level f args := by
  have hroom : b.reserve? (slotCount f) = some (b.withRoom (slotCount f)) := by
    rw [reserve?, if_pos hfits]
  exact ⟨hroom, by rw [log, if_pos hsingle, hroom]⟩

/-- A format that no block can hold is recorded slot by slot, whatever its directives are. -/
theorem log_of_large (b : Buffer) (clock : Clock) (origin : Origin) (level : Level) {f : Format}
    (args : Arguments) (hlarge : Block.capacity < slotCount f) :
    b.log clock origin level f args = b.appendMessage clock origin level f args := by
  have hroom : b.reserve? (slotCount f) = none := by
    rw [reserve?, if_neg (Nat.not_le.mpr hlarge)]
  rw [log, hroom, ite_self]

/-- A format without directives is three slots. -/
theorem log_of_no_entries (b : Buffer) (clock : Clock) (origin : Origin) (level : Level)
    {f : Format} (args : Arguments) (hnone : f.entries = []) :
    b.log clock origin level f args
      = ((((b.withRoom 3).push (.format f)).push (.level level)).push .finish, clock) := by
  have hsingle : f.isSingleSlot = true := by rw [Format.isSingleSlot, hnone]; rfl
  have hcount : slotCount f = 3 := by rw [slotCount, hnone]; rfl
  have hfits : slotCount f ≤ Block.capacity := by rw [hcount]; decide
  rw [(b.log_of_fits clock origin level args hsingle hfits).2, hcount]
  simp only [pushMessage, hnone, List.foldl_nil]

/-- **The way a message is recorded in cannot be noticed.** Take any buffer, any clock and any
message.

* Recorded in whichever way its format calls for, it has the slots that it has slot by slot,
  behind those that were there, and the clock is read as often: once for every wall time.
* Every entry finds the clock read as often as there are wall times before it.
* If its directives take one slot at most, the number of its slots is known without the
  arguments. It is put into the reserved room, fills it exactly and stays inside the block.
* A format without directives is its header and its end.
* A format that no block can hold is recorded slot by slot from the buffer as it was. -/
theorem log_as_slot_by_slot (b : Buffer) (clock : Clock) (origin : Origin) (level : Level)
    (f : Format) (args : Arguments) :
    let m : Message := ⟨clock, origin, level, f, args⟩
    let logged := b.log clock origin level f args
    let plain := b.appendMessage clock origin level f args
    (logged.1.slots = plain.1.slots ∧ plain.1.slots = b.slots ++ m.slots) ∧
    (logged.2 = plain.2 ∧ plain.2 = clock.skip (f.entries.countP Entry.isWallTime)) ∧
    (∀ before e after, f.entries = before ++ e :: after →
      m.slots = .format f :: .level level :: (m.body clock before).1
        ++ (e.directive.slots (clock.skip (before.countP Entry.isWallTime)) origin f args).1
        ++ (m.body (clock.skip ((before ++ [e]).countP Entry.isWallTime)) after).1
        ++ [.finish]) ∧
    (f.isSingleSlot = true →
      m.slots.length = 3 + f.entries.countP fun e => !e.directive.isLiteral) ∧
    (f.isSingleSlot = true → slotCount f ≤ Block.capacity → ∃ room,
      b.reserve? (slotCount f) = some room ∧
      logged = room.pushMessage clock origin level f args ∧
      logged.1.earlier = room.earlier ∧
      logged.1.tail.slots.toList = room.tail.slots.toList ++ m.slots ∧
      logged.1.tail.slots.size ≤ Block.capacity) ∧
    (f.entries = [] →
      logged = ((((b.withRoom 3).push (.format f)).push (.level level)).push .finish, clock)) ∧
    (Block.capacity < slotCount f → logged = plain) := by
  intro m logged plain
  obtain ⟨hslots, hclock⟩ := slots_log b m
  obtain ⟨hslots', hclock'⟩ := slots_appendMessage b m
  refine ⟨⟨hslots.trans hslots'.symm, hslots'⟩,
    ⟨hclock.trans hclock'.symm, hclock'.trans (m.clock_body clock f.entries)⟩,
    fun before e after => m.slots_split, m.length_slots, ?_,
    b.log_of_no_entries clock origin level args, b.log_of_large clock origin level args⟩
  intro hsingle hfits
  obtain ⟨hroom, hlogged⟩ := b.log_of_fits clock origin level args hsingle hfits
  obtain ⟨htail, hsize⟩ := tail_pushMessage m hsingle hroom
  rw [← hlogged] at htail
  refine ⟨_, hroom, hlogged, ?_, htail, ?_⟩
  · exact (congrArg (fun p => p.1.earlier) hlogged).trans (earlier_pushMessage _ _ _ _ _ _)
  · rw [← Array.length_toList, htail, List.length_append, m.length_slots hsingle,
      Array.length_toList]
    exact hsize

end Buffer

end Logbook
