/-
Keeping messages by their level, as lists of messages.

The scan that keeps slots knows of no messages. It has one bit, whether it is dropping, and
looks one slot ahead. It does right by messages because what stands between the level of a
message and its end is neither a format nor an end, however deep the values go that are
printed there. So the scan is at rest between any two messages, and what it keeps are the
messages that pass, each of them whole.

It goes over the slots of a buffer, and those are the same wherever its blocks end. A
buffer that was filled by any acts, reservations and clearings among them, therefore
answers to the list of its messages, and keeping by two levels one after the other is
filtering that list twice.
-/
import Logbook.Buffer.Retained
import Logbook.Proofs.Buffer.Slots

set_option autoImplicit false

namespace Logbook

/-! ## Levels -/

namespace Level

theorem passes_refl (l : Level) : l.passes l = true := by
  rw [passes, Nat.and_self, beq_self_eq_true]

/-- Passing is inclusion of masks. -/
theorem passes_trans {a b c : Level} (hab : a.passes b = true) (hbc : b.passes c = true) :
    a.passes c = true := by
  rw [passes, beq_iff_eq] at hab hbc ⊢
  rw [← hab, Nat.and_assoc, hbc]

theorem passes_union_right (a b : Level) : b.passes (a.union b) = true := by
  unfold union
  split
  · assumption
  · exact passes_refl b

theorem passes_total (a b : Level) : a.passes b = true ∨ b.passes a = true := by
  cases a <;> cases b <;> decide

theorem passes_all (l : Level) : l.passes .all = true := by
  cases l <;> decide

/-- Of two levels the one that lets less through, where `union` is the other. -/
def narrower (a b : Level) : Level :=
  if b.passes a then b else a

/-- To pass the narrower of two levels is to pass both of them. -/
theorem passes_narrower (l a b : Level) :
    l.passes (a.narrower b) = (l.passes a && l.passes b) := by
  rw [Bool.eq_iff_iff, Bool.and_eq_true]
  unfold narrower
  split
  · rename_i hba
    exact ⟨fun hl => ⟨passes_trans hl hba, hl⟩, And.right⟩
  · rename_i hba
    have hab := (passes_total a b).resolve_right hba
    exact ⟨fun hl => ⟨hl, passes_trans hl hab⟩, And.left⟩

end Level

/-! ## Between the level of a message and its end -/

/-- Whether a slot belongs to what is between the level of a message and its end. -/
def Slot.isInner : Slot → Bool
  | .format _ | .level _ | .finish => false
  | .opening _ | .closing _ | .name _ | .scalar _ | .marker _ => true

theorem Heap.isInner_of_mem_slots {h : Heap} {bounds : Bounds} {depth : Nat} {path : List Ref}
    {v : Value} {s : Slot} (hs : s ∈ h.slots bounds depth path v) : s.isInner = true := by
  induction depth generalizing path v with
  | zero =>
    rcases v with x | _ | r
    · simp only [Heap.slots, List.mem_singleton] at hs
      rw [hs, Slot.isInner]
    · simp only [Heap.slots, List.mem_singleton] at hs
      rw [hs, Slot.isInner]
    · by_cases hr : r ∈ path <;>
        (simp only [Heap.slots, hr, if_true, if_false, List.mem_singleton] at hs
         rw [hs, Slot.isInner])
  | succ depth ih =>
    rcases v with x | _ | r
    · simp only [Heap.slots, List.mem_singleton] at hs
      rw [hs, Slot.isInner]
    · simp only [Heap.slots, List.mem_singleton] at hs
      rw [hs, Slot.isInner]
    · rw [Heap.slots] at hs
      split at hs
      · rw [List.mem_singleton.mp hs, Slot.isInner]
      · simp only [List.cons_append, List.mem_cons, List.mem_append, List.mem_flatMap,
          List.not_mem_nil, or_false] at hs
        rcases hs with rfl | ((⟨c, -, hc | hc⟩ | hcut) | rfl)
        · rfl
        · cases hname : c.name with
          | none => simp [Child.label, hname] at hc
          | some name =>
            rw [Child.label, hname, List.mem_singleton] at hc
            rw [hc, Slot.isInner]
        · exact ih hc
        · split at hcut
          · rw [List.mem_singleton.mp hcut, Slot.isInner]
          · simp at hcut
        · rfl

namespace Message

theorem isInner_of_mem_body {m : Message} {clock : Clock} {es : List Entry} {s : Slot}
    (hs : s ∈ (m.body clock es).1) : s.isInner = true := by
  induction es generalizing clock with
  | nil => simp [body] at hs
  | cons e rest ih =>
    rw [body] at hs
    rcases List.mem_append.mp hs with hfirst | hothers
    · cases hd : e.directive with
      | literal c => simp [hd, Directive.slots, Directive.slot?] at hfirst
      | expando x =>
        rw [hd] at hfirst
        cases x <;>
          (simp only [Directive.slots, Directive.slot?, Option.toList, List.mem_singleton] at hfirst
           rw [hfirst, Slot.isInner])
      | scalar kind i =>
        simp only [hd, Directive.slots, Directive.slot?, Option.toList, List.mem_singleton] at hfirst
        rw [hfirst]
        unfold ScalarKind.slot
        split
        · split <;> rfl
        · rfl
      | general i =>
        simp only [hd, Directive.slots] at hfirst
        split at hfirst
        · exact Heap.isInner_of_mem_slots hfirst
        · rw [List.mem_singleton.mp hfirst, Slot.isInner]
      | compound shape i bounds =>
        simp only [hd, Directive.slots] at hfirst
        split at hfirst
        · split at hfirst
          · exact Heap.isInner_of_mem_slots hfirst
          · rw [List.mem_singleton.mp hfirst, Slot.isInner]
        · rw [List.mem_singleton.mp hfirst, Slot.isInner]
    · exact ih hothers

end Message

/-! ## Whole messages -/

/-- Inner slots are kept, or dropped, as the message is that they stand in. -/
theorem retained_of_inner (threshold : Level) (dropping : Bool) {xs : List Slot}
    (hxs : ∀ x ∈ xs, x.isInner = true) (rest : List Slot) :
    retained threshold dropping (xs ++ .finish :: rest)
      = (if dropping then [] else xs ++ [.finish]) ++ retained threshold false rest := by
  induction xs with
  | nil => cases dropping <;> simp [retained]
  | cons x xs ih =>
    have hx := hxs x List.mem_cons_self
    have hrest := ih fun y hy => hxs y (List.mem_cons_of_mem _ hy)
    cases x <;> cases dropping <;> simp_all [retained, Slot.isInner]

/-- **Whole messages are kept by their level**, in their order. -/
theorem retained_messages (threshold : Level) (ms : List Message) :
    retained threshold false (ms.flatMap Message.slots)
      = (ms.filter (·.level.passes threshold)).flatMap Message.slots := by
  induction ms with
  | nil => rfl
  | cons m ms ih =>
    have hinner : ∀ x ∈ (m.body m.clock m.format.entries).1, x.isInner = true :=
      fun x hx => Message.isInner_of_mem_body hx
    rw [List.flatMap_cons, List.filter_cons]
    by_cases hpasses : m.level.passes threshold = true
    -- the level is looked at with the format, before the slots that it decides about
    · rw [if_pos hpasses, List.flatMap_cons, ← ih]
      have hbody := retained_of_inner threshold false hinner (ms.flatMap Message.slots)
      simp only [Message.slots, Message.start, List.cons_append, List.append_assoc,
        List.nil_append, retained, List.head?_cons, Level.admits, hpasses, if_true]
      rw [hbody]
      simp
    · rw [if_neg hpasses, ← ih]
      have hbody := retained_of_inner threshold true hinner (ms.flatMap Message.slots)
      simp only [Message.slots, Message.start, List.cons_append, List.append_assoc,
        List.nil_append, retained, List.head?_cons, Level.admits, hpasses]
      rw [if_neg (by simp), hbody]
      simp

namespace Buffer

/-- **What passes is appended to the target**, whatever that holds. -/
theorem slots_copyRetained {b : Buffer} {ms : List Message}
    (hb : b.slots = ms.flatMap Message.slots) (threshold : Level) (target : Buffer) :
    (b.copyRetained threshold target).slots
      = target.slots ++ (ms.filter (·.level.passes threshold)).flatMap Message.slots := by
  rw [copyRetained, slots_appendAll, hb, retained_messages]

/-- Keeping by two levels is keeping by the narrower one, if nothing was in between. -/
theorem slots_copyRetained_twice {b middle : Buffer} {ms : List Message}
    (hb : b.slots = ms.flatMap Message.slots) (hmiddle : middle.slots = []) (first second : Level)
    (target : Buffer) :
    ((b.copyRetained first middle).copyRetained second target).slots
      = (b.copyRetained (first.narrower second) target).slots := by
  have hfirst : (b.copyRetained first middle).slots
      = (ms.filter (·.level.passes first)).flatMap Message.slots := by
    rw [slots_copyRetained hb, hmiddle, List.nil_append]
  have hpassing : (ms.filter (·.level.passes first)).filter (·.level.passes second)
      = ms.filter (·.level.passes (first.narrower second)) := by
    rw [List.filter_filter]
    refine List.filter_congr fun m _ => ?_
    rw [Level.passes_narrower, Bool.and_comm]
  rw [slots_copyRetained hfirst, slots_copyRetained hb, hpassing]

/-! ## Buffers that were filled by acts -/

/-- What is done to a buffer that records. -/
inductive Act where
  | log (m : Message)
  /-- Room for some slots is asked for, without anything to put there. -/
  | reserve (n : Nat)
  | clear

/-- Room that no block can have is refused, and the buffer stays as it is. -/
def act (b : Buffer) : Act → Buffer
  | .log m => (b.log m.clock m.origin m.level m.format m.args).1
  | .reserve n => (b.reserve? n).getD b
  | .clear => b.clear

/-- The messages that are recorded after an act. -/
def Act.recorded (ms : List Message) : Act → List Message
  | .log m => ms ++ [m]
  | .reserve _ => ms
  | .clear => []

theorem slots_act {b : Buffer} {ms : List Message} (hb : b.slots = ms.flatMap Message.slots)
    (a : Act) : (b.act a).slots = (a.recorded ms).flatMap Message.slots := by
  cases a with
  | log m =>
    rw [act, (slots_log b m).1, hb, Act.recorded, List.flatMap_append, List.flatMap_singleton]
  | reserve n =>
    rw [act, Act.recorded, ← hb]
    cases hroom : b.reserve? n with
    | none => rfl
    | some room => exact slots_of_reserve? hroom
  | clear => rw [act, slots_clear, Act.recorded, List.flatMap_nil]

/-- **Acts leave the slots of the messages that are recorded**, and nothing in between. -/
theorem slots_acts {b : Buffer} {ms : List Message} (hb : b.slots = ms.flatMap Message.slots)
    (acts : List Act) :
    (acts.foldl act b).slots = (acts.foldl Act.recorded ms).flatMap Message.slots := by
  induction acts generalizing b ms with
  | nil => exact hb
  | cons a acts ih => exact ih (slots_act hb a)

/-- **A level keeps the messages that pass it, whole and in order.** Take any buffer that was
filled by acts, and any other buffer, whatever is in it.

* Copying changes the other buffer alone: the slots of the messages that pass are appended to
  it, one run after the other. The run of a message is what logging it appends.
* Moving does the same, and the first buffer is empty after it.
* To keep by one level, in a buffer without slots, and then by another is to keep by the
  narrower of them. -/
theorem keeps_passing_messages (acts : List Act) (pending : Buffer)
    (threshold first second : Level) :
    let hot := acts.foldl act .empty
    let ms := acts.foldl Act.recorded []
    (∀ (b : Buffer) (m : Message), (b.act (.log m)).slots = b.slots ++ m.slots) ∧
    (hot.copyRetained threshold pending).slots
      = pending.slots ++ (ms.filter (·.level.passes threshold)).flatMap Message.slots ∧
    ((hot.moveRetained threshold pending).2.slots
        = pending.slots ++ (ms.filter (·.level.passes threshold)).flatMap Message.slots ∧
      (hot.moveRetained threshold pending).1.isEmpty = true) ∧
    ∀ middle : Buffer, middle.slots = [] →
      ((hot.copyRetained first middle).copyRetained second pending).slots
        = (hot.copyRetained (first.narrower second) pending).slots := by
  intro hot ms
  have hhot : hot.slots = ms.flatMap Message.slots := slots_acts slots_empty acts
  have hcopy := slots_copyRetained hhot threshold pending
  exact ⟨fun b m => (slots_log b m).1, hcopy,
    ⟨hcopy, (isEmpty_iff_slots _).mpr (slots_clear hot)⟩,
    fun middle hmiddle => slots_copyRetained_twice hhot hmiddle first second pending⟩

end Buffer

end Logbook
