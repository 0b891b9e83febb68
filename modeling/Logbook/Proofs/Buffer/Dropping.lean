/-
Keeping by a level, whatever the slots are.

Of messages it is said elsewhere which are kept. Here the slots are any: headers without a level,
messages without an end, ends without a message. What is left to go by is the one bit of the scan,
whether it is dropping, and how a slot changes it (`Level.dropsBehind`). A narrower level drops
wherever a wider one does, slot by slot, and so it keeps a part of what that keeps. And what is
kept has no header that would be dropped.

Dropping goes on to the next end, and it does not matter which message the end belongs to. When a
message that is dropped was never ended, the scan therefore takes the end of the next message for
its end, header and all (`copies_unless_swallowed`). An emitter starts anew at that header.
-/
import Logbook.Proofs.Emission.Recovery

set_option autoImplicit false

namespace Logbook

/-! ## The scan, slot by slot -/

namespace Level

/-- **Whether the scan is dropping behind a slot**, by whether it was before, and by the slot that
comes next. -/
def dropsBehind (threshold : Level) (dropping : Bool) (x : Slot) (next : Option Slot) : Bool :=
  match x with
  | .finish => false
  | .format _ => dropping || !threshold.admits next
  | _ => dropping

/-- Only the end of a message takes the scan out of dropping, and that slot is still dropped. -/
theorem retained_cons (threshold : Level) (dropping : Bool) (x : Slot) (rest : List Slot) :
    retained threshold dropping (x :: rest)
      = (if dropping || threshold.dropsBehind dropping x rest.head? then [] else [x])
        ++ retained threshold (threshold.dropsBehind dropping x rest.head?) rest := by
  cases dropping with
  | true => cases x <;> simp [retained, dropsBehind]
  | false =>
    cases x with
    | format f =>
      cases hadmits : threshold.admits rest.head? <;> simp [retained, dropsBehind, hadmits]
    | _ => simp [retained, dropsBehind]

/-- A level that is admitted is admitted by a wider threshold. -/
theorem admits_mono {narrow wide : Level} (h : narrow.passes wide = true) {next : Option Slot}
    (hnext : narrow.admits next = true) : wide.admits next = true := by
  unfold admits at hnext ⊢
  split at hnext
  · exact passes_trans hnext h
  · simp at hnext

/-- **Where a wider threshold drops, a narrower one does**, if it did so before the slot. -/
theorem dropsBehind_mono {narrow wide : Level} (h : narrow.passes wide = true) {d d' : Bool}
    (hd : d = true → d' = true) (x : Slot) (next : Option Slot)
    (hwide : wide.dropsBehind d x next = true) : narrow.dropsBehind d' x next = true := by
  cases x with
  | finish => exact hwide
  | format f =>
    rw [dropsBehind, Bool.or_eq_true, Bool.not_eq_true'] at hwide ⊢
    refine hwide.imp hd fun hrefused => ?_
    by_contra hadmits
    rw [admits_mono h (by simpa using hadmits)] at hrefused
    simp at hrefused
  | _ => exact hd hwide

/-! ## What is kept of any slots -/

theorem retained_sublist (threshold : Level) (dropping : Bool) (xs : List Slot) :
    (retained threshold dropping xs).Sublist xs := by
  induction xs generalizing dropping with
  | nil => simp [retained]
  | cons x rest ih =>
    rw [retained_cons]
    split
    · exact (ih _).cons x
    · exact (ih _).cons_cons x

/-- **A narrower threshold keeps a part.** Both scans go over the same slots, and the one that drops
less is never dropping where the other is not. -/
theorem retained_mono {narrow wide : Level} (h : narrow.passes wide = true) {d d' : Bool}
    (hd : d = true → d' = true) (xs : List Slot) :
    (retained narrow d' xs).Sublist (retained wide d xs) := by
  induction xs generalizing d d' with
  | nil => simp [retained]
  | cons x rest ih =>
    have hbehind := dropsBehind_mono h hd x rest.head?
    have hrest := ih hbehind
    rw [retained_cons, retained_cons]
    split
    · exact hrest.trans (List.sublist_append_right _ _)
    · rename_i hkept
      rw [Bool.or_eq_true, not_or] at hkept
      have hwide : ¬ (d || wide.dropsBehind d x rest.head?) = true := by
        rw [Bool.or_eq_true, not_or]
        exact ⟨fun hdrops => hkept.1 (hd hdrops), fun hdrops => hkept.2 (hbehind hdrops)⟩
      rw [if_neg hwide]
      exact hrest.cons_cons x

/-- The level behind a header that is kept is kept, and comes first. -/
theorem head?_retained {threshold : Level} {xs : List Slot}
    (h : threshold.admits xs.head? = true) :
    (retained threshold false xs).head? = xs.head? := by
  cases xs with
  | nil => rfl
  | cons x rest => cases x <;> simp_all [retained, admits]

/-- **What is kept is kept again**: no header is left in it that would be dropped. -/
theorem retained_retained (threshold : Level) (dropping : Bool) (xs : List Slot) :
    retained threshold false (retained threshold dropping xs)
      = retained threshold dropping xs := by
  induction xs generalizing dropping with
  | nil => simp [retained]
  | cons x rest ih =>
    rw [retained_cons]
    split
    · exact ih _
    · rename_i hkept
      obtain ⟨hbefore, hbehind⟩ : dropping = false ∧
          threshold.dropsBehind dropping x rest.head? = false := by simpa using hkept
      rw [hbehind, List.singleton_append, retained_cons]
      have hsame : threshold.dropsBehind false x (retained threshold false rest).head? = false := by
        cases x with
        | format f =>
          have hadmits : threshold.admits rest.head? = true := by
            simpa [dropsBehind, hbefore] using hbehind
          rw [dropsBehind, head?_retained hadmits, hadmits]
          rfl
        | _ => rfl
      rw [hsame, ih]
      rfl

/-! ## Where the scan is left dropping -/

/-- Whether the scan is dropping behind some slots. -/
def leavesDropping (threshold : Level) : (dropping : Bool) → List Slot → Bool
  | dropping, [] => dropping
  | dropping, x :: rest => threshold.leavesDropping (threshold.dropsBehind dropping x rest.head?) rest

/-- **Slots that end inside of a dropped message**: there is a header that no passing level follows,
and no end of a message behind it. -/
def EndsDropped (threshold : Level) (xs : List Slot) : Prop :=
  ∃ before f behind, xs = before ++ .format f :: behind ∧
    threshold.admits behind.head? = false ∧ .finish ∉ behind

theorem endsDropped_nil (threshold : Level) : ¬ threshold.EndsDropped [] := by
  rintro ⟨before, f, behind, hxs, -⟩
  simp at hxs

/-- The header is the first slot, or it is among the others. -/
theorem endsDropped_cons (threshold : Level) (x : Slot) (rest : List Slot) :
    threshold.EndsDropped (x :: rest)
      ↔ ((∃ f, x = .format f) ∧ threshold.admits rest.head? = false ∧ .finish ∉ rest)
        ∨ threshold.EndsDropped rest := by
  constructor
  · rintro ⟨before, f, behind, hxs, hrefused, hopen⟩
    cases before with
    | nil =>
      obtain ⟨rfl, rfl⟩ := List.cons.inj hxs
      exact .inl ⟨⟨f, rfl⟩, hrefused, hopen⟩
    | cons y before =>
      obtain ⟨rfl, rfl⟩ := List.cons.inj hxs
      exact .inr ⟨before, f, behind, rfl, hrefused, hopen⟩
  · rintro (⟨⟨f, rfl⟩, hrefused, hopen⟩ | ⟨before, f, behind, rfl, hrefused, hopen⟩)
    · exact ⟨[], f, rest, rfl, hrefused, hopen⟩
    · exact ⟨x :: before, f, behind, rfl, hrefused, hopen⟩

/-- **The scan is left dropping** by slots that end inside of a dropped message, and by slots without
an end if it was dropping before. -/
theorem leavesDropping_iff (threshold : Level) (dropping : Bool) (xs : List Slot) :
    threshold.leavesDropping dropping xs = true
      ↔ (dropping = true ∧ .finish ∉ xs) ∨ threshold.EndsDropped xs := by
  induction xs generalizing dropping with
  | nil => simp [leavesDropping, endsDropped_nil]
  | cons x rest ih =>
    rw [leavesDropping, ih, endsDropped_cons]
    cases x with
    -- a header that is refused changes nothing if the scan was dropping already
    | format f => by_cases hopen : .finish ∈ rest <;> cases dropping <;> simp [dropsBehind, hopen]
    | finish => simp [dropsBehind]
    | _ => simp [dropsBehind]

instance (threshold : Level) (xs : List Slot) : Decidable (threshold.EndsDropped xs) :=
  decidable_of_iff (threshold.leavesDropping false xs = true)
    ((threshold.leavesDropping_iff false xs).trans (by simp))

/-- **A scan that goes on** behind some slots is at whatever these have left it, unless a level
comes first, which the header before it looks at. -/
theorem retained_append {threshold : Level} {ys : List Slot}
    (hys : threshold.admits ys.head? = false) (dropping : Bool) (xs : List Slot) :
    retained threshold dropping (xs ++ ys)
      = retained threshold dropping xs
        ++ retained threshold (threshold.leavesDropping dropping xs) ys := by
  induction xs generalizing dropping with
  | nil => cases dropping <;> simp [retained, leavesDropping]
  | cons x rest ih =>
    -- at the last slot before `ys` nothing is admitted, be there a next slot or not
    have hnext : threshold.dropsBehind dropping x (rest ++ ys).head?
        = threshold.dropsBehind dropping x rest.head? := by
      cases rest with
      | nil =>
        cases x with
        | format f => rw [List.nil_append, dropsBehind, dropsBehind, hys]; rfl
        | _ => rfl
      | cons y rest => rfl
    rw [List.cons_append, retained_cons, retained_cons, hnext, ih, leavesDropping,
      List.append_assoc]

/-- **A message among any slots** is kept whole if it passes and the slots before it do not end
inside of a dropped one. Otherwise it is dropped whole. The slots behind it are kept as if they
were all there is. -/
theorem retained_around (threshold : Level) (before : List Slot) (m : Message)
    (behind : List Slot) :
    retained threshold false (before ++ m.slots ++ behind)
      = retained threshold false before
        ++ (if m.level.passes threshold = true ∧ ¬ threshold.EndsDropped before then m.slots else [])
        ++ retained threshold false behind := by
  have hhead : threshold.admits (m.slots ++ behind).head? = false := rfl
  have hinner : ∀ x ∈ (m.body m.clock m.format.entries).1, x.isInner = true :=
    fun x hx => Message.isInner_of_mem_body hx
  have hleft : threshold.leavesDropping false before = true ↔ threshold.EndsDropped before :=
    (threshold.leavesDropping_iff false before).trans (by simp)
  have hslots : m.slots ++ behind = .format m.format :: .level m.level
      :: ((m.body m.clock m.format.entries).1 ++ .finish :: behind) := by
    simp [Message.slots, Message.start]
  rw [List.append_assoc, retained_append hhead, List.append_assoc, hslots]
  congr 1
  by_cases hends : threshold.EndsDropped before
  · rw [hleft.mpr hends, if_neg (fun h => h.2 hends), retained, retained,
      retained_of_inner threshold true hinner, if_pos rfl]
    · simp
    · simp
  · have hrest : threshold.leavesDropping false before = false := by simpa [hends] using hleft
    rw [hrest]
    by_cases hpasses : m.level.passes threshold = true
    · rw [if_pos ⟨hpasses, hends⟩]
      simp only [retained, List.head?_cons, admits, hpasses, if_true]
      rw [retained_of_inner threshold false hinner]
      simp [Message.slots, Message.start]
    · rw [if_neg (fun h => hpasses h.1)]
      simp only [retained, List.head?_cons, admits, hpasses]
      rw [if_neg (by simp), retained_of_inner threshold true hinner]
      simp

end Level

/-! ## Copies of any buffer -/

namespace Buffer

theorem slots_copyRetained_any (b : Buffer) (threshold : Level) (target : Buffer) :
    (b.copyRetained threshold target).slots
      = target.slots ++ retained threshold false b.slots := by
  rw [copyRetained, slots_appendAll]

/-- **Keeping is monotone in the level, and to keep twice is to keep once.** Take any buffer,
whatever its slots are, and two levels of which one is contained in the other.

* What the narrower one keeps is a part of what the wider one keeps, in its order.
* What any level keeps is a part of the slots of the buffer, in their order.
* It is appended to what the target held before, and does not depend on that.
* Of a buffer that holds just what a level has kept, that level keeps all, as it is. -/
theorem keeps_monotonely {narrow wide : Level} (h : narrow.passes wide = true) (b : Buffer) :
    let kept := fun threshold => (b.copyRetained threshold .empty).slots
    (kept narrow).Sublist (kept wide) ∧
    (∀ threshold, (kept threshold).Sublist b.slots) ∧
    (∀ threshold target, (b.copyRetained threshold target).slots
      = target.slots ++ kept threshold) ∧
    ∀ threshold (again : Buffer), again.slots = kept threshold →
      (again.copyRetained threshold .empty).slots = again.slots := by
  intro kept
  have hkept : ∀ threshold, kept threshold = retained threshold false b.slots := by
    intro threshold
    rw [← List.nil_append (retained threshold false b.slots), ← slots_empty]
    exact b.slots_copyRetained_any threshold .empty
  refine ⟨?_, fun threshold => ?_, fun threshold target => ?_, fun threshold again hagain => ?_⟩
  · rw [hkept, hkept]
    exact Level.retained_mono h id b.slots
  · rw [hkept]
    exact Level.retained_sublist threshold false b.slots
  · rw [hkept, slots_copyRetained_any]
  · rw [slots_copyRetained_any, slots_empty, List.nil_append, hagain, hkept,
      Level.retained_retained]

/-- A header with a level and no end, a message, and a value behind it. -/
def unended : Buffer :=
  let m := Session.greeting
  ((Buffer.empty.appendAll [.format m.format, .level .debug]).log m.clock m.origin m.level m.format
    m.args).1.append (.scalar .null)

/-- The wider level keeps all slots, and the narrower one drops the message with the header. -/
theorem keeps_monotonely_of_unended :
    let kept := fun threshold => (unended.copyRetained threshold .empty).slots
    Level.passes .info .debug = true ∧ kept .info = [.scalar .null] ∧
      kept .debug = unended.slots ∧ (kept .info).Sublist (kept .debug) := by
  intro kept
  have hpasses : Level.passes .info .debug = true := by decide
  obtain ⟨hpart, -⟩ := keeps_monotonely hpasses unended
  exact ⟨hpasses, by decide +kernel, by decide +kernel, hpart⟩

/-- **A message is copied whole, unless its end is taken for that of a dropped one.** Let a buffer
hold the slots of another, whatever these are, the slots of a message, and any slots behind them.

* What is copied is what is copied of the slots before the message, the message, and what is copied
  of the slots behind it. The message is there, whole, exactly if its level passes and the slots
  before it do not end inside of a dropped message.
* An emitter prints the message in either case, since to it a message that was never ended
  ends where the next one starts. -/
theorem copies_unless_swallowed {b before behind : Buffer} {m : Message}
    (hb : b.slots = before.slots ++ m.slots ++ behind.slots) (threshold : Level)
    (target : Buffer) (style : Style) :
    (b.copyRetained threshold target).slots
        = (before.copyRetained threshold target).slots
          ++ (if m.level.passes threshold = true ∧ ¬ threshold.EndsDropped before.slots then m.slots
              else [])
          ++ (behind.copyRetained threshold .empty).slots ∧
      b.rendered style = before.rendered style ++ m.print style ++ behind.rendered style := by
  refine ⟨?_, ?_⟩
  · rw [slots_copyRetained_any, slots_copyRetained_any, slots_copyRetained_any, slots_empty,
      List.nil_append, hb, Level.retained_around]
    simp only [List.append_assoc]
  · rw [rendered_eq_steps, hb, Frame.text_steps_around, ← rendered_eq_steps, ← rendered_eq_steps]

/-- A message that is kept and was never ended does no harm to the next one. -/
theorem copies_behind_kept_header :
    let m := Session.greeting
    let before := Buffer.empty.appendAll [.closing .record, .format m.format, .level .error]
    let b := (before.log m.clock m.origin m.level m.format m.args).1
    b.slots = before.slots ++ m.slots ++ Buffer.empty.slots ∧
      (b.copyRetained .info .empty).slots = b.slots := by
  intro m before b
  have hb : b.slots = before.slots ++ m.slots ++ Buffer.empty.slots := by
    rw [(slots_log before m).1, slots_empty, List.append_nil]
  obtain ⟨hcopied, -⟩ := copies_unless_swallowed hb .info .empty .bare
  have hkept : m.level.passes .info = true ∧ ¬ Level.EndsDropped .info before.slots := by
    decide +kernel
  have hbefore : (before.copyRetained .info .empty).slots = before.slots := by decide +kernel
  have hnone : (Buffer.empty.copyRetained .info .empty).slots = Buffer.empty.slots := by
    decide +kernel
  rw [if_pos hkept, hbefore, hnone] at hcopied
  exact ⟨hb, hcopied.trans hb.symm⟩

/-- **A message that passes can be dropped**, with a message before it that does not pass and was
never ended. The emitter prints both. -/
theorem swallows_message_that_passes :
    let unfinished := Feed.note "first" "one".toList rfl
    let m := Feed.note "second" "two".toList rfl
    let b := ((Buffer.empty.appendAll [.format unfinished.format, .level .debug]).log
      m.clock m.origin m.level m.format m.args).1
    b.slots = [.format unfinished.format, .level .debug] ++ m.slots ∧
      m.level.passes .info = true ∧ ¬ m.slots <:+: (b.copyRetained .info .empty).slots ∧
      (b.copyRetained .info .empty).slots = [] ∧ b.rendered .bare = "onetwo\n" := by
  decide +kernel

end Buffer

end Logbook
