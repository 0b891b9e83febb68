/-
How far a message reaches into its arguments.

A format knows the largest position that a directive of it asks for. What is recorded is
determined by the arguments up to that position: where two lists of arguments agree so far, the
messages are the same, slot by slot and block by block, in whichever way they are recorded. And
the position is not larger than it has to be. A list that does not have it lacks an argument that
is asked for, and a marker shows that; a list that has it lacks none.

Arguments that agree need not be the same nodes. Of a node only what stands in it is seen, and
whether it is one that the walk is inside of, so it is enough that the nodes of one list are
paired with those of the other, one with one and child by child (`Heap.Corresponds`).
-/
import Mathlib.Data.List.Forall2
import Logbook.Proofs.Buffer.Expansion
import Logbook.Proofs.Buffer.Blocks

set_option autoImplicit false

namespace Logbook

/-! ## Arguments that agree -/

/-- **Values that correspond**: what has no children is the same, and nodes are paired. -/
inductive Value.Corresponds (same : Ref → Ref → Prop) : Value → Value → Prop where
  | scalar (s : Scalar) : Corresponds same (.scalar s) (.scalar s)
  | foreign : Corresponds same .foreign .foreign
  | node {r r' : Ref} (h : same r r') : Corresponds same (.node r) (.node r')

def Child.Corresponds (same : Ref → Ref → Prop) (c c' : Child) : Prop :=
  c.name = c'.name ∧ c.value.Corresponds same c'.value

/-- **Nodes of two heaps that are paired** have the same shape and children that correspond, and
none is paired with two. -/
structure Heap.Corresponds (same : Ref → Ref → Prop) (h h' : Heap) : Prop where
  shape : ∀ {r r' : Ref}, same r r' → r.shape = r'.shape
  one : Relator.BiUnique same
  children : ∀ {r r' : Ref}, same r r' →
    List.Forall₂ (Child.Corresponds same) (h.children r) (h'.children r')

namespace Arguments

/-- **Two lists of arguments agree at their first positions**: at each of them both have an
argument or both have none, and the arguments correspond. -/
def Agree (n : Nat) (args args' : Arguments) : Prop :=
  ∃ same : Ref → Ref → Prop, Heap.Corresponds same args.heap args'.heap ∧
    ∀ i < n, Option.Rel (Value.Corresponds same) args.values[i]? args'.values[i]?

/-- Any two lists agree at none of their positions. -/
theorem agree_zero (args args' : Arguments) : args.Agree 0 args' :=
  ⟨fun _ _ => False, ⟨False.elim, ⟨fun _ _ _ => False.elim, fun _ _ _ => False.elim⟩, False.elim⟩,
    fun i hi => absurd hi i.not_lt_zero⟩

/-- Lists with the same first arguments agree at them. -/
theorem agree_of_take_eq (heap : Heap) {n : Nat} {vs ws : List Value} (h : vs.take n = ws.take n) :
    Agree n ⟨heap, vs⟩ ⟨heap, ws⟩ := by
  have hrefl : ∀ v : Value, v.Corresponds Eq v := by
    intro v
    cases v with
    | scalar s => exact .scalar s
    | foreign => exact .foreign
    | node r => exact .node rfl
  have hone : Relator.BiUnique (Eq : Ref → Ref → Prop) :=
    ⟨fun _ _ _ h h' => h.trans h'.symm, fun _ _ _ h h' => h.symm.trans h'⟩
  refine ⟨Eq, ⟨fun h => congrArg Ref.shape h, hone, ?_⟩, fun i hi => ?_⟩
  · rintro r _ rfl
    exact List.forall₂_same.mpr fun c _ => ⟨rfl, hrefl c.value⟩
  · have hget : vs[i]? = ws[i]? := by
      rw [← List.getElem?_take_of_lt hi, h, List.getElem?_take_of_lt hi]
    show Option.Rel _ vs[i]? ws[i]?
    rw [hget]
    cases ws[i]? with
    | none => exact .none
    | some v => exact .some (hrefl v)

end Arguments

/-! ## Values that correspond are shown alike -/

namespace Heap.Corresponds

variable {same : Ref → Ref → Prop} {h h' : Heap}

/-- **What is shown of a value does not depend on the nodes**, but on what stands in them and on
which of them are the same. The induction is on the levels, for all paths at once. -/
theorem slots_eq (hheap : Heap.Corresponds same h h') (bounds : Bounds) {depth : Nat}
    {path path' : List Ref} (hpath : List.Forall₂ same path path') {v v' : Value}
    (hv : v.Corresponds same v') :
    h.slots bounds depth path v = h'.slots bounds depth path' v' := by
  induction depth generalizing path path' v v' with
  | zero =>
    cases hv with
    | scalar s => rfl
    | foreign => rfl
    | node hr =>
      have hmem := List.rel_mem hheap.one hr hpath
      simp only [Heap.slots, hheap.shape hr, hmem]
  | succ depth ih =>
    cases hv with
    | scalar s => rfl
    | foreign => rfl
    | @node r r' hr =>
      -- paired nodes are both on the paths or both beside them, since the paths are paired too
      have hpaths := List.rel_mem hheap.one hr hpath
      by_cases hmem : r ∈ path
      · rw [Heap.slots_of_mem hmem, Heap.slots_of_mem (hpaths.mp hmem)]
      · have hmem' : r' ∉ path' := fun h => hmem (hpaths.mpr h)
        have hinside := List.Forall₂.cons hr hpath
        have hchildren := hheap.children hr
        -- children that correspond have the same names, and the same slots by induction
        have hall : ∀ {cs cs' : List Child}, List.Forall₂ (Child.Corresponds same) cs cs' →
            cs.flatMap (h.childSlots bounds depth (r :: path))
              = cs'.flatMap (h'.childSlots bounds depth (r' :: path')) := by
          intro cs cs' hcs
          induction hcs with
          | nil => rfl
          | cons hc _ ihcs =>
            rw [List.flatMap_cons, List.flatMap_cons, ihcs, Heap.childSlots, Heap.childSlots,
              ih hinside hc.2, Child.label, Child.label, hc.1]
        have hshown := hall (List.forall₂_take (bounds.length r'.shape) hchildren)
        rw [Heap.slots_node hmem, Heap.slots_node hmem', Heap.shown, Heap.shown, Heap.isCut,
          Heap.isCut, hheap.shape hr, hshown, hchildren.length_eq]

end Heap.Corresponds

/-! ## A directive reads one position -/

namespace Buffer

/-- An argument is appended slot by slot, from a path without nodes. -/
theorem appendArgument_eq_appendAll (b : Buffer) (h : Heap) (v : Value) (bounds : Bounds) :
    b.appendArgument h v bounds
      = (b.onPath []).appendAll (h.slots bounds bounds.depth [] v) :=
  appendValue_eq h bounds bounds.depth (b.onPath []) v

end Buffer

section Reads

variable {args args' : Arguments} {same : Ref → Ref → Prop}

/-- Arguments that correspond are of one kind. -/
theorem ScalarKind.slot_congr (kind : ScalarKind) {v v' : Option Value}
    (h : Option.Rel (Value.Corresponds same) v v') : kind.slot v = kind.slot v' := by
  cases h with
  | none => rfl
  | some h => cases h <;> rfl

variable (hheap : Heap.Corresponds same args.heap args'.heap) {d : Directive}
  (hread : ∀ i, d.argument? = some i →
    Option.Rel (Value.Corresponds same) args.values[i]? args'.values[i]?)

include hread

theorem Directive.slot?_congr (clock : Clock) (origin : Origin) (f : Format) :
    d.slot? clock origin f args = d.slot? clock origin f args' := by
  cases d with
  | literal c => rfl
  | expando e => cases e <;> rfl
  | scalar kind i =>
    rw [slot?, slot?, kind.slot_congr (hread i rfl)]
  | general i => rfl
  | compound shape i bounds => rfl

theorem Buffer.pushDirective_congr (b : Buffer) (clock : Clock) (origin : Origin) (f : Format) :
    b.pushDirective clock origin f args d = b.pushDirective clock origin f args' d := by
  rw [pushDirective, pushDirective, Directive.slot?_congr hread]

include hheap

/-- **A directive appends the same for arguments that correspond** at the position that it asks
for. -/
theorem Buffer.appendDirective_congr (b : Buffer) (clock : Clock) (origin : Origin) (f : Format) :
    b.appendDirective clock origin f args d = b.appendDirective clock origin f args' d := by
  have hargument : ∀ (bounds : Bounds) {v v' : Value}, v.Corresponds same v' →
      b.appendArgument args.heap v bounds = b.appendArgument args'.heap v' bounds := by
    intro bounds v v' hv
    rw [appendArgument_eq_appendAll, appendArgument_eq_appendAll, hheap.slots_eq bounds .nil hv]
  cases d with
  | literal c => rfl
  | expando e => cases e <;> rfl
  | scalar kind i =>
    simp only [appendDirective, Directive.slot?_congr hread]
  | general i =>
    have hi := hread i rfl
    rw [appendDirective, appendDirective]
    generalize args.values[i]? = v, args'.values[i]? = v' at hi
    cases hi with
    | none => rfl
    | some hv => simp only [hargument Bounds.standard hv]
  | compound shape i bounds =>
    have hi := hread i rfl
    rw [appendDirective, appendDirective]
    generalize args.values[i]? = v, args'.values[i]? = v' at hi
    cases hi with
    | none => rfl
    | some hv =>
      cases hv with
      | scalar s => rfl
      | foreign => rfl
      | node hr => simp only [hargument bounds (.node hr), hheap.shape hr]

end Reads

/-! ## A format reads as far as its largest position -/

namespace Format

variable {f : Format} {m : Nat}

/-- A format that has a largest position asks for it, and for none beyond it. -/
theorem maxArgument_eq_some_iff : f.maxArgument = some m ↔
    (∃ e ∈ f.entries, e.directive.argument? = some m) ∧
      ∀ e ∈ f.entries, ∀ i, e.directive.argument? = some i → i ≤ m := by
  rw [maxArgument, List.max?_eq_some_iff, List.mem_filterMap]
  refine and_congr_right fun _ => ⟨fun h e he i hi => ?_, fun h i hi => ?_⟩
  · exact h i (List.mem_filterMap.mpr ⟨e, he, hi⟩)
  · obtain ⟨e, he, hi⟩ := List.mem_filterMap.mp hi
    exact h e he i hi

theorem maxArgument_eq_none_iff :
    f.maxArgument = none ↔ ∀ e ∈ f.entries, e.directive.argument? = none := by
  rw [maxArgument, List.max?_eq_none_iff, List.filterMap_eq_nil_iff]

end Format

namespace Buffer

/-- **A message is recorded alike for arguments that agree** as far as its format asks. Nothing
that decides on the way it is recorded in is read from the arguments. -/
theorem log_congr {args args' : Arguments} {n : Nat} (hagree : args.Agree n args') {f : Format}
    (hreach : ∀ e ∈ f.entries, ∀ i, e.directive.argument? = some i → i < n) (b : Buffer)
    (clock : Clock) (origin : Origin) (level : Level) :
    b.log clock origin level f args = b.log clock origin level f args' := by
  obtain ⟨same, hheap, hvalues⟩ := hagree
  have hread : ∀ e ∈ f.entries, ∀ i, e.directive.argument? = some i →
      Option.Rel (Value.Corresponds same) args.values[i]? args'.values[i]? :=
    fun e he i hi => hvalues i (hreach e he i hi)
  have happend : ∀ b : Buffer, b.appendMessage clock origin level f args
      = b.appendMessage clock origin level f args' := by
    intro b
    rw [appendMessage, appendMessage]
    rw [List.foldl_ext _ _ _ fun p e he =>
      appendDirective_congr hheap (hread e he) p.1 p.2 origin f]
  have hpush : ∀ b : Buffer, b.pushMessage clock origin level f args
      = b.pushMessage clock origin level f args' := by
    intro b
    rw [pushMessage, pushMessage]
    rw [List.foldl_ext _ _ _ fun p e he => pushDirective_congr (hread e he) p.1 p.2 origin f]
  rw [log, log, happend b]
  cases b.reserve? (slotCount f) with
  | none => rfl
  | some room => simp only [hpush room]

end Buffer

/-! ## Markers for arguments -/

namespace Directive

/-- **The argument that a directive asks for is missing.** -/
def isMissing (args : Arguments) (d : Directive) : Bool :=
  d.argument?.any fun i => args.values[i]?.isNone

/-- **The argument that a directive asks for is there**, and is not of the kind that it has to
be. -/
def isMisfit (args : Arguments) : Directive → Bool
  | .scalar kind i => args.values[i]?.any fun
    | .scalar s => !kind.fits s
    | .foreign | .node _ => true
  | .compound shape i _ => args.values[i]?.any fun
    | .node r => r.shape ≠ shape
    | .scalar _ | .foreign => true
  | .literal _ | .expando _ | .general _ => false

/-- **What a group shows of the argument**: one marker in the place of an argument that is
missing or of another kind, and else no such marker. -/
structure Marks (args : Arguments) (d : Directive) (group : List Slot) : Prop where
  marked : d.isMissing args = true ∨ d.isMisfit args = true → group = [.marker .badArgument]
  only : .marker .badArgument ∈ group → d.isMissing args = true ∨ d.isMisfit args = true

end Directive

/-- A value that is shown has no marker for an argument. -/
theorem Group.badArgument_not_mem {ss : List Slot} (h : Group ss) :
    .marker .badArgument ∉ ss := by
  have hcut : ∀ cut : Bool, (.marker .badArgument : Slot) ∉ cutMark cut := by
    intro cut hmem
    have := eq_of_mem_cutMark hmem
    contradiction
  induction h with
  | scalar s => simp
  | foreign => simp
  | cycle => simp
  | tooDeep shape => simp
  | record fields cut h ih => simpa [hcut] using ih
  | sequence items cut h ih => simpa [hcut] using ih

namespace Directive

section

variable {args : Arguments} {d : Directive} {group : List Slot}

theorem isMissing_of_none {i : Nat} (h : d.argument? = some i) (hi : args.values[i]? = none) :
    d.isMissing args = true := by
  rw [isMissing, h, Option.any_some, hi, Option.isNone_none]

theorem isMissing_of_some {i : Nat} {v : Value} (h : d.argument? = some i)
    (hi : args.values[i]? = some v) : d.isMissing args = false := by
  rw [isMissing, h, Option.any_some, hi, Option.isNone_some]

/-- A directive without an argument has nothing to mark. -/
theorem not_isMissing_of_argument?_eq_none (h : d.argument? = none) :
    d.isMissing args = false ∧ d.isMisfit args = false := by
  cases d with
  | literal c => exact ⟨rfl, rfl⟩
  | expando e => exact ⟨rfl, rfl⟩
  | scalar kind i => contradiction
  | general i => contradiction
  | compound shape i bounds => contradiction

theorem Marks.of_bad (hgroup : group = [.marker .badArgument])
    (hbad : d.isMissing args = true ∨ d.isMisfit args = true) : d.Marks args group :=
  ⟨fun _ => hgroup, fun _ => hbad⟩

theorem Marks.of_good (hgroup : .marker .badArgument ∉ group) (hmissing : d.isMissing args = false)
    (hmisfit : d.isMisfit args = false) : d.Marks args group := by
  refine ⟨fun hbad => ?_, fun hmem => absurd hmem hgroup⟩
  simp [hmissing, hmisfit] at hbad

theorem Marks.not_mem (h : d.Marks args group) (hnone : d.argument? = none) :
    .marker .badArgument ∉ group := by
  intro hmem
  have hneither : d.isMissing args = false ∧ d.isMisfit args = false :=
    not_isMissing_of_argument?_eq_none hnone
  simpa [hneither] using h.only hmem

end

/-- **A directive marks an argument that is missing or misfit**, and nothing else. -/
theorem marks_slots (d : Directive) (clock : Clock) (origin : Origin) (f : Format)
    (args : Arguments) : d.Marks args (d.slots clock origin f args).1 := by
  have hshown : ∀ (bounds : Bounds) (v : Value),
      .marker .badArgument ∉ args.heap.slots bounds bounds.depth [] v := fun bounds v =>
    (args.heap.group_slots bounds bounds.depth [] v).badArgument_not_mem
  cases d with
  | literal c => exact .of_good (by simp [slots, slot?]) rfl rfl
  | expando e =>
    refine .of_good ?_ rfl rfl
    cases e <;> simp [slots, slot?]
  | scalar kind i =>
    rcases hi : args.values[i]? with _ | s | _ | r
    · exact .of_bad (by simp [slots, slot?, ScalarKind.slot, hi])
        (.inl (isMissing_of_none rfl hi))
    · by_cases hfits : kind.fits s = true
      · exact .of_good (by simp [slots, slot?, ScalarKind.slot, hi, hfits])
          (isMissing_of_some rfl hi)
          (by simp [isMisfit, hi, hfits])
      · exact .of_bad (by simp [slots, slot?, ScalarKind.slot, hi, hfits])
          (.inr (by simp [isMisfit, hi, hfits]))
    · exact .of_bad (by simp [slots, slot?, ScalarKind.slot, hi]) (.inr (by simp [isMisfit, hi]))
    · exact .of_bad (by simp [slots, slot?, ScalarKind.slot, hi]) (.inr (by simp [isMisfit, hi]))
  | general i =>
    rcases hi : args.values[i]? with _ | v
    · exact .of_bad (by simp [slots, hi])
        (.inl (isMissing_of_none rfl hi))
    · exact .of_good (by simp [slots, hi, hshown])
        (isMissing_of_some rfl hi) rfl
  | compound shape i bounds =>
    rcases hi : args.values[i]? with _ | s | _ | r
    · exact .of_bad (by simp [slots, hi])
        (.inl (isMissing_of_none rfl hi))
    · exact .of_bad (by simp [slots, hi]) (.inr (by simp [isMisfit, hi]))
    · exact .of_bad (by simp [slots, hi]) (.inr (by simp [isMisfit, hi]))
    · by_cases hshape : r.shape = shape
      · exact .of_good (by simp [slots, hi, hshape, hshown])
          (isMissing_of_some rfl hi)
          (by simp [isMisfit, hi, hshape])
      · exact .of_bad (by simp [slots, hi, hshape]) (.inr (by simp [isMisfit, hi, hshape]))

end Directive

/-- **The slots of some entries are one group for each of them**, and each group shows of its
argument what it has to. -/
theorem Message.exists_groups (m : Message) (clock : Clock) (es : List Entry) :
    ∃ groups : List (List Slot), (m.body clock es).1 = groups.flatten ∧
      List.Forall₂ (fun e group => e.directive.Marks m.args group) es groups := by
  induction es generalizing clock with
  | nil => exact ⟨[], rfl, .nil⟩
  | cons e es ih =>
    have hfirst := e.directive.marks_slots clock m.origin m.format m.args
    obtain ⟨groups, hbody, hmarks⟩ := ih (e.directive.slots clock m.origin m.format m.args).2
    refine ⟨(e.directive.slots clock m.origin m.format m.args).1 :: groups, ?_, .cons hfirst hmarks⟩
    rw [body, List.flatten_cons, ← hbody]

/-- What one of two lists has, the other has at the same place. -/
theorem exists_of_forall₂ {α β : Type} {R : α → β → Prop} {xs : List α} {ys : List β}
    (h : List.Forall₂ R xs ys) {x : α} (hx : x ∈ xs) : ∃ y ∈ ys, R x y := by
  induction h with
  | nil => exact absurd hx List.not_mem_nil
  | @cons _ y _ _ hxy _ ih =>
    rcases List.mem_cons.mp hx with rfl | hx
    · exact ⟨y, List.mem_cons_self, hxy⟩
    · obtain ⟨y', hy', hr⟩ := ih hx
      exact ⟨y', List.mem_cons_of_mem y hy', hr⟩

namespace Format

variable {f : Format} {args : Arguments} {m : Nat}

/-- Arguments up to the largest position are all that is asked for. -/
theorem isMissing_eq_false (hmax : f.maxArgument = some m) (hlength : m < args.values.length)
    {e : Entry} (he : e ∈ f.entries) : e.directive.isMissing args = false := by
  obtain ⟨-, hreach⟩ := maxArgument_eq_some_iff.mp hmax
  cases hi : e.directive.argument? with
  | none => exact (Directive.not_isMissing_of_argument?_eq_none hi).1
  | some i =>
    have hle := hreach e he i hi
    exact Directive.isMissing_of_some hi (List.getElem?_eq_getElem (by omega))

/-- **Without an argument at the largest position** the one that is asked for there is missing. -/
theorem exists_isMissing (hmax : f.maxArgument = some m) (hlength : args.values.length ≤ m) :
    ∃ e ∈ f.entries, e.directive.isMissing args = true := by
  obtain ⟨⟨e, he, hm⟩, -⟩ := maxArgument_eq_some_iff.mp hmax
  exact ⟨e, he, Directive.isMissing_of_none hm (List.getElem?_eq_none hlength)⟩

end Format

namespace Buffer

/-- **A message reads its arguments as far as its format asks, and needs them so far.** Take a
buffer, a clock, a place, a level and a format.

* Arguments that agree up to the largest position that is asked for are recorded alike: the
  blocks and their slots are the same, and the clock is read as often. So are lists of values of
  one heap that begin with the same values so far. If no position is asked for, any two lists of
  arguments are recorded alike.
* What is added is one group for each directive, between the format, the level and the end. A
  group is a marker exactly if its argument is missing, or is not of the kind that it has to be.
* With an argument at the largest position none is missing, so there is no marker for a missing
  one. Without an argument there one is missing, and there is a marker for it.
* If no position is asked for, none is missing and there is no such marker at all. -/
theorem log_reads_to_largest_argument (b : Buffer) (clock : Clock) (origin : Origin)
    (level : Level) (f : Format) :
    (∀ m, f.maxArgument = some m →
      (∀ args args', args.Agree (m + 1) args' →
        b.log clock origin level f args = b.log clock origin level f args') ∧
      ∀ heap vs ws, vs.take (m + 1) = ws.take (m + 1) →
        b.log clock origin level f ⟨heap, vs⟩ = b.log clock origin level f ⟨heap, ws⟩) ∧
    (f.maxArgument = none → ∀ args args',
      b.log clock origin level f args = b.log clock origin level f args') ∧
    ∀ args, ∃ groups : List (List Slot),
      (b.log clock origin level f args).1.slots
        = b.slots ++ .format f :: .level level :: groups.flatten ++ [.finish] ∧
      List.Forall₂ (fun e group => e.directive.Marks args group) f.entries groups ∧
      (∀ m, f.maxArgument = some m →
        (m < args.values.length → ∀ e ∈ f.entries, e.directive.isMissing args = false) ∧
        (args.values.length ≤ m →
          (∃ e ∈ f.entries, e.directive.isMissing args = true) ∧
            [.marker .badArgument] ∈ groups)) ∧
      (f.maxArgument = none →
        (∀ e ∈ f.entries, e.directive.isMissing args = false) ∧
          .marker .badArgument ∉ groups.flatten) := by
  refine ⟨fun m hmax => ?_, fun hmax args args' => ?_, fun args => ?_⟩
  · obtain ⟨-, hreach⟩ := Format.maxArgument_eq_some_iff.mp hmax
    have hbelow : ∀ e ∈ f.entries, ∀ i, e.directive.argument? = some i → i < m + 1 :=
      fun e he i hi => Nat.lt_succ_of_le (hreach e he i hi)
    refine ⟨fun args args' hagree => ?_, fun heap vs ws htake => ?_⟩
    · exact b.log_congr hagree hbelow clock origin level
    · exact b.log_congr (Arguments.agree_of_take_eq heap htake) hbelow clock origin level
  · have hnone := Format.maxArgument_eq_none_iff.mp hmax
    refine b.log_congr (args.agree_zero args') (fun e he i hi => ?_) clock origin level
    rw [hnone e he] at hi
    contradiction
  · let message : Message := ⟨clock, origin, level, f, args⟩
    obtain ⟨groups, hbody, hmarks⟩ := message.exists_groups clock f.entries
    refine ⟨groups, ?_, hmarks, fun m hmax => ⟨fun hlength e he => ?_, fun hlength => ?_⟩,
      fun hmax => ⟨fun e he => ?_, fun hmem => ?_⟩⟩
    · rw [(b.slots_log message).1, Message.slots, Message.start, hbody]
      simp [message]
    · exact Format.isMissing_eq_false hmax hlength he
    · obtain ⟨e, he, hmissing⟩ := Format.exists_isMissing hmax hlength
      obtain ⟨group, hgroup, hmark⟩ := exists_of_forall₂ hmarks he
      rw [hmark.marked (.inl hmissing)] at hgroup
      exact ⟨⟨e, he, hmissing⟩, hgroup⟩
    · have hnone := Format.maxArgument_eq_none_iff.mp hmax e he
      exact (Directive.not_isMissing_of_argument?_eq_none hnone).1
    · obtain ⟨group, hgroup, hbad⟩ := List.mem_flatten.mp hmem
      obtain ⟨e, he, hmark⟩ := exists_of_forall₂ (.flip hmarks) hgroup
      have hnone := Format.maxArgument_eq_none_iff.mp hmax e he
      exact hmark.not_mem hnone hbad

end Buffer

end Logbook
