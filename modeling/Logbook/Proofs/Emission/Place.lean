/-
The place in a message, as it can be read off the slots.

Whoever records knows where in a message a slot comes: in which format, inside of which
brackets and behind how many values. All of that can be read off the slots before it
(`Place.of`), without a look at how they are printed. `Place.Admits` says which slots have a
meaning at a place, and what is shown here is that recording puts no other slot anywhere: what
stands for an entry is one value, brackets are closed as they were opened, and at the end of a
message there were as many values as there are entries that take one.

The induction over a value is on the depth that is left, as for the slots it appends. It has to
be stated for every place at which a value can come, since inside of a node a value leads back to
the place that it came upon, and at the level of the message it does not.
-/
import Logbook.Proofs.Buffer.Slots

set_option autoImplicit false

namespace Logbook

/-! ## Places -/

/-- Whether an entry is an escaped character, for which no value comes. -/
def Entry.isLiteral (e : Entry) : Bool := e.directive.isLiteral

/-- How many entries of a format take a value. -/
def Format.valueCount (f : Format) : Nat := f.entries.countP fun e => !e.isLiteral

/-- **The entries that are left behind some values.** A value takes the first of them, and
entries that take none are passed over at once. -/
def Format.left (f : Format) : Nat → List Entry
  | 0 => f.entries.dropWhile Entry.isLiteral
  | n + 1 => (f.left n).tail.dropWhile Entry.isLiteral

/-- **A place in a message**, as it can be read off the slots. -/
structure Place where
  format : Format
  /-- Whether the level has come. -/
  begun : Bool
  /-- The brackets that are open, innermost first. -/
  nodes : List Shape
  /-- How many values are complete, not counting those inside of nodes. -/
  values : Nat

namespace Place

/-- The entries that are left. -/
def rest (p : Place) : List Entry :=
  if p.begun then p.format.left p.values else p.format.entries

/-- The place behind a value. -/
def value (p : Place) : Place :=
  match p.nodes with
  | [] => { p with values := p.values + 1 }
  | _ :: _ => p

/-- The place inside of a node. -/
def inside (p : Place) (shape : Shape) : Place := { p with nodes := shape :: p.nodes }

/-- The place behind a slot. Between two messages there is none. -/
def next : Option Place → Slot → Option Place
  | _, .format f => some ⟨f, false, [], 0⟩
  | some p, .level _ => some { p with begun := true }
  | some p, .opening shape => some (p.inside shape)
  | some p, .closing _ => some ({ p with nodes := p.nodes.tail } : Place).value
  | some p, .name _ => some p
  | some p, .scalar _ => some p.value
  | some p, .marker _ => some p.value
  | _, _ => none

/-- **The place behind some slots**, from the start of a buffer. -/
def of (read : List Slot) : Option Place := read.foldl next none

/-- Whether a value can come: inside of a node, or for an entry that is left. -/
def Expects (p : Place) : Prop := p.begun = true ∧ (p.nodes = [] → p.rest ≠ [])

/-- **The slots that have a meaning at a place.** A message ends when no bracket is open, no
entry is left and there were as many values as there are entries that take one. -/
def Admits : Option Place → Slot → Prop
  | none, .format _ => True
  | some p, .level _ => p.begun = false ∧ p.nodes = [] ∧ p.values = 0
  | some p, .finish =>
    p.begun = true ∧ p.nodes = [] ∧ p.rest = [] ∧ p.values = p.format.valueCount
  | some p, .opening _ => p.Expects
  | some p, .closing shape =>
    ∃ outer, p.nodes = shape :: outer ∧ ({ p with nodes := outer } : Place).Expects
  | some p, .name _ => p.nodes.head? = some .record
  | some p, .scalar _ => p.Expects
  | some p, .marker _ => p.Expects
  | _, _ => False

variable {p : Place}

theorem Expects.inside (h : p.Expects) (shape : Shape) : (p.inside shape).Expects :=
  ⟨h.1, fun hnodes => absurd hnodes (List.cons_ne_nil _ _)⟩

end Place

/-! ## What is recorded is admitted -/

/-- **Slots that are admitted one after the other**, and the place that they lead to. -/
inductive Leads : Option Place → List Slot → Option Place → Prop where
  | nil (p : Option Place) : Leads p [] p
  | cons {p q : Option Place} {x : Slot} {xs : List Slot} (hx : Place.Admits p x)
    (hxs : Leads (Place.next p x) xs q) : Leads p (x :: xs) q

namespace Leads

variable {p q r : Option Place} {xs ys : List Slot}

theorem append (h : Leads p xs q) (h' : Leads q ys r) : Leads p (xs ++ ys) r := by
  induction h with
  | nil => exact h'
  | cons hx _ ih => exact .cons hx (ih h')

theorem single {x : Slot} (hx : Place.Admits p x) : Leads p [x] (Place.next p x) :=
  .cons hx (.nil _)

/-- Lists of slots that lead back to the same place do so together. -/
theorem flatMap {α : Type} {as : List α} {f : α → List Slot} (h : ∀ a ∈ as, Leads p (f a) p) :
    Leads p (as.flatMap f) p := by
  induction as with
  | nil => exact .nil p
  | cons a as ih =>
    rw [List.flatMap_cons]
    exact (h a List.mem_cons_self).append (ih fun a' ha' => h a' (List.mem_cons_of_mem a ha'))

/-- The place that slots lead to can be read off them. -/
theorem eq_foldl (h : Leads p xs q) : q = xs.foldl Place.next p := by
  induction h with
  | nil => rfl
  | cons _ _ ih => exact ih

/-- **Every slot is admitted** behind those that come before it. -/
theorem admits {x : Slot} {rest : List Slot} (h : Leads p (xs ++ x :: rest) q) :
    Place.Admits (xs.foldl Place.next p) x := by
  induction xs generalizing p with
  | nil =>
    cases h with
    | cons hx _ => exact hx
  | cons x' xs ih =>
    cases h with
    | cons _ hxs => exact ih hxs

end Leads

/-- **What stands for a value leads behind one value**, however deep it goes. -/
theorem Heap.leads_slots (h : Heap) (bounds : Bounds) (depth : Nat) (path : List Ref) (v : Value)
    {p : Place} (hp : p.Expects) :
    Leads (some p) (h.slots bounds depth path v) (some p.value) := by
  induction depth generalizing path v p with
  | zero =>
    cases v with
    | scalar s => exact .single hp
    | foreign => exact .single hp
    | node r =>
      by_cases hr : r ∈ path
      · rw [Heap.slots, if_pos hr]
        exact .single hp
      · rw [Heap.slots, if_neg hr]
        exact .single hp
  | succ depth ih =>
    cases v with
    | scalar s => exact .single hp
    | foreign => exact .single hp
    | node r =>
      by_cases hr : r ∈ path
      · rw [Heap.slots, if_pos hr]
        exact .single hp
      -- inside of the node every child leads back to the place behind the bracket
      · have hinside := hp.inside r.shape
        have hlabel : ∀ c ∈ h.shown bounds r,
            Leads (some (p.inside r.shape)) c.label (some (p.inside r.shape)) := by
          intro c hc
          have hname := Heap.name_of_mem_children (List.mem_of_mem_take hc)
          cases hcname : c.name with
          | none =>
            rw [Child.label, hcname]
            exact .nil _
          | some name =>
            have hrecord : r.shape = .record := by simpa [hcname] using hname
            rw [Child.label, hcname, hrecord]
            exact .single (p := some (p.inside .record)) rfl
        have hchildren : Leads (some (p.inside r.shape))
            ((h.shown bounds r).flatMap
              fun c => c.label ++ h.slots bounds depth (r :: path) c.value)
            (some (p.inside r.shape)) :=
          .flatMap fun c hc => (hlabel c hc).append (ih (r :: path) c.value hinside)
        have hcut : Leads (some (p.inside r.shape))
            (if h.isCut bounds r then [.marker .lengthReached] else [])
            (some (p.inside r.shape)) := by
          split
          · exact .single (p := some (p.inside r.shape)) hinside
          · exact .nil _
        have hclosing : Leads (some (p.inside r.shape)) [.closing r.shape] (some p.value) :=
          .single (p := some (p.inside r.shape)) ⟨p.nodes, rfl, hp⟩
        rw [Heap.slots, if_neg hr]
        exact .cons hp ((hchildren.append hcut).append hclosing)

/-- What stands for an entry is one value, unless it is an escaped character. -/
theorem Directive.leads_slots {d : Directive} (hd : d.isLiteral = false) (clock : Clock)
    (origin : Origin) (f : Format) (args : Arguments) {p : Place} (hp : p.Expects) :
    Leads (some p) (d.slots clock origin f args).1 (some p.value) := by
  cases d with
  | literal c => simp [isLiteral] at hd
  | expando e => cases e <;> exact .single hp
  | scalar kind i =>
    simp only [slots, slot?, Option.toList_some, ScalarKind.slot]
    split
    · split
      · exact .single hp
      · exact .single hp
    · exact .single hp
  | general i =>
    simp only [slots]
    split
    · exact args.heap.leads_slots _ _ _ _ hp
    · exact .single hp
  | compound shape i bounds =>
    simp only [slots]
    split
    · split
      · exact args.heap.leads_slots _ _ _ _ hp
      · exact .single hp
    · exact .single hp

namespace Message

/-- **The entries of a message and its values go together**, entry by entry. -/
theorem leads_body (m : Message) (clock : Clock) (es : List Entry) {n : Nat}
    (hleft : m.format.left n = es.dropWhile Entry.isLiteral) :
    Leads (some ⟨m.format, true, [], n⟩) (m.body clock es).1
        (some ⟨m.format, true, [], n + es.countP fun e => !e.isLiteral⟩) ∧
      m.format.left (n + es.countP fun e => !e.isLiteral) = [] := by
  induction es generalizing clock n with
  | nil => exact ⟨.nil _, hleft⟩
  | cons e es ih =>
    rw [body]
    dsimp only
    by_cases hliteral : e.isLiteral = true
    -- there is no slot for it, and it is not left either
    · obtain ⟨c, hc⟩ : ∃ c, e.directive = .literal c := by
        cases hd : e.directive <;> simp [Entry.isLiteral, hd, Directive.isLiteral] at hliteral ⊢
      rw [List.dropWhile_cons_of_pos hliteral] at hleft
      rw [List.countP_cons_of_neg (by simp [hliteral]), hc]
      exact ih _ hleft
    · have hprints : e.isLiteral = false := by simpa using hliteral
      rw [List.dropWhile_cons_of_neg hliteral] at hleft
      have hexpects : (⟨m.format, true, [], n⟩ : Place).Expects := by
        refine ⟨rfl, fun _ => ?_⟩
        rw [Place.rest, if_pos rfl, hleft]
        exact List.cons_ne_nil e es
      have hfirst := Directive.leads_slots hprints clock m.origin m.format m.args hexpects
      obtain ⟨hothers, hnone⟩ := ih (e.directive.slots clock m.origin m.format m.args).2
        (n := n + 1) (by rw [Format.left, hleft, List.tail_cons])
      have hcount : n + (e :: es).countP (fun e => !e.isLiteral)
          = n + 1 + es.countP fun e => !e.isLiteral := by
        rw [List.countP_cons_of_pos (by simp [hprints])]
        omega
      rw [hcount]
      exact ⟨hfirst.append hothers, hnone⟩

/-- **A message leads from between two messages to between two messages.** -/
theorem leads_slots (m : Message) : Leads none m.slots none := by
  obtain ⟨hbody, hnone⟩ := m.leads_body m.clock m.format.entries (n := 0) rfl
  rw [Nat.zero_add] at hbody hnone
  refine .append (q := some ⟨m.format, true, [], m.format.valueCount⟩) ?_ (.single ?_)
  · exact .cons trivial (.cons ⟨rfl, rfl, rfl⟩ hbody)
  · exact ⟨rfl, rfl, hnone, rfl⟩

end Message

end Logbook
