/-
What recording appends, as lists of slots.

A buffer keeps its slots in blocks, reserves room in them and starts new ones, and a
recorder has two ways of filling it. This file shows that none of that is seen in the
slots a buffer holds: every way of recording a message appends one and the same list,
`Message.slots`, which is written down here by recursion on the value graph alone.

The induction that matters is on the depth that is left. It has to be stated for every
buffer, since the path of nodes that a buffer is inside of is kept in the buffer while a
node is being appended, and for every value, since the children of a node are values of
any kind.
-/
import Logbook.Buffer.Message

set_option autoImplicit false

namespace Logbook

/-! ## The slots of a buffer under its operations -/

namespace Buffer

/-- A block that was put aside holds nothing, so making room adds no slot. -/
@[simp] theorem slots_withRoom (b : Buffer) (n : Nat) : (b.withRoom n).slots = b.slots := by
  unfold withRoom
  split
  · split
    · rename_i block rest h
      -- the block that is taken up again was cleared when it was put aside
      have hempty : block.slots = #[] := b.spareEmpty block (by rw [h]; exact List.mem_cons_self)
      simp [slots, blocks, hempty]
    · simp [slots, blocks, Block.empty]
  · rfl

@[simp] theorem path_withRoom (b : Buffer) (n : Nat) : (b.withRoom n).path = b.path := by
  unfold withRoom
  split
  · split <;> rfl
  · rfl

@[simp] theorem slots_push (b : Buffer) (s : Slot) : (b.push s).slots = b.slots ++ [s] := by
  simp [push, slots, blocks, Block.push]

@[simp] theorem path_push (b : Buffer) (s : Slot) : (b.push s).path = b.path := rfl

@[simp] theorem slots_append (b : Buffer) (s : Slot) : (b.append s).slots = b.slots ++ [s] := by
  simp [append]

@[simp] theorem path_append (b : Buffer) (s : Slot) : (b.append s).path = b.path := by
  simp [append]

theorem slots_appendAll (b : Buffer) (ss : List Slot) : (b.appendAll ss).slots = b.slots ++ ss := by
  induction ss generalizing b with
  | nil => simp [appendAll]
  | cons s ss ih =>
    have hstep : b.appendAll (s :: ss) = (b.append s).appendAll ss := rfl
    rw [hstep, ih, slots_append, List.append_assoc, List.singleton_append]

theorem slots_of_reserve? {b room : Buffer} {n : Nat} (h : b.reserve? n = some room) :
    room.slots = b.slots := by
  unfold reserve? at h
  split at h
  · rw [← Option.some.inj h, slots_withRoom]
  · simp at h

@[simp] theorem slots_empty : Buffer.empty.slots = [] := by
  simp [empty, slots, blocks, Block.empty]

@[simp] theorem slots_enter (b : Buffer) (r : Ref) : (b.enter r).slots = b.slots := rfl

@[simp] theorem path_enter (b : Buffer) (r : Ref) : (b.enter r).path = r :: b.path := rfl

@[simp] theorem slots_leave (b : Buffer) : b.leave.slots = b.slots := rfl

@[simp] theorem path_leave (b : Buffer) : b.leave.path = b.path.tail := rfl

end Buffer

/-! ## The slots of a value -/

namespace Heap

/-- The children of a node that its bound lets through. -/
def shown (h : Heap) (bounds : Bounds) (r : Ref) : List Child :=
  (h.children r).take (bounds.length r.shape)

def isCut (h : Heap) (bounds : Bounds) (r : Ref) : Bool :=
  bounds.length r.shape < (h.children r).length

/-- The children of a record have names, the items of a sequence have none. -/
theorem name_of_mem_children {h : Heap} {r : Ref} {c : Child} (hc : c ∈ h.children r) :
    c.name.isSome = decide (r.shape = .record) := by
  unfold children at hc
  split at hc
  · rename_i hshape
    obtain ⟨entry, _, rfl⟩ := List.mem_map.mp hc
    rw [hshape]
    rfl
  · rename_i hshape
    obtain ⟨item, _, rfl⟩ := List.mem_map.mp hc
    rw [hshape]
    rfl

end Heap

/-- The slot of the name of a field. An item has none. -/
def Child.label (c : Child) : List Slot :=
  match c.name with
  | some name => [.name name]
  | none => []

/-- **The slots of a value** that stands inside the nodes of a path, with at most `depth`
levels of nodes. -/
def Heap.slots (h : Heap) (bounds : Bounds) (depth : Nat) (path : List Ref) (v : Value) :
    List Slot :=
  match v with
  | .scalar s => [.scalar s]
  | .foreign => [.marker .foreign]
  | .node r =>
    if r ∈ path then
      [.marker .cycle]
    else
      match depth with
      | 0 => [.marker (.tooDeep r.shape)]
      | depth + 1 =>
        .opening r.shape
          :: ((h.shown bounds r).flatMap fun c => c.label ++ h.slots bounds depth (r :: path) c.value)
          ++ (if h.isCut bounds r then [.marker .lengthReached] else [])
          ++ [.closing r.shape]

namespace Buffer

theorem slots_appendName (b : Buffer) (c : Child) :
    (b.appendName c.name).slots = b.slots ++ c.label ∧ (b.appendName c.name).path = b.path := by
  cases hname : c.name <;> simp [appendName, Child.label, hname]

/-- **Appending a value appends its slots** and leaves the path as it was. -/
theorem slots_appendValue (h : Heap) (bounds : Bounds) (depth : Nat) (b : Buffer) (v : Value) :
    (appendValue h bounds depth b v).slots = b.slots ++ h.slots bounds depth b.path v ∧
      (appendValue h bounds depth b v).path = b.path := by
  induction depth generalizing b v with
  | zero =>
    cases v with
    | scalar s => simp [appendValue, Heap.slots]
    | foreign => simp [appendValue, Heap.slots]
    | node r =>
      by_cases hr : r ∈ b.path <;> simp [appendValue, Heap.slots, hr]
  | succ depth ih =>
    cases v with
    | scalar s => simp [appendValue, Heap.slots]
    | foreign => simp [appendValue, Heap.slots]
    | node r =>
      by_cases hr : r ∈ b.path
      · simp [appendValue, Heap.slots, hr]
      -- the children follow each other in one buffer, and each of them has to find the path as
      -- the node has left it
      · have hfold : ∀ (cs : List Child) (b' : Buffer), b'.path = r :: b.path →
            (cs.foldl (fun b c => appendValue h bounds depth (b.appendName c.name) c.value) b').slots
                = b'.slots
                  ++ cs.flatMap (fun c => c.label ++ h.slots bounds depth (r :: b.path) c.value) ∧
              (cs.foldl (fun b c => appendValue h bounds depth (b.appendName c.name) c.value)
                b').path = r :: b.path := by
          intro cs
          induction cs with
          | nil => intro b' hp; simp [hp]
          | cons c cs ihcs =>
            intro b' hp
            obtain ⟨hname, hpath⟩ := slots_appendName b' c
            obtain ⟨hvalue, hpath'⟩ := ih (b'.appendName c.name) c.value
            rw [hpath, hp] at hvalue hpath'
            obtain ⟨hrest, hpath''⟩ := ihcs _ hpath'
            rw [List.foldl_cons, List.flatMap_cons]
            refine ⟨?_, hpath''⟩
            rw [hrest, hvalue, hname]
            simp only [List.append_assoc]
        obtain ⟨hslots, hpath⟩ := hfold (h.shown bounds r)
          ((b.enter r).append (.opening r.shape)) (by simp)
        rw [appendValue, Heap.slots, if_neg hr, if_neg hr]
        unfold Heap.shown at hslots hpath
        by_cases hcut : bounds.length r.shape < (h.children r).length
        · simp [hcut, hslots, hpath, Heap.shown, Heap.isCut]
        · simp [hcut, hslots, hpath, Heap.shown, Heap.isCut]

end Buffer

/-! ## The slots of a message -/

/-- The slots of what a directive prints, and the clock after it. -/
def Directive.slots (d : Directive) (clock : Clock) (origin : Origin) (f : Format)
    (args : Arguments) : List Slot × Clock :=
  match d with
  | .general i =>
    match args.values[i]? with
    | some v => (args.heap.slots Bounds.standard Bounds.standard.depth [] v, clock)
    | none => ([.marker .badArgument], clock)
  | .compound shape i bounds =>
    match args.values[i]? with
    | some (.node r) =>
      if r.shape = shape then (args.heap.slots bounds bounds.depth [] (.node r), clock)
      else ([.marker .badArgument], clock)
    | _ => ([.marker .badArgument], clock)
  | d => ((d.slot? clock origin f args).1.toList, (d.slot? clock origin f args).2)

theorem Format.isSingleSlot_of_mem {f : Format} (hsingle : f.isSingleSlot = true) :
    ∀ e ∈ f.entries, e.directive.isSingleSlot = true := by
  simpa [isSingleSlot] using hsingle

/-- A message as it is logged: by which clock, where, at what level, in which format and
with which arguments. -/
structure Message where
  clock : Clock
  origin : Origin
  level : Level
  format : Format
  args : Arguments

namespace Message

/-- The slots of some entries of the format, and the clock after them. -/
def body (m : Message) (clock : Clock) : List Entry → List Slot × Clock
  | [] => ([], clock)
  | e :: rest =>
    let first := e.directive.slots clock m.origin m.format m.args
    let others := m.body first.2 rest
    (first.1 ++ others.1, others.2)

/-- The slots of a message but for its end. -/
def start (m : Message) : List Slot :=
  .format m.format :: .level m.level :: (m.body m.clock m.format.entries).1

def slots (m : Message) : List Slot := m.start ++ [.finish]

theorem eq_nil_of_flatMap_slots {ms : List Message} (h : ms.flatMap slots = []) : ms = [] := by
  cases ms with
  | nil => rfl
  | cons m ms => simp [slots, start] at h

end Message

namespace Buffer

theorem slots_appendArgument (b : Buffer) (h : Heap) (v : Value) (bounds : Bounds) :
    (b.appendArgument h v bounds).slots = b.slots ++ h.slots bounds bounds.depth [] v :=
  (slots_appendValue h bounds bounds.depth { b with path := [] } v).1

/-- **What a directive appends**, one by one. -/
theorem slots_appendDirective (b : Buffer) (clock : Clock) (origin : Origin) (f : Format)
    (args : Arguments) (d : Directive) :
    (b.appendDirective clock origin f args d).1.slots
        = b.slots ++ (d.slots clock origin f args).1 ∧
      (b.appendDirective clock origin f args d).2 = (d.slots clock origin f args).2 := by
  cases d with
  | literal c => simp [appendDirective, Directive.slots, Directive.slot?]
  | expando e => cases e <;> simp [appendDirective, Directive.slots, Directive.slot?]
  | scalar kind i => simp [appendDirective, Directive.slots, Directive.slot?]
  | general i =>
    cases hi : args.values[i]? <;>
      simp [appendDirective, Directive.slots, hi, slots_appendArgument]
  | compound shape i bounds =>
    rcases hi : args.values[i]? with _ | v
    · simp [appendDirective, Directive.slots, hi]
    · rcases v with s | _ | r
      · simp [appendDirective, Directive.slots, hi]
      · simp [appendDirective, Directive.slots, hi]
      · by_cases hshape : r.shape = shape <;>
          simp [appendDirective, Directive.slots, hi, hshape, slots_appendArgument]

/-- In reserved room a directive that takes one slot at most leaves the same slots. -/
theorem slots_pushDirective (b : Buffer) (clock : Clock) (origin : Origin) (f : Format)
    (args : Arguments) {d : Directive} (hd : d.isSingleSlot = true) :
    (b.pushDirective clock origin f args d).1.slots
        = b.slots ++ (d.slots clock origin f args).1 ∧
      (b.pushDirective clock origin f args d).2 = (d.slots clock origin f args).2 := by
  cases d with
  | literal c => simp [pushDirective, Directive.slots, Directive.slot?]
  | expando e => cases e <;> simp [pushDirective, Directive.slots, Directive.slot?]
  | scalar kind i => simp [pushDirective, Directive.slots, Directive.slot?]
  | general i => simp [Directive.isSingleSlot] at hd
  | compound shape i bounds => simp [Directive.isSingleSlot] at hd

/-- A way of appending directives that appends the slots of each appends the slots of
all. Both ways of recording are such. -/
theorem slots_foldl_directives (m : Message)
    (put : Buffer → Clock → Directive → Buffer × Clock) (es : List Entry)
    (hput : ∀ e ∈ es, ∀ (b : Buffer) (clock : Clock),
      (put b clock e.directive).1.slots
          = b.slots ++ (e.directive.slots clock m.origin m.format m.args).1 ∧
        (put b clock e.directive).2 = (e.directive.slots clock m.origin m.format m.args).2)
    (b : Buffer) (clock : Clock) :
    (es.foldl (fun p e => put p.1 p.2 e.directive) (b, clock)).1.slots
        = b.slots ++ (m.body clock es).1 ∧
      (es.foldl (fun p e => put p.1 p.2 e.directive) (b, clock)).2 = (m.body clock es).2 := by
  induction es generalizing b clock with
  | nil => simp [Message.body]
  | cons e es ih =>
    obtain ⟨hslots, hclock⟩ := hput e List.mem_cons_self b clock
    obtain ⟨hslots', hclock'⟩ := ih (fun e' he' => hput e' (List.mem_cons_of_mem _ he'))
      (put b clock e.directive).1 (put b clock e.directive).2
    rw [hclock] at hslots' hclock'
    rw [List.foldl_cons, Message.body]
    dsimp only
    refine ⟨?_, ?_⟩
    · rw [← hclock] at hslots' ⊢
      rw [hslots', hslots, List.append_assoc]
    · rw [← hclock] at hclock' ⊢
      exact hclock'

theorem slots_appendMessage (b : Buffer) (m : Message) :
    (b.appendMessage m.clock m.origin m.level m.format m.args).1.slots = b.slots ++ m.slots ∧
      (b.appendMessage m.clock m.origin m.level m.format m.args).2
        = (m.body m.clock m.format.entries).2 := by
  obtain ⟨hslots, hclock⟩ := slots_foldl_directives m
    (fun b clock d => b.appendDirective clock m.origin m.format m.args d) m.format.entries
    (fun e _ b clock => slots_appendDirective b clock m.origin m.format m.args e.directive)
    ((b.append (.format m.format)).append (.level m.level)) m.clock
  refine ⟨?_, hclock⟩
  rw [appendMessage]
  dsimp only
  rw [slots_append, hslots]
  simp [Message.slots, Message.start]

theorem slots_pushMessage (b : Buffer) {m : Message} (hsingle : m.format.isSingleSlot = true) :
    (b.pushMessage m.clock m.origin m.level m.format m.args).1.slots = b.slots ++ m.slots ∧
      (b.pushMessage m.clock m.origin m.level m.format m.args).2
        = (m.body m.clock m.format.entries).2 := by
  have hall := Format.isSingleSlot_of_mem hsingle
  obtain ⟨hslots, hclock⟩ := slots_foldl_directives m
    (fun b clock d => b.pushDirective clock m.origin m.format m.args d) m.format.entries
    (fun e he b clock => slots_pushDirective b clock m.origin m.format m.args (hall e he))
    ((b.push (.format m.format)).push (.level m.level)) m.clock
  refine ⟨?_, hclock⟩
  rw [pushMessage]
  dsimp only
  rw [slots_push, hslots, slots_push, slots_push]
  simp [Message.slots, Message.start]

/-- **Recording a message appends its slots**, in whichever way it is recorded, and the
clock is left where the directives leave it. -/
theorem slots_log (b : Buffer) (m : Message) :
    (b.log m.clock m.origin m.level m.format m.args).1.slots = b.slots ++ m.slots ∧
      (b.log m.clock m.origin m.level m.format m.args).2
        = (m.body m.clock m.format.entries).2 := by
  unfold log
  split
  · rename_i hsingle
    split
    · rename_i room hroom
      -- the room that was reserved starts with the slots that were there before
      rw [← slots_of_reserve? hroom]
      exact slots_pushMessage room hsingle
    · exact slots_appendMessage b m
  · exact slots_appendMessage b m

end Buffer

end Logbook
