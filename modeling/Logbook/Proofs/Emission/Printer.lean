/-
Printing a message directly, and why the frame stack prints the same.

`Message.print` goes over the template of a message once and over the value graph of an
argument once, by plain recursion: no slot, no block, no stack. A message that is
recorded takes the long way instead, through the slots of a buffer and through a stack of
frames that interleaves them with cuts of the template. The two agree, whatever the
frames are that the message comes upon.

The step from one to the other is `steps_slots`: **the slots of a value act on any stack as
one slot that prints the whole value**. Separators, the name that waits for its value and
the literal text after a complete value are all decided by the frames below, so they are
the same for a scalar and for a node, and the induction over the value graph never has to
say what these frames are.
-/
import Logbook.Emission.Frame
import Logbook.Proofs.Buffer.Slots
import Logbook.Proofs.Format.Fill

set_option autoImplicit false

namespace Logbook

/-! ## The direct printer -/

def Scalar.bare : Scalar → String
  | .null => "null"
  | .bool b => if b then "true" else "false"
  | .number n => n.text
  | .text s => s
  | .time t => t.text
  | .callable name => "[Function " ++ name ++ "]"

/-- The text of a scalar inside a node: what is not a number or a word is quoted, and a
text is escaped as well. -/
def Scalar.inside : Scalar → String
  | .text s => Text.quoted s
  | .time t => "\"" ++ t.text ++ "\""
  | .callable name => "\"[Function " ++ name ++ "]\""
  | s => s.bare

/-- The name of a field before its value. -/
def Child.print (c : Child) (value : String) : String :=
  match c.name with
  | some name => Text.quoted name ++ ": " ++ value
  | none => value

/-- A node around the text of its children. -/
def Shape.enclose (shape : Shape) (inner : String) : String :=
  match shape with
  | .record => "\x7b" ++ inner ++ "\x7d"
  | .sequence => "[" ++ inner ++ "]"

/-- What stands for a node that lies too deep. -/
def Shape.folded : Shape → String
  | .record => "\"<Object>\""
  | .sequence => "\"<Array>\""

/-- **The text of a value** that stands inside the nodes of a path, with at most `depth`
levels of nodes. -/
def Heap.print (h : Heap) (bounds : Bounds) (depth : Nat) (path : List Ref) (nested : Bool)
    (v : Value) : String :=
  match v with
  | .scalar s => if nested then s.inside else s.bare
  | .foreign => "\"<Value>\""
  | .node r =>
    if r ∈ path then
      "\"<Cycle>\""
    else
      match depth with
      | 0 => r.shape.folded
      | depth + 1 =>
        r.shape.enclose <| ", ".intercalate <|
          ((h.shown bounds r).map fun c => c.print (h.print bounds depth (r :: path) true c.value))
            ++ if h.isCut bounds r then ["\"<LengthBoundHit>\""] else []

namespace Message

def expando (m : Message) (now : Instant) : Expando → String
  | .ipAddr => m.origin.context.ipAddr
  | .appName => m.origin.context.appName
  | .moduleName => m.origin.moduleName
  | .msgName => m.format.name
  | .wallTime => now.text
  | .logicalTime => Decimal.intText (min m.origin.context.logicalTime Number.largest)
  | .callbackId => Decimal.intText m.origin.context.callbackId
  | .requestId => Decimal.intText m.origin.context.requestId

/-- What stands for an argument that is missing or of another kind. -/
def badArgument : String := "\"<BadFormat>\""

/-- The text of an argument that has to be a scalar of one kind. -/
def scalar (kind : ScalarKind) : Option Value → String
  | some (.scalar s) => if kind.fits s then s.bare else badArgument
  | _ => badArgument

def argument (m : Message) (bounds : Bounds) (v : Value) : String :=
  m.args.heap.print bounds bounds.depth [] false v

/-- **What a directive prints**, and the clock after it. Only the wall time reads the
clock. -/
def directive (m : Message) (clock : Clock) (d : Directive) : String × Clock :=
  match d with
  | .literal c => (String.ofList [c.char], clock)
  | .expando .wallTime => (m.expando clock.read.1 .wallTime, clock.read.2)
  | .expando e => (m.expando default e, clock)
  | .scalar kind i => (scalar kind m.args.values[i]?, clock)
  | .general i =>
    match m.args.values[i]? with
    | some v => (m.argument Bounds.standard v, clock)
    | none => (badArgument, clock)
  | .compound shape i bounds =>
    match m.args.values[i]? with
    | some (.node r) =>
      if r.shape = shape then (m.argument bounds (.node r), clock) else (badArgument, clock)
    | _ => (badArgument, clock)

/-- **The text of a message**: what the style puts before it, the template with every
directive replaced by what it prints, and what the style puts after it. -/
def print (m : Message) (style : Style) : String :=
  style.preamble m.format.name m.level
    ++ Template.fill m.directive 0 m.clock m.format.template ++ style.terminator

def printAll (style : Style) (ms : List Message) : String :=
  String.join (ms.map (·.print style))

theorem printAll_cons (style : Style) (m : Message) (ms : List Message) :
    printAll style (m :: ms) = m.print style ++ printAll style ms := by
  rw [printAll, List.map_cons, String.join_cons, printAll]

theorem printAll_append (style : Style) (ms ms' : List Message) :
    printAll style (ms ++ ms') = printAll style ms ++ printAll style ms' := by
  rw [printAll, List.map_append, String.join_append, printAll, printAll]

theorem printAll_singleton (style : Style) (m : Message) : printAll style [m] = m.print style := by
  rw [printAll_cons, printAll, List.map_nil, String.join_nil, String.append_empty]

end Message

/-! ## Slot after slot -/

namespace Frame

def Step.followedBy (a b : Step) : Step :=
  { text := a.text ++ b.text
    frames := b.frames
    reports := a.reports ++ b.reports
    ended := a.ended || b.ended }

/-- **What a list of slots comes to.** -/
def steps (style : Style) (frames : List Frame) : List Slot → Step
  | [] => { text := "", frames := frames }
  | s :: rest =>
    (step style frames s).followedBy (steps style (step style frames s).frames rest)

theorem Step.followedBy_assoc (a b c : Step) :
    (a.followedBy b).followedBy c = a.followedBy (b.followedBy c) := by
  simp [followedBy, String.append_assoc, List.append_assoc, Bool.or_assoc]

theorem steps_append (style : Style) (frames : List Frame) (ss ts : List Slot) :
    steps style frames (ss ++ ts)
      = (steps style frames ss).followedBy (steps style (steps style frames ss).frames ts) := by
  induction ss generalizing frames with
  | nil => simp [steps, Step.followedBy]
  | cons s ss ih =>
    rw [List.cons_append, steps, ih, steps, Step.followedBy_assoc]
    rfl

theorem steps_singleton (style : Style) (frames : List Frame) (s : Slot) :
    steps style frames [s] = step style frames s := by
  simp [steps, Step.followedBy]

/-! ## The items of a node -/

/-- The frame of a node in which items were printed already or not. -/
def opened (comma : Bool) : Shape → Frame
  | .record => .record comma false
  | .sequence => .sequence comma

/-- Texts with a separator before each but the first, which has one on demand. -/
def separated (comma : Bool) : List String → String
  | [] => ""
  | t :: ts => separator comma ++ t ++ separated true ts

theorem separated_false (ts : List String) : separated false ts = ", ".intercalate ts := by
  -- with a text before it every separator is on demand, and that is the form to induct on
  have htrue : ∀ (t : String) (ts : List String),
      t ++ separated true ts = ", ".intercalate (t :: ts) := by
    intro t ts
    induction ts generalizing t with
    | nil => simp [separated]
    | cons u ts ih =>
      rw [separated, String.intercalate_cons_cons, ← ih u]
      simp [separator, String.append_assoc]
  cases ts with
  | nil => simp [separated]
  | cons t ts =>
    rw [separated, ← htrue t ts]
    simp [separator]

/-- Slots that print one item in a node of some shape. -/
def IsItem (style : Style) (shape : Shape) (ss : List Slot) (t : String) : Prop :=
  ∀ (comma : Bool) (under : List Frame),
    steps style (opened comma shape :: under) ss
      = { text := separator comma ++ t, frames := opened true shape :: under }

theorem steps_items {style : Style} {shape : Shape} {items : List (List Slot × String)}
    (h : ∀ i ∈ items, IsItem style shape i.1 i.2) (comma : Bool) (under : List Frame) :
    steps style (opened comma shape :: under) (items.flatMap Prod.fst)
      = { text := separated comma (items.map Prod.snd)
          frames := opened (comma || !items.isEmpty) shape :: under } := by
  induction items generalizing comma with
  | nil => simp [steps, separated]
  | cons i items ih =>
    have hi := h i List.mem_cons_self comma under
    have hrest := ih (fun j hj => h j (List.mem_cons_of_mem i hj)) true
    rw [List.flatMap_cons, steps_append, hi]
    dsimp only
    rw [hrest]
    simp [Step.followedBy, separated]

/-- **A node is printed as one value**, around its items. -/
theorem steps_node {style : Style} {shape : Shape} {items : List (List Slot × String)}
    (h : ∀ i ∈ items, IsItem style shape i.1 i.2) (frames : List Frame) :
    steps style frames (.opening shape :: (items.flatMap Prod.fst ++ [.closing shape]))
      = value (fun _ => shape.enclose (", ".intercalate (items.map Prod.snd))) frames := by
  -- no item was printed yet when the node is opened
  have hopened : ofShape shape = opened false shape := by cases shape <;> rfl
  rw [steps, steps_append]
  simp only [step, hopened, steps_items h, steps_singleton, separated_false]
  cases shape <;>
    simp [close, opened, value, Shape.enclose, Shape.openingBracket, Shape.closingBracket,
      Step.followedBy, String.append_assoc]

/-! ## A value is printed as one piece -/

theorem isItem_marker (style : Style) (shape : Shape) (m : Marker) :
    IsItem style shape [.marker m] m.text := by
  intro comma under
  rw [steps_singleton]
  cases shape <;> simp [step, value, beforeValue, afterValue, opened]

/-- A child that has a name exactly if it stands in a record. -/
theorem isItem_child {style : Style} {shape : Shape} {c : Child} {ss : List Slot}
    {render : Bool → String} (hname : c.name.isSome = decide (shape = .record))
    (hvalue : ∀ frames, steps style frames ss = value render frames) :
    IsItem style shape (c.label ++ ss) (c.print (render true)) := by
  intro comma under
  cases shape with
  | record =>
    obtain ⟨name, hc⟩ := Option.isSome_iff_exists.mp (show c.name.isSome = true from hname)
    simp only [Child.label, Child.print, hc, List.singleton_append]
    rw [steps, hvalue]
    simp [step, label, opened, value, beforeValue, afterValue, isNested, isNode,
      Step.followedBy, String.append_assoc]
  | sequence =>
    have hc : c.name = none := by simpa using hname
    simp only [Child.label, Child.print, hc, List.nil_append]
    rw [hvalue]
    simp [opened, value, beforeValue, afterValue, isNested, isNode]

theorem steps_marker (style : Style) (m : Marker) (frames : List Frame) :
    steps style frames [.marker m] = value (fun _ => m.text) frames :=
  steps_singleton style frames (.marker m)

theorem steps_scalar (style : Style) (s : Scalar) (frames : List Frame) :
    steps style frames [.scalar s]
      = value (fun nested => if nested then s.inside else s.bare) frames := by
  have hrender : (fun nested => Scalar.render nested s)
      = fun nested => if nested then s.inside else s.bare := by
    funext nested
    cases s <;> cases nested <;> rfl
  rw [← hrender]
  exact steps_singleton style frames (.scalar s)

/-- The items of a node, by their slots and their texts: its children and, where it is cut,
the mark of that. -/
def items (h : Heap) (bounds : Bounds) (depth : Nat) (path : List Ref) (r : Ref) :
    List (List Slot × String) :=
  ((h.shown bounds r).map fun c =>
      (c.label ++ h.slots bounds depth path c.value,
        c.print (h.print bounds depth path true c.value)))
    ++ if h.isCut bounds r then [([.marker .lengthReached], Marker.text .lengthReached)] else []

theorem slots_of_items {h : Heap} {path : List Ref} {r : Ref} (hr : r ∉ path) (bounds : Bounds)
    (depth : Nat) :
    h.slots bounds (depth + 1) path (.node r)
      = .opening r.shape
        :: ((items h bounds depth (r :: path) r).flatMap Prod.fst ++ [.closing r.shape]) := by
  rw [Heap.slots, if_neg hr, items, List.flatMap_append, List.flatMap_map]
  by_cases hcut : h.isCut bounds r = true
  · simp [hcut]
  · simp [hcut]

theorem print_of_items {h : Heap} {path : List Ref} {r : Ref} (hr : r ∉ path) (bounds : Bounds)
    (depth : Nat) (nested : Bool) :
    h.print bounds (depth + 1) path nested (.node r)
      = r.shape.enclose
          (", ".intercalate ((items h bounds depth (r :: path) r).map Prod.snd)) := by
  rw [Heap.print, if_neg hr, items, List.map_append, List.map_map]
  by_cases hcut : h.isCut bounds r = true
  · simp [hcut, Marker.text, Function.comp_def]
  · simp [hcut, Function.comp_def]

/-- **The slots of a value act as one slot that prints the value**, on any frames. -/
theorem steps_slots (style : Style) (h : Heap) (bounds : Bounds) (depth : Nat)
    (path : List Ref) (v : Value) (frames : List Frame) :
    steps style frames (h.slots bounds depth path v)
      = value (fun nested => h.print bounds depth path nested v) frames := by
  induction depth generalizing path v frames with
  | zero =>
    cases v with
    | scalar s =>
      simp only [Heap.slots, Heap.print]
      exact steps_scalar style s frames
    | foreign =>
      simp only [Heap.slots, Heap.print]
      exact steps_marker style .foreign frames
    | node r =>
      by_cases hr : r ∈ path
      · simp only [Heap.slots, Heap.print, if_pos hr]
        exact steps_marker style .cycle frames
      · have hfolded : r.shape.folded = (Marker.tooDeep r.shape).text := by
          cases r.shape <;> rfl
        simp only [Heap.slots, Heap.print, if_neg hr, hfolded]
        exact steps_marker style (.tooDeep r.shape) frames
  | succ depth ih =>
    cases v with
    | scalar s =>
      simp only [Heap.slots, Heap.print]
      exact steps_scalar style s frames
    | foreign =>
      simp only [Heap.slots, Heap.print]
      exact steps_marker style .foreign frames
    | node r =>
      by_cases hr : r ∈ path
      · simp only [Heap.slots, Heap.print, if_pos hr]
        exact steps_marker style .cycle frames
      -- what is inside is one level deeper, so each child is an item by the induction
      · have hitems : ∀ i ∈ items h bounds depth (r :: path) r, IsItem style r.shape i.1 i.2 := by
          intro i hi
          rcases List.mem_append.mp hi with hi | hi
          · obtain ⟨c, hc, rfl⟩ := List.mem_map.mp hi
            have hname := Heap.name_of_mem_children (List.mem_of_mem_take hc)
            have hchild := isItem_child hname (ih (r :: path) c.value)
            exact hchild
          · split at hi
            · rw [List.mem_singleton.mp hi]
              exact isItem_marker style r.shape .lengthReached
            · simp at hi
        simp only [print_of_items hr]
        rw [slots_of_items hr]
        exact steps_node hitems frames

/-! ## A message is printed whole -/

theorem value_of_not_nested {frames : List Frame} (h : isNested frames = false)
    (render : Bool → String) : value render frames = value (fun _ => render false) frames := by
  simp only [value, h]

/-- What a directive is recorded as acts as one slot with the text it prints, unless it is an
escaped character, which has no slot. -/
theorem steps_directive (style : Style) (m : Message) (clock : Clock) {d : Directive}
    (hd : d.isLiteral = false) {frames : List Frame} (hframes : isNested frames = false) :
    steps style frames (d.slots clock m.origin m.format m.args).1
      = value (fun _ => (m.directive clock d).1) frames := by
  have hargument : ∀ (bounds : Bounds) (v : Value),
      steps style frames (m.args.heap.slots bounds bounds.depth [] v)
        = value (fun _ => m.argument bounds v) frames := by
    intro bounds v
    rw [steps_slots, value_of_not_nested hframes]
    rfl
  have hscalar : ∀ s : Scalar,
      steps style frames [.scalar s] = value (fun _ => s.bare) frames := by
    intro s
    rw [steps_scalar, value_of_not_nested hframes]
    rfl
  have hbad : steps style frames [.marker .badArgument]
      = value (fun _ => Message.badArgument) frames := steps_marker style .badArgument frames
  cases d with
  | literal c => simp [Directive.isLiteral] at hd
  | expando e => cases e <;> exact hscalar _
  | scalar kind i =>
    simp only [Directive.slots, Directive.slot?, Message.directive, Option.toList_some]
    rcases m.args.values[i]? with _ | v
    · exact hbad
    · rcases v with s | _ | r
      · by_cases hfits : kind.fits s = true
        · simp only [ScalarKind.slot, Message.scalar, if_pos hfits]
          exact hscalar s
        · simp only [ScalarKind.slot, Message.scalar, if_neg hfits]
          exact hbad
      · exact hbad
      · exact hbad
  | general i =>
    simp only [Directive.slots, Message.directive]
    rcases m.args.values[i]? with _ | v
    · exact hbad
    · exact hargument Bounds.standard v
  | compound shape i bounds =>
    simp only [Directive.slots, Message.directive]
    rcases m.args.values[i]? with _ | v
    · exact hbad
    · rcases v with s | _ | r
      · exact hbad
      · exact hbad
      · by_cases hshape : r.shape = shape
        · simp only [if_pos hshape]
          exact hargument bounds (.node r)
        · simp only [if_neg hshape]
          exact hbad

/-- Recording a directive and printing it read the clock alike. -/
theorem clock_directive (m : Message) (clock : Clock) (d : Directive) :
    (d.slots clock m.origin m.format m.args).2 = (m.directive clock d).2 := by
  cases d with
  | literal c => rfl
  | expando e => cases e <;> rfl
  | scalar kind i => rfl
  | general i =>
    simp only [Directive.slots, Message.directive]
    cases m.args.values[i]? <;> rfl
  | compound shape i bounds =>
    simp only [Directive.slots, Message.directive]
    rcases m.args.values[i]? with _ | s | _ | r
    · rfl
    · rfl
    · rfl
    · by_cases hshape : r.shape = shape <;> simp [hshape]

/-- **The slots of some last directives print them with the text after each.** Escaped
characters are ahead of the slots: those that come first were printed already. -/
theorem steps_body (style : Style) (m : Message) (clock : Clock) (es : List Entry) :
    ∃ text, steps style [.message m.format (literals m.format es).2] (m.body clock es).1
        = { text := text, frames := [.message m.format []] } ∧
      (literals m.format es).1 ++ text = m.format.fill m.directive clock es := by
  induction es generalizing clock with
  | nil => exact ⟨"", by simp [literals, Message.body, steps], by simp [literals, Format.fill]⟩
  | cons e rest ih =>
    rw [Message.body, Format.fill]
    dsimp only
    by_cases hliteral : e.directive.isLiteral = true
    · obtain ⟨c, hc⟩ : ∃ c, e.directive = .literal c := by
        cases hd : e.directive <;> simp [hd, Directive.isLiteral] at hliteral ⊢
      -- it has no slot, but its text belongs to what comes before the next slot
      obtain ⟨text, hsteps, htext⟩ := ih clock
      refine ⟨text, ?_, ?_⟩
      · simpa [literals, hc, Directive.slots, Directive.slot?] using hsteps
      · have hchar : c.char.toString = String.ofList [c.char] := String.singleton_eq_ofList
        simp only [literals, hc, Message.directive, ← htext, hchar, String.append_assoc]
    · have hprints : e.directive.isLiteral = false := by simpa using hliteral
      -- the characters that come first end here, and those after the value are its trailing text
      have hstop : literals m.format (e :: rest) = ("", e :: rest) := by
        rw [literals]
        split
        · rename_i c hc
          simp [hc, Directive.isLiteral] at hprints
        · rfl
      obtain ⟨text, hsteps, htext⟩ := ih (m.directive clock e.directive).2
      rw [hstop, steps_append, steps_directive style m clock hprints rfl, clock_directive,
        ← htext]
      dsimp only [value, beforeValue, afterValue]
      rw [hsteps]
      exact ⟨_, rfl, by simp [String.append_assoc]⟩

/-- Before its end a message has printed all but the terminator, and only its own frame is
left. -/
theorem steps_start (style : Style) (m : Message) (frames : List Frame) :
    steps style frames m.start
      = { text := style.preamble m.format.name m.level
            ++ Template.fill m.directive 0 m.clock m.format.template
          frames := [.message m.format []]
          reports := if frames.isEmpty then [] else [.startedInsideMessage m.format.name] } := by
  obtain ⟨text, hsteps, htext⟩ := steps_body style m m.clock m.format.entries
  rw [Message.start, steps, steps]
  simp only [step, header, hsteps]
  simp [Step.followedBy, Format.fill_template, ← htext, String.append_assoc]

/-- **The slots of a message print the message**, whatever frames it comes upon, and leave
none. -/
theorem steps_message (style : Style) (m : Message) (frames : List Frame) :
    steps style frames m.slots
      = { text := m.print style
          frames := []
          reports := if frames.isEmpty then [] else [.startedInsideMessage m.format.name]
          ended := true } := by
  rw [Message.slots, steps_append, steps_start, steps_singleton]
  simp [step, endMessage, Step.followedBy, Message.print]

end Frame

end Logbook
