/-
The template of a layout, string by string.

A layout is written out as one template before it is compiled: its keys, texts and names, with
brackets, quotes, commas and colons between them. Directives are found in the template, and this
file shows that they are found in the strings. `Layout.parts` is the template as a list of parts,
and a part is a string of the layout or a mark around the strings.

A token has no quote in it and no mark starts one. So a token can neither go beyond the string it
starts in nor start outside of a string, and a place where no token starts stays one when a quote
and anything else follows, however far a search for the end of a clause may look.
-/
import Logbook.Proofs.Layout.Cycles
import Logbook.Proofs.Format.Beside
import Logbook.Proofs.Text.Words
import Logbook.Proofs.Format.Spans

set_option autoImplicit false

namespace Logbook

/-! ## Templates between quotes -/

namespace Template

variable {cs more : List Char} {offset : Nat} {c : Char}

theorem quote_not_mem_token {token : List Char} {d : Directive} (h : Token token d) :
    '"' ∉ token := fun hmem => absurd (h.isTokenChar '"' hmem) (by decide)

/-- **A quote ends every search for a token**, whatever comes behind it. -/
theorem NoToken.append_quote (h : NoToken cs) (more : List Char) :
    NoToken (cs ++ '"' :: more) := by
  rintro token d htoken ⟨rest, hrest⟩
  -- a token ends before the quote, and then it was one already, or it has the quote in it
  rcases List.append_eq_append_iff.mp hrest with ⟨tail, rfl, -⟩ | ⟨tail, rfl, hquote⟩
  · exact h token d htoken ⟨tail, rfl⟩
  · cases tail with
    | nil => exact h _ d htoken (by simp)
    | cons x tail =>
      obtain ⟨rfl, -⟩ := List.cons.inj hquote
      exact quote_not_mem_token htoken (by simp)

/-- A template between quotes goes wrong where it does by itself, behind the quote. -/
theorem StuckAt.in_quotes (h : StuckAt cs offset c) (more : List Char) :
    StuckAt ('"' :: (cs ++ '"' :: more)) (offset + 1) c := by
  obtain ⟨ps, rest, hps, rfl, rfl, hc, hno⟩ := h
  refine ⟨.plain '"' :: ps, rest ++ '"' :: more, ?_, by simp [Piece.text], ?_, hc,
    hno.append_quote more⟩
  · exact List.forall_mem_cons.mpr ⟨.plain (by decide) (by decide), hps⟩
  · have hquote : ('"').utf8Size = 1 := by decide
    rw [textOf_cons, Piece.text, Text.byteLength_append, Text.byteLength_cons, hquote]
    simp [Nat.add_comm]

/-- Behind a template that scans, another one goes wrong where it does by itself. -/
theorem StuckAt.behind {a : List Char} {es : List Entry} (ha : scan 0 0 a = .ok es)
    (h : StuckAt cs offset c) : StuckAt (a ++ cs) (offset + Text.byteLength a) c := by
  obtain ⟨qs, ⟨rfl, hqs⟩, -⟩ := scan_eq_ok_iff.mp ha
  obtain ⟨ps, rest, hps, rfl, rfl, hc, hno⟩ := h
  have htext : textOf (qs ++ ps) = textOf qs ++ textOf ps := List.flatMap_append
  refine ⟨qs ++ ps, rest, List.forall_mem_append.mpr ⟨hqs, hps⟩, ?_, ?_, hc, hno⟩
  · rw [htext, List.append_assoc]
  · rw [htext, Text.byteLength_append, Nat.add_comm]

/-- Text in which nothing starts a token has no directives. -/
theorem scan_of_plain (h : ∀ c ∈ cs, c ≠ '#' ∧ c ≠ '$') : scan 0 0 cs = .ok [] := by
  have hall : ∀ offset, scan 0 offset cs = .ok [] := by
    induction cs with
    | nil => exact fun _ => rfl
    | cons c cs ih =>
      obtain ⟨⟨hhash, hdollar⟩, hcs⟩ := List.forall_mem_cons.mp h
      intro offset
      rw [scan_plain hhash hdollar]
      exact ih hcs _
  exact hall 0

/-- A text is one directive exactly if it is one token, and not that of an escaped character. -/
theorem isDirective_iff : isDirective cs = true ↔ ∃ d, Token cs d ∧ d.isLiteral = false := by
  cases cs with
  | nil =>
    refine ⟨fun h => by simp [isDirective] at h, ?_⟩
    rintro ⟨d, htoken, -⟩
    obtain ⟨c, rest, hnil, -⟩ := htoken.eq_cons
    simp at hnil
  | cons c cs =>
    simp only [isDirective]
    constructor
    · intro h
      split at h
      · rename_i d width hread
        obtain ⟨token, rest, rfl, htoken, rfl⟩ := readToken_eq_ok_iff.mp hread
        simp only [Bool.and_eq_true, Bool.not_eq_true', beq_iff_eq, List.length_append] at h
        obtain rfl : rest = [] := List.length_eq_zero_iff.mp (by omega)
        exact ⟨d, by rwa [List.append_nil], h.1⟩
      · simp at h
    · rintro ⟨d, htoken, hd⟩
      have hread : readToken c cs = some (.ok (d, cs.length)) :=
        readToken_eq_ok_iff.mpr ⟨cs, [], (List.append_nil cs).symm, htoken, rfl⟩
      rw [hread]
      simp [hd]

end Template

/-! ## The parts of a layout -/

namespace Layout

/-- What a string is in a layout. -/
inductive Role where
  | key
  | text
  | callable
  deriving DecidableEq, Repr

/-- A stretch of the template of a layout. -/
inductive Part where
  /-- The bracket of a node and the blank inside of it. -/
  | opening (shape : Shape)
  | closing (shape : Shape)
  /-- What is written between the strings, or for a value that has no string. -/
  | mark (text : String)
  /-- A string of the layout, between quotes or as it is. -/
  | string (role : Role) (quoted : Bool) (s : String)
  deriving DecidableEq, Repr

def opening : Shape → String
  | .record => "\x7b "
  | .sequence => "[ "

def closing : Shape → String
  | .record => " \x7d"
  | .sequence => " ]"

namespace Part

def text : Part → List Char
  | .opening shape => (Layout.opening shape).toList
  | .closing shape => (Layout.closing shape).toList
  | .mark s => s.toList
  | .string _ true s => '"' :: (s.toList ++ ['"'])
  | .string _ false s => s.toList

def string? : Part → Option String
  | .string _ _ s => some s
  | _ => none

end Part

def textOf (ps : List Part) : List Char := ps.flatMap Part.text

/-- The keys, texts and names among some parts. -/
def strings (ps : List Part) : List String := ps.filterMap Part.string?

def scalarPart : Scalar → Part
  | .null => .mark "null"
  | .bool b => .mark (if b then "true" else "false")
  | .number n => .mark n.text
  | .text s => .string .text (!Template.isDirective s.toList) s
  | .time t => .mark (quote t.text)
  | .callable name => .string .callable true name

def labelParts : Option String → List Part
  | some name => [.string .key true name, .mark ": "]
  | none => []

/-- **A layout in document order**, each key before its value, given the nodes it is inside of. -/
def parts (h : Heap) (path : List Ref) (v : Value) : List Part :=
  match v with
  | .scalar s => [scalarPart s]
  | .foreign => [.mark (quote "<Value>")]
  | .node r =>
    if _hp : r ∈ path then []
    else
      .opening r.shape :: ([.mark ", "].intercalate
        ((h.children r).attach.map fun ⟨c, _⟩ => labelParts c.name ++ parts h (r :: path) c.value)
          ++ [.closing r.shape])
termination_by h.free path
decreasing_by exact Heap.free_cons_lt (Heap.mem_refs_of_mem_children ‹_›) _hp

variable {h : Heap} {path : List Ref} {r : Ref} {p : Part} {ps : List Part}

theorem parts_node (hr : r ∉ path) :
    parts h path (.node r)
      = .opening r.shape :: ([.mark ", "].intercalate
          ((h.children r).map fun c => labelParts c.name ++ parts h (r :: path) c.value)
            ++ [.closing r.shape]) := by
  rw [parts, dif_neg hr]
  simp

@[simp] theorem textOf_nil : textOf [] = [] := rfl

@[simp] theorem textOf_cons (p : Part) (ps : List Part) :
    textOf (p :: ps) = p.text ++ textOf ps := rfl

@[simp] theorem textOf_append (ps qs : List Part) :
    textOf (ps ++ qs) = textOf ps ++ textOf qs := List.flatMap_append

theorem forall_strings_cons {P : String → Prop} :
    (∀ s ∈ strings (p :: ps), P s) ↔ (∀ s ∈ p.string?, P s) ∧ ∀ s ∈ strings ps, P s := by
  cases hp : p.string? <;> simp [strings, hp]

theorem toList_enclose (shape : Shape) (inner : String) :
    (enclose shape inner).toList
      = (opening shape).toList ++ (inner.toList ++ (closing shape).toList) := by
  cases shape <;> simp [enclose, opening, closing]

theorem toList_label (name : Option String) :
    (label name).toList = textOf (labelParts name) := by
  cases name <;> simp [label, labelParts, Part.text, quote]

theorem flatMap_intercalate {α β : Type} (f : α → List β) (x : α) (xss : List (List α)) :
    ([x].intercalate xss).flatMap f = (f x).intercalate (xss.map (·.flatMap f)) := by
  induction xss with
  | nil => rfl
  | cons xs xss ih =>
    cases xss with
    | nil => simp
    | cons ys xss =>
      rw [List.intercalate_cons_cons, List.map_cons, List.map_cons, List.intercalate_cons_cons,
        ← List.map_cons, ← ih]
      simp

/-- **The template of a layout is its parts**, one behind the other. -/
theorem toList_write (h : Heap) (path : List Ref) (v : Value) :
    (write h path v).toList = textOf (parts h path v) := by
  induction path, v using parts.induct h with
  | case1 path s =>
    rw [write, parts]
    cases s with
    | text s =>
      by_cases hs : Template.isDirective s.toList = true <;>
        simp [scalar, scalarPart, hs, Part.text, quote]
    | null | bool b | number n | time t | callable name =>
      simp [scalar, scalarPart, Part.text, quote]
  | case2 path => simp [write, parts, Part.text]
  | case3 path r hr => simp [write, parts, hr]
  | case4 path r hr ih =>
    have hchildren : ((h.children r).map fun c =>
          (label c.name ++ write h (r :: path) c.value).toList)
        = (h.children r).map fun c => textOf (labelParts c.name ++ parts h (r :: path) c.value) :=
      List.map_congr_left fun c hc => by
        rw [String.toList_append, toList_label, ih c hc, textOf_append]
    rw [write_node hr, toList_enclose, String.toList_intercalate, List.map_map, Function.comp_def,
      hchildren, parts_node hr, textOf_cons, textOf_append, textOf, flatMap_intercalate,
      List.map_map, Function.comp_def]
    simp [Part.text, textOf]

/-! ## How the parts are written -/

/-- What a part is written for. -/
inductive Part.Written : Part → Prop where
  | scalar (s : Scalar) : Written (scalarPart s)
  | foreign : Written (.mark (quote "<Value>"))
  | key (name : String) : Written (.string .key true name)
  | colon : Written (.mark ": ")
  | comma : Written (.mark ", ")
  | opening (shape : Shape) : Written (.opening shape)
  | closing (shape : Shape) : Written (.closing shape)

theorem written_label (name : Option String) : ∀ p ∈ labelParts name, p.Written := by
  cases name with
  | none => simp [labelParts]
  | some name => exact List.forall_mem_cons.mpr ⟨.key name, List.forall_mem_singleton.mpr .colon⟩

theorem mem_intercalate {α : Type} {x : α} {sep : List α} {xss : List (List α)}
    (hx : x ∈ sep.intercalate xss) : x ∈ sep ∨ ∃ xs ∈ xss, x ∈ xs := by
  induction xss with
  | nil => simp at hx
  | cons xs xss ih =>
    cases xss with
    | nil => exact .inr ⟨xs, List.mem_cons_self, by simpa using hx⟩
    | cons ys xss =>
      rw [List.intercalate_cons_cons, List.mem_append, List.mem_append] at hx
      rcases hx with (hx | hx) | hx
      · exact .inr ⟨xs, List.mem_cons_self, hx⟩
      · exact .inl hx
      · rcases ih hx with hx | ⟨zs, hzs, hx⟩
        · exact .inl hx
        · exact .inr ⟨zs, List.mem_cons_of_mem xs hzs, hx⟩

theorem mem_intercalate_of_mem {α : Type} {x : α} {xs : List α} (sep : List α)
    {xss : List (List α)} (hxs : xs ∈ xss) (hx : x ∈ xs) : x ∈ sep.intercalate xss := by
  induction xss with
  | nil => simp at hxs
  | cons ys xss ih =>
    cases xss with
    | nil =>
      rw [List.mem_singleton.mp hxs] at hx
      simpa using hx
    | cons zs xss =>
      rw [List.intercalate_cons_cons, List.mem_append]
      rcases List.mem_cons.mp hxs with rfl | hxs
      · exact .inl (List.mem_append_left sep hx)
      · exact .inr (ih hxs)

theorem written_parts (h : Heap) (path : List Ref) (v : Value) :
    ∀ p ∈ parts h path v, p.Written := by
  induction path, v using parts.induct h with
  | case1 path s =>
    rw [parts]
    exact List.forall_mem_singleton.mpr (.scalar s)
  | case2 path =>
    rw [parts]
    exact List.forall_mem_singleton.mpr .foreign
  | case3 path r hr => simp [parts, hr]
  | case4 path r hr ih =>
    rw [parts_node hr, List.forall_mem_cons, List.forall_mem_append]
    refine ⟨.opening r.shape, fun p hp => ?_, List.forall_mem_singleton.mpr (.closing r.shape)⟩
    rcases mem_intercalate hp with hcomma | ⟨ps, hps, hp⟩
    · rw [List.mem_singleton.mp hcomma]
      exact .comma
    · obtain ⟨c, hc, rfl⟩ := List.mem_map.mp hps
      rcases List.mem_append.mp hp with hlabel | hvalue
      · exact written_label c.name p hlabel
      · exact ih c hc p hvalue

/-- A string that is one whole expando or argument formatter. -/
def IsLive (s : String) : Prop :=
  ∃ d, Template.Token s.toList d ∧ d.isLiteral = false

/-- A character that starts no directive and breaks no line. -/
def isInert (c : Char) : Bool := c ∉ ['#', '$', '\n', '\r']

/-- **How the parts of a layout stand in it.** What is around the strings is plain text on one
line, and the only strings without quotes are texts that are one whole directive. -/
inductive Part.Stands : Part → Prop where
  | around {p : Part} (hnone : p.string? = none) (h : p.text.all isInert = true) : Stands p
  | quoted {role : Role} {s : String} (h : role = .text → ¬ IsLive s) :
    Stands (.string role true s)
  | live {s : String} (h : IsLive s) : Stands (.string .text false s)

theorem isInert_of_class {q : Char → Bool} (hq : ['#', '$', '\n', '\r'].any q = false)
    {c : Char} (hc : q c = true) : isInert c = true := by
  refine decide_eq_true fun hmem => ?_
  exact List.any_eq_false.mp hq c hmem hc

theorem stands_scalar (s : Scalar) : (scalarPart s).Stands := by
  cases s with
  | null => exact .around rfl (by decide)
  | bool b => cases b <;> exact .around rfl (by decide)
  | number n =>
    have hword := n.isWord_text.isWordChar
    refine .around rfl (List.all_eq_true.mpr fun c hc => ?_)
    exact isInert_of_class (q := Text.isWordChar) (by decide) (hword c hc)
  | text s =>
    by_cases hs : Template.isDirective s.toList = true
    · simp only [scalarPart, hs, Bool.not_true]
      exact .live (Template.isDirective_iff.mp hs)
    · simp only [scalarPart, hs, Bool.not_false]
      exact .quoted fun _ hlive => hs (Template.isDirective_iff.mpr hlive)
  | time t =>
    have htext : t.text.toList.all isInert = true := List.all_eq_true.mpr fun c hc =>
      isInert_of_class (q := Instant.isTextChar) (by decide) (t.isTextChar_text c hc)
    refine .around rfl ?_
    simp only [scalarPart, Part.text, quote, String.toList_append, List.all_append, htext]
    decide
  | callable name => exact .quoted (by simp)

theorem Part.Written.stands (hp : p.Written) : p.Stands := by
  cases hp with
  | scalar s => exact stands_scalar s
  | key name => exact .quoted (by simp)
  | opening shape | closing shape => cases shape <;> exact .around rfl (by decide)
  | foreign | colon | comma => exact .around rfl (by decide)

theorem stands_parts (h : Heap) (path : List Ref) (v : Value) :
    ∀ p ∈ parts h path v, p.Stands :=
  fun p hp => (written_parts h path v p hp).stands

/-! ## The directives of the parts -/

/-- The directives of a string, as they stand in the string. -/
def entriesOf (name : String) (s : String) : List Entry :=
  match Format.compile name s.toList with
  | .ok f => f.entries
  | .error _ => []

def Part.entries (name : String) : Part → List Entry
  | .string _ quoted s => (entriesOf name s).map (Entry.moved (if quoted then 1 else 0))
  | _ => []

/-- **The directives of the strings among some parts**, in order, each moved to where its string
stands. The parts start at a byte offset. -/
def entriesFrom (name : String) : (offset : Nat) → List Part → List Entry
  | _, [] => []
  | offset, p :: ps =>
    (p.entries name).map (Entry.moved offset)
      ++ entriesFrom name (offset + Text.byteLength p.text) ps

/-- A string that compiles by itself. -/
def Compiles (name : String) (s : String) : Prop := ∃ f, Format.compile name s.toList = .ok f

variable {name : String}

theorem Compiles.scan {s : String} (hs : Compiles name s) :
    Template.scan 0 0 s.toList = .ok (entriesOf name s) := by
  obtain ⟨f, hf⟩ := hs
  rw [entriesOf, hf]
  exact (Format.compile_eq_ok_iff.mp hf).2.2.2

theorem map_moved_zero (es : List Entry) : es.map (Entry.moved 0) = es :=
  (List.map_congr_left fun _ _ => rfl).trans (List.map_id es)

theorem map_moved_map_moved (m n : Nat) (es : List Entry) :
    (es.map (Entry.moved m)).map (Entry.moved n) = es.map (Entry.moved (m + n)) := by
  simp [Entry.moved, Span.moved, Nat.add_assoc]

theorem entriesFrom_add (name : String) (offset n : Nat) (ps : List Part) :
    entriesFrom name (offset + n) ps = (entriesFrom name offset ps).map (Entry.moved n) := by
  induction ps generalizing offset with
  | nil => rfl
  | cons p ps ih =>
    rw [entriesFrom, entriesFrom, Nat.add_right_comm, ih, List.map_append, map_moved_map_moved]

/-- A part is read by itself as the string in it is. -/
theorem scan_text (hp : p.Stands) (hs : ∀ s ∈ p.string?, Compiles name s) :
    Template.scan 0 0 p.text = .ok (p.entries name) := by
  cases hp with
  | around hnone hall =>
    have hentries : p.entries name = [] := by
      cases p with
      | string role quoted s => simp [Part.string?] at hnone
      | opening shape | closing shape | mark s => rfl
    rw [hentries]
    refine Template.scan_of_plain fun c hc => ?_
    have hinert := of_decide_eq_true (List.all_eq_true.mp hall c hc)
    simp only [List.mem_cons, not_or] at hinert
    exact ⟨hinert.1, hinert.2.1⟩
  | @quoted role s h =>
    -- the string stands behind one quote and before another, and neither changes how it scans
    have hquote : Template.scan 0 0 ['"'] = .ok [] := Template.scan_of_plain (by simp)
    have hinside := (hs s rfl).scan
    have hbehind := Template.scan_append_of_ok hinside ['"']
    have hall := Template.scan_append_of_ok hquote (s.toList ++ ['"'])
    have hwidth : Text.byteLength ['"'] = 1 := rfl
    rw [hquote] at hbehind
    rw [hbehind, hwidth] at hall
    simpa [Part.text, Part.entries] using hall
  | @live s h =>
    rw [Part.entries, if_neg (by simp), map_moved_zero]
    exact (hs s rfl).scan

/-- **The directives of a layout are those of its strings**, where these stand. -/
theorem scan_textOf (hps : ∀ p ∈ ps, p.Stands) (hs : ∀ s ∈ strings ps, Compiles name s) :
    Template.scan 0 0 (textOf ps) = .ok (entriesFrom name 0 ps) := by
  induction ps with
  | nil => rfl
  | cons p ps ih =>
    obtain ⟨hp, hrest⟩ := List.forall_mem_cons.mp hps
    obtain ⟨hfirst, hothers⟩ := forall_strings_cons.mp hs
    rw [textOf_cons, Template.scan_append_of_ok (scan_text hp hfirst), ih hrest hothers,
      entriesFrom, map_moved_zero, entriesFrom_add]

/-! ## What goes wrong in a layout -/

/-- A directive that is written as it is does not go wrong. -/
theorem IsLive.compiles {s : String} (h : IsLive s) (name : String) : Compiles name s := by
  obtain ⟨d, htoken, -⟩ := h
  obtain ⟨f, hf, -⟩ := Format.compile_token name htoken
  exact ⟨f, hf⟩

/-- Where a string stands behind some parts. -/
def place (before : List Part) (quoted : Bool) : Nat :=
  Text.byteLength (textOf before) + if quoted then 1 else 0

/-- **The template goes wrong where its first string does** that goes wrong by itself. -/
theorem stuckAt_textOf {before after : List Part} {role : Role} {quoted : Bool} {s : String}
    {offset : Nat} {c : Char} (hps : ∀ p ∈ before ++ .string role quoted s :: after, p.Stands)
    (hbefore : ∀ s' ∈ strings before, Compiles name s')
    (hs : Template.StuckAt s.toList offset c) :
    Template.StuckAt (textOf (before ++ .string role quoted s :: after))
      (offset + place before quoted) c := by
  obtain ⟨hstands, hothers⟩ := List.forall_mem_append.mp hps
  have hscan := scan_textOf hstands hbefore
  cases List.forall_mem_cons.mp hothers |>.1 with
  | around hnone => simp [Part.string?] at hnone
  | quoted h =>
    have hstuck := (hs.in_quotes (textOf after)).behind hscan
    rw [place, if_pos rfl, Nat.add_comm (Text.byteLength _), ← Nat.add_assoc]
    simpa [Part.text] using hstuck
  | live h =>
    -- a directive compiles, so it is not the string that goes wrong
    obtain ⟨fault, hfault, -⟩ := Template.scan_of_stuckAt hs
    rw [(h.compiles name).scan] at hfault
    contradiction

theorem oneLine_text (hp : p.Stands) :
    Format.OneLine p.text ↔ ∀ s ∈ p.string?, Format.OneLine s.toList := by
  cases hp with
  | around hnone hall =>
    have hinert : ∀ c ∈ ['\n', '\r'], c ∉ p.text := by
      intro c hc hmem
      refine absurd (List.all_eq_true.mp hall c hmem) ?_
      simp only [List.mem_cons, List.not_mem_nil, or_false] at hc
      rcases hc with rfl | rfl <;> decide
    simp only [hnone, Option.mem_def, reduceCtorEq, false_implies, implies_true, iff_true]
    exact ⟨hinert _ (by simp), hinert _ (by simp)⟩
  | quoted h => simp [Part.text, Part.string?, Format.OneLine]
  | live h => simp [Part.text, Part.string?]

theorem oneLine_textOf (hps : ∀ p ∈ ps, p.Stands) :
    Format.OneLine (textOf ps) ↔ ∀ s ∈ strings ps, Format.OneLine s.toList := by
  induction ps with
  | nil => simp [strings, Format.OneLine]
  | cons p ps ih =>
    obtain ⟨hp, hrest⟩ := List.forall_mem_cons.mp hps
    rw [textOf_cons, Format.oneLine_append, oneLine_text hp, ih hrest, forall_strings_cons]

/-- If not all strings compile there is a first one that does not. -/
theorem exists_first_refused (hs : ¬ ∀ s ∈ strings ps, Compiles name s) :
    ∃ before role quoted s after, ps = before ++ .string role quoted s :: after ∧
      (∀ s' ∈ strings before, Compiles name s') ∧ ¬ Compiles name s := by
  induction ps with
  | nil => exact absurd (by simp [strings]) hs
  | cons p ps ih =>
    by_cases hp : ∀ s ∈ p.string?, Compiles name s
    · have hrest : ¬ ∀ s ∈ strings ps, Compiles name s :=
        fun hrest => hs (forall_strings_cons.mpr ⟨hp, hrest⟩)
      obtain ⟨before, role, quoted, s, after, rfl, hbefore, hfails⟩ := ih hrest
      exact ⟨p :: before, role, quoted, s, after, rfl,
        forall_strings_cons.mpr ⟨hp, hbefore⟩, hfails⟩
    · cases p with
      | opening shape | closing shape | mark s => simp [Part.string?] at hp
      | string role quoted s =>
        have hfails : ¬ Compiles name s := fun h => hp fun s' hs' => by
          rw [← Option.some.inj hs']
          exact h
        exact ⟨[], role, quoted, s, ps, rfl, by simp [strings], hfails⟩

end Layout

/-- **Refusals of one kind at one place.** A formatter may be refused for another reason. -/
inductive CompileError.Alike : CompileError → CompileError → Prop where
  | unknownExpando (name : String) (offset : Nat) :
    Alike (.unknownExpando name offset) (.unknownExpando name offset)
  | badFormatter (name : String) (offset : Nat) (fault fault' : FormatterFault) :
    Alike (.badFormatter name offset fault) (.badFormatter name offset fault')

namespace Format

open Layout

/-- A template that goes wrong where another one does, further on, is refused alike. -/
theorem compile_alike {name : String} {cs ds : List Char} {n : Nat} {e : CompileError}
    (hcs : OneLine cs) (hds : OneLine ds) (he : compile name cs = .error e)
    (hstuck : ∀ offset c, Template.StuckAt cs offset c → Template.StuckAt ds (offset + n) c) :
    ∃ e', compile name ds = .error e' ∧ e'.Alike (e.moved n) := by
  rcases compile_eq_error_iff.mp he with ⟨hbreak, -⟩ | ⟨-, offset, fault, hscan, rfl⟩
  · exact absurd hcs hbreak
  obtain ⟨c, hat, hfault⟩ := Template.stuckAt_of_scan hscan
  obtain ⟨fault', hscan', hfault'⟩ := Template.scan_of_stuckAt (hstuck offset c hat)
  refine ⟨_, compile_of_fault name hds hscan', ?_⟩
  -- the character that starts the token tells what kind of fault it is
  rcases hfault with ⟨rfl, rfl⟩ | ⟨rfl, f, rfl⟩ <;>
    rcases hfault' with ⟨hc, rfl⟩ | ⟨hc, f', rfl⟩
  · exact .unknownExpando name _
  · exact absurd hc (by decide)
  · exact absurd hc (by decide)
  · exact .badFormatter name _ f' f

/-- **A layout compiles string by string.** Take any record or sequence from which no cycle can be
reached, with whatever keys, texts and names in it.

* Its template is its parts in document order, and the strings that are written without quotes
  are the texts that are one whole expando or argument formatter.
* It is refused for a line break exactly if one of its strings has one.
* Without line breaks it compiles exactly if each of its strings does by itself. Then its
  directives are those of the strings, each moved to where its string stands, and no others.
* Otherwise the first string that is refused by itself decides: the layout is refused for a fault
  of the same kind, at the place of that fault in the string, moved to where the string stands. -/
theorem layout_by_strings (name : String) (h : Heap) (root : Ref) (hacyclic : ¬ h.Loops root) :
    let ps := parts h [] (.node root)
    (write h [] (.node root)).toList = Layout.textOf ps ∧
    (∀ role quoted s, .string role quoted s ∈ ps →
      (quoted = false ↔ role = .text ∧ IsLive s)) ∧
    (ofLayout name h (.node root) = .error (.lineBreak name) ↔
      ∃ s ∈ strings ps, ¬ OneLine s.toList) ∧
    ((∀ s ∈ strings ps, OneLine s.toList) →
      ((∃ f, ofLayout name h (.node root) = .ok f) ↔
        ∀ s ∈ strings ps, ∃ f, compile name s.toList = .ok f) ∧
      (∀ f, ofLayout name h (.node root) = .ok f →
        f.template = Layout.textOf ps ∧ f.entries = Layout.entriesFrom name 0 ps) ∧
      (∀ before role quoted s after e, ps = before ++ .string role quoted s :: after →
        (∀ s' ∈ strings before, ∃ f, compile name s'.toList = .ok f) →
        compile name s.toList = .error e →
        ∃ e', ofLayout name h (.node root) = .error e' ∧
          e'.Alike (e.moved (place before quoted)))) := by
  intro ps
  have hstands : ∀ p ∈ ps, p.Stands := stands_parts h [] (.node root)
  -- without cycles nothing is left out, so the parts are all that is compiled
  have hwrite : (write h [] (.node root)).toList = Layout.textOf ps := toList_write h [] _
  have hcompile : ofLayout name h (.node root) = compile name (Layout.textOf ps) := by
    rw [ofLayout_node, if_neg (mt Heap.reenters_iff_loops.mp hacyclic), hwrite]
  have hrefused : ∀ before role quoted s after e, ps = before ++ .string role quoted s :: after →
      (∀ s' ∈ strings ps, OneLine s'.toList) → (∀ s' ∈ strings before, Compiles name s') →
      compile name s.toList = .error e →
      ∃ e', compile name (Layout.textOf ps) = .error e' ∧
        e'.Alike (e.moved (place before quoted)) := by
    intro before role quoted s after e hps hlines hbefore he
    have hs : s ∈ strings ps := by
      rw [hps]
      simp [strings, Part.string?]
    have hline := (oneLine_textOf hstands).mpr hlines
    refine compile_alike (hlines s hs) hline he fun offset c hat => ?_
    rw [hps] at hstands ⊢
    exact stuckAt_textOf hstands hbefore hat
  refine ⟨hwrite, ?_, ?_, ?_⟩
  · intro role quoted s hmem
    cases hstands _ hmem with
    | around hnone => simp [Part.string?] at hnone
    | quoted h => simpa using h
    | live h => simpa using h
  · rw [hcompile, compile_eq_lineBreak_iff, oneLine_textOf hstands]
    simp
  · intro hlines
    have hline := (oneLine_textOf hstands).mpr hlines
    rw [hcompile]
    -- a string that is refused gets the whole layout refused, so if this compiles all of them do
    have hall : ∀ f, compile name (Layout.textOf ps) = .ok f →
        ∀ s ∈ strings ps, Compiles name s := by
      intro f hf
      refine Classical.byContradiction fun hnot => ?_
      obtain ⟨before, role, quoted, s, after, hps, hbefore, hfails⟩ := exists_first_refused hnot
      cases hs : compile name s.toList with
      | ok g => exact hfails ⟨g, hs⟩
      | error e =>
        obtain ⟨e', he', -⟩ := hrefused before role quoted s after e hps hlines hbefore hs
        rw [hf] at he'
        contradiction
    refine ⟨⟨fun ⟨f, hf⟩ => hall f hf, fun hs => ?_⟩, fun f hf => ?_, ?_⟩
    · exact ⟨_, compile_of_scan name hline (scan_textOf hstands hs)⟩
    · obtain ⟨-, -, htemplate, hentries⟩ := compile_eq_ok_iff.mp hf
      rw [scan_textOf hstands (hall f hf)] at hentries
      exact ⟨htemplate, (Except.ok.inj hentries).symm⟩
    · intro before role quoted s after e hps hbefore he
      exact hrefused before role quoted s after e hps hlines hbefore he

/-- A bounds clause that is left open in one string, and a later string that would close it. -/
theorem layout_with_open_clause :
    let r : Ref := ⟨.sequence, 0⟩
    let items : Array Value := #[.scalar (.text "#msg_name"), .scalar (.text "$\x7b0:o<1"),
      .scalar (.text "2>\x7d")]
    let h : Heap := ⟨#[], #[items]⟩
    ¬ h.Loops r ∧
      (write h [] (.node r)).toList = "[ #msg_name, \"$\x7b0:o<1\", \"2>\x7d\" ]".toList ∧
      ∃ e, ofLayout "open" h (.node r) = .error e ∧
        e.Alike (.badFormatter "open" 14 .boundsNotEnded) := by
  intro r items h
  have hchildren : h.children r = items.toList.map (⟨none, ·⟩) := rfl
  have hacyclic : ¬ h.Loops r := by
    rw [← Heap.reenters_iff_loops, Heap.reenters_node List.not_mem_nil, hchildren]
    simp [items, Heap.reenters]
  have hlive : Template.isDirective "#msg_name".toList = true := by rfl
  have hplain : Template.isDirective "$\x7b0:o<1".toList = false := by rfl
  have hplain' : Template.isDirective "2>\x7d".toList = false := by rfl
  have hps : parts h [] (.node r)
      = [.opening .sequence, .string .text false "#msg_name", .mark ", "]
          ++ .string .text true "$\x7b0:o<1"
            :: [.mark ", ", .string .text true "2>\x7d", .closing .sequence] := by
    rw [parts_node List.not_mem_nil, hchildren]
    simp only [items, List.map_cons, List.map_nil, parts, labelParts, scalarPart, hlive, hplain,
      hplain']
    rfl
  obtain ⟨hwrite, -, -, hscan⟩ := layout_by_strings "open" h r hacyclic
  rw [hps] at hwrite hscan
  obtain ⟨-, -, hrefused⟩ := hscan (by simp only [OneLine]; decide)
  have hfirst : ∀ s ∈ strings [.opening .sequence, .string .text false "#msg_name", .mark ", "],
      ∃ f, compile "open" s.toList = .ok f :=
    List.forall_mem_singleton.mpr ⟨_, rfl⟩
  have hopen : compile "open" "$\x7b0:o<1".toList
      = .error (.badFormatter "open" 0 .boundsNotEnded) := by rfl
  exact ⟨hacyclic, hwrite, hrefused _ _ _ _ _ _ rfl hfirst hopen⟩

end Format

end Logbook
