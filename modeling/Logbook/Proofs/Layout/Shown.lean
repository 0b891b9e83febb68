/-
A layout and the same value as an argument.

Two printers write nodes out. One makes the template of a layout, with blanks inside of brackets;
the other one is that of the arguments. For a layout that holds constant text only, they write the
same parts in the same order, and a part is written differently in two cases: the brackets, by a
blank, and the strings, because the template has them between quotes as they are where the other
printer escapes them.

So the two texts agree, up to the blanks, as long as no string has anything to escape. With a quote
or a backslash in one of them they do not: a text that is escaped has more backslashes.
-/
import Logbook.Proofs.Layout.Strings
import Logbook.Proofs.Emission.Reader

set_option autoImplicit false

namespace Logbook

namespace Layout

/-! ## Blanks inside of brackets -/

def isOpening (c : Char) : Bool := c == '{' || c == '['

def isClosing (c : Char) : Bool := c == '}' || c == ']'

/-- **A text without the blanks just inside its brackets.** Brackets between quotes do not count.
It is known whether the text starts between quotes, and whether it starts behind an opening
bracket. -/
def snug (quoted opened : Bool) : List Char → List Char
  | [] => []
  | c :: cs =>
    let rest := snug (quoted != (c == '"')) (!quoted && isOpening c) cs
    if !quoted && c == ' ' && (opened || cs.head?.any isClosing) then rest else c :: rest

variable {quoted opened : Bool} {cs rest s : List Char} {c : Char}

theorem snug_keep (h : quoted = true ∨ c ≠ ' ') :
    snug quoted opened (c :: cs)
      = c :: snug (quoted != (c == '"')) (!quoted && isOpening c) cs := by
  have hkeep : ¬ (!quoted && c == ' ' && (opened || cs.head?.any isClosing)) = true := by
    rcases h with rfl | hc
    · simp
    · simp [hc]
  rw [snug, if_neg hkeep]

theorem snug_word (hs : Text.IsWord s) (rest : List Char) :
    snug false opened (s ++ rest) = s ++ snug false false rest := by
  obtain ⟨hne, hall⟩ := hs
  induction s generalizing opened with
  | nil => exact absurd rfl hne
  | cons c s ih =>
    obtain ⟨hc, hs⟩ := List.forall_mem_cons.mp hall
    have hquote : (c == '"') = false := by simpa using Text.ne_of_class hc (by decide)
    have hopening : isOpening c = false := by
      simp [isOpening, Text.ne_of_class hc (show Text.isWordChar '{' = false by decide),
        Text.ne_of_class hc (show Text.isWordChar '[' = false by decide)]
    rw [List.cons_append, snug_keep (.inr (Text.ne_of_class hc (by decide))), hquote, hopening]
    cases s with
    | nil => rfl
    | cons c' s => exact congrArg (c :: ·) (ih (by simp) hs)

/-- Between quotes nothing changes. -/
theorem snug_quoted (hs : Text.IsPlain s) (rest : List Char) :
    snug false opened ('"' :: (s ++ '"' :: rest)) = '"' :: (s ++ '"' :: snug false false rest) := by
  have hinside : ∀ opened,
      snug true opened (s ++ '"' :: rest) = s ++ '"' :: snug false false rest := by
    induction s with
    | nil => exact fun opened => snug_keep (.inl rfl)
    | cons c s ih =>
      obtain ⟨hc, hs⟩ := List.forall_mem_cons.mp hs
      intro opened
      have hquote : (c == '"') = false := by simpa using (not_or.mp hc).1
      rw [List.cons_append, snug_keep (.inl rfl), hquote]
      exact congrArg (c :: ·) (ih hs _)
  rw [snug_keep (.inr (by decide))]
  exact congrArg ('"' :: ·) (hinside _)

theorem count_snug (quoted opened : Bool) (cs : List Char) :
    (snug quoted opened cs).count '\\' = cs.count '\\' := by
  induction cs generalizing quoted opened with
  | nil => rfl
  | cons c cs ih =>
    rw [snug]
    split
    · rename_i hblank
      have hc : c = ' ' := by simp at hblank; exact hblank.1.2
      rw [ih, hc, List.count_cons_of_ne (by decide)]
    · rw [List.count_cons, List.count_cons, ih]

/-! ## The parts as an argument shows them -/

/-- A part of a layout as it is shown in an argument. -/
def Part.shown : Part → List Char
  | .opening shape => shape.openingBracket.toList
  | .closing shape => shape.closingBracket.toList
  | .mark s => s.toList
  | .string .callable _ name => (Scalar.callable name).inside.toList
  | .string _ _ s => (Text.quoted s).toList

def shownOf (ps : List Part) : List Char := ps.flatMap Part.shown

theorem shown_scalarPart (s : Scalar) : (scalarPart s).shown = s.inside.toList := by
  cases s <;> rfl

theorem toList_child_print (c : Child) (value : String) :
    (c.print value).toList = shownOf (labelParts c.name) ++ value.toList := by
  cases hname : c.name <;> simp [Child.print, hname, labelParts, shownOf, Part.shown]

/-- **What is printed for a value is its parts as shown**, if it does not contain itself and the
bounds leave nothing out. -/
theorem toList_print {h : Heap} (hchildren : ∀ r, (h.children r).length < Bounds.unbounded)
    {depth : Nat} {path : List Ref} {v : Value} (hv : h.reenters path v = false)
    (hdepth : h.free path < depth) :
    (h.print Bounds.full depth path true v).toList = shownOf (parts h path v) := by
  induction depth generalizing path v with
  | zero => exact absurd hdepth (Nat.not_lt_zero _)
  | succ depth ih =>
    cases v with
    | scalar s =>
      rw [Heap.print, parts, if_pos rfl, shownOf, List.flatMap_singleton, shown_scalarPart]
    | foreign => rw [Heap.print, parts]; rfl
    | node r =>
      have hr : r ∉ path := fun hr => by simp [Heap.reenters, hr] at hv
      rw [Heap.reenters_node hr, List.any_eq_false] at hv
      -- the bounds cut no item off, and a node that is entered leaves fewer that are not
      have hlength : (h.children r).length ≤ Bounds.full.length r.shape := by
        cases r.shape <;> exact Nat.le_of_lt (hchildren r)
      have hshown : h.shown Bounds.full r = h.children r := List.take_of_length_le hlength
      have hcut : h.isCut Bounds.full r = false := by simpa [Heap.isCut] using hlength
      have hitems : ∀ c ∈ h.children r,
          (c.print (h.print Bounds.full depth (r :: path) true c.value)).toList
            = shownOf (labelParts c.name ++ parts h (r :: path) c.value) := by
        intro c hc
        have hfree := Heap.free_cons_lt (Heap.mem_refs_of_mem_children hc) hr
        rw [toList_child_print, ih (by simpa using hv c hc) (by omega), shownOf, shownOf, shownOf,
          List.flatMap_append]
      have henclose : ∀ inner : String, (r.shape.enclose inner).toList
          = Part.shown (.opening r.shape) ++ (inner.toList ++ Part.shown (.closing r.shape)) := by
        intro inner
        cases r.shape <;>
          simp [Shape.enclose, Part.shown, Shape.openingBracket, Shape.closingBracket]
      rw [Frame.print_of_items hr, Frame.items, hshown, hcut, henclose, String.toList_intercalate,
        parts_node hr, shownOf, List.flatMap_cons, List.flatMap_append, flatMap_intercalate]
      simp only [Bool.false_eq_true, if_false, List.append_nil, List.map_map, Function.comp_def]
      rw [List.map_congr_left hitems]
      simp [shownOf, Part.shown]

/-! ## Plain strings are shown as they are -/

/-- A string of a part is a key or a text, between quotes. -/
def Part.IsQuoted (p : Part) : Prop :=
  ∀ role quoted s, p = .string role quoted s → role ≠ .callable ∧ quoted = true

/-- A part whose only blanks inside of brackets are its own. -/
structure Part.IsSnug (p : Part) : Prop where
  starts : ∃ c cs, p.text = c :: cs ∧ isClosing c = false
  snug_text : ∀ rest, rest.head?.any isClosing = false →
    snug false false (p.text ++ rest) = p.shown ++ snug false false rest

theorem Part.isSnug_word {p : Part} (hword : Text.IsWord p.text) (hshown : p.shown = p.text) :
    p.IsSnug where
  starts := by
    obtain ⟨hne, hall⟩ := hword
    obtain ⟨c, cs, htext⟩ := List.exists_cons_of_ne_nil hne
    have hc := hall c (by rw [htext]; exact List.mem_cons_self)
    refine ⟨c, cs, htext, ?_⟩
    simp [isClosing, Text.ne_of_class hc (show Text.isWordChar '}' = false by decide),
      Text.ne_of_class hc (show Text.isWordChar ']' = false by decide)]
  snug_text rest _ := by rw [hshown, snug_word hword]

theorem Part.isSnug_quoted {p : Part} {s : List Char} (hs : Text.IsPlain s)
    (htext : p.text = '"' :: (s ++ ['"'])) (hshown : p.shown = p.text) : p.IsSnug where
  starts := ⟨'"', _, htext, rfl⟩
  snug_text rest _ := by
    rw [hshown, htext]
    simpa using snug_quoted hs rest

/-- **A part without anything to escape is written alike**, up to the blanks. -/
theorem Part.Written.isSnug {p : Part} (hp : p.Written) (hquoted : p.IsQuoted)
    (hplain : ∀ s ∈ p.string?, Text.IsPlain s.toList) : p.IsSnug := by
  have hstring : ∀ role s, role ≠ .callable → p = .string role true s → p.IsSnug := by
    rintro role s hrole rfl
    have hs := hplain s rfl
    refine Part.isSnug_quoted hs rfl ?_
    cases role with
    | callable => exact absurd rfl hrole
    | key | text => simp [Part.shown, Part.text, Text.quoted, hs.flatMap_escape]
  cases hp with
  | scalar s =>
    cases s with
    | null => exact Part.isSnug_word (Text.isWord_of_all (by decide) (by decide)) rfl
    | bool b => cases b <;> exact Part.isSnug_word (Text.isWord_of_all (by decide) (by decide)) rfl
    | number n => exact Part.isSnug_word n.isWord_text rfl
    | text s =>
      obtain ⟨hrole, hlive⟩ := hquoted _ _ _ rfl
      exact hstring .text s hrole (by rw [scalarPart, hlive])
    | time t =>
      exact Part.isSnug_quoted t.isPlain_text (by simp [scalarPart, Part.text, quote]) rfl
    | callable name => exact absurd rfl (hquoted _ _ _ rfl).1
  | foreign => exact Part.isSnug_quoted (s := "<Value>".toList) (by decide) rfl rfl
  | key name => exact hstring .key name (by decide) rfl
  | colon =>
    refine ⟨⟨':', _, rfl, rfl⟩, fun rest hrest => ?_⟩
    simp [Part.text, Part.shown, snug, isOpening, hrest]
  | comma =>
    refine ⟨⟨',', _, rfl, rfl⟩, fun rest hrest => ?_⟩
    simp [Part.text, Part.shown, snug, isOpening, hrest]
  | opening shape =>
    cases shape with
    | record =>
      refine ⟨⟨'{', _, rfl, rfl⟩, fun rest _ => ?_⟩
      simp [Part.text, Part.shown, snug, Layout.opening, Shape.openingBracket, isOpening]
    | sequence =>
      refine ⟨⟨'[', _, rfl, rfl⟩, fun rest _ => ?_⟩
      simp [Part.text, Part.shown, snug, Layout.opening, Shape.openingBracket, isOpening]
  | closing shape =>
    cases shape with
    | record =>
      refine ⟨⟨' ', _, rfl, rfl⟩, fun rest _ => ?_⟩
      simp [Part.text, Part.shown, snug, Layout.closing, Shape.closingBracket, isOpening, isClosing]
    | sequence =>
      refine ⟨⟨' ', _, rfl, rfl⟩, fun rest _ => ?_⟩
      simp [Part.text, Part.shown, snug, Layout.closing, Shape.closingBracket, isOpening, isClosing]

theorem snug_textOf {ps : List Part} (hps : ∀ p ∈ ps, p.IsSnug) :
    snug false false (textOf ps) = shownOf ps := by
  induction ps with
  | nil => rfl
  | cons p ps ih =>
    obtain ⟨hp, hrest⟩ := List.forall_mem_cons.mp hps
    -- no part starts with a closing bracket, so a blank at the end of `p` stays
    have hstarts : (textOf ps).head?.any isClosing = false := by
      cases ps with
      | nil => rfl
      | cons q ps =>
        obtain ⟨c, cs, hq, hc⟩ := (hrest q List.mem_cons_self).starts
        simp [hq, hc]
    rw [textOf_cons, hp.snug_text _ hstarts, ih hrest]
    rfl

/-! ## Escapes are backslashes -/

/-- The number of characters that are escaped. -/
def escapes (cs : List Char) : Nat := cs.countP fun c => c = '"' ∨ c = '\\'

theorem escapes_eq_zero_iff {cs : List Char} : escapes cs = 0 ↔ Text.IsPlain cs := by
  simp [escapes, Text.IsPlain, List.countP_eq_zero]

theorem count_quoted (s : String) :
    (Text.quoted s).toList.count '\\' = s.toList.count '\\' + escapes s.toList := by
  have hescape : ∀ cs : List Char,
      (cs.flatMap Text.escape).count '\\' = cs.count '\\' + escapes cs := by
    intro cs
    induction cs with
    | nil => rfl
    | cons c cs ih =>
      rw [List.flatMap_cons, List.count_append, ih, List.count_cons, escapes, escapes,
        List.countP_cons, Text.escape]
      by_cases hc : c = '"' ∨ c = '\\'
      · rcases hc with rfl | rfl <;> simp <;> omega
      · obtain ⟨hquote, hslash⟩ := not_or.mp hc
        simp [hquote, hslash]
  simp [Text.quoted, hescape]

/-- **Every escape is one more backslash** in the text of the argument. -/
theorem count_shownOf {ps : List Part} (hquoted : ∀ p ∈ ps, p.IsQuoted) :
    (shownOf ps).count '\\'
      = (textOf ps).count '\\' + escapes ((strings ps).flatMap String.toList) := by
  induction ps with
  | nil => rfl
  | cons p ps ih =>
    obtain ⟨hp, hrest⟩ := List.forall_mem_cons.mp hquoted
    have hpart : p.shown.count '\\'
        = p.text.count '\\' + escapes (p.string?.toList.flatMap String.toList) := by
      cases p with
      | opening shape | closing shape => cases shape <;> decide
      | mark s => rfl
      | string role quoted s =>
        obtain ⟨hrole, rfl⟩ := hp role quoted s rfl
        cases role with
        | callable => exact absurd rfl hrole
        | key | text => simp [Part.shown, Part.text, Part.string?, count_quoted]
    have hstrings : strings (p :: ps) = p.string?.toList ++ strings ps := by
      cases hs : p.string? <;> simp [strings, hs]
    rw [shownOf, List.flatMap_cons, List.count_append, hpart, ← shownOf, ih hrest, textOf_cons,
      List.count_append, hstrings, List.flatMap_append, escapes, escapes, escapes,
      List.countP_append]
    omega

/-! ## Layouts of constant text -/

/-- **A layout of constant text**: no directives and no line breaks in its keys and texts, no
callables, and no node inside itself. There are fewer nodes, and fewer children of each, than a word
can count. -/
structure IsConstant (h : Heap) (root : Ref) : Prop where
  acyclic : ¬ h.Loops root
  nodes : h.refs.length < Bounds.unbounded
  children : ∀ r, (h.children r).length < Bounds.unbounded
  inert : ∀ s ∈ strings (parts h [] (.node root)), s.toList.all isInert = true
  not_callable : ∀ quoted name, .string .callable quoted name ∉ parts h [] (.node root)

variable {h : Heap} {root : Ref}

theorem IsLive.not_inert {s : String} (hs : IsLive s) : s.toList.all isInert ≠ true := by
  obtain ⟨d, htoken, -⟩ := hs
  obtain ⟨c, rest, htext, hc⟩ := htoken.eq_cons
  rw [htext]
  rcases hc with rfl | rfl <;> simp [isInert]

theorem string_mem {role : Role} {quoted : Bool} {s : String} {ps : List Part}
    (hp : .string role quoted s ∈ ps) : s ∈ strings ps :=
  List.mem_filterMap.mpr ⟨_, hp, rfl⟩

theorem IsConstant.isQuoted (hl : IsConstant h root) :
    ∀ p ∈ parts h [] (.node root), p.IsQuoted := by
  rintro p hp role quoted s rfl
  refine ⟨fun hrole => hl.not_callable quoted s (hrole ▸ hp), ?_⟩
  cases stands_parts h [] (.node root) _ hp with
  | around hnone => simp [Part.string?] at hnone
  | quoted => rfl
  | live hlive => exact absurd (hl.inert s (string_mem hp)) hlive.not_inert

/-- The template of constant text has no directives and no line breaks. -/
theorem IsConstant.isInert_textOf (hl : IsConstant h root) :
    ∀ c ∈ textOf (parts h [] (.node root)), c ≠ '#' ∧ c ≠ '$' ∧ c ≠ '\n' ∧ c ≠ '\r' := by
  intro c hc
  obtain ⟨p, hp, hc⟩ := List.mem_flatMap.mp hc
  have hinert : isInert c = true := by
    cases hstands : stands_parts h [] (.node root) p hp with
    | around hnone hall => exact List.all_eq_true.mp hall c hc
    | @quoted role s _ =>
      have hs := List.all_eq_true.mp (hl.inert s (string_mem hp))
      simp only [Part.text, List.mem_cons, List.mem_append, List.not_mem_nil, or_false] at hc
      rcases hc with rfl | hc | rfl
      · rfl
      · exact hs c hc
      · rfl
    | @live s _ => exact List.all_eq_true.mp (hl.inert s (string_mem hp)) c hc
  simpa [isInert] using hinert

/-- **The two texts agree, up to the blanks, exactly if there is nothing to escape.** -/
theorem snug_iff {ps : List Part} (hwritten : ∀ p ∈ ps, p.Written)
    (hquoted : ∀ p ∈ ps, p.IsQuoted) :
    snug false false (textOf ps) = shownOf ps ↔ ∀ s ∈ strings ps, Text.IsPlain s.toList := by
  constructor
  · intro heq s hs
    -- the blanks that are left out are no backslashes, so the counts tell that nothing is escaped
    have hcount := count_shownOf hquoted
    rw [← heq, count_snug, Nat.left_eq_add, escapes_eq_zero_iff] at hcount
    exact fun c hc => hcount c (List.mem_flatMap.mpr ⟨s, hs, hc⟩)
  · intro hplain
    refine snug_textOf fun p hp => (hwritten p hp).isSnug (hquoted p hp) fun s hs => ?_
    exact hplain s (List.mem_filterMap.mpr ⟨p, hp, hs⟩)

theorem IsConstant.toList_print (hl : IsConstant h root) :
    (h.print Bounds.full Bounds.full.depth [] false (.node root)).toList
      = shownOf (parts h [] (.node root)) := by
  have hfree : h.free [] ≤ h.refs.length := List.countP_le_length
  have hacyclic : h.reenters [] (.node root) = false := by
    simpa using mt Heap.reenters_iff_loops.mp hl.acyclic
  rw [Heap.print_node]
  exact Layout.toList_print hl.children hacyclic (Nat.lt_of_le_of_lt hfree hl.nodes)

/-! ## Callables -/

/-- A callable that is shown is a string of the layout. -/
theorem callable_mem_parts {name : String} {bounds : Bounds} {depth : Nat} {path : List Ref}
    {v : Value} (hmem : .scalar (.callable name) ∈ h.slots bounds depth path v) :
    .string .callable true name ∈ parts h path v := by
  induction depth generalizing path v with
  | zero =>
    rw [Heap.slots.eq_def] at hmem
    cases v with
    | scalar s =>
      obtain rfl : .callable name = s := by simpa using hmem
      simp [parts, scalarPart]
    | foreign => simp at hmem
    | node r =>
      dsimp only at hmem
      split at hmem <;> simp at hmem
  | succ depth ih =>
    cases v with
    | scalar s =>
      obtain rfl : .callable name = s := by simpa [Heap.slots] using hmem
      simp [parts, scalarPart]
    | foreign => simp [Heap.slots] at hmem
    | node r =>
      by_cases hr : r ∈ path
      · simp [Heap.slots_of_mem hr] at hmem
      · rw [Heap.slots_node hr] at hmem
        have hcut : .scalar (.callable name) ∉ cutMark (h.isCut bounds r) :=
          fun hcut => by simpa using eq_of_mem_cutMark hcut
        obtain ⟨c, hc, hmem⟩ : ∃ c ∈ h.shown bounds r,
            .scalar (.callable name) ∈ h.childSlots bounds depth (r :: path) c := by
          simpa [hcut] using hmem
        have hvalue : .scalar (.callable name) ∈ h.slots bounds depth (r :: path) c.value := by
          rcases List.mem_append.mp hmem with hlabel | hvalue
          · cases hname : c.name <;> simp [Child.label, hname] at hlabel
          · exact hvalue
        rw [parts_node hr]
        refine List.mem_cons_of_mem _ (List.mem_append_left _ ?_)
        refine mem_intercalate_of_mem _ (List.mem_map_of_mem (Heap.mem_children_of_mem_shown hc)) ?_
        exact List.mem_append_right _ (ih hvalue)

/-! ## Logged either way -/

/-- The template that shows the first argument with all that is in it. -/
def wholeArgument : Shape → List Char
  | .record => "$\x7b0:o<*,*>\x7d".toList
  | .sequence => "$\x7b0:a<*,*>\x7d".toList

theorem fill_of_plain {σ : Type} (put : σ → Directive → String × σ) (s : σ) {cs : List Char}
    (h : ∀ c ∈ cs, c ≠ '#' ∧ c ≠ '$') : Template.fill put 0 s cs = String.ofList cs := by
  induction cs with
  | nil => rfl
  | cons c cs ih =>
    obtain ⟨⟨hhash, hdollar⟩, hcs⟩ := List.forall_mem_cons.mp h
    rw [Template.fill, Template.readToken_of_plain hhash hdollar]
    dsimp only
    rw [ih hcs, ← String.ofList_append, List.singleton_append]

theorem print_wholeArgument (m : Message) (style : Style)
    (hm : m.format.template = wholeArgument root.shape)
    (hargument : m.args.values[0]? = some (.node root)) :
    m.print style = style.preamble m.format.name m.level
      ++ m.args.heap.print Bounds.full Bounds.full.depth [] false (.node root)
      ++ style.terminator := by
  have hfill : Template.fill m.directive 0 m.clock (wholeArgument root.shape)
      = (m.directive m.clock (.compound root.shape 0 Bounds.full)).1 := by
    cases root.shape <;> exact String.append_empty
  rw [Message.print, hm, hfill]
  simp only [Message.directive, hargument, if_pos, Message.argument]

theorem IsConstant.ofLayout (hl : IsConstant h root) (name : String) :
    ∃ f, Format.ofLayout name h (.node root) = .ok f ∧
      f.template = textOf (parts h [] (.node root)) ∧
      ∀ (m : Message) (style : Style), m.format = f → m.print style
        = style.preamble name m.level ++ String.ofList f.template ++ style.terminator := by
  have hinert := hl.isInert_textOf
  have hplain : ∀ c ∈ textOf (parts h [] (.node root)), c ≠ '#' ∧ c ≠ '$' :=
    fun c hc => ⟨(hinert c hc).1, (hinert c hc).2.1⟩
  have hline : Format.OneLine (textOf (parts h [] (.node root))) :=
    ⟨fun hc => (hinert _ hc).2.2.1 rfl, fun hc => (hinert _ hc).2.2.2 rfl⟩
  have hcompile := Format.compile_of_scan name hline (Template.scan_of_plain hplain)
  rw [Format.ofLayout_node, if_neg (mt Heap.reenters_iff_loops.mp hl.acyclic), toList_write]
  refine ⟨_, hcompile, rfl, fun m style hm => ?_⟩
  rw [Message.print, hm, fill_of_plain _ _ hplain]

/-- What a layout of constant text has in it, fully expanded. -/
def expansion (h : Heap) (root : Ref) : List Slot :=
  h.slots Bounds.full Bounds.full.depth [] (.node root)

/-- The text of the argument is read back, since there are no callables. -/
theorem IsConstant.read_print (hl : IsConstant h root) :
    Lexeme.read (.outside []) (shownOf (parts h [] (.node root)))
      = some (lexemes false (expansion h root)) := by
  obtain ⟨ls, hls⟩ := readsBack_slots h Bounds.full Bounds.full.depth [] (.node root)
  have hlexemes : lexemes false (expansion h root) = ls := by
    simpa [commaIf, lexemes, expansion] using hls.lexemes_eq false []
  have hnames : PlainNames (expansion h root) :=
    fun name hname => absurd (callable_mem_parts hname) (hl.not_callable true name)
  have hread := (hls.read_iff [] [] (by simp [Lexeme.Stops])).mpr ⟨hnames, rfl⟩
  rw [List.append_nil, List.append_nil, ← Heap.print_node _ _ _ _ false, hl.toList_print] at hread
  rw [hread, hlexemes]

/-- **A layout of constant text is logged as the value is, exactly if there is nothing to escape.**
Take such a layout, and messages of any level and in any style.

* The layout compiles, and a message of that format has the template as its text.
* A message that shows the same node as its argument, without bounds, has the text of the node.
* The template is this text, up to the blanks just inside brackets, exactly if no key and no text
  has a quote or a backslash.
* Two layouts without quotes and backslashes that have the same template have the same expansion,
  slot by slot, so neither a key nor a text differs. -/
theorem logged_alike_iff (name : String) (hl : IsConstant h root) :
    let shown := h.print Bounds.full Bounds.full.depth [] false (.node root)
    ∃ f g, Format.ofLayout name h (.node root) = .ok f ∧
      Format.compile name (wholeArgument root.shape) = .ok g ∧
      (∀ (m : Message) (style : Style), m.format = f → m.print style
        = style.preamble name m.level ++ String.ofList f.template ++ style.terminator) ∧
      (∀ (m : Message) (style : Style), m.format = g → m.args.heap = h →
        m.args.values[0]? = some (.node root) →
        m.print style = style.preamble name m.level ++ shown ++ style.terminator) ∧
      (snug false false f.template = shown.toList ↔
        ∀ s ∈ strings (parts h [] (.node root)), Text.IsPlain s.toList) ∧
      ∀ (h' : Heap) (root' : Ref), IsConstant h' root' →
        (∀ s ∈ strings (parts h [] (.node root)), Text.IsPlain s.toList) →
        (∀ s ∈ strings (parts h' [] (.node root')), Text.IsPlain s.toList) →
        write h [] (.node root) = write h' [] (.node root') →
        (expansion h root).map Slot.lexemes = (expansion h' root').map Slot.lexemes := by
  have hsnug : ∀ {h : Heap} {root : Ref}, IsConstant h root →
      (snug false false (textOf (parts h [] (.node root))) = shownOf (parts h [] (.node root)) ↔
        ∀ s ∈ strings (parts h [] (.node root)), Text.IsPlain s.toList) :=
    fun hl => snug_iff (written_parts _ [] _) hl.isQuoted
  obtain ⟨f, hf, htemplate, hprint⟩ := hl.ofLayout name
  obtain ⟨g, hg⟩ : ∃ g, Format.compile name (wholeArgument root.shape) = .ok g := by
    cases root.shape <;> exact ⟨_, rfl⟩
  refine ⟨f, g, hf, hg, hprint, ?_, ?_, ?_⟩
  · rintro m style rfl rfl hargument
    obtain ⟨-, rfl, hm, -⟩ := Format.compile_eq_ok_iff.mp hg
    exact print_wholeArgument m style hm hargument
  · rw [htemplate, hl.toList_print]
    exact hsnug hl
  · intro h' root' hl' hplain hplain' hwrite
    have htext : textOf (parts h [] (.node root)) = textOf (parts h' [] (.node root')) := by
      rw [← toList_write, ← toList_write, hwrite]
    have hshown : shownOf (parts h [] (.node root)) = shownOf (parts h' [] (.node root')) := by
      rw [← (hsnug hl).mpr hplain, ← (hsnug hl').mpr hplain', htext]
    -- what is read from the one text are the pieces of both expansions
    have hlexemes := hl.read_print
    rw [hshown, hl'.read_print] at hlexemes
    exact map_lexemes_eq (Heap.group_slots _ _ _ _ _).lexemes_ne_nil
      (Heap.group_slots _ _ _ _ _).lexemes_ne_nil (Option.some.inj hlexemes).symm

/-! ## Sequences of texts -/

/-- A sequence of texts. -/
def ofTexts (ts : List String) : Heap :=
  ⟨#[], #[(ts.map fun s => Value.scalar (.text s)).toArray]⟩

theorem children_ofTexts (ts : List String) :
    (ofTexts ts).children ⟨.sequence, 0⟩ = ts.map fun s => ⟨none, .scalar (.text s)⟩ := by
  simp [ofTexts, Heap.children, Heap.items]

theorem parts_ofTexts (ts : List String) :
    parts (ofTexts ts) [] (.node ⟨.sequence, 0⟩)
      = .opening .sequence :: ([.mark ", "].intercalate
          (ts.map fun s => [.string .text (!Template.isDirective s.toList) s])
            ++ [.closing .sequence]) := by
  rw [parts_node List.not_mem_nil, children_ofTexts, List.map_map]
  simp [Function.comp_def, labelParts, parts, scalarPart]

theorem isConstant_ofTexts {ts : List String} (hlength : ts.length < Bounds.unbounded)
    (hinert : ∀ s ∈ ts, s.toList.all isInert = true) :
    IsConstant (ofTexts ts) ⟨.sequence, 0⟩ := by
  have hstring : ∀ role quoted s,
      .string role quoted s ∈ parts (ofTexts ts) [] (.node ⟨.sequence, 0⟩) →
        role = .text ∧ s ∈ ts := by
    intro role quoted s hp
    rw [parts_ofTexts] at hp
    have hitem : .string role quoted s ∈ [.mark ", "].intercalate
        (ts.map fun s => [Part.string .text (!Template.isDirective s.toList) s]) := by
      simpa using hp
    rcases mem_intercalate hitem with hcomma | ⟨ps, hps, hp⟩
    · simp at hcomma
    · obtain ⟨s', hs', rfl⟩ := List.mem_map.mp hps
      obtain ⟨rfl, -, rfl⟩ : role = .text ∧ _ ∧ s = s' := by simpa using hp
      exact ⟨rfl, hs'⟩
  refine ⟨?_, by simp [ofTexts, Heap.refs]; decide, ?_, fun s hs => ?_, fun quoted name hp => ?_⟩
  · rw [← Heap.reenters_iff_loops, Heap.reenters_node List.not_mem_nil, children_ofTexts]
    simp [Heap.reenters]
  · rintro ⟨shape, index⟩
    have hnone : 0 < Bounds.unbounded := by decide
    cases shape <;> rcases index with _ | index <;>
      simp [ofTexts, Heap.children, Heap.fields, Heap.items, Named.empty, hnone, hlength]
  · obtain ⟨p, hp, hs⟩ := List.mem_filterMap.mp hs
    cases p with
    | opening shape | closing shape | mark t => simp [Part.string?] at hs
    | string role quoted s' =>
      obtain rfl := Option.some.inj hs
      exact hinert _ (hstring _ _ _ hp).2
  · exact absurd (hstring _ _ _ hp).1 (by decide)

/-- A text with a comma and brackets in it. -/
theorem logged_alike_with_brackets :
    let h := ofTexts ["a, [ b ]"]
    let root : Ref := ⟨.sequence, 0⟩
    IsConstant h root ∧
      ∃ f, Format.ofLayout "kept" h (.node root) = .ok f ∧
        snug false false f.template
          = (h.print Bounds.full Bounds.full.depth [] false (.node root)).toList := by
  intro h root
  have hl : IsConstant h root := isConstant_ofTexts (by decide) (by decide)
  obtain ⟨f, g, hf, -, -, -, hsnug, -⟩ := logged_alike_iff "kept" hl
  refine ⟨hl, f, hf, hsnug.mpr ?_⟩
  rw [parts_ofTexts]
  decide

/-- **Two layouts, one template.** A text with quotes in it is written as two texts are, and not as
an argument shows it. -/
theorem text_with_quotes_is_two :
    let one := ofTexts ["a\", \"b"]
    let two := ofTexts ["a", "b"]
    let root : Ref := ⟨.sequence, 0⟩
    IsConstant one root ∧ IsConstant two root ∧
      strings (parts one [] (.node root)) ≠ strings (parts two [] (.node root)) ∧
      write one [] (.node root) = write two [] (.node root) ∧
      snug false false (write one [] (.node root)).toList
        ≠ (one.print Bounds.full Bounds.full.depth [] false (.node root)).toList := by
  intro one two root
  have hone : IsConstant one root := isConstant_ofTexts (by decide) (by decide)
  have htwo : IsConstant two root := isConstant_ofTexts (by decide) (by decide)
  refine ⟨hone, htwo, ?_, ?_, ?_⟩
  · rw [parts_ofTexts, parts_ofTexts]
    decide
  · rw [← String.toList_inj, toList_write, toList_write, parts_ofTexts, parts_ofTexts]
    decide
  · rw [hone.toList_print, toList_write, parts_ofTexts]
    decide

end Layout

end Logbook
