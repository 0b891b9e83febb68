/-
Spans tile the template.

The directives of a format are kept with byte spans, and the text around them is cut out by
offsets. This file shows what these offsets are: the spans stand in order and apart from each
other, each is the place of a whole token, and what lies before, between and behind them has
neither a `#` nor a `$` in it. Put together in order the parts are the template again, so
nothing is cut twice, nothing is left out, and no cut goes through a character.

All of it is read off the pieces that the template was scanned as. A directive parts them in
two, and then its span and what follows it are seen on the spot.
-/
import Logbook.Proofs.Format.Compile

set_option autoImplicit false

namespace Logbook

namespace Template

theorem Token.byteLength_pos {token : List Char} {d : Directive} (h : Token token d) :
    0 < Text.byteLength token := by
  obtain ⟨c, rest, rfl, -⟩ := h.eq_cons
  have := c.utf8Size_pos
  rw [Text.byteLength_cons]
  omega

theorem entriesOf_plain (offset : Nat) (c : Char) (ps : List Piece) :
    entriesOf offset (.plain c :: ps) = entriesOf (offset + c.utf8Size) ps := rfl

/-! ## Where a directive stands -/

/-- **A directive parts the pieces** as it parts the directives. -/
theorem entriesOf_eq_append {offset : Nat} {ps : List Piece} {done rest : List Entry} {e : Entry}
    (h : entriesOf offset ps = done ++ e :: rest) :
    ∃ left token d right, ps = left ++ .token token d :: right ∧
      e = ⟨d, ⟨offset + Text.byteLength (textOf left),
        offset + Text.byteLength (textOf left ++ token)⟩⟩ ∧
      rest = entriesOf (offset + Text.byteLength (textOf left ++ token)) right := by
  induction ps generalizing offset done with
  | nil => simp [entriesOf] at h
  | cons p ps ih =>
    cases p with
    | plain c =>
      obtain ⟨left, token, d, right, rfl, rfl, rfl⟩ := ih h
      refine ⟨.plain c :: left, token, d, right, rfl, ?_, ?_⟩ <;>
        simp [Piece.text, Nat.add_assoc]
    | token text directive =>
      rw [entriesOf] at h
      rcases List.cons_eq_append_iff.mp h with ⟨-, hrest⟩ | ⟨done', -, hrest⟩
      · obtain ⟨rfl, rfl⟩ := List.cons.inj hrest
        exact ⟨[], text, directive, ps, rfl, by simp, by simp⟩
      · obtain ⟨left, token, d, right, rfl, rfl, rfl⟩ := ih hrest
        refine ⟨.token text directive :: left, token, d, right, rfl, ?_, ?_⟩ <;>
          simp [Piece.text, Nat.add_assoc]

/-- Directives stand behind the offset that the pieces start at, and in order. -/
theorem pairwise_entriesOf {ps : List Piece} (hps : ∀ p ∈ ps, p.Valid) (offset : Nat) :
    (∀ e ∈ entriesOf offset ps, offset ≤ e.span.start) ∧
      (entriesOf offset ps).Pairwise fun e e' =>
        e.span.start < e'.span.start ∧ e.span.stop ≤ e'.span.start := by
  induction ps generalizing offset with
  | nil => exact ⟨by simp [entriesOf], .nil⟩
  | cons p ps ih =>
    have hrest := ih fun q hq => hps q (List.mem_cons_of_mem p hq)
    cases hps p List.mem_cons_self with
    | plain hhash hdollar =>
      rename_i c
      obtain ⟨hafter, hpairwise⟩ := hrest (offset + c.utf8Size)
      exact ⟨fun e he => by have := hafter e he; omega, hpairwise⟩
    | token htoken =>
      rename_i text d
      have hpos := htoken.byteLength_pos
      obtain ⟨hafter, hpairwise⟩ := hrest (offset + Text.byteLength text)
      refine ⟨?_, List.pairwise_cons.mpr ⟨?_, hpairwise⟩⟩
      · intro e he
        rcases List.mem_cons.mp he with rfl | he
        · exact Nat.le_refl _
        · have := hafter e he
          omega
      · intro e he
        have := hafter e he
        exact ⟨by dsimp only; omega, this⟩

end Template

namespace Format

open Template

/-- A character that starts no token. -/
def isPlain (c : Char) : Bool := c != '#' && c != '$'

theorem isPlain_iff {c : Char} : isPlain c = true ↔ c ≠ '#' ∧ c ≠ '$' := by
  simp [isPlain]

/-- There is no plain text before a token. -/
theorem takeWhile_token {token : List Char} {d : Directive} (h : Token token d)
    (rest : List Char) : (token ++ rest).takeWhile isPlain = [] := by
  obtain ⟨c, more, rfl, hc⟩ := h.eq_cons
  have hplain : ¬ isPlain c = true := by rcases hc with rfl | rfl <;> decide
  rw [List.cons_append, List.takeWhile_cons_of_neg hplain]

variable {f : Format} {before : List Char} {ps : List Piece}

/-- The next directive starts, or the template ends, where the plain text does. -/
theorem startOf_entriesOf (hps : ∀ p ∈ ps, p.Valid) (htemplate : f.template = before ++ textOf ps) :
    f.startOf (entriesOf (Text.byteLength before) ps)
      = Text.byteLength (before ++ (textOf ps).takeWhile isPlain) := by
  induction ps generalizing before with
  | nil => simp [entriesOf, startOf, htemplate]
  | cons p ps ih =>
    have hrest : ∀ q ∈ ps, q.Valid := fun q hq => hps q (List.mem_cons_of_mem p hq)
    rw [textOf_cons, ← List.append_assoc] at htemplate
    have hstart := ih hrest htemplate
    cases hps p List.mem_cons_self with
    | @plain c hhash hdollar =>
      have hbytes : Text.byteLength (before ++ [c]) = Text.byteLength before + c.utf8Size := by
        simp
      rw [Piece.text, List.append_assoc, hbytes] at hstart
      rw [entriesOf_plain, hstart, textOf_cons, Piece.text, List.singleton_append,
        List.singleton_append, List.takeWhile_cons_of_pos (isPlain_iff.mpr ⟨hhash, hdollar⟩)]
    | @token text d htoken =>
      rw [textOf_cons, Piece.text, takeWhile_token htoken, List.append_nil]
      rfl

/-- **Up to the next directive the template is cut where its plain text ends.** -/
theorem read?_startOf (hps : ∀ p ∈ ps, p.Valid) (htemplate : f.template = before ++ textOf ps) :
    (Span.mk (Text.byteLength before)
        (f.startOf (entriesOf (Text.byteLength before) ps))).read? f.template
      = some ((textOf ps).takeWhile isPlain) := by
  have hread := Span.read?_append before ((textOf ps).takeWhile isPlain)
    ((textOf ps).dropWhile isPlain)
  rwa [List.append_assoc, List.takeWhile_append_dropWhile, ← htemplate,
    ← startOf_entriesOf hps htemplate] at hread

/-- Some last directives of a template with the text after each, all of it as it is cut out of
the template. -/
def retold (f : Format) : List Entry → String
  | [] => ""
  | e :: rest =>
    e.span.read f.template ++ (f.trailing e rest).read f.template ++ f.retold rest

/-- **The parts that are cut out are all of the template.** -/
theorem retold_entriesOf (hps : ∀ p ∈ ps, p.Valid) (htemplate : f.template = before ++ textOf ps) :
    String.ofList ((textOf ps).takeWhile isPlain)
      ++ f.retold (entriesOf (Text.byteLength before) ps) = String.ofList (textOf ps) := by
  induction ps generalizing before with
  | nil => rfl
  | cons p ps ih =>
    have hrest : ∀ q ∈ ps, q.Valid := fun q hq => hps q (List.mem_cons_of_mem p hq)
    rw [textOf_cons, ← List.append_assoc] at htemplate
    have hretold := ih hrest htemplate
    cases hps p List.mem_cons_self with
    | @plain c hhash hdollar =>
      have hbytes : Text.byteLength (before ++ [c]) = Text.byteLength before + c.utf8Size := by
        simp
      rw [Piece.text, hbytes] at hretold
      rw [entriesOf_plain, textOf_cons, Piece.text, List.singleton_append,
        List.takeWhile_cons_of_pos (isPlain_iff.mpr ⟨hhash, hdollar⟩), ← List.singleton_append,
        String.ofList_append, String.append_assoc, hretold, ← String.ofList_append,
        List.singleton_append]
    | @token text d htoken =>
      have hbytes := Text.byteLength_append before text
      have htext := Span.read_append before text (textOf ps)
      have htrailing := read?_startOf hrest htemplate
      rw [Piece.text] at hretold htrailing htemplate
      rw [← htemplate] at htext
      rw [textOf_cons, Piece.text, takeWhile_token htoken, entriesOf, ← hbytes, retold, trailing,
        htext, Span.read, htrailing, Option.getD_some, String.append_assoc, hretold,
        String.ofList_append]
      rfl

/-! ## Formats -/

/-- The template and the directives of a format are those of one reading. -/
theorem exists_reads (f : Format) :
    ∃ ps, (∀ p ∈ ps, p.Valid) ∧ f.template = [] ++ textOf ps ∧ f.entries = entriesOf 0 ps := by
  obtain ⟨ps, ⟨htemplate, hvalid⟩, hentries⟩ := scan_eq_ok_iff.mp f.scanned
  exact ⟨ps, hvalid, htemplate.symm, hentries⟩

/-- **A directive of a format** is a token of its template, and its span is the place of that
token. Behind it there is plain text up to the next one. -/
theorem entry_stands (f : Format) {done rest : List Entry} {e : Entry}
    (h : f.entries = done ++ e :: rest) :
    ∃ before token after, f.template = before ++ token ++ after ∧
      e.span = ⟨Text.byteLength before, Text.byteLength (before ++ token)⟩ ∧
      Token token e.directive ∧
      (f.trailing e rest).read? f.template = some (after.takeWhile isPlain) := by
  obtain ⟨ps, hvalid, htemplate, hentries⟩ := f.exists_reads
  obtain ⟨left, token, d, right, rfl, rfl, rfl⟩ := entriesOf_eq_append (hentries ▸ h)
  obtain ⟨-, hright⟩ := List.forall_mem_append.mp hvalid
  obtain ⟨hpiece, hright⟩ := List.forall_mem_cons.mp hright
  have htoken : Token token d := by
    cases hpiece with
    | token h => exact h
  have hsplit : f.template = textOf left ++ token ++ textOf right := by
    rw [htemplate]
    simp [textOf, Piece.text]
  refine ⟨textOf left, token, textOf right, hsplit, by simp, htoken, ?_⟩
  have htrailing := read?_startOf hright hsplit
  rwa [← Nat.zero_add (Text.byteLength (textOf left ++ token))] at htrailing

/-- **A token compiles by itself**, to the one directive that it stands for. -/
theorem compile_token (name : String) {token : List Char} {d : Directive} (h : Token token d) :
    ∃ g, compile name token = .ok g ∧ g.entries = [⟨d, ⟨0, Text.byteLength token⟩⟩] := by
  have hline : OneLine token :=
    ⟨fun hmem => absurd (h.isTokenChar _ hmem) (by decide),
      fun hmem => absurd (h.isTokenChar _ hmem) (by decide)⟩
  have hreads : Reads [.token token d] token :=
    ⟨by simp [Piece.text], List.forall_mem_singleton.mpr (.token h)⟩
  refine ⟨_, compile_of_scan name hline (scan_of_reads hreads), ?_⟩
  simp [entriesOf]

/-- **The spans of a format tile its template**, be it written as it is or made from a layout.

* No span is empty and none goes beyond the end. They stand in order and apart from each other.
* Each is the place of a text of the template, so it starts and ends where a character does.
  Compiled by itself that text is the same directive, over all of it.
* The text before the first directive and the text after each one can be cut out of the
  template, and there is no `#` and no `$` in them.
* One after the other, what stands before the first directive and then each directive with the
  text after it are the template. -/
theorem spans_tile_template (f : Format) :
    (∀ e ∈ f.entries, e.span.start < e.span.stop ∧ e.span.stop ≤ Text.byteLength f.template) ∧
    (f.entries.Pairwise fun e e' =>
      e.span.start < e'.span.start ∧ e.span.stop ≤ e'.span.start) ∧
    (∀ e ∈ f.entries, ∃ before text after, f.template = before ++ text ++ after ∧
      e.span = ⟨Text.byteLength before, Text.byteLength (before ++ text)⟩ ∧
      e.span.read? f.template = some text ∧
      ∀ name, ∃ g, compile name text = .ok g ∧
        g.entries = [⟨e.directive, ⟨0, Text.byteLength text⟩⟩]) ∧
    (∃ lead, (Span.mk 0 (f.startOf f.entries)).read? f.template = some lead ∧
      '#' ∉ lead ∧ '$' ∉ lead) ∧
    (∀ done e rest, f.entries = done ++ e :: rest →
      ∃ gap, (f.trailing e rest).read? f.template = some gap ∧ '#' ∉ gap ∧ '$' ∉ gap) ∧
    f.lead ++ f.retold f.entries = String.ofList f.template := by
  obtain ⟨ps, hvalid, htemplate, hentries⟩ := f.exists_reads
  have hlead := read?_startOf hvalid htemplate
  have hliteral : ∀ cs : List Char,
      '#' ∉ cs.takeWhile isPlain ∧ '$' ∉ cs.takeWhile isPlain := by
    intro cs
    constructor
    · exact fun hmem => absurd (List.all_eq_true.mp List.all_takeWhile _ hmem) (by decide)
    · exact fun hmem => absurd (List.all_eq_true.mp List.all_takeWhile _ hmem) (by decide)
  rw [Text.byteLength_nil, ← hentries] at hlead
  refine ⟨?_, ?_, ?_, ⟨_, hlead, hliteral _⟩, ?_, ?_⟩
  · intro e he
    obtain ⟨done, rest, hsplit⟩ := List.append_of_mem he
    obtain ⟨before, token, after, hwhole, hspan, htoken, -⟩ := f.entry_stands hsplit
    have hpos := htoken.byteLength_pos
    rw [hspan, hwhole]
    simp only [Text.byteLength_append]
    omega
  · rw [hentries]
    exact (pairwise_entriesOf hvalid 0).2
  · intro e he
    obtain ⟨done, rest, hsplit⟩ := List.append_of_mem he
    obtain ⟨before, token, after, hwhole, hspan, htoken, -⟩ := f.entry_stands hsplit
    refine ⟨before, token, after, hwhole, hspan, ?_, fun name => compile_token name htoken⟩
    rw [hspan, hwhole]
    exact Span.read?_append before token after
  · intro done e rest hsplit
    obtain ⟨before, token, after, -, -, -, htrailing⟩ := f.entry_stands hsplit
    exact ⟨_, htrailing, hliteral after⟩
  · have hretold := retold_entriesOf hvalid htemplate
    rw [Text.byteLength_nil, ← hentries] at hretold
    rw [lead, Span.read, hlead, Option.getD_some, hretold, htemplate, List.nil_append]

end Format

end Logbook
