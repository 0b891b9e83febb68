/-
What compiles, into which directives, and where a template that does not goes wrong.

A template is read as a sequence of pieces, each a character that stands for itself or a
token of the grammar. The scan and the pieces go together through one law, `scan_append`:
**pieces at the start of a text become their entries, and the scan goes on behind them**.
Every text is pieces up to its end or up to a `#` or `$` where no token starts, so the law
covers acceptance and refusal alike, and no second induction on the scan is needed.

That a text has one reading only is a property of the grammar that is seen in the reader:
it finds one token at a place and says how long it is.
-/
import Logbook.Proofs.Format.Fill

set_option autoImplicit false

namespace Logbook

namespace Template

/-! ## Pieces -/

/-- A stretch of a template. -/
inductive Piece where
  | plain (c : Char)
  | token (text : List Char) (directive : Directive)
  deriving DecidableEq

def Piece.text : Piece → List Char
  | .plain c => [c]
  | .token text _ => text

/-- A character stands for itself unless it starts tokens. -/
inductive Piece.Valid : Piece → Prop where
  | plain {c : Char} (hhash : c ≠ '#') (hdollar : c ≠ '$') : Valid (.plain c)
  | token {text : List Char} {d : Directive} (h : Token text d) : Valid (.token text d)

def textOf (ps : List Piece) : List Char := ps.flatMap Piece.text

/-- **A reading of a template**: pieces that it is put together from. -/
structure Reads (ps : List Piece) (cs : List Char) : Prop where
  text : textOf ps = cs
  valid : ∀ p ∈ ps, p.Valid

/-- The tokens among some pieces, with their spans. The pieces start at a byte offset. -/
def entriesOf : (offset : Nat) → List Piece → List Entry
  | _, [] => []
  | offset, .plain c :: ps => entriesOf (offset + c.utf8Size) ps
  | offset, .token text d :: ps =>
    ⟨d, ⟨offset, offset + Text.byteLength text⟩⟩ :: entriesOf (offset + Text.byteLength text) ps

/-- No token starts at a text. -/
def NoToken (cs : List Char) : Prop :=
  ∀ (token : List Char) (d : Directive), Token token d → ¬ token <+: cs

/-- **Where a template goes wrong**: it is pieces up to an offset, and there stands a
character that starts tokens, but starts none. -/
def StuckAt (cs : List Char) (offset : Nat) (c : Char) : Prop :=
  ∃ ps rest, (∀ p ∈ ps, p.Valid) ∧ cs = textOf ps ++ c :: rest ∧
    offset = Text.byteLength (textOf ps) ∧ (c = '#' ∨ c = '$') ∧ NoToken (c :: rest)

@[simp] theorem textOf_nil : textOf [] = [] := rfl

@[simp] theorem textOf_cons (p : Piece) (ps : List Piece) :
    textOf (p :: ps) = p.text ++ textOf ps := rfl

/-! ## One piece -/

theorem readToken_of_plain {c : Char} (hhash : c ≠ '#') (hdollar : c ≠ '$') (cs : List Char) :
    readToken c cs = none := by
  rw [readToken, if_neg hhash, if_neg hdollar]

theorem Token.eq_cons {token : List Char} {d : Directive} (h : Token token d) :
    ∃ c rest, token = c :: rest ∧ (c = '#' ∨ c = '$') := by
  cases h with
  | hash => exact ⟨_, _, rfl, .inl rfl⟩
  | dollar => exact ⟨_, _, rfl, .inr rfl⟩
  | expando e => exact ⟨_, _, rfl, .inl rfl⟩
  | formatter hdigits hkind => exact ⟨_, _, rfl, .inr rfl⟩

/-- Where no token starts the reader notices what is wrong, by the character it is at. -/
theorem readToken_of_noToken {c : Char} {rest : List Char} (hc : c = '#' ∨ c = '$')
    (h : NoToken (c :: rest)) :
    ∃ fault, readToken c rest = some (.error fault) ∧
      (c = '#' ∧ fault = .expando ∨ c = '$' ∧ ∃ f, fault = .formatter f) := by
  have hno : ∀ d width, readToken c rest ≠ some (.ok (d, width)) := by
    intro d width hread
    obtain ⟨token, after, rfl, htoken, -⟩ := readToken_eq_ok_iff.mp hread
    exact h (c :: token) d htoken ⟨after, rfl⟩
  rcases hc with rfl | rfl
  · cases hread : readExpando rest with
    | none => exact ⟨.expando, by simp [readToken, hread], .inl ⟨rfl, rfl⟩⟩
    | some p => exact absurd (by simp [readToken, hread]) (hno p.1 p.2)
  · have hdollar : readToken '$' rest = some ((readFormatter rest).mapError .formatter) := by
      rw [readToken, if_neg (by decide), if_pos rfl]
    cases hread : readFormatter rest with
    | error f => exact ⟨.formatter f, by rw [hdollar, hread]; rfl, .inr ⟨rfl, f, rfl⟩⟩
    | ok p => exact absurd (by rw [hdollar, hread]; rfl) (hno p.1 p.2)

theorem scan_plain {c : Char} (hhash : c ≠ '#') (hdollar : c ≠ '$') (offset : Nat)
    (cs : List Char) : scan 0 offset (c :: cs) = scan 0 (offset + c.utf8Size) cs := by
  rw [scan, readToken_of_plain hhash hdollar]

theorem scan_token {token : List Char} {d : Directive} (h : Token token d) (offset : Nat)
    (rest : List Char) :
    scan 0 offset (token ++ rest)
      = (scan 0 (offset + Text.byteLength token) rest).map
          (⟨d, ⟨offset, offset + Text.byteLength token⟩⟩ :: ·) := by
  -- the reader counts characters and the spans count bytes, which is the same in a token
  have hbytes := Text.byteLength_eq_length h.utf8Size
  obtain ⟨c, more, rfl, -⟩ := h.eq_cons
  have hread : readToken c (more ++ rest) = some (.ok (d, more.length)) :=
    readToken_eq_ok_iff.mpr ⟨more, rest, rfl, h, rfl⟩
  obtain ⟨hc, hnarrow⟩ := narrow_of_readToken hread
  rw [List.length_cons] at hbytes
  rw [List.cons_append, scan, hread]
  dsimp only
  rw [scan_skip _ _ hnarrow, List.drop_left, hc, hbytes, Nat.add_comm more.length 1,
    ← Nat.add_assoc]

/-! ## All pieces -/

/-- **Pieces at the start of a text become their entries**, and the scan goes on behind
them. -/
theorem scan_append {ps : List Piece} (hps : ∀ p ∈ ps, p.Valid) (offset : Nat)
    (rest : List Char) :
    scan 0 offset (textOf ps ++ rest)
      = (scan 0 (offset + Text.byteLength (textOf ps)) rest).map (entriesOf offset ps ++ ·) := by
  induction ps generalizing offset with
  | nil => cases hrest : scan 0 offset rest <;> simp [entriesOf, hrest, Except.map]
  | cons p ps ih =>
    have hrest := ih fun q hq => hps q (List.mem_cons_of_mem p hq)
    cases hps p List.mem_cons_self with
    | plain hhash hdollar =>
      rw [textOf_cons, Piece.text, List.singleton_append, List.cons_append,
        scan_plain hhash hdollar, hrest, Text.byteLength_cons, ← Nat.add_assoc]
      rfl
    | token htoken =>
      rw [textOf_cons, Piece.text, List.append_assoc, scan_token htoken, hrest,
        Text.byteLength_append, ← Nat.add_assoc]
      generalize scan 0 _ rest = result
      cases result <;> rfl

/-- A text is pieces up to its end, or up to a place where no token starts. -/
theorem exists_pieces (cs : List Char) :
    ∃ ps rest, (∀ p ∈ ps, p.Valid) ∧ cs = textOf ps ++ rest ∧
      (rest = [] ∨ ∃ c more, rest = c :: more ∧ (c = '#' ∨ c = '$') ∧ NoToken rest) := by
  by_cases hstarts : ∃ token d rest, Token token d ∧ cs = token ++ rest
  · obtain ⟨token, d, after, htoken, rfl⟩ := hstarts
    obtain ⟨c, more, rfl, -⟩ := htoken.eq_cons
    obtain ⟨ps, rest, hps, rfl, hrest⟩ := exists_pieces after
    refine ⟨.token (c :: more) d :: ps, rest, ?_, ?_, hrest⟩
    · exact List.forall_mem_cons.mpr ⟨.token htoken, hps⟩
    · simp [Piece.text]
  · match cs with
    | [] => exact ⟨[], [], by simp, rfl, .inl rfl⟩
    | c :: cs =>
      by_cases hc : c = '#' ∨ c = '$'
      · have hno : NoToken (c :: cs) :=
          fun token d h ⟨rest, hrest⟩ => hstarts ⟨token, d, rest, h, hrest.symm⟩
        exact ⟨[], c :: cs, by simp, rfl, .inr ⟨c, cs, rfl, hc, hno⟩⟩
      · obtain ⟨ps, rest, hps, rfl, hrest⟩ := exists_pieces cs
        rw [not_or] at hc
        refine ⟨.plain c :: ps, rest, ?_, rfl, hrest⟩
        exact List.forall_mem_cons.mpr ⟨.plain hc.1 hc.2, hps⟩
termination_by cs.length

/-! ## Readings are unique -/

/-- Of two tokens that start at one place, both are the one that is read there. -/
theorem Token.eq_of_append_eq {token token' a b : List Char} {d d' : Directive}
    (h : Token token d) (h' : Token token' d') (heq : token ++ a = token' ++ b) :
    token = token' ∧ d = d' := by
  obtain ⟨c, more, rfl, -⟩ := h.eq_cons
  obtain ⟨c', more', rfl, -⟩ := h'.eq_cons
  obtain ⟨rfl, hrest⟩ := List.cons.inj heq
  have hread : readToken c (more ++ a) = some (.ok (d, more.length)) :=
    readToken_eq_ok_iff.mpr ⟨more, a, rfl, h, rfl⟩
  have hread' : readToken c (more ++ a) = some (.ok (d', more'.length)) :=
    readToken_eq_ok_iff.mpr ⟨more', b, hrest, h', rfl⟩
  rw [hread] at hread'
  simp only [Option.some.injEq, Except.ok.injEq, Prod.mk.injEq] at hread'
  obtain ⟨rfl, hlength⟩ := hread'
  exact ⟨by rw [(List.append_inj hrest hlength).1], rfl⟩

theorem Piece.Valid.text_ne_nil {p : Piece} (h : p.Valid) : p.text ≠ [] := by
  cases h with
  | plain hhash hdollar => simp [Piece.text]
  | token htoken =>
    obtain ⟨c, rest, rfl, -⟩ := htoken.eq_cons
    simp [Piece.text]

/-- The first piece of a text is seen in the text. -/
theorem Piece.Valid.eq_of_append_eq {p q : Piece} {a b : List Char} (hp : p.Valid)
    (hq : q.Valid) (heq : p.text ++ a = q.text ++ b) : p = q := by
  cases hp with
  | plain hhash hdollar =>
    cases hq with
    | plain hhash' hdollar' => rw [(List.cons.inj heq).1]
    | token hq =>
      obtain ⟨c, rest, rfl, hc⟩ := hq.eq_cons
      obtain ⟨rfl, -⟩ := List.cons.inj heq
      exact absurd hc (by simp [hhash, hdollar])
  | token hp =>
    cases hq with
    | plain hhash hdollar =>
      obtain ⟨c, rest, rfl, hc⟩ := hp.eq_cons
      obtain ⟨rfl, -⟩ := List.cons.inj heq
      exact absurd hc (by simp [hhash, hdollar])
    | token hq =>
      obtain ⟨rfl, rfl⟩ := hp.eq_of_append_eq hq heq
      rfl

theorem Reads.unique {ps qs : List Piece} {cs : List Char} (hps : Reads ps cs)
    (hqs : Reads qs cs) : ps = qs := by
  induction ps generalizing qs cs with
  | nil =>
    cases qs with
    | nil => rfl
    | cons q qs =>
      have htext := hqs.text.trans hps.text.symm
      simp [(hqs.valid q List.mem_cons_self).text_ne_nil] at htext
  | cons p ps ih =>
    cases qs with
    | nil =>
      have htext := hps.text.trans hqs.text.symm
      simp [(hps.valid p List.mem_cons_self).text_ne_nil] at htext
    | cons q qs =>
      have htext := hps.text.trans hqs.text.symm
      obtain rfl := (hps.valid p List.mem_cons_self).eq_of_append_eq
        (hqs.valid q List.mem_cons_self) htext
      have hrest : textOf ps = textOf qs := List.append_cancel_left htext
      rw [ih ⟨hrest, fun r hr => hps.valid r (List.mem_cons_of_mem p hr)⟩
        ⟨rfl, fun r hr => hqs.valid r (List.mem_cons_of_mem p hr)⟩]

/-! ## What a scan comes to -/

theorem scan_of_reads {ps : List Piece} {cs : List Char} (h : Reads ps cs) :
    scan 0 0 cs = .ok (entriesOf 0 ps) := by
  have hscan := scan_append h.valid 0 []
  rw [List.append_nil, h.text] at hscan
  rw [hscan]
  simp [scan, Except.map]

theorem scan_of_stuckAt {cs : List Char} {offset : Nat} {c : Char} (h : StuckAt cs offset c) :
    ∃ fault, scan 0 0 cs = .error (offset, fault) ∧
      (c = '#' ∧ fault = .expando ∨ c = '$' ∧ ∃ f, fault = .formatter f) := by
  obtain ⟨ps, rest, hps, rfl, rfl, hc, hno⟩ := h
  obtain ⟨fault, hread, hfault⟩ := readToken_of_noToken hc hno
  refine ⟨fault, ?_, hfault⟩
  rw [scan_append hps, scan, hread, Nat.zero_add]
  rfl

/-- A scan comes to an end, or to the place where the template goes wrong. -/
theorem reads_or_stuckAt (cs : List Char) :
    (∃ ps, Reads ps cs) ∨ ∃ offset c, StuckAt cs offset c := by
  obtain ⟨ps, rest, hps, rfl, rfl | ⟨c, more, rfl, hc, hno⟩⟩ := exists_pieces cs
  · exact .inl ⟨ps, by simp, hps⟩
  · exact .inr ⟨_, c, ps, more, hps, rfl, rfl, hc, hno⟩

theorem scan_eq_ok_iff {cs : List Char} {es : List Entry} :
    scan 0 0 cs = .ok es ↔ ∃ ps, Reads ps cs ∧ es = entriesOf 0 ps := by
  constructor
  · intro h
    rcases reads_or_stuckAt cs with ⟨ps, hps⟩ | ⟨offset, c, hstuck⟩
    · rw [scan_of_reads hps] at h
      exact ⟨ps, hps, (Except.ok.inj h).symm⟩
    · obtain ⟨fault, hscan, -⟩ := scan_of_stuckAt hstuck
      rw [hscan] at h
      contradiction
  · rintro ⟨ps, hps, rfl⟩
    exact scan_of_reads hps

theorem stuckAt_of_scan {cs : List Char} {offset : Nat} {fault : TokenFault}
    (h : scan 0 0 cs = .error (offset, fault)) :
    ∃ c, StuckAt cs offset c ∧
      (c = '#' ∧ fault = .expando ∨ c = '$' ∧ ∃ f, fault = .formatter f) := by
  rcases reads_or_stuckAt cs with ⟨ps, hps⟩ | ⟨offset', c, hstuck⟩
  · rw [scan_of_reads hps] at h
    contradiction
  · obtain ⟨fault', hscan, hfault⟩ := scan_of_stuckAt hstuck
    rw [hscan] at h
    simp only [Except.error.injEq, Prod.mk.injEq] at h
    obtain ⟨rfl, rfl⟩ := h
    exact ⟨c, hstuck, hfault⟩

theorem scan_eq_expando_iff {cs : List Char} {offset : Nat} :
    scan 0 0 cs = .error (offset, .expando) ↔ StuckAt cs offset '#' := by
  constructor
  · intro h
    obtain ⟨c, hstuck, ⟨rfl, -⟩ | ⟨-, f, hf⟩⟩ := stuckAt_of_scan h
    · exact hstuck
    · contradiction
  · intro h
    obtain ⟨fault, hscan, ⟨-, rfl⟩ | ⟨hc, -⟩⟩ := scan_of_stuckAt h
    · exact hscan
    · contradiction

theorem scan_eq_formatter_iff {cs : List Char} {offset : Nat} :
    (∃ f, scan 0 0 cs = .error (offset, .formatter f)) ↔ StuckAt cs offset '$' := by
  constructor
  · rintro ⟨f, h⟩
    obtain ⟨c, hstuck, ⟨-, hf⟩ | ⟨rfl, -⟩⟩ := stuckAt_of_scan h
    · contradiction
    · exact hstuck
  · intro h
    obtain ⟨fault, hscan, ⟨hc, -⟩ | ⟨-, f, rfl⟩⟩ := scan_of_stuckAt h
    · contradiction
    · exact ⟨f, hscan⟩

end Template

/-! ## Compiling -/

namespace Format

open Template

def OneLine (cs : List Char) : Prop := '\n' ∉ cs ∧ '\r' ∉ cs

/-- What a format is refused with for a fault of its template. -/
def refusal (name : String) (offset : Nat) : TokenFault → CompileError
  | .expando => .unknownExpando name offset
  | .formatter fault => .badFormatter name offset fault

theorem compile_of_break (name : String) {cs : List Char} (h : ¬ OneLine cs) :
    compile name cs = .error (.lineBreak name) := by
  have hany : (cs.any fun c => decide (c = '\n' ∨ c = '\r')) = true := by
    by_cases hn : '\n' ∈ cs
    · exact List.any_eq_true.mpr ⟨'\n', hn, rfl⟩
    · have hr : '\r' ∈ cs := Classical.byContradiction fun hr => h ⟨hn, hr⟩
      exact List.any_eq_true.mpr ⟨'\r', hr, rfl⟩
  rw [compile, if_pos hany]

theorem OneLine.not_any {cs : List Char} (h : OneLine cs) :
    ¬ (cs.any fun c => decide (c = '\n' ∨ c = '\r')) = true := by
  intro hany
  obtain ⟨c, hc, hbreak⟩ := List.any_eq_true.mp hany
  rcases of_decide_eq_true hbreak with rfl | rfl
  · exact h.1 hc
  · exact h.2 hc

/-- On one line a template compiles as it scans. -/
theorem compile_of_scan (name : String) {cs : List Char} {es : List Entry} (h : OneLine cs)
    (hscan : Template.scan 0 0 cs = .ok es) : compile name cs = .ok ⟨name, cs, es, hscan⟩ := by
  rw [compile, if_neg h.not_any]
  split
  · rename_i es' hscan'
    obtain rfl := Except.ok.inj (hscan.symm.trans hscan')
    rfl
  · rename_i hscan'
    exact absurd (hscan.symm.trans hscan') (by simp)
  · rename_i hscan'
    exact absurd (hscan.symm.trans hscan') (by simp)

theorem compile_of_fault (name : String) {cs : List Char} {offset : Nat} {fault : TokenFault}
    (h : OneLine cs) (hscan : Template.scan 0 0 cs = .error (offset, fault)) :
    compile name cs = .error (refusal name offset fault) := by
  rw [compile, if_neg h.not_any]
  split
  · rename_i hscan'
    exact absurd (hscan.symm.trans hscan') (by simp)
  · rename_i hscan'
    obtain ⟨rfl, rfl⟩ := Prod.mk.inj (Except.error.inj (hscan.symm.trans hscan'))
    rfl
  · rename_i hscan'
    obtain ⟨rfl, rfl⟩ := Prod.mk.inj (Except.error.inj (hscan.symm.trans hscan'))
    rfl

theorem compile_eq_ok_iff {name : String} {cs : List Char} {f : Format} :
    compile name cs = .ok f ↔
      OneLine cs ∧ f.name = name ∧ f.template = cs ∧ Template.scan 0 0 cs = .ok f.entries := by
  constructor
  · intro h
    by_cases hline : OneLine cs
    · cases hscan : Template.scan 0 0 cs with
      | ok es =>
        rw [compile_of_scan name hline hscan] at h
        obtain rfl := Except.ok.inj h
        exact ⟨hline, rfl, rfl, rfl⟩
      | error fault =>
        rw [compile_of_fault name hline hscan] at h
        contradiction
    · rw [compile_of_break name hline] at h
      contradiction
  · rintro ⟨hline, rfl, rfl, hscan⟩
    exact compile_of_scan f.name hline hscan

theorem compile_eq_error_iff {name : String} {cs : List Char} {e : CompileError} :
    compile name cs = .error e ↔
      (¬ OneLine cs ∧ e = .lineBreak name) ∨
      (OneLine cs ∧ ∃ offset fault, Template.scan 0 0 cs = .error (offset, fault) ∧
        e = refusal name offset fault) := by
  constructor
  · intro h
    by_cases hline : OneLine cs
    · cases hscan : Template.scan 0 0 cs with
      | ok es =>
        rw [compile_of_scan name hline hscan] at h
        contradiction
      | error fault =>
        rw [compile_of_fault name hline hscan] at h
        exact .inr ⟨hline, fault.1, fault.2, rfl, (Except.error.inj h).symm⟩
    · rw [compile_of_break name hline] at h
      exact .inl ⟨hline, (Except.error.inj h).symm⟩
  · rintro (⟨hline, rfl⟩ | ⟨hline, offset, fault, hscan, rfl⟩)
    · exact compile_of_break name hline
    · exact compile_of_fault name hline hscan

theorem compile_eq_lineBreak_iff {name : String} {cs : List Char} :
    compile name cs = .error (.lineBreak name) ↔ ¬ OneLine cs := by
  refine ⟨fun h => ?_, compile_of_break name⟩
  obtain ⟨hbreak, -⟩ | ⟨-, offset, fault, -, he⟩ := compile_eq_error_iff.mp h
  · exact hbreak
  · cases fault <;> simp [refusal] at he

theorem compile_eq_unknownExpando_iff {name : String} {cs : List Char} {offset : Nat} :
    compile name cs = .error (.unknownExpando name offset) ↔
      OneLine cs ∧ StuckAt cs offset '#' := by
  rw [← scan_eq_expando_iff, compile_eq_error_iff]
  constructor
  · rintro (⟨-, he⟩ | ⟨hline, offset', fault, hscan, he⟩)
    · contradiction
    · cases fault with
      | expando =>
        obtain ⟨-, rfl⟩ := CompileError.unknownExpando.inj he
        exact ⟨hline, hscan⟩
      | formatter f => contradiction
  · rintro ⟨hline, hscan⟩
    exact .inr ⟨hline, offset, .expando, hscan, rfl⟩

theorem compile_eq_badFormatter_iff {name : String} {cs : List Char} {offset : Nat} :
    (∃ fault, compile name cs = .error (.badFormatter name offset fault)) ↔
      OneLine cs ∧ StuckAt cs offset '$' := by
  rw [← scan_eq_formatter_iff]
  constructor
  · rintro ⟨fault, h⟩
    rcases compile_eq_error_iff.mp h with ⟨-, he⟩ | ⟨hline, offset', fault', hscan, he⟩
    · contradiction
    · cases fault' with
      | expando => contradiction
      | formatter f =>
        obtain ⟨-, rfl, rfl⟩ := CompileError.badFormatter.inj he
        exact ⟨hline, fault, hscan⟩
  · rintro ⟨hline, fault, hscan⟩
    exact ⟨fault, compile_of_fault name hline hscan⟩

/-- A template is refused in three ways, all of them for the format that it is of. -/
theorem error_cases {name : String} {cs : List Char} {e : CompileError}
    (h : compile name cs = .error e) :
    e = .lineBreak name ∨ (∃ offset, e = .unknownExpando name offset) ∨
      ∃ offset fault, e = .badFormatter name offset fault := by
  rcases compile_eq_error_iff.mp h with ⟨-, rfl⟩ | ⟨-, offset, fault, -, rfl⟩
  · exact .inl rfl
  · cases fault with
    | expando => exact .inr (.inl ⟨offset, rfl⟩)
    | formatter f => exact .inr (.inr ⟨offset, f, rfl⟩)

/-- **A template compiles exactly if it is of the grammar.**

* It is accepted if it has no line break and a reading, which is a sequence of tokens and of
  characters other than `#` and `$`.
* A template has one reading at most, and the directives of its format are the tokens of
  that reading in order, with their spans.
* A line break anywhere in it is reported before all else.
* Without one, a template that is refused is refused for the first `#`, or the first `$`, at
  which no token starts, with its offset. -/
theorem compile_accepts_grammar (name : String) (cs : List Char) :
    ((∃ f, compile name cs = .ok f) ↔ OneLine cs ∧ ∃ ps, Reads ps cs) ∧
    (∀ ps qs, Reads ps cs → Reads qs cs → ps = qs) ∧
    (∀ f ps, compile name cs = .ok f → Reads ps cs →
      f.name = name ∧ f.template = cs ∧ f.entries = entriesOf 0 ps) ∧
    (compile name cs = .error (.lineBreak name) ↔ ¬ OneLine cs) ∧
    (∀ offset, compile name cs = .error (.unknownExpando name offset) ↔
      OneLine cs ∧ StuckAt cs offset '#') ∧
    (∀ offset, (∃ fault, compile name cs = .error (.badFormatter name offset fault)) ↔
      OneLine cs ∧ StuckAt cs offset '$') ∧
    (∀ e, compile name cs = .error e → e = .lineBreak name ∨
      (∃ offset, e = .unknownExpando name offset) ∨
      ∃ offset fault, e = .badFormatter name offset fault) := by
  refine ⟨⟨?_, ?_⟩, fun ps qs => Reads.unique, ?_, compile_eq_lineBreak_iff,
    fun offset => compile_eq_unknownExpando_iff, fun offset => compile_eq_badFormatter_iff,
    fun e => error_cases⟩
  · rintro ⟨f, hf⟩
    obtain ⟨hline, -, -, hscan⟩ := compile_eq_ok_iff.mp hf
    obtain ⟨ps, hps, -⟩ := scan_eq_ok_iff.mp hscan
    exact ⟨hline, ps, hps⟩
  · rintro ⟨hline, ps, hps⟩
    exact ⟨_, compile_of_scan name hline (scan_of_reads hps)⟩
  · intro f ps hf hps
    obtain ⟨-, hname, htemplate, hscan⟩ := compile_eq_ok_iff.mp hf
    rw [scan_of_reads hps] at hscan
    exact ⟨hname, htemplate, (Except.ok.inj hscan).symm⟩

end Format

end Logbook
