/-
The grammar of the tokens of a template, and that the readers accept exactly it.

A token is written down here as a relation between its characters and the directive it
stands for, without a word on how it is found: an escaped character, a `#` with the name
of an expando, or a formatter `${D:k}`, which for a record or a sequence may have a clause
`<S,S>`. Each reader of a template then accepts the start of a text exactly when it is of
the form it looks for, and says how long that start is.

Accepting is the half that needs an argument. A reader finds the end of the digits and of
the clause by the first character that does not fit, and the first `>` of a text may stand
far behind the token; that it is found in the right place follows from what the sides of a
clause may hold.
-/
import Logbook.Format.Basic
import Mathlib.Algebra.Group.Nat.Defs

set_option autoImplicit false

namespace Logbook

theorem Expando.mem_list (e : Expando) : e ∈ Expando.list := by
  cases e <;> decide

namespace Template

/-! ## Tokens -/

/-- Digits of a number that fits a word of 64 bits. -/
structure IsWord (digits : List Char) : Prop where
  nonempty : digits ≠ []
  isDigit : ∀ c ∈ digits, c.isDigit = true
  fits : Nat.ofDigitChars 10 digits 0 < 2 ^ 64

/-- One side of a clause, with the bound it gives. -/
inductive Side : List Char → Option Nat → Prop where
  | empty : Side [] none
  | star : Side ['*'] (some (2 ^ 64 - 1))
  | digits {digits : List Char} (h : IsWord digits) :
    Side digits (some (Nat.ofDigitChars 10 digits 0))

/-- What may stand between the kind of a compound formatter and its closing brace. A bound
that is not given is the standard one, and the length is that of records and sequences. -/
inductive Clause : List Char → Bounds → Prop where
  | none : Clause [] .standard
  | sides {left right : List Char} {depth length : Option Nat} (hleft : Side left depth)
      (hright : Side right length) :
    Clause ('<' :: (left ++ ',' :: (right ++ ['>'])))
      { depth := depth.getD Bounds.standard.depth
        recordLength := length.getD Bounds.standard.recordLength
        sequenceLength := length.getD Bounds.standard.sequenceLength }

/-- What stands between the colon of a formatter and its closing brace, with the directive
it makes for an argument. -/
inductive Kind (argument : Nat) : List Char → Directive → Prop where
  | bool : Kind argument ['b'] (.scalar .bool argument)
  | number : Kind argument ['n'] (.scalar .number argument)
  | text : Kind argument ['s'] (.scalar .text argument)
  | general : Kind argument ['g'] (.general argument)
  | record {clause : List Char} {bounds : Bounds} (h : Clause clause bounds) :
    Kind argument ('o' :: clause) (.compound .record argument bounds)
  | sequence {clause : List Char} {bounds : Bounds} (h : Clause clause bounds) :
    Kind argument ('a' :: clause) (.compound .sequence argument bounds)

/-- **The tokens of a template**, each with the directive it stands for. -/
inductive Token : List Char → Directive → Prop where
  | hash : Token ['#', '#'] (.literal .hash)
  | dollar : Token ['$', '$'] (.literal .dollar)
  | expando (e : Expando) : Token ('#' :: e.name) (.expando e)
  | formatter {digits kind : List Char} {d : Directive} (hdigits : IsWord digits)
      (hkind : Kind (Nat.ofDigitChars 10 digits 0) kind d) :
    Token ('$' :: '{' :: (digits ++ ':' :: (kind ++ ['}']))) d

/-! ## Runs of characters -/

/-- What a search for a character finds starts with it. -/
theorem eq_of_dropWhile_ne {x c : Char} {cs rest : List Char}
    (h : cs.dropWhile (fun a => decide (a ≠ x)) = c :: rest) :
    c = x ∧ cs = cs.takeWhile (fun a => decide (a ≠ x)) ++ x :: rest := by
  have hc : c = x := by
    have hhead := List.head?_dropWhile_not (fun a => decide (a ≠ x)) cs
    rw [h] at hhead
    simpa using hhead
  subst hc
  refine ⟨rfl, ?_⟩
  rw [← h, List.takeWhile_append_dropWhile]

/-- A run of characters with a property ends at the first one without it. -/
theorem takeWhile_append_cons {p : Char → Bool} {run : List Char} {stop : Char}
    (hrun : ∀ c ∈ run, p c = true) (hstop : p stop = false) (rest : List Char) :
    (run ++ stop :: rest).takeWhile p = run ∧
      (run ++ stop :: rest).dropWhile p = stop :: rest := by
  rw [List.takeWhile_append_of_pos hrun, List.dropWhile_append_of_pos hrun]
  simp [hstop]

/-- A search for a character finds the first one there is. -/
theorem search_append {x : Char} {run : List Char} (hrun : x ∉ run) (rest : List Char) :
    (run ++ x :: rest).takeWhile (fun a => decide (a ≠ x)) = run ∧
      (run ++ x :: rest).dropWhile (fun a => decide (a ≠ x)) = x :: rest :=
  takeWhile_append_cons (fun c hc => by simpa using ne_of_mem_of_not_mem hc hrun) (by simp) rest

theorem ne_of_isDigit {c x : Char} (hc : c.isDigit = true) (hx : x.isDigit = false) :
    c ≠ x := by
  rintro rfl
  rw [hc] at hx
  contradiction

/-! ## The readers of a clause -/

theorem readWord_eq_some_iff {digits : List Char} {n : Nat} :
    readWord digits = some n ↔
      Nat.ofDigitChars 10 digits 0 < 2 ^ 64 ∧ Nat.ofDigitChars 10 digits 0 = n := by
  have hvalue : valueOf digits = Nat.ofDigitChars 10 digits 0 := rfl
  have hlimit : Bounds.wordLimit = 2 ^ 64 := rfl
  unfold readWord
  rw [hvalue, hlimit]
  dsimp only
  split
  · rename_i hfits
    exact ⟨fun h => ⟨hfits, Option.some.inj h⟩, fun h => congrArg some h.2⟩
  · rename_i hfits
    exact ⟨fun h => (Option.some_ne_none n h.symm).elim, fun h => absurd h.1 hfits⟩

theorem readSide_eq_ok_iff {side : List Char} {bound : Option Nat} :
    readSide side = .ok bound ↔ Side side bound := by
  constructor
  · intro h
    unfold readSide at h
    split at h
    · rename_i hempty
      rw [List.isEmpty_iff] at hempty
      rw [hempty, ← Except.ok.inj h]
      exact .empty
    · rename_i hempty
      split at h
      · rename_i hstar
        rw [hstar, ← Except.ok.inj h]
        exact .star
      · split at h
        · rename_i hdigits
          split at h
          · rename_i n hword
            obtain ⟨hfits, rfl⟩ := readWord_eq_some_iff.mp hword
            rw [← Except.ok.inj h]
            exact .digits ⟨by simpa using hempty, List.all_eq_true.mp hdigits, hfits⟩
          · simp at h
        · simp at h
  · rintro (_ | _ | h)
    · rfl
    · rfl
    · have hstar : side ≠ ['*'] := by
        rintro rfl
        exact absurd (h.isDigit '*' (by simp)) (by decide)
      have hword := readWord_eq_some_iff.mpr ⟨h.fits, rfl⟩
      have hall : side.all Char.isDigit = true := List.all_eq_true.mpr h.isDigit
      simp only [readSide, List.isEmpty_iff, h.nonempty, hstar, hall, hword, if_true, if_false]

/-- A side holds digits or a star, so none of the characters around it. -/
theorem Side.not_mem {side : List Char} {bound : Option Nat} (h : Side side bound) {x : Char}
    (hx : x.isDigit = false) (hstar : x ≠ '*') : x ∉ side := by
  cases h with
  | empty => simp
  | star => simpa using hstar
  | digits h => exact fun hmem => ne_of_isDigit (h.isDigit x hmem) hx rfl

theorem splitComma_eq_some_iff {clause left right : List Char} :
    splitComma clause = some (left, right) ↔ clause = left ++ ',' :: right ∧ ',' ∉ left := by
  constructor
  · intro h
    unfold splitComma at h
    split at h
    · rename_i c rest hdrop
      simp only [Option.some.injEq, Prod.mk.injEq] at h
      obtain ⟨rfl, rfl⟩ := h
      refine ⟨(eq_of_dropWhile_ne hdrop).2, fun hmem => ?_⟩
      have hne := List.all_eq_true.mp List.all_takeWhile ',' hmem
      simp at hne
    · simp at h
  · rintro ⟨rfl, hleft⟩
    obtain ⟨htake, hdrop⟩ := search_append hleft right
    simp only [splitComma, htake, hdrop]

theorem readBounds_eq_ok_iff {cs : List Char} {bounds : Bounds} {width : Nat} :
    readBounds cs = .ok (bounds, width) ↔
      ∃ clause rest, cs = clause ++ '}' :: rest ∧ Clause clause bounds ∧
        width = clause.length + 1 := by
  constructor
  · intro h
    unfold readBounds at h
    split at h
    · rename_i rest
      simp only [Except.ok.injEq, Prod.mk.injEq] at h
      obtain ⟨rfl, rfl⟩ := h
      exact ⟨[], rest, rfl, .none, rfl⟩
    · rename_i rest
      dsimp only at h
      split at h
      · simp at h
      · rename_i c after hdrop
        obtain ⟨-, hrest⟩ := eq_of_dropWhile_ne hdrop
        split at h
        · simp at h
        · rename_i left right hcomma
          obtain ⟨hclause, -⟩ := splitComma_eq_some_iff.mp hcomma
          split at h
          · rename_i hclosed
            obtain ⟨after, rfl⟩ := List.head?_eq_some_iff.mp hclosed
            cases hleft : readSide left with
            | error fault => simp [hleft, bind, Except.bind] at h
            | ok depth =>
              cases hright : readSide right with
              | error fault => simp [hleft, hright, bind, Except.bind] at h
              | ok length =>
                simp only [hleft, hright, bind, Except.bind, Except.ok.injEq,
                  Prod.mk.injEq] at h
                obtain ⟨rfl, rfl⟩ := h
                rw [hclause] at hrest ⊢
                refine ⟨_, after, ?_, .sides (readSide_eq_ok_iff.mp hleft)
                  (readSide_eq_ok_iff.mp hright), ?_⟩
                · simp [hrest]
                · simp only [List.length_cons, List.length_append, List.length_nil]
                  omega
          · simp at h
    · simp at h
  · rintro ⟨clause, rest, rfl, hclause, rfl⟩
    cases hclause with
    | none => rfl
    | @sides left right depth length hleft hright =>
      -- the first `>` is that of the clause, and its first comma the one between the sides
      have hclose : '>' ∉ left ++ ',' :: right := by
        simp [hleft.not_mem (x := '>') rfl (by decide),
          hright.not_mem (x := '>') rfl (by decide)]
      have hcomma : splitComma (left ++ ',' :: right) = some (left, right) :=
        splitComma_eq_some_iff.mpr ⟨rfl, hleft.not_mem rfl (by decide)⟩
      obtain ⟨htake, hdrop⟩ := search_append hclose ('}' :: rest)
      have htext : '<' :: (left ++ ',' :: (right ++ ['>'])) ++ '}' :: rest
          = '<' :: (left ++ ',' :: right ++ '>' :: '}' :: rest) := by simp
      rw [htext]
      simp only [readBounds, htake, hdrop, hcomma, List.head?_cons, if_true,
        readSide_eq_ok_iff.mpr hleft, readSide_eq_ok_iff.mpr hright]
      simp only [bind, Except.bind, boundsOf, Except.ok.injEq, Prod.mk.injEq, true_and,
        List.length_cons, List.length_append, List.length_nil]
      omega

/-! ## The readers of a token -/

theorem readKind_eq_ok_iff {argument width : Nat} {cs : List Char} {d : Directive} :
    readKind argument cs = .ok (d, width) ↔
      ∃ kind rest, cs = kind ++ '}' :: rest ∧ Kind argument kind d ∧
        width = kind.length + 1 := by
  constructor
  · intro h
    unfold readKind at h
    split at h
    · simp at h
    · rename_i c rest
      split at h
      · rename_i directive hplain
        split at h
        · rename_i hclosed
          obtain ⟨rest, rfl⟩ := List.head?_eq_some_iff.mp hclosed
          simp only [Except.ok.injEq, Prod.mk.injEq] at h
          obtain ⟨rfl, rfl⟩ := h
          refine ⟨[c], rest, rfl, ?_, rfl⟩
          unfold plainKind? at hplain
          split at hplain
          · rw [← Option.some.inj hplain]; exact .bool
          · rw [← Option.some.inj hplain]; exact .number
          · rw [← Option.some.inj hplain]; exact .text
          · rw [← Option.some.inj hplain]; exact .general
          · simp at hplain
        · simp at h
      · rename_i shape hplain hcompound
        cases hbounds : readBounds rest with
        | error fault => simp [hbounds, bind, Except.bind] at h
        | ok p =>
          obtain ⟨bounds, n⟩ := p
          simp only [hbounds, bind, Except.bind, Except.ok.injEq, Prod.mk.injEq] at h
          obtain ⟨rfl, rfl⟩ := h
          obtain ⟨clause, rest, rfl, hclause, rfl⟩ := readBounds_eq_ok_iff.mp hbounds
          refine ⟨c :: clause, rest, rfl, ?_, rfl⟩
          unfold compoundKind? at hcompound
          split at hcompound
          · rw [← Option.some.inj hcompound]; exact .record hclause
          · rw [← Option.some.inj hcompound]; exact .sequence hclause
          · simp at hcompound
      · simp at h
  · rintro ⟨kind, rest, rfl, hkind, rfl⟩
    have hcompound : ∀ {clause : List Char} {bounds : Bounds}, Clause clause bounds →
        readBounds (clause ++ '}' :: rest) = .ok (bounds, clause.length + 1) :=
      fun h => readBounds_eq_ok_iff.mpr ⟨_, rest, rfl, h, rfl⟩
    cases hkind with
    | bool => rfl
    | number => rfl
    | text => rfl
    | general => rfl
    | record h => simp [readKind, plainKind?, compoundKind?, hcompound h, bind, Except.bind]
    | sequence h => simp [readKind, plainKind?, compoundKind?, hcompound h, bind, Except.bind]

theorem readFormatter_eq_ok_iff {cs : List Char} {d : Directive} {width : Nat} :
    readFormatter cs = .ok (d, width) ↔
      ∃ token rest, cs = token ++ rest ∧ Token ('$' :: token) d ∧ width = token.length := by
  constructor
  · intro h
    unfold readFormatter at h
    split at h
    · rename_i rest
      simp only [Except.ok.injEq, Prod.mk.injEq] at h
      obtain ⟨rfl, rfl⟩ := h
      exact ⟨['$'], rest, rfl, .dollar, rfl⟩
    · rename_i body
      dsimp only at h
      split at h
      · simp at h
      · rename_i hempty
        split at h
        · simp at h
        · rename_i argument hword
          split at h
          · rename_i cs hdrop
            cases hkind : readKind argument cs with
            | error fault => simp [hkind, bind, Except.bind] at h
            | ok p =>
              obtain ⟨directive, n⟩ := p
              simp only [hkind, bind, Except.bind, Except.ok.injEq, Prod.mk.injEq] at h
              obtain ⟨rfl, rfl⟩ := h
              obtain ⟨hfits, rfl⟩ := readWord_eq_some_iff.mp hword
              obtain ⟨kind, rest, rfl, hspelled, rfl⟩ := readKind_eq_ok_iff.mp hkind
              have hdigits : IsWord (body.takeWhile Char.isDigit) :=
                ⟨by simpa using hempty, List.all_eq_true.mp List.all_takeWhile, hfits⟩
              have hbody : body.takeWhile Char.isDigit ++ ':' :: (kind ++ '}' :: rest) = body := by
                rw [← hdrop, List.takeWhile_append_dropWhile]
              refine ⟨_, rest, ?_, .formatter hdigits hspelled, ?_⟩
              · simp [hbody]
              · simp only [List.length_cons, List.length_append, List.length_nil]
                omega
          · simp at h
    · simp at h
  · rintro ⟨token, rest, rfl, htoken, rfl⟩
    cases htoken with
    | dollar => rfl
    | @formatter digits kind _ hdigits hkind =>
      -- a colon is no digit, so the digits end where they should
      have hcolon : (':').isDigit = false := rfl
      obtain ⟨htake, hdrop⟩ := takeWhile_append_cons hdigits.isDigit hcolon (kind ++ '}' :: rest)
      have htext : '{' :: (digits ++ ':' :: (kind ++ ['}'])) ++ rest
          = '{' :: (digits ++ ':' :: (kind ++ '}' :: rest)) := by simp
      have hread := readKind_eq_ok_iff.mpr ⟨kind, rest, rfl, hkind, rfl⟩
      rw [htext]
      simp only [readFormatter, htake, hdrop, List.isEmpty_iff, hdigits.nonempty, if_false,
        readWord_eq_some_iff.mpr ⟨hdigits.fits, rfl⟩, hread]
      simp only [bind, Except.bind, Except.ok.injEq, Prod.mk.injEq, true_and, List.length_cons,
        List.length_append, List.length_nil]
      omega

/-- No name begins another one, so at most one expando starts at a place. -/
theorem eq_of_prefix_names {e e' : Expando} {cs : List Char} (h : e.name <+: cs)
    (h' : e'.name <+: cs) : e = e' := by
  have hnames : ∀ e ∈ Expando.list, ∀ e' ∈ Expando.list, e.name <+: e'.name → e = e' := by
    decide
  rcases List.prefix_or_prefix_of_prefix h h' with h | h
  · exact hnames e e.mem_list e' e'.mem_list h
  · exact (hnames e' e'.mem_list e e.mem_list h).symm

theorem readExpando_eq_some_iff {cs : List Char} {d : Directive} {width : Nat} :
    readExpando cs = some (d, width) ↔
      ∃ token rest, cs = token ++ rest ∧ Token ('#' :: token) d ∧ width = token.length := by
  constructor
  · intro h
    unfold readExpando at h
    split at h
    · rename_i rest
      simp only [Option.some.injEq, Prod.mk.injEq] at h
      obtain ⟨rfl, rfl⟩ := h
      exact ⟨['#'], rest, rfl, .hash, rfl⟩
    · obtain ⟨e, hfind, heq⟩ := Option.map_eq_some_iff.mp h
      obtain ⟨rest, rfl⟩ : e.name <+: cs := by simpa using List.find?_some hfind
      simp only [Prod.mk.injEq] at heq
      obtain ⟨rfl, rfl⟩ := heq
      exact ⟨e.name, rest, rfl, .expando e, rfl⟩
  · rintro ⟨token, rest, rfl, htoken, rfl⟩
    cases htoken with
    | hash => rfl
    | expando e =>
      have hstarts : e.name <+: e.name ++ rest := List.prefix_append e.name rest
      have hfind : (Expando.list.find? fun e' => e'.name.isPrefixOf (e.name ++ rest)) = some e := by
        cases hfound : Expando.list.find? fun e' => e'.name.isPrefixOf (e.name ++ rest) with
        | none =>
          have hnone := List.find?_eq_none.mp hfound e e.mem_list
          simp [hstarts] at hnone
        | some e' =>
          have hstarts' : e'.name <+: e.name ++ rest := by simpa using List.find?_some hfound
          rw [eq_of_prefix_names hstarts' hstarts]
      -- a name starts with a letter, so it is not taken for an escaped character
      obtain ⟨c, name, hname, hc⟩ : ∃ c name, e.name = c :: name ∧ c ≠ '#' := by
        cases e <;> exact ⟨_, _, rfl, by decide⟩
      unfold readExpando
      split
      · rename_i cs hcs
        rw [hname] at hcs
        exact absurd (List.cons.inj hcs).1 hc
      · rw [hfind, Option.map_some]

/-- **A directive is read exactly where a token stands for it**, with the length of that
token. -/
theorem readToken_eq_ok_iff {c : Char} {cs : List Char} {d : Directive} {width : Nat} :
    readToken c cs = some (.ok (d, width)) ↔
      ∃ token rest, cs = token ++ rest ∧ Token (c :: token) d ∧ width = token.length := by
  unfold readToken
  by_cases hhash : c = '#'
  · subst hhash
    rw [if_pos rfl, ← readExpando_eq_some_iff]
    cases readExpando cs <;> simp
  · rw [if_neg hhash]
    by_cases hdollar : c = '$'
    · subst hdollar
      rw [if_pos rfl, ← readFormatter_eq_ok_iff]
      cases readFormatter cs with
      | error f =>
        show some (Except.error (TokenFault.formatter f)) = some (.ok (d, width)) ↔ _
        simp
      | ok p =>
        show some (Except.ok p) = some (.ok (d, width)) ↔ _
        simp
    · rw [if_neg hdollar]
      constructor
      · intro h
        simp at h
      · rintro ⟨token, rest, -, htoken, -⟩
        cases htoken with
        | hash => exact absurd rfl hhash
        | dollar => exact absurd rfl hdollar
        | expando e => exact absurd rfl hhash
        | formatter hdigits hkind => exact absurd rfl hdollar

end Template

end Logbook
