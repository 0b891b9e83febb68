/-
Quoted text, piece by piece and back.

A text between quotes has a backslash before each of its quotes and backslashes. It is given out in
pieces: what comes before the next character to be escaped is cut off at a byte offset, then that
character, and it goes on with what is left. A cut at a byte offset exists only between two
characters, so it has to be shown that none of the cuts fails, and that the pieces are together the
text that `Text.quoted` says.

`unquote?` reads such a text back. It looks at one character at a time and does not know where the
text ends but by the first quote without a backslash before it. What it accepts is exactly what
quoting gives, with anything behind it. So one quoted text is never the beginning of another one.
-/
import Logbook.Proofs.Layout.Shown

set_option autoImplicit false

namespace Logbook

namespace Text

/-! ## Giving out -/

/-- The byte offset of the first character that has to be escaped. -/
def escapeAt? : List Char → Option Nat
  | [] => none
  | c :: cs => if c = '"' ∨ c = '\\' then some 0 else (escapeAt? cs).map (c.utf8Size + ·)

theorem length_le_of_dropBytes? {n : Nat} {cs rest : List Char} (h : dropBytes? n cs = some rest) :
    rest.length ≤ cs.length := by
  fun_induction dropBytes? n cs with
  | case1 cs => exact Nat.le_of_eq (congrArg List.length (Option.some.inj h).symm)
  | case2 n => simp at h
  | case3 n c cs hfits ih => exact Nat.le_succ_of_le (ih h)
  | case4 n c cs hfits => simp at h

/-- Every character has a byte, so a byte less is a character less. -/
theorem length_lt_of_dropBytes? {n : Nat} {cs rest : List Char}
    (h : dropBytes? (n + 1) cs = some rest) : rest.length < cs.length := by
  cases cs with
  | nil => simp [dropBytes?] at h
  | cons c cs =>
    rw [dropBytes?] at h
    split at h
    · exact Nat.lt_succ_of_le (length_le_of_dropBytes? h)
    · simp at h

/-- **What is given out for a text inside of its quotes**, piece by piece: what comes before the next
character to be escaped, a backslash and that character, and what is left in the end. There is
nothing where a cut would split a character. -/
def escapedPieces? (cs : List Char) : Option (List (List Char)) :=
  match escapeAt? cs with
  | none => some [cs]
  | some i =>
    match takeBytes? i cs, (Span.mk i (i + 1)).read? cs, _h : dropBytes? (i + 1) cs with
    | some before, some escaped, some rest =>
      (escapedPieces? rest).map fun pieces => before :: ['\\'] :: escaped :: pieces
    | _, _, _ => none
termination_by cs.length
decreasing_by exact length_lt_of_dropBytes? _h

/-- **All that is given out for a quoted text**, piece by piece. -/
def quotedPieces? (cs : List Char) : Option (List (List Char)) :=
  (escapedPieces? cs).map fun pieces => ['"'] :: (pieces ++ [['"']])

variable {before rest : List Char} {c : Char}

theorem utf8Size_of_escaped (hc : c = '"' ∨ c = '\\') : c.utf8Size = 1 := by
  rcases hc with rfl | rfl <;> decide

theorem escapeAt?_of_isPlain {cs : List Char} (h : IsPlain cs) : escapeAt? cs = none := by
  induction cs with
  | nil => rfl
  | cons c cs ih =>
    obtain ⟨hc, hcs⟩ := List.forall_mem_cons.mp h
    rw [escapeAt?, if_neg hc, ih hcs, Option.map_none]

theorem escapeAt?_append (hbefore : IsPlain before) (hc : c = '"' ∨ c = '\\') :
    escapeAt? (before ++ c :: rest) = some (byteLength before) := by
  induction before with
  | nil => rw [List.nil_append, escapeAt?, if_pos hc, byteLength_nil]
  | cons x before ih =>
    obtain ⟨hx, hbefore⟩ := List.forall_mem_cons.mp hbefore
    rw [List.cons_append, escapeAt?, if_neg hx, ih hbefore, Option.map_some, byteLength_cons]

/-- A text has nothing to escape, or there is a first character of it that is escaped. -/
theorem isPlain_or_exists_escaped (cs : List Char) :
    IsPlain cs ∨ ∃ before c rest, cs = before ++ c :: rest ∧ IsPlain before ∧
      (c = '"' ∨ c = '\\') := by
  induction cs with
  | nil => exact .inl (by simp [IsPlain])
  | cons x cs ih =>
    by_cases hx : x = '"' ∨ x = '\\'
    · exact .inr ⟨[], x, cs, rfl, by simp [IsPlain], hx⟩
    · rcases ih with hplain | ⟨before, c, rest, rfl, hbefore, hc⟩
      · exact .inl (List.forall_mem_cons.mpr ⟨hx, hplain⟩)
      · exact .inr ⟨x :: before, c, rest, rfl, List.forall_mem_cons.mpr ⟨hx, hbefore⟩, hc⟩

/-- **The three cuts around a character of one byte** are all between characters. -/
theorem cuts_at (before rest : List Char) (hc : c.utf8Size = 1) :
    takeBytes? (byteLength before) (before ++ c :: rest) = some before ∧
      (Span.mk (byteLength before) (byteLength before + 1)).read? (before ++ c :: rest)
        = some [c] ∧
      dropBytes? (byteLength before + 1) (before ++ c :: rest) = some rest := by
  have hlength : byteLength (before ++ [c]) = byteLength before + 1 := by
    rw [byteLength_append, byteLength_cons, byteLength_nil, hc]
  have htext : before ++ c :: rest = before ++ [c] ++ rest := by simp
  refine ⟨takeBytes?_append before (c :: rest), ?_, ?_⟩
  · rw [← hlength, htext]
    exact Span.read?_append before [c] rest
  · rw [← hlength, htext]
    exact dropBytes?_append (before ++ [c]) rest

/-- One round: the text before the character, a backslash and the character. -/
theorem escapedPieces?_append (hbefore : IsPlain before) (hc : c = '"' ∨ c = '\\') :
    escapedPieces? (before ++ c :: rest)
      = (escapedPieces? rest).map fun pieces => before :: ['\\'] :: [c] :: pieces := by
  obtain ⟨htake, hread, hdrop⟩ := cuts_at before rest (utf8Size_of_escaped hc)
  rw [escapedPieces?, escapeAt?_append hbefore hc]
  dsimp only
  split
  · rename_i before' escaped rest' htake' hread' hdrop'
    obtain rfl : before = before' := Option.some.inj (htake.symm.trans htake')
    obtain rfl : [c] = escaped := Option.some.inj (hread.symm.trans hread')
    obtain rfl : rest = rest' := Option.some.inj (hdrop.symm.trans hdrop')
    rfl
  · rename_i hnone
    exact absurd hdrop (hnone before [c] rest htake hread)

/-- **No cut fails**, and the pieces are the escaped text. There are three of them for every
character that is escaped, and one more. -/
theorem exists_escapedPieces (cs : List Char) :
    ∃ pieces, escapedPieces? cs = some pieces ∧ pieces.flatten = cs.flatMap escape ∧
      pieces.length = 3 * Layout.escapes cs + 1 := by
  rcases isPlain_or_exists_escaped cs with hplain | ⟨before, c, rest, rfl, hbefore, hc⟩
  · refine ⟨[cs], ?_, ?_, ?_⟩
    · rw [escapedPieces?, escapeAt?_of_isPlain hplain]
    · rw [hplain.flatMap_escape, List.flatten_singleton]
    · rw [Layout.escapes_eq_zero_iff.mpr hplain, List.length_singleton]
  · obtain ⟨pieces, hpieces, htext, hlength⟩ := exists_escapedPieces rest
    have hnone : Layout.escapes before = 0 := Layout.escapes_eq_zero_iff.mpr hbefore
    have hcount : Layout.escapes (before ++ c :: rest) = Layout.escapes rest + 1 := by
      rw [Layout.escapes] at hnone
      rw [Layout.escapes, List.countP_append, hnone, List.countP_cons_of_pos (by simpa using hc),
        Nat.zero_add, Layout.escapes]
    refine ⟨before :: ['\\'] :: [c] :: pieces, ?_, ?_, ?_⟩
    · rw [escapedPieces?_append hbefore hc, hpieces, Option.map_some]
    · rw [List.flatMap_append, List.flatMap_cons, hbefore.flatMap_escape, escape, if_pos hc]
      simp [htext]
    · rw [hcount]
      simp only [List.length_cons, hlength]
      omega
termination_by cs.length

/-! ## Reading back -/

/-- What is read inside of quotes, up to the first quote without a backslash before it, and what
comes behind that. -/
def unescape? : List Char → Option (List Char × List Char)
  | [] => none
  | '"' :: rest => some ([], rest)
  | '\\' :: '"' :: cs => (unescape? cs).map fun p => ('"' :: p.1, p.2)
  | '\\' :: '\\' :: cs => (unescape? cs).map fun p => ('\\' :: p.1, p.2)
  | '\\' :: _ => none
  | c :: cs => (unescape? cs).map fun p => (c :: p.1, p.2)

/-- **Reads a quoted text**: its content without the escapes, and what comes behind it. -/
def unquote? : List Char → Option (List Char × List Char)
  | '"' :: cs => unescape? cs
  | _ => none

theorem unescape?_escape (s rest : List Char) :
    unescape? (s.flatMap escape ++ '"' :: rest) = some (s, rest) := by
  induction s with
  | nil => rfl
  | cons c s ih =>
    rw [List.flatMap_cons, List.append_assoc]
    by_cases hc : c = '"' ∨ c = '\\'
    · rw [escape, if_pos hc]
      rcases hc with rfl | rfl
      · rw [List.cons_append, List.singleton_append, unescape?, ih]
        rfl
      · rw [List.cons_append, List.singleton_append, unescape?, ih]
        rfl
    · obtain ⟨hquote, hslash⟩ := not_or.mp hc
      rw [escape, if_neg hc, List.singleton_append, unescape?, ih]
      · rfl
      · exact hquote
      all_goals
        intros
        exact hslash ‹_›

/-- **What is read back was escaped**, character by character. -/
theorem eq_escape_of_unescape? {cs s rest : List Char} (h : unescape? cs = some (s, rest)) :
    cs = s.flatMap escape ++ '"' :: rest := by
  fun_induction unescape? cs generalizing s with
  | case1 => simp at h
  | case2 cs =>
    obtain ⟨rfl, rfl⟩ := Prod.mk.inj (Option.some.inj h)
    rfl
  | case3 cs ih =>
    obtain ⟨⟨s, rest⟩, hrest, hs⟩ := Option.map_eq_some_iff.mp h
    obtain ⟨rfl, rfl⟩ := Prod.mk.inj hs
    rw [ih hrest]
    rfl
  | case4 cs ih =>
    obtain ⟨⟨s, rest⟩, hrest, hs⟩ := Option.map_eq_some_iff.mp h
    obtain ⟨rfl, rfl⟩ := Prod.mk.inj hs
    rw [ih hrest]
    rfl
  | case5 cs hquote hslash => simp at h
  | case6 c cs hquote _ _ hslash ih =>
    obtain ⟨⟨s, rest⟩, hrest, hs⟩ := Option.map_eq_some_iff.mp h
    obtain ⟨rfl, rfl⟩ := Prod.mk.inj hs
    have hc : ¬ (c = '"' ∨ c = '\\') := not_or.mpr ⟨hquote, hslash⟩
    rw [ih hrest, List.flatMap_cons, escape, if_neg hc]
    rfl

theorem toList_quoted (s : String) (rest : List Char) :
    (quoted s).toList ++ rest = '"' :: (s.toList.flatMap escape ++ '"' :: rest) := by
  simp [quoted]

/-- **Reading accepts exactly what quoting gives**, with anything behind it. -/
theorem unquote?_eq_some_iff {cs rest : List Char} {s : String} :
    unquote? cs = some (s.toList, rest) ↔ cs = (quoted s).toList ++ rest := by
  rw [toList_quoted]
  constructor
  · intro h
    unfold unquote? at h
    split at h
    · rw [eq_escape_of_unescape? h]
    · simp at h
  · rintro rfl
    exact unescape?_escape s.toList rest

/-- **Quoting can be undone.** Take any text, with any other text behind it once it is quoted.

* Reading takes the quoted text apart from what is behind it, and gives back both as they were. It
  accepts nothing else than quoted texts.
* So two quoted texts with something behind them are the same only if the texts are the same, and
  what is behind them is. No quoted text is the beginning of another one.
* The text is given out in pieces that are cut off at byte offsets. No cut falls inside of a
  character. There is one round for each quote and each backslash, and the pieces are together the
  quoted text. -/
theorem quoted_can_be_undone (s behind : String) :
    unquote? (quoted s ++ behind).toList = some (s.toList, behind.toList) ∧
    (∀ cs rest, unquote? cs = some (s.toList, rest) → cs = (quoted s).toList ++ rest) ∧
    (∀ t behind', quoted s ++ behind = quoted t ++ behind' → s = t ∧ behind = behind') ∧
    (∀ t, quoted s = quoted t → s = t) ∧
    (∀ t, (quoted s).toList <+: (quoted t).toList → s = t) ∧
    ∃ pieces, quotedPieces? s.toList = some pieces ∧ pieces.flatten = (quoted s).toList ∧
      pieces.length = 3 * Layout.escapes s.toList + 3 := by
  have hreads : ∀ (t : String) (rest : List Char),
      unquote? ((quoted t).toList ++ rest) = some (t.toList, rest) := by
    intro t rest
    exact unquote?_eq_some_iff.mpr rfl
  have hfront : ∀ (t : String) (rest rest' : List Char),
      (quoted s).toList ++ rest = (quoted t).toList ++ rest' → s = t ∧ rest = rest' := by
    intro t rest rest' hsame
    have hread := hreads s rest
    rw [hsame, hreads t rest'] at hread
    obtain ⟨htext, hrest⟩ := Prod.mk.inj (Option.some.inj hread)
    exact ⟨String.toList_inj.mp htext.symm, hrest.symm⟩
  refine ⟨?_, ?_, ?_, ?_, ?_, ?_⟩
  · rw [String.toList_append]
    exact hreads s behind.toList
  · intro cs rest h
    exact unquote?_eq_some_iff.mp h
  · intro t behind' hsame
    have hlists := congrArg String.toList hsame
    rw [String.toList_append, String.toList_append] at hlists
    obtain ⟨htext, hbehind⟩ := hfront t _ _ hlists
    exact ⟨htext, String.toList_inj.mp hbehind⟩
  · intro t hsame
    exact (hfront t [] [] (by rw [hsame])).1
  · rintro t ⟨rest, hrest⟩
    refine (hfront t rest [] ?_).1
    rw [hrest, List.append_nil]
  · obtain ⟨pieces, hpieces, htext, hlength⟩ := exists_escapedPieces s.toList
    refine ⟨['"'] :: (pieces ++ [['"']]), ?_, ?_, ?_⟩
    · rw [quotedPieces?, hpieces, Option.map_some]
    · simp [quoted, htext]
    · simp only [List.length_cons, List.length_append, List.length_nil, hlength]

end Text

end Logbook
