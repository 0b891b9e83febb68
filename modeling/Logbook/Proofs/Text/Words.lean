/-
What numbers and instants are written with.

Numbers and instants stand in the middle of other text: in the template of a layout, between the
commas of a record, between quotes. They never get in the way there. A number is a word, of letters,
digits, signs and points, and an instant is such a word with colons. So neither has a blank, a
bracket, a quote, a line break or a character that starts a directive.
-/
import Logbook.Instant

set_option autoImplicit false

namespace Logbook

namespace Text

/-- The characters that words are made of. -/
def isWordChar (c : Char) : Bool := c.isAlphanum || c ∈ ['+', '-', '.']

/-- **A word**, as a reader of text takes it for one piece. -/
structure IsWord (cs : List Char) : Prop where
  ne_nil : cs ≠ []
  isWordChar : ∀ c ∈ cs, isWordChar c = true

theorem isWord_of_all {cs : List Char} (hne : cs ≠ []) (hall : cs.all isWordChar = true) :
    IsWord cs := ⟨hne, List.all_eq_true.mp hall⟩

theorem isWordChar_of_isDigit {c : Char} (h : c.isDigit = true) : isWordChar c = true := by
  simp [isWordChar, Char.isAlphanum, h]

/-- A class of characters tells those that are in it from those that are not. -/
theorem ne_of_class {p : Char → Bool} {c x : Char} (hc : p c = true) (hx : p x = false) :
    c ≠ x := by
  rintro rfl
  rw [hc] at hx
  contradiction

/-- More word characters before a word make a longer word. -/
theorem IsWord.append {cs ds : List Char} (hcs : ∀ c ∈ cs, Text.isWordChar c = true)
    (hds : IsWord ds) : IsWord (cs ++ ds) where
  ne_nil := List.append_ne_nil_of_right_ne_nil cs hds.ne_nil
  isWordChar := List.forall_mem_append.mpr ⟨hcs, hds.isWordChar⟩

end Text

open Text

/-! ## Numbers -/

namespace Decimal

theorem isDigit_digitsOf (n : Nat) : ∀ c ∈ digitsOf n, c.isDigit = true :=
  fun _ hc => Nat.isDigit_of_mem_toDigits (by decide) (by decide) hc

theorem isWord_digitsOf (n : Nat) : IsWord (digitsOf n) where
  ne_nil := Nat.toDigits_ne_nil
  isWordChar c hc := isWordChar_of_isDigit (isDigit_digitsOf n c hc)

theorem isWord_intText (i : Int) : IsWord (intText i).toList := by
  have hdigits := isWord_digitsOf i.natAbs
  unfold intText
  split
  · rw [String.toList_append, String.toList_ofList (l := digitsOf i.natAbs)]
    exact .append (List.all_eq_true.mp (by decide)) hdigits
  · rw [String.toList_ofList]
    exact hdigits

theorem isWord_positional {digits : List Char} (h : IsWord digits) (scale : Int) :
    IsWord (positional digits scale) := by
  have hzeros : ∀ n, ∀ c ∈ List.replicate n '0', Text.isWordChar c = true := by
    intro n c hc
    rw [List.eq_of_mem_replicate hc]
    rfl
  unfold positional
  split
  · refine ⟨List.append_ne_nil_of_left_ne_nil h.ne_nil _, ?_⟩
    exact List.forall_mem_append.mpr ⟨h.isWordChar, hzeros _⟩
  · dsimp only
    split
    -- the point parts the digits, and stands in between even if there are none behind it
    · refine ⟨by simp, List.forall_mem_append.mpr ⟨?_, List.forall_mem_cons.mpr ⟨rfl, ?_⟩⟩⟩
      · exact fun c hc => h.isWordChar c (List.mem_of_mem_take hc)
      · exact fun c hc => h.isWordChar c (List.mem_of_mem_drop hc)
    · have hlead : ∀ n, ∀ c ∈ ['0', '.'] ++ List.replicate n '0', Text.isWordChar c = true :=
        fun n => List.forall_mem_append.mpr ⟨List.all_eq_true.mp (by decide), hzeros n⟩
      exact .append (hlead _) h

theorem isWord_scientific {digits : List Char} (h : IsWord digits) {style : DecimalStyle}
    (hstyle : ∀ c ∈ style.positiveExponent.toList, Text.isWordChar c = true) (exponent : Int) :
    IsWord (scientific style digits exponent).toList := by
  have hsign : ∀ c ∈ (if exponent < 0 then "" else style.positiveExponent).toList,
      Text.isWordChar c = true := by
    split
    · simp
    · exact hstyle
  simp only [scientific, String.toList_append, String.toList_ofList]
  refine .append ?_ (isWord_intText exponent)
  have hmark : ∀ c ∈ "e".toList, Text.isWordChar c = true := List.all_eq_true.mp (by decide)
  refine List.forall_mem_append.mpr ⟨List.forall_mem_append.mpr ⟨?_, hmark⟩, hsign⟩
  have hall := h.isWordChar
  split
  · simp only [List.forall_mem_cons] at hall ⊢
    exact ⟨hall.1, rfl, hall.2⟩
  · exact hall

end Decimal

/-- **A number is written as one word.** -/
theorem Number.isWord_text (n : Number) : IsWord n.text.toList := by
  have hfinite : ∀ d : Decimal, IsWord (d.text style).toList := by
    intro d
    have hdigits := Decimal.isWord_digitsOf d.digits
    unfold Decimal.text
    dsimp only
    split
    · rw [String.toList_ofList]
      exact Decimal.isWord_positional hdigits d.scale
    · exact Decimal.isWord_scientific hdigits (List.all_eq_true.mp (by decide)) _
  cases n with
  | int i => exact Decimal.isWord_intText i
  | float x =>
    unfold text
    dsimp only
    split
    · exact isWord_of_all (by decide) (by decide)
    · split
      · exact isWord_of_all (by decide) (by decide)
      · exact isWord_of_all (by decide) (by decide)
    · rename_i negative m q
      split
      · exact isWord_of_all (by decide) (by decide)
      · rw [String.toList_append]
        refine .append ?_ (hfinite _)
        split <;> exact List.all_eq_true.mp (by decide)

/-! ## Instants -/

namespace Instant

/-- The characters of the text of an instant. -/
def isTextChar (c : Char) : Bool := isWordChar c || c = ':'

theorem isTextChar_padded (width n : Nat) : ∀ c ∈ (padded width n).toList, isTextChar c = true := by
  intro c hc
  rw [padded, String.toList_ofList] at hc
  rcases List.mem_append.mp hc with hc | hc
  · rw [List.eq_of_mem_replicate hc]
    rfl
  · simp [isTextChar, (Decimal.isWord_digitsOf n).isWordChar c hc]

theorem isTextChar_yearText (year : Int) : ∀ c ∈ (yearText year).toList, isTextChar c = true := by
  unfold yearText
  split
  · exact isTextChar_padded 4 _
  · rw [String.toList_append, List.forall_mem_append]
    exact ⟨by split <;> exact List.all_eq_true.mp (by decide), isTextChar_padded 4 _⟩

/-- **An instant is written with the characters of words and with colons.** -/
theorem isTextChar_text (t : Instant) : ∀ c ∈ t.text.toList, isTextChar c = true := by
  have hmark : ∀ s : String, s.toList.all isTextChar = true → ∀ c ∈ s.toList, isTextChar c = true :=
    fun s hall => List.all_eq_true.mp hall
  unfold text
  dsimp only
  simp only [String.toList_append, List.forall_mem_append]
  refine ⟨⟨⟨⟨⟨⟨⟨⟨⟨⟨⟨⟨⟨isTextChar_yearText _, ?_⟩, isTextChar_padded 2 _⟩, ?_⟩,
    isTextChar_padded 2 _⟩, ?_⟩, isTextChar_padded 2 _⟩, ?_⟩, isTextChar_padded 2 _⟩, ?_⟩,
    isTextChar_padded 2 _⟩, ?_⟩, isTextChar_padded 3 _⟩, ?_⟩ <;> exact hmark _ (by decide)

end Instant

end Logbook
