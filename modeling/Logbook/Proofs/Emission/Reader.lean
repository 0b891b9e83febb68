/-
Reading back what a record or sequence is shown as.

The text of a node is meant to be read again, by a reader that knows brackets, commas and colons
outside of quotes, and between quotes a backslash before a quote or before a backslash. `read` is
that reader, and `lexemes` is what the expanded value is made of, piece by piece, without a look at
its text.

Texts and names of fields are escaped, so whatever they hold they are read back as they are. The
name of a callable is put between quotes without escapes. It is read back if it has no quote and no
backslash; with any of them the reader finds something else than what was shown.
-/
import Logbook.Proofs.Buffer.Expansion
import Logbook.Proofs.Emission.Printer
import Logbook.Proofs.Text.Words

set_option autoImplicit false

namespace Logbook

/-! ## Escapes -/

namespace Text

/-- A text without quotes and backslashes. -/
def IsPlain (cs : List Char) : Prop := ∀ c ∈ cs, ¬ (c = '"' ∨ c = '\\')

instance (cs : List Char) : Decidable (IsPlain cs) :=
  decidable_of_iff (cs.all fun c => !(c == '"' || c == '\\')) (by simp [IsPlain])

variable {cs ds rest rest' : List Char} {c : Char}

theorem isPlain_append : IsPlain (cs ++ ds) ↔ IsPlain cs ∧ IsPlain ds := List.forall_mem_append

theorem IsPlain.flatMap_escape (h : IsPlain cs) : cs.flatMap escape = cs := by
  induction cs with
  | nil => rfl
  | cons c cs ih =>
    obtain ⟨hc, hcs⟩ := List.forall_mem_cons.mp h
    rw [List.flatMap_cons, escape, if_neg hc, ih hcs, List.singleton_append]

/-- **A text is its escaped form only if there is nothing to escape**, even where the escaped form
has more backslashes before it and both go on. A backslash of the escaped form that the text does
not have can only be met by one that the text has, and that one is doubled in turn. -/
theorem isPlain_of_append_eq {n : Nat} {x : Char} (hx : x ≠ '\\')
    (h : cs ++ x :: rest = List.replicate n '\\' ++ (cs.flatMap escape ++ x :: rest')) :
    n = 0 ∧ IsPlain cs := by
  induction cs generalizing n with
  | nil =>
    cases n with
    | zero => exact ⟨rfl, by simp [IsPlain]⟩
    | succ n => exact absurd (List.cons.inj h).1 hx
  | cons c cs ih =>
    cases n with
    | zero =>
      by_cases hc : c = '"' ∨ c = '\\'
      -- an escaped character starts with a backslash, so `c` is one and its double is left over
      · have htail : c = '\\' ∧ cs ++ x :: rest = c :: (cs.flatMap escape ++ x :: rest') := by
          simpa [escape, hc] using h
        obtain ⟨rfl, htail⟩ := htail
        have hmore := (ih (n := 1) htail).1
        contradiction
      · have htail : cs ++ x :: rest
            = List.replicate 0 '\\' ++ (cs.flatMap escape ++ x :: rest') := by
          simpa [escape, hc] using h
        exact ⟨rfl, List.forall_mem_cons.mpr ⟨hc, (ih htail).2⟩⟩
    | succ n =>
      obtain ⟨rfl, htail⟩ := List.cons.inj h
      have hslashes : cs ++ x :: rest
          = List.replicate (n + 2) '\\' ++ (cs.flatMap escape ++ x :: rest') := by
        refine htail.trans ?_
        simp [escape, List.replicate_succ']
      have hmore := (ih hslashes).1
      contradiction

end Text

/-- The text of an instant has nothing to escape. -/
theorem Instant.isPlain_text (t : Instant) : Text.IsPlain t.text.toList := fun c hc =>
  have hclass := t.isTextChar_text c hc
  not_or.mpr ⟨Text.ne_of_class hclass (by decide), Text.ne_of_class hclass (by decide)⟩

/-! ## The reader -/

/-- What a text with brackets and quotes is made of. A quoted text is one piece, and what it holds
is without its escapes. -/
inductive Lexeme where
  | opening (shape : Shape)
  | closing (shape : Shape)
  | comma
  | colon
  | quoted (cs : List Char)
  | word (cs : List Char)
  deriving DecidableEq, Repr

namespace Lexeme

/-- Where a reading stands, with what it has of the piece it is in. -/
inductive Place where
  /-- Outside of quotes, in a word or between pieces. -/
  | outside (word : List Char)
  | inside (quoted : List Char)
  /-- Behind a backslash inside of quotes. -/
  | escaped (quoted : List Char)

/-- The pieces of one character. -/
def mark? : Char → Option Lexeme
  | '{' => some (.opening .record)
  | '}' => some (.closing .record)
  | '[' => some (.opening .sequence)
  | ']' => some (.closing .sequence)
  | ',' => some .comma
  | ':' => some .colon
  | _ => none

/-- The word that ends where the reading stands, if there is one. -/
def ofWord : List Char → List Lexeme
  | [] => []
  | cs => [.word cs]

/-- **The pieces of a text**, if its quotes are closed and its backslashes escape something. -/
def read : Place → List Char → Option (List Lexeme)
  | .outside w, [] => some (ofWord w)
  | .inside _, [] => none
  | .escaped _, [] => none
  | .outside w, c :: cs =>
    if c = '"' then (read (.inside []) cs).map (ofWord w ++ ·)
    else if c = ' ' then (read (.outside []) cs).map (ofWord w ++ ·)
    else
      match mark? c with
      | some l => (read (.outside []) cs).map (ofWord w ++ l :: ·)
      | none => read (.outside (w ++ [c])) cs
  | .inside s, c :: cs =>
    if c = '"' then (read (.outside []) cs).map (.quoted s :: ·)
    else if c = '\\' then read (.escaped s) cs
    else read (.inside (s ++ [c])) cs
  | .escaped s, c :: cs =>
    if c = '"' ∨ c = '\\' then read (.inside (s ++ [c])) cs else none

/-- A text that does not go on with a word that comes before it. -/
def Stops (cs : List Char) : Prop := ∀ c ∈ cs.head?, c = '"' ∨ c = ' ' ∨ (mark? c).isSome = true

variable {cs rest s : List Char} {c : Char} {l : Lexeme} {ls us : List Lexeme}

theorem stops_mark (h : mark? c = some l) (cs : List Char) : Stops (c :: cs) := by
  intro x hx
  obtain rfl := Option.some.inj hx
  exact .inr (.inr (by rw [h]; rfl))

theorem read_space (cs : List Char) : read (.outside []) (' ' :: cs) = read (.outside []) cs := by
  rw [read, if_neg (by decide), if_pos rfl]
  simp [ofWord]

theorem read_mark (h : mark? c = some l) :
    read (.outside []) (c :: cs) = (read (.outside []) cs).map (l :: ·) := by
  have hquote : c ≠ '"' := by rintro rfl; contradiction
  have hspace : c ≠ ' ' := by rintro rfl; contradiction
  rw [read, if_neg hquote, if_neg hspace, h]
  rfl

theorem read_quote (cs : List Char) :
    read (.outside []) ('"' :: cs) = read (.inside []) cs := by
  rw [read, if_pos rfl]
  simp [ofWord]

/-- A word ends where something else begins. -/
theorem read_of_stops (h : Stops rest) (w : List Char) :
    read (.outside w) rest = (read (.outside []) rest).map (ofWord w ++ ·) := by
  cases rest with
  | nil => simp [read, ofWord]
  | cons c rest =>
    rcases h c rfl with rfl | rfl | hmark
    · simp [read, ofWord]
    · simp [read, ofWord]
    · obtain ⟨l, hl⟩ := Option.isSome_iff_exists.mp hmark
      have hquote : c ≠ '"' := by rintro rfl; contradiction
      have hspace : c ≠ ' ' := by rintro rfl; contradiction
      rw [read_mark hl, read, if_neg hquote, if_neg hspace, hl]
      simp [Function.comp_def]

theorem read_word (hs : Text.IsWord s) (h : Stops rest) :
    read (.outside []) (s ++ rest) = (read (.outside []) rest).map (.word s :: ·) := by
  have hgrows : ∀ (s w : List Char), (∀ c ∈ s, Text.isWordChar c = true) →
      read (.outside w) (s ++ rest) = read (.outside (w ++ s)) rest := by
    intro s
    induction s with
    | nil => simp
    | cons c s ih =>
      intro w hw
      obtain ⟨hc, hs⟩ := List.forall_mem_cons.mp hw
      have hmark : mark? c = none := by
        unfold mark?
        split <;> first | rfl | exact absurd hc (by decide)
      rw [List.cons_append, read, if_neg (Text.ne_of_class hc (by decide)),
        if_neg (Text.ne_of_class hc (by decide)), hmark]
      simpa using ih (w ++ [c]) hs
  have hword : ofWord s = [.word s] := by
    unfold ofWord
    split
    · exact absurd rfl hs.ne_nil
    · rfl
  rw [hgrows s [] hs.isWordChar, List.nil_append, read_of_stops h, hword]
  rfl

/-! ## Quoted text -/

/-- An escaped text is read back whole, and the reading goes on behind its quote. -/
theorem read_escaped (s had rest : List Char) :
    read (.inside had) (s.flatMap Text.escape ++ '"' :: rest)
      = (read (.outside []) rest).map (.quoted (had ++ s) :: ·) := by
  induction s generalizing had with
  | nil => simp [read]
  | cons c s ih =>
    rw [List.flatMap_cons, List.append_assoc]
    by_cases hc : c = '"' ∨ c = '\\'
    · rw [Text.escape, if_pos hc, List.cons_append, List.singleton_append, read,
        if_neg (by decide), if_pos rfl, read, if_pos hc, ih]
      simp
    · obtain ⟨hquote, hslash⟩ := not_or.mp hc
      rw [Text.escape, if_neg hc, List.singleton_append, read, if_neg hquote, if_neg hslash, ih]
      simp

/-- **What is read between quotes was escaped there.** -/
theorem exists_escaped_of_read {cs had : List Char} {ls : List Lexeme}
    (h : read (.inside had) cs = some ls) :
    ∃ s rest us, cs = s.flatMap Text.escape ++ '"' :: rest ∧ ls = .quoted (had ++ s) :: us ∧
      read (.outside []) rest = some us := by
  cases cs with
  | nil => simp [read] at h
  | cons c cs =>
    by_cases hquote : c = '"'
    · rw [read, if_pos hquote] at h
      obtain ⟨us, hus, rfl⟩ := Option.map_eq_some_iff.mp h
      exact ⟨[], cs, us, by simp [hquote], by simp, hus⟩
    by_cases hslash : c = '\\'
    · rw [read, if_neg hquote, if_pos hslash] at h
      cases cs with
      | nil => simp [read] at h
      | cons x cs =>
        rw [read] at h
        split at h
        · rename_i hx
          obtain ⟨s, rest, us, rfl, rfl, hus⟩ := exists_escaped_of_read h
          exact ⟨x :: s, rest, us, by simp [Text.escape, hx, hslash], by simp, hus⟩
        · contradiction
    · rw [read, if_neg hquote, if_neg hslash] at h
      obtain ⟨s, rest, us, rfl, rfl, hus⟩ := exists_escaped_of_read h
      exact ⟨c :: s, rest, us, by simp [Text.escape, hquote, hslash], by simp, hus⟩
termination_by cs.length

theorem read_quoted (s : String) (rest : List Char) :
    read (.outside []) ((Text.quoted s).toList ++ rest)
      = (read (.outside []) rest).map (.quoted s.toList :: ·) := by
  simpa [Text.quoted, read_quote] using read_escaped s.toList [] rest

/-- **A text that is put between quotes as it is** is read back exactly if it is plain. -/
theorem read_raw_iff (s rest : List Char) (us : List Lexeme) :
    read (.outside []) ('"' :: (s ++ '"' :: rest)) = some (.quoted s :: us) ↔
      Text.IsPlain s ∧ read (.outside []) rest = some us := by
  rw [read_quote]
  constructor
  · intro h
    obtain ⟨s', rest', us', hs, hls, hus⟩ := exists_escaped_of_read h
    obtain ⟨hquoted, rfl⟩ := List.cons.inj hls
    obtain rfl : s = s' := by simpa using hquoted
    have hplain := (Text.isPlain_of_append_eq (n := 0) (by decide) hs).2
    rw [hplain.flatMap_escape] at hs
    obtain rfl : rest = rest' := by simpa using hs
    exact ⟨hplain, hus⟩
  · rintro ⟨hplain, hus⟩
    have hread := read_escaped s [] rest
    rw [hplain.flatMap_escape, hus] at hread
    exact hread

end Lexeme

/-! ## The pieces of an expanded value -/

/-- What a marker has between its quotes. -/
def Marker.label : Marker → String
  | .badArgument => "<BadFormat>"
  | .foreign => "<Value>"
  | .tooDeep .record => "<Object>"
  | .tooDeep .sequence => "<Array>"
  | .cycle => "<Cycle>"
  | .lengthReached => "<LengthBoundHit>"

/-- The piece of a scalar inside a node. -/
def Scalar.lexeme : Scalar → Lexeme
  | .null => .word "null".toList
  | .bool b => .word (if b then "true" else "false").toList
  | .number n => .word n.text.toList
  | .text s => .quoted s.toList
  | .time t => .quoted t.text.toList
  | .callable name => .quoted ("[Function " ++ name ++ "]").toList

namespace Slot

def lexemes : Slot → List Lexeme
  | .opening shape => [.opening shape]
  | .closing shape => [.closing shape]
  | .name s => [.quoted s.toList, .colon]
  | .scalar s => [s.lexeme]
  | .marker m => [.quoted m.label.toList]
  | .format _ | .level _ | .finish => []

/-- Whether a value is complete with a slot. -/
def endsValue : Slot → Bool
  | .closing _ | .scalar _ | .marker _ => true
  | _ => false

end Slot

/-- The pieces between a value that ended, if one did, and the next slot. -/
def commaIf (ended : Bool) : List Lexeme := if ended then [.comma] else []

/-- **The pieces of some slots.** After a value there is a comma, unless a bracket closes. -/
def lexemes (ended : Bool) : List Slot → List Lexeme
  | [] => []
  | s :: ss => commaIf (ended && !s.isClosing) ++ s.lexemes ++ lexemes s.endsValue ss

/-! ## The pieces tell the slots -/

/-- Whether a value that starts with a piece goes on behind it. -/
def Lexeme.isOpening : Lexeme → Bool
  | .opening _ => true
  | _ => false

/-- A slot of a value is a name, or it has one piece, which tells whether the value is complete. -/
theorem Slot.lexemes_cases {s : Slot} (hs : s.lexemes ≠ []) :
    (∃ name, s = .name name) ∨
      ∃ l, s.lexemes = [l] ∧ l ≠ .comma ∧ s.endsValue = !l.isOpening := by
  cases s with
  | format f | level l | finish => exact absurd rfl hs
  | name s => exact .inl ⟨s, rfl⟩
  | scalar s => exact .inr ⟨s.lexeme, rfl, by cases s <;> simp [Scalar.lexeme],
      by cases s <;> rfl⟩
  | opening shape | closing shape | marker m => exact .inr ⟨_, rfl, by simp, rfl⟩

/-- A colon stands only behind the name of a field. -/
theorem lexemes_ne_colon (ss : List Slot) (us : List Lexeme) : lexemes true ss ≠ .colon :: us := by
  cases ss with
  | nil => simp [lexemes]
  | cons s ss => cases s <;> simp [lexemes, Slot.lexemes, Slot.isClosing, commaIf]

/-- The name of a field is not taken for a value. -/
theorem name_lexemes_ne {name : String} {l : Lexeme} (ss : List Slot) (us : List Lexeme) :
    (Slot.name name).lexemes ++ us ≠ l :: lexemes (!l.isOpening) ss := by
  intro h
  obtain ⟨rfl, htail⟩ := List.cons.inj h
  exact lexemes_ne_colon ss us htail.symm

/-- Commas are not taken for what comes behind them. -/
theorem commaIf_append_inj {s t : Slot} (hs : s.lexemes ≠ []) (ht : t.lexemes ≠ []) {a b : Bool}
    {us vs : List Lexeme} (h : commaIf a ++ (s.lexemes ++ us) = commaIf b ++ (t.lexemes ++ vs)) :
    s.lexemes ++ us = t.lexemes ++ vs := by
  have hhead : ∀ {s : Slot}, s.lexemes ≠ [] → ∀ us vs, s.lexemes ++ us ≠ .comma :: vs := by
    intro s hs us vs hcomma
    rcases s.lexemes_cases hs with ⟨name, rfl⟩ | ⟨l, hl, hne, -⟩
    · simp [Slot.lexemes] at hcomma
    · rw [hl] at hcomma
      exact hne (List.cons.inj hcomma).1
  cases a <;> cases b
  · exact h
  · exact absurd h (hhead hs _ _)
  · exact absurd h.symm (hhead ht _ _)
  · exact (List.cons.inj h).2

/-- **Slots with the same pieces have the same pieces one by one.** -/
theorem map_lexemes_eq {ss ts : List Slot} (hss : ∀ s ∈ ss, s.lexemes ≠ [])
    (hts : ∀ t ∈ ts, t.lexemes ≠ []) {ended : Bool} (h : lexemes ended ss = lexemes ended ts) :
    ss.map Slot.lexemes = ts.map Slot.lexemes := by
  induction ss generalizing ts ended with
  | nil =>
    cases ts with
    | nil => rfl
    | cons t ts =>
      obtain ⟨ht, -⟩ := List.forall_mem_cons.mp hts
      simp [lexemes, ht] at h
  | cons s ss ih =>
    obtain ⟨hs, hss'⟩ := List.forall_mem_cons.mp hss
    cases ts with
    | nil => simp [lexemes, hs] at h
    | cons t ts =>
      obtain ⟨ht, hts'⟩ := List.forall_mem_cons.mp hts
      rw [lexemes, lexemes, List.append_assoc, List.append_assoc] at h
      have hpieces := commaIf_append_inj hs ht h
      -- the first piece tells a name from a value, and a value whether it is complete
      rcases s.lexemes_cases hs with ⟨name, rfl⟩ | ⟨l, hl, -, hends⟩ <;>
        rcases t.lexemes_cases ht with ⟨name', rfl⟩ | ⟨l', hl', -, hends'⟩
      · obtain ⟨hname, htail⟩ := List.append_inj hpieces rfl
        rw [List.map_cons, List.map_cons, hname, ih hss' hts' htail]
      · rw [hl', hends'] at hpieces
        exact absurd hpieces (name_lexemes_ne ts _)
      · rw [hl, hends] at hpieces
        exact absurd hpieces.symm (name_lexemes_ne ss _)
      · rw [hl, hl', hends, hends'] at hpieces
        obtain ⟨rfl, htail⟩ := List.cons.inj hpieces
        rw [List.map_cons, List.map_cons, hl, hl', ih hss' hts' htail]

/-- Every slot of a value has pieces. -/
theorem Group.lexemes_ne_nil {ss : List Slot} (h : Group ss) : ∀ s ∈ ss, s.lexemes ≠ [] := by
  have hcut : ∀ cut, ∀ s ∈ cutMark cut, s.lexemes ≠ [] := fun cut s hs => by
    rw [eq_of_mem_cutMark hs]
    simp [Slot.lexemes]
  induction h with
  | scalar s => simp [Slot.lexemes]
  | foreign | cycle | tooDeep shape => simp [Slot.lexemes]
  | record fields cut h ih =>
    simp only [List.forall_mem_append, List.forall_mem_cons]
    refine ⟨⟨⟨by simp [Slot.lexemes], fun s hs => ?_⟩, hcut cut⟩, by simp [Slot.lexemes]⟩
    obtain ⟨f, hf, hs⟩ := List.mem_flatMap.mp hs
    rcases List.mem_cons.mp hs with rfl | hs
    · simp [Slot.lexemes]
    · exact ih f hf s hs
  | sequence items cut h ih =>
    simp only [List.forall_mem_append, List.forall_mem_cons]
    refine ⟨⟨⟨by simp [Slot.lexemes], fun s hs => ?_⟩, hcut cut⟩, by simp [Slot.lexemes]⟩
    obtain ⟨i, hi, hs⟩ := List.mem_flatten.mp hs
    exact ih i hi s hs

/-! ## Plain names -/

/-- The names of callables among some slots have no quotes and no backslashes. -/
def PlainNames (ss : List Slot) : Prop :=
  ∀ name, .scalar (.callable name) ∈ ss → Text.IsPlain name.toList

theorem plainNames_append {ss ts : List Slot} :
    PlainNames (ss ++ ts) ↔ PlainNames ss ∧ PlainNames ts := by
  simp only [PlainNames, List.mem_append, or_imp, forall_and]

theorem plainNames_cons {s : Slot} (hs : ∀ name, s ≠ .scalar (.callable name)) {ss : List Slot} :
    PlainNames (s :: ss) ↔ PlainNames ss := by
  have hne : ∀ name, Slot.scalar (.callable name) ≠ s := fun name h => hs name h.symm
  simp only [PlainNames, List.mem_cons, hne, false_or]

theorem plainNames_nil : PlainNames [] := by simp [PlainNames]

/-! ## Each value is read back as one -/

open Lexeme

/-- **Slots of one value, and a text.** The slots have the same pieces whatever comes before and
after them, and these are read back from the text exactly if the names in it are plain. -/
structure ReadsBack (ss : List Slot) (t : String) (ls : List Lexeme) : Prop where
  lexemes_eq : ∀ (ended : Bool) (more : List Slot),
    lexemes ended (ss ++ more) = commaIf ended ++ ls ++ lexemes true more
  read_iff : ∀ (rest : List Char) (us : List Lexeme), Stops rest →
    (read (.outside []) (t.toList ++ rest) = some (ls ++ us) ↔
      PlainNames ss ∧ read (.outside []) rest = some us)

theorem map_cons_eq_some_iff {l : Lexeme} {o : Option (List Lexeme)} {us : List Lexeme} :
    o.map (l :: ·) = some (l :: us) ↔ o = some us := by
  simp

/-- A value of one slot with one piece. -/
theorem readsBack_single {s : Slot} {l : Lexeme} {t : String} (hs : s.lexemes = [l])
    (hends : s.endsValue = true) (hclosing : s.isClosing = false)
    (hread : ∀ rest us, Stops rest →
      (read (.outside []) (t.toList ++ rest) = some (l :: us) ↔
        PlainNames [s] ∧ read (.outside []) rest = some us)) :
    ReadsBack [s] t [l] where
  lexemes_eq ended more := by simp [lexemes, hs, hends, hclosing]
  read_iff rest us h := hread rest us h

theorem plainNames_singleton {s : Slot} (hs : ∀ name, s ≠ .scalar (.callable name)) :
    PlainNames [s] := (plainNames_cons hs).mpr plainNames_nil

/-- A text between quotes, as it is. -/
theorem read_between_iff {s : String} {rest : List Char} {us : List Lexeme} :
    read (.outside []) (("\"" ++ s ++ "\"").toList ++ rest) = some (.quoted s.toList :: us) ↔
      Text.IsPlain s.toList ∧ read (.outside []) rest = some us := by
  simpa using read_raw_iff s.toList rest us

theorem readsBack_marker (m : Marker) : ReadsBack [.marker m] m.text [.quoted m.label.toList] := by
  have htext : m.text = "\"" ++ m.label ++ "\"" := by
    cases m with
    | tooDeep shape => cases shape <;> rfl
    | badArgument | lengthReached | cycle | foreign => rfl
  have hplain : Text.IsPlain m.label.toList := by
    cases m with
    | tooDeep shape => cases shape <;> decide
    | badArgument | lengthReached | cycle | foreign => decide
  refine readsBack_single rfl rfl rfl fun rest us _ => ?_
  rw [htext, read_between_iff]
  exact and_congr_left' (iff_of_true hplain (plainNames_singleton (by simp)))

theorem readsBack_scalar (s : Scalar) : ReadsBack [.scalar s] s.inside [s.lexeme] := by
  have hword : ∀ w : String, Text.IsWord w.toList → ∀ rest us, Stops rest →
      (read (.outside []) (w.toList ++ rest) = some (.word w.toList :: us) ↔
        read (.outside []) rest = some us) := by
    intro w hw rest us hrest
    rw [read_word hw hrest, map_cons_eq_some_iff]
  refine readsBack_single rfl rfl rfl fun rest us hrest => ?_
  have hnames : (∀ name, s ≠ .callable name) → PlainNames [.scalar s] :=
    fun hs => plainNames_singleton fun name h => hs name (Slot.scalar.inj h)
  cases s with
  | null =>
    rw [and_iff_right (hnames (by simp))]
    exact hword "null" (Text.isWord_of_all (by decide) (by decide)) rest us hrest
  | bool b =>
    rw [and_iff_right (hnames (by simp))]
    have hb : Text.IsWord (if b then "true" else "false").toList := by
      cases b <;> exact Text.isWord_of_all (by decide) (by decide)
    exact hword _ hb rest us hrest
  | number n =>
    rw [and_iff_right (hnames (by simp))]
    exact hword n.text n.isWord_text rest us hrest
  | text s =>
    rw [and_iff_right (hnames (by simp))]
    show read (.outside []) ((Text.quoted s).toList ++ rest) = some (.quoted s.toList :: us) ↔ _
    rw [read_quoted, map_cons_eq_some_iff]
  | time t =>
    rw [and_iff_right (hnames (by simp))]
    exact read_between_iff.trans (and_iff_right t.isPlain_text)
  | callable name =>
    have hplain : Text.IsPlain ("[Function " ++ name ++ "]").toList ↔
        PlainNames [.scalar (.callable name)] := by
      have hbefore : Text.IsPlain "[Function ".toList := by decide
      have hbehind : Text.IsPlain "]".toList := by decide
      rw [String.toList_append, String.toList_append, Text.isPlain_append, Text.isPlain_append,
        and_iff_right hbefore, and_iff_left hbehind]
      refine ⟨fun h other hother => ?_, fun h => h name List.mem_cons_self⟩
      obtain rfl : other = name := by simpa using hother
      exact h
    have htext : (Scalar.callable name).inside = "\"" ++ ("[Function " ++ name ++ "]") ++ "\"" :=
      String.toList_inj.mp (by simp [Scalar.inside])
    rw [htext, ← hplain]
    exact read_between_iff

/-- A field is read back as its name, a colon and its value. -/
theorem ReadsBack.child {c : Child} {ss : List Slot} {t : String} {ls : List Lexeme}
    (h : ReadsBack ss t ls) : ∃ ls, ReadsBack (c.label ++ ss) (c.print t) ls := by
  cases hname : c.name with
  | none =>
    refine ⟨ls, ?_⟩
    rw [Child.label, Child.print, hname]
    exact h
  | some name =>
    refine ⟨.quoted name.toList :: .colon :: ls, ?_, ?_⟩
    · intro ended more
      have hvalue : lexemes false (ss ++ more) = ls ++ lexemes true more := by
        simpa [commaIf] using h.lexemes_eq false more
      simp [Child.label, hname, lexemes, Slot.lexemes, Slot.endsValue, Slot.isClosing, hvalue]
    · intro rest us hrest
      have htext : (c.print t).toList ++ rest
          = (Text.quoted name).toList ++ ':' :: ' ' :: (t.toList ++ rest) := by
        simp [Child.print, hname]
      -- the blank behind the colon is skipped
      have hcolon : mark? ':' = some .colon := rfl
      rw [htext, read_quoted, List.cons_append, map_cons_eq_some_iff, read_mark hcolon,
        List.cons_append, map_cons_eq_some_iff, read_space, h.read_iff rest us hrest, Child.label,
        hname, List.singleton_append, plainNames_cons (by simp)]

/-- **Items with separators are read back one by one**, with commas between them. -/
theorem readsBack_items {items : List (List Slot × String)}
    (h : ∀ i ∈ items, ∃ ls, ReadsBack i.1 i.2 ls) (ended : Bool) :
    ∃ ls,
      (∀ more, lexemes ended (items.flatMap Prod.fst ++ more)
        = ls ++ lexemes (ended || !items.isEmpty) more) ∧
      ∀ rest us, Stops rest →
        (read (.outside []) ((Frame.separated ended (items.map Prod.snd)).toList ++ rest)
            = some (ls ++ us) ↔
          PlainNames (items.flatMap Prod.fst) ∧ read (.outside []) rest = some us) := by
  induction items generalizing ended with
  | nil =>
    refine ⟨[], by simp, fun rest us _ => ?_⟩
    rw [List.flatMap_nil, and_iff_right plainNames_nil]
    rfl
  | cons i items ih =>
    obtain ⟨hfirst, hothers⟩ := List.forall_mem_cons.mp h
    obtain ⟨ls, hls⟩ := hfirst
    obtain ⟨ls', hlexemes, hread⟩ := ih hothers true
    refine ⟨commaIf ended ++ ls ++ ls', ?_, ?_⟩
    · intro more
      rw [List.flatMap_cons, List.append_assoc, hls.lexemes_eq, hlexemes]
      simp
    · intro rest us hrest
      have hcomma : mark? ',' = some .comma := rfl
      -- what comes after the first item is a comma, or what comes after all of them
      have hstops : Stops ((Frame.separated true (items.map Prod.snd)).toList ++ rest) := by
        cases items with
        | nil => exact hrest
        | cons j items =>
          rw [List.map_cons, Frame.separated, String.toList_append, String.toList_append,
            List.append_assoc, List.append_assoc]
          exact stops_mark hcomma _
      -- before the first item there is nothing, before any other one a comma and a blank
      have hfrom : ∀ cs vs, read (.outside []) ((Frame.separator ended).toList ++ cs)
          = some (commaIf ended ++ vs) ↔ read (.outside []) cs = some vs := by
        intro cs vs
        cases ended with
        | false => exact Iff.rfl
        | true =>
          show read (.outside []) (',' :: ' ' :: cs) = some (.comma :: vs) ↔ _
          rw [read_mark hcomma, map_cons_eq_some_iff, read_space]
      rw [List.map_cons, Frame.separated, String.toList_append, String.toList_append,
        List.append_assoc, List.append_assoc, List.append_assoc, List.append_assoc, hfrom,
        hls.read_iff _ _ hstops, hread rest us hrest, List.flatMap_cons, plainNames_append,
        and_assoc]

/-- **A node is read back as its brackets and its items.** -/
theorem readsBack_node {items : List (List Slot × String)}
    (h : ∀ i ∈ items, ∃ ls, ReadsBack i.1 i.2 ls) (shape : Shape) :
    ∃ ls, ReadsBack (.opening shape :: (items.flatMap Prod.fst ++ [.closing shape]))
      (shape.enclose (", ".intercalate (items.map Prod.snd))) ls := by
  obtain ⟨ls, hlexemes, hread⟩ := readsBack_items h false
  refine ⟨.opening shape :: (ls ++ [.closing shape]), ?_, ?_⟩
  · intro ended more
    rw [List.cons_append, List.append_assoc, lexemes]
    simp [Slot.endsValue, hlexemes, lexemes, Slot.lexemes, Slot.isClosing, commaIf]
  · intro rest us _
    obtain ⟨opening, closing, hopening, hclosing, htext⟩ : ∃ opening closing,
        mark? opening = some (.opening shape) ∧ mark? closing = some (.closing shape) ∧
        ∀ inner : String,
          (shape.enclose inner).toList = opening :: (inner.toList ++ [closing]) := by
      cases shape with
      | record => exact ⟨'{', '}', rfl, rfl, by simp [Shape.enclose]⟩
      | sequence => exact ⟨'[', ']', rfl, rfl, by simp [Shape.enclose]⟩
    rw [htext, ← Frame.separated_false, List.cons_append, List.cons_append, List.append_assoc,
      List.append_assoc, List.singleton_append, List.singleton_append, read_mark hopening,
      map_cons_eq_some_iff, hread _ _ (stops_mark hclosing _), read_mark hclosing,
      map_cons_eq_some_iff, plainNames_cons (by simp), plainNames_append,
      and_iff_left (plainNames_singleton (by simp))]

/-- A value that the walk does not enter is read back as one piece. -/
theorem readsBack_leaf (h : Heap) (bounds : Bounds) (depth : Nat) {path : List Ref} {v : Value}
    (hv : ∀ r, v = .node r → r ∈ path) :
    ∃ ls, ReadsBack (h.slots bounds depth path v) (h.print bounds depth path true v) ls := by
  rw [Heap.slots.eq_def, Heap.print.eq_def]
  cases v with
  | scalar s => exact ⟨_, readsBack_scalar s⟩
  | foreign => exact ⟨_, readsBack_marker .foreign⟩
  | node r =>
    dsimp only
    rw [if_pos (hv r rfl), if_pos (hv r rfl)]
    exact ⟨_, readsBack_marker .cycle⟩

/-- **What is appended for a value is read back from what is printed for it.** -/
theorem readsBack_slots (h : Heap) (bounds : Bounds) (depth : Nat) (path : List Ref) (v : Value) :
    ∃ ls, ReadsBack (h.slots bounds depth path v) (h.print bounds depth path true v) ls := by
  induction depth generalizing path v with
  | zero =>
    by_cases hv : ∀ r, v = .node r → r ∈ path
    · exact readsBack_leaf h bounds 0 hv
    · obtain ⟨r, rfl, hr⟩ : ∃ r, v = .node r ∧ r ∉ path := by simpa using hv
      have hfolded : r.shape.folded = (Marker.tooDeep r.shape).text := by cases r.shape <;> rfl
      rw [Heap.slots, Heap.print, if_neg hr, if_neg hr, hfolded]
      exact ⟨_, readsBack_marker (.tooDeep r.shape)⟩
  | succ depth ih =>
    by_cases hv : ∀ r, v = .node r → r ∈ path
    · exact readsBack_leaf h bounds (depth + 1) hv
    · obtain ⟨r, rfl, hr⟩ : ∃ r, v = .node r ∧ r ∉ path := by simpa using hv
      rw [Frame.slots_of_items hr, Frame.print_of_items hr]
      refine readsBack_node (fun i hi => ?_) r.shape
      rcases List.mem_append.mp hi with hi | hi
      · obtain ⟨c, -, rfl⟩ := List.mem_map.mp hi
        obtain ⟨ls, hls⟩ := ih (r :: path) c.value
        exact hls.child
      · split at hi
        · rw [List.mem_singleton.mp hi]
          exact ⟨_, readsBack_marker .lengthReached⟩
        · simp at hi

/-! ## What a message shows -/

/-- At the level of a message a node is shown as it is inside of another one. -/
theorem Heap.print_node (h : Heap) (bounds : Bounds) (depth : Nat) (path : List Ref)
    (nested : Bool) (r : Ref) :
    h.print bounds depth path nested (.node r) = h.print bounds depth path true (.node r) := by
  rw [Heap.print.eq_def, Heap.print.eq_def]

namespace Message

/-- A directive that shows a record or sequence among the arguments, within bounds. -/
inductive Shows (m : Message) : Directive → Ref → Bounds → Prop where
  | general {i : Nat} {r : Ref} (h : m.args.values[i]? = some (.node r)) :
    Shows m (.general i) r Bounds.standard
  | compound {i : Nat} {r : Ref} {bounds : Bounds} (h : m.args.values[i]? = some (.node r)) :
    Shows m (.compound r.shape i bounds) r bounds

/-- **A record or sequence is read back as what is shown of it, if the names of its callables are
plain, and otherwise it is not.** Take a message and a directive that shows a node of its
arguments, of any graph and within any bounds.

* What is recorded is the expansion of the node within the bounds, and it is written as one value
  with the text that the directive prints.
* Reading this text gives the pieces of the expansion exactly if no callable that is shown has a
  quote or a backslash in its name. Texts and names of fields may hold anything. -/
theorem shown_reads_back (m : Message) (clock : Clock) {d : Directive} {r : Ref}
    {bounds : Bounds} (hd : m.Shows d r bounds) :
    let shown := m.args.heap.slots bounds bounds.depth [] (.node r)
    let text := (m.directive clock d).1
    (d.slots clock m.origin m.format m.args).1 = shown ∧
    (∀ style frames, Frame.isNested frames = false →
      Frame.steps style frames shown = Frame.value (fun _ => text) frames) ∧
    (Lexeme.read (.outside []) text.toList = some (lexemes false shown) ↔
      ∀ name, .scalar (.callable name) ∈ shown → Text.IsPlain name.toList) := by
  intro shown text
  have hslots : (d.slots clock m.origin m.format m.args).1 = shown := by
    cases hd with
    | general h => simp only [Directive.slots, h, shown]
    | compound h => simp only [Directive.slots, h, if_pos, shown]
  have htext : text = m.args.heap.print bounds bounds.depth [] true (.node r) := by
    rw [← Heap.print_node _ _ _ _ false]
    cases hd with
    | general h => simp only [text, directive, h, argument]
    | compound h => simp only [text, directive, h, if_pos, argument]
  have hliteral : d.isLiteral = false := by cases hd <;> rfl
  refine ⟨hslots, fun style frames hframes => ?_, ?_⟩
  · rw [← hslots]
    exact Frame.steps_directive style m clock hliteral hframes
  · obtain ⟨ls, hls⟩ := readsBack_slots m.args.heap bounds bounds.depth [] (.node r)
    have hlexemes : lexemes false shown = ls := by
      simpa [commaIf, lexemes] using hls.lexemes_eq false []
    have hread := hls.read_iff [] [] (by simp [Stops])
    rw [← htext, List.append_nil, List.append_nil] at hread
    have hend : Lexeme.read (.outside []) [] = some [] := rfl
    rw [hlexemes, hread, and_iff_left hend]
    exact Iff.rfl

/-- A message with one argument, which it shows. -/
def showing (h : Heap) (v : Value) : Message :=
  { clock := .stepping default 0
    origin := ⟨.new "app" "::1", "app"⟩
    level := .info
    format := ⟨"shown", "$\x7b0:g\x7d".toList, [⟨.general 0, ⟨0, 6⟩⟩], rfl⟩
    args := ⟨h, [v]⟩ }

/-- Quotes, brackets and a backslash in the name and in the text of a field. -/
theorem shown_reads_back_with_quotes :
    let r : Ref := ⟨.record, 0⟩
    let h : Heap := ⟨#[⟨[("a\": [", .scalar (.text "\\\"\x7d, "))]⟩], #[]⟩
    let m := showing h (.node r)
    m.Shows (.general 0) r Bounds.standard ∧
      Lexeme.read (.outside []) (m.directive m.clock (.general 0)).1.toList
        = some [.opening .record, .quoted "a\": [".toList, .colon, .quoted "\\\"\x7d, ".toList,
            .closing .record] := by
  intro r h m
  have hshows : m.Shows (.general 0) r Bounds.standard := .general rfl
  obtain ⟨-, -, hread⟩ := m.shown_reads_back m.clock hshows
  have hshown : m.args.heap.slots Bounds.standard Bounds.standard.depth [] (.node r)
      = [.opening .record, .name "a\": [", .scalar (.text "\\\"\x7d, "), .closing .record] := by
    simp [Heap.slots, Bounds.standard, m, showing, h, r, Heap.shown, Heap.children, Heap.fields,
      Child.label, Heap.isCut, Bounds.length]
  rw [hshown] at hread
  exact ⟨hshows, hread.mpr (by simp)⟩

/-- **The name of a callable can make a field of its own.** A record of one field, in which a
callable stands, is shown as another record is that has two. -/
theorem callable_forges_field :
    let r : Ref := ⟨.record, 0⟩
    let forging : Heap := ⟨#[⟨[("x", .scalar (.callable "f]\", \"admin\": \"yes"))]⟩], #[]⟩
    let honest : Heap :=
      ⟨#[⟨[("x", .scalar (.callable "f")), ("admin", .scalar (.text "yes]"))]⟩], #[]⟩
    let m := showing forging (.node r)
    m.Shows (.general 0) r Bounds.standard ∧
      Lexeme.read (.outside []) (m.directive m.clock (.general 0)).1.toList
        = some (lexemes false (honest.slots Bounds.standard 2 [] (.node r))) ∧
      lexemes false (honest.slots Bounds.standard 2 [] (.node r))
        ≠ lexemes false (forging.slots Bounds.standard 2 [] (.node r)) := by
  intro r forging honest m
  refine ⟨.general rfl, ?_, ?_⟩
  · decide +kernel
  · decide +kernel

end Message

end Logbook
