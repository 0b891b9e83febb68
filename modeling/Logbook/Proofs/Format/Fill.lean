/-
What stands between the directives of a template.

A compiled format keeps its directives with their byte spans, and the text between two
of them is cut out of the template by those spans when a message is printed. This file
shows that the cuts lose nothing: filling a template in by its spans, `Format.fill`, is
filling it in while reading it once from left to right, `Template.fill`, where a
character that belongs to no directive is simply copied.

The spans count bytes and the reader skips characters, so the fact everything rests on
is that every character of a directive is one byte wide. That is read off the grammar of
the tokens.
-/
import Logbook.Proofs.Format.Grammar

set_option autoImplicit false

namespace Logbook

/-! ## Cutting a text at byte offsets -/

namespace Text

@[simp] theorem byteLength_nil : byteLength [] = 0 := rfl

@[simp] theorem byteLength_cons (c : Char) (cs : List Char) :
    byteLength (c :: cs) = c.utf8Size + byteLength cs := rfl

@[simp] theorem byteLength_append (a b : List Char) :
    byteLength (a ++ b) = byteLength a + byteLength b := by
  induction a with
  | nil => simp
  | cons c a ih => rw [List.cons_append, byteLength_cons, ih, byteLength_cons, Nat.add_assoc]

theorem byteLength_eq_length {cs : List Char} (h : ∀ c ∈ cs, c.utf8Size = 1) :
    byteLength cs = cs.length := by
  induction cs with
  | nil => rfl
  | cons c cs ih =>
    rw [byteLength_cons, h c List.mem_cons_self,
      ih fun c' hc' => h c' (List.mem_cons_of_mem c hc'), List.length_cons, Nat.add_comm]

theorem dropBytes?_append (a b : List Char) : dropBytes? (byteLength a) (a ++ b) = some b := by
  induction a with
  | nil => simp [dropBytes?]
  | cons c a ih =>
    -- the count has to be seen as a successor, since no character has width zero
    obtain ⟨n, hn⟩ := Nat.exists_eq_add_of_lt c.utf8Size_pos
    rw [Nat.zero_add] at hn
    have hlen : byteLength (c :: a) = (n + byteLength a) + 1 := by rw [byteLength_cons]; omega
    rw [hlen, List.cons_append, dropBytes?, if_pos (by omega)]
    have hrest : n + byteLength a + 1 - c.utf8Size = byteLength a := by omega
    rw [hrest, ih]

theorem takeBytes?_append (a b : List Char) : takeBytes? (byteLength a) (a ++ b) = some a := by
  induction a with
  | nil => simp [takeBytes?]
  | cons c a ih =>
    obtain ⟨n, hn⟩ := Nat.exists_eq_add_of_lt c.utf8Size_pos
    rw [Nat.zero_add] at hn
    have hlen : byteLength (c :: a) = (n + byteLength a) + 1 := by rw [byteLength_cons]; omega
    rw [hlen, List.cons_append, takeBytes?, if_pos (by omega)]
    have hrest : n + byteLength a + 1 - c.utf8Size = byteLength a := by omega
    rw [hrest, ih, Option.map_some]

end Text

/-- A span that starts after `a` and stops after `a ++ m` is the place of `m`. -/
theorem Span.read?_append (a m b : List Char) :
    (Span.mk (Text.byteLength a) (Text.byteLength (a ++ m))).read? (a ++ m ++ b) = some m := by
  have hle : Text.byteLength a ≤ Text.byteLength (a ++ m) := by
    rw [Text.byteLength_append]; omega
  have hwidth : Text.byteLength (a ++ m) - Text.byteLength a = Text.byteLength m := by
    rw [Text.byteLength_append]; omega
  unfold Span.read?
  rw [if_pos hle, hwidth, List.append_assoc, Text.dropBytes?_append]
  simp [Text.takeBytes?_append]

theorem Span.read_append (a m b : List Char) :
    (Span.mk (Text.byteLength a) (Text.byteLength (a ++ m))).read (a ++ m ++ b)
      = String.ofList m := by
  rw [Span.read, Span.read?_append]
  rfl

/-! ## Directives are one byte wide at every character -/

namespace Template

/-- The text starts with `width` characters of one byte each. -/
def Narrow (width : Nat) (cs : List Char) : Prop :=
  ∃ token rest, cs = token ++ rest ∧ token.length = width ∧ ∀ c ∈ token, c.utf8Size = 1

/-- The characters that tokens are made of. -/
def isTokenChar (c : Char) : Bool :=
  c.isAlphanum || c ∈ ['#', '$', '_', '{', '}', ':', '<', '>', ',', '*']

theorem isTokenChar_of_isDigit {c : Char} (h : c.isDigit = true) : isTokenChar c = true := by
  simp [isTokenChar, Char.isAlphanum, h]

/-- They are one byte wide. -/
theorem utf8Size_of_isTokenChar {c : Char} (h : isTokenChar c = true) : c.utf8Size = 1 := by
  rw [Char.utf8Size_eq_one_iff]
  simp only [isTokenChar, Bool.or_eq_true, decide_eq_true_eq] at h
  rcases h with halphanum | hmark
  · have hrange : (decide ('A'.val ≤ c.val ∧ c.val ≤ 'Z'.val) || ('a'.val ≤ c.val && c.val ≤ 'z'.val)
        || ('0'.val ≤ c.val && c.val ≤ '9'.val)) = true := halphanum
    simp only [Bool.or_eq_true, Bool.and_eq_true, decide_eq_true_eq] at hrange
    rcases hrange with (h | h) | h
    · exact Nat.le_trans h.2 (by decide)
    · exact Nat.le_trans h.2 (by decide)
    · exact Nat.le_trans h.2 (by decide)
  · have hall : ∀ c ∈ ['#', '$', '_', '{', '}', ':', '<', '>', ',', '*'], c.val ≤ 127 := by simp
    exact hall c hmark

theorem Side.isTokenChar {side : List Char} {bound : Option Nat} (h : Side side bound) :
    ∀ c ∈ side, isTokenChar c = true := by
  cases h with
  | empty => simp
  | star => exact List.forall_mem_singleton.mpr rfl
  | digits h => exact fun c hc => isTokenChar_of_isDigit (h.isDigit c hc)

theorem Clause.isTokenChar {clause : List Char} {bounds : Bounds} (h : Clause clause bounds) :
    ∀ c ∈ clause, isTokenChar c = true := by
  cases h with
  | none => simp
  | sides hleft hright =>
    intro c hc
    simp only [List.mem_cons, List.mem_append, List.not_mem_nil, or_false] at hc
    rcases hc with rfl | hc | rfl | hc | rfl
    · rfl
    · exact hleft.isTokenChar c hc
    · rfl
    · exact hright.isTokenChar c hc
    · rfl

theorem Kind.isTokenChar {argument : Nat} {kind : List Char} {d : Directive}
    (h : Kind argument kind d) : ∀ c ∈ kind, isTokenChar c = true := by
  cases h with
  | bool => exact List.forall_mem_singleton.mpr rfl
  | number => exact List.forall_mem_singleton.mpr rfl
  | text => exact List.forall_mem_singleton.mpr rfl
  | general => exact List.forall_mem_singleton.mpr rfl
  | record h => exact List.forall_mem_cons.mpr ⟨rfl, h.isTokenChar⟩
  | sequence h => exact List.forall_mem_cons.mpr ⟨rfl, h.isTokenChar⟩

/-- **A token has no other characters**: no line break and nothing beyond ASCII. -/
theorem Token.isTokenChar {token : List Char} {d : Directive} (h : Token token d) :
    ∀ c ∈ token, isTokenChar c = true := by
  cases h with
  | hash => exact List.forall_mem_cons.mpr ⟨rfl, List.forall_mem_singleton.mpr rfl⟩
  | dollar => exact List.forall_mem_cons.mpr ⟨rfl, List.forall_mem_singleton.mpr rfl⟩
  | expando e =>
    -- the names are known, so their characters are looked at one by one
    have hall : ('#' :: e.name).all Template.isTokenChar = true := by cases e <;> rfl
    exact List.all_eq_true.mp hall
  | formatter hdigits hkind =>
    intro c hc
    simp only [List.mem_cons, List.mem_append, List.not_mem_nil, or_false] at hc
    rcases hc with rfl | rfl | hc | rfl | hc | rfl
    · rfl
    · rfl
    · exact isTokenChar_of_isDigit (hdigits.isDigit c hc)
    · rfl
    · exact hkind.isTokenChar c hc
    · rfl

theorem Token.utf8Size {token : List Char} {d : Directive} (h : Token token d) :
    ∀ c ∈ token, c.utf8Size = 1 := fun c hc => utf8Size_of_isTokenChar (h.isTokenChar c hc)

/-- **A directive is narrow**, its first character and the further ones. -/
theorem narrow_of_readToken {c : Char} {cs : List Char} {d : Directive} {width : Nat}
    (h : readToken c cs = some (.ok (d, width))) : c.utf8Size = 1 ∧ Narrow width cs := by
  obtain ⟨token, rest, rfl, htoken, rfl⟩ := readToken_eq_ok_iff.mp h
  have hall := htoken.utf8Size
  exact ⟨hall c List.mem_cons_self, token, rest, rfl, rfl,
    fun c' hc' => hall c' (List.mem_cons_of_mem c hc')⟩

/-! ## Filling a template in -/

section Fill

variable {σ : Type} (put : σ → Directive → String × σ)

/-- **A template filled in while it is read.** A directive is replaced by what `put` makes
of it, which may depend on what was put before; any other character stands for itself.
The first `skip` characters belong to a directive that was replaced already. -/
def fill : (skip : Nat) → σ → List Char → String
  | _, _, [] => ""
  | skip + 1, s, _ :: cs => fill skip s cs
  | 0, s, c :: cs =>
    match readToken c cs with
    | some (.ok (d, width)) => (put s d).1 ++ fill width (put s d).2 cs
    | _ => String.ofList [c] ++ fill 0 s cs

theorem fill_skip (skip : Nat) (s : σ) (cs : List Char) :
    fill put skip s cs = fill put 0 s (cs.drop skip) := by
  induction skip generalizing cs with
  | zero => rfl
  | succ skip ih =>
    cases cs with
    | nil => simp [fill]
    | cons c cs => rw [fill, ih, List.drop_succ_cons]

theorem scan_skip (skip offset : Nat) {cs : List Char} (h : Narrow skip cs) :
    scan skip offset cs = scan 0 (offset + skip) (cs.drop skip) := by
  obtain ⟨token, rest, rfl, rfl, hall⟩ := h
  induction token generalizing offset with
  | nil => rfl
  | cons c token ih =>
    have hc : c.utf8Size = 1 := hall c List.mem_cons_self
    have hrest : ∀ c' ∈ token, c'.utf8Size = 1 := fun c' hc' => hall c' (List.mem_cons_of_mem c hc')
    rw [List.length_cons, List.cons_append, scan, ih (offset + c.utf8Size) hrest,
      List.drop_succ_cons, hc, Nat.add_assoc, Nat.add_comm 1]

end Fill

end Template

namespace Format

variable {σ : Type} (put : σ → Directive → String × σ)

/-- Some last directives of a template and the text after each, cut out by their spans. -/
def fill (f : Format) : σ → List Entry → String
  | _, [] => ""
  | s, e :: rest =>
    (put s e.directive).1 ++ (f.trailing e rest).read f.template
      ++ f.fill (put s e.directive).2 rest

/-- What is left of a template is some text and the directives that are scanned from it.
The recursion is on what is left, from which a whole directive goes at once. -/
theorem fill_of_scan (f : Format) (before cs : List Char) (es : List Entry) (s : σ)
    (htemplate : f.template = before ++ cs)
    (hscan : Template.scan 0 (Text.byteLength before) cs = .ok es) :
    ∃ gap rest, cs = gap ++ rest ∧ f.startOf es = Text.byteLength (before ++ gap) ∧
      Template.fill put 0 s cs = String.ofList gap ++ f.fill put s es := by
  match cs with
  | [] =>
    simp only [Template.scan, Except.ok.injEq] at hscan
    subst hscan
    exact ⟨[], [], rfl, by simp [startOf, htemplate], by simp [Template.fill, fill]⟩
  | c :: cs =>
    unfold Template.scan at hscan
    unfold Template.fill
    split at hscan
    -- a character of no directive is added to the text before the first one
    · rename_i hread
      rw [hread]
      obtain ⟨gap, rest, rfl, hstart, hfill⟩ := fill_of_scan f (before ++ [c]) cs es s
        (by rw [htemplate]; simp) (by simpa using hscan)
      refine ⟨c :: gap, rest, rfl, by simpa using hstart, ?_⟩
      dsimp only
      rw [hfill, ← String.append_assoc, ← String.ofList_append]
      rfl
    · simp at hscan
    · rename_i d width hread
      rw [hread]
      obtain ⟨hc, hnarrow⟩ := Template.narrow_of_readToken hread
      rw [hc, Template.scan_skip _ _ hnarrow] at hscan
      obtain ⟨token, cs', rfl, rfl, hall⟩ := hnarrow
      have htoken := Text.byteLength_eq_length hall
      rw [List.drop_left] at hscan
      cases hmore : Template.scan 0 (Text.byteLength before + 1 + token.length) cs' with
      | error fault => simp [hmore, Except.map] at hscan
      | ok more =>
        simp only [hmore, Except.map, Except.ok.injEq] at hscan
        subst hscan
        -- the reader skips characters and the span counts bytes, which is the same in a directive
        have hbefore : Text.byteLength (before ++ c :: token)
            = Text.byteLength before + 1 + token.length := by
          simp [hc, htoken]; omega
        obtain ⟨gap, rest, rfl, hstart, hfill⟩ := fill_of_scan f (before ++ c :: token) cs' more
          (put s d).2 (by rw [htemplate]; simp) (by rw [hbefore]; exact hmore)
        refine ⟨[], c :: (token ++ (gap ++ rest)), rfl, by simp [startOf], ?_⟩
        have hcut : (f.trailing ⟨d, ⟨Text.byteLength before,
              Text.byteLength before + 1 + token.length⟩⟩ more).read f.template
            = String.ofList gap := by
          rw [trailing, hstart, ← hbefore, htemplate]
          have := Span.read_append (before ++ c :: token) gap rest
          simpa using this
        dsimp only
        rw [Template.fill_skip, List.drop_left, hfill]
        simp only [fill, hcut, String.append_assoc, String.ofList_nil, String.empty_append]
termination_by cs.length

/-- **Filling in by the spans is filling in while reading.** -/
theorem fill_template (f : Format) (s : σ) :
    Template.fill put 0 s f.template = f.lead ++ f.fill put s f.entries := by
  obtain ⟨gap, rest, htemplate, hstart, hfill⟩ :=
    f.fill_of_scan put [] f.template f.entries s rfl f.scanned
  rw [hfill, lead, hstart]
  have := Span.read_append [] gap rest
  rw [List.nil_append, ← htemplate] at this
  rw [List.nil_append, ← this]
  rfl

end Format

end Logbook
