/-
Templates side by side.

A template that compiles is read to its last character, and what is read never looks
beyond the token it is in. So another template can be put behind it: the two compile
together as they do apart, but for the offsets of the second, which count the bytes of the
first as well. This is `scan_append` with nothing left over from the first template, and
one induction on the scan, which shows that an offset is only carried along.
-/
import Logbook.Proofs.Format.Compile

set_option autoImplicit false

namespace Logbook

/-! ## Moving -/

/-- A span in a text that has `n` more bytes before it. -/
def Span.moved (n : Nat) (s : Span) : Span := ⟨s.start + n, s.stop + n⟩

def Entry.moved (n : Nat) (e : Entry) : Entry := { e with span := e.span.moved n }

/-- A refusal of a template that has `n` more bytes before it. Kind and reason stay. -/
def CompileError.moved (n : Nat) : CompileError → CompileError
  | .lineBreak name => .lineBreak name
  | .unknownExpando name offset => .unknownExpando name (offset + n)
  | .badFormatter name offset fault => .badFormatter name (offset + n) fault
  | .badLayout name fault => .badLayout name fault

namespace Template

/-- **An offset is carried along by a scan**: it goes into the spans and into the place of a
fault, and nothing else depends on it. -/
theorem scan_moved (n skip offset : Nat) (cs : List Char) :
    scan skip (offset + n) cs
      = match scan skip offset cs with
        | .ok es => .ok (es.map (Entry.moved n))
        | .error (at', fault) => .error (at' + n, fault) := by
  fun_induction scan skip offset cs with
  | case1 skip offset => rfl
  | case2 skip offset c cs ih => rw [scan, Nat.add_right_comm, ih]
  | case3 offset c cs hread ih => rw [scan, hread, Nat.add_right_comm, ih]
  | case4 offset c cs fault hread => rw [scan, hread]
  | case5 offset c cs d width hread ih =>
    rw [scan, hread, Nat.add_right_comm]
    dsimp only
    rw [ih]
    cases scan width (offset + c.utf8Size) cs with
    | ok es => simp [Except.map, Entry.moved, Span.moved, Nat.add_right_comm]
    | error p => rfl

/-- **Behind a template that scans** the scan starts anew, at the offset of its end. -/
theorem scan_append_of_ok {a : List Char} {es : List Entry} (ha : scan 0 0 a = .ok es)
    (b : List Char) :
    scan 0 0 (a ++ b)
      = match scan 0 0 b with
        | .ok es' => .ok (es ++ es'.map (Entry.moved (Text.byteLength a)))
        | .error (offset, fault) => .error (offset + Text.byteLength a, fault) := by
  obtain ⟨ps, ⟨rfl, hvalid⟩, rfl⟩ := scan_eq_ok_iff.mp ha
  rw [scan_append hvalid, scan_moved]
  cases scan 0 0 b with
  | ok es' => rfl
  | error p => rfl

end Template

namespace Format

/-! ## The parts of a format -/

theorem max?_append (xs ys : List Nat) : (xs ++ ys).max? = max xs.max? ys.max? := by
  induction xs with
  | nil =>
    rw [List.nil_append]
    cases ys.max? <;> rfl
  | cons x xs ih =>
    rw [List.cons_append, List.max?_cons, List.max?_cons, ih]
    cases xs.max? <;> cases ys.max? <;> simp [Nat.max_assoc]

variable {f g j : Format} {n : Nat}

/-- The position of an argument does not depend on where its directive stands. -/
theorem maxArgument_of_append (h : j.entries = f.entries ++ g.entries.map (Entry.moved n)) :
    j.maxArgument = max f.maxArgument g.maxArgument := by
  have hmoved : (g.entries.map (Entry.moved n)).filterMap (·.directive.argument?)
      = g.entries.filterMap (·.directive.argument?) := by
    rw [List.filterMap_map]
    rfl
  rw [maxArgument, h, List.filterMap_append, hmoved, max?_append]
  rfl

theorem isSingleSlot_of_append (h : j.entries = f.entries ++ g.entries.map (Entry.moved n)) :
    j.isSingleSlot = (f.isSingleSlot && g.isSingleSlot) := by
  rw [isSingleSlot, h, List.all_append, List.all_map]
  rfl

/-! ## Compiling -/

theorem oneLine_append {a b : List Char} : OneLine (a ++ b) ↔ OneLine a ∧ OneLine b := by
  simp only [OneLine, List.mem_append, not_or]
  exact and_and_and_comm

/-- **What compiles goes on compiling** behind a template that does. -/
theorem compile_append_of_ok {name : String} {a b : List Char} (hf : compile name a = .ok f)
    (hg : compile name b = .ok g) :
    ∃ j, compile name (a ++ b) = .ok j ∧ j.template = a ++ b ∧
      j.entries = f.entries ++ g.entries.map (Entry.moved (Text.byteLength a)) := by
  obtain ⟨hlinea, -, -, ha⟩ := compile_eq_ok_iff.mp hf
  obtain ⟨hlineb, -, -, hb⟩ := compile_eq_ok_iff.mp hg
  have hscan := Template.scan_append_of_ok ha b
  rw [hb] at hscan
  exact ⟨_, compile_of_scan name (oneLine_append.mpr ⟨hlinea, hlineb⟩) hscan, rfl, rfl⟩

/-- **What is refused is refused for the same fault** behind a template that compiles. -/
theorem compile_append_of_error {name : String} {a b : List Char} {e : CompileError}
    (hf : compile name a = .ok f) (he : compile name b = .error e) :
    compile name (a ++ b) = .error (e.moved (Text.byteLength a)) := by
  obtain ⟨hlinea, -, -, ha⟩ := compile_eq_ok_iff.mp hf
  rcases compile_eq_error_iff.mp he with ⟨hbreak, rfl⟩ | ⟨hlineb, offset, fault, hb, rfl⟩
  · exact compile_of_break name fun hline => hbreak (oneLine_append.mp hline).2
  · have hscan := Template.scan_append_of_ok ha b
    rw [hb] at hscan
    rw [compile_of_fault name (oneLine_append.mpr ⟨hlinea, hlineb⟩) hscan]
    cases fault with
    | expando => rfl
    | formatter fault => rfl

/-- **Compiling is compositional.** Put a text behind a template that compiles.

* The two compile together exactly if the text compiles.
* Then the directives are those of the template and after them those of the text, with every
  span moved by the bytes of the template. The largest argument is the larger of the two, none
  being less than any, and every directive takes at most one slot if that holds of both.
* Otherwise the two are refused as the text is, with the same kind of fault and the same
  reason. The offset of the fault, if it has one, is moved by the bytes of the template. -/
theorem compile_beside {name : String} {a b : List Char} (hf : compile name a = .ok f) :
    ((∃ j, compile name (a ++ b) = .ok j) ↔ ∃ g, compile name b = .ok g) ∧
    (∀ g, compile name b = .ok g →
      ∃ j, compile name (a ++ b) = .ok j ∧ j.name = name ∧ j.template = a ++ b ∧
        j.entries = f.entries ++ g.entries.map (Entry.moved (Text.byteLength a)) ∧
        j.maxArgument = max f.maxArgument g.maxArgument ∧
        j.isSingleSlot = (f.isSingleSlot && g.isSingleSlot)) ∧
    (∀ e, compile name b = .error e →
      compile name (a ++ b) = .error (e.moved (Text.byteLength a))) := by
  refine ⟨⟨?_, ?_⟩, ?_, fun e => compile_append_of_error hf⟩
  · rintro ⟨j, hj⟩
    cases hb : compile name b with
    | ok g => exact ⟨g, rfl⟩
    | error e =>
      rw [compile_append_of_error hf hb] at hj
      contradiction
  · rintro ⟨g, hg⟩
    obtain ⟨j, hj, -⟩ := compile_append_of_ok hf hg
    exact ⟨j, hj⟩
  · intro g hg
    obtain ⟨j, hj, htemplate, hentries⟩ := compile_append_of_ok hf hg
    obtain ⟨-, hname, -, -⟩ := compile_eq_ok_iff.mp hj
    exact ⟨j, hj, hname, htemplate, hentries, maxArgument_of_append hentries,
      isSingleSlot_of_append hentries⟩

/-- A template that ends with the name of an expando. Behind it an escaped character and an
argument after a wide character, or a formatter that is not closed. -/
theorem compile_beside_request_id :
    let a := "é #request_id".toList
    let f : Format := ⟨"order", a, [⟨.expando .requestId, ⟨3, 14⟩⟩], rfl⟩
    compile "order" a = .ok f ∧
      (∃ j, compile "order" (a ++ "##→$\x7b3:s\x7d".toList) = .ok j ∧
        j.entries = f.entries ++ [⟨.literal .hash, ⟨14, 16⟩⟩, ⟨.scalar .text 3, ⟨19, 25⟩⟩] ∧
        j.maxArgument = some 3 ∧ j.isSingleSlot = true) ∧
      compile "order" (a ++ "_id $\x7b0:o<1,".toList)
        = .error (.badFormatter "order" 18 .boundsNotEnded) := by
  intro a f
  have hf : compile "order" a = .ok f := rfl
  have hg : compile "order" "##→$\x7b3:s\x7d".toList = .ok
      ⟨"order", _, [⟨.literal .hash, ⟨0, 2⟩⟩, ⟨.scalar .text 3, ⟨5, 11⟩⟩], rfl⟩ := rfl
  have he : compile "order" "_id $\x7b0:o<1,".toList
      = .error (.badFormatter "order" 4 .boundsNotEnded) := rfl
  obtain ⟨-, hok, -⟩ := compile_beside hf
  obtain ⟨-, -, herror⟩ := compile_beside hf
  have hbytes : Text.byteLength a = 14 := rfl
  rw [hbytes] at hok herror
  obtain ⟨j, hj, -, -, hentries, hmax, hsingle⟩ := hok _ hg
  exact ⟨hf, ⟨j, hj, hentries, hmax, hsingle⟩, herror _ he⟩

end Format

end Logbook
