/-
What a map holds, told by what was put into it.

A map is filled one pair after another. A name stands where it was first put, and its value is
the one that was put last. Both are said here of the pairs alone (`InFirstOrder`, `IsLast`), and
the inductions are on the pairs from the right, since it is the pair that is put last that
changes the map.
-/
import Logbook.Named
import Mathlib.Data.Finset.Card
import Mathlib.Data.List.Induction

set_option autoImplicit false

namespace Logbook

/-! ## What was put first and last -/

/-- **The names of a list, each once, in the order in which they first stand there.** -/
structure InFirstOrder (names said : List String) : Prop where
  distinct : names.Nodup
  mem_iff : ∀ name, name ∈ names ↔ name ∈ said
  ordered : names.Pairwise fun a b => said.idxOf a < said.idxOf b

/-- **The value that was put last under a name.** -/
def IsLast {α : Type} (puts : List (String × α)) (name : String) (value : α) : Prop :=
  ∃ before after, puts = before ++ (name, value) :: after ∧ name ∉ after.map Prod.fst

theorem InFirstOrder.nil : InFirstOrder [] [] := ⟨.nil, by simp, .nil⟩

theorem InFirstOrder.length {names said : List String} (h : InFirstOrder names said) :
    names.length = said.toFinset.card := by
  have hsame : names.toFinset = said.toFinset := by
    ext name
    simp [h.mem_iff name]
  rw [← hsame, List.toFinset_card_of_nodup h.distinct]

/-- One name more: it goes to the end, if it was not said before. -/
theorem InFirstOrder.append_singleton {names said : List String} (h : InFirstOrder names said)
    (name : String) :
    InFirstOrder (if name ∈ names then names else names ++ [name]) (said ++ [name]) := by
  -- names that were said before keep their places
  have hkept : names.Pairwise fun a b => (said ++ [name]).idxOf a < (said ++ [name]).idxOf b := by
    refine h.ordered.imp_of_mem fun {a b} ha hb hab => ?_
    rwa [List.idxOf_append_of_mem ((h.mem_iff a).mp ha),
      List.idxOf_append_of_mem ((h.mem_iff b).mp hb)]
  by_cases hname : name ∈ names
  · rw [if_pos hname]
    refine ⟨h.distinct, fun other => ?_, hkept⟩
    rw [h.mem_iff, List.mem_append, List.mem_singleton]
    refine ⟨.inl, fun hother => hother.elim id ?_⟩
    rintro rfl
    exact (h.mem_iff other).mp hname
  · have hnew : name ∉ said := fun hsaid => hname ((h.mem_iff name).mpr hsaid)
    rw [if_neg hname]
    refine ⟨?_, fun other => ?_, ?_⟩
    · rw [← List.concat_eq_append]
      exact h.distinct.concat hname
    · rw [List.mem_append, List.mem_append, h.mem_iff]
    · refine List.pairwise_append.mpr ⟨hkept, List.pairwise_singleton _ _, fun a ha b hb => ?_⟩
      obtain rfl := List.mem_singleton.mp hb
      have hsaid := (h.mem_iff a).mp ha
      have hplace := List.idxOf_lt_length_iff.mpr hsaid
      rw [List.idxOf_append_of_mem hsaid, List.idxOf_append_of_notMem hnew]
      omega

variable {α : Type}

theorem not_isLast_nil (name : String) (value : α) : ¬ IsLast [] name value := by
  rintro ⟨before, after, heq, -⟩
  simp at heq

/-- One pair more: it is the last under its own name. -/
theorem isLast_append_singleton (puts : List (String × α)) (name name' : String)
    (value value' : α) :
    IsLast (puts ++ [(name, value)]) name' value' ↔
      if name' = name then value = value' else IsLast puts name' value' := by
  constructor
  · rintro ⟨before, after, heq, hafter⟩
    -- the pair at the end is the one for the name, or one behind it with another name
    rcases after.eq_nil_or_concat' with rfl | ⟨after, e, rfl⟩
    · obtain ⟨-, hpair⟩ := List.append_inj' heq rfl
      obtain ⟨rfl, rfl⟩ : name = name' ∧ value = value' := by simpa using hpair
      rw [if_pos rfl]
    · rw [← List.cons_append, ← List.append_assoc] at heq
      obtain ⟨hputs, hpair⟩ := List.append_inj' heq rfl
      obtain rfl := List.singleton_inj.mp hpair
      simp only [List.map_append, List.mem_append, List.map_cons, List.map_nil,
        List.mem_singleton, not_or] at hafter
      rw [if_neg hafter.2]
      exact ⟨before, after, hputs, hafter.1⟩
  · intro h
    split at h
    · rename_i hname
      rw [hname, ← h]
      exact ⟨puts, [], rfl, by simp⟩
    · rename_i hname
      obtain ⟨before, after, rfl, hafter⟩ := h
      exact ⟨before, after ++ [(name, value)], by simp, by simp [hafter, hname]⟩

/-! ## Maps -/

namespace Named

theorem map_fst_insertInto (name : String) (value : α) (entries : List (String × α)) :
    (insertInto name value entries).map Prod.fst
      = if name ∈ entries.map Prod.fst then entries.map Prod.fst
        else entries.map Prod.fst ++ [name] := by
  induction entries with
  | nil => simp [insertInto]
  | cons e rest ih =>
    obtain ⟨n, v⟩ := e
    rw [insertInto]
    by_cases hn : n = name
    · simp [hn]
    · have hn' : name ≠ n := fun heq => hn heq.symm
      rw [if_neg hn, List.map_cons, ih]
      by_cases hname : name ∈ rest.map Prod.fst
      · rw [if_pos hname, List.map_cons, if_pos (List.mem_cons_of_mem _ hname)]
      · rw [if_neg hname, List.map_cons, if_neg (by simpa [hn'] using hname), List.cons_append]

/-- A name that is there keeps its place, and a new one goes to the end. -/
theorem names_insert (m : Named α) (name : String) (value : α) :
    (m.insert name value).names = if name ∈ m.names then m.names else m.names ++ [name] :=
  map_fst_insertInto name value m.entries

/-- Under a name stands what is put there, and under the others what stood there before. -/
theorem get?_insert (m : Named α) (name name' : String) (value : α) :
    (m.insert name value).get? name' = if name' = name then some value else m.get? name' := by
  obtain ⟨entries⟩ := m
  simp only [insert, get?]
  induction entries with
  | nil =>
    by_cases h : name' = name
    · simp [insertInto, h]
    · have h' : ¬ name = name' := fun heq => h heq.symm
      simp [insertInto, h, h']
  | cons e rest ih =>
    obtain ⟨n, v⟩ := e
    rw [insertInto]
    -- the name is either here, where the value is replaced, or further on
    by_cases hn : n = name
    · rw [if_pos hn, hn]
      by_cases h : name' = name
      · simp [h]
      · have h' : ¬ name = name' := fun heq => h heq.symm
        simp [h, h']
    · rw [if_neg hn]
      by_cases h : n = name'
      · have h' : ¬ name' = name := fun heq => hn (h.trans heq)
        simp [h, h']
      · simpa [List.find?_cons, h] using ih

/-- Where no name stands twice, a pair is what is found under its name. -/
theorem get?_of_mem {m : Named α} (h : m.names.Nodup) {e : String × α} (he : e ∈ m.entries) :
    m.get? e.1 = some e.2 := by
  obtain ⟨entries⟩ := m
  simp only [names, get?] at *
  induction entries with
  | nil => simp at he
  | cons first rest ih =>
    rw [List.map_cons, List.nodup_cons] at h
    rcases List.mem_cons.mp he with rfl | hrest
    · simp
    · have hne : first.1 ≠ e.1 := fun heq => h.1 (heq ▸ List.mem_map_of_mem hrest)
      simpa [List.find?_cons, hne] using ih h.2 hrest

theorem get?_eq_none_iff (m : Named α) (name : String) :
    m.get? name = none ↔ name ∉ m.names := by
  rw [get?, Option.map_eq_none_iff, List.find?_eq_none, names, List.mem_map]
  simp only [decide_eq_true_eq, not_exists, not_and]

theorem ofList_append_singleton (puts : List (String × α)) (name : String) (value : α) :
    ofList (puts ++ [(name, value)]) = (ofList puts).insert name value := by
  rw [ofList, List.foldl_append]
  rfl

/-- **The names of a map stand in the order in which they were first put.** -/
theorem inFirstOrder_ofList (puts : List (String × α)) :
    InFirstOrder (ofList puts).names (puts.map Prod.fst) := by
  induction puts using List.reverseRecOn with
  | nil => exact .nil
  | append_singleton puts e ih =>
    obtain ⟨name, value⟩ := e
    rw [ofList_append_singleton, names_insert, List.map_append]
    exact ih.append_singleton name

/-- **Under a name stands the value that was put there last.** -/
theorem get?_ofList (puts : List (String × α)) (name : String) (value : α) :
    (ofList puts).get? name = some value ↔ IsLast puts name value := by
  induction puts using List.reverseRecOn with
  | nil => exact iff_of_false (by simp [ofList, empty, get?]) (not_isLast_nil name value)
  | append_singleton puts e ih =>
    rw [ofList_append_singleton, get?_insert, isLast_append_singleton]
    split
    · exact Option.some_inj
    · exact ih

end Named

end Logbook
