import AssemblyPolicy.Proofs.Text.Split
import Mathlib

/-!
# Lines of texts

What begins a line of a text is found by looking for a line break and what follows it
(`exists_mem_tail_splitAll_iff`). In a text with inserts such a mark is in one of the inserts, if what
stands around them has no part in it (`infix_weave_iff`).
-/

namespace AssemblyPolicy

variable {sep c : Char} {cs ds mark first : List Char} {rest : List (List Char)} {s t l : String}

/-! ### Parts that begin with a mark -/

lemma splitAll_cons_self (sep : Char) (cs : List Char) :
    splitAll sep (sep :: cs) = [] :: splitAll sep cs := by
  rw [splitAll, if_pos rfl]

lemma splitAll_cons_of_ne (hc : c ≠ sep) (h : splitAll sep cs = first :: rest) :
    splitAll sep (c :: cs) = (c :: first) :: rest := by
  rw [splitAll, if_neg hc, h]

lemma exists_splitAll (sep : Char) (cs : List Char) :
    ∃ first rest, splitAll sep cs = first :: rest :=
  List.exists_cons_of_ne_nil (splitAll_ne_nil sep cs)

lemma notMem_of_mem_splitAll {part : List Char} (h : part ∈ splitAll sep cs) : sep ∉ part := by
  induction cs generalizing part with
  | nil => simp_all [splitAll]
  | cons c cs ih =>
    obtain ⟨first, rest, hsplit⟩ := exists_splitAll sep cs
    by_cases hc : c = sep
    · subst hc
      rw [splitAll_cons_self, List.mem_cons] at h
      rcases h with rfl | h
      · exact List.not_mem_nil
      · exact ih h
    · rw [splitAll_cons_of_ne hc hsplit, List.mem_cons] at h
      rw [hsplit] at ih
      rcases h with rfl | h
      · rw [List.mem_cons, not_or]
        exact ⟨Ne.symm hc, ih List.mem_cons_self⟩
      · exact ih (List.mem_cons_of_mem first h)

/-- A text begins with a mark if its first part does. -/
lemma prefix_first_iff (hmark : sep ∉ mark) (h : splitAll sep cs = first :: rest) :
    mark <+: first ↔ mark <+: cs := by
  induction mark generalizing cs first rest with
  | nil => simp
  | cons m mark ih =>
    rw [List.mem_cons, not_or] at hmark
    cases cs with
    | nil => simp_all [splitAll]
    | cons c cs =>
      obtain ⟨first', rest', hsplit⟩ := exists_splitAll sep cs
      by_cases hc : c = sep
      · subst hc
        rw [splitAll_cons_self, List.cons.injEq] at h
        obtain ⟨rfl, -⟩ := h
        simp [Ne.symm hmark.1]
      · rw [splitAll_cons_of_ne hc hsplit, List.cons.injEq] at h
        obtain ⟨rfl, -⟩ := h
        rw [List.cons_prefix_cons, List.cons_prefix_cons, ih hmark.2 hsplit]

/-- A later part begins with a mark if the mark stands after a separator. -/
lemma exists_mem_tail_splitAll_iff (hmark : sep ∉ mark) :
    (∃ part ∈ (splitAll sep cs).tail, mark <+: part) ↔ sep :: mark <:+: cs := by
  induction cs with
  | nil => simp [splitAll]
  | cons c cs ih =>
    obtain ⟨first, rest, hsplit⟩ := exists_splitAll sep cs
    rw [hsplit, List.tail_cons] at ih
    rw [List.infix_cons_iff, List.cons_prefix_cons, ← ih]
    by_cases hc : c = sep
    · subst hc
      rw [splitAll_cons_self, List.tail_cons, hsplit, ← prefix_first_iff hmark hsplit]
      simp
    · rw [splitAll_cons_of_ne hc hsplit, List.tail_cons]
      simp [Ne.symm hc]

/-! ### Marks in texts with inserts -/

/-- A text that has no part in a mark: the mark is not in it, does not begin at its end, and neither
ends at its start nor runs through it. -/
structure Apart (mark cs : List Char) : Prop where
  inside : ¬ mark <:+: cs
  atEnd : ∀ i < mark.length, 0 < i → ¬ mark.take i <:+ cs
  atStart : ∀ i < mark.length, 0 < i → ¬ mark.drop i <+: cs ∧ ¬ cs <+: mark.drop i

instance : Decidable (Apart mark cs) :=
  decidable_of_iff (¬ mark <:+: cs ∧ (∀ i < mark.length, 0 < i → ¬ mark.take i <:+ cs) ∧
      ∀ i < mark.length, 0 < i → ¬ mark.drop i <+: cs ∧ ¬ cs <+: mark.drop i)
    ⟨fun ⟨h₁, h₂, h₃⟩ => ⟨h₁, h₂, h₃⟩, fun h => ⟨h.inside, h.atEnd, h.atStart⟩⟩

/-- A mark in a text of two parts is in one of them or on both sides of the border. -/
lemma infix_append_cases (h : mark <:+: cs ++ ds) : mark <:+: cs ∨ mark <:+: ds ∨
    ∃ i < mark.length, 0 < i ∧ mark.take i <:+ cs ∧ mark.drop i <+: ds := by
  rcases List.infix_append_iff.mp h with h | h | ⟨before, after, rfl, hsuffix, hprefix⟩
  · exact .inl h
  · exact .inr (.inl h)
  · by_cases hbefore : before = []
    · subst hbefore
      exact .inr (.inl hprefix.isInfix)
    · by_cases hafter : after = []
      · subst hafter
        rw [List.append_nil]
        exact .inl hsuffix.isInfix
      · refine .inr (.inr ⟨before.length, ?_, List.length_pos_iff.mpr hbefore, ?_, ?_⟩)
        · rw [List.length_append]
          exact Nat.lt_add_of_pos_right (List.length_pos_iff.mpr hafter)
        · rwa [List.take_left]
        · rwa [List.drop_left]

/-- Before any text, what a mark does not begin in makes no difference. -/
lemma infix_append_left_iff (hinside : ¬ mark <:+: cs)
    (hend : ∀ i < mark.length, 0 < i → ¬ mark.take i <:+ cs) :
    mark <:+: cs ++ ds ↔ mark <:+: ds := by
  constructor
  · intro h
    rcases infix_append_cases h with h | h | ⟨i, hi, hpos, hsuffix, -⟩
    · exact absurd h hinside
    · exact h
    · exact absurd hsuffix (hend i hi hpos)
  · exact fun h => h.trans (List.suffix_append cs ds).isInfix

lemma infix_append_right_iff (hstart : ∀ i < mark.length, 0 < i → ¬ mark.drop i <+: ds) :
    mark <:+: cs ++ ds ↔ mark <:+: cs ∨ mark <:+: ds := by
  constructor
  · intro h
    rcases infix_append_cases h with h | h | ⟨i, hi, hpos, -, hprefix⟩
    · exact .inl h
    · exact .inr h
    · exact absurd hprefix (hstart i hi hpos)
  · rintro (h | h)
    · exact h.trans (List.prefix_append cs ds).isInfix
    · exact h.trans (List.suffix_append cs ds).isInfix

/-- Texts that are inserted, each after what stands before it. -/
def weave (inserts : List (String × String)) : String :=
  String.join (inserts.map fun p => p.1 ++ p.2)

lemma weave_cons (p : String × String) (inserts : List (String × String)) :
    (weave (p :: inserts)).toList = p.1.toList ++ (p.2.toList ++ (weave inserts).toList) := by
  simp [weave]

lemma not_drop_prefix_weave {inserts : List (String × String)}
    (h : ∀ p ∈ inserts, Apart mark p.1.toList) :
    ∀ i < mark.length, 0 < i → ¬ mark.drop i <+: (weave inserts).toList := by
  intro i hi hpos hprefix
  cases inserts with
  | nil =>
    have hdrop : mark.drop i = [] := List.prefix_nil.mp hprefix
    exact absurd (List.drop_eq_nil_iff.mp hdrop) (Nat.not_le.mpr hi)
  | cons p inserts =>
    obtain ⟨hstart, hthrough⟩ := (h p List.mem_cons_self).atStart i hi hpos
    rw [weave_cons] at hprefix
    rcases List.prefix_or_prefix_of_prefix hprefix (List.prefix_append _ _) with h | h
    · exact hstart h
    · exact hthrough h

/-- A mark is in one of the inserts, if the rest has no part in it. -/
lemma infix_weave_iff {inserts : List (String × String)} (hne : mark ≠ [])
    (h : ∀ p ∈ inserts, Apart mark p.1.toList) :
    mark <:+: (weave inserts).toList ↔ ∃ p ∈ inserts, mark <:+: p.2.toList := by
  induction inserts with
  | nil => simp [weave, hne]
  | cons p inserts ih =>
    obtain ⟨hp, hinserts⟩ := List.forall_mem_cons.mp h
    rw [weave_cons, infix_append_left_iff hp.inside hp.atEnd,
      infix_append_right_iff (not_drop_prefix_weave hinserts), ih hinserts]
    simp

/-! ### Lines -/

/-- The lines of a text. There is one more than there are line breaks. -/
def linesOf (s : String) : List String := (splitAll '\n' s.toList).map String.ofList

lemma linesOf_append (s t : String) : linesOf (s ++ "\n" ++ t) = linesOf s ++ linesOf t := by
  simp [linesOf, splitAll_append]

lemma linesOf_of_notMem (h : '\n' ∉ s.toList) : linesOf s = [s] := by
  rw [linesOf, splitAll_of_notMem h, List.map_singleton, String.ofList_toList]

lemma notMem_of_mem_linesOf (h : l ∈ linesOf s) : '\n' ∉ l.toList := by
  obtain ⟨part, hpart, rfl⟩ := List.mem_map.mp h
  rw [String.toList_ofList]
  exact notMem_of_mem_splitAll hpart

lemma linesOf_intercalate {lines : List String} (h : ∀ l ∈ lines, '\n' ∉ l.toList)
    (hne : lines ≠ []) : linesOf ("\n".intercalate lines) = lines := by
  have hsplit : splitAll '\n' ("\n".intercalate lines).toList = lines.map String.toList := by
    rw [String.toList_intercalate]
    exact splitAll_intercalate (by simpa using h) (by simpa using hne)
  rw [linesOf, hsplit, List.map_map]
  simp

lemma beginsWith_iff : beginsWith s t = true ↔ s.toList <+: t.toList := List.isPrefixOf_iff_prefix

/-- Of the lines of a text that begins with a mark, only the first does if the mark stands after no line
break. -/
lemma countP_linesOf {m : String} (hmark : '\n' ∉ m.toList) (hs : beginsWith m s = true) :
    1 ≤ (linesOf s).countP (beginsWith m) ∧
      ((linesOf s).countP (beginsWith m) = 1 ↔ ¬ '\n' :: m.toList <:+: s.toList) := by
  obtain ⟨first, rest, hsplit⟩ := exists_splitAll '\n' s.toList
  have hfirst : beginsWith m (.ofList first) = true := by
    rw [beginsWith_iff, String.toList_ofList, prefix_first_iff hmark hsplit]
    exact beginsWith_iff.mp hs
  rw [linesOf, hsplit, List.map_cons, List.countP_cons_of_pos hfirst,
    ← exists_mem_tail_splitAll_iff hmark, hsplit]
  refine ⟨Nat.le_add_left _ _, ?_⟩
  simp [List.countP_eq_zero, beginsWith_iff]

end AssemblyPolicy
