import AssemblyPolicy.Glob.Set
import AssemblyPolicy.Proofs.Result
import Mathlib.Tactic.SplitIfs
import Mathlib.Tactic.Tauto

/-!
# Valid patterns

A pattern is valid if it can be read alone. Patterns that are used together can be read exactly when
each of them is valid (`Glob.exists_parseAll_iff`), and each gives what it gives alone.
-/

namespace AssemblyPolicy.Glob

variable {pattern : String} {patterns : List String} {g : Glob} {gs : List Glob}

/-- The pattern can be read. -/
def Valid (pattern : String) : Prop := ∃ gs, parseAll [pattern] = .ok gs

/-- The glob nests too deep for the way in which it is matched. -/
def NestsTooDeep (g : Glob) : Prop :=
  (strategy g.tokens = .extension ∨ strategy g.tokens = .search) ∧ isTooDeep g.tokens = true

/-- What a pattern gives that is valid. -/
def Reads (pattern : String) (g : Glob) : Prop := parse pattern = .ok g ∧ ¬ g.NestsTooDeep

lemma parse_pattern (h : parse pattern = .ok g) : g.pattern = pattern := by
  unfold parse at h
  split at h
  · cases h
    rfl
  · cases h

lemma parseEach_eq_ok_iff :
    parseEach patterns = .ok gs ↔ List.Forall₂ (fun p g => parse p = .ok g) patterns gs := by
  induction patterns generalizing gs with
  | nil => simp [parseEach, eq_comm]
  | cons p patterns ih =>
    simp only [parseEach, bind_eq_ok_iff, ih, List.forall₂_cons_left_iff, Except.ok.injEq]
    constructor
    · rintro ⟨g, hg, gs', hgs, rfl⟩
      exact ⟨g, gs', hg, hgs, rfl⟩
    · rintro ⟨g, gs', hg, hgs, rfl⟩
      exact ⟨g, hg, gs', hgs, rfl⟩

lemma nestingError?_eq_none_iff : nestingError? gs = none ↔ ∀ g ∈ gs, ¬ g.NestsTooDeep := by
  unfold nestingError?
  cases hext : (matchedBy .extension gs).find? fun g => isTooDeep g.tokens with
  | some g =>
    have hmem := List.mem_of_find?_eq_some hext
    have hdeep := List.find?_some hext
    simp only [matchedBy, List.mem_filter, decide_eq_true_eq] at hmem
    simp only [reduceCtorEq, false_iff]
    exact fun h => h g hmem.1 ⟨.inl hmem.2, hdeep⟩
  | none =>
    rw [List.find?_eq_none] at hext
    simp only [Option.map_eq_none_iff, List.findIdx?_eq_none_iff, matchedBy, List.mem_filter,
      decide_eq_true_eq, NestsTooDeep] at hext ⊢
    constructor
    · rintro hsearch g hg ⟨h | h, hdeep⟩
      · exact hext g ⟨hg, h⟩ hdeep
      · simp [hsearch g ⟨hg, h⟩] at hdeep
    · intro h g hg
      exact Bool.eq_false_iff.mpr fun hdeep => h g hg.1 ⟨.inr hg.2, hdeep⟩

lemma forall₂_reads_iff : List.Forall₂ Reads patterns gs ↔
    parseEach patterns = .ok gs ∧ ∀ g ∈ gs, ¬ g.NestsTooDeep := by
  rw [parseEach_eq_ok_iff]
  induction patterns generalizing gs with
  | nil =>
    simp only [List.forall₂_nil_left_iff]
    constructor
    · rintro rfl
      simp
    · exact And.left
  | cons p patterns ih =>
    simp only [List.forall₂_cons_left_iff, ih, Reads]
    constructor
    · rintro ⟨g, gs', ⟨hp, hg⟩, ⟨hps, hgs⟩, rfl⟩
      exact ⟨⟨g, gs', hp, hps, rfl⟩, List.forall_mem_cons.mpr ⟨hg, hgs⟩⟩
    · rintro ⟨⟨g, gs', hp, hps, rfl⟩, h⟩
      obtain ⟨hg, hgs⟩ := List.forall_mem_cons.mp h
      exact ⟨g, gs', ⟨hp, hg⟩, ⟨hps, hgs⟩, rfl⟩

/-- A list is read pattern by pattern. -/
lemma parseAll_eq_ok_iff : parseAll patterns = .ok gs ↔ List.Forall₂ Reads patterns gs := by
  rw [forall₂_reads_iff, ← nestingError?_eq_none_iff]
  simp only [parseAll, bind_eq_ok_iff]
  constructor
  · rintro ⟨gs', hgs, h⟩
    split at h
    · cases h
    · cases h
      exact ⟨hgs, ‹_›⟩
  · rintro ⟨hgs, h⟩
    exact ⟨gs, hgs, by rw [h]⟩

lemma exists_parseAll_iff : (∃ gs, parseAll patterns = .ok gs) ↔ ∀ p ∈ patterns, Valid p := by
  simp only [Valid, parseAll_eq_ok_iff, exists_forall₂_iff, List.forall_mem_singleton]

/-- The globs that are read are those of the patterns, in order. -/
lemma map_pattern_of_parseAll (h : parseAll patterns = .ok gs) :
    gs.map Glob.pattern = patterns := by
  rw [parseAll_eq_ok_iff] at h
  induction h with
  | nil => rfl
  | cons hg _ ih => rw [List.map_cons, ih, parse_pattern hg.1]

end AssemblyPolicy.Glob
