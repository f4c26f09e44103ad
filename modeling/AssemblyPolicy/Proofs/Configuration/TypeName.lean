import AssemblyPolicy.Configuration.Resolution
import AssemblyPolicy.Proofs.Metadata.Name
import Mathlib.Data.List.DropRight
import Mathlib.Tactic.SplitIfs

/-!
# Names of types in configurations

A type is named by a text with blanks around it or none. `TypeName.parse` reads the texts that are not
blank and do not end in a dot (`TypeName.parse_eq_ok_iff`).
-/

namespace AssemblyPolicy

variable {s : String} {cs : List Char} {c : Char}

/-! ### Trimming -/

/-- Trimming takes blanks off both ends, and nothing else. -/
lemma exists_trimBlanks (cs : List Char) : ∃ before after : List Char,
    cs = before ++ trimBlanks cs ++ after ∧ ∀ c ∈ before ++ after, isBlank c = true := by
  refine ⟨cs.takeWhile isBlank, (cs.dropWhile isBlank).rtakeWhile isBlank, ?_, ?_⟩
  · have htrim : trimBlanks cs = (cs.dropWhile isBlank).rdropWhile isBlank := rfl
    rw [htrim, List.append_assoc, List.rdropWhile_append_rtakeWhile,
      List.takeWhile_append_dropWhile]
  · intro c hc
    rcases List.mem_append.mp hc with h | h
    · exact List.mem_takeWhile_imp h
    · exact List.mem_rtakeWhile_imp h

/-- What is no blank stays. -/
lemma mem_trim_iff (hc : isBlank c = false) : c ∈ (trim s).toList ↔ c ∈ s.toList := by
  obtain ⟨before, after, hcut, hblank⟩ := exists_trimBlanks s.toList
  have hnot : c ∉ before ++ after := fun h => by simp [hblank c h] at hc
  rw [trim, String.toList_ofList]
  conv_rhs => rw [hcut]
  simp only [List.mem_append] at hnot ⊢
  tauto

/-- Nothing is left of a text exactly when it is blank. -/
lemma trim_eq_empty_iff : trim s = "" ↔ allBlank s = true := by
  rw [trim, String.ofList_eq_empty_iff, allBlank, List.all_eq_true]
  constructor
  · intro h
    obtain ⟨before, after, hcut, hblank⟩ := exists_trimBlanks s.toList
    rw [h, List.append_nil] at hcut
    exact hcut ▸ hblank
  · intro h
    have hnil : s.toList.dropWhile isBlank = [] := List.dropWhile_eq_nil_iff.mpr h
    simp [trimBlanks, hnil]

lemma dot_mem_trim_iff : '.' ∈ (trim s).toList ↔ '.' ∈ s.toList := mem_trim_iff (by decide)

namespace TypeName

/-! ### Reading -/

/-- The text names a type: it is not blank, and its last dot is followed by more than blanks. -/
def IsName (s : String) : Prop := allBlank s = false ∧ (trim s).toList.getLast? ≠ some '.'

lemma parse_eq_ok_iff {n : TypeName} :
    TypeName.parse s = .ok n ↔ IsName s ∧ n = ofDotted (trim s) := by
  simp only [TypeName.parse, String.isEmpty_iff, trim_eq_empty_iff]
  split_ifs with hblank hname
  · simp [IsName, hblank]
  · have hne : trim s ≠ "" := mt trim_eq_empty_iff.mp hblank
    have hlast := (name_ofDotted_eq_empty_iff.mp hname).resolve_left hne
    simp [IsName, hlast]
  · rw [name_ofDotted_eq_empty_iff, not_or] at hname
    simp [IsName, hblank, hname.2, eq_comm]

end TypeName

end AssemblyPolicy
