import AssemblyPolicy.Metadata.Name
import Mathlib.Tactic.Lemma
import Mathlib.Tactic.ByContra

/-!
# Dotted names

A dotted name is cut at its last dot: before it stands the namespace, after it the simple name.
-/

namespace AssemblyPolicy

/-! ### Cutting at the last separator -/

section

variable {sep : Char} {cs before after : List Char}

lemma splitLast?_eq_none_iff : splitLast? sep cs = none ↔ sep ∉ cs := by
  induction cs with
  | nil => simp [splitLast?]
  | cons c cs ih =>
    cases h : splitLast? sep cs with
    | none => simp [splitLast?, h, ih.mp h, eq_comm]
    | some p =>
      have hmem : sep ∈ cs := by
        by_contra hnot
        simp [ih.mpr hnot] at h
      simp [splitLast?, h, hmem]

/-- The text is cut at a separator that no other follows. -/
lemma of_splitLast? (h : splitLast? sep cs = some (before, after)) :
    cs = before ++ sep :: after ∧ sep ∉ after := by
  induction cs generalizing before with
  | nil => simp [splitLast?] at h
  | cons c cs ih =>
    cases hr : splitLast? sep cs with
    | none =>
      have hnot := splitLast?_eq_none_iff.mp hr
      simp only [splitLast?, hr] at h
      split at h
      · cases h
        exact ⟨by simp_all, hnot⟩
      · cases h
    | some p =>
      obtain ⟨b, a⟩ := p
      simp only [splitLast?, hr, Option.some.injEq, Prod.mk.injEq] at h
      obtain ⟨rfl, rfl⟩ := h
      obtain ⟨rfl, hnot⟩ := ih hr
      exact ⟨rfl, hnot⟩

/-- The last separator is the one that no other follows. -/
lemma splitLast?_append (h : sep ∉ after) :
    splitLast? sep (before ++ sep :: after) = some (before, after) := by
  induction before with
  | nil => simp [splitLast?, splitLast?_eq_none_iff.mpr h]
  | cons c before ih => simp [splitLast?, ih]

end

/-! ### Names of types -/

namespace TypeName

variable {s t : String}

/-- Without a dot the text is the simple name. -/
lemma ofDotted_of_notMem (h : '.' ∉ s.toList) : ofDotted s = ⟨"", s⟩ := by
  rw [ofDotted, splitLast?_eq_none_iff.mpr h]

/-- With a dot, the text consists of the namespace, the last dot and the simple name. -/
lemma toList_ofDotted (h : '.' ∈ s.toList) :
    s.toList = (ofDotted s).ns.toList ++ '.' :: (ofDotted s).name.toList ∧
      '.' ∉ (ofDotted s).name.toList := by
  cases hs : splitLast? '.' s.toList with
  | none => exact absurd h (splitLast?_eq_none_iff.mp hs)
  | some p =>
    obtain ⟨ns, name⟩ := p
    simp only [ofDotted, hs, String.toList_ofList]
    exact of_splitLast? hs

lemma toList_text_of_ne {n : TypeName} (h : n.ns ≠ "") :
    n.text.toList = n.ns.toList ++ '.' :: n.name.toList := by
  simp [text, dotted, h]

/-- What is in neither part is not in the full name, the dot apart. -/
lemma notMem_text {n : TypeName} {c : Char} (hdot : c ≠ '.') (hns : c ∉ n.ns.toList)
    (hname : c ∉ n.name.toList) : c ∉ n.text.toList := by
  by_cases hglobal : n.ns = ""
  · simpa [text, dotted, hglobal] using hname
  · simp [toList_text_of_ne hglobal, hdot, hns, hname]

/-- The full name is read back exactly when there is no dot in the simple name. -/
lemma ofDotted_text_iff {n : TypeName} : ofDotted n.text = n ↔ '.' ∉ n.name.toList := by
  constructor
  · intro h
    by_cases hdot : '.' ∈ n.text.toList
    · rw [← h]
      exact (toList_ofDotted hdot).2
    · rw [ofDotted_of_notMem hdot] at h
      rwa [← congrArg TypeName.name h]
  · intro hname
    by_cases hglobal : n.ns = ""
    · obtain ⟨ns, name⟩ := n
      obtain rfl : ns = "" := hglobal
      exact ofDotted_of_notMem hname
    · rw [ofDotted, toList_text_of_ne hglobal, splitLast?_append hname]
      simp only [String.ofList_toList]

/-- Of texts with a dot no two give the same name, nor of texts without one. -/
lemma eq_of_ofDotted_eq (hdot : '.' ∈ s.toList ↔ '.' ∈ t.toList)
    (h : ofDotted s = ofDotted t) : s = t := by
  by_cases hs : '.' ∈ s.toList
  · rw [← String.toList_inj, (toList_ofDotted hs).1, (toList_ofDotted (hdot.mp hs)).1, h]
  · rw [ofDotted_of_notMem hs, ofDotted_of_notMem (mt hdot.mpr hs)] at h
    exact congrArg TypeName.name h

/-- The simple name is empty when the text is, or ends in a dot. -/
lemma name_ofDotted_eq_empty_iff :
    (ofDotted s).name = "" ↔ s = "" ∨ s.toList.getLast? = some '.' := by
  by_cases hs : '.' ∈ s.toList
  · have hne : s ≠ "" := by
      rintro rfl
      simp at hs
    obtain ⟨hcut, hnot⟩ := toList_ofDotted hs
    rw [hcut, ← String.toList_eq_nil_iff]
    cases hname : (ofDotted s).name.toList with
    | nil => simp
    | cons c cs =>
      rw [hname] at hnot
      have hlast : (c :: cs).getLast? ≠ some '.' := fun h => hnot (List.mem_of_getLast? h)
      simpa [hne, List.getLast?_append] using hlast
  · have hlast : s.toList.getLast? ≠ some '.' := fun h => hs (List.mem_of_getLast? h)
    simp [ofDotted_of_notMem hs, hlast]

end TypeName

end AssemblyPolicy
