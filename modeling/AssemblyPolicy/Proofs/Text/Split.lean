import AssemblyPolicy.Text.Split
import Mathlib.Tactic.Lemma

/-!
# Parts of texts

What `splitAll` gives: parts without the separator, which make up the text when the separator is put
between them.
-/

namespace AssemblyPolicy

variable {sep : Char} {cs ds : List Char}

lemma splitAll_eq_splitOn (sep : Char) (cs : List Char) : splitAll sep cs = cs.splitOn sep := by
  induction cs with
  | nil => rfl
  | cons c cs ih =>
    rw [splitAll, List.splitOn_cons_eq_if_modifyHead, ih]
    by_cases hc : c = sep
    · simp [hc]
    · simp only [hc, beq_iff_eq, if_false]
      cases h : cs.splitOn sep with
      | nil => exact absurd h (List.splitOn_ne_nil sep cs)
      | cons part parts => rfl

lemma splitAll_ne_nil (sep : Char) (cs : List Char) : splitAll sep cs ≠ [] := by
  rw [splitAll_eq_splitOn]
  exact List.splitOn_ne_nil sep cs

lemma splitAll_append (sep : Char) (cs ds : List Char) :
    splitAll sep (cs ++ sep :: ds) = splitAll sep cs ++ splitAll sep ds := by
  simp only [splitAll_eq_splitOn, List.splitOn_append_cons_self]

lemma splitAll_of_notMem (h : sep ∉ cs) : splitAll sep cs = [cs] := by
  rw [splitAll_eq_splitOn]
  exact List.splitOn_eq_singleton h

lemma splitAll_intercalate {parts : List (List Char)} (h : ∀ part ∈ parts, sep ∉ part)
    (hne : parts ≠ []) : splitAll sep ([sep].intercalate parts) = parts := by
  rw [splitAll_eq_splitOn, List.splitOn_intercalate sep h hne]

lemma intercalate_splitAll (sep : Char) (cs : List Char) :
    [sep].intercalate (splitAll sep cs) = cs := by
  rw [splitAll_eq_splitOn, List.intercalate_splitOn]

/-- The first separator is the one that no other comes before. -/
lemma splitFirst?_append (h : sep ∉ cs) (ds : List Char) :
    splitFirst? sep (cs ++ sep :: ds) = some (cs, ds) := by
  induction cs with
  | nil => rw [List.nil_append, splitFirst?, if_pos rfl]
  | cons c cs ih =>
    rw [List.mem_cons, not_or] at h
    rw [List.cons_append, splitFirst?, if_neg (Ne.symm h.1), ih h.2]
    rfl

/-- A text is cut in one way only into a part without the separator and a rest that is empty or begins
with it. -/
lemma eq_and_eq_of_append_eq {rest rest' : List Char} (hcs : sep ∉ cs) (hds : sep ∉ ds)
    (hrest : ∀ c ∈ rest.head?, c = sep) (hrest' : ∀ c ∈ rest'.head?, c = sep)
    (h : cs ++ rest = ds ++ rest') : cs = ds ∧ rest = rest' := by
  induction cs generalizing ds with
  | nil =>
    cases ds with
    | nil => exact ⟨rfl, h⟩
    | cons d ds =>
      obtain rfl := hrest d (by rw [← List.nil_append rest, h]; rfl)
      exact absurd List.mem_cons_self hds
  | cons c cs ih =>
    cases ds with
    | nil =>
      obtain rfl := hrest' c (by rw [← List.nil_append rest', ← h]; rfl)
      exact absurd List.mem_cons_self hcs
    | cons d ds =>
      obtain ⟨rfl, htail⟩ := List.cons.inj h
      obtain ⟨rfl, hrests⟩ := ih (mt (List.mem_cons_of_mem c) hcs) (mt (List.mem_cons_of_mem c) hds)
        htail
      exact ⟨rfl, hrests⟩

/-- What is in none of the parts is not in the text, the separator apart. -/
lemma notMem_intercalate {c : Char} {parts : List (List Char)} (hc : c ≠ sep)
    (h : ∀ part ∈ parts, c ∉ part) : c ∉ [sep].intercalate parts := by
  induction parts with
  | nil => simp
  | cons part parts ih =>
    obtain ⟨hpart, hparts⟩ := List.forall_mem_cons.mp h
    cases parts with
    | nil => simpa using hpart
    | cons part' parts =>
      rw [List.intercalate_cons_cons]
      simp [hpart, hc, ih hparts]

end AssemblyPolicy
