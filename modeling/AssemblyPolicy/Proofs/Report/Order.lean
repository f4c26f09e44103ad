import AssemblyPolicy.Report.Evaluation
import Mathlib

/-!
# The order of reports

Findings are compared by several keys, and different findings may compare as equal. Sorting keeps
those in the order in which they came. So choosing among the elements of a list commutes with sorting
it (`filter_mergeSort`), and the sorted list depends on the order of the list by the order of equal
elements only (`mergeSort_eq_of_perm`).
-/

namespace AssemblyPolicy

/-! ### Stable sorting -/

section

variable {α : Type} {cmp : α → α → Ordering} [Std.TransCmp cmp] {a b : α} {l l' : List α}

lemma isLE_or_isLE (cmp : α → α → Ordering) [Std.TransCmp cmp] (a b : α) :
    ((cmp a b).isLE || (cmp b a).isLE) = true := by
  have hswap : cmp b a = (cmp a b).swap := Std.OrientedCmp.eq_swap
  rw [hswap]
  cases cmp a b <;> rfl

lemma isLE_of_eq_of_eq {c : α} (hb : cmp a b = .eq) (hc : cmp a c = .eq) : (cmp b c).isLE = true := by
  have hba : cmp b a = .eq := Std.OrientedCmp.eq_symm hb
  exact Std.TransCmp.isLE_trans (Ordering.isLE_of_eq_eq hba) (Ordering.isLE_of_eq_eq hc)

lemma pairwise_mergeSort_cmp (cmp : α → α → Ordering) [Std.TransCmp cmp] (l : List α) :
    (l.mergeSort fun a b => (cmp a b).isLE).Pairwise fun a b => (cmp a b).isLE = true := by
  apply List.pairwise_mergeSort
  · intro a b c
    exact Std.TransCmp.isLE_trans
  · exact isLE_or_isLE cmp

/-- Elements that compare as equal stay in their order. -/
lemma filter_eq_mergeSort (cmp : α → α → Ordering) [Std.TransCmp cmp] (a : α) (l : List α) :
    (l.mergeSort fun a b => (cmp a b).isLE).filter (cmp a · = .eq) = l.filter (cmp a · = .eq) := by
  have hpairwise : (l.filter (cmp a · = .eq)).Pairwise fun a b => (cmp a b).isLE = true := by
    apply List.pairwise_of_forall_mem_list
    intro b hb c hc
    exact isLE_of_eq_of_eq (by simpa using (List.mem_filter.mp hb).2)
      (by simpa using (List.mem_filter.mp hc).2)
  have hsublist : (l.filter (cmp a · = .eq)).Sublist (l.mergeSort fun a b => (cmp a b).isLE) :=
    List.sublist_mergeSort (fun _ _ _ => Std.TransCmp.isLE_trans) (isLE_or_isLE cmp) hpairwise
      List.filter_sublist
  have hfilter := hsublist.filter (cmp a · = .eq)
  simp only [List.filter_filter, Bool.and_self] at hfilter
  exact (hfilter.eq_of_length ((List.mergeSort_perm l _).filter _).length_eq.symm).symm

/-- A sorted list is determined by its elements and the order of those that compare as equal. -/
lemma eq_of_perm_of_pairwise (h : l.Perm l') (hl : l.Pairwise fun a b => (cmp a b).isLE = true)
    (hl' : l'.Pairwise fun a b => (cmp a b).isLE = true)
    (hties : ∀ a ∈ l, l.filter (cmp a · = .eq) = l'.filter (cmp a · = .eq)) : l = l' := by
  induction l generalizing l' with
  | nil => exact h.nil_eq
  | cons a l ih =>
    cases l' with
    | nil => exact absurd h.length_eq (by simp)
    | cons b l' =>
      obtain ⟨ha, hrest⟩ := List.pairwise_cons.mp hl
      obtain ⟨hb, hrest'⟩ := List.pairwise_cons.mp hl'
      have hrefl : cmp a a = .eq := Std.ReflCmp.compare_self
      have hab : cmp a b = .eq := by
        rcases List.mem_cons.mp (h.mem_iff.mpr List.mem_cons_self) with rfl | hmem
        · exact hrefl
        · rcases List.mem_cons.mp (h.mem_iff.mp List.mem_cons_self) with rfl | hmem'
          · exact hrefl
          · exact Std.OrientedCmp.isLE_antisymm (ha b hmem) (hb a hmem')
      -- Both heads are the first element that compares as equal to them.
      have hhead := hties a List.mem_cons_self
      simp only [List.filter_cons, hrefl, hab, decide_true, if_true, List.cons.injEq] at hhead
      obtain ⟨rfl, -⟩ := hhead
      refine congrArg _ (ih h.cons_inv hrest hrest' ?_)
      intro c hc
      have htail := hties c (List.mem_cons_of_mem a hc)
      simp only [List.filter_cons] at htail
      split at htail
      · exact (List.cons.inj htail).2
      · exact htail

lemma mergeSort_eq_of_perm (cmp : α → α → Ordering) [Std.TransCmp cmp] (h : l.Perm l')
    (hties : ∀ a ∈ l, l.filter (cmp a · = .eq) = l'.filter (cmp a · = .eq)) :
    (l.mergeSort fun a b => (cmp a b).isLE) = l'.mergeSort fun a b => (cmp a b).isLE := by
  refine eq_of_perm_of_pairwise ?_ (pairwise_mergeSort_cmp cmp l) (pairwise_mergeSort_cmp cmp l') ?_
  · exact (List.mergeSort_perm l _).trans (h.trans (List.mergeSort_perm l' _).symm)
  · intro a ha
    rw [filter_eq_mergeSort, filter_eq_mergeSort, hties a (List.mem_mergeSort.mp ha)]

lemma filter_mergeSort (cmp : α → α → Ordering) [Std.TransCmp cmp] (p : α → Bool) (l : List α) :
    (l.mergeSort fun a b => (cmp a b).isLE).filter p =
      (l.filter p).mergeSort fun a b => (cmp a b).isLE := by
  refine eq_of_perm_of_pairwise ?_ ((pairwise_mergeSort_cmp cmp l).filter p)
    (pairwise_mergeSort_cmp cmp _) ?_
  · exact ((List.mergeSort_perm l _).filter p).trans (List.mergeSort_perm _ _).symm
  · intro a _
    rw [List.filter_comm, filter_eq_mergeSort, filter_eq_mergeSort, List.filter_comm]

end

/-! ### Lists with keys

Each element of a list has a key and contributes some values.
-/

section

variable {α β κ : Type} [DecidableEq κ] {key : α → κ} {g : α → List β} {l l' : List α}

lemma filter_flatMap_filter_key {p : β → Bool} {k : κ}
    (hp : ∀ a ∈ l, ∀ b ∈ g a, p b = true → key a = k) :
    (l.flatMap g).filter p = ((l.filter (key · = k)).flatMap g).filter p := by
  induction l with
  | nil => rfl
  | cons a l ih =>
    rw [List.flatMap_cons, List.filter_append, ih fun a ha => hp a (List.mem_cons_of_mem _ ha)]
    by_cases hk : key a = k
    · rw [List.filter_cons_of_pos (by simpa using hk), List.flatMap_cons, List.filter_append]
    · have hnone : (g a).filter p = [] :=
        List.filter_eq_nil_iff.mpr fun b hb hpb => hk (hp a List.mem_cons_self b hb hpb)
      rw [hnone, List.filter_cons_of_neg (by simpa using hk), List.nil_append]

/-- The values from elements with one key are what these elements contribute. -/
lemma filter_flatMap_key {p : β → Bool} {k : κ}
    (hp : ∀ a ∈ l, ∀ b ∈ g a, p b = true ↔ key a = k) :
    (l.flatMap g).filter p = (l.filter (key · = k)).flatMap g := by
  rw [filter_flatMap_filter_key fun a ha b hb => (hp a ha b hb).mp]
  refine List.filter_eq_self.mpr fun b hb => ?_
  obtain ⟨a, ha, hba⟩ := List.mem_flatMap.mp hb
  obtain ⟨hal, hk⟩ := List.mem_filter.mp ha
  exact (hp a hal b hba).mpr (by simpa using hk)

lemma filter_key_eq_of_perm (h : l.Perm l') (hnodup : (l.map key).Nodup) (k : κ) :
    l.filter (key · = k) = l'.filter (key · = k) := by
  have hne : ∀ {l : List α}, (l.map key).Nodup →
      (l.filter (key · = k)).Pairwise fun a b => key a ≠ key b :=
    fun hl => (List.pairwise_map.mp hl).filter _
  refine (h.filter _).eq_of_pairwise ?_ (hne hnodup) (hne ((h.map key).nodup hnodup))
  intro a b ha hb hab
  have hka : key a = k := by simpa using (List.mem_filter.mp ha).2
  have hkb : key b = k := by simpa using (List.mem_filter.mp hb).2
  exact absurd (hka.trans hkb.symm) hab

/-- When only values under one key compare as equal, and each key occurs once, the sorted values do
not depend on the order of the elements. -/
lemma mergeSort_flatMap_eq_of_perm (cmp : β → β → Ordering) [Std.TransCmp cmp] (h : l.Perm l')
    (hnodup : (l.map key).Nodup)
    (hties : ∀ a ∈ l, ∀ b ∈ g a, ∀ a' ∈ l, ∀ b' ∈ g a', cmp b b' = .eq → key a' = key a) :
    ((l.flatMap g).mergeSort fun a b => (cmp a b).isLE) =
      (l'.flatMap g).mergeSort fun a b => (cmp a b).isLE := by
  have htied : ∀ a ∈ l, ∀ b ∈ g a, ∀ {l₁ : List α}, l₁ ⊆ l →
      (l₁.flatMap g).filter (cmp b · = .eq) =
        ((l₁.filter (key · = key a)).flatMap g).filter (cmp b · = .eq) := by
    intro a ha b hb l₁ hsubset
    apply filter_flatMap_filter_key
    intro a' ha' b' hb' heq
    exact hties a ha b hb a' (hsubset ha') b' hb' (by simpa using heq)
  refine mergeSort_eq_of_perm cmp (h.flatMap_right g) fun b hb => ?_
  obtain ⟨a, ha, hba⟩ := List.mem_flatMap.mp hb
  rw [htied a ha b hba (List.Subset.refl l), htied a ha b hba h.symm.subset,
    filter_key_eq_of_perm h hnodup]

end

/-! ### The orders of a report -/

attribute [ext] ArtifactPath

lemma Finding.compare_eq_compareLex : Finding.compare =
    compareLex (compareOn (·.severity.rank)) (compareLex (compareOn pathKey)
      (compareLex (compareOn memberKey) (compareLex (compareOn checkId)
        (compareLex (compareOn code) (compareOn message))))) := rfl

instance : Std.TransCmp Finding.compare := by
  rw [Finding.compare_eq_compareLex]
  infer_instance

/-- Findings that compare as equal have one path. -/
lemma Finding.pathKey_eq_of_compare_eq {f g : Finding} (h : f.compare g = .eq) :
    f.pathKey = g.pathKey := by
  have hpath := (Ordering.then_eq_eq.mp (Ordering.then_eq_eq.mp h).2).1
  exact Std.LawfulEqOrd.eq_of_compare hpath

/-- The order of the verdicts on files. -/
def AssemblyVerdict.compare (a b : AssemblyVerdict) : Ordering := compareText a.path.text b.path.text

instance : Std.TransCmp AssemblyVerdict.compare :=
  inferInstanceAs (Std.TransCmp (compareOn fun v : AssemblyVerdict => v.path.text))

lemma AssemblyVerdict.path_eq_of_compare_eq {v w : AssemblyVerdict} (h : v.compare w = .eq) :
    v.path = w.path :=
  ArtifactPath.ext (Std.LawfulEqOrd.eq_of_compare h)

end AssemblyPolicy
