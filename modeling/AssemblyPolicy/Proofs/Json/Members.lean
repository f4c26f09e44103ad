import AssemblyPolicy.Json.Basic
import AssemblyPolicy.Metadata.AssemblySet
import AssemblyPolicy.Proofs.Result
import Mathlib.Data.List.Induction
import Mathlib.Tactic.SplitIfs

/-!
# Members sorted by key

`Json.sortMembers` puts members in the order of their keys. Of members with different keys it loses
none (`perm_sortMembers`), and members that are sorted already stay as they are.
-/

namespace AssemblyPolicy.Json

variable {α : Type} {key : String} {value : α} {l : List (String × α)}

/-- Members in strict order of their keys. -/
def KeysSorted (l : List (String × α)) : Prop := l.Pairwise fun m n => m.1 < n.1

lemma KeysSorted.nodup (h : KeysSorted l) : (l.map (·.1)).Nodup :=
  List.Pairwise.map _ (fun _ _ hlt heq => String.lt_irrefl _ (heq ▸ hlt)) h

/-! ### Inserting a member -/

lemma lookup_insertMember (key : String) (value : α) (l : List (String × α)) :
    (insertMember key value l).lookup key = some value := by
  induction l with
  | nil => simp [insertMember]
  | cons m l ih =>
    obtain ⟨k, v⟩ := m
    simp only [insertMember]
    split_ifs with hlt heq
    · rw [List.lookup_cons_self]
    · rw [List.lookup_cons_self]
    · simpa [List.lookup_cons, beq_eq_false_iff_ne.mpr heq] using ih

/-- A member with a new key comes to the others. -/
lemma perm_insertMember (h : ∀ m ∈ l, m.1 ≠ key) :
    (insertMember key value l).Perm ((key, value) :: l) := by
  induction l with
  | nil => exact .refl _
  | cons m l ih =>
    obtain ⟨k, v⟩ := m
    obtain ⟨hm, hl⟩ := List.forall_mem_cons.mp h
    simp only [insertMember]
    split_ifs with hlt heq
    · exact .refl _
    · exact absurd heq.symm hm
    · exact ((ih hl).cons _).trans (.swap _ _ _)

lemma eq_or_mem_of_mem_insertMember {m : String × α} (h : m ∈ insertMember key value l) :
    m = (key, value) ∨ m ∈ l := by
  induction l with
  | nil => exact .inl (List.mem_singleton.mp h)
  | cons n l ih =>
    obtain ⟨k, v⟩ := n
    simp only [insertMember] at h
    split_ifs at h with hlt heq
    · exact List.mem_cons.mp h
    · exact (List.mem_cons.mp h).imp id (List.mem_cons_of_mem _)
    · rcases List.mem_cons.mp h with rfl | h
      · exact .inr List.mem_cons_self
      · exact (ih h).imp id (List.mem_cons_of_mem _)

lemma keysSorted_insertMember (h : KeysSorted l) : KeysSorted (insertMember key value l) := by
  induction l with
  | nil => exact List.pairwise_singleton _ _
  | cons m l ih =>
    obtain ⟨k, v⟩ := m
    obtain ⟨hm, hl⟩ := List.pairwise_cons.mp h
    simp only [insertMember]
    split_ifs with hlt heq
    · refine List.pairwise_cons.mpr ⟨List.forall_mem_cons.mpr ⟨hlt, fun n hn => ?_⟩, h⟩
      exact String.lt_trans hlt (hm n hn)
    · exact List.pairwise_cons.mpr ⟨fun n hn => heq ▸ hm n hn, hl⟩
    · refine List.pairwise_cons.mpr ⟨fun n hn => ?_, ih hl⟩
      rcases eq_or_mem_of_mem_insertMember hn with rfl | hn
      · exact lt_of_not_lt_of_ne hlt heq
      · exact hm n hn

/-- A member with the greatest key comes last. -/
lemma insertMember_eq_concat (h : ∀ m ∈ l, m.1 < key) :
    insertMember key value l = l ++ [(key, value)] := by
  induction l with
  | nil => rfl
  | cons m l ih =>
    obtain ⟨k, v⟩ := m
    obtain ⟨hm, hl⟩ := List.forall_mem_cons.mp h
    have hlt : ¬ key < k := fun hlt => String.lt_irrefl _ (String.lt_trans hlt hm)
    have hne : key ≠ k := fun heq => String.lt_irrefl _ (heq ▸ hm)
    rw [insertMember, if_neg hlt, if_neg hne, ih hl, List.cons_append]

/-! ### Sorting -/

lemma sortMembers_concat (l : List (String × α)) (m : String × α) :
    sortMembers (l ++ [m]) = insertMember m.1 m.2 (sortMembers l) := by
  rw [sortMembers, sortMembers, List.foldl_concat]

lemma keysSorted_sortMembers (l : List (String × α)) : KeysSorted (sortMembers l) := by
  induction l using List.reverseRecOn with
  | nil => exact .nil
  | append_singleton l m ih =>
    rw [sortMembers_concat]
    exact keysSorted_insertMember ih

lemma mem_of_mem_sortMembers {m : String × α} (h : m ∈ sortMembers l) : m ∈ l := by
  induction l using List.reverseRecOn with
  | nil => exact h
  | append_singleton l n ih =>
    rw [sortMembers_concat] at h
    rcases eq_or_mem_of_mem_insertMember h with rfl | h
    · exact List.mem_append_right _ List.mem_cons_self
    · exact List.mem_append_left _ (ih h)

/-- No member is lost when their keys are different. -/
lemma perm_sortMembers (h : (l.map (·.1)).Nodup) : (sortMembers l).Perm l := by
  induction l using List.reverseRecOn with
  | nil => exact .nil
  | append_singleton l m ih =>
    rw [List.map_append, List.nodup_append] at h
    obtain ⟨hl, -, hdisjoint⟩ := h
    have hperm := ih hl
    have hnew : ∀ n ∈ sortMembers l, n.1 ≠ m.1 := fun n hn =>
      hdisjoint n.1 (List.mem_map_of_mem (hperm.mem_iff.mp hn)) m.1 (by simp)
    rw [sortMembers_concat]
    exact (perm_insertMember hnew).trans ((hperm.cons m).trans (List.perm_append_singleton m l).symm)

lemma sortMembers_of_keysSorted (h : KeysSorted l) : sortMembers l = l := by
  induction l using List.reverseRecOn with
  | nil => rfl
  | append_singleton l m ih =>
    obtain ⟨hl, -, hlt⟩ := List.pairwise_append.mp h
    rw [sortMembers_concat, ih hl]
    exact insertMember_eq_concat fun n hn => hlt n hn m (by simp)

/-! ### Lookups -/

/-- An object has the last of the members that it is made of. -/
lemma get?_ofMembers_concat (members : List (String × Json)) (key : String) (value : Json) :
    (ofMembers (members ++ [(key, value)])).get? key = some value := by
  rw [ofMembers, sortMembers_concat]
  exact lookup_insertMember key value _

/-- An object made of members with different keys has just these. -/
lemma get?_ofMembers {members : List (String × Json)} (h : (members.map (·.1)).Nodup)
    (key : String) : (ofMembers members).get? key = members.lookup key := by
  refine Option.ext fun v => ?_
  rw [ofMembers, get?, lookup_eq_some_iff_mem (keysSorted_sortMembers members).nodup,
    lookup_eq_some_iff_mem h, (perm_sortMembers h).mem_iff]

end AssemblyPolicy.Json
