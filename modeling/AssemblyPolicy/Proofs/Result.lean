import Mathlib.Data.List.Forall2
import Mathlib.Data.List.Nodup
import Mathlib.Tactic.Lemma

/-!
# Results

When a computation that may fail gives a value: each step before gave one. Lists of results are related
to what they were computed from item by item. A value is found by its key when no key is listed twice.
-/

namespace AssemblyPolicy

variable {ε δ α β : Type}

lemma bind_eq_ok_iff {x : Except ε α} {f : α → Except ε β} {b : β} :
    (x >>= f) = .ok b ↔ ∃ a, x = .ok a ∧ f a = .ok b := by
  cases x with
  | error e => simp [bind, Except.bind]
  | ok a => simp [bind, Except.bind]

@[simp] lemma check_bind_eq_ok_iff {x : Except ε Unit} {y : Except ε β} {b : β} :
    (x >>= fun _ => y) = .ok b ↔ x = .ok () ∧ y = .ok b := by
  rw [bind_eq_ok_iff]
  exact ⟨fun ⟨_, h⟩ => h, fun h => ⟨(), h⟩⟩

@[simp] lemma mapError_eq_ok_iff {x : Except ε α} {f : ε → δ} {a : α} :
    x.mapError f = .ok a ↔ x = .ok a := by
  cases x with
  | error e => exact ⟨nofun, nofun⟩
  | ok b =>
    have hmap : (Except.ok b).mapError f = .ok b := rfl
    simp only [hmap, Except.ok.injEq]

@[simp] lemma map_eq_ok_iff {x : Except ε α} {f : α → β} {b : β} :
    x.map f = .ok b ↔ ∃ a, x = .ok a ∧ f a = b := by
  cases x with
  | error e => simp [Except.map]
  | ok a => simp [Except.map]

/-! ### Item by item -/

variable {R : α → β → Prop} {l l₁ l₂ : List α} {l' : List β}

lemma exists_forall₂_iff : (∃ l', List.Forall₂ R l l') ↔ ∀ a ∈ l, ∃ b, R a b := by
  induction l with
  | nil => simp
  | cons a l ih =>
    rw [List.forall_mem_cons, ← ih]
    constructor
    · rintro ⟨l', h⟩
      obtain ⟨b, l'', hb, hl, -⟩ := List.forall₂_cons_left_iff.mp h
      exact ⟨⟨b, hb⟩, l'', hl⟩
    · rintro ⟨⟨b, hb⟩, l', hl⟩
      exact ⟨b :: l', .cons hb hl⟩

lemma forall₂_append_left_iff : List.Forall₂ R (l₁ ++ l₂) l' ↔
    ∃ l₁' l₂', List.Forall₂ R l₁ l₁' ∧ List.Forall₂ R l₂ l₂' ∧ l' = l₁' ++ l₂' := by
  constructor
  · intro h
    induction l₁ generalizing l' with
    | nil => exact ⟨[], l', .nil, h, rfl⟩
    | cons a l₁ ih =>
      obtain ⟨b, l'', hb, hl, rfl⟩ := List.forall₂_cons_left_iff.mp h
      obtain ⟨l₁', l₂', h₁, h₂, rfl⟩ := ih hl
      exact ⟨b :: l₁', l₂', .cons hb h₁, h₂, rfl⟩
  · rintro ⟨l₁', l₂', h₁, h₂, rfl⟩
    exact List.rel_append h₁ h₂

lemma filterMap_eq_of_forall₂ {γ : Type} {f : α → Option γ} {g : β → Option γ}
    (h : List.Forall₂ (fun a b => f a = g b) l l') : l.filterMap f = l'.filterMap g := by
  induction h with
  | nil => rfl
  | cons heq _ ih => rw [List.filterMap_cons, List.filterMap_cons, heq, ih]

/-! ### Values by their keys -/

lemma lookup_eq_some_iff_mem [BEq α] [LawfulBEq α] {l : List (α × β)} {a : α} {b : β}
    (h : (l.map (·.1)).Nodup) : l.lookup a = some b ↔ (a, b) ∈ l := by
  induction l with
  | nil => simp
  | cons m l ih =>
    obtain ⟨a', b'⟩ := m
    obtain ⟨hnew, hl⟩ := List.nodup_cons.mp h
    by_cases ha : a = a'
    · subst ha
      have hnot : (a, b) ∉ l := fun hmem => hnew (List.mem_map.mpr ⟨_, hmem, rfl⟩)
      simp [hnot, eq_comm]
    · rw [List.lookup_cons, beq_eq_false_iff_ne.mpr ha]
      simpa [ha] using ih hl

end AssemblyPolicy
