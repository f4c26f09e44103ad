import AssemblyPolicy.Proofs.Verification.Coverage
import Mathlib

/-!
# Prohibiting and requiring

The opposite of a restriction requires what the restriction prohibits, or prohibits what it
requires. Both are judged by the same presence, so a sweep and the sweep under the opposite policy
leave the same checks undecided, and of the others each that applies is a violation in exactly one of
the two (`AssemblyModel.sweep_opposite`).
-/

namespace AssemblyPolicy

/-! ### Opposites -/

namespace Mode

def opposite : Mode → Mode
  | prohibited => required
  | required => prohibited

@[simp] lemma opposite_prohibited : prohibited.opposite = required := rfl

@[simp] lemma opposite_required : required.opposite = prohibited := rfl

end Mode

namespace Restriction

/-- The same restriction in the other mode. -/
def opposite (r : Restriction) : Restriction := { r with mode := r.mode.opposite }

variable (r : Restriction) (policy : Policy) (s : AssemblySet) (m : MemberRef)

@[simp] lemma mode_opposite : r.opposite.mode = r.mode.opposite := rfl

@[simp] lemma appliesTo_opposite : r.opposite.appliesTo s m = r.appliesTo s m := rfl

@[simp] lemma presence_opposite : r.opposite.presence policy s m = r.presence policy s m := by
  cases m <;> rfl

end Restriction

namespace Policy

/-- The policy with the opposites of all restrictions. -/
def opposite (policy : Policy) : Policy :=
  { policy with restrictions := policy.restrictions.map .opposite }

lemma restrictionsIn_opposite (policy : Policy) (round : Round) :
    policy.opposite.restrictionsIn round = (policy.restrictionsIn round).map .opposite := by
  rw [restrictionsIn, opposite, List.filter_map]
  rfl

end Policy

/-! ### Results -/

namespace Restriction

variable {r : Restriction} {policy : Policy} {s : AssemblySet} {m : MemberRef}

/-- What is undecided stays so in the other mode. -/
lemma judge_opposite_eq_inconclusive_iff {p : Presence} :
    r.opposite.judge p = .inconclusive ↔ r.judge p = .inconclusive := by
  cases p <;> cases hmode : r.mode <;> simp [judge, hmode]

/-- What is decided is a violation in one of the modes only. -/
lemma isViolation_judge_opposite {p : Presence} (hp : r.judge p ≠ .inconclusive) :
    (r.opposite.judge p).isViolation = !(r.judge p).isViolation := by
  cases p with
  | truncated => exact absurd rfl hp
  | present => cases hmode : r.mode <;> simp [judge, hmode, Result.isViolation]
  | absent => cases hmode : r.mode <;> simp [judge, hmode, Result.isViolation]

lemma verify_opposite : r.opposite.verify policy.opposite s m =
    if r.appliesTo s m then r.opposite.judge (r.presence policy s m) else .pass := by
  rw [verify, Policy.opposite, presence_restrictions, presence_opposite, appliesTo_opposite]

lemma verify_opposite_eq_inconclusive_iff :
    r.opposite.verify policy.opposite s m = .inconclusive ↔
      r.verify policy s m = .inconclusive := by
  rw [verify_opposite, verify]
  by_cases happlies : r.appliesTo s m = true
  · rw [if_pos happlies, if_pos happlies, judge_opposite_eq_inconclusive_iff]
  · rw [if_neg happlies, if_neg happlies]

/-- Where a restriction does not apply, there is nothing to report. -/
lemma verify_eq_pass (happlies : r.appliesTo s m = false) : r.verify policy s m = .pass := by
  simp [verify, happlies]

end Restriction

/-! ### Checks -/

/-- The checks of one member against a restriction and its opposite. Exactly one of them is a
violation, unless the restriction does not apply or a limit was hit. -/
structure Checked.Opposed (s : AssemblySet) (c c' : Checked) : Prop where
  member : c'.member = c.member
  restriction : c'.restriction = c.restriction.opposite
  undecided : c'.result = .inconclusive ↔ c.result = .inconclusive
  exempt : c.restriction.appliesTo s c.member = false → c.result = .pass ∧ c'.result = .pass
  decided : c.restriction.appliesTo s c.member = true → c.result ≠ .inconclusive →
    c'.result.isViolation = !c.result.isViolation

/-- Where a restriction applies, one of three things holds: the check is undecided, it is a violation,
or the check of the opposite is one. -/
lemma Checked.Opposed.count_eq {s : AssemblySet} {c c' : Checked} (h : c.Opposed s c')
    (assembly : String) :
    (if (c.violation? assembly).isSome then 1 else 0) +
        (if (c'.violation? assembly).isSome then 1 else 0) +
        (if (c.inconclusive? assembly).isSome then 1 else 0) =
      if c.restriction.appliesTo s c.member then 1 else 0 := by
  obtain ⟨m, r, result⟩ := c
  obtain ⟨m', r', result'⟩ := c'
  cases happlies : r.appliesTo s m with
  | false =>
    obtain ⟨rfl, rfl⟩ := h.exempt happlies
    simp [violation?, inconclusive?]
  | true =>
    cases result with
    | inconclusive =>
      obtain rfl := h.undecided.mpr rfl
      simp [violation?, inconclusive?]
    | pass =>
      have hviolation := h.decided happlies (by simp)
      cases result' <;> simp_all [violation?, inconclusive?, Result.isViolation]
    | violation message =>
      have hviolation := h.decided happlies (by simp)
      have hdecided := h.undecided
      cases result' <;> simp_all [violation?, inconclusive?, Result.isViolation]

/-! ### Sweeps -/

namespace AssemblyModel

variable (a : AssemblyModel) (policy : Policy) (s : AssemblySet)

lemma pairs_opposite :
    a.pairs policy.opposite = (a.pairs policy).map fun (m, r) => (m, r.opposite) := by
  have hproduct : ∀ (members : List MemberRef) (restrictions : List Restriction),
      TypeDef.product members (restrictions.map .opposite) =
        (TypeDef.product members restrictions).map fun (m, r) => (m, r.opposite) := by
    intro members restrictions
    simp only [TypeDef.product, List.map_flatMap, List.map_map]
    rfl
  simp only [pairs, TypeDef.pairs_eq, Policy.restrictionsIn_opposite, hproduct, List.map_flatMap]

/-- A check and its opposite, pair by pair. -/
lemma checks_opposed :
    List.Forall₂ (Checked.Opposed s) (a.checks policy s) (a.checks policy.opposite s) := by
  rw [checks, checks, pairs_opposite, List.map_map, List.forall₂_map_left_iff,
    List.forall₂_map_right_iff, List.forall₂_same]
  rintro ⟨m, r⟩ -
  constructor
  case member => rfl
  case restriction => rfl
  case undecided => exact Restriction.verify_opposite_eq_inconclusive_iff
  case exempt =>
    intro happlies
    exact ⟨Restriction.verify_eq_pass happlies, Restriction.verify_eq_pass (r := r.opposite) happlies⟩
  case decided =>
    intro happlies hdecided
    have happlies : r.appliesTo s m = true := happlies
    have hdecided : r.judge (r.presence policy s m) ≠ .inconclusive := by
      rwa [← Restriction.verify_eq_judge happlies]
    simp only [Function.comp_apply, Restriction.verify_opposite, if_pos happlies,
      Restriction.verify_eq_judge happlies, Restriction.isViolation_judge_opposite hdecided]

lemma inconclusive_opposite :
    (a.sweep policy.opposite s).inconclusive = (a.sweep policy s).inconclusive := by
  rw [inconclusive_sweep, inconclusive_sweep, pairs_opposite, List.filter_map, List.map_map]
  simp only [Function.comp_def, Restriction.verify_opposite_eq_inconclusive_iff]
  rfl

/-- The reports of both sweeps together, where each check is one of two opposed ones. -/
lemma count_opposed {cs cs' : List Checked} (h : List.Forall₂ (Checked.Opposed s) cs cs') :
    (cs.filterMap (·.violation? a.name)).length + (cs'.filterMap (·.violation? a.name)).length +
        (cs.filterMap (·.inconclusive? a.name)).length =
      cs.countP fun c => c.restriction.appliesTo s c.member := by
  simp only [List.length_filterMap_eq_countP]
  induction h with
  | nil => rfl
  | cons hc _ ih =>
    have hone := hc.count_eq a.name
    simp only [List.countP_cons]
    omega

/-- Under the opposite policy the same checks are undecided. Of the others each is a violation in
exactly one of the two sweeps if its restriction applies, and in neither if it does not, so the
reports of both sweeps are as many as there are checks that apply. -/
theorem sweep_opposite :
    (a.sweep policy.opposite s).inconclusive = (a.sweep policy s).inconclusive ∧
    (a.sweep policy.opposite s).restrictionsEvaluated =
      (a.sweep policy s).restrictionsEvaluated ∧
    List.Forall₂ (Checked.Opposed s) (a.checks policy s) (a.checks policy.opposite s) ∧
    (a.sweep policy s).violations.length + (a.sweep policy.opposite s).violations.length +
        (a.sweep policy s).inconclusive.length =
      (a.pairs policy).countP fun (m, r) => r.appliesTo s m := by
  have hopposed := a.checks_opposed policy s
  refine ⟨a.inconclusive_opposite policy s, ?_, hopposed, ?_⟩
  · exact congrArg counter hopposed.length_eq.symm
  · have hcount := a.count_opposed s hopposed
    rw [checks, List.countP_map] at hcount
    exact hcount

end AssemblyModel

end AssemblyPolicy
