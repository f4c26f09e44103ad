import AssemblyPolicy.Verification.Basic
import Mathlib.Tactic.Lemma
import Mathlib.Tactic.SplitIfs

/-!
# Results of checks

What the result of a check says of the restriction, and of the presence it was judged by.
-/

namespace AssemblyPolicy.Restriction

variable {r : Restriction} {policy : Policy} {s : AssemblySet} {m : MemberRef}

lemma verify_eq_judge (happlies : r.appliesTo s m = true) :
    r.verify policy s m = r.judge (r.presence policy s m) := by
  rw [verify, if_pos happlies]

lemma judge_eq_violation_iff (hmode : r.mode = .prohibited) {p : Presence} :
    r.judge p = .violation r.message ↔ p = .present := by
  cases p <;> simp [judge, hmode]

lemma judge_eq_inconclusive_iff (hmode : r.mode = .prohibited) {p : Presence} :
    r.judge p = .inconclusive ↔ p = .truncated := by
  cases p <;> simp [judge, hmode]

lemma judge_eq_pass_iff (hmode : r.mode = .prohibited) {p : Presence} :
    r.judge p = .pass ↔ p = .absent := by
  cases p <;> simp [judge, hmode]

lemma judge_required_eq_violation_iff (hmode : r.mode = .required) {p : Presence} :
    r.judge p = .violation r.message ↔ p = .absent := by
  cases p <;> simp [judge, hmode]

lemma judge_required_eq_pass_iff (hmode : r.mode = .required) {p : Presence} :
    r.judge p = .pass ↔ p = .present := by
  cases p <;> simp [judge, hmode]

/-- A violation carries the message of the restriction. -/
lemma message_of_verify {message : String} (h : r.verify policy s m = .violation message) :
    message = r.message := by
  unfold verify judge at h
  split_ifs at h
  split at h
  · cases h
  · split at h <;> cases h
    rfl
  · split at h <;> cases h
    rfl

/-- Of members other than methods only the reference itself is looked at. -/
lemma presence_eq_present_iff (r : Restriction) (policy : Policy) (s : AssemblySet)
    (hm : ∀ n, m ≠ .method n) : r.presence policy s m = .present ↔ r.target.isIn s m = true := by
  cases m with
  | method n => exact absurd rfl (hm n)
  | _ => simp [presence]

/-- What violates a restriction is subject to it. -/
lemma appliesTo_of_verify {message : String} (h : r.verify policy s m = .violation message) :
    r.appliesTo s m = true := by
  unfold verify at h
  split_ifs at h with happlies
  exact happlies

end AssemblyPolicy.Restriction
