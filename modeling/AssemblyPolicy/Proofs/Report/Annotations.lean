import AssemblyPolicy.Check.Basic
import AssemblyPolicy.Proofs.Report.Composition
import AssemblyPolicy.Proofs.Report.Workflow

/-!
# Which findings are annotated

Findings are compared by severity before everything else, so that a limit on the annotations of a
report leaves out the least severe findings first (`Workflow.lines_report`). In particular no error is
left out as long as there is a line for each of them.
-/

namespace AssemblyPolicy

variable {findings : List Finding} {f g : Finding} {limit : Nat}

/-! ### Findings in order of severity -/

/-- Is the first severity the graver one? -/
def Severity.exceeds : Severity → Severity → Bool
  | .error, .warning => true
  | .error, .info => true
  | .warning, .info => true
  | _, _ => false

lemma Severity.exceeds_iff {s t : Severity} : s.exceeds t = true ↔ s.rank < t.rank := by
  cases s <;> cases t <;> decide

lemma Severity.exceeds_eq_false_iff {s t : Severity} : s.exceeds t = false ↔ t.rank ≤ s.rank := by
  rw [← Bool.not_eq_true, exceeds_iff, Nat.not_lt]

/-- No finding is less severe than one that comes after it. -/
def SeverestFirst (findings : List Finding) : Prop :=
  findings.Pairwise fun f g => g.severity.exceeds f.severity = false

lemma Finding.exceeds_eq_false_of_isLE (h : (f.compare g).isLE = true) :
    g.severity.exceeds f.severity = false := by
  rw [Severity.exceeds_eq_false_iff]
  by_contra hlt
  have hgt : Ord.compare f.severity.rank g.severity.rank = .gt :=
    Nat.compare_eq_gt.mpr (Nat.lt_of_not_le hlt)
  rw [compare, hgt] at h
  cases h

lemma severestFirst_evaluate (policy : Policy) (outcomes : List FileOutcome) :
    SeverestFirst (evaluate policy outcomes).findings :=
  (pairwise_mergeSort_cmp Finding.compare _).imp Finding.exceeds_eq_false_of_isLE

/-- Only errors are as severe as errors. -/
lemma Severity.not_error_exceeds (s : Severity) : (!error.exceeds s) = decide (s = .error) := by
  cases s <;> decide

namespace SeverestFirst

/-- What is left out is no more severe than what is kept. -/
lemma exceeds_eq_false (h : SeverestFirst findings) (hf : f ∈ findings.take limit)
    (hg : g ∈ findings.drop limit) : g.severity.exceeds f.severity = false := by
  rw [SeverestFirst, ← List.take_append_drop limit findings] at h
  exact (List.pairwise_append.mp h).2.2 f hf g hg

/-- With room for all findings that are at least as severe as `s`, none of them is left out. -/
lemma exceeds_of_mem_drop (h : SeverestFirst findings) {s : Severity}
    (hroom : findings.countP (fun f => !s.exceeds f.severity) ≤ limit)
    (hg : g ∈ findings.drop limit) : s.exceeds g.severity = true := by
  by_contra hnot
  have hsevere : s.exceeds g.severity = false := Bool.not_eq_true _ ▸ hnot
  have hkept : ∀ f ∈ findings.take limit, s.exceeds f.severity = false := by
    intro f hf
    have hfg := h.exceeds_eq_false hf hg
    rw [Severity.exceeds_eq_false_iff] at hsevere hfg ⊢
    exact hfg.trans hsevere
  have htaken : (findings.take limit).countP (fun f => !s.exceeds f.severity) = limit := by
    have hlength : limit < findings.length := by
      have hpos := List.length_pos_of_mem hg
      rw [List.length_drop] at hpos
      omega
    rw [List.countP_eq_length.mpr, List.length_take, Nat.min_eq_left hlength.le]
    intro f hf
    rw [hkept f hf, Bool.not_false]
  have hleft : 0 < (findings.drop limit).countP (fun f => !s.exceeds f.severity) :=
    List.countP_pos_iff.mpr ⟨g, hg, by rw [hsevere, Bool.not_false]⟩
  -- All that is kept is as severe as `s`, and so is `g`, which makes one more than there is room for.
  rw [← List.take_append_drop limit findings, List.countP_append, htaken] at hroom
  omega

end SeverestFirst

/-! ### Lines -/

namespace Workflow

/-- The lines of some findings when there may be no more than `limit`. -/
structure KeepsSeverest (limit : Nat) (findings : List Finding) (lines : List String) : Prop where
  length : lines.length = min limit findings.length
  /-- The lines stand for the first findings. -/
  renders : lines = (findings.take limit).map fun f => render f.view
  /-- Each line reads as what its finding says. -/
  reads : lines.map read? = (findings.take limit).map fun f =>
    some (.of f.severity (some f.checkId) f.code f.message f.location)
  severest : ∀ f ∈ findings.take limit, ∀ g ∈ findings.drop limit,
    g.severity.exceeds f.severity = false
  /-- All that is as severe as `s` has its line, if there are lines enough. -/
  room : ∀ s : Severity, findings.countP (fun f => !s.exceeds f.severity) ≤ limit →
    ∀ g ∈ findings.drop limit, s.exceeds g.severity = true
  errors : findings.countP (·.severity = .error) ≤ limit →
    ∀ g ∈ findings.drop limit, g.severity ≠ .error

lemma keepsSeverest_lines {r : Report} (h : SeverestFirst r.findings) (limit : Nat) :
    KeepsSeverest limit r.findings (lines limit r.view) := by
  have hrenders : lines limit r.view = (r.findings.take limit).map fun f => render f.view := by
    rw [lines, List.map_take]
    exact congrArg _ List.map_map
  have hroom : ∀ s : Severity, r.findings.countP (fun f => !s.exceeds f.severity) ≤ limit →
      ∀ g ∈ r.findings.drop limit, s.exceeds g.severity = true :=
    fun s hcount g hg => h.exceeds_of_mem_drop hcount hg
  exact
    { length := by rw [hrenders, List.length_map, List.length_take]
      renders := hrenders
      reads := by
        rw [hrenders, List.map_map]
        exact List.map_congr_left fun f _ => read?_render f.view
      severest := fun f hf g hg => h.exceeds_eq_false hf hg
      room := hroom
      errors := by
        intro hcount g hg herror
        have hcount' : r.findings.countP (fun f => !Severity.error.exceeds f.severity) ≤ limit := by
          simpa only [Severity.not_error_exceeds] using hcount
        have hless := hroom .error hcount' g hg
        rw [herror] at hless
        cases hless }

/-- The report of a check has all findings of its files in their order, and its lines stand for the
severest of them. -/
theorem lines_report (policy : Policy) (outcomes : List FileOutcome)
    (startedAt finishedAt : Timestamp) (limit : Nat) :
    let r := Checkup.report ⟨policy, evaluate policy outcomes⟩ startedAt finishedAt
    r.findings.Perm (outcomes.flatMap (·.findings policy.limits)) ∧
      r.findings.Pairwise (fun f g => f.precedes g = true) ∧
      KeepsSeverest limit r.findings (lines limit r.view) :=
  ⟨findings_perm policy outcomes, pairwise_mergeSort_cmp Finding.compare _,
    keepsSeverest_lines (severestFirst_evaluate policy outcomes) limit⟩

end Workflow

end AssemblyPolicy
