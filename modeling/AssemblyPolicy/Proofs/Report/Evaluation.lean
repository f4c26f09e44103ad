import AssemblyPolicy.Report.Evaluation
import Mathlib

/-!
# Verdicts and counts

The verdict of an evaluation looks at all findings, the verdict on a file at its own findings, and
the counters at both. `evaluate_consistent` says that they agree.
-/

namespace AssemblyPolicy

variable {policy : Policy} {outcomes : List FileOutcome} {o : FileOutcome} {f : Finding}

/-! ### Findings and verdicts on files -/

/-- A file that was checked has a finding for each violation and each undecided check. -/
lemma FileOutcome.mem_findings_of_verified {limits : WalkLimits} {name : String} {sweep : Sweep}
    (h : o.result = .verified name sweep) : f ∈ o.findings limits ↔
      (∃ v ∈ sweep.violations, v.finding o.path = f) ∨
        ∃ i ∈ sweep.inconclusive, i.finding o.path limits = f := by
  simp [findings, h]

/-- Sorted or not, the findings are those of all files. -/
lemma findings_perm (policy : Policy) (outcomes : List FileOutcome) :
    (evaluate policy outcomes).findings.Perm (outcomes.flatMap (·.findings policy.limits)) :=
  List.mergeSort_perm _ _

lemma assemblies_perm (policy : Policy) (outcomes : List FileOutcome) :
    (evaluate policy outcomes).summary.assemblies.Perm (outcomes.map (·.verdict policy)) :=
  List.mergeSort_perm _ _

lemma mem_findings_iff :
    f ∈ (evaluate policy outcomes).findings ↔ ∃ o ∈ outcomes, f ∈ o.findings policy.limits := by
  rw [(findings_perm policy outcomes).mem_iff, List.mem_flatMap]

lemma mem_assemblies_iff {v : AssemblyVerdict} :
    v ∈ (evaluate policy outcomes).summary.assemblies ↔ ∃ o ∈ outcomes, o.verdict policy = v := by
  rw [(assemblies_perm policy outcomes).mem_iff, List.mem_map]

/-- What a file contributes to an evaluation are its findings. -/
lemma findings_insert_perm (policy : Policy) (before after : List FileOutcome) (o : FileOutcome) :
    (evaluate policy (before ++ o :: after)).findings.Perm
      (o.findings policy.limits ++ (evaluate policy (before ++ after)).findings) := by
  refine (findings_perm _ _).trans (.trans ?_ ((findings_perm _ _).symm.append_left _))
  rw [← List.flatMap_cons]
  exact List.perm_middle.flatMap_right _

lemma assemblies_insert_perm (policy : Policy) (before after : List FileOutcome)
    (o : FileOutcome) :
    (evaluate policy (before ++ o :: after)).summary.assemblies.Perm
      (o.verdict policy :: (evaluate policy (before ++ after)).summary.assemblies) := by
  refine (assemblies_perm _ _).trans (.trans ?_ ((assemblies_perm _ _).symm.cons _))
  rw [← List.map_cons]
  exact List.perm_middle.map _

/-! ### Verdicts -/

lemma Severity.isBlocking_iff {s : Severity} {failOn : FailOn} :
    s.isBlocking failOn = true ↔ s = .error ∨ s = .warning ∧ failOn = .warning := by
  cases s <;> simp [isBlocking]

lemma FileOutcome.accepted_eq_false_iff : (o.verdict policy).accepted = false ↔
    ∃ f ∈ o.findings policy.limits, f.severity.isBlocking policy.failOn = true := by
  simp [verdict]

variable {findings : List Finding} {failOn : FailOn}

lemma any_severity_iff {s : Severity} :
    findings.any (·.severity = s) = true ↔ ∃ f ∈ findings, f.severity = s := by
  simp

lemma verdictOf_eq_fail_iff : verdictOf failOn findings = .fail ↔
    ∃ f ∈ findings, f.severity.isBlocking failOn = true := by
  simp only [verdictOf, any_severity_iff, Severity.isBlocking_iff]
  split_ifs with herror hwarning
  · obtain ⟨f, hf, hs⟩ := herror
    exact iff_of_true rfl ⟨f, hf, .inl hs⟩
  · obtain ⟨f, hf, hs⟩ := hwarning
    cases failOn with
    | warning => exact iff_of_true rfl ⟨f, hf, .inr ⟨hs, rfl⟩⟩
    | error => simpa using herror
  · refine iff_of_false (by simp) ?_
    rintro ⟨f, hf, hs | ⟨hs, -⟩⟩
    · exact herror ⟨f, hf, hs⟩
    · exact hwarning ⟨f, hf, hs⟩

lemma verdictOf_eq_pass_iff : verdictOf failOn findings = .pass ↔
    ∀ f ∈ findings, f.severity ≠ .error ∧ f.severity ≠ .warning := by
  simp only [verdictOf, any_severity_iff]
  split_ifs with herror hwarning
  · obtain ⟨f, hf, hs⟩ := herror
    exact iff_of_false (by simp) fun h => (h f hf).1 hs
  · obtain ⟨f, hf, hs⟩ := hwarning
    exact iff_of_false (by cases failOn <;> simp) fun h => (h f hf).2 hs
  · exact iff_of_true rfl fun f hf => ⟨fun hs => herror ⟨f, hf, hs⟩, fun hs => hwarning ⟨f, hf, hs⟩⟩

/-- A run fails exactly when a file is rejected. -/
lemma verdict_evaluate_eq_fail_iff : (evaluate policy outcomes).verdict = .fail ↔
    ∃ o ∈ outcomes, (o.verdict policy).accepted = false := by
  have h : (evaluate policy outcomes).verdict = .fail ↔
      ∃ f ∈ (evaluate policy outcomes).findings, f.severity.isBlocking policy.failOn = true :=
    verdictOf_eq_fail_iff
  simp only [h, mem_findings_iff, FileOutcome.accepted_eq_false_iff]
  constructor
  · rintro ⟨f, ⟨o, ho, hf⟩, hb⟩
    exact ⟨o, ho, f, hf, hb⟩
  · rintro ⟨o, ho, f, hf, hb⟩
    exact ⟨f, ⟨o, ho, hf⟩, hb⟩

/-! ### Counters -/

lemma counter_of_lt {n : Nat} (h : n < UInt32.size) : counter n = n := Nat.mod_eq_of_lt h

/-- Every finding has one of the three severities. -/
lemma sum_countP_severity (findings : List Finding) :
    findings.countP (·.severity = .info) + findings.countP (·.severity = .warning) +
      findings.countP (·.severity = .error) = findings.length := by
  induction findings with
  | nil => rfl
  | cons f findings ih =>
    simp only [List.countP_cons, List.length_cons, ← ih]
    cases f.severity <;> simp <;> omega

lemma sum_counts (h : findings.length < UInt32.size) :
    (SeverityCounts.of findings).info + (SeverityCounts.of findings).warning +
      (SeverityCounts.of findings).error = findings.length := by
  have hcount : ∀ s, countSeverity findings s = findings.countP (·.severity = s) :=
    fun s => counter_of_lt (List.countP_le_length.trans_lt h)
  simp only [SeverityCounts.of, hcount, sum_countP_severity]

lemma sum_violations (h : (evaluate policy outcomes).findings.length < UInt32.size) :
    ((evaluate policy outcomes).summary.assemblies.map (·.violations)).sum =
      (evaluate policy outcomes).findings.length := by
  have hlength := (findings_perm policy outcomes).length_eq
  rw [List.length_flatMap] at hlength
  rw [((assemblies_perm policy outcomes).map _).sum_eq, hlength, List.map_map]
  refine congrArg List.sum (List.map_congr_left fun o ho => counter_of_lt ?_)
  refine lt_of_le_of_lt ?_ (hlength ▸ h)
  exact List.le_sum_of_mem (List.mem_map_of_mem ho)

/-! ### Agreement -/

/-- A file that was not checked, since it holds no metadata that can be used. -/
def FileOutcome.Unchecked (o : FileOutcome) : Prop :=
  (∃ assembly error, o.result = .malformed assembly error) ∨ ∃ error, o.result = .unreadable error

/-- Such a file has one finding, which is an error. -/
lemma FileOutcome.Unchecked.exists_finding (h : o.Unchecked) (limits : WalkLimits) :
    ∃ f, o.findings limits = [f] ∧ f.severity = .error := by
  obtain ⟨path, result⟩ := o
  rcases h with ⟨assembly, error, rfl⟩ | ⟨error, rfl⟩
  · exact ⟨_, rfl, rfl⟩
  · exact ⟨_, rfl, rfl⟩

/-- The verdict, the verdicts on files and the counters of an evaluation agree. -/
structure Evaluation.Consistent (policy : Policy) (outcomes : List FileOutcome) (e : Evaluation) :
    Prop where
  fail : e.verdict = .fail ↔ ∃ v ∈ e.summary.assemblies, v.accepted = false
  exitCode : e.verdict.exitCode = 2 ↔ ∃ v ∈ e.summary.assemblies, v.accepted = false
  pass : e.verdict = .pass ↔ ∀ f ∈ e.findings, f.severity ≠ .error ∧ f.severity ≠ .warning
  warn : e.verdict = .warn ↔ (∀ v ∈ e.summary.assemblies, v.accepted = true) ∧
    ∃ f ∈ e.findings, f.severity = .error ∨ f.severity = .warning
  /-- Without a file that was not checked there is one finding less, and one rejected file less. -/
  unchecked : ∀ before o after, outcomes = before ++ o :: after → o.Unchecked →
    ∃ f, o.findings policy.limits = [f] ∧ (o.verdict policy).accepted = false ∧
      e.findings.Perm (f :: (evaluate policy (before ++ after)).findings) ∧
      e.summary.assemblies.Perm
        (o.verdict policy :: (evaluate policy (before ++ after)).summary.assemblies)
  entries : e.summary.assemblies.length = outcomes.length
  scanned : outcomes.length < UInt32.size → e.summary.assembliesScanned = outcomes.length
  rejected : outcomes.length < UInt32.size →
    e.summary.assembliesRejected = e.summary.assemblies.countP (·.accepted = false)
  total : e.findings.length < UInt32.size → e.summary.findingsTotal = e.findings.length
  violations : e.findings.length < UInt32.size →
    (e.summary.assemblies.map (·.violations)).sum = e.findings.length
  counts : e.findings.length < UInt32.size →
    e.counts.info + e.counts.warning + e.counts.error = e.findings.length

lemma assembliesRejected_eq (h : outcomes.length < UInt32.size) :
    (evaluate policy outcomes).summary.assembliesRejected =
      (evaluate policy outcomes).summary.assemblies.countP (·.accepted = false) := by
  have hle : (outcomes.map (·.verdict policy)).countP (!·.accepted) ≤ outcomes.length :=
    List.countP_le_length.trans_eq (List.length_map _)
  rw [(assemblies_perm policy outcomes).countP_eq]
  refine (counter_of_lt (hle.trans_lt h)).trans (List.countP_congr fun v _ => ?_)
  simp

theorem evaluate_consistent (policy : Policy) (outcomes : List FileOutcome) :
    (evaluate policy outcomes).Consistent policy outcomes := by
  have hlength : (evaluate policy outcomes).summary.assemblies.length = outcomes.length := by
    rw [(assemblies_perm policy outcomes).length_eq, List.length_map]
  have hfail : (evaluate policy outcomes).verdict = .fail ↔
      ∃ v ∈ (evaluate policy outcomes).summary.assemblies, v.accepted = false := by
    simp only [verdict_evaluate_eq_fail_iff, mem_assemblies_iff, exists_exists_and_eq_and]
  have hpass : (evaluate policy outcomes).verdict = .pass ↔
      ∀ f ∈ (evaluate policy outcomes).findings, f.severity ≠ .error ∧ f.severity ≠ .warning :=
    verdictOf_eq_pass_iff
  have hexit : ∀ v : Verdict, v.exitCode = 2 ↔ v = .fail := by
    intro v
    cases v <;> decide
  have hwarn : ∀ v : Verdict, v = .warn ↔ v ≠ .fail ∧ v ≠ .pass := by
    intro v
    cases v <;> decide
  exact
    { fail := hfail
      exitCode := (hexit _).trans hfail
      pass := hpass
      warn := by
        rw [hwarn, ne_eq, ne_eq, hfail, hpass]
        simp [imp_iff_not_or]
      unchecked := by
        rintro before o after rfl ho
        obtain ⟨f, hf, hs⟩ := ho.exists_finding policy.limits
        refine ⟨f, hf, ?_, ?_, assemblies_insert_perm policy before after o⟩
        · rw [FileOutcome.accepted_eq_false_iff, hf]
          exact ⟨f, List.mem_singleton_self f, Severity.isBlocking_iff.mpr (.inl hs)⟩
        · simpa [hf] using findings_insert_perm policy before after o
      entries := hlength
      scanned := counter_of_lt
      rejected := assembliesRejected_eq
      total := counter_of_lt
      violations := sum_violations
      counts := sum_counts }

/-! ### A warning and a broken file -/

namespace MixedRun

def discouraged : Violation :=
  ⟨"discouraged", "A::Run()", .prohibited, "restriction.member", "member", "X::Y", .warning, "Mod"⟩

def checked : FileOutcome := ⟨⟨"Mod.json"⟩, .verified "Mod" ⟨[discouraged], [], 1, 1, 1⟩⟩

def broken : FileOutcome := ⟨⟨"Broken.json"⟩, .unreadable "not an assembly snapshot"⟩

/-- The warning rejects no file, the broken file is rejected, and each has one finding. -/
theorem consistent_checked_broken :
    (evaluate .empty [checked, broken]).verdict = .fail ∧
      (evaluate .empty [checked]).verdict = .warn ∧
      ((evaluate .empty [checked, broken]).summary.assemblies.map (·.violations)).sum = 2 := by
  have hall := evaluate_consistent .empty [checked, broken]
  have hchecked := evaluate_consistent .empty [checked]
  have hlength : (evaluate .empty [checked, broken]).findings.length = 2 :=
    (findings_perm .empty [checked, broken]).length_eq
  refine ⟨?_, ?_, ?_⟩
  · exact hall.fail.mpr ⟨broken.verdict .empty, mem_assemblies_iff.mpr ⟨broken, by simp, rfl⟩, rfl⟩
  · refine hchecked.warn.mpr ⟨fun v hv => ?_, discouraged.finding checked.path, ?_, .inr rfl⟩
    · obtain ⟨o, ho, rfl⟩ := mem_assemblies_iff.mp hv
      obtain rfl := List.mem_singleton.mp ho
      rfl
    · exact mem_findings_iff.mpr ⟨checked, List.mem_singleton_self _, List.mem_singleton_self _⟩
  · rw [hall.violations (hlength ▸ by decide), hlength]

end MixedRun

end AssemblyPolicy
