import AssemblyPolicy.Proofs.Report.Evaluation
import AssemblyPolicy.Proofs.Report.Order

/-!
# Composing evaluations

Files are judged independently. When the outcomes for two sets of files without a common path are
taken in turn, the evaluation of them all is that of the two sets put together, and each path is
reported as if there were no other (`evaluate_composes`).
-/

namespace AssemblyPolicy

/-! ### Taking turns -/

/-- The third list takes its elements from the first two in turn, in their order. -/
inductive Interleaving {α : Type} : List α → List α → List α → Prop
  | nil : Interleaving [] [] []
  | left {xs ys zs : List α} (x : α) (h : Interleaving xs ys zs) :
      Interleaving (x :: xs) ys (x :: zs)
  | right {xs ys zs : List α} (y : α) (h : Interleaving xs ys zs) :
      Interleaving xs (y :: ys) (y :: zs)

namespace Interleaving

variable {α : Type} {xs ys zs : List α}

lemma symm (h : Interleaving xs ys zs) : Interleaving ys xs zs := by
  induction h with
  | nil => exact .nil
  | left x _ ih => exact .right x ih
  | right y _ ih => exact .left y ih

lemma perm (h : Interleaving xs ys zs) : zs.Perm (xs ++ ys) := by
  induction h with
  | nil => exact .nil
  | left x _ ih => exact ih.cons x
  | right y _ ih => exact (ih.cons y).trans List.perm_middle.symm

/-- What holds for no element of the second list selects elements of the first. -/
lemma filter_eq {p : α → Bool} (h : Interleaving xs ys zs) (hy : ∀ y ∈ ys, p y = false) :
    zs.filter p = xs.filter p := by
  induction h with
  | nil => rfl
  | left x _ ih => rw [List.filter_cons, List.filter_cons, ih hy]
  | right y _ ih =>
    have hrest := ih fun y hy' => hy y (List.mem_cons_of_mem _ hy')
    rw [List.filter_cons_of_neg (by simp [hy y List.mem_cons_self]), hrest]

end Interleaving

/-! ### Verdicts -/

/-- Verdicts from good to bad. -/
def Verdict.rank : Verdict → Nat
  | pass => 0
  | warn => 1
  | fail => 2

lemma rank_verdictOf_append (failOn : FailOn) (findings findings' : List Finding) :
    (verdictOf failOn (findings ++ findings')).rank =
      max (verdictOf failOn findings).rank (verdictOf failOn findings').rank := by
  simp only [verdictOf, List.any_append]
  cases findings.any (·.severity = .error) <;> cases findings'.any (·.severity = .error) <;>
    cases findings.any (·.severity = .warning) <;> cases findings'.any (·.severity = .warning) <;>
    cases failOn <;> rfl

lemma verdictOf_eq_of_perm {failOn : FailOn} {findings findings' : List Finding}
    (h : findings.Perm findings') : verdictOf failOn findings = verdictOf failOn findings' := by
  simp only [verdictOf, h.any_eq]

/-! ### Counters -/

/-- The counters of an evaluation. -/
def Evaluation.counters : List (Evaluation → Nat) :=
  [(·.summary.assembliesScanned), (·.summary.assembliesRejected), (·.summary.typesScanned),
    (·.summary.membersScanned), (·.summary.restrictionsEvaluated), (·.summary.findingsTotal),
    (·.counts.info), (·.counts.warning), (·.counts.error)]

lemma total_eq (outcomes : List FileOutcome) (of : Sweep → Nat) :
    total outcomes of = counter (outcomes.map (·.count of)).sum := by
  rw [total, List.sum_eq_foldr, List.foldr_map]

lemma countSeverity_evaluate (policy : Policy) (outcomes : List FileOutcome) (s : Severity) :
    countSeverity (evaluate policy outcomes).findings s = counter
      (outcomes.map fun o => (o.findings policy.limits).countP (·.severity = s)).sum := by
  rw [countSeverity, (findings_perm policy outcomes).countP_eq, List.countP_flatMap]
  rfl

/-- Each counter sums up something about the single files. -/
lemma exists_sum_of_mem_counters (policy : Policy) {c : Evaluation → Nat}
    (hc : c ∈ Evaluation.counters) : ∃ of : FileOutcome → Nat, ∀ outcomes,
      c (evaluate policy outcomes) = counter (outcomes.map of).sum := by
  simp only [Evaluation.counters, List.mem_cons, List.not_mem_nil, or_false] at hc
  rcases hc with rfl | rfl | rfl | rfl | rfl | rfl | rfl | rfl | rfl
  · exact ⟨fun _ => 1, fun outcomes => by simp [evaluate]⟩
  · refine ⟨fun o => [o.verdict policy].countP (!·.accepted), fun outcomes => ?_⟩
    show counter ((outcomes.map (·.verdict policy)).countP (!·.accepted)) = _
    rw [List.map_eq_flatMap, List.countP_flatMap]
    rfl
  · exact ⟨_, fun outcomes => total_eq outcomes _⟩
  · exact ⟨_, fun outcomes => total_eq outcomes _⟩
  · exact ⟨_, fun outcomes => total_eq outcomes _⟩
  · refine ⟨fun o => (o.findings policy.limits).length, fun outcomes => ?_⟩
    show counter (evaluate policy outcomes).findings.length = _
    rw [(findings_perm policy outcomes).length_eq, List.length_flatMap]
  · exact ⟨_, fun outcomes => countSeverity_evaluate policy outcomes .info⟩
  · exact ⟨_, fun outcomes => countSeverity_evaluate policy outcomes .warning⟩
  · exact ⟨_, fun outcomes => countSeverity_evaluate policy outcomes .error⟩

/-- A counter that does not overflow is not changed by an overflow of its parts. -/
lemma counter_add_eq {m n : Nat} (h : counter m + counter n < UInt32.size) :
    counter (m + n) = counter m + counter n := by
  rw [counter, Nat.add_mod]
  exact Nat.mod_eq_of_lt h

/-! ### The report on one path -/

/-- The findings at a path. -/
def Evaluation.findingsAt (e : Evaluation) (p : ArtifactPath) : List Finding :=
  e.findings.filter (·.location.map (·.path) = some p)

/-- The verdicts on the files at a path. -/
def Evaluation.entriesAt (e : Evaluation) (p : ArtifactPath) : List AssemblyVerdict :=
  e.summary.assemblies.filter (·.path = p)

variable {policy : Policy} {xs ys zs : List FileOutcome} {o : FileOutcome} {f : Finding}

lemma FileOutcome.path_of_mem_findings {limits : WalkLimits} (h : f ∈ o.findings limits) :
    f.location.map (·.path) = some o.path := by
  rw [findings] at h
  split at h
  · rcases List.mem_append.mp h with hv | hi
    · obtain ⟨v, -, rfl⟩ := List.mem_map.mp hv
      rfl
    · obtain ⟨i, -, rfl⟩ := List.mem_map.mp hi
      rfl
  · obtain rfl := List.mem_singleton.mp h
    rfl
  · obtain rfl := List.mem_singleton.mp h
    rfl

lemma FileOutcome.pathKey_of_mem_findings {limits : WalkLimits} (h : f ∈ o.findings limits) :
    f.pathKey = o.path.text := by
  obtain ⟨location, hlocation, hpath⟩ := Option.map_eq_some_iff.mp (path_of_mem_findings h)
  rw [Finding.pathKey, hlocation, ← hpath]
  rfl

lemma findings_evaluate (policy : Policy) (outcomes : List FileOutcome) :
    (evaluate policy outcomes).findings =
      (outcomes.flatMap (·.findings policy.limits)).mergeSort fun a b => (a.compare b).isLE := rfl

lemma assemblies_evaluate (policy : Policy) (outcomes : List FileOutcome) :
    (evaluate policy outcomes).summary.assemblies =
      (outcomes.flatMap fun o => [o.verdict policy]).mergeSort fun a b => (a.compare b).isLE := by
  rw [← List.map_eq_flatMap]
  rfl

/-- The findings at a path are those of the files at the path, in the same order. -/
lemma findingsAt_evaluate (policy : Policy) (outcomes : List FileOutcome) (p : ArtifactPath) :
    (evaluate policy outcomes).findingsAt p =
      (evaluate policy (outcomes.filter (·.path = p))).findings := by
  rw [Evaluation.findingsAt, findings_evaluate, findings_evaluate, filter_mergeSort]
  refine congrArg (List.mergeSort · _) (filter_flatMap_key fun o _ f hf => ?_)
  rw [FileOutcome.path_of_mem_findings hf]
  simp

lemma entriesAt_evaluate (policy : Policy) (outcomes : List FileOutcome) (p : ArtifactPath) :
    (evaluate policy outcomes).entriesAt p =
      (evaluate policy (outcomes.filter (·.path = p))).summary.assemblies := by
  rw [Evaluation.entriesAt, assemblies_evaluate, assemblies_evaluate, filter_mergeSort]
  refine congrArg (List.mergeSort · _) (filter_flatMap_key fun o _ v hv => ?_)
  obtain rfl := List.mem_singleton.mp hv
  exact decide_eq_true_iff

/-! ### The order of the files -/

lemma findings_eq_of_perm (policy : Policy) (h : xs.Perm ys) (hnodup : (xs.map (·.path)).Nodup) :
    (evaluate policy xs).findings = (evaluate policy ys).findings := by
  rw [findings_evaluate, findings_evaluate]
  refine mergeSort_flatMap_eq_of_perm Finding.compare h hnodup ?_
  intro o _ f hf o' _ f' hf' heq
  have hkey := Finding.pathKey_eq_of_compare_eq heq
  rw [FileOutcome.pathKey_of_mem_findings hf, FileOutcome.pathKey_of_mem_findings hf'] at hkey
  exact ArtifactPath.ext hkey.symm

lemma assemblies_eq_of_perm (policy : Policy) (h : xs.Perm ys) (hnodup : (xs.map (·.path)).Nodup) :
    (evaluate policy xs).summary.assemblies = (evaluate policy ys).summary.assemblies := by
  rw [assemblies_evaluate, assemblies_evaluate]
  refine mergeSort_flatMap_eq_of_perm AssemblyVerdict.compare h hnodup ?_
  intro o _ v hv o' _ v' hv' heq
  obtain rfl := List.mem_singleton.mp hv
  obtain rfl := List.mem_singleton.mp hv'
  exact (AssemblyVerdict.path_eq_of_compare_eq heq).symm

lemma evaluate_eq_of_perm (policy : Policy) (h : xs.Perm ys) (hnodup : (xs.map (·.path)).Nodup) :
    evaluate policy xs = evaluate policy ys := by
  have hfindings := findings_eq_of_perm policy h hnodup
  have hassemblies := assemblies_eq_of_perm policy h hnodup
  have hcounters : ∀ c ∈ Evaluation.counters, c (evaluate policy xs) = c (evaluate policy ys) := by
    intro c hc
    obtain ⟨of, hof⟩ := exists_sum_of_mem_counters policy hc
    rw [hof, hof, (h.map of).sum_eq]
  simp only [Evaluation.counters, List.forall_mem_cons] at hcounters
  simp only [evaluate] at hfindings hassemblies hcounters ⊢
  simp only [hfindings, hassemblies, hcounters]

/-! ### Composition -/

/-- How the evaluation of outcomes taken in turn from two lists is composed. -/
structure Evaluation.Composes (policy : Policy) (xs ys zs : List FileOutcome) : Prop where
  /-- The verdict is the worse of the two. -/
  verdict : (evaluate policy zs).verdict.rank =
    max (evaluate policy xs).verdict.rank (evaluate policy ys).verdict.rank
  counters : ∀ c ∈ Evaluation.counters,
    c (evaluate policy xs) + c (evaluate policy ys) < UInt32.size →
      c (evaluate policy zs) = c (evaluate policy xs) + c (evaluate policy ys)
  /-- What is reported on a path is what its files alone come to. -/
  findings : ∀ p, (evaluate policy zs).findingsAt p =
    (evaluate policy (zs.filter (·.path = p))).findings
  entries : ∀ p, (evaluate policy zs).entriesAt p =
    (evaluate policy (zs.filter (·.path = p))).summary.assemblies
  /-- The files of one list do not change what is reported on those of the other. -/
  left : ∀ x ∈ xs, (evaluate policy zs).findingsAt x.path = (evaluate policy xs).findingsAt x.path ∧
    (evaluate policy zs).entriesAt x.path = (evaluate policy xs).entriesAt x.path
  right : ∀ y ∈ ys, (evaluate policy zs).findingsAt y.path = (evaluate policy ys).findingsAt y.path ∧
    (evaluate policy zs).entriesAt y.path = (evaluate policy ys).entriesAt y.path
  order : (zs.map (·.path)).Nodup → ∀ zs', zs.Perm zs' → evaluate policy zs' = evaluate policy zs

lemma rank_verdict_of_perm_append (policy : Policy) (h : zs.Perm (xs ++ ys)) :
    (evaluate policy zs).verdict.rank =
      max (evaluate policy xs).verdict.rank (evaluate policy ys).verdict.rank := by
  have hverdict : ∀ outcomes, (evaluate policy outcomes).verdict =
      verdictOf policy.failOn (outcomes.flatMap (·.findings policy.limits)) :=
    fun outcomes => verdictOf_eq_of_perm (findings_perm policy outcomes)
  rw [hverdict, hverdict, hverdict, ← rank_verdictOf_append, ← List.flatMap_append]
  exact congrArg _ (verdictOf_eq_of_perm (h.flatMap_right _))

lemma counter_of_perm_append {c : Evaluation → Nat} (hc : c ∈ Evaluation.counters)
    (h : zs.Perm (xs ++ ys))
    (hlt : c (evaluate policy xs) + c (evaluate policy ys) < UInt32.size) :
    c (evaluate policy zs) = c (evaluate policy xs) + c (evaluate policy ys) := by
  obtain ⟨of, hof⟩ := exists_sum_of_mem_counters policy hc
  rw [hof, hof] at hlt
  rw [hof, hof, hof, (h.map of).sum_eq, List.map_append, List.sum_append, counter_add_eq hlt]

/-- On a path of the first list, only files of the first list are reported. -/
lemma report_at_left (h : Interleaving xs ys zs) {p : ArtifactPath} (hp : ∀ y ∈ ys, p ≠ y.path) :
    (evaluate policy zs).findingsAt p = (evaluate policy xs).findingsAt p ∧
      (evaluate policy zs).entriesAt p = (evaluate policy xs).entriesAt p := by
  have hfilter : zs.filter (·.path = p) = xs.filter (·.path = p) :=
    h.filter_eq fun y hy => decide_eq_false (hp y hy).symm
  rw [findingsAt_evaluate, findingsAt_evaluate, entriesAt_evaluate, entriesAt_evaluate, hfilter]
  exact ⟨rfl, rfl⟩

theorem evaluate_composes (policy : Policy) (h : Interleaving xs ys zs)
    (hdisjoint : ∀ x ∈ xs, ∀ y ∈ ys, x.path ≠ y.path) : Evaluation.Composes policy xs ys zs where
  verdict := rank_verdict_of_perm_append policy h.perm
  counters := fun _ hc hlt => counter_of_perm_append hc h.perm hlt
  findings := findingsAt_evaluate policy zs
  entries := entriesAt_evaluate policy zs
  left := fun x hx => report_at_left h (hdisjoint x hx)
  right := fun y hy => report_at_left h.symm fun x hx => (hdisjoint x hx y hy).symm
  order := fun hnodup _ hperm => (evaluate_eq_of_perm policy hperm hnodup).symm

/-! ### A broken file among others -/

namespace MixedRun

def clean : FileOutcome := ⟨⟨"Clean.json"⟩, .verified "Clean" ⟨[], [], 1, 2, 3⟩⟩

/-- The broken file fails the run and changes neither the findings of the others nor the counts. -/
theorem composes_with_broken :
    (evaluate .empty [checked, broken, clean]).verdict.rank = 2 ∧
      (evaluate .empty [checked, broken, clean]).findingsAt checked.path =
        [discouraged.finding checked.path] ∧
      (evaluate .empty [clean, checked, broken]) = evaluate .empty [checked, broken, clean] ∧
      (evaluate .empty [checked, broken, clean]).summary.membersScanned = 3 := by
  have hinterleaving : Interleaving [checked, clean] [broken] [checked, broken, clean] :=
    .left _ (.right _ (.left _ .nil))
  have hcomposes := evaluate_composes .empty hinterleaving (by decide)
  refine ⟨?_, ?_, ?_, ?_⟩
  · have hfail : (evaluate .empty [broken]).verdict = .fail :=
      verdict_evaluate_eq_fail_iff.mpr ⟨broken, List.mem_singleton_self _, rfl⟩
    rw [hcomposes.verdict, hfail]
    cases (evaluate .empty [checked, clean]).verdict <;> rfl
  · rw [hcomposes.findings]
    exact List.mergeSort_singleton _
  · have hperm : [checked, broken, clean].Perm [clean, checked, broken] :=
      @List.perm_append_comm _ [checked, broken] [clean]
    exact hcomposes.order (by decide) _ hperm
  · exact hcomposes.counters (·.summary.membersScanned) (by simp [Evaluation.counters]) (by decide)

end MixedRun

end AssemblyPolicy
