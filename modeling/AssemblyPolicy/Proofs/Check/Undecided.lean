import AssemblyPolicy.Proofs.Check.Agreement
import AssemblyPolicy.Proofs.Metadata.WellFormed
import AssemblyPolicy.Proofs.Walk.Turn
import Mathlib

/-!
# Undecided checks

A walk that hits a limit does not know whether its target is present. Whatever the restriction asks
for and however severe it is, such a check lets no assembly pass (`undecided_fails_closed`): the sweep
records it, every report on the sweep rejects the file, and the check of the file alone gives no list
of violations.
-/

namespace AssemblyPolicy

variable {a : AssemblyModel} {policy : Policy} {refs s : AssemblySet} {m : MethodRef}
  {r : Restriction} {t : FileTree} {p : Path} {sweep : Sweep} {i : Inconclusive}
  {outcomes : List FileOutcome} {o : FileOutcome} {name text : String}

/-- A check of an assembly that is not decided: the restriction applies to the method, and the walk
through what it calls hits a limit. -/
structure AssemblyModel.Undecided (a : AssemblyModel) (policy : Policy) (s : AssemblySet)
    (m : MethodRef) (r : Restriction) : Prop where
  pair : (.method m, r) ∈ a.pairs policy
  applies : r.appliesTo s (.method m) = true
  truncated : presenceInCalls (r.pattern s) policy s m = .truncated

/-! ### The sweep -/

namespace AssemblyModel.Undecided

/-- Neither mode turns a limit into an answer. -/
lemma verify_eq (h : a.Undecided policy s m r) :
    r.verify policy s (.method m) = .inconclusive := by
  rw [Restriction.verify_eq_judge h.applies, Restriction.presence, h.truncated, Restriction.judge]

lemma mem_checks (h : a.Undecided policy s m r) :
    ⟨.method m, r, .inconclusive⟩ ∈ a.checks policy s :=
  h.verify_eq ▸ List.mem_map.mpr ⟨_, h.pair, rfl⟩

lemma mem_inconclusive (h : a.Undecided policy s m r) :
    .of r (.method m) a.name ∈ (a.sweep policy s).inconclusive :=
  List.mem_filterMap.mpr ⟨_, h.mem_checks, rfl⟩

end AssemblyModel.Undecided

/-! ### Reports -/

/-- A report rejects a file, with an entry for the file and the assembly in it. -/
structure Evaluation.Rejects (e : Evaluation) (policy : Policy) (o : FileOutcome) : Prop where
  entry : o.verdict policy ∈ e.summary.assemblies
  path : (o.verdict policy).path = o.path
  assembly : ∀ name sweep, o.result = .verified name sweep →
    (o.verdict policy).assembly = some name
  rejected : (o.verdict policy).accepted = false
  fail : e.verdict = .fail

/-- An undecided check has a finding, which is an error and so rejects the file. -/
lemma rejects_of_inconclusive (ho : o ∈ outcomes) (hresult : o.result = .verified name sweep)
    (hi : i ∈ sweep.inconclusive) (policy : Policy) :
    i.finding o.path policy.limits ∈ (evaluate policy outcomes).findings ∧
      (evaluate policy outcomes).Rejects policy o := by
  have hfinding : i.finding o.path policy.limits ∈ o.findings policy.limits :=
    (FileOutcome.mem_findings_of_verified hresult).mpr (.inr ⟨i, hi, rfl⟩)
  have hrejected : (o.verdict policy).accepted = false :=
    FileOutcome.accepted_eq_false_iff.mpr ⟨_, hfinding, Severity.isBlocking_iff.mpr (.inl rfl)⟩
  refine ⟨mem_findings_iff.mpr ⟨o, ho, hfinding⟩, ?_, rfl, ?_, hrejected, ?_⟩
  · exact mem_assemblies_iff.mpr ⟨o, ho, rfl⟩
  · intro name sweep hverified
    simp only [FileOutcome.verdict, FileOutcome.assembly?, hverified]
  · exact verdict_evaluate_eq_fail_iff.mpr ⟨o, ho, hrejected⟩

/-! ### The check of one file -/

lemma Sweep.exists_conclude_eq_undecided (hi : i ∈ sweep.inconclusive) :
    ∃ first ∈ sweep.inconclusive,
      sweep.conclude p = .error (.undecided p sweep.inconclusive.length first) := by
  unfold conclude
  split
  · rename_i hnone
    rw [hnone] at hi
    cases hi
  · rename_i first rest hsome
    exact ⟨first, hsome ▸ List.mem_cons_self, rfl⟩

lemma FileTree.loadAssembly_eq_accept (ht : t.readText p = .ok text)
    (hdecode : AssemblyModel.decode.ofText text = .ok a) :
    t.loadAssembly p = a.accept.mapError .rejected := by
  simp only [loadAssembly, ht, AssemblyModel.ofSnapshot_eq_accept hdecode]

/-- No violations are given for a file when a check of its assembly is undecided. -/
lemma FileTree.verify_ne_verified (hload : t.loadAssembly p = a.accept.mapError .rejected)
    (hi : i ∈ (a.sweepWith policy refs).inconclusive) (violations : List Violation) :
    t.verify policy refs p ≠ .ok (.verified violations) := by
  unfold verify
  rw [hload]
  cases haccept : a.accept with
  | ok b =>
    -- What is accepted is the assembly itself, so its sweep is the one with the undecided check.
    obtain rfl := (AssemblyModel.accept_eq_ok_iff.mp haccept).1
    obtain ⟨first, -, h⟩ := Sweep.exists_conclude_eq_undecided (p := p) hi
    simp [Except.mapError, h]
  | error e =>
    simp only [Except.mapError]
    split <;> simp

/-- A check that is undecided is recorded as such, and the assembly is neither accepted in a report
with any policy nor verified alone. -/
theorem undecided_fails_closed (h : a.Undecided policy (refs.insert a) m r) :
    ⟨.method m, r, .inconclusive⟩ ∈ a.checks policy (refs.insert a) ∧
      .of r (.method m) a.name ∈ (a.sweepWith policy refs).inconclusive ∧
      (∀ policy' outcomes o name, o ∈ outcomes →
        o.result = .verified name (a.sweepWith policy refs) →
          (Inconclusive.of r (.method m) a.name).finding o.path policy'.limits ∈
              (evaluate policy' outcomes).findings ∧
            (evaluate policy' outcomes).Rejects policy' o) ∧
      ∀ (t : FileTree) p text, t.readText p = .ok text →
        AssemblyModel.decode.ofText text = .ok a →
          (∀ violations, t.verify policy refs p ≠ .ok (.verified violations)) ∧
          (a.accept = .ok a → ∃ first ∈ (a.sweepWith policy refs).inconclusive,
            t.verify policy refs p =
              .error (.undecided p (a.sweepWith policy refs).inconclusive.length first)) := by
  have hi := h.mem_inconclusive
  refine ⟨h.mem_checks, hi, fun policy' outcomes o name ho hresult => ?_,
    fun t p text ht hdecode => ?_⟩
  · exact rejects_of_inconclusive ho hresult hi policy'
  · have hload := FileTree.loadAssembly_eq_accept ht hdecode
    refine ⟨FileTree.verify_ne_verified hload hi, fun haccept => ?_⟩
    obtain ⟨first, hfirst, hconclude⟩ := Sweep.exists_conclude_eq_undecided (p := p) hi
    refine ⟨first, hfirst, ?_⟩
    rw [FileTree.verify, hload, haccept]
    exact hconclude

/-! ### A call beyond the limits -/

namespace LongCall

open SingleFile (tree file readText_tree)

def owner : TypeRef := ⟨"Mod", "", "Plugin"⟩

def run : MethodRef := ⟨owner, "Run", ""⟩

def next : MethodRef := ⟨owner, "Next", ""⟩

/-- An assembly with a method that calls another one. -/
def loaded : AssemblyModel :=
  ⟨none, "Mod", [⟨"", "Plugin", none, [], [],
    [⟨"Run", "", some ⟨[], [⟨0, "call", some (.method next)⟩]⟩⟩, ⟨"Next", "", some ⟨[], []⟩⟩]⟩]⟩

/-- Its snapshot, each record as an array of its fields. -/
def snapshot : String :=
  "[null,\"Mod\",[[\"\",\"Plugin\",null,[],[],[[\"Run\",\"\",[[],[[0,\"call\",[\"method\"," ++
    "[\"Mod\",\"\",\"Plugin\"],\"Next\",\"\"]]]]],[\"Next\",\"\",[[],[]]]]]]]"

/-- A restriction that rejects no file by its severity. -/
def needsFile : Restriction := ⟨.type ⟨"", "File"⟩, "use files", none, .required, .info⟩

/-- Only the method where a walk starts may be entered. -/
def shallow : Policy := { Policy.empty with restrictions := [needsFile], limits := ⟨1, 10⟩ }

/-- The call is reached, but the method is not entered. -/
lemma undecided_run :
    loaded.Undecided shallow (AssemblySet.empty.insert loaded) run needsFile where
  pair := List.mem_cons_self
  applies := rfl
  truncated := Walk.search_eq_of_searchWithin (n := 3) rfl

lemma decode_snapshot : AssemblyModel.decode.ofText snapshot = .ok loaded := by
  cbv

lemma accept_loaded : loaded.accept = .ok loaded := rfl

/-- A required use whose absence would only be noted: the file is rejected all the same, whichever
findings count, and its check alone is an error. -/
theorem fails_closed_run :
    (∀ failOn, (evaluate { shallow with failOn } [⟨⟨"Mod.json"⟩,
        .verified "Mod" (loaded.sweepWith shallow .empty)⟩]).verdict = .fail) ∧
      (∀ violations, (tree snapshot).verify shallow .empty file ≠ .ok (.verified violations)) ∧
      ∃ x, (tree snapshot).verify shallow .empty file = .error x := by
  obtain ⟨-, -, hreport, hfile⟩ := undecided_fails_closed undecided_run
  obtain ⟨hverify, herror⟩ :=
    hfile (tree snapshot) file snapshot (readText_tree snapshot) decode_snapshot
  refine ⟨fun failOn => ?_, hverify, ?_⟩
  · exact (hreport _ _ _ _ (List.mem_singleton_self _) rfl).2.fail
  · obtain ⟨first, -, h⟩ := herror accept_loaded
    exact ⟨_, h⟩

end LongCall

end AssemblyPolicy
