import AssemblyPolicy.Check.Basic
import AssemblyPolicy.Proofs.Json.Members
import AssemblyPolicy.Proofs.Report.Evaluation
import AssemblyPolicy.Proofs.Verification.Coverage
import AssemblyPolicy.Proofs.Verification.DirectUse
import Mathlib

/-!
# Checking one file and reporting on it

`FileTree.verify` answers for one file, and `evaluate` reports on the outcomes for several. A
`FileTree.Course` is what the two make of the same file, and `FileTree.agrees` says in what the
answer and a report on that file alone agree. Only the report looks at severities.
-/

namespace AssemblyPolicy

variable {t : FileTree} {w : Json.Wording} {policy : Policy} {refs : AssemblySet} {p : Path}
  {limits : WalkLimits} {o : FileOutcome} {answer : Except VerificationError Verification}
  {result : FileResult}

/-! ### The same file -/

/-- What is wrong with the content of a snapshot is not worded in different ways. -/
lemma LoadError.complaint_eq_of_isMalformed {e : LoadError} (h : e.isMalformed = true)
    (w w' : Json.Wording) : e.complaint w = e.complaint w' := by
  cases e with
  | unreadable p e => cases h
  | rejected e => cases e with
    | undecodable e => cases h
    | unsupportedSchema schema => rfl
    | defective assembly d => rfl

/-- How the check of a file can go: the answer about it alone, and its result among others. -/
inductive FileTree.Course (policy : Policy) (refs : AssemblySet) (p : Path) :
    Except VerificationError Verification → FileResult → Prop where
  | verified (a : AssemblyModel) : Course policy refs p ((a.sweepWith policy refs).conclude p)
      (.verified a.name (a.sweepWith policy refs))
  | malformed (assembly : Option String) (error : String) :
      Course policy refs p (.ok (.malformed error)) (.malformed assembly error)
  | unreadable (e : LoadError) (error : String) :
      Course policy refs p (.error (.unreadable p e)) (.unreadable error)

theorem FileTree.course (t : FileTree) (w : Json.Wording) (policy : Policy) (refs : AssemblySet)
    (p : Path) :
    Course policy refs p (t.verify policy refs p) (t.outcome w policy refs p).result := by
  unfold verify outcome
  cases t.loadAssembly p with
  | ok a => exact .verified a
  | error e =>
    by_cases h : e.isMalformed = true
    · simp only [if_pos h, e.complaint_eq_of_isMalformed h .brief w]
      exact .malformed _ _
    · simp only [if_neg h]
      exact .unreadable e _

namespace Sweep

variable {sweep : Sweep}

lemma conclude_eq_ok_iff {v : Verification} : sweep.conclude p = .ok v ↔
    sweep.inconclusive = [] ∧ v = .verified sweep.violations := by
  unfold conclude
  split
  · simp [*, eq_comm]
  · simp [*]

lemma exists_conclude_eq_error_iff :
    (∃ x, sweep.conclude p = .error x) ↔ sweep.inconclusive ≠ [] := by
  unfold conclude
  split <;> simp [*]

end Sweep

namespace FileTree.Course

lemma eq_malformed_iff (h : Course policy refs p answer result) {error : String} :
    answer = .ok (.malformed error) ↔ ∃ assembly, result = .malformed assembly error := by
  cases h with
  | verified a => simp [Sweep.conclude_eq_ok_iff]
  | malformed assembly error => simp
  | unreadable e error => simp

lemma exists_eq_error_iff (h : Course policy refs p answer result) :
    (∃ x, answer = .error x) ↔ (∃ error, result = .unreadable error) ∨
      ∃ name sweep, result = .verified name sweep ∧ sweep.inconclusive ≠ [] := by
  cases h with
  | verified a => simp [Sweep.exists_conclude_eq_error_iff]
  | malformed assembly error => simp
  | unreadable e error => simp

lemma eq_clean_iff (h : Course policy refs p answer result) : answer = .ok (.verified []) ↔
    ∃ name sweep, result = .verified name sweep ∧
      sweep.violations = [] ∧ sweep.inconclusive = [] := by
  cases h with
  | verified a =>
    rw [Sweep.conclude_eq_ok_iff, Verification.verified.injEq]
    constructor
    · rintro ⟨hundecided, hviolations⟩
      exact ⟨_, _, rfl, hviolations.symm, hundecided⟩
    · rintro ⟨_, _, h, hviolations, hundecided⟩
      cases h
      exact ⟨hundecided, hviolations.symm⟩
  | malformed assembly error => simp
  | unreadable e error => simp

end FileTree.Course

/-! ### Findings in the file -/

lemma FileOutcome.findings_eq_nil_iff : o.findings limits = [] ↔
    ∃ name sweep, o.result = .verified name sweep ∧
      sweep.violations = [] ∧ sweep.inconclusive = [] := by
  unfold findings
  cases o.result <;> simp

lemma mem_findings_singleton_iff {f : Finding} :
    f ∈ (evaluate policy [o]).findings ↔ f ∈ o.findings policy.limits := by
  simp [mem_findings_iff]

lemma findings_evaluate_eq_nil_iff :
    (evaluate policy [o]).findings = [] ↔ o.findings policy.limits = [] := by
  simp [List.eq_nil_iff_forall_not_mem, mem_findings_singleton_iff]

/-- A file without findings is accepted. -/
lemma FileOutcome.accepted_of_findings_eq_nil (h : o.findings policy.limits = []) :
    (o.verdict policy).accepted = true := by
  simp [verdict, h]

/-- Findings of a file all of which are blocking reject it. -/
lemma FileOutcome.accepted_iff_of_blocking
    (h : ∀ f ∈ o.findings policy.limits, f.severity.isBlocking policy.failOn = true) :
    (o.verdict policy).accepted = true ↔ o.findings policy.limits = [] := by
  refine ⟨fun haccepted => List.eq_nil_iff_forall_not_mem.mpr fun f hf => ?_,
    accepted_of_findings_eq_nil⟩
  have hrejected := accepted_eq_false_iff.mpr ⟨f, hf, h f hf⟩
  rw [haccepted] at hrejected
  cases hrejected

/-- The code of malformed files is that of no other finding. -/
lemma FileOutcome.eq_malformed_of_code {f : Finding} (hf : f ∈ o.findings limits)
    (hcode : f.code = "malformed_metadata") :
    ∃ assembly error, o.result = .malformed assembly error := by
  obtain ⟨path, result⟩ := o
  cases result with
  | verified name sweep =>
    rcases (mem_findings_of_verified rfl).mp hf with ⟨v, -, rfl⟩ | ⟨i, -, rfl⟩
    · cases hmode : v.mode <;> simp [Violation.finding, Violation.code, hmode] at hcode
    · simp [Inconclusive.finding, limitCode] at hcode
  | malformed assembly error => exact ⟨assembly, error, rfl⟩
  | unreadable error =>
    obtain rfl := List.mem_singleton.mp hf
    simp [metadataFinding] at hcode

/-- The finding says that the content of a file is wrong, and in what way. -/
def Finding.SaysMalformed (f : Finding) (path : ArtifactPath) (error : String) : Prop :=
  f.code = "malformed_metadata" ∧ f.message = path.text ++ ": " ++ error ∧
    f.data.get? "error" = some (.string error)

lemma FileOutcome.exists_saysMalformed_iff {error : String} :
    (∃ f ∈ o.findings limits, f.SaysMalformed o.path error) ↔
      ∃ assembly, o.result = .malformed assembly error := by
  obtain ⟨path, result⟩ := o
  constructor
  · rintro ⟨f, hf, hcode, hmessage, -⟩
    obtain ⟨assembly, error', rfl⟩ := eq_malformed_of_code hf hcode
    obtain rfl := List.mem_singleton.mp hf
    obtain rfl : error' = error := by simpa [metadataFinding] using hmessage
    exact ⟨assembly, rfl⟩
  · rintro ⟨assembly, rfl⟩
    exact ⟨_, List.mem_singleton_self _, rfl, rfl, Json.get?_ofMembers_concat [_] _ _⟩

/-! ### Severities -/

lemma AssemblyModel.mem_restrictions_of_mem_pairs {a : AssemblyModel} {m : MemberRef}
    {r : Restriction} (h : (m, r) ∈ a.pairs policy) : r ∈ policy.restrictions := by
  obtain ⟨t, -, h⟩ := List.mem_flatMap.mp h
  rw [TypeDef.pairs_eq] at h
  obtain ⟨round, -, h⟩ := List.mem_flatMap.mp h
  exact (List.mem_filter.mp (TypeDef.mem_product_iff.mp h).2).1

lemma FileTree.Course.isBlocking (h : Course policy refs p answer o.result)
    (hblocking : ∀ r ∈ policy.restrictions, r.severity.isBlocking policy.failOn = true) :
    ∀ f ∈ o.findings limits, f.severity.isBlocking policy.failOn = true := by
  obtain ⟨path, result⟩ := o
  have herror : Severity.isBlocking policy.failOn .error = true :=
    Severity.isBlocking_iff.mpr (.inl rfl)
  intro f hf
  cases h with
  | verified a =>
    rcases (FileOutcome.mem_findings_of_verified rfl).mp hf with ⟨v, hv, rfl⟩ | ⟨i, -, rfl⟩
    · -- A violation is as severe as the restriction that it violates.
      rw [AssemblyModel.sweepWith, AssemblyModel.violations_sweep] at hv
      obtain ⟨⟨m, r⟩, hpair, rfl⟩ := List.mem_map.mp hv
      have hr := AssemblyModel.mem_restrictions_of_mem_pairs (List.mem_filter.mp hpair).1
      exact hblocking r hr
    · exact herror
  | malformed assembly error =>
    obtain rfl := List.mem_singleton.mp hf
    exact herror
  | unreadable e error =>
    obtain rfl := List.mem_singleton.mp hf
    exact herror

/-! ### Agreement -/

/-- An answer about a file and a report on its outcome alone agree. -/
structure FileOutcome.Agrees (policy : Policy) (answer : Except VerificationError Verification)
    (o : FileOutcome) : Prop where
  entries : (evaluate policy [o]).summary.assemblies = [o.verdict policy]
  accepted : answer = .ok (.verified []) →
    (o.verdict policy).accepted = true ∧ (evaluate policy [o]).findings = []
  malformed : (∃ error, answer = .ok (.malformed error)) ↔
    ∃ f ∈ (evaluate policy [o]).findings, f.code = "malformed_metadata"
  malformedText : ∀ error, answer = .ok (.malformed error) ↔
    ∃ f ∈ (evaluate policy [o]).findings, f.SaysMalformed o.path error
  error : (∃ x, answer = .error x) ↔ (∃ text, o.result = .unreadable text) ∨
    ∃ name sweep, o.result = .verified name sweep ∧ sweep.inconclusive ≠ []
  /-- Only the report looks at severities, so acceptance is the same when all of them block. -/
  blocking : (∀ r ∈ policy.restrictions, r.severity.isBlocking policy.failOn = true) →
    (answer = .ok (.verified []) ↔ (o.verdict policy).accepted = true)

/-- The check of a file alone and among others agree. -/
theorem FileTree.agrees (t : FileTree) (w : Json.Wording) (policy : Policy) (refs : AssemblySet)
    (p : Path) : (t.outcome w policy refs p).Agrees policy (t.verify policy refs p) := by
  have hcourse := t.course w policy refs p
  generalize t.outcome w policy refs p = o at hcourse ⊢
  have hclean : t.verify policy refs p = .ok (.verified []) ↔ o.findings policy.limits = [] := by
    rw [hcourse.eq_clean_iff, FileOutcome.findings_eq_nil_iff]
  have htext : ∀ error, t.verify policy refs p = .ok (.malformed error) ↔
      ∃ f ∈ (evaluate policy [o]).findings, f.SaysMalformed o.path error := by
    intro error
    simp only [mem_findings_singleton_iff, hcourse.eq_malformed_iff,
      FileOutcome.exists_saysMalformed_iff]
  exact
    { entries := List.mergeSort_singleton _
      accepted := fun h => ⟨FileOutcome.accepted_of_findings_eq_nil (hclean.mp h),
        findings_evaluate_eq_nil_iff.mpr (hclean.mp h)⟩
      malformed := by
        constructor
        · rintro ⟨error, h⟩
          obtain ⟨f, hf, hcode, -⟩ := (htext error).mp h
          exact ⟨f, hf, hcode⟩
        · rintro ⟨f, hf, hcode⟩
          obtain ⟨assembly, error, h⟩ :=
            FileOutcome.eq_malformed_of_code (mem_findings_singleton_iff.mp hf) hcode
          exact ⟨error, hcourse.eq_malformed_iff.mpr ⟨assembly, h⟩⟩
      malformedText := htext
      error := hcourse.exists_eq_error_iff
      blocking := fun h =>
        hclean.trans (FileOutcome.accepted_iff_of_blocking (hcourse.isBlocking h)).symm }

/-! ### A snapshot of another schema -/

namespace SingleFile

/-- A directory with one file. -/
def tree (text : String) : FileTree := ⟨[(["Mod.json"], .file text)], []⟩

def file : Path := ⟨"Mod.json"⟩

lemma readText_tree (text : String) : (tree text).readText file = .ok text := by
  have hcheck : file.checkText = .ok () := by decide
  have hparts : file.parts = [.name "Mod.json"] := by cbv
  simp only [FileTree.readText, FileTree.locate, hcheck, hparts, FileTree.follow]
  rfl

/-- A snapshot of a schema that is not known, as an array of its fields. -/
def snapshot : String := "[\"modguard.assembly.v9\",\"Mod\",[]]"

lemma verify_snapshot : (tree snapshot).verify .empty .empty file = .ok (.malformed
    "unsupported snapshot schema 'modguard.assembly.v9' (expected modguard.assembly.v1)") := by
  have hload : AssemblyModel.ofSnapshot snapshot =
      .error (.unsupportedSchema "modguard.assembly.v9") := by cbv
  simp only [FileTree.verify, FileTree.loadAssembly, readText_tree, hload]
  rfl

/-- The report on the file says what its check alone says. -/
theorem agrees_snapshot :
    ∃ f ∈ (evaluate .empty [(tree snapshot).outcome .brief .empty .empty file]).findings,
      f.SaysMalformed ((tree snapshot).outcome .brief .empty .empty file).path
        "unsupported snapshot schema 'modguard.assembly.v9' (expected modguard.assembly.v1)" :=
  ((FileTree.agrees (tree snapshot) .brief .empty .empty file).malformedText _).mp verify_snapshot

end SingleFile

end AssemblyPolicy
