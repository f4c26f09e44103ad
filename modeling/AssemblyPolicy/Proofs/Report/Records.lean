import AssemblyPolicy.Proofs.Verification.Coverage
import AssemblyPolicy.Proofs.Walk.Identity
import AssemblyPolicy.Report.Evaluation

/-!
# What is recorded of a check

A sweep has one entry for each check that is violated or undecided, and a file one finding for each
entry. An entry carries what is known of the member and the restriction that were checked
(`AssemblyModel.sweep_records`), and so does its finding (`FileOutcome.findings_record`). A method can
be told from its entries when it is well-named.
-/

namespace AssemblyPolicy

variable {v : Violation} {i : Inconclusive} {m : MemberRef} {r : Restriction} {assembly : String}

/-! ### Entries of sweeps -/

/-- A violation says which member of an assembly violates which restriction. -/
structure Violation.Records (v : Violation) (assembly : String) (m : MemberRef) (r : Restriction) :
    Prop where
  assembly : v.assembly = assembly
  member : v.member = m.qualifiedName
  checkId : v.checkId = "restriction." ++ r.target.label
  restriction : v.restriction = r.target.label
  target : v.target = r.target.text
  mode : v.mode = r.mode
  severity : v.severity = r.severity
  message : v.restrictionMessage = r.message

/-- An undecided check is recorded with its member and its target. -/
structure Inconclusive.Records (i : Inconclusive) (assembly : String) (m : MemberRef)
    (r : Restriction) : Prop where
  assembly : i.assembly = assembly
  member : i.member = m.qualifiedName
  checkId : i.checkId = "restriction." ++ r.target.label
  target : i.target = r.target.text

/-- The check of a target is named for the kind of the target. -/
lemma Target.checkId_eq (t : Target) : t.checkId = "restriction." ++ t.label := by
  cases t <;> rfl

lemma Violation.records_of (r : Restriction) (m : MemberRef) (assembly : String) :
    (Violation.of r m assembly r.message).Records assembly m r :=
  ⟨rfl, rfl, r.target.checkId_eq, rfl, rfl, rfl, rfl, rfl⟩

lemma Inconclusive.records_of (r : Restriction) (m : MemberRef) (assembly : String) :
    (Inconclusive.of r m assembly).Records assembly m r :=
  ⟨rfl, rfl, r.target.checkId_eq, rfl⟩

namespace AssemblyModel

/-- The checks of an assembly that are violated. -/
def violated (a : AssemblyModel) (policy : Policy) (s : AssemblySet) :
    List (MemberRef × Restriction) :=
  (a.pairs policy).filter fun (m, r) => (r.verify policy s m).isViolation

/-- The checks of an assembly that are not decided within the limits. -/
def undecided (a : AssemblyModel) (policy : Policy) (s : AssemblySet) :
    List (MemberRef × Restriction) :=
  (a.pairs policy).filter fun (m, r) => r.verify policy s m = .inconclusive

/-- The entries of a sweep record its checks, in their order. -/
theorem sweep_records (a : AssemblyModel) (policy : Policy) (s : AssemblySet) :
    List.Forall₂ (fun (m, r) v => v.Records a.name m r) (a.violated policy s)
        (a.sweep policy s).violations ∧
      List.Forall₂ (fun (m, r) i => i.Records a.name m r) (a.undecided policy s)
        (a.sweep policy s).inconclusive := by
  constructor
  · rw [violations_sweep, List.forall₂_map_right_iff]
    exact List.forall₂_same.mpr fun (m, r) _ => Violation.records_of r m a.name
  · rw [inconclusive_sweep, List.forall₂_map_right_iff]
    exact List.forall₂_same.mpr fun (m, r) _ => Inconclusive.records_of r m a.name

end AssemblyModel

/-- A well-named method is known by what is recorded of it. -/
lemma Violation.Records.eq_of_wellNamed {a b : MethodRef} {r' : Restriction}
    (ha : v.Records assembly (.method a) r) (hb : v.Records assembly (.method b) r')
    (hassembly : a.declaringType.assembly = b.declaringType.assembly) (haNamed : a.WellNamed)
    (hbNamed : b.WellNamed) : a = b := by
  refine haNamed.eq_of_fullName_eq hbNamed ?_
  rw [MethodRef.fullName_eq, MethodRef.fullName_eq, hassembly, ← ha.member, ← hb.member]

/-! ### Findings of files -/

/-- A finding says that a member, in a file, violates a restriction. -/
structure Finding.ReportsViolation (f : Finding) (path : ArtifactPath) (m : MemberRef)
    (r : Restriction) : Prop where
  severity : f.severity = r.severity
  checkId : f.checkId = "restriction." ++ r.target.label
  code : f.code = if r.mode = .prohibited then "prohibited_present" else "required_absent"
  message : f.message = (if r.mode = .prohibited then "Prohibited: " else "Required: ") ++
    m.qualifiedName ++ " - " ++ r.message
  location : f.location = some ⟨path, some m.qualifiedName⟩

/-- A finding says that a check of a member, in a file, hit a limit: an error, however severe the
restriction is. -/
structure Finding.ReportsLimit (f : Finding) (path : ArtifactPath) (m : MemberRef)
    (r : Restriction) : Prop where
  severity : f.severity = .error
  checkId : f.checkId = "analysis.call_graph"
  code : f.code = "walk_limit_exceeded"
  message : f.message = "call graph of " ++ m.qualifiedName ++
    " exceeded the walk limits while checking " ++ r.target.text
  location : f.location = some ⟨path, some m.qualifiedName⟩

lemma Violation.Records.finding (h : v.Records assembly m r) (path : ArtifactPath) :
    (v.finding path).ReportsViolation path m r where
  severity := h.severity
  checkId := h.checkId
  code := by
    rw [← h.mode]
    cases hmode : v.mode <;> simp [Violation.finding, Violation.code, hmode]
  message := by
    rw [← h.mode, ← h.member, ← h.message]
    cases hmode : v.mode <;> simp [Violation.finding, Violation.text, Mode.title, hmode]
  location := by rw [← h.member]; rfl

lemma Inconclusive.Records.finding (h : i.Records assembly m r) (path : ArtifactPath)
    (limits : WalkLimits) : (i.finding path limits).ReportsLimit path m r where
  severity := rfl
  checkId := rfl
  code := rfl
  message := by rw [← h.member, ← h.target]; rfl
  location := by rw [← h.member]; rfl

/-- The findings of a file say what the checks of its assembly found: first the violations, then the
undecided checks, each in the order of the checks. -/
theorem FileOutcome.findings_record {o : FileOutcome} {name : String} {a : AssemblyModel}
    {policy : Policy} {s : AssemblySet} (h : o.result = .verified name (a.sweep policy s))
    (limits : WalkLimits) : ∃ violations limited, o.findings limits = violations ++ limited ∧
      List.Forall₂ (fun (m, r) f => f.ReportsViolation o.path m r) (a.violated policy s)
        violations ∧
      List.Forall₂ (fun (m, r) f => f.ReportsLimit o.path m r) (a.undecided policy s) limited := by
  obtain ⟨hviolations, hinconclusive⟩ := a.sweep_records policy s
  refine ⟨(a.sweep policy s).violations.map (·.finding o.path),
    (a.sweep policy s).inconclusive.map (·.finding o.path limits), ?_, ?_, ?_⟩
  · simp only [findings, h]
  · exact List.forall₂_map_right_iff.mpr (hviolations.imp fun _ _ hv => hv.finding o.path)
  · exact List.forall₂_map_right_iff.mpr
      (hinconclusive.imp fun _ _ hi => hi.finding o.path limits)

end AssemblyPolicy
