import AssemblyPolicy.Verification.Basic

/-!
# Checking an assembly

`Sweep.pairs` lists the members of an assembly with the restrictions to check them against, and
`AssemblyModel.sweep` collects what the checks find.
-/

namespace AssemblyPolicy

/-- A restriction that a member violates. -/
structure Violation where
  restrictionMessage : String
  member : String
  mode : Mode
  checkId : String
  restriction : String
  target : String
  severity : Severity
  assembly : String
  deriving DecidableEq

def Violation.text (v : Violation) : String :=
  v.mode.title ++ ": " ++ v.member ++ " - " ++ v.restrictionMessage

/-- A restriction that could not be decided for a member within the limits. -/
structure Inconclusive where
  member : String
  checkId : String
  target : String
  assembly : String
  deriving DecidableEq

/-- Counters have 32 bits. -/
def counter (n : Nat) : Nat := n % UInt32.size

/-- What the checks of an assembly found. -/
structure Sweep where
  violations : List Violation
  inconclusive : List Inconclusive
  typesScanned : Nat
  membersScanned : Nat
  restrictionsEvaluated : Nat
  deriving DecidableEq, Inhabited

/-! ### What is checked -/

namespace TypeDef

/-- The fields and properties of a type, as members. -/
def values (t : TypeDef) (owner : TypeRef) : List MemberRef :=
  t.fields.map (fun f => .field ⟨owner, f.name, f.fieldType⟩) ++
    t.properties.map fun p => .property ⟨owner, p.name, p.propertyType⟩

/-- The methods of a type that have a body, as members. -/
def bodies (t : TypeDef) (owner : TypeRef) : List MemberRef :=
  (t.methods.filter (·.body.isSome)).map fun m => .method ⟨owner, m.name, m.signature⟩

/-- All pairs of some members with some restrictions, member by member. -/
def product (members : List MemberRef) (restrictions : List Restriction) :
    List (MemberRef × Restriction) :=
  members.flatMap fun m => restrictions.map fun r => (m, r)

/-- What is checked for a type: the type itself for inheritance, its fields, properties and methods
for the use of namespaces and types, and its methods for the use of members. -/
def pairs (t : TypeDef) (policy : Policy) (assembly : String) : List (MemberRef × Restriction) :=
  let owner := t.reference assembly
  product [.type owner] policy.inheritanceRestrictions ++
    product (t.values owner ++ t.bodies owner) policy.usageRestrictions ++
    product (t.bodies owner) policy.memberRestrictions

end TypeDef

def AssemblyModel.pairs (a : AssemblyModel) (policy : Policy) : List (MemberRef × Restriction) :=
  a.types.flatMap fun t => t.pairs policy a.name

/-! ### What is found -/

/-- The violation of a restriction by a member. -/
def Violation.of (r : Restriction) (m : MemberRef) (assembly message : String) : Violation where
  restrictionMessage := message
  member := m.qualifiedName
  mode := r.mode
  checkId := r.target.checkId
  restriction := r.target.label
  target := r.target.text
  severity := r.severity
  assembly := assembly

/-- The record of an undecided check. -/
def Inconclusive.of (r : Restriction) (m : MemberRef) (assembly : String) : Inconclusive where
  member := m.qualifiedName
  checkId := r.target.checkId
  target := r.target.text
  assembly := assembly

structure Checked where
  member : MemberRef
  restriction : Restriction
  result : Result

namespace Checked

def violation? (assembly : String) (c : Checked) : Option Violation :=
  match c.result with
  | .violation message => some (.of c.restriction c.member assembly message)
  | _ => none

def inconclusive? (assembly : String) (c : Checked) : Option Inconclusive :=
  match c.result with
  | .inconclusive => some (.of c.restriction c.member assembly)
  | _ => none

end Checked

namespace AssemblyModel

/-- All checks of an assembly with their results. -/
def checks (a : AssemblyModel) (policy : Policy) (s : AssemblySet) : List Checked :=
  (a.pairs policy).map fun (m, r) => ⟨m, r, r.verify policy s m⟩

/-- Check an assembly, with all references resolved in a set. -/
def sweep (a : AssemblyModel) (policy : Policy) (s : AssemblySet) : Sweep :=
  let checks := a.checks policy s
  { violations := checks.filterMap (·.violation? a.name)
    inconclusive := checks.filterMap (·.inconclusive? a.name)
    typesScanned := counter a.types.length
    membersScanned := counter (a.types.flatMap fun t =>
      t.values (t.reference a.name) ++ t.bodies (t.reference a.name)).length
    restrictionsEvaluated := counter checks.length }

end AssemblyModel

end AssemblyPolicy
