import AssemblyPolicy.Glob.Parser
import AssemblyPolicy.Metadata.Name
import AssemblyPolicy.Report.Severity

/-!
# Policies

A policy lists restrictions, each prohibiting or requiring something in the members of an assembly,
and the boundaries at which the search through called methods stops.
-/

namespace AssemblyPolicy

/-- Must the thing be absent or present? -/
inductive Mode where
  | prohibited
  | required
  deriving DecidableEq, Inhabited

namespace Mode

/-- The name of a mode in data. -/
def name : Mode → String
  | prohibited => "prohibited"
  | required => "required"

/-- The name of a mode in sentences. -/
def title : Mode → String
  | prohibited => "Prohibited"
  | required => "Required"

end Mode

inductive Target where
  /-- The types of a namespace, with those of all namespaces that start alike if `nested`. -/
  | inNamespace (ns : String) (nested : Bool)
  | type (t : TypeName)
  | member (m : MemberName)
  /-- The types that inherit from a type. -/
  | inheritance (base : TypeName)
  deriving DecidableEq, Inhabited

namespace Target

def checkId : Target → String
  | inNamespace _ _ => "restriction.namespace"
  | type _ => "restriction.type"
  | member _ => "restriction.member"
  | inheritance _ => "restriction.inheritance"

def label : Target → String
  | inNamespace _ _ => "namespace"
  | type _ => "type"
  | member _ => "member"
  | inheritance _ => "inheritance"

def text : Target → String
  | inNamespace ns nested => if nested then ns ++ "*" else ns
  | type t => t.text
  | member m => m.text
  | inheritance base => base.text

def isInheritance : Target → Bool
  | inheritance _ => true
  | _ => false

/-- Is the target the use of a namespace or type? -/
def isUsage : Target → Bool
  | inNamespace _ _ => true
  | type _ => true
  | _ => false

def isMember : Target → Bool
  | member _ => true
  | _ => false

end Target

/-- A rule of a policy. Without a scope it applies to every member. -/
structure Restriction where
  target : Target
  message : String
  scope : Option TypeName
  mode : Mode
  severity : Severity
  deriving DecidableEq, Inhabited

/-- How far a search through called methods may go. -/
structure WalkLimits where
  maxDepth : Nat
  maxMethods : Nat
  deriving DecidableEq, Inhabited

def WalkLimits.standard : WalkLimits := ⟨64, 10000⟩

structure Policy where
  profile : String
  failOn : FailOn
  restrictions : List Restriction
  /-- Assemblies whose methods are not searched. -/
  trusted : List Glob
  /-- Assemblies of the host, references to which do not count at all. -/
  interfaces : List String
  /-- Beginnings of namespaces whose methods are not searched. -/
  exempt : List String
  limits : WalkLimits

namespace Policy

def empty : Policy where
  profile := "empty"
  failOn := .error
  restrictions := []
  trusted := []
  interfaces := ["ModTool.Interface"]
  exempt := ["System", "Unity"]
  limits := .standard

instance : Inhabited Policy := ⟨empty⟩

def isTrusted (p : Policy) (assembly : String) : Bool := p.trusted.any (·.isMatch assembly)

def isInterface (p : Policy) (assembly : String) : Bool := p.interfaces.any (· = assembly)

def isExempt (p : Policy) (ns : String) : Bool := p.exempt.any (beginsWith · ns)

def inheritanceRestrictions (p : Policy) : List Restriction :=
  p.restrictions.filter (·.target.isInheritance)

/-- The restrictions on the use of namespaces and types. -/
def usageRestrictions (p : Policy) : List Restriction := p.restrictions.filter (·.target.isUsage)

def memberRestrictions (p : Policy) : List Restriction := p.restrictions.filter (·.target.isMember)

end Policy

end AssemblyPolicy
