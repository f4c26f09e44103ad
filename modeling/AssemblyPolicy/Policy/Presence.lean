import AssemblyPolicy.Metadata.Hierarchy
import AssemblyPolicy.Policy.Basic

/-!
# When a target is present

A target is present in a member that is referred to, or in the type of a local variable.
-/

namespace AssemblyPolicy

/-- Is `ns` the namespace, or one that begins alike if `nested`? -/
def coversNamespace (ns : String) (nested : Bool) (observed : String) : Bool :=
  if nested then beginsWith ns observed else observed = ns

/-- The namespace that counts as used by a reference to a member: that of the value of a field or
property, and that of the declaring type of a method. -/
def MemberRef.usedNamespace : MemberRef → String
  | type t => t.ns
  | field f => f.fieldType.ns
  | property p => p.propertyType.ns
  | method m => m.declaringType.ns

/-- The type that counts as used by a reference to a member. Naming a type does not use it. -/
def MemberRef.usedType? : MemberRef → Option TypeRef
  | type _ => none
  | field f => some f.fieldType
  | property p => some p.propertyType
  | method m => some m.declaringType

namespace Target

/-- Is the target present in a reference to a member? Of the declaring type of a member only the
simple name counts. -/
def isIn (s : AssemblySet) (m : MemberRef) : Target → Bool
  | inNamespace ns nested => coversNamespace ns nested m.usedNamespace
  | type t => m.usedType?.any t.names
  | member target =>
    m.name = target.member && m.declaringType?.all (·.name = target.declaringType.name)
  | inheritance base =>
    match m with
    | .type t => s.inherits t base
    | _ => false

/-- Is the target present in the type of a local variable? -/
def isInLocal (t : TypeRef) : Target → Bool
  | inNamespace ns nested => coversNamespace ns nested t.ns
  | type n => n.names t
  | member _ => false
  | inheritance _ => false

end Target

end AssemblyPolicy
