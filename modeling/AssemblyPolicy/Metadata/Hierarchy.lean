import AssemblyPolicy.Metadata.AssemblySet

/-!
# The type hierarchy

`AssemblySet.inherits` follows base types from a type until it meets the one in question. The search
ends at the root of the hierarchy, at a type that is not loaded, and where the chain returns to a
type it has passed.
-/

namespace AssemblyPolicy

/-- The assemblies that may define the root of the hierarchy. -/
def coreLibraries : List String :=
  ["mscorlib", "netstandard", "System.Runtime", "System.Private.CoreLib"]

/-- The root of the hierarchy is `System.Object` of a core library. -/
def TypeRef.isRoot (t : TypeRef) : Bool :=
  t.ns = "System" && t.name = "Object" && coreLibraries.contains t.assembly

def TypeRef.without (t : TypeRef) (ts : List TypeRef) : List TypeRef := ts.filter (· ≠ t)

theorem TypeRef.length_without {t : TypeRef} {ts : List TypeRef} (h : t ∈ ts) :
    (t.without ts).length < ts.length :=
  List.length_filter_lt_length_iff_exists.2 ⟨t, h, by simp⟩

namespace AssemblySet

variable (s : AssemblySet)

/-- Does the chain of base types from `t` on meet `base`? Only types in `ahead` may be passed on the
way, each of them once. -/
def inheritsFrom (base : TypeName) (ahead : List TypeRef) (t : TypeRef) : Bool :=
  match s.baseType? t with
  | none => false
  | some parent =>
    if base.names parent then true
    else if parent.isRoot then false
    else if h : parent ∈ ahead then
      have := TypeRef.length_without h
      inheritsFrom base (parent.without ahead) parent
    else false
termination_by ahead.length

/-- Is `t` a proper subtype of `base`? -/
def inherits (t : TypeRef) (base : TypeName) : Bool :=
  s.inheritsFrom base (t.without s.declaredTypes) t

end AssemblySet

end AssemblyPolicy
