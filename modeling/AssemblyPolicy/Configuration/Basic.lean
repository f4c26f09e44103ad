import AssemblyPolicy.Json.Basic

/-!
# Configurations

What a configuration file says, before it is checked: the profile to start from, boundaries, limits,
and four tables of restrictions. Types are given by dotted names.
-/

namespace AssemblyPolicy

/-- What every restriction may say. -/
structure CommonFields where
  mode : Option String
  message : String
  scope : Option String
  severity : Option String
  deriving DecidableEq, Inhabited

structure NamespaceEntry where
  ns : String
  nested : Bool
  common : CommonFields
  deriving DecidableEq, Inhabited

structure TypeEntry where
  type : String
  common : CommonFields
  deriving DecidableEq, Inhabited

structure MemberEntry where
  type : String
  member : String
  common : CommonFields
  deriving DecidableEq, Inhabited

structure InheritanceEntry where
  base : String
  common : CommonFields
  deriving DecidableEq, Inhabited

/-- The limits of the search through called methods, where they are set. -/
structure LimitFields where
  maxDepth : Option Nat
  maxMethods : Option Nat
  deriving DecidableEq, Inhabited

structure Configuration where
  schema : Option String
  profile : Option String
  failOn : Option String
  trusted : List String
  interfaces : Option (List String)
  exempt : Option (List String)
  limits : LimitFields
  namespaces : List NamespaceEntry
  types : List TypeEntry
  members : List MemberEntry
  inheritance : List InheritanceEntry
  deriving DecidableEq

namespace Configuration

def empty : Configuration := ⟨none, none, none, [], none, none, ⟨none, none⟩, [], [], [], []⟩

instance : Inhabited Configuration := ⟨empty⟩

end Configuration

/-! ### Configurations as JSON -/

def CommonFields.members (c : CommonFields) : List (String × Option Json) :=
  [("mode", c.mode.map .string), ("message", some (.string c.message)),
    ("applicable_base_type", c.scope.map .string), ("severity", c.severity.map .string)]

def NamespaceEntry.toJson (e : NamespaceEntry) : Json :=
  .record (("namespace", some (.string e.ns)) :: ("include_nested", some (.bool e.nested)) ::
    e.common.members)

def TypeEntry.toJson (e : TypeEntry) : Json :=
  .record (("type", some (.string e.type)) :: e.common.members)

def MemberEntry.toJson (e : MemberEntry) : Json :=
  .record (("type", some (.string e.type)) :: ("member", some (.string e.member)) ::
    e.common.members)

def InheritanceEntry.toJson (e : InheritanceEntry) : Json :=
  .record (("base_type", some (.string e.base)) :: e.common.members)

def LimitFields.toJson (l : LimitFields) : Json :=
  .record [("max_depth", l.maxDepth.map .nat), ("max_methods", l.maxMethods.map .nat)]

def Configuration.toJson (c : Configuration) : Json :=
  .record
    [("schema", c.schema.map .string), ("profile", c.profile.map .string),
      ("fail_on", c.failOn.map .string), ("trusted_assemblies", some (.strings c.trusted)),
      ("interface_assemblies", c.interfaces.map .strings),
      ("exempt_namespaces", c.exempt.map .strings), ("limits", some c.limits.toJson),
      ("namespace", some (.array (c.namespaces.map NamespaceEntry.toJson))),
      ("type", some (.array (c.types.map TypeEntry.toJson))),
      ("member", some (.array (c.members.map MemberEntry.toJson))),
      ("inheritance", some (.array (c.inheritance.map InheritanceEntry.toJson)))]

end AssemblyPolicy
