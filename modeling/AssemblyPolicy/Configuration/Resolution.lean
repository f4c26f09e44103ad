import AssemblyPolicy.Configuration.Basic
import AssemblyPolicy.Configuration.Profile
import AssemblyPolicy.Glob.Set
import AssemblyPolicy.Text.Blank
import AssemblyPolicy.Text.Quoted

/-!
# From configurations to policies

`Configuration.resolve` checks a configuration together with what overrides it, and gives the policy
it describes: the profile with the boundaries, limits and further restrictions of the configuration.
-/

namespace AssemblyPolicy

/-- What overrides a configuration. Trusted assemblies are added. -/
structure Overrides where
  profile : Option String
  trusted : List String
  maxDepth : Option Nat
  maxMethods : Option Nat
  deriving DecidableEq

namespace Overrides

def none : Overrides := ⟨.none, [], .none, .none⟩

instance : Inhabited Overrides := ⟨none⟩

end Overrides

inductive EntryError where
  | emptyNamespace
  | emptyMember
  | emptyTypeName
  | unnamedType (text : String)
  | unknownMode (text : String)
  | unknownSeverity (text : String)
  deriving DecidableEq

inductive ConfigurationError where
  | unknownProfile (name : String)
  | unknownFailOn (text : String)
  | blankPattern
  | invalidGlob (patterns : List String) (e : Glob.Error)
  | emptyExemption
  | limitOutOfRange (key : String) (greatest given : Nat)
  | entry (table : String) (index : Nat) (e : EntryError)
  deriving DecidableEq

def EntryError.message (table : String) (index : Nat) (e : EntryError) : String :=
  let place := table ++ "[" ++ toString index ++ "]"
  match e with
  | emptyNamespace => place ++ ": namespace must not be empty"
  | emptyMember => place ++ ": member must not be empty"
  | emptyTypeName => "invalid " ++ place ++ ": type name must not be empty"
  | unnamedType text => "invalid " ++ place ++ ": type name must not end with '.': " ++ text
  | unknownMode text =>
    "invalid " ++ place ++ ": unknown mode: " ++ text ++ " (expected prohibited|required)"
  | unknownSeverity text =>
    "invalid " ++ place ++ ": unknown severity: " ++ text ++ " (expected info|warning|error)"

def ConfigurationError.message : ConfigurationError → String
  | unknownProfile name =>
    "unknown profile: " ++ name ++ " (expected one of: " ++
      ", ".intercalate (profiles.map (·.1)) ++ ")"
  | unknownFailOn text => "unknown fail_on: " ++ text ++ " (expected error|warning)"
  | blankPattern => "trusted_assemblies contains an empty pattern"
  | invalidGlob patterns e =>
    "invalid trusted_assemblies glob in " ++ Quoted.list patterns ++ ": " ++ e.message
  | emptyExemption => "exempt_namespaces contains an empty prefix"
  | limitOutOfRange key greatest given =>
    "limits." ++ key ++ " must be between 1 and " ++ toString greatest ++ ", got " ++
      toString given
  | entry table index e => e.message table index

/-! ### Parts of a restriction -/

/-- Read a type name. Blanks around it do not count, and the simple name must not be empty. -/
def TypeName.parse (text : String) : Except EntryError TypeName :=
  let text := trim text
  if text.isEmpty then .error .emptyTypeName
  else
    let n := ofDotted text
    if n.name.isEmpty then .error (.unnamedType text) else .ok n

def Mode.parse (text : String) : Except EntryError Mode :=
  match text with
  | "prohibited" => .ok .prohibited
  | "required" => .ok .required
  | other => .error (.unknownMode other)

def Severity.parse (text : String) : Except EntryError Severity :=
  match text with
  | "info" => .ok .info
  | "warning" => .ok .warning
  | "warn" => .ok .warning
  | "error" => .ok .error
  | other => .error (.unknownSeverity other)

def FailOn.parse (text : String) : Except ConfigurationError FailOn :=
  match text with
  | "error" => .ok .error
  | "warning" => .ok .warning
  | "warn" => .ok .warning
  | other => .error (.unknownFailOn other)

/-- Read a part that may be left out. -/
def parseOr {α β ε : Type} (standard : β) (parse : α → Except ε β) (given : Option α) :
    Except ε β :=
  match given with
  | none => .ok standard
  | some a => parse a

/-- The scope that a text gives: a dotted name, or none if the text is blank. -/
def scopeOf (text : Option String) : Option TypeName :=
  (text.filter fun s => !allBlank s).map TypeName.ofDotted

/-! ### Restrictions -/

def CommonFields.restriction (c : CommonFields) (target : Target) :
    Except EntryError Restriction := do
  let mode ← parseOr .prohibited Mode.parse c.mode
  let severity ← parseOr .error Severity.parse c.severity
  .ok ⟨target, c.message, scopeOf c.scope, mode, severity⟩

def NamespaceEntry.restriction (e : NamespaceEntry) : Except EntryError Restriction :=
  if e.ns.isEmpty then .error .emptyNamespace
  else e.common.restriction (.inNamespace e.ns e.nested)

def TypeEntry.restriction (e : TypeEntry) : Except EntryError Restriction := do
  let target ← TypeName.parse e.type
  e.common.restriction (.type target)

def MemberEntry.restriction (e : MemberEntry) : Except EntryError Restriction := do
  let declaringType ← TypeName.parse e.type
  if e.member.isEmpty then .error .emptyMember
  else e.common.restriction (.member ⟨declaringType, e.member⟩)

def InheritanceEntry.restriction (e : InheritanceEntry) : Except EntryError Restriction := do
  let base ← TypeName.parse e.base
  e.common.restriction (.inheritance base)

/-- The restrictions of a table, from the entry with a given index on. -/
def resolveEntries {α : Type} (table : String) (resolve : α → Except EntryError Restriction)
    (index : Nat) : List α → Except ConfigurationError (List Restriction)
  | [] => .ok []
  | e :: rest => do
    let r ← (resolve e).mapError (.entry table index)
    let rs ← resolveEntries table resolve (index + 1) rest
    .ok (r :: rs)

/-! ### Policies -/

/-- The trusted assemblies that some patterns describe. -/
def resolveTrusted (patterns : List String) : Except ConfigurationError (List Glob) :=
  if patterns.any allBlank then .error .blankPattern
  else (Glob.parseAll patterns).mapError (.invalidGlob patterns)

def greatestDepth : Nat := 100000

def greatestMethods : Nat := 10000000

def resolveLimit (key : String) (greatest : Nat) (given : Nat) : Except ConfigurationError Nat :=
  if 1 ≤ given ∧ given ≤ greatest then .ok given
  else .error (.limitOutOfRange key greatest given)

/-- Check the exempt namespaces: an empty one would exempt all. -/
def resolveExempt (namespaces : List String) : Except ConfigurationError (List String) :=
  if namespaces.any String.isEmpty then .error .emptyExemption else .ok namespaces

namespace Configuration

/-- The profile that a configuration starts from. -/
def profileName (c : Configuration) (o : Overrides) : String :=
  (o.profile.or c.profile).getD "modtool"

def findProfile (name : String) : Except ConfigurationError Policy :=
  match profiles.lookup name with
  | some p => .ok p
  | none => .error (.unknownProfile name)

def restrictions (c : Configuration) : Except ConfigurationError (List Restriction) := do
  let namespaces ← resolveEntries "namespace" NamespaceEntry.restriction 0 c.namespaces
  let types ← resolveEntries "type" TypeEntry.restriction 0 c.types
  let members ← resolveEntries "member" MemberEntry.restriction 0 c.members
  let inheritance ← resolveEntries "inheritance" InheritanceEntry.restriction 0 c.inheritance
  .ok (namespaces ++ types ++ members ++ inheritance)

/-- The policy that a configuration describes. -/
def resolve (c : Configuration) (o : Overrides) : Except ConfigurationError Policy := do
  let base ← findProfile (c.profileName o)
  let failOn ← parseOr base.failOn FailOn.parse c.failOn
  let trusted ← resolveTrusted (c.trusted ++ o.trusted)
  let exempt ← parseOr base.exempt resolveExempt c.exempt
  let maxDepth ← parseOr base.limits.maxDepth (resolveLimit "max_depth" greatestDepth)
    (o.maxDepth.or c.limits.maxDepth)
  let maxMethods ← parseOr base.limits.maxMethods (resolveLimit "max_methods" greatestMethods)
    (o.maxMethods.or c.limits.maxMethods)
  let more ← c.restrictions
  .ok
    { profile := base.profile
      failOn
      restrictions := base.restrictions ++ more
      trusted
      interfaces := c.interfaces.getD base.interfaces
      exempt
      limits := ⟨maxDepth, maxMethods⟩ }

end Configuration

end AssemblyPolicy
