import AssemblyPolicy.Configuration.Basic
import AssemblyPolicy.Toml.Document

/-!
# Reading configurations

`Configuration.ofToml?` reads a configuration from a TOML text. Unknown keys are passed over, but
numbers in them must still be within range.
-/

namespace AssemblyPolicy

open Toml

namespace Toml

/-- The range of numbers in a part that is passed over. -/
structure NumberRange where
  lower : Int
  upper : Int

/-- The numbers that are passed over at once. -/
def NumberRange.wide : NumberRange := ⟨-(1 <<< 127 : Nat), (1 <<< 128 : Nat)⟩

/-- The numbers that are kept until it is known whether they matter. -/
def NumberRange.kept : NumberRange := ⟨-(1 <<< 63 : Nat), (1 <<< 64 : Nat)⟩

mutual

/-- Can the value be passed over? -/
def Value.isSound (r : NumberRange) : Value → Bool
  | .integer n => r.lower ≤ n && n < r.upper
  | .float d => d.isSome
  | .array _ items => allSound r items
  | .table _ entries => entriesSound r entries
  | _ => true

def allSound (r : NumberRange) : List Value → Bool
  | [] => true
  | v :: rest => v.isSound r && allSound r rest

def entriesSound (r : NumberRange) : List (String × Value) → Bool
  | [] => true
  | (_, v) :: rest => v.isSound r && entriesSound r rest

end

def Value.string? : Value → Option String
  | .string s => some s
  | _ => none

def Value.bool? : Value → Option Bool
  | .bool b => some b
  | _ => none

def Value.u32? : Value → Option Nat
  | .integer n => if 0 ≤ n ∧ n.toNat < UInt32.size then some n.toNat else none
  | _ => none

def Value.items? : Value → Option (List Value)
  | .array _ items => some items
  | _ => none

def Value.strings? (v : Value) : Option (List String) := do (← v.items?).mapM (·.string?)

/-- The value that must be at a key. -/
def required? {α : Type} (read : Value → Option α) (key : String) (entries : Entries) :
    Option α := do read (← find? key entries)

/-- The value at a key, or `a` if there is none. -/
def withDefault? {α : Type} (read : Value → Option α) (a : α) (key : String) (entries : Entries) :
    Option α :=
  match find? key entries with
  | none => some a
  | some v => read v

/-- The value that may be at a key. -/
def optional? {α : Type} (read : Value → Option α) (key : String) (entries : Entries) :
    Option (Option α) := withDefault? (fun v => (read v).map some) none key entries

def unknown (known : List String) (entries : Entries) : Entries :=
  entries.filter fun e => !known.contains e.1

end Toml

def commonKeys : List String := ["mode", "message", "applicable_base_type", "severity"]

/-- Read what every restriction may say. `known` are the keys of this kind of restriction. -/
def CommonFields.read? (known : List String) (entries : Entries) : Option CommonFields := do
  if !entriesSound .kept (unknown (known ++ commonKeys) entries) then none
  else
    let mode ← optional? Value.string? "mode" entries
    let message ← withDefault? Value.string? "" "message" entries
    let scope ← optional? Value.string? "applicable_base_type" entries
    let severity ← optional? Value.string? "severity" entries
    some ⟨mode, message, scope, severity⟩

def NamespaceEntry.read? : Value → Option NamespaceEntry
  | .table _ entries => do
    let ns ← required? Value.string? "namespace" entries
    let nested ← withDefault? Value.bool? false "include_nested" entries
    let common ← CommonFields.read? ["namespace", "include_nested"] entries
    some ⟨ns, nested, common⟩
  | _ => none

def TypeEntry.read? : Value → Option TypeEntry
  | .table _ entries => do
    let type ← required? Value.string? "type" entries
    let common ← CommonFields.read? ["type"] entries
    some ⟨type, common⟩
  | _ => none

def MemberEntry.read? : Value → Option MemberEntry
  | .table _ entries => do
    let type ← required? Value.string? "type" entries
    let member ← required? Value.string? "member" entries
    let common ← CommonFields.read? ["type", "member"] entries
    some ⟨type, member, common⟩
  | _ => none

def InheritanceEntry.read? : Value → Option InheritanceEntry
  | .table _ entries => do
    let base ← required? Value.string? "base_type" entries
    let common ← CommonFields.read? ["base_type"] entries
    some ⟨base, common⟩
  | _ => none

/-- Read limits. An array gives them in order, and more items than there are limits are not looked
at; a date is a table without any of them. -/
def LimitFields.read? : Value → Option LimitFields
  | .table _ entries => do
    if !entriesSound .wide (unknown ["max_depth", "max_methods"] entries) then none
    else
      let maxDepth ← optional? Value.u32? "max_depth" entries
      let maxMethods ← optional? Value.u32? "max_methods" entries
      some ⟨maxDepth, maxMethods⟩
  | .array _ items =>
    match items with
    | [] => some ⟨none, none⟩
    | [d] => do some ⟨some (← d.u32?), none⟩
    | d :: m :: _ => do some ⟨some (← d.u32?), some (← m.u32?)⟩
  | .datetime _ => some ⟨none, none⟩
  | _ => none

def readAll? {α : Type} (read : Value → Option α) (v : Value) : Option (List α) := do
  (← v.items?).mapM read

namespace Configuration

def keys : List String :=
  ["schema", "profile", "fail_on", "trusted_assemblies", "interface_assemblies",
    "exempt_namespaces", "limits", "namespace", "type", "member", "inheritance"]

def ofEntries? (entries : Entries) : Option Configuration := do
  if !entriesSound .wide (unknown keys entries) then none
  else
    let schema ← optional? Value.string? "schema" entries
    let profile ← optional? Value.string? "profile" entries
    let failOn ← optional? Value.string? "fail_on" entries
    let trusted ← withDefault? Value.strings? [] "trusted_assemblies" entries
    let interfaces ← optional? Value.strings? "interface_assemblies" entries
    let exempt ← optional? Value.strings? "exempt_namespaces" entries
    let limits ← withDefault? LimitFields.read? ⟨none, none⟩ "limits" entries
    let namespaces ← withDefault? (readAll? NamespaceEntry.read?) [] "namespace" entries
    let types ← withDefault? (readAll? TypeEntry.read?) [] "type" entries
    let members ← withDefault? (readAll? MemberEntry.read?) [] "member" entries
    let inheritance ← withDefault? (readAll? InheritanceEntry.read?) [] "inheritance" entries
    some
      { schema, profile, failOn, trusted, interfaces, exempt, limits, namespaces, types, members
        inheritance }

def ofToml? (text : String) : Option Configuration := do ofEntries? (← root? text)

end Configuration

end AssemblyPolicy
