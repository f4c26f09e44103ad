import AssemblyPolicy.Decimal.Double

/-!
# JSON values

Numbers are integers or doubles. The members of an object are kept in order: `Json.record` keeps
the order it is given, `Json.ofMembers` sorts by key and lets the last of equal keys win.
-/

namespace AssemblyPolicy

/-- A JSON number: an integer from `-2 ^ 63` to `2 ^ 64 - 1`, or a double. -/
inductive Json.Number where
  | int (n : Int)
  | double (d : Double)
  deriving DecidableEq, Inhabited

inductive Json where
  | null
  | bool (b : Bool)
  | number (n : Json.Number)
  | string (s : String)
  | array (items : List Json)
  | object (members : List (String × Json))
  deriving Inhabited

namespace Json

instance : Coe String Json := ⟨.string⟩

def nat (n : Nat) : Json := .number (.int n)

def strings (texts : List String) : Json := .array (texts.map .string)

/-- Put `key` at its place in members sorted by key, replacing the value it had. -/
def insertMember {α : Type} (key : String) (value : α) : List (String × α) → List (String × α)
  | [] => [(key, value)]
  | (k, v) :: rest =>
    if key < k then (key, value) :: (k, v) :: rest
    else if key = k then (key, value) :: rest
    else (k, v) :: insertMember key value rest

/-- Members sorted by key; of members with one key the last stays. -/
def sortMembers {α : Type} (members : List (String × α)) : List (String × α) :=
  members.foldl (fun sorted m => insertMember m.1 m.2 sorted) []

/-- The object with these members, sorted by key. -/
def ofMembers (members : List (String × Json)) : Json := .object (sortMembers members)

/-- The object with these members in this order, those that are absent left out. -/
def record (members : List (String × Option Json)) : Json :=
  .object (members.filterMap fun m => m.2.map fun v => (m.1, v))

def get? (key : String) : Json → Option Json
  | .object members => members.lookup key
  | _ => none

def text? : Json → Option String
  | .string s => some s
  | _ => none

end Json

end AssemblyPolicy
