import AssemblyPolicy.Json.Basic

/-!
# Reports without what differs from run to run

`normalize` puts fixed texts in place of timestamps, at any depth, and of the version of the tool in
a value that has the shape of a report. Two reports of the same run on the same files then agree.
-/

namespace AssemblyPolicy

def timestampKeys : List String := ["started_at", "finished_at"]

/-- The keys that every report has. -/
def reportKeys : List String := ["schema", "tool", "verdict", "findings", "data"]

def timestampMask : Json := .string "__TIMESTAMP__"

def versionMask : Json := .string "__VERSION__"

mutual

/-- Mask all timestamps of a value. -/
def maskTimestamps : Json → Json
  | .array items => .array (maskItems items)
  | .object members => .object (maskMembers members)
  | j => j

def maskItems : List Json → List Json
  | [] => []
  | j :: rest => maskTimestamps j :: maskItems rest

def maskMembers : List (String × Json) → List (String × Json)
  | [] => []
  | (k, v) :: rest =>
    (k, if k ∈ timestampKeys then timestampMask else maskTimestamps v) :: maskMembers rest

end

/-- Change the value at a key, if it is there. -/
def updateMember (key : String) (f : Json → Json) (members : List (String × Json)) :
    List (String × Json) :=
  members.map fun m => if m.1 = key then (m.1, f m.2) else m

def maskVersion : Json → Json
  | .object members => .object (updateMember "version" (fun _ => versionMask) members)
  | j => j

/-- Have the members the shape of a report? -/
def isReportShaped (members : List (String × Json)) : Bool :=
  reportKeys.all fun key => (members.lookup key).isSome

/-- Mask the version of the tool in a report. -/
def maskTool : Json → Json
  | .object members =>
    if isReportShaped members then .object (updateMember "tool" maskVersion members)
    else .object members
  | j => j

/-- Mask what differs from run to run. -/
def normalize (j : Json) : Json := maskTimestamps (maskTool j)

end AssemblyPolicy
