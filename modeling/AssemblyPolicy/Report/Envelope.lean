import AssemblyPolicy.Json.Decoder
import AssemblyPolicy.Report.Timestamp
import AssemblyPolicy.Report.View
import AssemblyPolicy.Text.Complaint

/-!
# Reports as files

A `Report` is an evaluation with the tool that made it and the time it took. It is written as JSON
with its fields in a fixed order, and read back by `Report.parse`.
-/

namespace AssemblyPolicy

open Json

def reportSchema : String := "modguard.report.v1"

/-- The program that made a report. -/
structure Tool where
  name : String
  version : String
  deriving DecidableEq, Inhabited

/-- A report as it is kept in a file. -/
structure Report where
  schema : String
  tool : Tool
  startedAt : Timestamp
  finishedAt : Timestamp
  verdict : Verdict
  findings : List Finding
  summary : Summary
  deriving Inhabited

def Report.view (r : Report) : ReportView := .of r.verdict r.findings r.summary

/-! ### Writing -/

def Location.toJson (l : Location) : Json :=
  .record [("path", some (.string l.path.text)), ("member", l.member.map .string)]

/-- The value, unless it is null. -/
def Json.unlessNull : Json → Option Json
  | .null => none
  | j => some j

def Finding.toJson (f : Finding) : Json :=
  .record
    [("severity", some (.string f.severity.name)), ("check_id", some (.string f.checkId)),
      ("code", some (.string f.code)), ("message", some (.string f.message)),
      ("location", f.location.map Location.toJson), ("help", f.help.map .string),
      ("url", f.url.map .string), ("fingerprint", f.fingerprint.map .string),
      ("data", f.data.unlessNull)]

def AssemblyVerdict.toJson (a : AssemblyVerdict) : Json :=
  .record
    [("path", some (.string a.path.text)), ("assembly", a.assembly.map .string),
      ("accepted", some (.bool a.accepted)), ("violations", some (.nat a.violations))]

def Summary.toJson (s : Summary) : Json :=
  .record
    [("profile", some (.string s.profile)), ("assemblies_scanned", some (.nat s.assembliesScanned)),
      ("assemblies_rejected", some (.nat s.assembliesRejected)),
      ("types_scanned", some (.nat s.typesScanned)),
      ("members_scanned", some (.nat s.membersScanned)),
      ("restrictions_evaluated", some (.nat s.restrictionsEvaluated)),
      ("findings_total", some (.nat s.findingsTotal)),
      ("assemblies", some (.array (s.assemblies.map AssemblyVerdict.toJson)))]

def Tool.toJson (t : Tool) : Json :=
  .record [("name", some (.string t.name)), ("version", some (.string t.version))]

def Report.toJson (r : Report) : Json :=
  .record
    [("schema", some (.string r.schema)), ("tool", some r.tool.toJson),
      ("started_at", some (.string r.startedAt.render)),
      ("finished_at", some (.string r.finishedAt.render)),
      ("verdict", some (.string r.verdict.name)),
      ("findings", some (.array (r.findings.map Finding.toJson))),
      ("data", some r.summary.toJson)]

def Report.serialize (r : Report) : String := r.toJson.pretty

/-! ### Reading -/

/-- Decode one of some names, given as a text or as an object that has the name as its only key and
null as its value. -/
def Json.Decoder.choice {α : Type} (variants : List (String × α)) : Decoder α
  | o, .string s span => (Decoder.variant variants s).mapError (o.failAt span)
  | o, .object ms _ span =>
    match ms with
    | [⟨.ok key, _, s⟩] => do
      let a ← (Decoder.variant variants key).mapError (o.failAt span)
      match s with
      | .null _ => .ok a
      | s => .error (o.mismatch "unit" s)
    | [⟨.error f, _, _⟩] => .error (.ofFault f)
    | _ => do
      let o ← o.enter span
      .error (o.failAt span (.invalidValue .map "map with a single key"))
  | o, s => .error (o.mismatch "string or map" s)

def Timestamp.decode : Decoder Timestamp
  | o, .string s span =>
    (Timestamp.read s).mapError fun e => o.failAt span (.unreadable "time" e.message)
  | o, s => .error (o.mismatch "an RFC3339-formatted `OffsetDateTime`" s)

/-- Decode a path. It is taken as it is. -/
def ArtifactPath.decode : Decoder ArtifactPath :=
  fun o s => (Decoder.string o s).map ArtifactPath.mk

def Location.decode : Decoder Location := Decoder.record "Location" <|
  ((Fields.required "path" ArtifactPath.decode).and <|
    Fields.nullable "member" Decoder.string).map
    fun (path, member) => ⟨path, member⟩

def Finding.decode : Decoder Finding := Decoder.record "Finding" <|
  ((Fields.required "severity" (Decoder.choice Severity.byName)).and <|
    (Fields.required "check_id" Decoder.string).and <|
    (Fields.required "code" Decoder.string).and <|
    (Fields.required "message" Decoder.string).and <|
    (Fields.nullable "location" Location.decode).and <|
    (Fields.nullable "help" Decoder.string).and <|
    (Fields.nullable "url" Decoder.string).and <|
    (Fields.nullable "fingerprint" Decoder.string).and <|
    Fields.withDefault "data" Json.null Decoder.any).map
    fun (severity, checkId, code, message, location, help, url, fingerprint, data) =>
      ⟨severity, checkId, code, message, location, help, url, fingerprint, data⟩

def AssemblyVerdict.decode : Decoder AssemblyVerdict := Decoder.record "AssemblyVerdict" <|
  ((Fields.required "path" ArtifactPath.decode).and <|
    (Fields.nullable "assembly" Decoder.string).and <|
    (Fields.required "accepted" Decoder.bool).and <|
    Fields.required "violations" Decoder.u32).map
    fun (path, assembly, accepted, violations) => ⟨path, assembly, accepted, violations⟩

def Summary.decode : Decoder Summary := Decoder.record "ModguardData" <|
  ((Fields.required "profile" Decoder.string).and <|
    (Fields.required "assemblies_scanned" Decoder.u32).and <|
    (Fields.required "assemblies_rejected" Decoder.u32).and <|
    (Fields.required "types_scanned" Decoder.u32).and <|
    (Fields.required "members_scanned" Decoder.u32).and <|
    (Fields.required "restrictions_evaluated" Decoder.u32).and <|
    (Fields.required "findings_total" Decoder.u32).and <|
    Fields.withDefault "assemblies" [] AssemblyVerdict.decode.list).map
    fun (profile, scanned, rejected, types, members, restrictions, total, assemblies) =>
      ⟨profile, scanned, rejected, types, members, restrictions, total, assemblies⟩

def Tool.decode : Decoder Tool := Decoder.record "ToolMeta" <|
  ((Fields.required "name" Decoder.string).and <| Fields.required "version" Decoder.string).map
    fun (name, version) => ⟨name, version⟩

def Report.decode : Decoder Report := Decoder.record "ReportEnvelope" <|
  ((Fields.required "schema" Decoder.string).and <|
    (Fields.required "tool" Tool.decode).and <|
    (Fields.required "started_at" Timestamp.decode).and <|
    (Fields.required "finished_at" Timestamp.decode).and <|
    (Fields.required "verdict" (Decoder.choice Verdict.byName)).and <|
    (Fields.required "findings" Finding.decode.list).and <|
    Fields.required "data" Summary.decode).map
    fun (schema, tool, startedAt, finishedAt, verdict, findings, summary) =>
      ⟨schema, tool, startedAt, finishedAt, verdict, findings, summary⟩

inductive ReportError where
  | notJson (e : LocatedError)
  | unknownSchema (schema : String)
  | undecodable (e : DecodeError)
  deriving DecidableEq

def ReportError.complaint (w : Wording) : ReportError → Complaint
  | notJson e => ⟨"parse report json", [e.message w]⟩
  | unknownSchema schema => .plain ("unknown report schema: " ++ schema)
  | undecodable e => ⟨"parse modguard report", [e.message w]⟩

/-- The schema that a value says it has; empty when there is none. -/
def declaredSchema (j : Json) : String := ((j.get? "schema").bind (·.text?)).getD ""

def Report.ofJson (j : Json) : Except ReportError Report :=
  if declaredSchema j = reportSchema then (Report.decode.ofValue j).mapError .undecodable
  else .error (.unknownSchema (declaredSchema j))

def Report.parse (text : String) : Except ReportError Report := do
  let j ← (Json.parse text).mapError .notJson
  Report.ofJson j

/-! ### Reports of failed runs -/

def modguard : Tool := ⟨"modguard", "0.1.0"⟩

/-- The report of a run that could not be completed, so that there is always one. -/
def Report.ofRuntimeError (message : String) (now : Timestamp) : Report where
  schema := reportSchema
  tool := modguard
  startedAt := now
  finishedAt := now
  verdict := .fail
  findings :=
    [{ severity := .error
       checkId := "tool.runtime"
       code := "runtime_error"
       message := message
       location := none
       help := some "Fix the tool error and re-run modguard."
       url := none
       fingerprint := none
       data := .null }]
  summary :=
    { profile := "unknown"
      assembliesScanned := 0
      assembliesRejected := 0
      typesScanned := 0
      membersScanned := 0
      restrictionsEvaluated := 0
      findingsTotal := 1
      assemblies := [] }

end AssemblyPolicy
