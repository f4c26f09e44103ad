import AssemblyPolicy.Proofs.Json.Decoding
import AssemblyPolicy.Proofs.Report.Timestamp
import AssemblyPolicy.Report.Envelope

/-!
# Writing and reading reports

A report that was written is read back as it was, and a text without the schema of reports is not
read (`Report.roundtrip`). A text is read by way of a value whose objects are sorted by key, so the
decoders are shown to read sorted records.
-/

namespace AssemblyPolicy

open Json

/-! ### Reports that can be written -/

/-- Details of a finding as a payload holds them: integers of 64 bits and no doubles, objects sorted
by key, and less than a hundred containers in one another. -/
structure Finding.Writable (f : Finding) : Prop where
  exact : f.data.Exact
  sorted : f.data.Sorted
  depth : f.data.depth < 100

/-- All counters fit 32 bits. -/
structure Summary.Fits (s : Summary) : Prop where
  assembliesScanned : s.assembliesScanned < UInt32.size
  assembliesRejected : s.assembliesRejected < UInt32.size
  typesScanned : s.typesScanned < UInt32.size
  membersScanned : s.membersScanned < UInt32.size
  restrictionsEvaluated : s.restrictionsEvaluated < UInt32.size
  findingsTotal : s.findingsTotal < UInt32.size
  violations : ∀ a ∈ s.assemblies, a.violations < UInt32.size

structure Report.Writable (r : Report) : Prop where
  schema : r.schema = "modguard.report.v1"
  startedAt : r.startedAt.Representable
  finishedAt : r.finishedAt.Representable
  findings : ∀ f ∈ r.findings, f.Writable
  summary : r.summary.Fits

/-! ### Decoding what was encoded and sorted -/

variable (n : Nat)

lemma choice_reads {α : Type} {variants : List (String × α)} {name : String} {a : α}
    (h : variants.lookup name = some a) : (Decoder.choice variants).Reads n (.string name) a := by
  intro o s _ hs
  cases hs with
  | string _ span => simp only [Decoder.choice, Decoder.variant, h, Except.mapError]

lemma Severity.reads (s : Severity) : (Decoder.choice byName).Reads n (.string s.name) s := by
  cases s with
  | info | warning | error => exact choice_reads n rfl

lemma Verdict.reads (v : Verdict) : (Decoder.choice byName).Reads n (.string v.name) v := by
  cases v with
  | pass | warn | fail => exact choice_reads n rfl

lemma Timestamp.reads {text : String} {t : Timestamp} (h : Timestamp.read text = .ok t) :
    Timestamp.decode.Reads n (.string text) t := by
  intro o s _ hs
  cases hs with
  | string _ span => simp only [Timestamp.decode, h, Except.mapError]

lemma ArtifactPath.reads (p : ArtifactPath) : ArtifactPath.decode.Reads n (.string p.text) p :=
  fun o s ho hs => congrArg (Except.map ArtifactPath.mk) (Decoder.string_reads n p.text o s ho hs)

/-- A text that may be left out. -/
lemma nullable_text_reads {entries : List (String × Option Json)} {name : String}
    {text : Option String} (h : (name, text.map .string) ∈ entries) :
    (Fields.nullable name Decoder.string).Reads n entries text :=
  Fields.optional_reads h (fun s _ => Decoder.string_reads n s) nofun

lemma Tool.reads (t : Tool) : Tool.decode.Reads (n + 1) t.toJson.sorted t := by
  refine Decoder.record_reads_sorted (.map (a := (t.name, t.version)) _ ?_) rfl (by decide)
  refine .and (Fields.field_reads ?_ (Decoder.string_reads n t.name))
    (Fields.field_reads ?_ (Decoder.string_reads n t.version))
  all_goals simp [sortedEntries]

lemma Location.reads (l : Location) : Location.decode.Reads (n + 1) l.toJson.sorted l := by
  refine Decoder.record_reads_sorted (.map (a := (l.path, l.member)) _ ?_) rfl (by decide)
  refine .and (Fields.field_reads ?_ (l.path.reads n)) (nullable_text_reads n ?_)
  · simp [sortedEntries]
  · simp [sortedEntries, Function.comp_def]

variable {n}

lemma AssemblyVerdict.reads {a : AssemblyVerdict} (h : a.violations < UInt32.size) :
    AssemblyVerdict.decode.Reads (n + 1) a.toJson.sorted a := by
  refine Decoder.record_reads_sorted
    (.map (a := (a.path, a.assembly, a.accepted, a.violations)) _ ?_) rfl (by decide)
  refine .and (Fields.field_reads ?_ (a.path.reads n)) (.and (nullable_text_reads n ?_)
    (.and (Fields.field_reads ?_ (Decoder.bool_reads n a.accepted))
      (Fields.field_reads ?_ (Decoder.u32_reads n h))))
  all_goals simp [sortedEntries, Function.comp_def]

lemma Summary.Fits.reads {s : Summary} (h : s.Fits) :
    Summary.decode.Reads (n + 3) s.toJson.sorted s := by
  have hassemblies : AssemblyVerdict.decode.list.Reads (n + 2)
      (.array (s.assemblies.map fun a => a.toJson.sorted)) s.assemblies :=
    Decoder.list_reads fun a ha => AssemblyVerdict.reads (h.violations a ha)
  refine Decoder.record_reads_sorted (.map (a := (s.profile, s.assembliesScanned,
    s.assembliesRejected, s.typesScanned, s.membersScanned, s.restrictionsEvaluated,
    s.findingsTotal, s.assemblies)) _ ?_) rfl (by decide)
  refine .and (Fields.field_reads ?_ (Decoder.string_reads _ s.profile))
    (.and (Fields.field_reads ?_ (Decoder.u32_reads _ h.assembliesScanned))
    (.and (Fields.field_reads ?_ (Decoder.u32_reads _ h.assembliesRejected))
    (.and (Fields.field_reads ?_ (Decoder.u32_reads _ h.typesScanned))
    (.and (Fields.field_reads ?_ (Decoder.u32_reads _ h.membersScanned))
    (.and (Fields.field_reads ?_ (Decoder.u32_reads _ h.restrictionsEvaluated))
    (.and (Fields.field_reads ?_ (Decoder.u32_reads _ h.findingsTotal))
      (Fields.field_reads ?_ hassemblies)))))))
  all_goals simp [sortedEntries, Function.comp_def]

/-- A payload that is null is left out and taken for null when it is missing. -/
lemma payload_reads {entries : List (String × Option Json)} {v : Json} (hsorted : v.Sorted)
    (hdepth : v.depth ≤ n) (h : ("data", v.unlessNull.map Json.sorted) ∈ entries) :
    (Fields.withDefault "data" .null Decoder.any).Reads n entries v := by
  have hany : Decoder.any.Reads n v v := by
    have hread := Decoder.any_reads hdepth
    rwa [hsorted.sorted_eq] at hread
  cases v with
  | null => exact Fields.field_reads_absent h
  | bool | number | string | array | object =>
    refine Fields.field_reads ?_ hany
    rw [← hsorted.sorted_eq]
    exact h

lemma Finding.reads {f : Finding} (hsorted : f.data.Sorted) (hdepth : f.data.depth ≤ n + 1) :
    Finding.decode.Reads (n + 2) f.toJson.sorted f := by
  have hlocation : ∀ l, f.location = some l → Location.decode.Reads (n + 1) l.toJson.sorted l :=
    fun l _ => l.reads n
  refine Decoder.record_reads_sorted (.map (a := (f.severity, f.checkId, f.code, f.message,
    f.location, f.help, f.url, f.fingerprint, f.data)) _ ?_) rfl (by decide)
  refine .and (Fields.field_reads ?_ (f.severity.reads _))
    (.and (Fields.field_reads ?_ (Decoder.string_reads _ f.checkId))
    (.and (Fields.field_reads ?_ (Decoder.string_reads _ f.code))
    (.and (Fields.field_reads ?_ (Decoder.string_reads _ f.message))
    (.and (Fields.optional_reads ?_ hlocation fun _ => sorted_record_ne_null _)
    (.and (nullable_text_reads _ ?_) (.and (nullable_text_reads _ ?_)
    (.and (nullable_text_reads _ ?_) (payload_reads hsorted hdepth ?_))))))))
  all_goals simp [sortedEntries, Function.comp_def]

lemma Report.Writable.reads {r : Report} (h : r.Writable) :
    Report.decode.Reads 102 r.toJson.sorted r := by
  have hfindings : Finding.decode.list.Reads 101
      (.array (r.findings.map fun f => f.toJson.sorted)) r.findings := by
    refine Decoder.list_reads fun f hf => ?_
    exact Finding.reads (h.findings f hf).sorted (Nat.le_of_lt_succ (h.findings f hf).depth)
  have htool : Tool.decode.Reads 101 r.tool.toJson.sorted r.tool := r.tool.reads _
  have hsummary : Summary.decode.Reads 101 r.summary.toJson.sorted r.summary := h.summary.reads
  refine Decoder.record_reads_sorted (.map (a := (r.schema, r.tool, r.startedAt, r.finishedAt,
    r.verdict, r.findings, r.summary)) _ ?_) rfl (by decide)
  refine .and (Fields.field_reads ?_ (Decoder.string_reads _ r.schema))
    (.and (Fields.field_reads ?_ htool)
    (.and (Fields.field_reads ?_ (Timestamp.reads _ h.startedAt.read_render))
    (.and (Fields.field_reads ?_ (Timestamp.reads _ h.finishedAt.read_render))
    (.and (Fields.field_reads ?_ (r.verdict.reads _))
    (.and (Fields.field_reads ?_ hfindings) (Fields.field_reads ?_ hsummary))))))
  all_goals simp [sortedEntries, Function.comp_def]

/-! ### Texts of reports -/

lemma Location.exact_toJson (l : Location) : Exact l.toJson := by
  simp [toJson, exact_record_iff, Exact.string]

lemma eq_of_unlessNull {j v : Json} (h : j.unlessNull = some v) : v = j := by
  cases j with
  | null => cases h
  | bool | number | string | array | object => exact (Option.some.inj h).symm

lemma Finding.Writable.exact_toJson {f : Finding} (h : f.Writable) : Exact f.toJson := by
  have hdata : ∀ v, f.data.unlessNull = some v → Exact v :=
    fun v hv => eq_of_unlessNull hv ▸ h.exact
  simpa [toJson, exact_record_iff, Exact.string, Location.exact_toJson] using hdata

lemma Summary.Fits.exact_toJson {s : Summary} (h : s.Fits) : Exact s.toJson := by
  have hassembly : ∀ a ∈ s.assemblies, Exact a.toJson := by
    intro a ha
    simp [AssemblyVerdict.toJson, exact_record_iff, Exact.string, Exact.bool,
      exact_u32 (h.violations a ha)]
  simpa [toJson, exact_record_iff, exact_array_iff, Exact.string, exact_u32 h.assembliesScanned,
    exact_u32 h.assembliesRejected, exact_u32 h.typesScanned, exact_u32 h.membersScanned,
    exact_u32 h.restrictionsEvaluated, exact_u32 h.findingsTotal] using hassembly

lemma Report.Writable.exact_toJson {r : Report} (h : r.Writable) : Exact r.toJson := by
  have hfinding : ∀ f ∈ r.findings, Exact f.toJson := fun f hf => (h.findings f hf).exact_toJson
  simpa [toJson, Tool.toJson, exact_record_iff, exact_array_iff, Exact.string,
    h.summary.exact_toJson] using hfinding

lemma Location.depth_toJson (l : Location) : l.toJson.depth ≤ 1 :=
  depth_record_le (by simp [depth])

lemma Finding.Writable.depth_toJson {f : Finding} (h : f.Writable) : f.toJson.depth ≤ 100 := by
  have hdata : ∀ v, f.data.unlessNull = some v → v.depth ≤ 99 :=
    fun v hv => eq_of_unlessNull hv ▸ Nat.le_of_lt_succ h.depth
  have hlocation : ∀ l, f.location = some l → l.toJson.depth ≤ 99 :=
    fun l _ => l.depth_toJson.trans (by decide)
  refine depth_record_le ?_
  simpa [Json.depth] using ⟨hlocation, hdata⟩

lemma Summary.depth_toJson (s : Summary) : s.toJson.depth ≤ 3 := by
  have hassemblies : (Json.array (s.assemblies.map AssemblyVerdict.toJson)).depth ≤ 2 := by
    refine depth_array_le (List.forall_mem_map.mpr fun a _ => depth_record_le ?_)
    simp [depth, nat]
  refine depth_record_le ?_
  simpa [depth, nat] using hassemblies

lemma Report.Writable.depth_toJson {r : Report} (h : r.Writable) : r.toJson.depth ≤ 102 := by
  have htool : r.tool.toJson.depth ≤ 101 :=
    (depth_record_le (n := 0) (by simp [depth])).trans (by decide)
  have hfindings : (Json.array (r.findings.map Finding.toJson)).depth ≤ 101 :=
    depth_array_le (List.forall_mem_map.mpr fun f hf => (h.findings f hf).depth_toJson)
  have hsummary : r.summary.toJson.depth ≤ 101 := r.summary.depth_toJson.trans (by decide)
  refine depth_record_le ?_
  simpa [depth] using ⟨htool, hfindings, hsummary⟩

/-! ### Reading what was written -/

lemma declaredSchema_eq_iff {j : Json} :
    declaredSchema j = reportSchema ↔
      j.get? "schema" = some (.string "modguard.report.v1") := by
  have hempty : "" ≠ reportSchema := by decide
  rw [declaredSchema]
  cases j.get? "schema" with
  | none => exact iff_of_false hempty nofun
  | some v =>
    cases v with
    | string s => simp [text?, reportSchema]
    | null | bool | number | array | object => exact iff_of_false hempty (by simp)

/-- What is read from the text of a report is its value, sorted. -/
lemma Report.Writable.parse_text {r : Report} (h : r.Writable) :
    Json.parse r.serialize = .ok r.toJson.sorted :=
  h.exact_toJson.parse_render (h.depth_toJson.trans (by decide)) (.pretty 0)

lemma Report.Writable.parse_serialize {r : Report} (h : r.Writable) :
    Report.parse r.serialize = .ok r := by
  have hschema : declaredSchema r.toJson.sorted = reportSchema := by
    rw [declaredSchema_eq_iff, ← h.schema, ← sorted_string]
    exact get?_sorted_record (by simp) (by simp)
  have hdecode : Report.decode.ofValue r.toJson.sorted = .ok r := h.reads.ofValue
  simp only [Report.parse, h.parse_text, Report.ofJson, hschema, if_true, hdecode, Except.mapError,
    bind, Except.bind]

/-- A report that can be written is read back as it was. A text that is no value, or that holds a
value without the schema of reports, is not read. -/
theorem Report.roundtrip :
    (∀ r : Report, r.Writable → Report.parse r.serialize = .ok r) ∧
      (∀ text j, Json.parse text = .ok j → j.get? "schema" ≠ some (.string "modguard.report.v1") →
        Report.parse text = .error (.unknownSchema (declaredSchema j))) ∧
      ∀ text e, Json.parse text = .error e → Report.parse text = .error (.notJson e) := by
  refine ⟨fun r h => h.parse_serialize, fun text j hparse hschema => ?_, fun text e hparse => ?_⟩
  · have hdeclared : declaredSchema j ≠ reportSchema := mt declaredSchema_eq_iff.mp hschema
    simp only [Report.parse, hparse, Report.ofJson, if_neg hdeclared, Except.mapError, bind,
      Except.bind]
  · simp only [Report.parse, hparse, Except.mapError, bind, Except.bind]

/-! ### A report with all its parts -/

namespace FullReport

def payload : Json :=
  .object
    [("counts", .array [.nat 1, .null]), ("nested", .object [("empty", .array [])]),
      ("nothing", .null)]

/-- A finding with all that a finding may have. -/
def located : Finding where
  severity := .warning
  checkId := "restriction.member"
  code := "prohibited_present"
  message := "Prohibited: \"A::Run()\"\n"
  location := some ⟨⟨"mods/Mod.json"⟩, some "A::Run()"⟩
  help := some "Remove it."
  url := some ""
  fingerprint := some "5f"
  data := payload

/-- A finding with no more than it must have. -/
def bare : Finding := ⟨.info, "tool.runtime", "runtime_error", "", none, none, none, none, .null⟩

def report : Report where
  schema := reportSchema
  tool := modguard
  startedAt := ⟨2024, 2, 29, 23, 59, 59, 120000000, -570⟩
  finishedAt := ⟨9999, 12, 31, 0, 0, 0, 0, 0⟩
  verdict := .warn
  findings := [located, bare]
  summary := ⟨"strict", 2, 0, 1, 4294967295, 3, 2,
    [⟨⟨"mods/Mod.json"⟩, some "Mod", true, 1⟩, ⟨⟨"mods/Other.json"⟩, none, true, 1⟩]⟩

lemma exact_payload : payload.Exact := by
  have hcounts : Exact (.array [.nat 1, .null]) := .array (by simp [Exact.null, exact_u32])
  have hnested : Exact (.object [("empty", .array [])]) := .object (by simp [exact_array_iff])
  exact .object (by simp [hcounts, hnested, Exact.null])

lemma sorted_payload : payload.Sorted := by
  have hcounts : Sorted (.array [.nat 1, .null]) :=
    .array (by simp [Sorted.null, nat, Sorted.number])
  have hempty : Sorted (.array []) := .array (by simp)
  have hnested : Sorted (.object [("empty", .array [])]) :=
    .object (List.pairwise_singleton _ _) (by simpa using hempty)
  have hkeys : KeysSorted [("counts", Json.array [.nat 1, .null]),
      ("nested", .object [("empty", .array [])]), ("nothing", .null)] := by
    simp only [KeysSorted, List.pairwise_cons]
    decide
  exact .object hkeys (by simp [hcounts, hnested, Sorted.null])

lemma writable_report : report.Writable where
  schema := rfl
  startedAt := ⟨by decide, by decide, by decide, by decide, by decide, by decide, by decide⟩
  finishedAt := ⟨by decide, by decide, by decide, by decide, by decide, by decide, by decide⟩
  findings := by
    have hlocated : located.Writable := ⟨exact_payload, sorted_payload, by decide⟩
    have hbare : bare.Writable := ⟨.null, .null, by decide⟩
    simp [report, hlocated, hbare]
  summary := ⟨by decide, by decide, by decide, by decide, by decide, by decide, by decide⟩

/-- The report is read back from its text. A null alone is no report. -/
theorem roundtrip_report : Report.parse report.serialize = .ok report ∧
    Report.parse "null" = .error (.unknownSchema "") := by
  have hnull : Json.parse "null" = .ok .null := by rfl
  have hschema : Json.null.get? "schema" ≠ some (.string "modguard.report.v1") := by simp [get?]
  exact ⟨Report.roundtrip.1 report writable_report,
    Report.roundtrip.2.1 "null" .null hnull hschema⟩

end FullReport

end AssemblyPolicy
