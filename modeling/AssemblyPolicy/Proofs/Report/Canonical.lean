import AssemblyPolicy.Check.Basic
import AssemblyPolicy.Proofs.Json.Parts
import AssemblyPolicy.Proofs.Report.Composition
import AssemblyPolicy.Proofs.Report.Path
import AssemblyPolicy.Proofs.Report.Roundtrip

/-!
# Canonical paths in reports

The paths in the report of a check are canonical. Those in a report that is read are what the text has
in their places, so they are canonical only if they were written so (`Report.canonical_paths`).
-/

namespace AssemblyPolicy

open Json

/-! ### Paths -/

/-- The paths of the findings and entries of a report. -/
def Report.paths (r : Report) : List ArtifactPath :=
  r.findings.filterMap (·.location.map (·.path)) ++ r.summary.assemblies.map (·.path)

/-- The items of a list, and nothing for any other value. -/
def Json.itemsOf : Option Json → List Json
  | some (.array items) => items
  | _ => []

/-- What the findings of a report have in the places of paths. -/
def Json.findingPaths (findings : Option Json) : List Json :=
  (itemsOf findings).filterMap fun f => (f.part? "location" 4).bind (part? "path" 0)

/-- What the entries in the data of a report have in the places of paths. -/
def Json.entryPaths (data : Option Json) : List Json :=
  (itemsOf (data.bind (part? "assemblies" 7))).filterMap (part? "path" 0)

/-- What a value that shows a report has in the places of paths. -/
def Json.pathTexts (j : Json) : List Json :=
  findingPaths (j.part? "findings" 5) ++ entryPaths (j.part? "data" 6)

/-! ### Reports of checks -/

variable {policy : Policy} {outcomes : List FileOutcome} {p : ArtifactPath} {r : Report}

lemma exists_of_mem_paths_report {startedAt finishedAt : Timestamp}
    (hp : p ∈ (Checkup.report ⟨policy, evaluate policy outcomes⟩ startedAt finishedAt).paths) :
    ∃ o ∈ outcomes, p = o.path := by
  rcases List.mem_append.mp hp with hp | hp
  · obtain ⟨f, hf, hlocation⟩ := List.mem_filterMap.mp hp
    obtain ⟨o, ho, hfo⟩ := mem_findings_iff.mp hf
    rw [FileOutcome.path_of_mem_findings hfo, Option.some.injEq] at hlocation
    exact ⟨o, ho, hlocation.symm⟩
  · obtain ⟨v, hv, rfl⟩ := List.mem_map.mp hp
    obtain ⟨o, ho, rfl⟩ := mem_assemblies_iff.mp hv
    exact ⟨o, ho, rfl⟩

/-! ### Reports that are read -/

lemma ArtifactPath.decode_takes : decode.Takes fun v p => v = .string p.text := by
  intro o s v p hs hp
  obtain ⟨text, htext, rfl⟩ := map_eq_ok_iff.mp hp
  exact Decoder.string_takes o s v text hs htext

/-- A record whose first field is a path. -/
lemma path_takes {α : Type} {rest : Fields α} :
    ((Fields.required "path" ArtifactPath.decode).and rest).Takes fun v index a =>
      v.part? "path" index = some (.string a.1.text) := by
  refine ((Fields.required_takes ArtifactPath.decode_takes).before rest).mono ?_
  rintro v index a ⟨w, hw, rfl⟩
  exact hw

lemma Location.decode_takes :
    decode.Takes fun v l => v.part? "path" 0 = some (.string l.path.text) :=
  Decoder.record_takes (r := fun v index (l : Location) => v.part? "path" index = some (.string l.path.text))
    (.map path_takes)

lemma AssemblyVerdict.decode_takes :
    decode.Takes fun v a => v.part? "path" 0 = some (.string a.path.text) :=
  Decoder.record_takes (r := fun v index (a : AssemblyVerdict) => v.part? "path" index = some (.string a.path.text))
    (.map path_takes)

lemma Finding.decode_takes : decode.Takes fun v f =>
    (v.part? "location" 4).bind (part? "path" 0) = f.location.map fun l => .string l.path.text := by
  have hlocation : (Fields.nullable "location" Location.decode).Takes fun v index l =>
      (v.part? "location" index).bind (part? "path" 0) = l.map fun l => .string l.path.text := by
    refine (Fields.field_takes Location.decode_takes.option).mono ?_
    rintro v index l (⟨w, hw, ⟨rfl, rfl⟩ | ⟨l, rfl, hl⟩⟩ | ⟨hnone, hl | hl⟩)
    · rw [hw]
      rfl
    · rw [hw]
      exact hl
    · obtain rfl := Option.some.inj hl
      rw [hnone]
      rfl
    · cases hl
  refine Decoder.record_takes (r := fun v index (f : Finding) =>
    (v.part? "location" (index + 4)).bind (part? "path" 0) =
      f.location.map fun l => .string l.path.text) (.map ?_)
  -- Four fields come before the location.
  exact ((((hlocation.before _).after _).after _).after _).after _

lemma Summary.decode_takes : decode.Takes fun v s =>
    entryPaths (some v) = s.assemblies.map fun a => .string a.path.text := by
  have hassemblies : (Fields.withDefault "assemblies" [] AssemblyVerdict.decode.list).Takes
      fun v index as => (itemsOf (v.part? "assemblies" index)).filterMap (part? "path" 0) =
        as.map fun a => .string a.path.text := by
    refine (Fields.withDefault_takes AssemblyVerdict.decode_takes.list).mono ?_
    rintro v index as (⟨w, hw, vs, rfl, has⟩ | ⟨hnone, rfl⟩)
    · rw [hw, ← List.filterMap_eq_map]
      exact filterMap_eq_of_forall₂ has
    · rw [hnone]
      rfl
  refine Decoder.record_takes (r := fun v index (s : Summary) =>
    (itemsOf (v.part? "assemblies" (index + 7))).filterMap (part? "path" 0) =
      s.assemblies.map fun a => .string a.path.text) (.map ?_)
  exact ((((((hassemblies.after _).after _).after _).after _).after _).after _).after _

lemma Report.decode_takes : decode.Takes fun v r => v.pathTexts = r.paths.map (.string ·.text) := by
  have hfindings : (Fields.required "findings" Finding.decode.list).Takes fun v index fs =>
      findingPaths (v.part? "findings" index) =
        fs.filterMap fun f => f.location.map fun l => .string l.path.text := by
    refine (Fields.required_takes Finding.decode_takes.list).mono ?_
    rintro v index fs ⟨w, hw, vs, rfl, hfs⟩
    rw [hw]
    exact filterMap_eq_of_forall₂ hfs
  have hdata : (Fields.required "data" Summary.decode).Takes fun v index s =>
      entryPaths (v.part? "data" index) = s.assemblies.map fun a => .string a.path.text := by
    refine (Fields.required_takes Summary.decode_takes).mono ?_
    rintro v index s ⟨w, hw, hs⟩
    rw [hw]
    exact hs
  refine Decoder.Takes.mono (Decoder.record_takes (r := fun v index (r : Report) =>
    findingPaths (v.part? "findings" (index + 5)) =
        r.findings.filterMap (fun f => f.location.map fun l => .string l.path.text) ∧
      entryPaths (v.part? "data" (index + 6)) =
        r.summary.assemblies.map fun a => .string a.path.text) (.map ?_)) ?_
  · exact (((((hfindings.and hdata).after _).after _).after _).after _).after _
  · rintro v r ⟨hf, hd⟩
    rw [pathTexts, hf, hd, paths, List.map_append, List.map_filterMap, List.map_map]
    simp only [Option.map_map, Function.comp_def]

lemma Report.exists_of_parse {text : String} (h : Report.parse text = .ok r) :
    ∃ j, Json.parse text = .ok j ∧ j.pathTexts = r.paths.map (.string ·.text) := by
  obtain ⟨j, hparse, hr⟩ := bind_eq_ok_iff.mp h
  refine ⟨j, mapError_eq_ok_iff.mp hparse, ?_⟩
  rw [ofJson] at hr
  split at hr
  · exact decode_takes.ofValue (mapError_eq_ok_iff.mp hr)
  · cases hr

lemma Report.forall_isCanonical_iff {j : Json} (h : j.pathTexts = r.paths.map (.string ·.text)) :
    (∀ p ∈ r.paths, p.IsCanonical) ↔
      ∀ s, .string s ∈ j.pathTexts → (⟨s⟩ : ArtifactPath).IsCanonical := by
  rw [h]
  constructor
  · intro hcanonical s hs
    obtain ⟨p, hp, htext⟩ := List.mem_map.mp hs
    obtain rfl := Json.string.inj htext
    exact hcanonical p hp
  · intro hcanonical p hp
    exact hcanonical p.text (List.mem_map_of_mem hp)

/-! ### Reports with any path -/

/-- A report with one finding and one entry, which have the same path. -/
def Report.showing (p : ArtifactPath) : Report :=
  { FullReport.report with
    findings := [{ FullReport.bare with location := some ⟨p, none⟩ }]
    summary := { FullReport.report.summary with assemblies := [⟨p, none, true, 0⟩] } }

lemma Report.writable_showing (p : ArtifactPath) : (showing p).Writable := by
  have hdepth : Json.null.depth < 100 := by decide
  have hviolations : 0 < UInt32.size := by decide
  exact
    { FullReport.writable_report with
      findings := List.forall_mem_singleton.mpr ⟨.null, .null, hdepth⟩
      summary :=
        { FullReport.writable_report.summary with
          violations := List.forall_mem_singleton.mpr hviolations } }

/-- How canonical the paths are that arise from a text, as a path or as a report. -/
structure Report.CanonicalPaths (text : String) : Prop where
  path : (ArtifactPath.ofString text).IsCanonical
  current : (default : ArtifactPath).IsCanonical
  check : ∀ (t : FileTree) (w : Json.Wording) (policy : Policy) (refs : AssemblySet)
    (files : List Path) (startedAt finishedAt : Timestamp), ∀ p ∈ (Checkup.report
      ⟨policy, evaluate policy (files.map (t.outcome w policy refs))⟩ startedAt finishedAt).paths,
    p.IsCanonical
  /-- The paths of a report that is read are the texts in their places. -/
  parse : ∀ r, Report.parse text = .ok r → ∃ j, Json.parse text = .ok j ∧
    j.pathTexts = r.paths.map (.string ·.text) ∧
    ((∀ p ∈ r.paths, p.IsCanonical) ↔
      ∀ s, .string s ∈ j.pathTexts → (⟨s⟩ : ArtifactPath).IsCanonical)
  /-- Any path is read from some report. -/
  exists_parse : ∀ p, ∃ text r, Report.parse text = .ok r ∧ r.paths = [p, p]

/-- Texts are normalized where paths are made of them, but not where reports are read. -/
theorem Report.canonical_paths (text : String) : CanonicalPaths text where
  path := ArtifactPath.isCanonical_ofString text
  current := ArtifactPath.isCanonical_ofString "."
  check := by
    intro t w policy refs files startedAt finishedAt p hp
    obtain ⟨o, ho, rfl⟩ := exists_of_mem_paths_report hp
    obtain ⟨file, -, rfl⟩ := List.mem_map.mp ho
    exact ArtifactPath.isCanonical_ofString file.text
  parse := by
    intro r hparse
    obtain ⟨j, hj, htexts⟩ := exists_of_parse hparse
    exact ⟨j, hj, htexts, forall_isCanonical_iff htexts⟩
  exists_parse := fun p => ⟨_, showing p, (writable_showing p).parse_serialize, rfl⟩

/-- A path with backslashes and a mark of the working directory is read as it is. -/
theorem Report.parse_backslashed :
    Report.parse (showing ⟨".\\mods\\Mod.json"⟩).serialize = .ok (showing ⟨".\\mods\\Mod.json"⟩) ∧
      ¬ ∀ p ∈ (showing ⟨".\\mods\\Mod.json"⟩).paths, p.IsCanonical :=
  ⟨(writable_showing _).parse_serialize, by decide⟩

/-- The report is read from a text with canonical paths. -/
theorem FullReport.isCanonical_paths : Report.parse report.serialize = .ok report ∧
    ∃ j, Json.parse report.serialize = .ok j ∧
      ∀ s, .string s ∈ j.pathTexts → (⟨s⟩ : ArtifactPath).IsCanonical := by
  have hparse : Report.parse report.serialize = .ok report := writable_report.parse_serialize
  obtain ⟨j, hj, -, hcanonical⟩ := (Report.canonical_paths report.serialize).parse _ hparse
  exact ⟨hparse, j, hj, hcanonical.mp (by decide)⟩

end AssemblyPolicy
