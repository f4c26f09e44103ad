import AssemblyPolicy.Proofs.Json.Decoding
import AssemblyPolicy.Proofs.Json.Steps
import AssemblyPolicy.Report.Envelope
import AssemblyPolicy.Report.Normalization

/-!
# What normalization keeps

Normalization puts masks at timestamps, at any depth, and at the version of the tool in a report.
What steps lead to without passing such a place is kept, so that two values have the same
normalization exactly when they agree in all that is kept (`normalize_masks`).
-/

namespace AssemblyPolicy

open Json

variable {v w : Json} {p : List Step} {s : Step} {members : List (String × Json)} {key : String}
  {f : Json → Json}

/-! ### Masks in objects -/

lemma maskItems_eq_map (items : List Json) : maskItems items = items.map maskTimestamps := by
  induction items with
  | nil => rfl
  | cons v items ih => rw [maskItems, ih, List.map_cons]

/-- What is put for the value of a member. -/
def maskValue (key : String) (v : Json) : Json :=
  if key ∈ timestampKeys then timestampMask else maskTimestamps v

lemma maskMembers_eq_mapValues (members : List (String × Json)) :
    maskMembers members = mapValues maskValue members := by
  induction members with
  | nil => rfl
  | cons m members ih =>
    obtain ⟨k, v⟩ := m
    rw [maskMembers, ih]
    rfl

lemma updateMember_eq_mapValues (key : String) (f : Json → Json)
    (members : List (String × Json)) :
    updateMember key f members = mapValues (fun k v => if k = key then f v else v) members := by
  refine List.map_congr_left fun m _ => ?_
  by_cases hkey : m.1 = key
  · simp only [hkey, if_true]
  · simp only [hkey, if_false]

lemma head_updateMember :
    (Json.object (updateMember key f members)).head = (Json.object members).head := by
  simp [head, updateMember_eq_mapValues]

lemma child?_updateMember_self : (Json.object (updateMember key f members)).child? (.member key) =
    ((Json.object members).child? (.member key)).map f := by
  simp [child?, updateMember_eq_mapValues, lookup_mapValues]

lemma Json.Sorted.updateMember (h : (Json.object members).Sorted)
    (hf : ∀ v, v.Sorted → (f v).Sorted) : (Json.object (updateMember key f members)).Sorted := by
  rw [updateMember_eq_mapValues]
  refine h.mapValues fun m _ hm => ?_
  split_ifs
  · exact hf m.2 hm
  · exact hm

lemma child?_updateMember_of_ne (h : s ≠ .member key) :
    (Json.object (updateMember key f members)).child? s = (Json.object members).child? s := by
  cases s with
  | member k =>
    have hk : k ≠ key := fun heq => h (heq ▸ rfl)
    simp [child?, updateMember_eq_mapValues, lookup_mapValues, hk]
  | item => rfl

/-! ### Timestamps -/

/-- Does the step lead to a timestamp? -/
def Json.Step.IsTimestamp : Step → Prop
  | .member key => key = "started_at" ∨ key = "finished_at"
  | .item _ => False

instance : DecidablePred Step.IsTimestamp
  | .member key => inferInstanceAs (Decidable (key = "started_at" ∨ key = "finished_at"))
  | .item _ => inferInstanceAs (Decidable False)

lemma mem_timestampKeys_iff : key ∈ timestampKeys ↔ (Step.member key).IsTimestamp := by
  simp [timestampKeys, Step.IsTimestamp]

@[simp] lemma head_maskTimestamps (v : Json) : (maskTimestamps v).head = v.head := by
  cases v with
  | null | bool | number | string => rfl
  | array items => simp [maskTimestamps, maskItems_eq_map, head]
  | object members => simp [maskTimestamps, maskMembers_eq_mapValues, head]

lemma child?_maskTimestamps_member (v : Json) (key : String) :
    (maskTimestamps v).child? (.member key) = (v.child? (.member key)).map (maskValue key) := by
  cases v with
  | null | bool | number | string | array => rfl
  | object members => simp only [maskTimestamps, maskMembers_eq_mapValues, child?, lookup_mapValues]

lemma child?_maskTimestamps_of_isTimestamp (h : s.IsTimestamp) :
    (maskTimestamps v).child? s = (v.child? s).map fun _ => timestampMask := by
  cases s with
  | member key =>
    have hkey : maskValue key = fun _ => timestampMask :=
      funext fun v => if_pos (mem_timestampKeys_iff.mpr h)
    rw [child?_maskTimestamps_member, hkey]
  | item => cases h

lemma child?_maskTimestamps (h : ¬ s.IsTimestamp) :
    (maskTimestamps v).child? s = (v.child? s).map maskTimestamps := by
  cases s with
  | member key =>
    have hkey : maskValue key = maskTimestamps :=
      funext fun v => if_neg (mt mem_timestampKeys_iff.mp h)
    rw [child?_maskTimestamps_member, hkey]
  | item i =>
    cases v with
    | null | bool | number | string | object => rfl
    | array items => simp [maskTimestamps, maskItems_eq_map, child?]

lemma at?_maskTimestamps (h : ∀ s ∈ p, ¬ s.IsTimestamp) :
    (maskTimestamps v).at? p = (v.at? p).map maskTimestamps := by
  induction p generalizing v with
  | nil => rfl
  | cons s p ih =>
    obtain ⟨hs, hp⟩ := List.forall_mem_cons.mp h
    simp only [at?, child?_maskTimestamps hs, Option.bind_map, Option.map_bind, Function.comp_def,
      ih hp]

lemma headAt?_maskTimestamps (h : ∀ s ∈ p, ¬ s.IsTimestamp) :
    (maskTimestamps v).headAt? p = v.headAt? p := by
  simp [headAt?, at?_maskTimestamps h, Function.comp_def]

/-- Values that agree in all but timestamps. -/
lemma headAt?_maskTimestamps_eq
    (h : ∀ p, (∀ s ∈ p, ¬ s.IsTimestamp) → v.headAt? p = w.headAt? p) (p : List Step) :
    (maskTimestamps v).headAt? p = (maskTimestamps w).headAt? p := by
  have hhead : v.head = w.head := by simpa using h []
  induction p generalizing v w with
  | nil => simp [hhead]
  | cons s p ih =>
    rcases child?_cases hhead s with ⟨hv, hw⟩ | ⟨x, y, hx, hy⟩
    · by_cases hs : s.IsTimestamp
      · simp [headAt?_cons, child?_maskTimestamps_of_isTimestamp hs, hv, hw]
      · simp [headAt?_cons, child?_maskTimestamps hs, hv, hw]
    · by_cases hs : s.IsTimestamp
      · simp [headAt?_cons, child?_maskTimestamps_of_isTimestamp hs, hx, hy]
      · have hpart : ∀ q, (∀ s ∈ q, ¬ s.IsTimestamp) → x.headAt? q = y.headAt? q := by
          intro q hq
          simpa [headAt?_cons, hx, hy] using h (s :: q) (List.forall_mem_cons.mpr ⟨hs, hq⟩)
        simpa [headAt?_cons, child?_maskTimestamps hs, hx, hy] using
          ih hpart (by simpa using hpart [])

lemma Json.Sorted.maskTimestamps (h : v.Sorted) : (maskTimestamps v).Sorted := by
  induction h with
  | null => exact .null
  | bool b => exact .bool b
  | number n => exact .number n
  | string t => exact .string t
  | array _ ih =>
    rw [AssemblyPolicy.maskTimestamps, maskItems_eq_map]
    exact .array (List.forall_mem_map.mpr ih)
  | object hkeys hmembers ih =>
    rw [AssemblyPolicy.maskTimestamps, maskMembers_eq_mapValues]
    refine (Sorted.object hkeys hmembers).mapValues fun m hm _ => ?_
    rw [maskValue]
    split_ifs
    · exact .string _
    · exact ih m hm

/-! ### The version of the tool -/

/-- An object that has all keys of a report. -/
def Json.IsReport (v : Json) : Prop :=
  ∀ key ∈ ["schema", "tool", "verdict", "findings", "data"], (v.child? (.member key)).isSome

instance : DecidablePred IsReport := fun v =>
  inferInstanceAs (Decidable
    (∀ key ∈ ["schema", "tool", "verdict", "findings", "data"], (v.child? (.member key)).isSome))

/-- The steps to the version in a report. -/
def versionSteps : List Step := [.member "tool", .member "version"]

lemma isReport_object_iff : (Json.object members).IsReport ↔ isReportShaped members = true := by
  simp [IsReport, isReportShaped, reportKeys, child?]

lemma isReport_iff_of_head_eq (h : v.head = w.head) : v.IsReport ↔ w.IsReport := by
  simp only [IsReport, isSome_child?_eq h]

lemma maskTool_of_not_isReport (h : ¬ v.IsReport) : maskTool v = v := by
  cases v with
  | null | bool | number | string | array => rfl
  | object members => exact if_neg (mt isReport_object_iff.mpr h)

lemma exists_maskTool_of_isReport (h : v.IsReport) :
    ∃ members, v = .object members ∧
      maskTool v = .object (updateMember "tool" maskVersion members) := by
  cases v with
  | null | bool | number | string | array => cases h "schema" (by simp)
  | object members => exact ⟨members, rfl, if_pos (isReport_object_iff.mp h)⟩

@[simp] lemma head_maskVersion (v : Json) : (maskVersion v).head = v.head := by
  cases v with
  | null | bool | number | string | array => rfl
  | object members => exact head_updateMember

lemma child?_maskVersion_version :
    (maskVersion v).child? (.member "version") =
      (v.child? (.member "version")).map fun _ => versionMask := by
  cases v with
  | null | bool | number | string | array => rfl
  | object members => exact child?_updateMember_self

lemma headAt?_maskVersion (h : ¬ [.member "version"] <+: p) :
    (maskVersion v).headAt? p = v.headAt? p := by
  cases p with
  | nil => simp
  | cons s p =>
    have hs : s ≠ .member "version" := fun heq => h ⟨p, heq ▸ rfl⟩
    cases v with
    | null | bool | number | string | array => rfl
    | object members => simp only [maskVersion, headAt?_cons, child?_updateMember_of_ne hs]

@[simp] lemma head_maskTool (v : Json) : (maskTool v).head = v.head := by
  by_cases h : v.IsReport
  · obtain ⟨members, rfl, hmask⟩ := exists_maskTool_of_isReport h
    rw [hmask, head_updateMember]
  · rw [maskTool_of_not_isReport h]

lemma child?_maskTool_tool (h : v.IsReport) :
    (maskTool v).child? (.member "tool") = (v.child? (.member "tool")).map maskVersion := by
  obtain ⟨members, rfl, hmask⟩ := exists_maskTool_of_isReport h
  rw [hmask, child?_updateMember_self]

lemma child?_maskTool_of_ne (h : s ≠ .member "tool") : (maskTool v).child? s = v.child? s := by
  by_cases hv : v.IsReport
  · obtain ⟨members, rfl, hmask⟩ := exists_maskTool_of_isReport hv
    rw [hmask, child?_updateMember_of_ne h]
  · rw [maskTool_of_not_isReport hv]

lemma at?_maskTool_versionSteps (h : v.IsReport) :
    (maskTool v).at? versionSteps = (v.at? versionSteps).map fun _ => versionMask := by
  simp [versionSteps, at?, child?_maskTool_tool h, child?_maskVersion_version, Option.bind_map,
    Option.map_bind]

lemma headAt?_maskTool (h : v.IsReport → ¬ versionSteps <+: p) :
    (maskTool v).headAt? p = v.headAt? p := by
  by_cases hv : v.IsReport
  · cases p with
    | nil => simp
    | cons s p =>
      rw [headAt?_cons, headAt?_cons]
      by_cases hs : s = .member "tool"
      · subst hs
        have hp : ¬ [.member "version"] <+: p := fun hp =>
          h hv ((List.prefix_cons_inj _).mpr hp)
        simp only [child?_maskTool_tool hv, Option.bind_map, Function.comp_def,
          headAt?_maskVersion hp]
      · rw [child?_maskTool_of_ne hs]
  · rw [maskTool_of_not_isReport hv]

lemma Json.Sorted.maskVersion (h : v.Sorted) : (maskVersion v).Sorted := by
  cases v with
  | null | bool | number | string | array => exact h
  | object members => exact h.updateMember fun _ _ => .string _

lemma Json.Sorted.maskTool (h : v.Sorted) : (maskTool v).Sorted := by
  by_cases hv : v.IsReport
  · obtain ⟨members, rfl, hmask⟩ := exists_maskTool_of_isReport hv
    exact hmask ▸ h.updateMember fun _ hx => hx.maskVersion
  · rwa [maskTool_of_not_isReport hv]

/-! ### Masking again -/

mutual

lemma maskTimestamps_maskTimestamps (v : Json) :
    maskTimestamps (maskTimestamps v) = maskTimestamps v := by
  match v with
  | .null | .bool _ | .number _ | .string _ => rfl
  | .array items => exact congrArg Json.array (maskItems_maskItems items)
  | .object members => exact congrArg Json.object (maskMembers_maskMembers members)

lemma maskItems_maskItems (items : List Json) : maskItems (maskItems items) = maskItems items := by
  match items with
  | [] => rfl
  | v :: rest =>
    rw [maskItems, maskItems, maskTimestamps_maskTimestamps v, maskItems_maskItems rest]

lemma maskMembers_maskMembers (members : List (String × Json)) :
    maskMembers (maskMembers members) = maskMembers members := by
  match members with
  | [] => rfl
  | (key, v) :: rest =>
    simp only [maskMembers, maskMembers_maskMembers rest]
    by_cases hkey : key ∈ timestampKeys
    · simp only [hkey, if_true]
    · simp only [hkey, if_false, maskTimestamps_maskTimestamps v]

end

lemma updateMember_updateMember (key : String) (f g : Json → Json)
    (members : List (String × Json)) :
    updateMember key f (updateMember key g members) = updateMember key (f ∘ g) members := by
  simp only [updateMember_eq_mapValues, mapValues_mapValues]
  refine congrArg (mapValues · members) (funext₂ fun k v => ?_)
  by_cases hk : k = key
  · simp only [hk, if_true, Function.comp_apply]
  · simp only [hk, if_false]

/-- A change at a key that is not a timestamp's goes with masking when it does on values. -/
lemma mapValues_maskValue_updateMember (hkey : key ∉ timestampKeys)
    (hf : ∀ v, maskTimestamps (f v) = f (maskTimestamps v)) :
    mapValues maskValue (updateMember key f members) =
      updateMember key f (mapValues maskValue members) := by
  simp only [updateMember_eq_mapValues, mapValues_mapValues]
  refine congrArg (mapValues · members) (funext₂ fun k v => ?_)
  by_cases hk : k = key
  · subst hk
    simp only [maskValue, hkey, if_true, if_false, hf]
  · simp only [hk, if_false]

lemma maskVersion_maskVersion (v : Json) : maskVersion (maskVersion v) = maskVersion v := by
  cases v with
  | null | bool | number | string | array => rfl
  | object members => exact congrArg Json.object (updateMember_updateMember _ _ _ members)

lemma maskTimestamps_maskVersion (v : Json) :
    maskTimestamps (maskVersion v) = maskVersion (maskTimestamps v) := by
  cases v with
  | null | bool | number | string | array => rfl
  | object members =>
    simp only [maskVersion, maskTimestamps, maskMembers_eq_mapValues]
    exact congrArg Json.object (mapValues_maskValue_updateMember (by decide) fun _ => rfl)

lemma maskTool_maskTool (v : Json) : maskTool (maskTool v) = maskTool v := by
  by_cases h : v.IsReport
  · obtain ⟨members, rfl, hmask⟩ := exists_maskTool_of_isReport h
    have hagain : (maskTool (.object members)).IsReport :=
      (isReport_iff_of_head_eq (head_maskTool _)).mpr h
    rw [hmask] at hagain ⊢
    rw [maskTool, if_pos (isReport_object_iff.mp hagain), updateMember_updateMember]
    exact congrArg (fun f => Json.object (updateMember "tool" f members))
      (funext maskVersion_maskVersion)
  · rw [maskTool_of_not_isReport h, maskTool_of_not_isReport h]

lemma maskTimestamps_maskTool (v : Json) :
    maskTimestamps (maskTool v) = maskTool (maskTimestamps v) := by
  have hreport : (maskTimestamps v).IsReport ↔ v.IsReport :=
    isReport_iff_of_head_eq (head_maskTimestamps v)
  by_cases h : v.IsReport
  · obtain ⟨members, rfl, hmask⟩ := exists_maskTool_of_isReport h
    rw [hmask]
    rw [← hreport] at h
    simp only [maskTimestamps, maskMembers_eq_mapValues] at h ⊢
    rw [maskTool, if_pos (isReport_object_iff.mp h)]
    exact congrArg Json.object
      (mapValues_maskValue_updateMember (by decide) maskTimestamps_maskVersion)
  · rw [maskTool_of_not_isReport h, maskTool_of_not_isReport (mt hreport.mp h)]

lemma normalize_normalize (v : Json) : normalize (normalize v) = normalize v := by
  simp only [normalize]
  rw [← maskTimestamps_maskTool, maskTimestamps_maskTimestamps, maskTool_maskTool]

/-! ### What is kept and what is masked -/

/-- The steps pass no place where normalization of the value puts a mask. -/
structure Json.Uncovered (v : Json) (p : List Step) : Prop where
  timestamps : ∀ s ∈ p, ¬ s.IsTimestamp
  version : v.IsReport → ¬ versionSteps <+: p

instance : Decidable (v.Uncovered p) :=
  decidable_of_iff ((∀ s ∈ p, ¬ s.IsTimestamp) ∧ (v.IsReport → ¬ versionSteps <+: p))
    ⟨fun ⟨h₁, h₂⟩ => ⟨h₁, h₂⟩, fun h => ⟨h.timestamps, h.version⟩⟩

/-- A value with masks for what differs from run to run, and nothing else changed: what steps lead to
has the same keys, the same length, or is the same scalar. -/
structure Json.Masked (v w : Json) : Prop where
  kept : ∀ p, v.Uncovered p → w.headAt? p = v.headAt? p
  timestamps : ∀ p, v.Uncovered p → ∀ s, s.IsTimestamp →
    w.at? (p ++ [s]) = (v.at? (p ++ [s])).map fun _ => timestampMask
  version : v.IsReport → w.at? versionSteps = (v.at? versionSteps).map fun _ => versionMask

lemma map_const_eq {α β : Type} {a b : Option α} (h : a.isSome = b.isSome) (c : β) :
    a.map (fun _ => c) = b.map fun _ => c := by
  cases a with
  | none => cases b with
    | none => rfl
    | some _ => cases h
  | some _ => cases b with
    | none => cases h
    | some _ => rfl

lemma masked_normalize (v : Json) : v.Masked (normalize v) where
  kept p hp := by rw [normalize, headAt?_maskTimestamps hp.timestamps, headAt?_maskTool hp.version]
  timestamps p hp s hs := by
    calc (normalize v).at? (p ++ [s])
      _ = ((maskTool v).at? (p ++ [s])).map fun _ => timestampMask := by
        simp only [normalize, at?_concat, at?_maskTimestamps hp.timestamps, Option.bind_map,
          Function.comp_def, child?_maskTimestamps_of_isTimestamp hs, Option.map_bind]
      _ = (v.at? (p ++ [s])).map fun _ => timestampMask :=
        map_const_eq (isSome_at?_concat_eq (headAt?_maskTool hp.version) s) _
  version h := by
    have hsteps : ∀ s ∈ versionSteps, ¬ s.IsTimestamp := by
      simp [versionSteps, Step.IsTimestamp]
    rw [normalize, at?_maskTimestamps hsteps, at?_maskTool_versionSteps h, Option.map_map]
    rfl

/-! ### Values with one normalization -/

lemma Json.uncovered_nil (v : Json) : v.Uncovered [] where
  timestamps := by simp
  version := by simp [versionSteps]

lemma Json.Uncovered.of_head_eq (hp : v.Uncovered p) (h : v.head = w.head) : w.Uncovered p where
  timestamps := hp.timestamps
  version hw := hp.version ((isReport_iff_of_head_eq h).mpr hw)

/-- Values that agree in all that normalization keeps agree in all but timestamps once the version of
the tool is masked. -/
lemma headAt?_maskTool_eq (h : ∀ p, v.Uncovered p → v.headAt? p = w.headAt? p)
    (hp : ∀ s ∈ p, ¬ s.IsTimestamp) : (maskTool v).headAt? p = (maskTool w).headAt? p := by
  have hhead : v.head = w.head := by simpa using h [] v.uncovered_nil
  have hreport : v.IsReport ↔ w.IsReport := isReport_iff_of_head_eq hhead
  by_cases hcovered : v.IsReport ∧ versionSteps <+: p
  · obtain ⟨hv, q, rfl⟩ := hcovered
    have htool : v.Uncovered [.member "tool"] :=
      ⟨fun s hs => hp s (by simp_all [versionSteps]), fun _ => by decide⟩
    have hversion : (maskTool v).at? versionSteps = (maskTool w).at? versionSteps := by
      rw [at?_maskTool_versionSteps hv, at?_maskTool_versionSteps (hreport.mp hv)]
      exact map_const_eq (isSome_at?_concat_eq (h _ htool) _) _
    simp only [headAt?, at?_append, hversion]
  · have hopen : v.IsReport → ¬ versionSteps <+: p := fun hv hprefix => hcovered ⟨hv, hprefix⟩
    rw [headAt?_maskTool hopen, headAt?_maskTool (hopen ∘ hreport.mpr), h p ⟨hp, hopen⟩]

/-- Two values have one normalization exactly when they agree in all that is kept. -/
lemma normalize_eq_iff (hv : v.Sorted) :
    normalize v = normalize w ↔ ∀ p, v.Uncovered p → v.headAt? p = w.headAt? p := by
  constructor
  · intro h p hp
    have hhead : v.head = w.head := by
      calc v.head
        _ = (normalize v).head := by simp [normalize]
        _ = (normalize w).head := by rw [h]
        _ = w.head := by simp [normalize]
    calc v.headAt? p
      _ = (normalize v).headAt? p := ((masked_normalize v).kept p hp).symm
      _ = (normalize w).headAt? p := by rw [h]
      _ = w.headAt? p := (masked_normalize w).kept p (hp.of_head_eq hhead)
  · intro h
    refine hv.maskTool.maskTimestamps.eq_of_headAt?_eq ?_
    exact headAt?_maskTimestamps_eq fun p hp => headAt?_maskTool_eq h hp

/-! ### Reports -/

/-- The value of a report, the order of its members apart. -/
lemma Report.sorted_toJson (r : Report) : r.toJson.sorted = .ofMembers
    [("schema", .string r.schema), ("tool", r.tool.toJson.sorted),
      ("started_at", .string r.startedAt.render), ("finished_at", .string r.finishedAt.render),
      ("verdict", .string r.verdict.name),
      ("findings", .array (r.findings.map fun f => f.toJson.sorted)),
      ("data", r.summary.toJson.sorted)] := by
  rw [Report.toJson, sorted_record]
  simp [present, sortedEntries, Function.comp_def]

lemma Report.isReport_toJson (r : Report) : r.toJson.sorted.IsReport := by
  intro key hkey
  rw [child?_member, sorted_toJson, get?_ofMembers (by simp), List.lookup_isSome_iff]
  simp only [List.mem_cons, List.not_mem_nil, or_false] at hkey
  rcases hkey with rfl | rfl | rfl | rfl | rfl <;> simp

/-- Normalization changes nothing when it is repeated, puts masks at the timestamps at any depth and at
the version of the tool in a report, and keeps all else. So two values, sorted as what is read from a
text is (`sorted_of_parse`), have one normalization exactly when they agree in all that steps lead to
without passing a mask; for the values of two reports these are the timestamps and the version. -/
theorem normalize_masks :
    (∀ v, normalize (normalize v) = normalize v ∧ v.Masked (normalize v)) ∧
    (∀ v w : Json, v.Sorted →
      (normalize v = normalize w ↔ ∀ p, v.Uncovered p → v.headAt? p = w.headAt? p)) ∧
    ∀ r r' : Report, (normalize r.toJson.sorted = normalize r'.toJson.sorted ↔
      ∀ p, (∀ s ∈ p, ¬ s.IsTimestamp) → ¬ versionSteps <+: p →
        r.toJson.sorted.headAt? p = r'.toJson.sorted.headAt? p) := by
  refine ⟨fun v => ⟨normalize_normalize v, masked_normalize v⟩, fun v w => normalize_eq_iff, ?_⟩
  intro r r'
  rw [normalize_eq_iff (sorted_sorted _)]
  constructor
  · intro h p htimestamps hversion
    exact h p ⟨htimestamps, fun _ => hversion⟩
  · intro h p hp
    exact h p hp.timestamps (hp.version r.isReport_toJson)

/-! ### Two runs -/

namespace TwoRuns

/-- What a reader found, with its own version and times. -/
def payload (time : String) : Json :=
  .ofMembers [("tool", .ofMembers [("name", .string "reader"), ("version", .string "2.0")]),
    ("started_at", .string time)]

/-- The value of a report with one finding. -/
def value (version time : String) : Json :=
  .ofMembers
    [("schema", .string reportSchema),
      ("tool", .ofMembers [("name", .string "modguard"), ("version", .string version)]),
      ("started_at", .string time), ("finished_at", .string time), ("verdict", .string "fail"),
      ("findings", .array [.ofMembers [("data", payload time)]]),
      ("data", .ofMembers [("profile", .string "modtool")])]

lemma sorted_value (version time : String) : (value version time).Sorted := by
  have htexts : ∀ name text : String, (Json.ofMembers [("name", .string name),
      ("version", .string text)]).Sorted := fun name text => .ofMembers (by simp [Sorted.string])
  have hpayload : (payload time).Sorted := .ofMembers (by simp [htexts, Sorted.string])
  have hfinding : (Json.ofMembers [("data", payload time)]).Sorted :=
    .ofMembers (by simpa using hpayload)
  have hfindings : (Json.array [.ofMembers [("data", payload time)]]).Sorted :=
    .array (by simpa using hfinding)
  have hdata : (Json.ofMembers [("profile", .string "modtool")]).Sorted :=
    .ofMembers (by simp [Sorted.string])
  exact .ofMembers (by simp [htexts, hfindings, hdata, Sorted.string])

def first : Json := value "0.1.0" "2026-01-01T00:00:00Z"

/-- The same run at another time and by a later version of the tool. -/
def second : Json := value "0.2.0" "2026-02-01T00:00:00Z"

/-- The steps to the version of the reader. -/
def readerSteps : List Step :=
  [.member "findings", .item 0, .member "data", .member "tool", .member "version"]

/-- In the first run the times and the version of the tool are masked and the version of the reader is
kept. The second run differs in what is masked only. -/
theorem masks_runs :
    first.Uncovered readerSteps ∧ (normalize first).headAt? readerSteps = some (.string "2.0") ∧
      first.Uncovered [] ∧ (Step.member "started_at").IsTimestamp ∧
      (normalize first).at? [.member "started_at"] = some timestampMask ∧
      first.IsReport ∧ (normalize first).at? versionSteps = some versionMask ∧
      first.Sorted ∧ ∀ p, first.Uncovered p → first.headAt? p = second.headAt? p := by
  obtain ⟨hmasks, hiff, -⟩ := normalize_masks
  obtain ⟨-, hmasked⟩ := hmasks first
  have hreader : first.Uncovered readerSteps := by decide
  have hroot : first.Uncovered [] := by decide
  have htimestamp : (Step.member "started_at").IsTimestamp := by decide
  have hreport : first.IsReport := by decide
  have hsorted : first.Sorted := sorted_value _ _
  refine ⟨hreader, hmasked.kept readerSteps hreader, hroot, htimestamp,
    hmasked.timestamps [] hroot _ htimestamp, hreport, hmasked.version hreport, hsorted, ?_⟩
  exact (hiff first second hsorted).mp rfl

end TwoRuns

end AssemblyPolicy
