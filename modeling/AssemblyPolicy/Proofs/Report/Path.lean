import AssemblyPolicy.Proofs.Files.Components
import AssemblyPolicy.Report.Path

/-!
# Normalized paths

A path in a report has slashes in place of backslashes and no `./` at its start; such paths are
canonical, and normalization leaves them as they are (`ArtifactPath.isCanonical_iff`). It keeps the
components of every path, but not always where the path starts: what follows `./` may begin with a
slash, and then a path from the working directory becomes one from the root
(`ArtifactPath.normalizes`).
-/

namespace AssemblyPolicy

namespace ArtifactPath

variable {cs : List Char} {p : ArtifactPath} {s : String}

/-! ### Marks of the working directory -/

/-- So many times `./`. -/
def dots (n : Nat) : List Char := (List.replicate n ['.', '/']).flatten

lemma dots_succ (n : Nat) : dots (n + 1) = '.' :: '/' :: dots n := rfl

lemma stripDots_dots_append (n : Nat) (cs : List Char) : stripDots (dots n ++ cs) = stripDots cs := by
  induction n with
  | zero => rfl
  | succ n ih => exact ih

lemma exists_eq_dots_append (cs : List Char) : ∃ n, cs = dots n ++ stripDots cs := by
  induction cs using stripDots.induct with
  | case1 rest ih =>
    obtain ⟨n, hn⟩ := ih
    refine ⟨n + 1, ?_⟩
    rw [stripDots, dots_succ, List.cons_append, List.cons_append, ← hn]
  | case2 cs h =>
    refine ⟨0, ?_⟩
    rw [stripDots]
    · rfl
    · exact h

lemma stripDots_ne (cs rest : List Char) : stripDots cs ≠ '.' :: '/' :: rest := by
  induction cs using stripDots.induct with
  | case1 rest' ih => exact ih
  | case2 cs h =>
    rw [stripDots]
    · exact h rest
    · exact h

lemma stripDots_eq_self (h : ∀ rest, cs ≠ '.' :: '/' :: rest) : stripDots cs = cs := by
  rw [stripDots]
  exact h

lemma components_dots_append (n : Nat) (cs : List Char) :
    Path.components ⟨String.ofList (dots n ++ cs)⟩ = Path.components ⟨String.ofList cs⟩ := by
  induction n with
  | zero => rfl
  | succ n ih =>
    have hcut : splitAll '/' ('.' :: '/' :: (dots n ++ cs)) = ['.'] :: splitAll '/' (dots n ++ cs) :=
      splitAll_append '/' ['.'] _
    simp only [Path.components, Path.segments, String.toList_ofList] at ih ⊢
    rw [dots_succ, List.cons_append, List.cons_append, hcut,
      List.filter_cons_of_neg (by simp [Path.isFiller]), ih]

/-! ### Canonical paths -/

/-- A path as normalization leaves it. -/
structure IsCanonical (p : ArtifactPath) : Prop where
  ne_empty : p.text ≠ ""
  noBackslash : '\\' ∉ p.text.toList
  noDots : beginsWith "./" p.text = false

instance : DecidablePred IsCanonical := fun p =>
  decidable_of_iff (p.text ≠ "" ∧ '\\' ∉ p.text.toList ∧ beginsWith "./" p.text = false)
    ⟨fun ⟨h₁, h₂, h₃⟩ => ⟨h₁, h₂, h₃⟩, fun h => ⟨h.ne_empty, h.noBackslash, h.noDots⟩⟩

lemma notMem_slashes (cs : List Char) : '\\' ∉ slashes cs := by
  intro h
  obtain ⟨c, -, hc⟩ := List.mem_map.mp h
  split_ifs at hc with hslash
  · cases hc
  · exact hslash hc

lemma slashes_eq_self (h : '\\' ∉ cs) : slashes cs = cs := by
  have hkept : ∀ c ∈ cs, (if c = '\\' then '/' else c) = c := by
    intro c hc
    exact if_neg (ne_of_mem_of_not_mem hc h)
  rw [slashes, List.map_congr_left hkept, List.map_id']

lemma notMem_stripDots {c : Char} (h : c ∉ cs) : c ∉ stripDots cs := by
  obtain ⟨n, hn⟩ := exists_eq_dots_append cs
  rw [hn] at h
  exact fun hc => h (List.mem_append_right _ hc)

lemma beginsWith_eq_false_iff :
    beginsWith "./" s = false ↔ ∀ rest, s.toList ≠ '.' :: '/' :: rest := by
  rw [beginsWith, ← Bool.not_eq_true, List.isPrefixOf_iff_prefix]
  simp [List.IsPrefix, eq_comm]

/-- What is left of a text without the marks at its start, or a dot for nothing. -/
lemma ofString_eq (s : String) :
    stripDots (slashes s.toList) = [] ∧ ofString s = ⟨"."⟩ ∨
      stripDots (slashes s.toList) ≠ [] ∧
        ofString s = ⟨String.ofList (stripDots (slashes s.toList))⟩ := by
  rw [ofString]
  cases stripDots (slashes s.toList) with
  | nil => exact .inl ⟨rfl, rfl⟩
  | cons c cs => exact .inr ⟨List.cons_ne_nil c cs, rfl⟩

lemma isCanonical_ofString (s : String) : (ofString s).IsCanonical := by
  rcases ofString_eq s with ⟨-, hs⟩ | ⟨hne, hs⟩
  · rw [hs]
    decide
  · rw [hs]
    refine ⟨?_, ?_, beginsWith_eq_false_iff.mpr ?_⟩
    · simpa using hne
    · rw [String.toList_ofList]
      exact notMem_stripDots (notMem_slashes _)
    · rw [String.toList_ofList]
      exact stripDots_ne _

/-- Canonical paths are those that normalization leaves as they are. -/
lemma isCanonical_iff : p.IsCanonical ↔ ofString p.text = p := by
  refine ⟨fun h => ?_, fun h => h ▸ isCanonical_ofString p.text⟩
  have hstrip : stripDots (slashes p.text.toList) = p.text.toList := by
    rw [slashes_eq_self h.noBackslash, stripDots_eq_self (beginsWith_eq_false_iff.mp h.noDots)]
  rcases ofString_eq p.text with ⟨hnil, -⟩ | ⟨-, hp⟩
  · rw [hstrip] at hnil
    exact absurd (String.toList_injective hnil) h.ne_empty
  · rw [hp, hstrip, String.ofList_toList]

/-! ### What normalization keeps -/

/-- The path in a text, with slashes for backslashes. -/
def slashed (s : String) : Path := ⟨String.ofList (slashes s.toList)⟩

/-- The path in a text as a report shows it. -/
def normalized (s : String) : Path := ⟨(ofString s).text⟩

/-- Does another slash follow the `./` at the start of a text? -/
def Uprooted (s : String) : Prop := ∃ n rest, slashes s.toList = dots (n + 1) ++ '/' :: rest

lemma components_normalized (s : String) : (normalized s).components = (slashed s).components := by
  obtain ⟨n, hn⟩ := exists_eq_dots_append (slashes s.toList)
  rw [slashed, hn, components_dots_append, normalized]
  rcases ofString_eq s with ⟨hnil, hs⟩ | ⟨-, hs⟩
  · rw [hs, hnil]
    rfl
  · rw [hs]

lemma isAbsolute_normalized_iff :
    (normalized s).isAbsolute = true ↔ ∃ rest, stripDots (slashes s.toList) = '/' :: rest := by
  rw [← Path.isAbsolute_ofList_iff, normalized]
  rcases ofString_eq s with ⟨hnil, hs⟩ | ⟨-, hs⟩
  · rw [hs, hnil]
    decide
  · rw [hs]

lemma isAbsolute_normalized_eq_iff :
    (normalized s).isAbsolute = (slashed s).isAbsolute ↔ ¬ Uprooted s := by
  rw [Bool.eq_iff_iff, isAbsolute_normalized_iff, slashed, Path.isAbsolute_ofList_iff]
  constructor
  · rintro h ⟨n, rest, hs⟩
    have hstrip : stripDots (slashes s.toList) = '/' :: rest := by
      rw [hs, stripDots_dots_append, stripDots]
      nofun
    obtain ⟨rest', hs'⟩ := h.mp ⟨rest, hstrip⟩
    rw [hs', dots_succ] at hs
    cases hs
  · intro h
    constructor
    · rintro ⟨rest, hstrip⟩
      obtain ⟨n, hn⟩ := exists_eq_dots_append (slashes s.toList)
      rw [hstrip] at hn
      cases n with
      | zero => exact ⟨rest, hn⟩
      | succ n => exact absurd ⟨n, rest, hn⟩ h
    · rintro ⟨rest, hs⟩
      refine ⟨rest, ?_⟩
      rw [hs, stripDots]
      nofun

/-- What normalization makes of the path in a text. -/
structure Normalizes (s : String) : Prop where
  components : (normalized s).components = (slashed s).components
  again : ofString (ofString s).text = ofString s
  /-- The path starts where it started, if no slash comes after the marks that are taken off. -/
  isAbsolute : (normalized s).isAbsolute = (slashed s).isAbsolute ↔ ¬ Uprooted s
  place : (∀ home, (normalized s).place home = (slashed s).place home) ↔ ¬ Uprooted s

theorem normalizes (s : String) : Normalizes s where
  components := components_normalized s
  again := isCanonical_iff.mp (isCanonical_ofString s)
  isAbsolute := isAbsolute_normalized_eq_iff
  place := (Path.forall_place_eq_iff (components_normalized s)).trans isAbsolute_normalized_eq_iff

/-- The mark is taken off together with its slash, and the next slash is left at the start. -/
theorem normalized_doubled_slash :
    (slashed ".//mods/A.json").isAbsolute = false ∧ (normalized ".//mods/A.json").isAbsolute = true ∧
      (slashed ".//mods/A.json").place ["srv"] = ["srv", "mods", "A.json"] ∧
      (normalized ".//mods/A.json").place ["srv"] = ["mods", "A.json"] := by
  decide

end ArtifactPath

end AssemblyPolicy
