import AssemblyPolicy.Check.Basic
import AssemblyPolicy.Proofs.Metadata.References
import AssemblyPolicy.Proofs.Report.Evaluation
import AssemblyPolicy.Proofs.Report.Path

/-!
# Candidates and their entries

Candidates are told apart by the parts of their paths, and entries of a report by normalized paths.
The two agree on paths without backslashes, as long as no file is given both with and without a mark
of the working directory (`FileTree.listed`). Such a file has two entries with one path.
-/

namespace AssemblyPolicy

variable {p q d : Path}

/-! ### Paths in reports -/

/-- The path under which a report lists a file. -/
def Path.reported (p : Path) : ArtifactPath := .ofString p.text

namespace Path

open ArtifactPath

lemma components_eq_of_reported_eq (hp : '\\' ∉ p.text.toList) (hq : '\\' ∉ q.text.toList)
    (h : p.reported = q.reported) : p.components = q.components := by
  have hkept : ∀ p : Path, '\\' ∉ p.text.toList →
      (⟨p.reported.text⟩ : Path).components = p.components := by
    intro p hp
    have hslashed : slashed p.text = p := by
      rw [slashed, slashes_eq_self hp, String.ofList_toList]
    exact (components_normalized p.text).trans (congrArg components hslashed)
  rw [← hkept p hp, ← hkept q hq, h]

lemma stripDots_of_isDotted_eq_false (hp : p.isDotted = false) :
    stripDots p.text.toList = p.text.toList := by
  refine stripDots_eq_self fun rest htext => ?_
  have hne : p.text ≠ "" := by
    rintro hempty
    rw [hempty] at htext
    cases htext
  have hsegments : p.segments = ['.'] :: splitAll '/' rest := by
    rw [segments, htext]
    exact splitAll_append '/' ['.'] rest
  rw [isDotted, parts_of_segments hne hsegments] at hp
  simp [Part.ofSegment] at hp

/-- Without a mark only the empty path changes. -/
lemma text_reported (hp : '\\' ∉ p.text.toList) (hpd : p.isDotted = false) :
    p.reported.text = if p.text = "" then "." else p.text := by
  have hcases := ofString_eq p.text
  rw [slashes_eq_self hp, stripDots_of_isDotted_eq_false hpd, String.ofList_toList] at hcases
  rcases hcases with ⟨hnil, h⟩ | ⟨hne, h⟩
  · rw [if_pos (String.toList_injective hnil), reported, h]
  · rw [if_neg fun hempty => hne (by rw [hempty]; rfl), reported, h]

lemma eq_of_reported_eq (hp : '\\' ∉ p.text.toList) (hq : '\\' ∉ q.text.toList)
    (hpd : p.isDotted = false) (hqd : q.isDotted = false) (h : p.reported = q.reported) : p = q := by
  have hdot : ∀ p : Path, p.isDotted = false → p.text ≠ "." := by
    rintro ⟨s⟩ hpd rfl
    exact absurd hpd (by decide)
  have htext := congrArg ArtifactPath.text h
  rw [text_reported hp hpd, text_reported hq hqd] at htext
  refine congrArg Path.mk (?_ : p.text = q.text)
  split_ifs at htext with hpe hqe hqe
  · rw [hpe, hqe]
  · exact absurd htext.symm (hdot q hqd)
  · exact absurd htext (hdot p hpd)
  · exact htext

/-- Paths that are reported alike have the same parts, unless only one has a mark. -/
lemma parts_eq_iff_of_reported_eq (hp : '\\' ∉ p.text.toList) (hq : '\\' ∉ q.text.toList)
    (h : p.reported = q.reported) : p.parts = q.parts ↔ p.isDotted = q.isDotted := by
  refine ⟨fun hparts => by rw [isDotted, isDotted, hparts], fun hdotted => ?_⟩
  cases hpd : p.isDotted with
  | true =>
    exact parts_eq_of_isDotted hpd (hdotted ▸ hpd) (components_eq_of_reported_eq hp hq h)
  | false => rw [eq_of_reported_eq hp hq hpd (hdotted ▸ hpd) h]

lemma isDotted_below (hd : d.text ≠ "") {names : List String}
    (hnames : ∀ name ∈ names, IsFileName name) (hne : names ≠ []) :
    (d.below names).isDotted = d.isDotted := by
  obtain ⟨first, rest, hsegments⟩ :=
    List.exists_cons_of_ne_nil (splitAll_ne_nil '/' d.text.toList)
  rw [isDotted, isDotted, parts_below hd hnames hne, parts_of_segments hd hsegments]
  rfl

end Path

/-! ### Candidates -/

namespace FileTree

variable {t : FileTree} {arguments : List Path}

/-- A candidate is an argument or a snapshot below one. -/
lemma exists_of_mem_candidates (hp : p ∈ t.candidates arguments) : ∃ a ∈ arguments, p = a ∨
    ∃ place names e, a.text ≠ "" ∧ names ≠ [] ∧ (place ++ names, e) ∈ t.entries ∧
      p = a.below names := by
  have hexpand := List.mem_mergeSort.mp ((dropRepeats_sublist _).subset hp)
  obtain ⟨a, ha, hp⟩ := List.mem_flatMap.mp hexpand
  refine ⟨a, ha, ?_⟩
  rw [expand, discover] at hp
  cases hlocate : t.locate a with
  | error e =>
    simp only [hlocate] at hp
    exact .inl (List.mem_singleton.mp hp)
  | ok found =>
    obtain ⟨place, e⟩ := found
    have htext : a.text ≠ "" :=
      (Path.checkText_eq_ok_iff.mp (locate_eq_ok_iff.mp hlocate).1).2.1
    cases e with
    | directory =>
      simp only [hlocate] at hp
      obtain ⟨names, ⟨e, he, -⟩, hname, -, rfl⟩ := mem_snapshotsBelow_iff.mp hp
      exact .inr ⟨place, names, e, htext, ne_nil_of_isSnapshotName hname, he, rfl⟩
    | file text | binary =>
      simp only [hlocate] at hp
      exact .inl (List.mem_singleton.mp hp)

/-- Candidates have different parts. -/
lemma nodup_parts_candidates (t : FileTree) (arguments : List Path) :
    ((t.candidates arguments).map Path.parts).Nodup := by
  have hsorted := pairwise_dropRepeats (Path.pairwise_mergeSort (arguments.flatMap t.expand))
  refine List.pairwise_map.mpr (hsorted.imp fun {p q} hlt hparts => ?_)
  rw [Path.compare_eq_eq_iff.mpr hparts] at hlt
  cases hlt

lemma isDotted_of_mem_candidates (ht : t.WellFormed) (hp : p ∈ t.candidates arguments) :
    ∃ a ∈ arguments, p.isDotted = a.isDotted := by
  obtain ⟨a, ha, rfl | ⟨place, names, e, htext, hne, he, rfl⟩⟩ := exists_of_mem_candidates hp
  · exact ⟨p, ha, rfl⟩
  · exact ⟨a, ha, Path.isDotted_below htext (ht.isFileName_of_mem he) hne⟩

lemma noBackslash_of_mem_candidates
    (ht : ∀ x ∈ t.entries, ∀ name ∈ x.1, '\\' ∉ name.toList)
    (harguments : ∀ a ∈ arguments, '\\' ∉ a.text.toList) (hp : p ∈ t.candidates arguments) :
    '\\' ∉ p.text.toList := by
  obtain ⟨a, ha, rfl | ⟨place, names, e, -, -, he, rfl⟩⟩ := exists_of_mem_candidates hp
  · exact harguments p ha
  · exact Path.notMem_below (by decide) (harguments a ha) fun name hname =>
      ht _ he name (List.mem_append_right place hname)

end FileTree

/-! ### Entries -/

/-- The paths of the entries of an evaluation. -/
def Evaluation.entryPaths (e : Evaluation) : List ArtifactPath := e.summary.assemblies.map (·.path)

/-- How the files of a request are listed. -/
structure Evaluation.Lists (t : FileTree) (arguments : List Path) (e : Evaluation) : Prop where
  /-- Each candidate has an entry. -/
  perm : e.entryPaths.Perm ((t.candidates arguments).map Path.reported)
  /-- No path is listed twice exactly if candidates that are reported alike have the same parts. -/
  nodup_iff : e.entryPaths.Nodup ↔ ∀ p ∈ t.candidates arguments, ∀ q ∈ t.candidates arguments,
    p.reported = q.reported → p.parts = q.parts
  /-- Without backslashes a path is listed twice only if it is given with a mark and without one. -/
  dotted : (∀ p ∈ t.candidates arguments, '\\' ∉ p.text.toList) →
    (e.entryPaths.Nodup ↔ ∀ p ∈ t.candidates arguments, ∀ q ∈ t.candidates arguments,
      p.reported = q.reported → p.isDotted = q.isDotted)
  /-- Where all arguments have a mark, or none has one, no path is listed twice. -/
  uniform : t.WellFormed → (∀ x ∈ t.entries, ∀ name ∈ x.1, '\\' ∉ name.toList) →
    (∀ a ∈ arguments, '\\' ∉ a.text.toList) →
    (∀ a ∈ arguments, ∀ b ∈ arguments, a.isDotted = b.isDotted) → e.entryPaths.Nodup

namespace FileTree

variable {t : FileTree} {arguments : List Path} {e : Evaluation}

lemma entryPaths_perm (t : FileTree) (w : Json.Wording) (policy : Policy) (refs : AssemblySet)
    (files : List Path) : (evaluate policy (files.map (t.outcome w policy refs))).entryPaths.Perm
      (files.map Path.reported) := by
  have hperm := (assemblies_perm policy (files.map (t.outcome w policy refs))).map (·.path)
  rwa [List.map_map, List.map_map] at hperm

lemma nodup_entryPaths_iff (h : e.entryPaths.Perm ((t.candidates arguments).map Path.reported)) :
    e.entryPaths.Nodup ↔ ∀ p ∈ t.candidates arguments, ∀ q ∈ t.candidates arguments,
      p.reported = q.reported → p.parts = q.parts := by
  have hparts := nodup_parts_candidates t arguments
  rw [h.nodup_iff, List.nodup_map_iff_inj_on hparts.of_map]
  constructor
  · intro hinj p hp q hq hreported
    rw [hinj p hp q hq hreported]
  · intro hparts' p hp q hq hreported
    exact List.inj_on_of_nodup_map hparts hp hq (hparts' p hp q hq hreported)

/-- Each candidate is listed, and a path twice only for different spellings of what it names. -/
theorem listed (t : FileTree) (w : Json.Wording) (policy : Policy) (refs : AssemblySet)
    (arguments : List Path) : Evaluation.Lists t arguments
      (evaluate policy ((t.candidates arguments).map (t.outcome w policy refs))) := by
  have hperm := entryPaths_perm t w policy refs (t.candidates arguments)
  have hnodup := nodup_entryPaths_iff hperm
  have hdotted : (∀ p ∈ t.candidates arguments, '\\' ∉ p.text.toList) →
      ((evaluate policy ((t.candidates arguments).map (t.outcome w policy refs))).entryPaths.Nodup ↔
        ∀ p ∈ t.candidates arguments, ∀ q ∈ t.candidates arguments,
          p.reported = q.reported → p.isDotted = q.isDotted) := by
    intro hbackslash
    refine hnodup.trans (forall₂_congr fun p hp => forall₂_congr fun q hq => ?_)
    exact imp_congr_right fun hreported =>
      Path.parts_eq_iff_of_reported_eq (hbackslash p hp) (hbackslash q hq) hreported
  refine { perm := hperm, nodup_iff := hnodup, dotted := hdotted, uniform := ?_ }
  intro ht hnames harguments huniform
  have hbackslash : ∀ p ∈ t.candidates arguments, '\\' ∉ p.text.toList :=
    fun p hp => noBackslash_of_mem_candidates hnames harguments hp
  refine (hdotted hbackslash).mpr fun p hp q hq _ => ?_
  obtain ⟨a, ha, hpa⟩ := isDotted_of_mem_candidates ht hp
  obtain ⟨b, hb, hqb⟩ := isDotted_of_mem_candidates ht hq
  rw [hpa, hqb, huniform a ha b hb]

end FileTree

/-! ### A file given twice -/

namespace TwoSpellings

/-- A directory with one file, which holds no snapshot. -/
def tree : FileTree := ⟨[(["mods", "Mod.json"], .file "")], []⟩

def plain : Path := ⟨"mods/Mod.json"⟩

def marked : Path := ⟨"./mods/Mod.json"⟩

lemma candidates_marked_plain : tree.candidates [marked, plain] = [marked, plain] := by
  have hexpand : [marked, plain].flatMap tree.expand = [marked, plain] := by decide +kernel
  have hsorted : [marked, plain].Pairwise fun p q => p.precedes q = true := by decide +kernel
  rw [FileTree.candidates, hexpand, List.mergeSort_of_pairwise hsorted]
  decide +kernel

def evaluation : Evaluation :=
  evaluate .empty ((tree.candidates [marked, plain]).map (tree.outcome .brief .empty .empty))

/-- The file has two entries with one path, and its finding is counted twice. -/
theorem listed_twice : marked.place tree.home = plain.place tree.home ∧
    ¬ evaluation.entryPaths.Nodup ∧ evaluation.findings.length = 2 := by
  refine ⟨by decide +kernel, ?_, ?_⟩
  · rw [evaluation, (FileTree.entryPaths_perm tree .brief .empty .empty _).nodup_iff,
      candidates_marked_plain]
    decide +kernel
  · rw [evaluation, candidates_marked_plain, (findings_perm .empty _).length_eq]
    decide +kernel

/-- Below the directory the file is found once. -/
theorem listed_below : (evaluate .empty ((tree.candidates [⟨"mods"⟩, plain]).map
    (tree.outcome .brief .empty .empty))).entryPaths.Nodup := by
  have hlisted := FileTree.listed tree .brief .empty .empty [⟨"mods"⟩, plain]
  exact hlisted.uniform (by decide +kernel) (by decide +kernel) (by decide +kernel)
    (by decide +kernel)

end TwoSpellings

end AssemblyPolicy
