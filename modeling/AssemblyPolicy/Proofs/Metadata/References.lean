import AssemblyPolicy.Metadata.Loading
import AssemblyPolicy.Proofs.Files.Tree
import AssemblyPolicy.Proofs.Metadata.Extension

/-!
# Sets of references

What `FileTree.loadReferences` loads is determined by the snapshots that `FileTree.Offers` describes:
those below the directories whose content is accepted, each under the paths it is found by. Of several
with one name the greatest path decides.
-/

namespace AssemblyPolicy

/-! ### Equal sets -/

lemma AssemblySet.eq_of_find?_eq {s s' : AssemblySet} (h : ∀ name, s.find? name = s'.find? name) :
    s = s' := by
  have hmem : ∀ a, a ∈ s.assemblies ↔ a ∈ s'.assemblies := by
    intro a
    constructor
    · intro ha
      exact (mem_of_find?_eq_some ((h a.name).symm.trans (find?_eq_some_of_mem ha))).1
    · intro ha
      exact (mem_of_find?_eq_some ((h a.name).trans (find?_eq_some_of_mem ha))).1
  have hne : ∀ s : AssemblySet, s.assemblies.Nodup := fun s =>
    s.sorted.imp fun {a b} hlt (heq : a = b) => String.lt_irrefl _ (heq ▸ hlt)
  have hperm : s.assemblies.Perm s'.assemblies :=
    (List.perm_ext_iff_of_nodup (hne s) (hne s')).mpr hmem
  have heq : s.assemblies = s'.assemblies := by
    refine hperm.eq_of_pairwise ?_ s.sorted s'.sorted
    intro a b _ _ hab hba
    exact absurd (String.lt_trans hab hba) (String.lt_irrefl _)
  obtain ⟨l, hl⟩ := s
  obtain ⟨l', hl'⟩ := s'
  obtain rfl : l = l' := heq
  rfl

lemma AssemblySet.mem_names_iff {s : AssemblySet} {name : String} :
    name ∈ s.names ↔ ∃ a, s.find? name = some a := by
  rw [names, List.mem_map]
  constructor
  · rintro ⟨a, ha, rfl⟩
    exact ⟨a, find?_eq_some_of_mem ha⟩
  · rintro ⟨a, ha⟩
    exact ⟨a, mem_of_find?_eq_some ha⟩

namespace FileTree

variable {t t' : FileTree} {p q d : Path} {paths directories directories' : List Path}
  {a b : AssemblyModel} {name : String} {place names : Place}

/-! ### Loading files in order -/

lemma loadAll_concat (t : FileTree) (paths : List Path) (p : Path) :
    t.loadAll (paths ++ [p]) =
      (t.loadAssembly? p).elim (t.loadAll paths) (t.loadAll paths).insert := by
  cases h : t.loadAssembly? p <;> simp [loadAll, List.filterMap_append, h]

/-- The names loaded from some files are those that the files declare. -/
lemma exists_find?_loadAll_iff : (∃ a, (t.loadAll paths).find? name = some a) ↔
    ∃ p ∈ paths, ∃ a, t.loadAssembly? p = some a ∧ a.name = name := by
  induction paths using List.reverseRecOn with
  | nil => simp [loadAll, AssemblySet.find?, AssemblySet.empty]
  | append_singleton paths p ih =>
    rw [loadAll_concat]
    cases hp : t.loadAssembly? p with
    | none => simpa [hp] using ih
    | some b =>
      by_cases hb : b.name = name
      · simp [AssemblySet.find?_insert, hb, hp]
      · simpa [AssemblySet.find?_insert, hb, hp] using ih

/-- Of the files that declare a name, the last decides. -/
lemma find?_loadAll_eq_some_iff (h : paths.Pairwise fun p q => Path.compare p q = .lt) :
    (t.loadAll paths).find? name = some a ↔
      ∃ p ∈ paths, t.loadAssembly? p = some a ∧ a.name = name ∧
        ∀ q ∈ paths, ∀ b, t.loadAssembly? q = some b → b.name = name → q.precedes p = true := by
  induction paths using List.reverseRecOn with
  | nil => simp [loadAll, AssemblySet.find?, AssemblySet.empty]
  | append_singleton paths p ih =>
    obtain ⟨hpaths, -, hlast⟩ := List.pairwise_append.mp h
    have hlt : ∀ q ∈ paths, Path.compare q p = .lt := fun q hq => hlast q hq p (by simp)
    rw [loadAll_concat]
    -- A file that does not declare the name makes no difference.
    have hskip (hp : ∀ b, t.loadAssembly? p = some b → b.name ≠ name) :
        (∃ r ∈ paths ++ [p], t.loadAssembly? r = some a ∧ a.name = name ∧
          ∀ q ∈ paths ++ [p], ∀ b, t.loadAssembly? q = some b → b.name = name →
            q.precedes r = true) ↔
        ∃ r ∈ paths, t.loadAssembly? r = some a ∧ a.name = name ∧
          ∀ q ∈ paths, ∀ b, t.loadAssembly? q = some b → b.name = name →
            q.precedes r = true := by
      constructor
      · rintro ⟨r, hr, hload, hname, hgreatest⟩
        rcases List.mem_append.mp hr with hr | hr
        · exact ⟨r, hr, hload, hname, fun q hq => hgreatest q (List.mem_append_left _ hq)⟩
        · obtain rfl := List.mem_singleton.mp hr
          exact absurd hname (hp a hload)
      · rintro ⟨r, hr, hload, hname, hgreatest⟩
        refine ⟨r, List.mem_append_left _ hr, hload, hname, fun q hq b hb hbname => ?_⟩
        rcases List.mem_append.mp hq with hq | hq
        · exact hgreatest q hq b hb hbname
        · obtain rfl := List.mem_singleton.mp hq
          exact absurd hbname (hp b hb)
    cases hp : t.loadAssembly? p with
    | none =>
      rw [hskip (by simp [hp])]
      exact ih hpaths
    | some b =>
      simp only [Option.elim_some, AssemblySet.find?_insert]
      by_cases hb : b.name = name
      · rw [if_pos hb, Option.some.injEq]
        constructor
        · rintro rfl
          refine ⟨p, by simp, hp, hb, fun q hq _ _ _ => ?_⟩
          rcases List.mem_append.mp hq with hq | hq
          · exact Path.precedes_of_compare_eq_lt (hlt q hq)
          · rw [List.mem_singleton.mp hq]
            exact Path.precedes_refl p
        · rintro ⟨r, hr, hload, -, hgreatest⟩
          rcases List.mem_append.mp hr with hr | hr
          · have hle := hgreatest p (by simp) b hp hb
            exact absurd hle (Path.not_precedes_of_compare_eq_lt (hlt r hr))
          · rw [List.mem_singleton.mp hr, hp] at hload
            exact Option.some.inj hload
      · rw [if_neg hb, hskip (by simpa [hp] using hb)]
        exact ih hpaths

/-! ### Paths that are found -/

lemma isDirectory_iff : t.isDirectory d = true ↔ ∃ place, t.locate d = .ok (place, .directory) := by
  unfold isDirectory
  split
  · simp_all
  · simp_all

/-- A path to a file below one of some directories that can be a snapshot. -/
def Finds (t : FileTree) (directories : List Path) (p : Path) : Prop :=
  ∃ d ∈ directories, ∃ place names, t.locate d = .ok (place, .directory) ∧
    (∃ e, (place ++ names, e) ∈ t.entries ∧ e ≠ .directory) ∧ isSnapshotName names = true ∧
    d.canList names.dropLast = true ∧ p = d.below names

lemma ne_nil_of_isSnapshotName (h : isSnapshotName names = true) : names ≠ [] := by
  rintro rfl
  cases h

lemma mem_snapshotsBelow_iff : p ∈ t.snapshotsBelow d place ↔
    ∃ names, (∃ e, (place ++ names, e) ∈ t.entries ∧ e ≠ .directory) ∧
      isSnapshotName names = true ∧ d.canList names.dropLast = true ∧ p = d.below names := by
  simp only [snapshotsBelow, List.mem_mergeSort, List.mem_map, List.mem_filter, mem_filesBelow_iff,
    Bool.and_eq_true]
  constructor
  · rintro ⟨names, ⟨⟨-, hfile⟩, hname, hlist⟩, rfl⟩
    exact ⟨names, hfile, hname, hlist, rfl⟩
  · rintro ⟨names, hfile, hname, hlist, rfl⟩
    exact ⟨names, ⟨⟨ne_nil_of_isSnapshotName hname, hfile⟩, hname, hlist⟩, rfl⟩

/-- In directories all snapshots are found. -/
lemma exists_discoverAll (h : ∀ d ∈ directories, t.isDirectory d = true) :
    ∃ paths, t.discoverAll directories = .ok paths ∧ ∀ p, p ∈ paths ↔ t.Finds directories p := by
  induction directories with
  | nil => exact ⟨[], rfl, by simp [Finds]⟩
  | cons d directories ih =>
    obtain ⟨hd, hrest⟩ := List.forall_mem_cons.mp h
    obtain ⟨place, hlocate⟩ := isDirectory_iff.mp hd
    obtain ⟨paths, hpaths, hmem⟩ := ih hrest
    have hdiscover : t.discover d = .ok (t.snapshotsBelow d place) := by simp [discover, hlocate]
    refine ⟨t.snapshotsBelow d place ++ paths, ?_, fun p => ?_⟩
    · rw [discoverAll, hdiscover, hpaths]
      rfl
    · rw [List.mem_append, hmem, mem_snapshotsBelow_iff]
      constructor
      · rintro (⟨names, hfile, hname, hlist, rfl⟩ | ⟨d', hd', h⟩)
        · exact ⟨d, List.mem_cons_self, place, names, hlocate, hfile, hname, hlist, rfl⟩
        · exact ⟨d', List.mem_cons_of_mem d hd', h⟩
      · rintro ⟨d', hd', place', names, hlocate', hfile, hname, hlist, rfl⟩
        rcases List.mem_cons.mp hd' with rfl | hd'
        · obtain rfl : place = place' := by
            simpa using hlocate.symm.trans hlocate'
          exact .inl ⟨names, hfile, hname, hlist, rfl⟩
        · exact .inr ⟨d', hd', place', names, hlocate', hfile, hname, hlist, rfl⟩

/-! ### Snapshots on offer -/

/-- The file at a place holds a snapshot that is accepted as an assembly. -/
def Holds (t : FileTree) (place : Place) (a : AssemblyModel) : Prop :=
  ∃ text, (place, .file text) ∈ t.entries ∧ AssemblyModel.ofSnapshot text = .ok a

/-- Below one of some directories there is a snapshot with the path `p`, which is accepted as the
assembly `a`. -/
def Offers (t : FileTree) (directories : List Path) (p : Path) (a : AssemblyModel) : Prop :=
  ∃ d ∈ directories, ∃ place names, t.locate d = .ok (place, .directory) ∧
    isSnapshotName names = true ∧ p = d.below names ∧ t.Holds (place ++ names) a

/-- The snapshots on offer have paths that are not too long to be opened. -/
def InReach (t : FileTree) (directories : List Path) : Prop :=
  ∀ p a, t.Offers directories p a → p.text.utf8ByteSize < pathLimit

lemma loadAssembly?_eq_some_iff : t.loadAssembly? p = some a ↔
    ∃ place text, t.locate p = .ok (place, .file text) ∧
      AssemblyModel.ofSnapshot text = .ok a := by
  unfold loadAssembly? loadAssembly readText
  cases hlocate : t.locate p with
  | error e => simp [Except.toOption]
  | ok found =>
    obtain ⟨place, e⟩ := found
    cases e with
    | directory => simp [Except.toOption]
    | binary => simp [Except.toOption]
    | file text =>
      cases hsnapshot : AssemblyModel.ofSnapshot text with
      | error e => simp [Except.toOption, Except.mapError, hsnapshot]
      | ok b => simp [Except.toOption, Except.mapError, hsnapshot]

lemma size_lt_of_locate {e : Entry} (h : t.locate p = .ok (place, e)) :
    p.text.utf8ByteSize < pathLimit :=
  (Path.checkText_eq_ok_iff.mp (locate_eq_ok_iff.mp h).1).2.2

/-- A path that is found loads what it offers. -/
lemma Finds.loadAssembly?_eq_some_iff (ht : t.WellFormed) (hreach : t.InReach directories)
    (hp : t.Finds directories p) : t.loadAssembly? p = some a ↔ t.Offers directories p a := by
  rw [FileTree.loadAssembly?_eq_some_iff]
  constructor
  · rintro ⟨place', text, hlocate', hsnapshot⟩
    obtain ⟨d, hd, place, names, hlocate, ⟨e, he, -⟩, hname, -, rfl⟩ := hp
    have hbelow := ht.locate_below hlocate he (ne_nil_of_isSnapshotName hname)
      (size_lt_of_locate hlocate')
    rw [hlocate', Except.ok.injEq, Prod.mk.injEq] at hbelow
    obtain ⟨-, rfl⟩ := hbelow
    exact ⟨d, hd, place, names, hlocate, hname, rfl, text, he, hsnapshot⟩
  · intro hoffers
    have hshort := hreach p a hoffers
    obtain ⟨d, hd, place, names, hlocate, hname, rfl, text, he, hsnapshot⟩ := hoffers
    exact ⟨_, text, ht.locate_below hlocate he (ne_nil_of_isSnapshotName hname) hshort, hsnapshot⟩

/-- A snapshot on offer under a path that is not too long is found. -/
lemma Offers.finds (hp : t.Offers directories p a) (hshort : p.text.utf8ByteSize < pathLimit) :
    t.Finds directories p := by
  obtain ⟨d, hd, place, names, hlocate, hname, rfl, text, he, -⟩ := hp
  refine ⟨d, hd, place, names, hlocate, ⟨_, he, nofun⟩, hname, ?_, rfl⟩
  rw [Path.canList, Bool.or_eq_true, decide_eq_true_eq, decide_eq_true_eq]
  exact or_iff_not_imp_left.mpr fun hne =>
    (d.size_below_dropLast_le hne).trans_lt hshort

/-- What is on offer under a path is on offer under every other spelling of it that is found. -/
lemma Offers.of_parts_eq (ht : t.WellFormed) (hp : t.Offers directories p a)
    (hq : t.Finds directories' q) (hparts : q.parts = p.parts) : t.Offers directories' q a := by
  obtain ⟨d, -, place, names, hlocate, hname, rfl, text, he, hsnapshot⟩ := hp
  obtain ⟨d', hd', place', names', hlocate', ⟨e', he', -⟩, hname', -, rfl⟩ := hq
  have hplace : place' ++ names' = place ++ names := by
    rw [← place_below hlocate (ht.isFileName_of_mem he) (ne_nil_of_isSnapshotName hname),
      ← place_below hlocate' (ht.isFileName_of_mem he') (ne_nil_of_isSnapshotName hname'),
      Path.place, Path.place, hparts]
  exact ⟨d', hd', place', names', hlocate', hname', rfl, text, hplace ▸ he, hsnapshot⟩

/-! ### Loading references -/

/-- Of the paths that offer an assembly with some name, the greatest offers this one. -/
def IsGreatest (t : FileTree) (directories : List Path) (name : String) (a : AssemblyModel) :
    Prop :=
  ∃ p, t.Offers directories p a ∧ a.name = name ∧
    ∀ q b, t.Offers directories q b → b.name = name → q.precedes p = true

/-- A set of references holds for each name what the greatest path that offers the name offers. -/
def Determines (t : FileTree) (directories : List Path) (refs : AssemblySet) : Prop :=
  ∀ name a, refs.find? name = some a ↔ t.IsGreatest directories name a

lemma exists_loadReferences (ht : t.WellFormed)
    (hdirectories : ∀ d ∈ directories, t.isDirectory d = true) (hreach : t.InReach directories) :
    ∃ refs, t.loadReferences directories = .ok refs ∧ t.Determines directories refs ∧
      ∀ name, name ∈ refs.names ↔ ∃ p a, t.Offers directories p a ∧ a.name = name := by
  obtain ⟨paths, hpaths, hmem⟩ := exists_discoverAll hdirectories
  let sorted := dropRepeats (paths.mergeSort Path.precedes)
  have hload : t.loadReferences directories = .ok (t.loadAll sorted) := by
    rw [loadReferences, hpaths]
    rfl
  have hfinds : ∀ p ∈ sorted, t.Finds directories p := fun p hp =>
    (hmem p).mp (List.mem_mergeSort.mp ((dropRepeats_sublist _).subset hp))
  have hoffers : ∀ p ∈ sorted, ∀ a, t.loadAssembly? p = some a ↔ t.Offers directories p a :=
    fun p hp _ => (hfinds p hp).loadAssembly?_eq_some_iff ht hreach
  -- Each path on offer is loaded, under the spelling that came first.
  have hloaded : ∀ p a, t.Offers directories p a →
      ∃ q ∈ sorted, q.parts = p.parts ∧ t.Offers directories q a := by
    intro p a hp
    have hfound : p ∈ paths := (hmem p).mpr (hp.finds (hreach p a hp))
    obtain ⟨q, hq, hparts⟩ := exists_mem_dropRepeats (List.mem_mergeSort.mpr hfound)
    exact ⟨q, hq, hparts, hp.of_parts_eq ht (hfinds q hq) hparts⟩
  refine ⟨t.loadAll sorted, hload, fun name a => ?_, fun name => ?_⟩
  · rw [find?_loadAll_eq_some_iff (pairwise_dropRepeats (Path.pairwise_mergeSort paths)),
      IsGreatest]
    constructor
    · rintro ⟨p, hp, hpa, hname, hgreatest⟩
      refine ⟨p, (hoffers p hp a).mp hpa, hname, fun q b hqb hbname => ?_⟩
      obtain ⟨q', hq', hparts, hq'b⟩ := hloaded q b hqb
      rw [Path.precedes_congr hparts.symm rfl]
      exact hgreatest q' hq' b ((hoffers q' hq' b).mpr hq'b) hbname
    · rintro ⟨p, hpa, hname, hgreatest⟩
      obtain ⟨p', hp', hparts, hp'a⟩ := hloaded p a hpa
      refine ⟨p', hp', (hoffers p' hp' a).mpr hp'a, hname, fun q hq b hqb hbname => ?_⟩
      rw [Path.precedes_congr rfl hparts]
      exact hgreatest q b ((hoffers q hq b).mp hqb) hbname
  · rw [AssemblySet.mem_names_iff, exists_find?_loadAll_iff]
    constructor
    · rintro ⟨p, hp, a, hpa, hname⟩
      exact ⟨p, a, (hoffers p hp a).mp hpa, hname⟩
    · rintro ⟨p, a, hpa, hname⟩
      obtain ⟨p', hp', -, hp'a⟩ := hloaded p a hpa
      exact ⟨p', hp', a, (hoffers p' hp' a).mpr hp'a, hname⟩

end FileTree

end AssemblyPolicy
