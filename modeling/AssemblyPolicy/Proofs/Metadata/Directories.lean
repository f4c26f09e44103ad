import AssemblyPolicy.Proofs.Metadata.References

/-!
# Directories that give the same references

Which references are loaded depends on the snapshots that are on offer and on the parts of their paths,
not on how the directories are listed (`FileTree.loadReferences_determined`). Two things can matter
(`listing_matters`): of two spellings of a directory only the first is tried, even if it makes paths
too long to be opened, and a directory that is listed again under a path with other parts can put its
snapshots after others.
-/

namespace AssemblyPolicy

namespace FileTree

variable {t t' : FileTree} {p d d' : Path} {directories directories' : List Path}
  {refs refs' : AssemblySet} {a : AssemblyModel} {name : String} {place place' names : Place}

/-! ### The same snapshots on offer -/

/-- Directories in two trees have the same snapshots on offer, if paths with the same parts count as
the same. -/
def OfferAlike (t t' : FileTree) (directories directories' : List Path) : Prop :=
  ∀ parts a, (∃ p, p.parts = parts ∧ t.Offers directories p a) ↔
    ∃ p, p.parts = parts ∧ t'.Offers directories' p a

namespace OfferAlike

lemma symm (h : OfferAlike t t' directories directories') :
    OfferAlike t' t directories' directories := fun parts a => (h parts a).symm

lemma exists_offers (h : OfferAlike t t' directories directories')
    (hp : t.Offers directories p a) : ∃ q, q.parts = p.parts ∧ t'.Offers directories' q a :=
  (h p.parts a).mp ⟨p, rfl, hp⟩

lemma isGreatest (h : OfferAlike t t' directories directories')
    (ha : t.IsGreatest directories name a) : t'.IsGreatest directories' name a := by
  obtain ⟨p, hp, hname, hgreatest⟩ := ha
  obtain ⟨p', hparts, hp'⟩ := h.exists_offers hp
  refine ⟨p', hp', hname, fun q b hq hb => ?_⟩
  obtain ⟨q', hparts', hq'⟩ := h.symm.exists_offers hq
  rw [Path.precedes_congr hparts'.symm hparts]
  exact hgreatest q' b hq' hb

lemma determines (h : OfferAlike t t' directories directories')
    (hrefs : t.Determines directories refs) : t'.Determines directories' refs := fun name a =>
  (hrefs name a).trans ⟨h.isGreatest, h.symm.isGreatest⟩

end OfferAlike

lemma Determines.unique (h : t.Determines directories refs) (h' : t.Determines directories refs') :
    refs = refs' :=
  AssemblySet.eq_of_find?_eq fun name => Option.ext fun a => (h name a).trans (h' name a).symm

lemma Determines.loadReferences_eq (hrefs : t.Determines directories refs) (ht : t.WellFormed)
    (hdirectories : ∀ d ∈ directories, t.isDirectory d = true) (hreach : t.InReach directories) :
    t.loadReferences directories = .ok refs := by
  obtain ⟨refs', hload, hrefs', -⟩ := exists_loadReferences ht hdirectories hreach
  rw [hload, hrefs.unique hrefs']

/-! ### Other lists of directories -/

lemma offers_congr (h : ∀ d, d ∈ directories' ↔ d ∈ directories) :
    t.Offers directories' p a ↔ t.Offers directories p a := by
  simp only [Offers, h]

/-- The second list of directories has all of the first, in some spelling, and its others lie below
these: their paths go on with names. -/
structure Covers (directories directories' : List Path) : Prop where
  kept : ∀ d ∈ directories, ∃ d' ∈ directories', d'.parts = d.parts
  below : ∀ d' ∈ directories', ∃ d ∈ directories, ∃ names : List String,
    d'.parts = d.parts ++ names.map .name

/-- A path that goes on with names leads to the place that the names lead to. -/
lemma place_eq_append (names : List String) {e e' : Entry} (hd : t.locate d = .ok (place, e))
    (hd' : t.locate d' = .ok (place', e')) (hparts : d'.parts = d.parts ++ names.map .name) :
    place' = place ++ names := by
  rw [eq_place_of_locate hd', eq_place_of_locate hd, Path.place, hparts, List.foldl_append,
    foldl_step_names, Path.place]

lemma text_ne_empty_of_locate {e : Entry} (hd : t.locate d = .ok (place, e)) : d.text ≠ "" :=
  (Path.checkText_eq_ok_iff.mp (locate_eq_ok_iff.mp hd).1).2.1

lemma isSnapshotName_append (names : Place) {names' : Place} (h : isSnapshotName names' = true) :
    isSnapshotName (names ++ names') = true := by
  rw [isSnapshotName, List.getLast?_append_of_ne_nil _ (ne_nil_of_isSnapshotName h)]
  exact h

lemma Covers.offerAlike (h : Covers directories directories') (ht : t.WellFormed)
    (hdirectories : ∀ d ∈ directories, t.isDirectory d = true)
    (hdirectories' : ∀ d ∈ directories', t.isDirectory d = true) :
    OfferAlike t t directories directories' := by
  intro parts a
  constructor
  · rintro ⟨_, rfl, d, hd, place, names, hlocate, hname, rfl, text, he, hsnapshot⟩
    obtain ⟨d', hd', hparts⟩ := h.kept d hd
    obtain ⟨place', hlocate'⟩ := isDirectory_iff.mp (hdirectories' d' hd')
    obtain rfl : place' = place := by
      simpa using place_eq_append [] hlocate hlocate' (by simpa using hparts)
    have hnames := ht.isFileName_of_mem he
    have hne := ne_nil_of_isSnapshotName hname
    refine ⟨d'.below names, ?_, d', hd', place', names, hlocate', hname, rfl, text, he, hsnapshot⟩
    rw [Path.parts_below (text_ne_empty_of_locate hlocate) hnames hne,
      Path.parts_below (text_ne_empty_of_locate hlocate') hnames hne, hparts]
  · rintro ⟨_, rfl, d', hd', place', names', hlocate', hname', rfl, text, he, hsnapshot⟩
    obtain ⟨d, hd, names, hparts⟩ := h.below d' hd'
    obtain ⟨place, hlocate⟩ := isDirectory_iff.mp (hdirectories d hd)
    obtain rfl := place_eq_append names hlocate hlocate' hparts
    have hname := isSnapshotName_append names hname'
    rw [List.append_assoc] at he
    refine ⟨d.below (names ++ names'), ?_, d, hd, place, names ++ names', hlocate, hname, rfl, text,
      he, hsnapshot⟩
    rw [Path.parts_below (text_ne_empty_of_locate hlocate) (ht.isFileName_of_mem he)
        (ne_nil_of_isSnapshotName hname), Path.parts_below (text_ne_empty_of_locate hlocate')
        (fun name hmem => ht.isFileName_of_mem he name (List.mem_append_right _ hmem))
        (ne_nil_of_isSnapshotName hname'), hparts, List.map_append, List.append_assoc]

/-! ### Files that are not accepted -/

/-- What is on offer does not depend on files that hold no snapshot that is accepted. -/
lemma offers_of_holds_iff (hhome : t'.home = t.home)
    (hholds : ∀ place a, t'.Holds place a ↔ t.Holds place a)
    (hdirectories : ∀ d ∈ directories, t.isDirectory d = true)
    (hp : t'.Offers directories p a) : t.Offers directories p a := by
  obtain ⟨d, hd, place', names, hlocate', hname, rfl, hfile⟩ := hp
  obtain ⟨place, hlocate⟩ := isDirectory_iff.mp (hdirectories d hd)
  obtain rfl : place' = place := by
    rw [eq_place_of_locate hlocate', eq_place_of_locate hlocate, hhome]
  exact ⟨d, hd, place', names, hlocate, hname, rfl, (hholds _ a).mp hfile⟩

/-! ### Short paths and paths in order -/

lemma size_intercalate_le_append (place names : List String) :
    ("/".intercalate names).utf8ByteSize ≤ ("/".intercalate (place ++ names)).utf8ByteSize := by
  induction place with
  | nil => exact le_rfl
  | cons name place ih =>
    rw [List.cons_append]
    cases h : place ++ names with
    | nil => simp [(List.append_eq_nil_iff.mp h).2]
    | cons second rest =>
      rw [h] at ih
      rw [String.intercalate_cons_cons, String.utf8ByteSize_append]
      exact ih.trans (Nat.le_add_left _ _)

/-- Short directories and short places make no path too long. -/
lemma inReach_of_size (h : ∀ d ∈ directories, ∀ x ∈ t.entries,
    d.text.utf8ByteSize + 1 + ("/".intercalate x.1).utf8ByteSize < pathLimit) :
    t.InReach directories := by
  rintro _ a ⟨d, hd, place, names, -, -, rfl, text, he, -⟩
  have hslash : (if d.text.toList.getLast? = some '/' then "" else "/").utf8ByteSize ≤ 1 := by
    split_ifs <;> decide
  calc (d.below names).text.utf8ByteSize
      ≤ d.text.utf8ByteSize + 1 + ("/".intercalate names).utf8ByteSize := by
        simp only [Path.below, String.utf8ByteSize_append]
        omega
    _ ≤ d.text.utf8ByteSize + 1 + ("/".intercalate (place ++ names)).utf8ByteSize :=
        Nat.add_le_add_left (size_intercalate_le_append place names) _
    _ < pathLimit := h d hd _ he

lemma discover_eq {paths : List Path} (hd : t.locate d = .ok (place, .directory))
    (h : ((t.filesBelow place).filter fun names =>
      isSnapshotName names && d.canList names.dropLast).map d.below = paths)
    (hsorted : paths.Pairwise fun p q => p.precedes q = true) : t.discover d = .ok paths := by
  subst h
  rw [discover, hd]
  exact congrArg Except.ok (List.mergeSort_of_pairwise hsorted)

lemma loadReferences_eq {paths : List Path} (h : t.discoverAll directories = .ok paths)
    (hsorted : paths.Pairwise fun p q => p.precedes q = true) :
    t.loadReferences directories = .ok (t.loadAll (dropRepeats paths)) := by
  rw [loadReferences, h]
  exact congrArg (fun paths => Except.ok (t.loadAll (dropRepeats paths)))
    (List.mergeSort_of_pairwise hsorted)

/-! ### The references -/

/-- In directories whose snapshots can be opened, the references depend only on the snapshots on
offer. -/
theorem loadReferences_determined (ht : t.WellFormed)
    (hdirectories : ∀ d ∈ directories, t.isDirectory d = true) (hreach : t.InReach directories) :
    ∃ refs, t.loadReferences directories = .ok refs ∧
      -- The names are those that the snapshots declare, and the greatest path decides.
      (∀ name, name ∈ refs.names ↔ ∃ p a, t.Offers directories p a ∧ a.name = name) ∧
      t.Determines directories refs ∧
      -- Directories in any order and any number of times give the same references,
      (∀ directories', (∀ d, d ∈ directories' ↔ d ∈ directories) →
        t.loadReferences directories' = .ok refs) ∧
      -- and so do other spellings and directories further below,
      (∀ directories', Covers directories directories' →
        (∀ d ∈ directories', t.isDirectory d = true) → t.InReach directories' →
        t.loadReferences directories' = .ok refs) ∧
      -- and, of all lists, those for which the greatest paths offer the same.
      (∀ directories', (∀ d ∈ directories', t.isDirectory d = true) → t.InReach directories' →
        (t.loadReferences directories' = .ok refs ↔ t.Determines directories' refs)) ∧
      -- Files that are not accepted can come and go.
      ∀ t' : FileTree, t'.WellFormed → t'.home = t.home →
        (∀ place a, t'.Holds place a ↔ t.Holds place a) →
        (∀ d ∈ directories, t'.isDirectory d = true) → t'.loadReferences directories = .ok refs := by
  obtain ⟨refs, hload, hrefs, hnames⟩ := exists_loadReferences ht hdirectories hreach
  refine ⟨refs, hload, hnames, hrefs, ?_, ?_, ?_, ?_⟩
  · intro directories' hmem
    have halike : OfferAlike t t directories directories' := fun parts a => by
      simp only [offers_congr hmem]
    refine (halike.determines hrefs).loadReferences_eq ht (fun d hd => ?_) fun p a hp => ?_
    · exact hdirectories d ((hmem d).mp hd)
    · exact hreach p a ((offers_congr hmem).mp hp)
  · intro directories' hcovers hdirectories' hreach'
    have halike := hcovers.offerAlike ht hdirectories hdirectories'
    exact (halike.determines hrefs).loadReferences_eq ht hdirectories' hreach'
  · intro directories' hdirectories' hreach'
    obtain ⟨refs', hload', hrefs', -⟩ := exists_loadReferences ht hdirectories' hreach'
    constructor
    · intro heq
      rw [hload', Except.ok.injEq] at heq
      exact heq ▸ hrefs'
    · intro hdetermines
      rw [hload', hdetermines.unique hrefs']
  · intro t' ht' hhome hholds hdirectories'
    have hto : ∀ p a, t'.Offers directories p a → t.Offers directories p a := fun p a =>
      offers_of_holds_iff hhome hholds hdirectories
    have hof : ∀ p a, t.Offers directories p a → t'.Offers directories p a := fun p a =>
      offers_of_holds_iff hhome.symm (fun place a => (hholds place a).symm) hdirectories'
    have halike : OfferAlike t t' directories directories := fun parts a =>
      ⟨fun ⟨p, hparts, hp⟩ => ⟨p, hparts, hof p a hp⟩,
        fun ⟨p, hparts, hp⟩ => ⟨p, hparts, hto p a hp⟩⟩
    exact (halike.determines hrefs).loadReferences_eq ht' hdirectories' fun p a hp =>
      hreach p a (hto p a hp)

end FileTree

namespace Duplicate

/-- A library with one type, as an array of its fields. -/
def text (type : String) : String := "[null,\"Lib\",[[\"\",\"" ++ type ++ "\"]]]"

def library (type : String) : AssemblyModel := ⟨none, "Lib", [⟨"", type, none, [], [], []⟩]⟩

/-- A directory with a library, and with another of that name further below. -/
def tree : FileTree :=
  ⟨[(["refs", "sub", "Lib.json"], .file (text "Old")), (["refs", "x.json"], .file (text "New"))], []⟩

def refs : Path := ⟨"refs"⟩

def sub : Path := ⟨"refs/sub"⟩

/-- The outer directory is enough. -/
theorem determined_below : ∃ references, tree.loadReferences [refs] = .ok references ∧
    tree.loadReferences [sub, refs] = .ok references := by
  have htree : tree.WellFormed := by decide +kernel
  have hrefs : ∀ d ∈ [refs], tree.isDirectory d = true := by decide +kernel
  have hboth : ∀ d ∈ [sub, refs], tree.isDirectory d = true := by decide +kernel
  obtain ⟨references, hload, -, -, -, hcovers, -⟩ :=
    FileTree.loadReferences_determined htree hrefs (FileTree.inReach_of_size (by decide +kernel))
  refine ⟨references, hload, hcovers [sub, refs] ⟨?_, ?_⟩ hboth ?_⟩
  · decide +kernel
  · refine List.forall_mem_cons.mpr ⟨⟨refs, by simp, ["sub"], by decide +kernel⟩, ?_⟩
    exact List.forall_mem_singleton.mpr ⟨refs, by simp, [], by decide +kernel⟩
  · exact FileTree.inReach_of_size (by decide +kernel)

/-- The outer directory, written so that its path comes before `sub`. -/
def here : Path := ⟨"./refs"⟩

lemma discover_here : tree.discover here = .ok [⟨"./refs/sub/Lib.json"⟩, ⟨"./refs/x.json"⟩] := by
  have hlocate : tree.locate here = .ok (["refs"], .directory) := by decide +kernel
  exact FileTree.discover_eq hlocate (by decide +kernel) (by decide +kernel)

lemma discover_sub : tree.discover sub = .ok [⟨"refs/sub/Lib.json"⟩] := by
  have hlocate : tree.locate sub = .ok (["refs", "sub"], .directory) := by decide +kernel
  exact FileTree.discover_eq hlocate (by decide +kernel) (by decide +kernel)

lemma loadReferences_here : tree.loadReferences [here] =
    .ok (tree.loadAll [⟨"./refs/sub/Lib.json"⟩, ⟨"./refs/x.json"⟩]) := by
  have h : tree.discoverAll [here] = .ok [⟨"./refs/sub/Lib.json"⟩, ⟨"./refs/x.json"⟩] := by
    simp only [FileTree.discoverAll, discover_here]
    rfl
  exact FileTree.loadReferences_eq h (by decide +kernel)

lemma loadReferences_here_sub : tree.loadReferences [here, sub] = .ok (tree.loadAll
    [⟨"./refs/sub/Lib.json"⟩, ⟨"./refs/x.json"⟩, ⟨"refs/sub/Lib.json"⟩]) := by
  have h : tree.discoverAll [here, sub] =
      .ok [⟨"./refs/sub/Lib.json"⟩, ⟨"./refs/x.json"⟩, ⟨"refs/sub/Lib.json"⟩] := by
    simp only [FileTree.discoverAll, discover_here, discover_sub]
    rfl
  exact FileTree.loadReferences_eq h (by decide +kernel)

end Duplicate

namespace Padded

/-- A library without types, as an array of its fields. -/
def text : String := "[null,\"Lib\",[]]"

def library : AssemblyModel := ⟨none, "Lib", []⟩

def tree : FileTree := ⟨[(["refs", "Lib.json"], .file text)], []⟩

/-- The directory with some slashes at its end. -/
def refs (slashes : Nat) : Path := ⟨"refs" ++ String.ofList (List.replicate slashes '/')⟩

variable {slashes : Nat}

lemma splitAll_replicate (slashes : Nat) :
    splitAll '/' (List.replicate slashes '/') = List.replicate (slashes + 1) [] := by
  induction slashes with
  | zero => rfl
  | succ slashes ih =>
    rw [List.replicate_succ, splitAll, if_pos rfl, ih, ← List.replicate_succ]

lemma segments_refs (slashes : Nat) :
    (refs slashes).segments = "refs".toList :: List.replicate slashes [] := by
  have htext : (refs slashes).text.toList = "refs".toList ++ List.replicate slashes '/' := by
    simp [refs]
  rw [Path.segments, htext]
  cases slashes with
  | zero => decide
  | succ slashes =>
    rw [List.replicate_succ, splitAll_append, splitAll_replicate]
    rfl

lemma parts_refs (slashes : Nat) : (refs slashes).parts = [.name "refs"] := by
  have hne : (refs slashes).text ≠ "" := by simp [refs]
  rw [Path.parts_of_segments hne (segments_refs slashes), List.filter_replicate,
    if_neg (by decide), if_neg (by decide)]
  decide

lemma size_refs (slashes : Nat) : (refs slashes).text.utf8ByteSize = 4 + slashes := by
  have hslashes : (String.ofList (List.replicate slashes '/')).utf8ByteSize = slashes := by
    induction slashes with
    | zero => rfl
    | succ slashes ih =>
      rw [List.replicate_succ, String.ofList_cons, String.utf8ByteSize_append, ih,
        String.utf8ByteSize_singleton, Nat.add_comm]
      rfl
  rw [refs, String.utf8ByteSize_append, hslashes]
  rfl

/-- The directory is found, unless its own path is too long. -/
lemma locate_refs (h : 4 + slashes < pathLimit) :
    tree.locate (refs slashes) = .ok (["refs"], .directory) := by
  refine FileTree.locate_eq_ok_iff.mpr ⟨?_, ?_, by decide, .inl rfl⟩
  · refine Path.checkText_eq_ok_iff.mpr ⟨by simp [refs], by simp [refs], ?_⟩
    rwa [size_refs]
  · rw [parts_refs]
    decide

/-- The snapshot in the directory, as it is found under a path with some slashes. -/
def file (slashes : Nat) : Path := (refs slashes).below ["Lib.json"]

lemma parts_file (slashes : Nat) : (file slashes).parts = [.name "refs", .name "Lib.json"] := by
  have hne : (refs slashes).text ≠ "" := by simp [refs]
  rw [file, Path.parts_below hne (by decide) (by decide), parts_refs]
  rfl

lemma le_size_file (slashes : Nat) : 4 + slashes + 8 ≤ (file slashes).text.utf8ByteSize := by
  have hname : ("/".intercalate ["Lib.json"]).utf8ByteSize = 8 := by decide
  simp only [file, Path.below, String.utf8ByteSize_append, size_refs, hname]
  omega

lemma discover_refs (h : 4 + slashes < pathLimit) :
    tree.discover (refs slashes) = .ok [file slashes] :=
  FileTree.discover_eq (locate_refs h) (by rfl) (List.pairwise_singleton _ _)

/-- Of two spellings the first is loaded. -/
lemma loadReferences_refs {slashes' : Nat} (h : 4 + slashes < pathLimit)
    (h' : 4 + slashes' < pathLimit) :
    tree.loadReferences [refs slashes, refs slashes'] = .ok (tree.loadAll [file slashes]) := by
  have hparts : (file slashes).parts = (file slashes').parts := by
    rw [parts_file, parts_file]
  have hdiscover : tree.discoverAll [refs slashes, refs slashes'] =
      .ok [file slashes, file slashes'] := by
    simp only [FileTree.discoverAll, discover_refs h, discover_refs h']
    rfl
  have hsorted : (file slashes).precedes (file slashes') = true := by
    rw [Path.precedes_congr hparts rfl]
    exact Path.precedes_refl _
  rw [FileTree.loadReferences_eq hdiscover (List.pairwise_pair.mpr hsorted), dropRepeats,
    dropRepeats, dropRepeats]
  simp only [Path.same_iff.mpr hparts, if_true]

lemma loadAssembly?_short : tree.loadAssembly? (file 0) = some library := by decide +kernel

/-- With many slashes the path of the snapshot is too long, but not that of the directory. -/
lemma loadAssembly?_long : tree.loadAssembly? (file 4089) = none := by
  refine Option.eq_none_iff_forall_ne_some.mpr fun a ha => ?_
  obtain ⟨place, text, hlocate, -⟩ := FileTree.loadAssembly?_eq_some_iff.mp ha
  have hlong : pathLimit ≤ (file 4089).text.utf8ByteSize :=
    le_trans (by decide) (le_size_file 4089)
  exact absurd (FileTree.size_lt_of_locate hlocate) (Nat.not_lt.mpr hlong)

lemma find?_loadAll_short : (tree.loadAll [file 0]).find? "Lib" = some library := by
  have hsome : [file 0].filterMap tree.loadAssembly? = [library] := by
    rw [List.filterMap_cons_some loadAssembly?_short, List.filterMap_nil]
  rw [FileTree.loadAll, hsome]
  decide +kernel

lemma find?_loadAll_long : (tree.loadAll [file 4089]).find? "Lib" = none := by
  have hnone : [file 4089].filterMap tree.loadAssembly? = [] := by
    rw [List.filterMap_cons_none loadAssembly?_long, List.filterMap_nil]
  rw [FileTree.loadAll, hnone]
  rfl

end Padded

/-- The references change when a directory further below is listed too, in a spelling that comes
later, and when two spellings of which one is long are listed the other way round. -/
theorem listing_matters :
    ((∀ d ∈ [Duplicate.here, Duplicate.sub], Duplicate.tree.isDirectory d = true) ∧
      (∃ refs, Duplicate.tree.loadReferences [Duplicate.here] = .ok refs ∧
        refs.find? "Lib" = some (Duplicate.library "New")) ∧
      ∃ refs, Duplicate.tree.loadReferences [Duplicate.here, Duplicate.sub] = .ok refs ∧
        refs.find? "Lib" = some (Duplicate.library "Old")) ∧
    (∀ d ∈ [Padded.refs 0, Padded.refs 4089], Padded.tree.isDirectory d = true) ∧
      (∃ refs, Padded.tree.loadReferences [Padded.refs 0, Padded.refs 4089] = .ok refs ∧
        refs.find? "Lib" = some Padded.library) ∧
      ∃ refs, Padded.tree.loadReferences [Padded.refs 4089, Padded.refs 0] = .ok refs ∧
        refs.find? "Lib" = none := by
  have hshort : 4 + 0 < pathLimit := by decide
  have hlong : 4 + 4089 < pathLimit := by decide
  refine ⟨⟨?_, ?_, ?_⟩, ?_, ?_, ?_⟩
  · decide +kernel
  · exact ⟨_, Duplicate.loadReferences_here, by decide +kernel⟩
  · exact ⟨_, Duplicate.loadReferences_here_sub, by decide +kernel⟩
  · refine List.forall_mem_cons.mpr ⟨?_, List.forall_mem_singleton.mpr ?_⟩
    · exact FileTree.isDirectory_iff.mpr ⟨_, Padded.locate_refs hshort⟩
    · exact FileTree.isDirectory_iff.mpr ⟨_, Padded.locate_refs hlong⟩
  · exact ⟨_, Padded.loadReferences_refs hshort hlong, Padded.find?_loadAll_short⟩
  · exact ⟨_, Padded.loadReferences_refs hlong hshort, Padded.find?_loadAll_long⟩

end AssemblyPolicy
