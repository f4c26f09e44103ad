import AssemblyPolicy.Proofs.Files.Path
import AssemblyPolicy.Proofs.Result

/-!
# Following paths through a tree

A tree is well-formed if names are names, each place has one entry, and nothing is below a file. In
such a tree a path below a directory leads to the entry that the names after the directory lead to
(`FileTree.locate_below`).
-/

namespace AssemblyPolicy

/-! ### Checks of a path -/

lemma Path.checkText_eq_ok_iff {p : Path} : p.checkText = .ok () ↔
    '\x00' ∉ p.text.toList ∧ p.text ≠ "" ∧ p.text.utf8ByteSize < pathLimit := by
  unfold checkText
  split_ifs <;> simp_all

namespace FileTree

/-! ### Files below a place -/

lemma relative?_eq_some_iff {place below names : Place} :
    relative? place below = some names ↔ below = place ++ names := by
  induction place generalizing below with
  | nil => simp [relative?]
  | cons a place ih =>
    cases below with
    | nil => simp [relative?]
    | cons b below =>
      by_cases hab : a = b
      · simp [relative?, hab, ih]
      · simp [relative?, hab, Ne.symm hab]

lemma mem_filesBelow_iff {t : FileTree} {place names : Place} : names ∈ t.filesBelow place ↔
    names ≠ [] ∧ ∃ e, (place ++ names, e) ∈ t.entries ∧ e ≠ .directory := by
  rw [filesBelow, List.mem_filterMap]
  constructor
  · rintro ⟨⟨below, e⟩, hmem, h⟩
    have hfile : e ≠ .directory := by
      rintro rfl
      cases h
    have hrelative : (relative? place below).filter (fun names => names ≠ []) = some names := by
      cases e <;> first | exact h | exact absurd rfl hfile
    obtain ⟨hbelow, hne⟩ := Option.filter_eq_some_iff.mp hrelative
    rw [relative?_eq_some_iff] at hbelow
    exact ⟨by simpa using hne, e, hbelow ▸ hmem, hfile⟩
  · rintro ⟨hne, e, hmem, hfile⟩
    refine ⟨_, hmem, ?_⟩
    have hrelative : (relative? place (place ++ names)).filter (fun names => names ≠ []) =
        some names := by
      rw [Option.filter_eq_some_iff, relative?_eq_some_iff]
      exact ⟨rfl, by simpa using hne⟩
    cases e <;> first | exact hrelative | exact absurd rfl hfile

end FileTree

/-! ### Well-formed trees -/

/-- The entries are those of a tree of files and directories. -/
structure FileTree.WellFormed (t : FileTree) : Prop where
  names : ∀ x ∈ t.entries, ∀ name ∈ x.1, IsFileName name
  distinct : (t.entries.map (·.1)).Nodup
  /-- A file has nothing below it. -/
  leaves : ∀ x ∈ t.entries, ∀ y ∈ t.entries, x.2 ≠ .directory → x.1 <+: y.1 → x.1 = y.1

instance : DecidablePred FileTree.WellFormed := fun t =>
  decidable_of_iff ((∀ x ∈ t.entries, ∀ name ∈ x.1, IsFileName name) ∧
      (t.entries.map (·.1)).Nodup ∧
      ∀ x ∈ t.entries, ∀ y ∈ t.entries, x.2 ≠ .directory → x.1 <+: y.1 → x.1 = y.1)
    ⟨fun ⟨h₁, h₂, h₃⟩ => ⟨h₁, h₂, h₃⟩, fun h => ⟨h.names, h.distinct, h.leaves⟩⟩

namespace FileTree

variable {t : FileTree} {d : Path} {place names : Place} {e : Entry}

lemma WellFormed.entryAt?_eq_some (ht : t.WellFormed) (he : (place, e) ∈ t.entries) :
    t.entryAt? place = some e := by
  rw [entryAt?, (lookup_eq_some_iff_mem ht.distinct).mpr he]
  rfl

/-- Above an entry there are directories. -/
lemma WellFormed.entryAt?_eq_directory (ht : t.WellFormed) (he : (place ++ names, e) ∈ t.entries)
    (hnames : names ≠ []) : t.entryAt? place = some .directory := by
  rw [entryAt?]
  cases hlookup : t.entries.lookup place with
  | none =>
    have hany : (t.entries.any fun e => place.isPrefixOf e.1) = true :=
      List.any_eq_true.mpr ⟨_, he, by simp⟩
    simp [hany]
  | some e' =>
    have hmem := (lookup_eq_some_iff_mem ht.distinct).mp hlookup
    suffices e' = .directory by simp [this]
    by_contra hfile
    have heq := ht.leaves _ hmem _ he hfile (List.prefix_append place names)
    exact hnames (by simpa using heq)

lemma requireDirectory_eq_ok_iff : t.requireDirectory place = .ok () ↔
    t.entryAt? place = some .directory := by
  unfold requireDirectory
  split <;> simp_all

/-- A part is followed from a directory. -/
lemma follow_cons_eq_ok_iff {part : Part} {parts : List Part} {place' : Place} :
    t.follow place (part :: parts) = .ok place' ↔ t.entryAt? place = some .directory ∧
      part.isTooLong = false ∧ t.follow (part.step place) parts = .ok place' := by
  rw [follow, check_bind_eq_ok_iff, requireDirectory_eq_ok_iff]
  split_ifs with hlong <;> simp [hlong]

lemma follow_append_eq_ok_iff {as bs : List Part} {place' : Place} :
    t.follow place (as ++ bs) = .ok place' ↔
      ∃ p, t.follow place as = .ok p ∧ t.follow p bs = .ok place' := by
  induction as generalizing place with
  | nil => simp [follow]
  | cons a as ih => simp [follow_cons_eq_ok_iff, ih, and_assoc]

/-- The place that a path leads to is the one it names. -/
lemma eq_foldl_of_follow_eq_ok {parts : List Part} {place' : Place}
    (h : t.follow place parts = .ok place') : place' = parts.foldl Part.step place := by
  induction parts generalizing place with
  | nil => exact (Except.ok.inj h).symm
  | cons part parts ih => exact ih (follow_cons_eq_ok_iff.mp h).2.2

lemma locate_eq_ok_iff {p : Path} : t.locate p = .ok (place, e) ↔
    p.checkText = .ok () ∧ t.follow t.home p.parts = .ok place ∧ t.entryAt? place = some e ∧
      (e = .directory ∨ p.endsOpen = false) := by
  rw [locate, check_bind_eq_ok_iff, bind_eq_ok_iff]
  refine and_congr_right fun _ => ?_
  constructor
  · rintro ⟨place', hfollow, h⟩
    cases hentry : t.entryAt? place' with
    | none => simp [hentry] at h
    | some e' =>
      cases hopen : p.endsOpen <;> cases e' <;> simp_all
  · rintro ⟨hfollow, hentry, he⟩
    refine ⟨place, hfollow, ?_⟩
    cases hopen : p.endsOpen <;> cases e <;> simp_all

namespace WellFormed

/-- The names of an entry lead to it from any directory above. -/
lemma follow_names (ht : t.WellFormed) (he : (place ++ names, e) ∈ t.entries) :
    t.follow place (names.map .name) = .ok (place ++ names) := by
  induction names generalizing place with
  | nil => simp [follow]
  | cons name names ih =>
    have hname : IsFileName name := ht.names _ he name (by simp)
    rw [List.map_cons, follow_cons_eq_ok_iff]
    refine ⟨ht.entryAt?_eq_directory he (List.cons_ne_nil _ _), hname.isTooLong_eq_false, ?_⟩
    rw [List.append_cons] at he ⊢
    exact ih he

lemma isFileName_of_mem (ht : t.WellFormed) (he : (place ++ names, e) ∈ t.entries) :
    ∀ name ∈ names, IsFileName name := fun name hname =>
  ht.names _ he name (List.mem_append_right _ hname)

/-- A path below a directory leads to what is there, unless it is too long. -/
theorem locate_below (ht : t.WellFormed) (hd : t.locate d = .ok (place, .directory))
    (he : (place ++ names, e) ∈ t.entries) (hne : names ≠ [])
    (hshort : (d.below names).text.utf8ByteSize < pathLimit) :
    t.locate (d.below names) = .ok (place ++ names, e) := by
  have hnames := ht.isFileName_of_mem he
  obtain ⟨hcheck, hfollow, -, -⟩ := locate_eq_ok_iff.mp hd
  obtain ⟨hnul, htext, -⟩ := Path.checkText_eq_ok_iff.mp hcheck
  refine locate_eq_ok_iff.mpr ⟨Path.checkText_eq_ok_iff.mpr ⟨?_, ?_, hshort⟩, ?_, ?_, .inr ?_⟩
  · exact Path.notMem_below (by decide) hnul fun name hname => (hnames name hname).noNul
  · exact Path.text_below_ne_empty htext
  · rw [Path.parts_below htext hnames hne]
    exact follow_append_eq_ok_iff.mpr ⟨place, hfollow, ht.follow_names he⟩
  · exact ht.entryAt?_eq_some he
  · exact Path.endsOpen_below d hnames hne

end WellFormed

lemma foldl_step_names (place : Place) (names : List String) :
    (names.map Part.name).foldl Part.step place = place ++ names := by
  induction names generalizing place with
  | nil => simp
  | cons name names ih => simp [Part.step, ih]

/-- The place of a path that leads somewhere. -/
lemma eq_place_of_locate (h : t.locate d = .ok (place, e)) : place = d.place t.home :=
  eq_foldl_of_follow_eq_ok (locate_eq_ok_iff.mp h).2.1

/-- A path below a directory names the place that the names lead to. -/
lemma place_below (hd : t.locate d = .ok (place, e)) (hnames : ∀ name ∈ names, IsFileName name)
    (hne : names ≠ []) : (d.below names).place t.home = place ++ names := by
  obtain ⟨hcheck, hfollow, -, -⟩ := locate_eq_ok_iff.mp hd
  rw [Path.place, Path.parts_below (Path.checkText_eq_ok_iff.mp hcheck).2.1 hnames hne,
    List.foldl_append, ← eq_foldl_of_follow_eq_ok hfollow, foldl_step_names]

end FileTree

end AssemblyPolicy
