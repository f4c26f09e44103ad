import AssemblyPolicy.Files.Tree
import AssemblyPolicy.Proofs.Text.Split
import Mathlib

/-!
# The order and the parts of paths

Paths are ordered by their parts, and paths with the same parts count as equal
(`Path.compare_eq_eq_iff`). A path below a directory has the parts of the directory and then the names
that lead on from there (`Path.parts_below`).
-/

namespace AssemblyPolicy

/-! ### Order -/

namespace Part

lemma compare_eq_compareLex : compare =
    compareLex (compareOn rank) (compareOn fun p => p.name?.getD "") := rfl

instance : Std.TransCmp compare := by
  rw [compare_eq_compareLex]
  infer_instance

instance : Std.LawfulEqCmp compare where
  eq_of_compare {a b} h := by
    have hrank : a.rank = b.rank := Std.LawfulEqOrd.eq_of_compare (Ordering.then_eq_eq.mp h).1
    have hname : a.name?.getD "" = b.name?.getD "" :=
      Std.LawfulEqOrd.eq_of_compare (Ordering.then_eq_eq.mp h).2
    cases a <;> cases b <;> simp_all [rank, name?]

lemma compareAll_eq_compareLex : compareAll = List.compareLex compare := by
  funext as bs
  induction as generalizing bs with
  | nil => cases bs <;> rfl
  | cons a as ih =>
    cases bs with
    | nil => rfl
    | cons b bs => rw [compareAll, List.compareLex_cons_cons, ih]

end Part

namespace Path

variable {p q r : Path}

lemma compare_eq_compareLex (p q : Path) :
    compare p q = List.compareLex Part.compare p.parts q.parts := by
  rw [compare, Part.compareAll_eq_compareLex]

instance : Std.TransCmp compare where
  eq_swap {p q} := by
    rw [compare_eq_compareLex, compare_eq_compareLex]
    exact Std.OrientedCmp.eq_swap
  isLE_trans {p q r} := by
    rw [compare_eq_compareLex, compare_eq_compareLex, compare_eq_compareLex]
    exact Std.TransCmp.isLE_trans

/-- Paths that compare as equal are those with the same parts. -/
lemma compare_eq_eq_iff : compare p q = .eq ↔ p.parts = q.parts := by
  rw [compare_eq_compareLex]
  exact Std.LawfulEqCmp.compare_eq_iff_eq

lemma same_iff : p.same q = true ↔ p.parts = q.parts := by
  simp [same]

/-- The order does not look at how a path is written. -/
lemma precedes_congr {p' q' : Path} (hp : p.parts = p'.parts) (hq : q.parts = q'.parts) :
    p.precedes q = p'.precedes q' := by
  rw [precedes, precedes, compare_eq_compareLex, compare_eq_compareLex, hp, hq]

lemma precedes_of_compare_eq_lt (h : compare p q = .lt) : p.precedes q = true := by
  rw [precedes, h]
  rfl

lemma not_precedes_of_compare_eq_lt (h : compare p q = .lt) : ¬ q.precedes p = true := by
  have hswap : compare q p = (compare p q).swap := Std.OrientedCmp.eq_swap
  rw [precedes, hswap, h]
  decide

lemma precedes_refl (p : Path) : p.precedes p = true := by
  rw [precedes, compare_eq_eq_iff.mpr rfl]
  rfl

lemma pairwise_mergeSort (l : List Path) :
    (l.mergeSort precedes).Pairwise fun p q => p.precedes q = true := by
  apply List.pairwise_mergeSort
  · intro p q r
    exact Std.TransCmp.isLE_trans
  · intro p q
    have hswap : compare q p = (compare p q).swap := Std.OrientedCmp.eq_swap
    rw [precedes, precedes, hswap]
    cases compare p q <;> rfl

end Path

/-! ### Paths without repetitions -/

section

variable {p : Path} {l : List Path}

lemma dropRepeats_sublist (l : List Path) : (dropRepeats l).Sublist l := by
  induction l with
  | nil => exact .slnil
  | cons p l ih =>
    rw [dropRepeats]
    cases h : dropRepeats l with
    | nil => exact (List.nil_sublist l).cons_cons p
    | cons q qs =>
      rw [h] at ih
      dsimp only
      split_ifs
      · exact ((List.sublist_cons_self q qs).trans ih).cons_cons p
      · exact ih.cons_cons p

/-- Each path stays, perhaps as it is written elsewhere. -/
lemma exists_mem_dropRepeats (hp : p ∈ l) : ∃ q ∈ dropRepeats l, q.parts = p.parts := by
  induction l with
  | nil => cases hp
  | cons r l ih =>
    rw [dropRepeats]
    cases h : dropRepeats l with
    | nil =>
      rcases List.mem_cons.mp hp with rfl | hp
      · exact ⟨p, List.mem_singleton_self p, rfl⟩
      · obtain ⟨q, hq, -⟩ := ih hp
        rw [h] at hq
        cases hq
    | cons q qs =>
      rw [h] at ih
      dsimp only
      split_ifs with hsame
      · rcases List.mem_cons.mp hp with rfl | hp
        · exact ⟨p, List.mem_cons_self, rfl⟩
        · obtain ⟨q', hq', hparts⟩ := ih hp
          rcases List.mem_cons.mp hq' with rfl | hq'
          · exact ⟨r, List.mem_cons_self, (Path.same_iff.mp hsame).trans hparts⟩
          · exact ⟨q', List.mem_cons_of_mem r hq', hparts⟩
      · rcases List.mem_cons.mp hp with rfl | hp
        · exact ⟨p, List.mem_cons_self, rfl⟩
        · obtain ⟨q', hq', hparts⟩ := ih hp
          exact ⟨q', List.mem_cons_of_mem r hq', hparts⟩

/-- The paths that stay of a sorted list are in strict order. -/
lemma pairwise_dropRepeats (h : l.Pairwise fun p q => p.precedes q = true) :
    (dropRepeats l).Pairwise fun p q => Path.compare p q = .lt := by
  induction l with
  | nil => exact .nil
  | cons p l ih =>
    obtain ⟨hp, hl⟩ := List.pairwise_cons.mp h
    have hsub := dropRepeats_sublist l
    have hrest := ih hl
    rw [dropRepeats]
    cases hd : dropRepeats l with
    | nil => exact List.pairwise_singleton _ _
    | cons q qs =>
      rw [hd] at hsub hrest
      obtain ⟨hq, hqs⟩ := List.pairwise_cons.mp hrest
      dsimp only
      split_ifs with hsame
      · have hpq : Path.compare p q = .eq := Path.compare_eq_eq_iff.mpr (Path.same_iff.mp hsame)
        refine List.pairwise_cons.mpr ⟨fun r hr => ?_, hqs⟩
        exact Std.TransCmp.lt_of_eq_of_lt hpq (hq r hr)
      · have hlt : Path.compare p q = .lt := by
          have hle : (Path.compare p q).isLE = true := hp q (hsub.subset List.mem_cons_self)
          have hne : Path.compare p q ≠ .eq := fun heq =>
            hsame (Path.same_iff.mpr (Path.compare_eq_eq_iff.mp heq))
          cases hc : Path.compare p q <;> simp_all
        refine List.pairwise_cons.mpr ⟨List.forall_mem_cons.mpr ⟨hlt, fun r hr => ?_⟩, hrest⟩
        exact Std.TransCmp.lt_trans hlt (hq r hr)

end

/-! ### Names -/

/-- A name that a file or directory can have. -/
structure IsFileName (name : String) : Prop where
  ne_empty : name ≠ ""
  ne_here : name ≠ "."
  ne_up : name ≠ ".."
  noSlash : '/' ∉ name.toList
  noNul : '\x00' ∉ name.toList
  short : name.utf8ByteSize ≤ nameLimit

namespace IsFileName

variable {name : String}

instance : DecidablePred IsFileName := fun name =>
  decidable_of_iff (name ≠ "" ∧ name ≠ "." ∧ name ≠ ".." ∧ '/' ∉ name.toList ∧
      '\x00' ∉ name.toList ∧ name.utf8ByteSize ≤ nameLimit)
    ⟨fun ⟨h₁, h₂, h₃, h₄, h₅, h₆⟩ => ⟨h₁, h₂, h₃, h₄, h₅, h₆⟩,
      fun h => ⟨h.ne_empty, h.ne_here, h.ne_up, h.noSlash, h.noNul, h.short⟩⟩

lemma isFiller_eq_false (h : IsFileName name) : Path.isFiller name.toList = false := by
  have hhere : name.toList ≠ ['.'] := fun heq => h.ne_here (String.toList_injective heq)
  simp [Path.isFiller, h.ne_empty, hhere]

lemma ofSegment_eq (h : IsFileName name) : Part.ofSegment name.toList = .name name := by
  have hhere : name.toList ≠ ['.'] := fun heq => h.ne_here (String.toList_injective heq)
  have hup : name.toList ≠ ['.', '.'] := fun heq => h.ne_up (String.toList_injective heq)
  simp [Part.ofSegment, hhere, hup]

lemma isTooLong_eq_false (h : IsFileName name) : (Part.name name).isTooLong = false := by
  simp [Part.isTooLong, Part.name?, h.short]

end IsFileName

/-! ### Paths below a directory -/

namespace Path

variable {p d : Path} {first : List Char} {rest : List (List Char)} {names : List String}

lemma parts_of_segments (hp : p.text ≠ "") (h : p.segments = first :: rest) :
    p.parts = (if first = [] then .root else .ofSegment first) ::
      (rest.filter fun s => !isFiller s).map .ofSegment := by
  have hne : ¬ (first = [] ∧ rest = []) := by
    rintro ⟨rfl, rfl⟩
    have htext := intercalate_splitAll '/' p.text.toList
    rw [show splitAll '/' p.text.toList = [[]] from h] at htext
    exact hp (String.toList_injective htext.symm)
  rw [parts, h]
  split <;> simp_all

/-- Where a path goes on below a directory, a slash at the end of the directory does not count. -/
lemma exists_segments_below (d : Path) (hnames : ∀ name ∈ names, '/' ∉ name.toList)
    (hne : names ≠ []) : ∃ first rest,
      (d.segments = first :: rest ∨ d.segments = first :: (rest ++ [[]])) ∧
      (d.below names).segments = first :: (rest ++ names.map String.toList) := by
  have hsegments : splitAll '/' ("/".intercalate names).toList = names.map String.toList := by
    rw [String.toList_intercalate]
    exact splitAll_intercalate (by simpa using hnames) (by simpa using hne)
  obtain ⟨stem, hstem, hbelow⟩ : ∃ stem, (d.segments = splitAll '/' stem ∨
      d.segments = splitAll '/' stem ++ [[]]) ∧
      (d.below names).text.toList = stem ++ '/' :: ("/".intercalate names).toList := by
    by_cases hslash : d.text.toList.getLast? = some '/'
    · obtain ⟨stem, hstem⟩ := List.getLast?_eq_some_iff.mp hslash
      refine ⟨stem, .inr ?_, ?_⟩
      · rw [segments, hstem, splitAll_append]
        rfl
      · simp [below, hstem]
    · refine ⟨d.text.toList, .inl rfl, ?_⟩
      simp [below, hslash]
  obtain ⟨first, rest, hsplit⟩ := List.exists_cons_of_ne_nil (splitAll_ne_nil '/' stem)
  refine ⟨first, rest, ?_, ?_⟩
  · rw [hsplit] at hstem
    exact hstem
  · rw [segments, hbelow, splitAll_append, hsplit, hsegments]
    rfl

lemma text_below_ne_empty (hd : d.text ≠ "") : (d.below names).text ≠ "" := by
  intro htext
  simp [below, hd] at htext

/-- A path below a directory has the parts of the directory and then the names. -/
lemma parts_below (hd : d.text ≠ "") (hnames : ∀ name ∈ names, IsFileName name)
    (hne : names ≠ []) : (d.below names).parts = d.parts ++ names.map .name := by
  obtain ⟨first, rest, hsegments, hbelow⟩ :=
    d.exists_segments_below (fun name hname => (hnames name hname).noSlash) hne
  have hfilter : (names.map String.toList).filter (fun s => !isFiller s) =
      names.map String.toList := by
    refine List.filter_eq_self.mpr fun s hs => ?_
    obtain ⟨name, hname, rfl⟩ := List.mem_map.mp hs
    rw [(hnames name hname).isFiller_eq_false]
    rfl
  have hmap : (names.map String.toList).map Part.ofSegment = names.map .name := by
    rw [List.map_map]
    exact List.map_congr_left fun name hname => (hnames name hname).ofSegment_eq
  have hparts : d.parts = (if first = [] then .root else .ofSegment first) ::
      (rest.filter fun s => !isFiller s).map .ofSegment := by
    rcases hsegments with hsegments | hsegments
    · exact parts_of_segments hd hsegments
    · rw [parts_of_segments hd hsegments, List.filter_append]
      simp [isFiller]
  rw [parts_of_segments (text_below_ne_empty hd) hbelow, hparts, List.filter_append, List.map_append,
    hfilter, hmap, List.cons_append]

lemma text_below_concat (d : Path) (name : String) (hne : names ≠ []) :
    (d.below (names ++ [name])).text = (d.below names).text ++ ("/" ++ name) := by
  have hjoin : "/".intercalate (names ++ [name]) = "/".intercalate names ++ ("/" ++ name) := by
    induction names with
    | nil => exact absurd rfl hne
    | cons first names ih =>
      cases names with
      | nil => simp [String.append_assoc]
      | cons second names => simp_all [String.append_assoc]
  simp [below, hjoin, String.append_assoc]

/-- The names before the last one give a shorter path. -/
lemma size_below_dropLast_le (d : Path) (h : names.dropLast ≠ []) :
    (d.below names.dropLast).text.utf8ByteSize ≤ (d.below names).text.utf8ByteSize := by
  have hne : names ≠ [] := by
    rintro rfl
    exact h rfl
  have htext := text_below_concat d (names.getLast hne) h
  rw [List.dropLast_concat_getLast hne] at htext
  rw [htext, String.utf8ByteSize_append]
  exact Nat.le_add_right _ _

/-- A character other than the slash is in a path below a directory only if it is in the path of the
directory or in one of the names. -/
lemma notMem_below {c : Char} (hc : c ≠ '/') (hd : c ∉ d.text.toList)
    (hnames : ∀ name ∈ names, c ∉ name.toList) : c ∉ (d.below names).text.toList := by
  have hjoin : c ∉ ['/'].intercalate (names.map String.toList) :=
    notMem_intercalate hc (List.forall_mem_map.mpr hnames)
  have hslash : c ∉ (if d.text.toList.getLast? = some '/' then "" else "/").toList := by
    split_ifs <;> simp [hc]
  simp [below, hd, hjoin, hslash]

/-- A path that ends in a name does not say that it is a directory. -/
lemma endsOpen_below (d : Path) (hnames : ∀ name ∈ names, IsFileName name) (hne : names ≠ []) :
    (d.below names).endsOpen = false := by
  obtain ⟨first, rest, -, hbelow⟩ :=
    d.exists_segments_below (fun name hname => (hnames name hname).noSlash) hne
  obtain ⟨name, hlast⟩ := Option.ne_none_iff_exists'.mp (mt List.getLast?_eq_none_iff.mp hne)
  have hname := hnames name (List.mem_of_getLast? hlast)
  rw [endsOpen, hbelow]
  simp [List.getLast?_append, hlast, hname.isFiller_eq_false]

end Path

end AssemblyPolicy
