import AssemblyPolicy.Proofs.Files.Path

/-!
# Components of paths

A path starts from the root, from the working directory that a `.` marks, or with its first component.
Its parts are this start and its components (`Path.parts_eq`), and where it leads depends on no more
than its components and whether it starts from the root (`Path.forall_place_eq_iff`).
-/

namespace AssemblyPolicy.Path

variable {p q : Path} {cs : List Char}

/-- The texts between the slashes of a path, without those that add nothing. -/
def components (p : Path) : List (List Char) := p.segments.filter fun s => !isFiller s

/-- Does a path start from the root? -/
def isAbsolute (p : Path) : Bool := p.text.toList.head? = some '/'

/-- Does a path start with a mark of the working directory? -/
def isDotted (p : Path) : Bool := p.parts.head? = some .here

/-- What comes before the components of a path. -/
def start (p : Path) : List Part :=
  if p.isAbsolute then [.root] else if p.isDotted then [.here] else []

/-! ### Parts and components -/

lemma isAbsolute_ofList_iff :
    (⟨String.ofList cs⟩ : Path).isAbsolute = true ↔ ∃ rest, cs = '/' :: rest := by
  rw [isAbsolute, decide_eq_true_iff, String.toList_ofList]
  cases cs <;> simp

lemma isAbsolute_iff_of_segments {first : List Char} {rest : List (List Char)} (hp : p.text ≠ "")
    (h : p.segments = first :: rest) : p.isAbsolute = true ↔ first = [] := by
  rw [segments] at h
  cases hcs : p.text.toList with
  | nil => exact absurd (String.toList_injective hcs) hp
  | cons c cs =>
    rw [hcs, splitAll] at h
    by_cases hc : c = '/'
    · rw [if_pos hc] at h
      simp_all [isAbsolute]
    · have hfirst : first ≠ [] := by
        rw [if_neg hc] at h
        split at h <;> exact (List.cons.inj h).1 ▸ List.cons_ne_nil _ _
      simp [isAbsolute, hcs, hc, hfirst]

/-- A component is a name, or leads up. -/
lemma ofSegment_of_not_isFiller {s : List Char} (h : isFiller s = false) :
    Part.ofSegment s ≠ .root ∧ Part.ofSegment s ≠ .here := by
  have hne : s ≠ ['.'] := by
    rintro rfl
    cases h
  rw [Part.ofSegment, if_neg hne]
  split_ifs <;> simp

lemma ne_root_of_mem_components {part : Part} (h : part ∈ p.components.map Part.ofSegment) :
    part ≠ .root := by
  obtain ⟨s, hs, rfl⟩ := List.mem_map.mp h
  exact (ofSegment_of_not_isFiller (by simpa using (List.mem_filter.mp hs).2)).1

/-- The parts of a path are its start and its components. -/
lemma parts_eq (p : Path) : p.parts = p.start ++ p.components.map Part.ofSegment := by
  by_cases hp : p.text = ""
  · simp [start, isDotted, parts, components, segments, splitAll, isAbsolute, isFiller, hp]
  · obtain ⟨first, rest, hsegments⟩ :=
      List.exists_cons_of_ne_nil (splitAll_ne_nil '/' p.text.toList)
    have habsolute := isAbsolute_iff_of_segments hp hsegments
    have hparts := parts_of_segments hp hsegments
    have hdotted : p.isDotted = true ↔ first = ['.'] := by
      by_cases hroot : first = []
      · simp [isDotted, hparts, hroot]
      · by_cases hhere : first = ['.']
        · simp [isDotted, hparts, hhere, Part.ofSegment]
        · have hpart := ofSegment_of_not_isFiller (s := first) (by simp [isFiller, hroot, hhere])
          simp [isDotted, hparts, hroot, hhere, hpart.2]
    rw [start, hparts, components, show p.segments = _ from hsegments]
    by_cases hroot : first = []
    · simp [hroot, isFiller, habsolute.mpr hroot]
    · by_cases hhere : first = ['.']
      · simp [habsolute, hdotted, hhere, isFiller, Part.ofSegment]
      · simp [habsolute, hdotted, hroot, hhere, isFiller]

/-- Dotted paths with the same components have the same parts. -/
lemma parts_eq_of_isDotted (hp : p.isDotted = true) (hq : q.isDotted = true)
    (h : p.components = q.components) : p.parts = q.parts := by
  have hstart : ∀ p : Path, p.isDotted = true → p.start = [.here] := by
    intro p hp
    have hhead : p.parts.head? = some .here := by simpa [isDotted] using hp
    have habsolute : p.isAbsolute = false := by
      by_contra hroot
      rw [parts_eq, start, if_pos (by simpa using hroot)] at hhead
      cases hhead
    simp [start, habsolute, hp]
  rw [parts_eq, parts_eq, hstart p hp, hstart q hq, h]

/-! ### Where a path leads -/

/-- A path leads along its components, from the root or from the working directory. -/
lemma place_eq (p : Path) (home : Place) : p.place home =
    (p.components.map Part.ofSegment).foldl Part.step (if p.isAbsolute then [] else home) := by
  rw [place, parts_eq, List.foldl_append, start]
  congr 1
  split_ifs <;> rfl

/-- A place that is further down than there are parts to go stays further down than the root. -/
lemma length_foldl_step_lt {parts : List Part} (hparts : ∀ part ∈ parts, part ≠ .root)
    {near far : Place} (h : near.length + parts.length < far.length) :
    (parts.foldl Part.step near).length < (parts.foldl Part.step far).length := by
  induction parts generalizing near far with
  | nil => exact h
  | cons part parts ih =>
    obtain ⟨hpart, hparts⟩ := List.forall_mem_cons.mp hparts
    rw [List.length_cons] at h
    refine ih hparts ?_
    cases part with
    | root => exact absurd rfl hpart
    | here => exact Nat.lt_of_succ_lt h
    | up =>
      simp only [Part.step, List.length_dropLast]
      omega
    | name s =>
      simp only [Part.step, List.length_append, List.length_singleton]
      omega

/-- Paths with the same components lead to the same places exactly if both start from the root or both
do not. -/
lemma forall_place_eq_iff (h : p.components = q.components) :
    (∀ home, p.place home = q.place home) ↔ p.isAbsolute = q.isAbsolute := by
  simp only [place_eq, h]
  refine ⟨fun hplace => ?_, fun habsolute home => by rw [habsolute]⟩
  -- From a working directory that is deep enough no path leads up to the root.
  have hdeep : ((q.components.map Part.ofSegment).foldl Part.step []).length <
      ((q.components.map Part.ofSegment).foldl Part.step
        (List.replicate (q.components.length + 1) "")).length :=
    length_foldl_step_lt (fun _ => ne_root_of_mem_components) (by simp)
  have hsame := congrArg List.length (hplace (List.replicate (q.components.length + 1) ""))
  cases hp : p.isAbsolute <;> cases hq : q.isAbsolute <;> simp [hp, hq] at hsame ⊢ <;> omega

end AssemblyPolicy.Path
