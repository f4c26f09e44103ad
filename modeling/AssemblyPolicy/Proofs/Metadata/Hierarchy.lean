import AssemblyPolicy.Metadata.Hierarchy
import AssemblyPolicy.Proofs.Metadata.Extension
import Mathlib.Data.List.Chain

/-!
# Chains of base types

`AssemblySet.inherits` strikes each type it passes off those still ahead, which makes it end. Nothing
is lost by that: a chain that comes back to where it started can be shortened, so the answer is yes
exactly when any chain at all leads to the name without passing the root (`inherits_decides`).
-/

namespace AssemblyPolicy

namespace AssemblySet

variable {s : AssemblySet} {t base : TypeRef} {name : TypeName} {between ahead : List TypeRef}

/-! ### Chains -/

/-- The first type is loaded, and the second is its base type. -/
def Derives (s : AssemblySet) (t base : TypeRef) : Prop :=
  ∃ d, s.resolveType t = .ok d ∧ d.baseType = some base

lemma derives_iff : s.Derives t base ↔ s.baseType? t = some base := baseType?_eq_some_iff.symm

lemma Derives.mem_declaredTypes (h : s.Derives t base) : t ∈ s.declaredTypes := by
  obtain ⟨d, hd, -⟩ := h
  obtain ⟨a, ha, hfind⟩ := resolveType_eq_ok_iff.mp hd
  obtain ⟨hmem, hname⟩ := mem_of_find?_eq_some ha
  have htype : d.ns = t.ns ∧ d.name = t.name := by simpa using List.find?_some hfind
  refine mem_declaredTypes_iff.mpr ⟨a, hmem, d, List.mem_of_find?_eq_some hfind, ?_⟩
  simp [TypeDef.reference, hname, htype]

/-- A chain of base types leads from a type to another, past others of which none is the root. -/
structure Ascent (s : AssemblySet) (t : TypeRef) (between : List TypeRef) (base : TypeRef) :
    Prop where
  chain : (t :: (between ++ [base])).IsChain s.Derives
  rootless : ∀ r ∈ between, r.isRoot = false

namespace Ascent

lemma single (h : s.Derives t base) : s.Ascent t [] base := ⟨List.isChain_pair.mpr h, by simp⟩

lemma cons {next : TypeRef} (hnext : s.Derives t next) (hroot : next.isRoot = false)
    (h : s.Ascent next between base) : s.Ascent t (next :: between) base :=
  ⟨List.isChain_cons_cons.mpr ⟨hnext, h.chain⟩, List.forall_mem_cons.mpr ⟨hroot, h.rootless⟩⟩

lemma of_append (before : List TypeRef) {r : TypeRef}
    (h : s.Ascent t (before ++ r :: between) base) : s.Ascent r between base := by
  have hchain := h.chain
  rw [List.append_assoc, ← List.cons_append] at hchain
  exact ⟨hchain.right_of_append, fun r' hr => h.rootless r' (by simp [hr])⟩

/-- What a chain passes is declared. -/
lemma subset_declaredTypes (h : s.Ascent t between base) : between ⊆ s.declaredTypes := by
  intro r hr
  obtain ⟨before, after, rfl⟩ := List.append_of_mem hr
  -- The chain goes on from each type that it passes.
  have hrest := (h.of_append before).chain
  cases after with
  | nil => exact (List.isChain_pair.mp hrest).mem_declaredTypes
  | cons next after => exact (List.isChain_cons_cons.mp hrest).1.mem_declaredTypes

/-- A chain need not come back to where it started. -/
lemma exists_not_mem (h : s.Ascent t between base) :
    ∃ between', s.Ascent t between' base ∧ between' ⊆ between ∧ t ∉ between' := by
  induction hn : between.length using Nat.strongRecOn generalizing between with
  | _ n ih =>
    by_cases ht : t ∈ between
    · obtain ⟨before, after, rfl⟩ := List.append_of_mem ht
      have hlt : after.length < n := by
        rw [← hn, List.length_append, List.length_cons]
        omega
      obtain ⟨between', hascent, hsub, hnot⟩ := ih _ hlt (h.of_append before) rfl
      exact ⟨between', hascent, List.Subset.trans hsub (by simp), hnot⟩
    · exact ⟨between, h, List.Subset.refl _, ht⟩

end Ascent

/-! ### The search -/

lemma names_iff : name.names t = true ↔ t.typeName = name := by
  obtain ⟨ns, n⟩ := name
  simp only [TypeName.names, TypeRef.typeName, Bool.and_eq_true, decide_eq_true_eq,
    TypeName.mk.injEq]
  exact and_congr eq_comm eq_comm

lemma exists_ascent_of_inheritsFrom (h : s.inheritsFrom name ahead t = true) :
    ∃ between base, s.Ascent t between base ∧ base.typeName = name := by
  induction hn : ahead.length using Nat.strongRecOn generalizing ahead t with
  | _ n ih =>
    obtain ⟨next, hnext, hnames | ⟨hroot, hmem, hrest⟩⟩ := inheritsFrom_iff.mp h
    · exact ⟨[], next, .single (derives_iff.mpr hnext), names_iff.mp hnames⟩
    · have hlt : (next.without ahead).length < n := hn ▸ TypeRef.length_without hmem
      obtain ⟨between, base, hascent, hbase⟩ := ih _ hlt hrest rfl
      exact ⟨next :: between, base, .cons (derives_iff.mpr hnext) hroot hascent, hbase⟩

/-- At each turn the rest of the chain is taken not to come back, so it stays within what is ahead
when the type it starts from is struck off. -/
lemma inheritsFrom_of_ascent (h : s.Ascent t between base) (hbase : base.typeName = name)
    (hsub : between ⊆ ahead) : s.inheritsFrom name ahead t = true := by
  induction hn : ahead.length using Nat.strongRecOn generalizing ahead between t with
  | _ n ih =>
    cases between with
    | nil =>
      have hnext := derives_iff.mp (List.isChain_pair.mp h.chain)
      exact inheritsFrom_iff.mpr ⟨base, hnext, .inl (names_iff.mpr hbase)⟩
    | cons next between =>
      have hnext := derives_iff.mp (List.isChain_cons_cons.mp h.chain).1
      have hmem : next ∈ ahead := hsub List.mem_cons_self
      have hrest : s.Ascent next between base := h.of_append []
      obtain ⟨between', hrest, hsub', hnot⟩ := hrest.exists_not_mem
      refine inheritsFrom_iff.mpr ⟨next, hnext, .inr ⟨h.rootless next List.mem_cons_self, hmem, ?_⟩⟩
      have hlt : (next.without ahead).length < n := hn ▸ TypeRef.length_without hmem
      refine ih _ hlt hrest (fun r hr => ?_) rfl
      have hne : r ≠ next := fun heq => hnot (heq ▸ hr)
      exact List.mem_filter.mpr ⟨hsub (List.mem_cons_of_mem _ (hsub' hr)), by simpa using hne⟩

lemma inherits_iff_exists_ascent :
    s.inherits t name = true ↔ ∃ between base, s.Ascent t between base ∧ base.typeName = name := by
  constructor
  · exact exists_ascent_of_inheritsFrom
  · rintro ⟨between, base, h, hbase⟩
    obtain ⟨between', h, -, hnot⟩ := h.exists_not_mem
    refine inheritsFrom_of_ascent h hbase fun r hr => ?_
    have hne : r ≠ t := fun heq => hnot (heq ▸ hr)
    exact List.mem_filter.mpr ⟨h.subset_declaredTypes hr, by simpa using hne⟩

/-! ### Turns -/

/-- The search in a number of turns, which knows the types it has passed in place of those ahead. It
has no answer when the turns do not suffice. -/
def inheritsWithin (s : AssemblySet) (name : TypeName) : Nat → List TypeRef → TypeRef → Option Bool
  | 0, _, _ => none
  | turns + 1, passed, t =>
    match s.baseType? t with
    | none => some false
    | some base =>
      if name.names base then some true
      else if base.isRoot then some false
      else if base ∈ passed then some false
      else s.inheritsWithin name turns (base :: passed) base

/-- Each turn but the last takes one of the types ahead. A type that is not declared has no base type,
so the turn after it is the last. -/
lemma inheritsWithin_eq {passed : List TypeRef} {turns : Nat}
    (hahead : ∀ r, r ∈ ahead ↔ r ∈ s.declaredTypes ∧ r ∉ passed) (hturns : ahead.length + 1 < turns) :
    s.inheritsWithin name turns passed t = some (s.inheritsFrom name ahead t) := by
  induction turns generalizing ahead passed t with
  | zero => omega
  | succ turns ih =>
    rw [inheritsWithin, inheritsFrom]
    cases hbase : s.baseType? t with
    | none => rfl
    | some base =>
      dsimp only
      split_ifs with hnames hroot hpassed hmem hmem
      · rfl
      · rfl
      · exact absurd hpassed ((hahead base).mp hmem).2
      · rfl
      · have hlt := TypeRef.length_without hmem
        refine ih (fun r => ?_) (by omega)
        simp only [TypeRef.without, List.mem_filter, hahead, List.mem_cons, decide_eq_true_eq]
        tauto
      · have hnone : s.baseType? base = none := by
          rw [Option.eq_none_iff_forall_ne_some]
          intro next hnext
          have hdeclared := (derives_iff.mpr hnext).mem_declaredTypes
          exact hmem ((hahead base).mpr ⟨hdeclared, hpassed⟩)
        obtain ⟨turns, rfl⟩ : ∃ k, turns = k + 1 := ⟨turns - 1, by omega⟩
        rw [inheritsWithin, hnone]

/-- A type is a proper subtype exactly when a chain of base types leads to the name and passes no
root, and the search knows so once it has had one turn more than there are declared types. -/
theorem inherits_decides (s : AssemblySet) (t : TypeRef) (name : TypeName) :
    (s.inherits t name = true ↔
      ∃ between base, s.Ascent t between base ∧ base.typeName = name) ∧
    ∀ turns, s.declaredTypes.length < turns →
      s.inheritsWithin name turns [t] t = some (s.inherits t name) := by
  refine ⟨inherits_iff_exists_ascent, fun turns hturns => ?_⟩
  by_cases ht : t ∈ s.declaredTypes
  · have hlt := TypeRef.length_without ht
    refine inheritsWithin_eq (fun r => ?_) (by omega)
    simp [TypeRef.without]
  · have hnone : s.baseType? t = none := by
      rw [Option.eq_none_iff_forall_ne_some]
      intro next hnext
      exact ht (derives_iff.mpr hnext).mem_declaredTypes
    obtain ⟨turns, rfl⟩ : ∃ k, turns = k + 1 := ⟨turns - 1, by omega⟩
    rw [inheritsWithin, inherits, inheritsFrom, hnone]

end AssemblySet

/-! ### Types that derive from each other -/

namespace Cycle

def first : TypeRef := ⟨"Mod", "", "A"⟩

def second : TypeRef := ⟨"Mod", "", "B"⟩

def loaded : AssemblySet := .insert .empty
  ⟨none, "Mod", [⟨"", "A", some second, [], [], []⟩, ⟨"", "B", some first, [], [], []⟩]⟩

/-- On a cycle a type is a subtype of itself, and of nothing that is not on the cycle. -/
theorem decides_cycle : loaded.declaredTypes.length < 3 ∧ loaded.inherits first ⟨"", "A"⟩ = true ∧
    loaded.inherits first ⟨"", "C"⟩ = false := by
  have hlength : loaded.declaredTypes.length < 3 := by decide
  have hself : loaded.inherits first ⟨"", "A"⟩ = true := by
    refine (AssemblySet.inherits_decides loaded first ⟨"", "A"⟩).1.mpr ⟨[second], first, ?_, rfl⟩
    exact .cons (AssemblySet.derives_iff.mpr rfl) rfl (.single (AssemblySet.derives_iff.mpr rfl))
  have hother := (AssemblySet.inherits_decides loaded first ⟨"", "C"⟩).2 3 hlength
  have hend : loaded.inheritsWithin ⟨"", "C"⟩ 3 [first] first = some false := by decide
  exact ⟨hlength, hself, Option.some.inj (hother.symm.trans hend)⟩

end Cycle

end AssemblyPolicy
