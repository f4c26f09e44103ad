import AssemblyPolicy.Proofs.Verification.Basic
import AssemblyPolicy.Proofs.Walk.Ownership
import AssemblyPolicy.Verification.Sweep
import Mathlib

/-!
# What a sweep covers

A `Site` is the place of a check: a type, a member of it, and a restriction. Sites are in the order
of their keys. A sweep checks every site once, in this order, and reports exactly what the checks
find (`AssemblyModel.sweep_covers`).
-/

namespace AssemblyPolicy

/-! ### Places of checks -/

/-- The rounds in which a type is checked: the type itself for inheritance, its members for the use
of namespaces and types, and its methods for the use of members. -/
inductive Round where
  | inheritance
  | usage
  | member
  deriving DecidableEq

/-- The place of a member in the declaration of a type. -/
inductive Slot where
  | type
  | field (index : Nat)
  | property (index : Nat)
  | method (index : Nat)

/-- The place of a check: the type, the round, the member and the restriction. -/
structure Site where
  type : Nat
  round : Round
  slot : Slot
  restriction : Nat

namespace Round

/-- The rounds in their order. -/
def all : List Round := [inheritance, usage, member]

/-- The number of a round. -/
def rank : Round → Nat
  | inheritance => 0
  | usage => 1
  | member => 2

/-- Is the member at a slot checked in the round? -/
def covers : Round → Slot → Bool
  | inheritance, .type => true
  | usage, .field _ => true
  | usage, .property _ => true
  | usage, .method _ => true
  | member, .method _ => true
  | _, _ => false

end Round

/-- The round in which a target is looked for. -/
def Target.round : Target → Round
  | inNamespace _ _ => .usage
  | type _ => .usage
  | member _ => .member
  | inheritance _ => .inheritance

namespace Slot

/-- Fields come before properties, and properties before methods. -/
def kind : Slot → Nat
  | type => 0
  | field _ => 1
  | property _ => 2
  | method _ => 3

/-- The place among the members of one kind. -/
def index : Slot → Nat
  | type => 0
  | field i => i
  | property i => i
  | method i => i

/-- Slots are in the order of kinds, then of declarations. -/
def key (x : Slot) : List Nat := [x.kind, x.index]

end Slot

/-- Sites are in the order of types, then of rounds, members and restrictions. -/
def Site.key (x : Site) : List Nat :=
  [x.type, x.round.rank, x.slot.kind, x.slot.index, x.restriction]

/-- The member at a slot. Methods without a body are no members to check. -/
def TypeDef.memberAt? (t : TypeDef) (owner : TypeRef) : Slot → Option MemberRef
  | .type => some (.type owner)
  | .field i => t.fields[i]?.map fun f => .field ⟨owner, f.name, f.fieldType⟩
  | .property i => t.properties[i]?.map fun p => .property ⟨owner, p.name, p.propertyType⟩
  | .method i =>
    (t.methods[i]?.filter (·.body.isSome)).map fun m => .method ⟨owner, m.name, m.signature⟩

/-- The member and the restriction to check at a site, if there is something to check. -/
def AssemblyModel.pairAt? (a : AssemblyModel) (policy : Policy) (x : Site) :
    Option (MemberRef × Restriction) := do
  let t ← a.types[x.type]?
  let m ← t.memberAt? (t.reference a.name) x.slot
  let r ← policy.restrictions[x.restriction]?
  if r.target.round = x.round ∧ x.round.covers x.slot then some (m, r) else none

/-- What is checked at some sites. -/
def AssemblyModel.pairsAt (a : AssemblyModel) (policy : Policy) (sites : List Site) :
    List (MemberRef × Restriction) :=
  sites.filterMap (a.pairAt? policy)

/-! ### Lists with places -/

section

variable {α β : Type} {l : List α}

lemma pairwise_zipIdx (l : List α) : l.zipIdx.Pairwise (·.2 < ·.2) := by
  rw [← List.pairwise_map (R := (· < ·)), List.zipIdx_map_snd]
  exact List.pairwise_lt_range' 1

/-- A map that does not look at the places is a map of the elements. -/
lemma map_zipIdx {f : α × Nat → β} {g : α → β} (h : ∀ e, f e = g e.1) :
    l.zipIdx.map f = l.map g := by
  conv_rhs => rw [← List.zipIdx_map_fst 0 l, List.map_map]
  exact List.map_congr_left fun e _ => h e

lemma map_filter_zipIdx {f : α × Nat → β} {g : α → β} (p : α → Bool) (h : ∀ e, f e = g e.1) :
    (l.zipIdx.filter (p ·.1)).map f = (l.filter p).map g := by
  conv_rhs => rw [← List.zipIdx_map_fst 0 l, List.filter_map, List.map_map]
  exact List.map_congr_left fun e _ => h e

/-- Choosing among the results of a map is choosing before it. -/
lemma filterMap_map_eq {γ : Type} {f : α → β} {g : β → Option γ} {p : α → Bool} {h : α → γ}
    (hg : ∀ e, g (f e) = if p e then some (h e) else none) :
    (l.map f).filterMap g = (l.filter p).map h := by
  rw [List.filterMap_map, ← List.filterMap_eq_map, List.filterMap_filter]
  exact List.filterMap_congr fun e _ => hg e

end

/-! ### The members of a type -/

namespace TypeDef

variable {t : TypeDef} {owner : TypeRef}

/-- The fields of a type with their slots. -/
def fieldSlots (t : TypeDef) (owner : TypeRef) : List (Slot × MemberRef) :=
  t.fields.zipIdx.map fun e => (.field e.2, .field ⟨owner, e.1.name, e.1.fieldType⟩)

/-- The properties of a type with their slots. -/
def propertySlots (t : TypeDef) (owner : TypeRef) : List (Slot × MemberRef) :=
  t.properties.zipIdx.map fun e => (.property e.2, .property ⟨owner, e.1.name, e.1.propertyType⟩)

/-- The methods of a type that have a body, with their slots. -/
def methodSlots (t : TypeDef) (owner : TypeRef) : List (Slot × MemberRef) :=
  (t.methods.zipIdx.filter (·.1.body.isSome)).map fun e =>
    (.method e.2, .method ⟨owner, e.1.name, e.1.signature⟩)

/-- The members that a type is checked with in a round. -/
def slots (t : TypeDef) (owner : TypeRef) : Round → List (Slot × MemberRef)
  | .inheritance => [(.type, .type owner)]
  | .usage => t.fieldSlots owner ++ t.propertySlots owner ++ t.methodSlots owner
  | .member => t.methodSlots owner

/-- Without their slots these are the members that a round is about. -/
lemma map_snd_slots (t : TypeDef) (owner : TypeRef) (round : Round) :
    (t.slots owner round).map Prod.snd =
      match round with
      | .inheritance => [.type owner]
      | .usage => t.values owner ++ t.bodies owner
      | .member => t.bodies owner := by
  have hfields : (t.fieldSlots owner).map Prod.snd =
      t.fields.map fun f => .field ⟨owner, f.name, f.fieldType⟩ := by
    rw [fieldSlots, List.map_map]
    exact map_zipIdx fun _ => rfl
  have hproperties : (t.propertySlots owner).map Prod.snd =
      t.properties.map fun p => .property ⟨owner, p.name, p.propertyType⟩ := by
    rw [propertySlots, List.map_map]
    exact map_zipIdx fun _ => rfl
  have hmethods : (t.methodSlots owner).map Prod.snd = t.bodies owner := by
    rw [methodSlots, bodies, List.map_map]
    exact map_filter_zipIdx (fun d : MethodDef => d.body.isSome) fun _ => rfl
  cases round with
  | inheritance => rfl
  | member => exact hmethods
  | usage => rw [slots, List.map_append, List.map_append, hfields, hproperties, hmethods, values]

/-- Every member stands at its slot. -/
lemma mem_slots_iff {round : Round} {slot : Slot} {m : MemberRef} :
    (slot, m) ∈ t.slots owner round ↔
      round.covers slot = true ∧ t.memberAt? owner slot = some m := by
  have htype : m = .type owner ↔ some (MemberRef.type owner) = some m := by
    rw [Option.some.injEq, eq_comm]
  cases round <;> cases slot <;>
    simp [slots, fieldSlots, propertySlots, methodSlots, memberAt?, Round.covers,
      List.mem_zipIdx_iff_getElem?, htype]

lemma pairwise_slots (t : TypeDef) (owner : TypeRef) (round : Round) :
    (t.slots owner round).Pairwise (·.1.key < ·.1.key) := by
  have hfields : (t.fieldSlots owner).Pairwise (·.1.key < ·.1.key) := by
    refine List.pairwise_map.mpr ((pairwise_zipIdx t.fields).imp fun h => ?_)
    simpa [Slot.key, Slot.kind, Slot.index, List.cons_lt_cons_iff] using h
  have hproperties : (t.propertySlots owner).Pairwise (·.1.key < ·.1.key) := by
    refine List.pairwise_map.mpr ((pairwise_zipIdx t.properties).imp fun h => ?_)
    simpa [Slot.key, Slot.kind, Slot.index, List.cons_lt_cons_iff] using h
  have hmethods : (t.methodSlots owner).Pairwise (·.1.key < ·.1.key) := by
    refine List.pairwise_map.mpr (((pairwise_zipIdx t.methods).filter _).imp fun h => ?_)
    simpa [Slot.key, Slot.kind, Slot.index, List.cons_lt_cons_iff] using h
  cases round with
  | inheritance => exact List.pairwise_singleton _ _
  | member => exact hmethods
  | usage =>
    refine List.pairwise_append.mpr
      ⟨List.pairwise_append.mpr ⟨hfields, hproperties, ?_⟩, hmethods, ?_⟩
    · intro x hx y hy
      obtain ⟨e, -, rfl⟩ := List.mem_map.mp hx
      obtain ⟨e', -, rfl⟩ := List.mem_map.mp hy
      simp [Slot.key, Slot.kind, List.cons_lt_cons_iff]
    · intro x hx y hy
      obtain ⟨e', -, rfl⟩ := List.mem_map.mp hy
      rcases List.mem_append.mp hx with hx | hx
      · obtain ⟨e, -, rfl⟩ := List.mem_map.mp hx
        simp [Slot.key, Slot.kind, List.cons_lt_cons_iff]
      · obtain ⟨e, -, rfl⟩ := List.mem_map.mp hx
        simp [Slot.key, Slot.kind, List.cons_lt_cons_iff]

end TypeDef

/-! ### All checks of an assembly -/

/-- The restrictions of a policy that a round is about. -/
def Policy.restrictionsIn (policy : Policy) (round : Round) : List Restriction :=
  policy.restrictions.filter (·.target.round = round)

lemma Policy.inheritanceRestrictions_eq (policy : Policy) :
    policy.inheritanceRestrictions = policy.restrictionsIn .inheritance := by
  refine List.filter_congr fun r _ => ?_
  cases r.target <;> rfl

lemma Policy.usageRestrictions_eq (policy : Policy) :
    policy.usageRestrictions = policy.restrictionsIn .usage := by
  refine List.filter_congr fun r _ => ?_
  cases r.target <;> rfl

lemma Policy.memberRestrictions_eq (policy : Policy) :
    policy.memberRestrictions = policy.restrictionsIn .member := by
  refine List.filter_congr fun r _ => ?_
  cases r.target <;> rfl

/-- A type is checked round by round. -/
lemma TypeDef.pairs_eq (t : TypeDef) (policy : Policy) (assembly : String) :
    t.pairs policy assembly = Round.all.flatMap fun round =>
      product ((t.slots (t.reference assembly) round).map Prod.snd)
        (policy.restrictionsIn round) := by
  simp [pairs, Round.all, map_snd_slots, Policy.inheritanceRestrictions_eq,
    Policy.usageRestrictions_eq, Policy.memberRestrictions_eq]

/-- The checks of a member in a round of a type, with their sites. -/
def Slot.sites (slot : Slot) (m : MemberRef) (policy : Policy) (type : Nat) (round : Round) :
    List (Site × MemberRef × Restriction) :=
  (policy.restrictions.zipIdx.filter (·.1.target.round = round)).map fun (r, k) =>
    (⟨type, round, slot, k⟩, m, r)

/-- The checks of a type with their sites. -/
def TypeDef.sites (t : TypeDef) (owner : TypeRef) (policy : Policy) (type : Nat) :
    List (Site × MemberRef × Restriction) :=
  Round.all.flatMap fun round =>
    (t.slots owner round).flatMap fun (slot, m) => slot.sites m policy type round

/-- The checks of an assembly with their sites. -/
def AssemblyModel.sites (a : AssemblyModel) (policy : Policy) :
    List (Site × MemberRef × Restriction) :=
  a.types.zipIdx.flatMap fun (t, i) => t.sites (t.reference a.name) policy i

section

variable {a : AssemblyModel} {policy : Policy} {t : TypeDef} {owner : TypeRef} {slot : Slot}
  {m : MemberRef} {r : Restriction} {type : Nat} {round : Round} {x : Site}

lemma Slot.mem_sites_iff {p : MemberRef × Restriction} :
    (x, p) ∈ slot.sites m policy type round ↔ x.type = type ∧ x.round = round ∧ x.slot = slot ∧
      p.1 = m ∧ policy.restrictions[x.restriction]? = some p.2 ∧ p.2.target.round = round := by
  obtain ⟨i, round', slot', k⟩ := x
  obtain ⟨m', r⟩ := p
  simp only [sites, List.mem_map, List.mem_filter, Prod.exists, List.mk_mem_zipIdx_iff_getElem?,
    Prod.mk.injEq, Site.mk.injEq, decide_eq_true_eq]
  constructor
  · rintro ⟨r, k, ⟨hr, hround⟩, ⟨rfl, rfl, rfl, rfl⟩, rfl, rfl⟩
    exact ⟨rfl, rfl, rfl, rfl, hr, hround⟩
  · rintro ⟨rfl, rfl, rfl, rfl, hr, hround⟩
    exact ⟨r, k, ⟨hr, hround⟩, ⟨rfl, rfl, rfl, rfl⟩, rfl, rfl⟩

lemma TypeDef.mem_sites_iff {p : MemberRef × Restriction} :
    (x, p) ∈ t.sites owner policy type ↔ x.type = type ∧ t.memberAt? owner x.slot = some p.1 ∧
      policy.restrictions[x.restriction]? = some p.2 ∧ p.2.target.round = x.round ∧
        x.round.covers x.slot = true := by
  have hround : x.round ∈ Round.all := by cases x.round <;> decide
  simp only [sites, List.mem_flatMap, Prod.exists, Slot.mem_sites_iff, mem_slots_iff]
  constructor
  · rintro ⟨_, -, _, _, ⟨hcovers, hm⟩, rfl, rfl, rfl, rfl, hr, hround⟩
    exact ⟨rfl, hm, hr, hround, hcovers⟩
  · rintro ⟨rfl, hm, hr, hround', hcovers⟩
    exact ⟨_, hround, _, _, ⟨hcovers, hm⟩, rfl, rfl, rfl, rfl, hr, hround'⟩

lemma AssemblyModel.mem_sites_iff {p : MemberRef × Restriction} :
    (x, p) ∈ a.sites policy ↔ a.pairAt? policy x = some p := by
  simp only [sites, pairAt?, List.mem_flatMap, Prod.exists, List.mk_mem_zipIdx_iff_getElem?,
    TypeDef.mem_sites_iff, Option.bind_eq_bind, Option.bind_eq_some_iff,
    Option.ite_none_right_eq_some, Option.some.injEq]
  constructor
  · rintro ⟨t, _, ht, rfl, hm, hr, hround, hcovers⟩
    exact ⟨t, ht, p.1, hm, p.2, hr, ⟨hround, hcovers⟩, rfl⟩
  · rintro ⟨t, ht, m, hm, r, hr, ⟨hround, hcovers⟩, rfl⟩
    exact ⟨t, x.type, ht, rfl, hm, hr, hround, hcovers⟩

lemma Slot.map_snd_sites : (slot.sites m policy type round).map Prod.snd =
    (policy.restrictionsIn round).map fun r => (m, r) := by
  rw [sites, Policy.restrictionsIn, List.map_map]
  exact map_filter_zipIdx (fun r : Restriction => r.target.round = round) fun _ => rfl

lemma TypeDef.map_snd_sites :
    (t.sites (t.reference a.name) policy type).map Prod.snd = t.pairs policy a.name := by
  rw [pairs_eq, sites, List.map_flatMap]
  refine congrArg (List.flatMap · _) (funext fun round => ?_)
  rw [product, List.flatMap_map, List.map_flatMap]
  exact congrArg (List.flatMap · _) (funext fun e => Slot.map_snd_sites)

/-- What is checked at the sites, in their order, is what is checked for the assembly. -/
lemma AssemblyModel.map_snd_sites : (a.sites policy).map Prod.snd = a.pairs policy := by
  rw [pairs, sites, List.map_flatMap]
  conv_rhs => rw [← List.zipIdx_map_fst 0 a.types, List.flatMap_map]
  exact congrArg (List.flatMap · _) (funext fun e => TypeDef.map_snd_sites)

lemma AssemblyModel.mem_map_fst_sites :
    x ∈ (a.sites policy).map Prod.fst ↔ (a.pairAt? policy x).isSome := by
  rw [List.mem_map, Option.isSome_iff_exists]
  constructor
  · rintro ⟨⟨_, p⟩, h, rfl⟩
    exact ⟨p, mem_sites_iff.mp h⟩
  · rintro ⟨p, h⟩
    exact ⟨(x, p), mem_sites_iff.mpr h, rfl⟩

lemma AssemblyModel.pairsAt_sites (a : AssemblyModel) (policy : Policy) :
    a.pairsAt policy ((a.sites policy).map Prod.fst) = a.pairs policy := by
  rw [pairsAt, List.filterMap_map, ← map_snd_sites, ← List.filterMap_eq_map]
  exact List.filterMap_congr fun e he => mem_sites_iff.mp he

lemma Slot.pairwise_sites : (slot.sites m policy type round).Pairwise (·.1.key < ·.1.key) := by
  refine List.pairwise_map.mpr (((pairwise_zipIdx policy.restrictions).filter _).imp fun h => ?_)
  simpa [Site.key, List.cons_lt_cons_iff] using h

lemma TypeDef.pairwise_sites : (t.sites owner policy type).Pairwise (·.1.key < ·.1.key) := by
  have hrounds : Round.all.Pairwise (·.rank < ·.rank) := by decide
  rw [sites, List.pairwise_flatMap]
  refine ⟨fun round _ => ?_, hrounds.imp fun h x hx y hy => ?_⟩
  · rw [List.pairwise_flatMap]
    refine ⟨fun _ _ => Slot.pairwise_sites, (t.pairwise_slots owner round).imp ?_⟩
    intro e e' h x hx y hy
    obtain ⟨hxt, hxr, hxs, -⟩ := Slot.mem_sites_iff.mp hx
    obtain ⟨hyt, hyr, hys, -⟩ := Slot.mem_sites_iff.mp hy
    simp only [Slot.key, List.cons_lt_cons_iff, List.lt_irrefl, and_false, or_false] at h
    simp only [Site.key, List.cons_lt_cons_iff, hxt, hxr, hxs, hyt, hyr, hys]
    tauto
  · simp only [List.mem_flatMap] at hx hy
    obtain ⟨_, -, hx⟩ := hx
    obtain ⟨_, -, hy⟩ := hy
    obtain ⟨hxt, hxr, -⟩ := Slot.mem_sites_iff.mp hx
    obtain ⟨hyt, hyr, -⟩ := Slot.mem_sites_iff.mp hy
    simp [Site.key, List.cons_lt_cons_iff, *]

lemma AssemblyModel.pairwise_sites : (a.sites policy).Pairwise (·.1.key < ·.1.key) := by
  rw [sites, List.pairwise_flatMap]
  refine ⟨fun _ _ => TypeDef.pairwise_sites, (pairwise_zipIdx a.types).imp fun h x hx y hy => ?_⟩
  have hx := (TypeDef.mem_sites_iff.mp hx).1
  have hy := (TypeDef.mem_sites_iff.mp hy).1
  simp [Site.key, List.cons_lt_cons_iff, *]

/-! ### More restrictions -/

/-- A policy with restrictions after its own. -/
def Policy.extend (policy : Policy) (more : List Restriction) : Policy :=
  { policy with restrictions := policy.restrictions ++ more }

lemma Policy.restrictionsIn_extend (more : List Restriction) :
    (policy.restrictionsIn round).Sublist ((policy.extend more).restrictionsIn round) := by
  simp [restrictionsIn, extend, List.filter_append]

lemma AssemblyModel.pairs_extend (a : AssemblyModel) (policy : Policy) (more : List Restriction) :
    (a.pairs policy).Sublist (a.pairs (policy.extend more)) := by
  refine List.Sublist.flatMap_right _ fun t _ => ?_
  rw [TypeDef.pairs_eq, TypeDef.pairs_eq]
  refine List.Sublist.flatMap_right _ fun round _ => ?_
  refine List.Sublist.flatMap_right _ fun m _ => ?_
  exact (Policy.restrictionsIn_extend more).map _

/-- Neither the boundaries nor the limits of a walk depend on the restrictions. -/
lemma Restriction.presence_restrictions (restrictions : List Restriction) (s : AssemblySet) :
    r.presence { policy with restrictions } s m = r.presence policy s m := by
  cases m with
  | method n =>
    simp only [presence, presenceInCalls_eq_search]
    apply Walk.search_eq_of_react_eq
    · exact fun _ _ => rfl
    · exact fun _ _ _ => rfl
  | _ => rfl

lemma Restriction.verify_extend (more : List Restriction) (s : AssemblySet) :
    r.verify (policy.extend more) s m = r.verify policy s m := by
  rw [verify, verify, Policy.extend, presence_restrictions]

/-- More restrictions find all that the first ones found. -/
lemma AssemblyModel.violations_extend (a : AssemblyModel) (policy : Policy) (s : AssemblySet)
    (more : List Restriction) :
    (a.sweep policy s).violations.Sublist (a.sweep (policy.extend more) s).violations := by
  have hchecks : (a.checks policy s).Sublist (a.checks (policy.extend more) s) := by
    simp only [checks, Restriction.verify_extend]
    exact (a.pairs_extend policy more).map _
  exact hchecks.filterMap _

/-! ### What is found -/

/-- Does the result report a violation? -/
def Result.isViolation : Result → Bool
  | violation _ => true
  | _ => false

lemma Checked.violation?_eq (s : AssemblySet) (assembly : String) :
    Checked.violation? assembly ⟨m, r, r.verify policy s m⟩ =
      if (r.verify policy s m).isViolation then some (.of r m assembly r.message) else none := by
  cases h : r.verify policy s m with
  | violation message =>
    obtain rfl := Restriction.message_of_verify h
    rfl
  | _ => rfl

lemma Checked.inconclusive?_eq (s : AssemblySet) (assembly : String) :
    Checked.inconclusive? assembly ⟨m, r, r.verify policy s m⟩ =
      if r.verify policy s m = .inconclusive then some (.of r m assembly) else none := by
  cases h : r.verify policy s m with
  | inconclusive => rfl
  | _ => rfl

lemma AssemblyModel.violations_sweep (a : AssemblyModel) (policy : Policy) (s : AssemblySet) :
    (a.sweep policy s).violations =
      ((a.pairs policy).filter fun (m, r) => (r.verify policy s m).isViolation).map
        fun (m, r) => .of r m a.name r.message :=
  filterMap_map_eq fun _ => Checked.violation?_eq s a.name

lemma AssemblyModel.inconclusive_sweep (a : AssemblyModel) (policy : Policy) (s : AssemblySet) :
    (a.sweep policy s).inconclusive =
      ((a.pairs policy).filter fun (m, r) => r.verify policy s m = .inconclusive).map
        fun (m, r) => .of r m a.name :=
  filterMap_map_eq fun _ => by simpa using Checked.inconclusive?_eq s a.name

/-- The members that are checked: fields, properties, and methods with a body. -/
lemma TypeDef.length_values_append_bodies (t : TypeDef) (owner : TypeRef) :
    (t.values owner ++ t.bodies owner).length =
      t.fields.length + t.properties.length + t.methods.countP (·.body.isSome) := by
  simp [values, bodies, List.countP_eq_length_filter, Nat.add_assoc]

end

/-- A sweep checks every site once, in the order of sites, and reports what the checks find. The
counters have 32 bits. More restrictions after those of a policy lose no violation. -/
theorem AssemblyModel.sweep_covers (a : AssemblyModel) (policy : Policy) (s : AssemblySet) :
    ∃ sites : List Site,
      sites.Pairwise (·.key < ·.key) ∧
      (∀ x, x ∈ sites ↔ (a.pairAt? policy x).isSome) ∧
      a.checks policy s =
        (a.pairsAt policy sites).map (fun (m, r) => ⟨m, r, r.verify policy s m⟩) ∧
      (a.sweep policy s).violations =
        ((a.pairsAt policy sites).filter fun (m, r) => (r.verify policy s m).isViolation).map
          (fun (m, r) => .of r m a.name r.message) ∧
      (a.sweep policy s).inconclusive =
        ((a.pairsAt policy sites).filter fun (m, r) => r.verify policy s m = .inconclusive).map
          (fun (m, r) => .of r m a.name) ∧
      (a.sweep policy s).restrictionsEvaluated = sites.length % UInt32.size ∧
      (a.sweep policy s).typesScanned = a.types.length % UInt32.size ∧
      (a.sweep policy s).membersScanned =
        (a.types.map fun t => t.fields.length + t.properties.length +
          t.methods.countP (·.body.isSome)).sum % UInt32.size ∧
      ∀ more : List Restriction,
        (a.sweep policy s).violations.Sublist (a.sweep (policy.extend more) s).violations := by
  have hpairs := a.pairsAt_sites policy
  have hlength : (a.checks policy s).length = ((a.sites policy).map Prod.fst).length := by
    rw [checks, List.length_map, ← map_snd_sites, List.length_map, List.length_map]
  refine ⟨(a.sites policy).map Prod.fst, List.pairwise_map.mpr pairwise_sites,
    fun _ => mem_map_fst_sites, ?_, ?_, ?_, congrArg counter hlength, rfl, ?_,
    a.violations_extend policy s⟩
  · rw [hpairs]
    rfl
  · rw [hpairs]
    exact a.violations_sweep policy s
  · rw [hpairs]
    exact a.inconclusive_sweep policy s
  · simp only [sweep, List.length_flatMap, TypeDef.length_values_append_bodies]
    rfl

end AssemblyPolicy
