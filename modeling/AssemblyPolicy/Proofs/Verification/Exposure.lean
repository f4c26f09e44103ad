import AssemblyPolicy.Proofs.Metadata.Declaration
import AssemblyPolicy.Proofs.Verification.Basic
import AssemblyPolicy.Proofs.Walk.Presence
import Mathlib

/-!
# Uses that calls lead to

A walk tells methods apart by their full names, and full names are not faithful: two methods that a
snapshot may declare side by side can share one. Verification exposes every prohibited use that
calls lead to exactly where this does not happen (`exposes_iff_injOn`).
-/

namespace AssemblyPolicy

open Walk

variable {s : AssemblySet} {m n : MethodRef} {a b : MethodRef}

/-- Verification of the method exposes what it uses: a prohibition that applies to it is violated
when calls lead to a use, or left open when the methods to search are more than a limit allows. -/
def Exposes (s : AssemblySet) (m : MethodRef) : Prop :=
  ∀ (policy : Policy) (r : Restriction) (path : List MethodRef), r.mode = .prohibited →
    r.appliesTo s (.method m) = true →
    (m :: path).IsChain (startingAt (r.pattern s) policy s m).Calls →
    (∃ n ∈ (m :: path).getLast?, (startingAt (r.pattern s) policy s m).Hit n) →
      r.verify policy s (.method m) = .violation r.message ∨
        r.verify policy s (.method m) = .inconclusive ∧
          min policy.limits.maxDepth policy.limits.maxMethods <
            ((startingAt (r.pattern s) policy s m).region m).ncard

/-! ### Faithful names -/

/-- Where full names tell the methods with bodies apart, no use is hidden. -/
lemma exposes_of_injOn
    (hinj : Set.InjOn MethodRef.fullName {n ∈ s.named m | ∃ b, s.methodBody? n = some b}) :
    Exposes s m := by
  intro policy r path hmode happlies hchain hit
  have hsub : (startingAt (r.pattern s) policy s m).region m ⊆
      {n ∈ s.named m | ∃ b, s.methodBody? n = some b} := by
    intro n hn
    exact ⟨eq_or_mem_callees_of_mem_region hn, hn.2⟩
  rw [Restriction.verify_eq_judge happlies, Restriction.judge_eq_violation_iff hmode,
    Restriction.judge_eq_inconclusive_iff hmode]
  cases hs : r.presence policy s (.method m) with
  | present => exact .inl rfl
  | absent => exact absurd hs (search_ne_absent_of_isChain (hinj.mono hsub) hchain hit)
  | truncated =>
    refine .inr ⟨rfl, ?_⟩
    by_contra hroom
    rw [not_lt, le_min_iff] at hroom
    exact search_ne_truncated hroom.1 hroom.2 hs

/-! ### Two methods with one name -/

namespace Collision

/-- A body that calls the method. -/
def callingBody (b : MethodRef) : MethodBody := ⟨[], [⟨0, "call", some (.method b)⟩]⟩

/-- A namespace that is not the method's own. -/
def foreign (b : MethodRef) : String := b.declaringType.ns ++ "x"

/-- A body with a local variable whose type is in the foreign namespace. -/
def usingBody (b : MethodRef) : MethodBody := ⟨[⟨0, ⟨"System", foreign b, "File"⟩⟩], []⟩

/-- Two methods, of which the first calls the second, and that uses the foreign namespace. -/
def methods (a b : MethodRef) : List (MethodRef × MethodBody) :=
  [(a, callingBody b), (b, usingBody b)]

def loaded (a b : MethodRef) : AssemblySet :=
  (assembliesOf (methods a b)).foldl AssemblySet.insert .empty

/-- The foreign namespace is prohibited. -/
def prohibition (b : MethodRef) : Restriction :=
  ⟨.inNamespace (foreign b) false, "prohibited namespace", none, .prohibited, .error⟩

/-- A policy without boundaries. -/
def boundless : Policy := { Policy.empty with interfaces := [], exempt := [] }

/-- The walk from the first method. -/
def walk (a b : MethodRef) : Walk :=
  startingAt ((prohibition b).pattern (loaded a b)) boundless (loaded a b) a

lemma mem_operands_callingBody {o : MemberRef} : o ∈ (callingBody b).operands ↔ o = .method b := by
  simp [callingBody, MethodBody.operands]

lemma wellFormed_callingBody (hb : b.Declarable) : (callingBody b).WellFormed where
  locals := by simp [callingBody]
  operands := by
    intro o ho
    rw [mem_operands_callingBody.mp ho]
    exact hb.wellFormed

lemma wellFormed_usingBody (b : MethodRef) : (usingBody b).WellFormed where
  locals := by
    intro l hl
    have howned : allBlank "System" = false := by decide
    rw [List.mem_singleton.mp hl]
    exact ⟨howned, by simp⟩
  operands := by simp [usingBody, MethodBody.operands]

lemma declarations (ha : a.Declarable) (hb : b.Declarable) (hne : a ≠ b) :
    Declarations (methods a b) where
  declarable := by simp [methods, ha, hb]
  bodies := by simp [methods, wellFormed_callingBody hb, wellFormed_usingBody]
  distinct := by simp [methods, hne]

lemma methodBody?_first (h : Declarations (methods a b)) :
    (loaded a b).methodBody? a = some (callingBody b) :=
  h.methodBody?_eq_some (by simp [methods])

lemma methodBody?_second (h : Declarations (methods a b)) :
    (loaded a b).methodBody? b = some (usingBody b) :=
  h.methodBody?_eq_some (by simp [methods])

lemma foreign_ne : b.declaringType.ns ≠ foreign b := by
  intro h
  have := congrArg String.length h
  simp [foreign] at this

lemma calls_iff_eq (h : Declarations (methods a b)) : (walk a b).Calls a n ↔ n = b := by
  rw [calls_iff (w := walk a b) (methodBody?_first h), mem_operands_callingBody,
    MemberRef.method.injEq]
  constructor
  · exact And.left
  · intro hn
    exact ⟨hn, .inr ⟨rfl, rfl, rfl⟩⟩

lemma not_hit_first (h : Declarations (methods a b)) : ¬ (walk a b).Hit a := by
  rw [hit_iff (w := walk a b) (methodBody?_first h)]
  rintro (⟨l, hl, -⟩ | ⟨o, ho, -, hp⟩)
  · simp [callingBody] at hl
  · rw [mem_operands_callingBody.mp ho] at hp
    have hns : decide (b.declaringType.ns = foreign b) = true := hp
    exact foreign_ne (of_decide_eq_true hns)

lemma hit_second (h : Declarations (methods a b)) : (walk a b).Hit b := by
  refine ⟨usingBody b, methodBody?_second h, .inl ⟨_, List.mem_singleton_self _, ?_⟩⟩
  simp [walk, startingAt, Restriction.pattern, prohibition, Target.isInLocal, coversNamespace]

/-- A path that visits no full name twice never gets to the second method. -/
lemma search_ne_present (h : Declarations (methods a b)) (hname : a.fullName = b.fullName) :
    (walk a b).search a ≠ .present := by
  intro hs
  obtain ⟨path, hpath⟩ := exists_path_of_search_eq_present hs
  cases path with
  | nil =>
    obtain ⟨m, hm, hit⟩ := hpath.hit
    obtain rfl : a = m := Option.some.inj hm
    exact not_hit_first h hit
  | cons n path =>
    obtain ⟨hd, -⟩ := List.isChain_cons_cons.mp hpath.chain
    obtain rfl := (calls_iff_eq h).mp hd.1
    have := hpath.distinct
    simp [hname] at this

lemma eq_of_mem_callees (h : n ∈ (loaded a b).callees) : n = b := by
  obtain ⟨p, hp, hcall⟩ := exists_of_mem_callees h
  simp only [methods, List.mem_cons, List.not_mem_nil, or_false] at hp
  rcases hp with rfl | rfl
  · exact MemberRef.method.inj (mem_operands_callingBody.mp hcall)
  · simp [usingBody, MethodBody.operands] at hcall

lemma search_ne_truncated : (walk a b).search a ≠ .truncated := by
  have hsub : (walk a b).region a ⊆ {a, b} := by
    intro m hm
    exact (eq_or_mem_callees_of_mem_region hm).imp id eq_of_mem_callees
  have hcard : ((walk a b).region a).ncard ≤ 2 := by
    calc ((walk a b).region a).ncard ≤ ({a, b} : Set MethodRef).ncard :=
          Set.ncard_le_ncard hsub (Set.toFinite _)
      _ ≤ 2 := (Set.ncard_insert_le _ _).trans (by rw [Set.ncard_singleton])
  apply Walk.search_ne_truncated
  · show ((walk a b).region a).ncard ≤ 64
    omega
  · show ((walk a b).region a).ncard ≤ 10000
    omega

/-- The use in the second method passes. -/
lemma verify_eq_pass (h : Declarations (methods a b)) (hname : a.fullName = b.fullName) :
    (prohibition b).verify boundless (loaded a b) (.method a) = .pass := by
  rw [Restriction.verify_eq_judge rfl]
  cases hs : (prohibition b).presence boundless (loaded a b) (.method a) with
  | present => exact absurd hs (search_ne_present h hname)
  | absent => rfl
  | truncated => exact absurd hs search_ne_truncated

lemma isChain_calls (h : Declarations (methods a b)) : [a, b].IsChain (walk a b).Calls :=
  List.isChain_pair.mpr ((calls_iff_eq h).mpr rfl)

lemma not_exposes (h : Declarations (methods a b)) (hname : a.fullName = b.fullName) :
    ¬ Exposes (loaded a b) a := by
  intro hexposes
  have hor := hexposes boundless (prohibition b) [b] rfl rfl (isChain_calls h)
    ⟨b, rfl, hit_second h⟩
  rw [verify_eq_pass h hname] at hor
  rcases hor with hor | ⟨hor, -⟩
  · cases hor
  · cases hor

end Collision

/-- For methods of some class, verification exposes all uses in every set of accepted assemblies
exactly when full names tell apart the methods of the class that can be declared. -/
theorem exposes_iff_injOn (N : Set MethodRef) :
    (∀ models : List AssemblyModel, (∀ c ∈ models, c.accept = .ok c) →
      ∀ m, (models.foldl AssemblySet.insert .empty).named m ⊆ N →
        Exposes (models.foldl AssemblySet.insert .empty) m) ↔
    Set.InjOn MethodRef.fullName {m ∈ N | m.Declarable} := by
  constructor
  · rintro h a ⟨ha, hda⟩ b ⟨hb, hdb⟩ hname
    by_contra hne
    have hdecl := Collision.declarations hda hdb hne
    apply Collision.not_exposes hdecl hname
    apply h (assembliesOf (Collision.methods a b)) fun c => hdecl.accept_eq_ok
    rintro m (rfl | hm)
    · exact ha
    · exact Collision.eq_of_mem_callees hm ▸ hb
  · intro hinj models hmodels m hN
    refine exposes_of_injOn (hinj.mono ?_)
    rintro n ⟨hn, b, hb⟩
    obtain ⟨c, hc, hdecl⟩ := AssemblySet.exists_declares hb
    rcases AssemblySet.mem_assemblies_foldl_insert hc with hc | hc
    · exact ⟨hN hn, hdecl.declarable (AssemblyModel.accept_eq_ok_iff.mp (hmodels c hc)).2.2⟩
    · cases hc

namespace Collision

/-- A method without parameters. -/
def go : MethodRef := ⟨⟨"Mod", "", "Plugin"⟩, "Go", "()"⟩

/-- A method whose name ends in the other's signature. -/
def goParens : MethodRef := ⟨⟨"Mod", "", "Plugin"⟩, "Go()", ""⟩

/-- A snapshot that declares both, each record as an array of its fields. -/
def snapshot : String :=
  "[null,\"Mod\",[[\"\",\"Plugin\",null,[],[],[" ++
    "[\"Go\",\"()\",[[],[[0,\"call\",[\"method\",[\"Mod\",\"\",\"Plugin\"],\"Go()\",\"\"]]]]]," ++
    "[\"Go()\",\"\",[[[0,[\"System\",\"x\",\"File\"]]]]]]]]]"

def plugin : AssemblyModel :=
  ⟨none, "Mod", [⟨"", "Plugin", none, [], [],
    [⟨"Go", "()", some (callingBody goParens)⟩, ⟨"Go()", "", some (usingBody goParens)⟩]⟩]⟩

lemma ofSnapshot_snapshot : AssemblyModel.ofSnapshot snapshot = .ok plugin := by
  have hdecode : AssemblyModel.decode.ofText snapshot = .ok plugin := by cbv
  rw [AssemblyModel.ofSnapshot_eq_accept hdecode]
  rfl

lemma declarations_go : Declarations (methods go goParens) :=
  declarations ⟨by decide, by decide, by decide, by decide⟩
    ⟨by decide, by decide, by decide, by decide⟩ (by decide)

/-- The set with the assembly of the snapshot alone. -/
def accepted : AssemblySet := .insert .empty plugin

/-- The snapshot is accepted, and the prohibition passes for a method that calls one in which the
foreign namespace is used. -/
theorem verify_go_eq_pass :
    AssemblyModel.ofSnapshot snapshot = .ok plugin ∧
      (prohibition goParens).mode = .prohibited ∧
      (prohibition goParens).appliesTo accepted (.method go) = true ∧
      [go, goParens].IsChain
        (startingAt ((prohibition goParens).pattern accepted) boundless accepted go).Calls ∧
      (startingAt ((prohibition goParens).pattern accepted) boundless accepted go).Hit goParens ∧
      (prohibition goParens).verify boundless accepted (.method go) = .pass := by
  have hloaded : loaded go goParens = accepted := rfl
  have hchain := isChain_calls declarations_go
  have hit := hit_second declarations_go
  have hpass := verify_eq_pass declarations_go (by decide)
  rw [walk, hloaded] at hchain hit
  rw [hloaded] at hpass
  exact ⟨ofSnapshot_snapshot, rfl, rfl, hchain, hit, hpass⟩

end Collision

end AssemblyPolicy
