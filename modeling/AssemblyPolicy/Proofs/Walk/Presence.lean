import AssemblyPolicy.Proofs.Walk.Search

/-!
# Presence in calls

`presenceInCalls` against the declarative calls: a pattern that is found is justified by a path
within the limits, and where full names tell methods apart the answer is that of the region.
-/

namespace AssemblyPolicy

open Walk

section

variable {p : Pattern} {policy : Policy} {s : AssemblySet} {root : MethodRef}

/-- What a method uses itself is found with any limits that let it be entered. -/
lemma presenceInCalls_eq_present_of_hit (hdepth : 0 < policy.limits.maxDepth)
    (hmethods : 0 < policy.limits.maxMethods) (h : (startingAt p policy s root).Hit root) :
    presenceInCalls p policy s root = .present := by
  rw [presenceInCalls_eq_search]
  exact search_eq_present_of_hit hdepth hmethods h

end

variable (p : Pattern) (policy : Policy) (s : AssemblySet) (root : MethodRef)

/-! ### What is present -/

/-- A pattern that is found has a path of calls to it, within the limits and without repetitions. No
method on it is one that the pattern matches or that a boundary keeps the walk from. -/
theorem justified_of_presenceInCalls (h : presenceInCalls p policy s root = .present) :
    ∃ path : List MethodRef,
      (root :: path).IsChain (startingAt p policy s root).Descends ∧
      ((root :: path).map MethodRef.fullName).Nodup ∧
      path.length < policy.limits.maxDepth ∧ path.length + 1 ≤ policy.limits.maxMethods ∧
      ∃ m ∈ (root :: path).getLast?, (startingAt p policy s root).Hit m := by
  rw [presenceInCalls_eq_search] at h
  obtain ⟨path, hpath⟩ := exists_path_of_search_eq_present h
  exact ⟨path, hpath.chain, hpath.distinct, hpath.depth, hpath.methods, hpath.hit⟩

namespace Walk

variable {w : Walk} {root m n : MethodRef} {path : List MethodRef}

/-- A path of calls ends in the region, when the method at its end has a body. -/
lemma mem_region_of_isChain {b : MethodBody} (hchain : (root :: path).IsChain w.Descends)
    (hlast : m ∈ (root :: path).getLast?) (hb : w.loaded.methodBody? m = some b) :
    m ∈ w.region root := by
  refine ⟨List.relationReflTransGen_of_exists_isChain_cons path hchain ?_, b, hb⟩
  rw [Option.mem_def, List.getLast?_eq_some_getLast (List.cons_ne_nil root path)] at hlast
  exact Option.some.inj hlast

lemma exists_hit_of_search_eq_present (h : w.search root = .present) :
    ∃ m ∈ w.region root, w.Hit m := by
  obtain ⟨path, hpath⟩ := exists_path_of_search_eq_present h
  obtain ⟨m, hlast, hit⟩ := hpath.hit
  obtain ⟨b, hb, -⟩ := id hit
  exact ⟨m, mem_region_of_isChain hpath.chain hlast hb, hit⟩

/-- Where full names tell the methods of the region apart, a search does not pass over a use that a
path of calls leads to, even one that goes on where the walk has found the pattern. -/
lemma search_ne_absent_of_isChain (hinj : Set.InjOn MethodRef.fullName (w.region root))
    (hchain : (root :: path).IsChain w.Calls) (hit : ∃ m ∈ (root :: path).getLast?, w.Hit m) :
    w.search root ≠ .absent := by
  intro habsent
  obtain ⟨b, hb⟩ := exists_body_of_isChain hchain hit
  obtain ⟨m, hm, hit⟩ := exists_hit_of_isChain (mem_region_self hb) hchain hit
  exact not_hit_of_search_eq_absent hinj habsent m hm hit

/-- With room for the region, and names that tell its methods apart, a search finds the pattern
exactly when a method of the region has it. -/
lemma search_eq_present_iff (hinj : Set.InjOn MethodRef.fullName (w.region root))
    (hdepth : (w.region root).ncard ≤ w.policy.limits.maxDepth)
    (hmethods : (w.region root).ncard ≤ w.policy.limits.maxMethods) :
    w.search root = .present ↔ ∃ m ∈ w.region root, w.Hit m := by
  refine ⟨exists_hit_of_search_eq_present, ?_⟩
  rintro ⟨m, hm, hit⟩
  cases hs : w.search root with
  | present => rfl
  | absent => exact absurd hit (not_hit_of_search_eq_absent hinj hs m hm)
  | truncated => exact absurd hs (search_ne_truncated hdepth hmethods)

end Walk

/-! ### Faithful names -/

/-- The root of a walk and the methods that the bodies of a set refer to. -/
def AssemblySet.named : Set MethodRef := {m | m = root ∨ m ∈ s.callees}

/-- Full names tell apart what is listed under different ones. -/
lemma injOn_fullName_of_nodup {N : Set MethodRef} {ms : List MethodRef} (h : ∀ m ∈ N, m ∈ ms)
    (hms : (ms.map MethodRef.fullName).Nodup) : Set.InjOn MethodRef.fullName N :=
  fun m hm n hn => List.inj_on_of_nodup_map hms (h m hm) (h n hn)

/-- Where full names are faithful, a search answers for the region: what it finds nowhere is nowhere,
and with room for the region it is never cut short and finds what is there. -/
theorem presenceInCalls_decides (hinj : Set.InjOn MethodRef.fullName (s.named root)) :
    ((startingAt p policy s root).region root).Finite ∧
    (presenceInCalls p policy s root = .absent →
      ∀ m ∈ (startingAt p policy s root).region root, ¬ (startingAt p policy s root).Hit m) ∧
    (((startingAt p policy s root).region root).ncard ≤ policy.limits.maxDepth →
      ((startingAt p policy s root).region root).ncard ≤ policy.limits.maxMethods →
      presenceInCalls p policy s root ≠ .truncated ∧
        (presenceInCalls p policy s root = .present ↔
          ∃ m ∈ (startingAt p policy s root).region root,
            (startingAt p policy s root).Hit m)) := by
  rw [presenceInCalls_eq_search]
  have hregion : Set.InjOn MethodRef.fullName ((startingAt p policy s root).region root) :=
    hinj.mono fun m hm => eq_or_mem_callees_of_mem_region hm
  refine ⟨region_finite _ _, not_hit_of_search_eq_absent hregion, fun hdepth hmethods => ?_⟩
  exact ⟨search_ne_truncated hdepth hmethods, search_eq_present_iff hregion hdepth hmethods⟩

/-! ### Two methods that call each other -/

namespace PingPong

def owner : TypeRef := ⟨"Mod", "Mod", "Plugin"⟩

def ping : MethodRef := ⟨owner, "Ping", "()"⟩

def pong : MethodRef := ⟨owner, "Pong", "()"⟩

/-- Both methods call the other one, and the second has a local of type `File`. -/
def loaded : AssemblySet :=
  AssemblySet.empty.insert ⟨none, "Mod", [⟨"Mod", "Plugin", none, [], [],
    [⟨"Ping", "()", some ⟨[], [⟨0, "call", some (.method pong)⟩]⟩⟩,
      ⟨"Pong", "()", some ⟨[⟨0, ⟨"mscorlib", "System.IO", "File"⟩⟩],
        [⟨0, "call", some (.method ping)⟩]⟩⟩]⟩]⟩

def file : Pattern := ⟨fun _ => false, fun t => t.name = "File"⟩

lemma presenceInCalls_eq_present : presenceInCalls file .empty loaded ping = .present :=
  search_eq_of_searchWithin (n := 1) rfl

/-- The path to the local leads from the first method to the second. -/
theorem justified_ping : ∃ path : List MethodRef,
      (ping :: path).IsChain (startingAt file .empty loaded ping).Descends ∧
      ((ping :: path).map MethodRef.fullName).Nodup ∧
      path.length < 64 ∧ path.length + 1 ≤ 10000 ∧
      ∃ m ∈ (ping :: path).getLast?, (startingAt file .empty loaded ping).Hit m :=
  justified_of_presenceInCalls file .empty loaded ping presenceInCalls_eq_present

lemma injOn_named : Set.InjOn MethodRef.fullName (loaded.named ping) := by
  have hcallees : loaded.callees = [pong, ping] := rfl
  refine injOn_fullName_of_nodup ?_ (by decide : ([pong, ping].map MethodRef.fullName).Nodup)
  rintro m (rfl | hm)
  · simp
  · exact hcallees ▸ hm

/-- One of the two methods has the local. -/
theorem decided_ping : Set.InjOn MethodRef.fullName (loaded.named ping) ∧
    ∃ m ∈ (startingAt file .empty loaded ping).region ping,
      (startingAt file .empty loaded ping).Hit m := by
  have hcard : ((startingAt file .empty loaded ping).region ping).ncard ≤ 3 :=
    ncard_region_le_length_callees _ _
  have hdecides := presenceInCalls_decides file .empty loaded ping injOn_named
  have hroom := hdecides.2.2 (hcard.trans (by decide)) (hcard.trans (by decide))
  exact ⟨injOn_named, hroom.2.mp presenceInCalls_eq_present⟩

end PingPong

end AssemblyPolicy
