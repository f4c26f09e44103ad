import AssemblyPolicy.Proofs.Metadata.Resolution
import AssemblyPolicy.Proofs.Walk.Progress

/-!
# What a search decides

A search that finds the pattern has a path of calls to it within the limits
(`exists_path_of_search_eq_present`). One that does not find it and hits no limit entered methods
without it that are closed under calls, as far as full names tell (`covered_of_search_eq_absent`).
Limits that leave room for every method of the region are never hit (`search_ne_truncated`), and no
limit keeps a search from what its root uses itself (`search_eq_present_of_hit`). A search of given
methods is evaluated by counting its steps (`search_eq_of_searchWithin`).
-/

namespace AssemblyPolicy.Walk

variable {w : Walk} {root m n : MethodRef} {s s' : State} {b : MethodBody}

/-! ### The region -/

lemma eq_or_mem_callees_of_mem_region (h : m ∈ w.region root) :
    m = root ∨ m ∈ w.loaded.callees := by
  obtain ⟨h, -⟩ := h
  cases h with
  | refl => exact .inl rfl
  | tail _ hd =>
    obtain ⟨⟨b, hb, hmem, -⟩, -⟩ := hd
    exact .inr (AssemblySet.mem_callees hb hmem)

lemma region_subset (w : Walk) (root : MethodRef) :
    w.region root ⊆ ((root :: w.loaded.callees).toFinset : Set MethodRef) := by
  intro m hm
  simpa using eq_or_mem_callees_of_mem_region hm

lemma region_finite (w : Walk) (root : MethodRef) : (w.region root).Finite :=
  (Finset.finite_toSet _).subset (w.region_subset root)

/-- The region has no more methods than the set names. -/
lemma ncard_region_le_length_callees (w : Walk) (root : MethodRef) :
    (w.region root).ncard ≤ w.loaded.callees.length + 1 := by
  have hle := Set.ncard_le_ncard (w.region_subset root) (Finset.finite_toSet _)
  rw [Set.ncard_coe_finset] at hle
  exact hle.trans (List.toFinset_card_le _)

/-- Methods of the region with distinct names are no more than the region holds. -/
lemma length_le_ncard_region {ms : List MethodRef} (hd : (ms.map MethodRef.fullName).Nodup)
    (h : ∀ m ∈ ms, m ∈ w.region root) : ms.length ≤ (w.region root).ncard := by
  rw [← List.toFinset_card_of_nodup (List.Nodup.of_map _ hd), ← Set.ncard_coe_finset]
  refine Set.ncard_le_ncard (fun m hm => ?_) (w.region_finite root)
  exact h m (by simpa using hm)

/-! ### The beginning of a search -/

/-- How a search begins: it ends where it starts, or goes on from a state in which only the root was
entered. -/
inductive Opening (w : Walk) (root : MethodRef) : Prop where
  | bodiless (hb : w.loaded.methodBody? root = none) (hs : w.search root = .absent)
  | refused {b : MethodBody} (hb : w.loaded.methodBody? root = some b)
      (hx : w.policy.limits.maxDepth = 0 ∨ w.policy.limits.maxMethods = 0)
      (hs : w.search root = .truncated)
  | found (hd : 0 < w.policy.limits.maxDepth) (hm : 0 < w.policy.limits.maxMethods)
      (hit : w.Hit root) (hs : w.search root = .present)
  | opened {s : State} (h : w.Progress root s [root] [root]) (ht : s.truncated = false)
      (hs : w.search root = (w.run s).presence)

lemma search_of_enter_eq_found (h : w.enter .initial root 0 = .found) :
    w.search root = .present := by
  rw [search, h]

lemma search_of_enter_eq_next (h : w.enter .initial root 0 = .next s) :
    w.search root = (w.run s).presence := by
  rw [search, h]

lemma opening (w : Walk) (root : MethodRef) : w.Opening root := by
  have hempty : ∀ t, w.run ⟨[], [], t⟩ = .next ⟨[], [], t⟩ := fun t => run_of_step_eq_none rfl
  have he := w.entry_enter .initial root 0
  generalize hout : w.enter .initial root 0 = out at he
  cases he with
  | bodiless hb =>
    have hs := search_of_enter_eq_next hout
    rw [State.initial, hempty] at hs
    exact .bodiless hb hs
  | known hb hv => cases hv
  | refused hb hv hx =>
    have hs := search_of_enter_eq_next hout
    rw [State.initial, hempty] at hs
    exact .refused hb (hx.imp Nat.le_zero.mp Nat.le_zero.mp) hs
  | found hb hv hd hm hl hp =>
    exact .found hd hm ⟨_, hb, .inl ⟨_, hl, hp⟩⟩ (search_of_enter_eq_found hout)
  | opened hb hv hd hm hl =>
    refine .opened ?_ rfl (search_of_enter_eq_next hout)
    exact (progress_initial w root).enter .nil hb hv hd hm hl (.singleton root) (by simp) rfl
      (by simp)

/-- What holds along a search: the invariant, for a root that was entered. -/
def Underway (w : Walk) (root : MethodRef) (s : State) : Prop :=
  ∃ entered trail, w.Progress root s entered trail ∧ root ∈ entered

lemma Underway.turn (s s' : State) (h : w.Underway root s) (ht : w.Turn s s') :
    w.Underway root s' := by
  obtain ⟨entered, trail, h, hroot⟩ := h
  obtain ⟨entered', trail', h', hsub⟩ := h.turn ht
  exact ⟨entered', trail', h', hsub hroot⟩

lemma Progress.underway (h : w.Progress root s [root] [root]) : w.Underway root s :=
  ⟨[root], [root], h, List.mem_singleton_self root⟩

lemma run_eq_found_of_presence (h : (w.run s).presence = .present) : w.run s = .found := by
  cases hr : w.run s with
  | found => rfl
  | next s' =>
    rw [hr] at h
    simp only [Outcome.presence] at h
    split at h <;> cases h

/-! ### Paths to a finding -/

/-- A path of calls from `root` that ends in a method with the pattern, within the limits. -/
structure Justifies (w : Walk) (root : MethodRef) (path : List MethodRef) : Prop where
  chain : (root :: path).IsChain w.Descends
  distinct : ((root :: path).map MethodRef.fullName).Nodup
  depth : path.length < w.policy.limits.maxDepth
  methods : path.length + 1 ≤ w.policy.limits.maxMethods
  hit : ∃ m ∈ (root :: path).getLast?, w.Hit m

/-- A trail whose latest method has the pattern, read from its start. -/
lemma justifies_of_trail {ms : List MethodRef}
    (hchain : (m :: ms).IsChain fun n m => w.Descends m n)
    (hstart : ∀ x ∈ (m :: ms).getLast?, x = root)
    (hdistinct : ((m :: ms).map MethodRef.fullName).Nodup)
    (hd : (m :: ms).length ≤ w.policy.limits.maxDepth)
    (hm : (m :: ms).length ≤ w.policy.limits.maxMethods) (hit : w.Hit m) :
    ∃ path, w.Justifies root path := by
  obtain ⟨path, hpath⟩ : ∃ path, (m :: ms).reverse = root :: path := by
    cases hr : (m :: ms).reverse with
    | nil => simp at hr
    | cons x path =>
      have hx : (m :: ms).getLast? = some x := by
        rw [← List.head?_reverse, hr, List.head?_cons]
      exact ⟨path, by rw [hstart x hx]⟩
  have hlength := congrArg List.length hpath
  simp only [List.length_reverse, List.length_cons] at hlength hd hm
  refine ⟨path, ?_, ?_, by omega, by omega, m, ?_, hit⟩
  · rw [← hpath, List.isChain_reverse]
    exact hchain
  · rw [← hpath, List.map_reverse, List.nodup_reverse]
    exact hdistinct
  · rw [← hpath, List.getLast?_reverse]
    rfl

/-- A step that finds the pattern finds it at the end of a path from `root`. -/
lemma Progress.justifies {entered trail : List MethodRef} (h : w.Progress root s entered trail)
    (hf : w.Finding s) : ∃ path, w.Justifies root path := by
  have hdistinct : (trail.map MethodRef.fullName).Nodup := (h.sublist.map _).nodup h.distinct
  have hlength : trail.length ≤ w.policy.limits.maxMethods := h.sublist.length_le.trans h.within
  cases hf with
  | operand hr =>
    obtain ⟨m, ms, b, rfl, hb, hmem⟩ := h.stacked.exists_operand
    obtain ⟨hc, hp⟩ := (w.react_eq_found_iff _).mp hr
    exact justifies_of_trail h.chain h.start hdistinct h.stacked.length_le hlength
      ⟨b, hb, .inr ⟨_, hmem, hc, hp⟩⟩
  | @localVar n b l os d fs v t hr hb hv hd hm hl hp =>
    obtain ⟨hchain, hstart⟩ := h.extend hr
    have hnew : n.fullName ∉ entered.map MethodRef.fullName := h.visited ▸ hv
    have hdepth : trail.length = d + 1 := by
      rw [h.stacked.length_eq, h.stacked.depth_eq, List.length_cons]
    refine justifies_of_trail hchain hstart ?_ ?_ ?_ ⟨b, hb, .inl ⟨l, hl, hp⟩⟩
    · rw [List.map_cons, List.nodup_cons]
      exact ⟨fun hmem => hnew ((h.sublist.map _).subset hmem), hdistinct⟩
    · rw [List.length_cons, hdepth]
      exact hd
    · have hvisited := congrArg List.length h.visited
      have hle := h.sublist.length_le
      simp only [List.length_map] at hvisited
      simp only [List.length_cons]
      omega

/-- A search that finds the pattern has a path to it. -/
theorem exists_path_of_search_eq_present (h : w.search root = .present) :
    ∃ path, w.Justifies root path := by
  cases w.opening root with
  | bodiless _ hs => rw [hs] at h; cases h
  | refused _ _ hs => rw [hs] at h; cases h
  | found hd hm hit _ => exact ⟨[], .singleton root, by simp, hd, hm, root, rfl, hit⟩
  | opened hp _ hs =>
    obtain ⟨s', ⟨entered, trail, h', -⟩, hf⟩ :=
      of_run_eq_found Underway.turn hp.underway (run_eq_found_of_presence (hs ▸ h))
    exact h'.justifies hf

/-! ### What a search without a finding leaves out -/

lemma truncated_eq_of_run {t : Bool} {p : Presence} (h : (w.run s).presence = p)
    (hp : p = if t then .truncated else .absent) :
    ∃ s', w.run s = .next s' ∧ s'.truncated = t := by
  cases hr : w.run s with
  | found =>
    rw [hr, hp] at h
    cases t <;> cases h
  | next s' =>
    refine ⟨s', rfl, ?_⟩
    rw [hr, hp] at h
    cases t <;> cases ht : s'.truncated <;> simp [Outcome.presence, ht] at h ⊢

/-- A search that finds nothing and hits no limit entered methods without the pattern, and from
these calls lead to no other full names. -/
theorem covered_of_search_eq_absent (h : w.search root = .absent) :
    ∃ entered : List MethodRef, (∀ b, w.loaded.methodBody? root = some b → root ∈ entered) ∧
      ∀ m ∈ entered, m ∈ w.region root ∧ ¬ w.Hit m ∧
        ∀ n b, w.Descends m n → w.loaded.methodBody? n = some b →
          ∃ n' ∈ entered, n'.fullName = n.fullName := by
  cases w.opening root with
  | bodiless hb _ => exact ⟨[], by simp [hb], by simp⟩
  | refused _ _ hs => rw [hs] at h; cases h
  | found _ _ _ hs => rw [hs] at h; cases h
  | opened hp _ hs =>
    obtain ⟨s', hrun, ht⟩ := truncated_eq_of_run (t := false) (hs ▸ h) rfl
    obtain ⟨⟨entered, trail, h', hroot⟩, hstack⟩ :=
      of_run_eq_next Underway.turn hp.underway hrun
    refine ⟨entered, fun _ _ => hroot, fun m hm => ⟨h'.reached m hm, ?_, ?_⟩⟩
    · exact (h'.searched m hm).not_hit hstack
    · intro n b hd hb
      have hn := (h'.searched m hm).visited_of_descends hstack ht hd hb
      rw [h'.visited] at hn
      exact List.mem_map.mp hn

/-- Where full names tell the methods of the region apart, a search that finds nothing and hits no
limit leaves none of them out. -/
theorem not_hit_of_search_eq_absent (hinj : Set.InjOn MethodRef.fullName (w.region root))
    (h : w.search root = .absent) : ∀ m ∈ w.region root, ¬ w.Hit m := by
  obtain ⟨entered, hroot, hentered⟩ := covered_of_search_eq_absent h
  -- The method that was entered in place of `n` is `n` itself, since they share a full name.
  have hall : ∀ m, Relation.ReflTransGen w.Descends root m →
      ∀ b, w.loaded.methodBody? m = some b → m ∈ entered := by
    intro m hm
    induction hm with
    | refl => exact hroot
    | @tail m n hm hd ih =>
      intro b hb
      obtain ⟨b', hb', -⟩ := id hd.1
      obtain ⟨n', hn', hname⟩ := (hentered m (ih b' hb')).2.2 n b hd hb
      exact hinj (hentered n' hn').1 ⟨hm.tail hd, b, hb⟩ hname ▸ hn'
  rintro m ⟨hm, b, hb⟩
  exact (hentered m (hall m hm b hb)).2.1

/-- What the root uses itself is found, whatever the limits do to the methods it calls. -/
theorem search_eq_present_of_hit (hd : 0 < w.policy.limits.maxDepth)
    (hm : 0 < w.policy.limits.maxMethods) (h : w.Hit root) : w.search root = .present := by
  cases w.opening root with
  | bodiless hb _ => obtain ⟨b, hb', -⟩ := h; simp [hb] at hb'
  | refused _ hx _ => omega
  | found _ _ _ hs => exact hs
  | opened hp _ hs =>
    rw [hs]
    cases hrun : w.run _ with
    | found => rfl
    | next s' =>
      obtain ⟨⟨entered, trail, h', hroot⟩, hstack⟩ :=
        of_run_eq_next Underway.turn hp.underway hrun
      exact absurd h ((h'.searched root hroot).not_hit hstack)

/-! ### Limits that are never hit -/

/-- With room for all methods of the region no turn hits a limit. -/
lemma Progress.not_truncated_of_turn {entered trail : List MethodRef}
    (hdepth : (w.region root).ncard ≤ w.policy.limits.maxDepth)
    (hmethods : (w.region root).ncard ≤ w.policy.limits.maxMethods)
    (h : w.Progress root s entered trail) (hs : s.truncated = false) (ht : w.Turn s s') :
    s'.truncated = false := by
  cases ht with
  | leave => exact hs
  | pass _ => exact hs
  | enter _ _ _ _ _ _ => exact hs
  | @refuse n b os d fs v t hr hb hv hx =>
    -- The refused method is one more of the region than were entered, or than are on the trail.
    obtain ⟨hchain, hstart⟩ := h.extend hr
    have hn : n ∈ w.region root := h.mem_region hb hchain hstart
    have hvisited : v = entered.map MethodRef.fullName := h.visited
    have hnew : n.fullName ∉ entered.map MethodRef.fullName := hvisited ▸ hv
    have hcard : (n :: entered).length ≤ (w.region root).ncard := by
      refine length_le_ncard_region ?_ (List.forall_mem_cons.mpr ⟨hn, h.reached⟩)
      exact List.nodup_cons.mpr ⟨hnew, h.distinct⟩
    have htrail : trail.length = d + 1 := by
      rw [h.stacked.length_eq, h.stacked.depth_eq, List.length_cons]
    have hle := h.sublist.length_le
    rw [List.length_cons] at hcard
    rw [hvisited, List.length_map] at hx
    omega

/-- With room for all methods of the region a search is decided. -/
theorem search_ne_truncated (hdepth : (w.region root).ncard ≤ w.policy.limits.maxDepth)
    (hmethods : (w.region root).ncard ≤ w.policy.limits.maxMethods) :
    w.search root ≠ .truncated := by
  intro h
  cases w.opening root with
  | bodiless _ hs => rw [hs] at h; cases h
  | refused hb hx _ =>
    have : [root].length ≤ (w.region root).ncard :=
      length_le_ncard_region (by simp) (by simpa using mem_region_self hb)
    rw [List.length_singleton] at this
    omega
  | found _ _ _ hs => rw [hs] at h; cases h
  | opened hp ht hs =>
    obtain ⟨s', hrun, htrunc⟩ := truncated_eq_of_run (t := true) (hs ▸ h) rfl
    have hturn : ∀ s s', w.Underway root s ∧ s.truncated = false → w.Turn s s' →
        w.Underway root s' ∧ s'.truncated = false := by
      rintro s s' ⟨hu, hs⟩ ht
      refine ⟨hu.turn s s' ht, ?_⟩
      obtain ⟨entered, trail, h, -⟩ := hu
      exact h.not_truncated_of_turn hdepth hmethods hs ht
    obtain ⟨⟨-, hfalse⟩, -⟩ := of_run_eq_next hturn ⟨hp.underway, ht⟩ hrun
    rw [hfalse] at htrunc
    cases htrunc

/-! ### Searches that end within some steps -/

/-- The outcome of a run, if it ends within `n` steps. -/
def runWithin (w : Walk) : Nat → State → Option Outcome
  | 0, _ => none
  | n + 1, s =>
    match w.step s with
    | none => some (.next s)
    | some .found => some .found
    | some (.next s') => runWithin w n s'

/-- The answer of a search, if it ends within `n` steps. -/
def searchWithin (w : Walk) (n : Nat) (root : MethodRef) : Option Presence :=
  match w.enter .initial root 0 with
  | .found => some .present
  | .next s => (w.runWithin n s).map Outcome.presence

lemma run_eq_of_runWithin {n : Nat} {out : Outcome} (h : w.runWithin n s = some out) :
    w.run s = out := by
  induction n generalizing s with
  | zero => cases h
  | succ n ih =>
    simp only [runWithin] at h
    cases hstep : w.step s with
    | none => rw [run_of_step_eq_none hstep]; simpa [hstep] using h
    | some next =>
      cases next with
      | found => rw [run_of_step_eq_found hstep]; simpa [hstep] using h
      | next s' =>
        rw [run_of_step_eq_next hstep]
        exact ih (by simpa [hstep] using h)

lemma search_eq_of_searchWithin {n : Nat} {p : Presence} (h : w.searchWithin n root = some p) :
    w.search root = p := by
  simp only [searchWithin] at h
  cases hout : w.enter .initial root 0 with
  | found => rw [search_of_enter_eq_found hout]; simpa [hout] using h
  | next s =>
    obtain ⟨out, hrun, hp⟩ := Option.map_eq_some_iff.mp (by simpa [hout] using h)
    rw [search_of_enter_eq_next hout, run_eq_of_runWithin hrun, hp]

end AssemblyPolicy.Walk
