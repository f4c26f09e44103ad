import AssemblyPolicy.Proofs.Verification.Basic
import AssemblyPolicy.Proofs.Walk.Presence

/-!
# Higher limits

What becomes of the answer of a search when its limits are raised. A search that meets no limit goes
the same way under higher ones (`Walk.RaisedTo.search_eq`), and with more methods allowed a finding is
never lost (`Walk.search_withLimits_eq_present`). Greater depth can lose one: a method may then be
entered on a longer path first, so that its calls are refused (`Shortcut`).
-/

namespace AssemblyPolicy

/-- The policy with other limits. -/
def Policy.withLimits (policy : Policy) (l : WalkLimits) : Policy := { policy with limits := l }

namespace Walk

variable (w : Walk)

/-- The walk under other limits. -/
def withLimits (l : WalkLimits) : Walk := { w with policy := w.policy.withLimits l }

/-! ### Searches that meet a limit -/

/-- The states that a search from `root` goes through. -/
inductive Attains (root : MethodRef) : State → Prop where
  | start {s : State} (h : w.enter .initial root 0 = .next s) : Attains root s
  | turn {s s' : State} (h : Attains root s) (hstep : w.step s = some (.next s')) : Attains root s'

/-- A limit keeps a search from `root` from some method. -/
def MeetsLimit (root : MethodRef) : Prop := ∃ s, w.Attains root s ∧ s.truncated = true

variable {w} {l : WalkLimits} {s : State} {root m : MethodRef} {depth : Nat}

/-- The answer of a search can be read off any state that it goes through. -/
lemma Attains.search_eq (h : w.Attains root s) : w.search root = (w.run s).presence := by
  induction h with
  | start h => exact search_of_enter_eq_next h
  | turn _ hstep ih => rw [ih, run_of_step_eq_next hstep]

lemma presence_run_ne_absent (h : s.truncated = true) : (w.run s).presence ≠ .absent := by
  have hturn : ∀ s s' : State, s.truncated = true → w.Turn s s' → s'.truncated = true := by
    intro s s' h ht
    cases ht with
    | leave => exact h
    | pass _ => exact h
    | refuse _ _ _ _ => rfl
    | enter _ _ _ _ _ _ => exact h
  cases hrun : w.run s with
  | found => simp [Outcome.presence]
  | next s' =>
    have hs' := (of_run_eq_next hturn h hrun).1
    simp [Outcome.presence, hs']

lemma not_meetsLimit_of_search_eq_absent (h : w.search root = .absent) : ¬ w.MeetsLimit root := by
  rintro ⟨s, hs, ht⟩
  exact presence_run_ne_absent ht (hs.search_eq.symm.trans h)

/-! ### Steps under other limits -/

/-- The limits `l` allow at least as much as those of the walk. -/
structure RaisedTo (w : Walk) (l : WalkLimits) : Prop where
  depth : w.policy.limits.maxDepth ≤ l.maxDepth
  methods : w.policy.limits.maxMethods ≤ l.maxMethods

lemma exhausted_eq_false_iff : w.exhausted s depth = false ↔
    depth < w.policy.limits.maxDepth ∧ s.visited.length < w.policy.limits.maxMethods := by
  simp [exhausted]

lemma RaisedTo.exhausted_eq_false (hl : w.RaisedTo l) (h : w.exhausted s depth = false) :
    (w.withLimits l).exhausted s depth = false := by
  obtain ⟨hd, hm⟩ := exhausted_eq_false_iff.mp h
  exact exhausted_eq_false_iff.mpr ⟨hd.trans_le hl.depth, hm.trans_le hl.methods⟩

lemma enter_withLimits_of_exhausted_eq
    (h : (w.withLimits l).exhausted s depth = w.exhausted s depth) :
    (w.withLimits l).enter s m depth = w.enter s m depth := by
  unfold enter
  rw [h]
  rfl

/-- A method that is not refused is entered alike under higher limits. -/
lemma RaisedTo.enter_eq (hl : w.RaisedTo l)
    (h : ∀ s', w.enter s m depth = .next s' → s'.truncated = false) :
    (w.withLimits l).enter s m depth = w.enter s m depth := by
  have he := w.entry_enter s m depth
  generalize hout : w.enter s m depth = out at he h
  have hroom (hx : w.exhausted s depth = false) : (w.withLimits l).enter s m depth = out := by
    rw [← hout]
    exact enter_withLimits_of_exhausted_eq ((hl.exhausted_eq_false hx).trans hx.symm)
  cases he with
  | bodiless hb =>
    have hb' : (w.withLimits l).loaded.methodBody? m = none := hb
    simp only [enter, hb']
  | @known b hb hv =>
    have hb' : (w.withLimits l).loaded.methodBody? m = some b := hb
    simp only [enter, hb', if_pos hv]
  | refused _ _ _ => cases h _ rfl
  | found _ _ hd hm _ _ => exact hroom (exhausted_eq_false_iff.mpr ⟨hd, hm⟩)
  | opened _ _ hd hm _ => exact hroom (exhausted_eq_false_iff.mpr ⟨hd, hm⟩)

/-- Walks that differ in their limits take the same step where they enter methods alike. -/
lemma step_withLimits
    (h : ∀ s' n depth, s'.visited = s.visited → w.step s = some (w.enter s' n depth) →
      (w.withLimits l).enter s' n depth = w.enter s' n depth) :
    (w.withLimits l).step s = w.step s := by
  obtain ⟨stack, v, t⟩ := s
  match stack with
  | [] => rfl
  | ⟨[], d⟩ :: fs => rfl
  | ⟨o :: os, d⟩ :: fs =>
    have hreact : (w.withLimits l).react o = w.react o := rfl
    cases hr : w.react o with
    | found => simp only [step, hreact, hr]
    | skip => simp only [step, hreact, hr]
    | descend n =>
      have hstep : w.step ⟨⟨o :: os, d⟩ :: fs, v, t⟩ =
        some (w.enter ⟨⟨os, d⟩ :: fs, v, t⟩ n (d + 1)) := step_eq_enter hr
      rw [step_eq_enter (hreact.trans hr), hstep]
      exact congrArg some (h _ n (d + 1) rfl hstep)

/-- A step that refuses no method is the same under higher limits. -/
lemma RaisedTo.step_eq (hl : w.RaisedTo l)
    (h : ∀ s', w.step s = some (.next s') → s'.truncated = false) :
    (w.withLimits l).step s = w.step s := by
  apply step_withLimits
  intro s' n depth _ hstep
  exact hl.enter_eq fun s'' hs'' => h s'' (hstep.trans (congrArg some hs''))

/-! ### Searches that meet no limit -/

lemma RaisedTo.run_eq (hl : w.RaisedTo l) (h : ¬ w.MeetsLimit root) (hs : w.Attains root s) :
    (w.withLimits l).run s = w.run s := by
  have hfree : ∀ s', w.Attains root s' → s'.truncated = false := fun s' hs' =>
    Bool.eq_false_iff.mpr fun ht => h ⟨s', hs', ht⟩
  induction s using run.induct (w := w) with
  | case1 s hstep =>
    have hstep' := (hl.step_eq fun s' hs' => hfree s' (hs.turn hs')).trans hstep
    rw [run_of_step_eq_none hstep, run_of_step_eq_none hstep']
  | case2 s hstep =>
    have hstep' := (hl.step_eq fun s' hs' => hfree s' (hs.turn hs')).trans hstep
    rw [run_of_step_eq_found hstep, run_of_step_eq_found hstep']
  | case3 s s₁ hstep _ ih =>
    have hstep' := (hl.step_eq fun s' hs' => hfree s' (hs.turn hs')).trans hstep
    rw [run_of_step_eq_next hstep, run_of_step_eq_next hstep']
    exact ih (hs.turn hstep)

/-- A search that meets no limit goes the same way under higher ones. -/
theorem RaisedTo.search_eq (hl : w.RaisedTo l) (h : ¬ w.MeetsLimit root) :
    (w.withLimits l).search root = w.search root := by
  have henter : (w.withLimits l).enter .initial root 0 = w.enter .initial root 0 :=
    hl.enter_eq fun s hs => Bool.eq_false_iff.mpr fun ht => h ⟨s, .start hs, ht⟩
  cases hout : w.enter .initial root 0 with
  | found => rw [search_of_enter_eq_found hout, search_of_enter_eq_found (henter.trans hout)]
  | next s =>
    rw [search_of_enter_eq_next hout, search_of_enter_eq_next (henter.trans hout),
      hl.run_eq h (.start hout)]

/-! ### More methods at the same depth -/

/-- An operand ahead that is a finding is found, if nothing else is. -/
lemma run_eq_found_of_ahead {f : Frame} {o : MemberRef} (hf : f ∈ s.stack) (ho : o ∈ f.operands)
    (hr : w.react o = .found) : w.run s = .found := by
  have hturn : ∀ s s', w.Handled s o → w.Turn s s' → w.Handled s' o := fun _ _ h ht => h.turn ht
  cases hrun : w.run s with
  | found => rfl
  | next s' =>
    obtain ⟨hhandled, hstack⟩ := of_run_eq_next hturn (.inl ⟨f, hf, ho⟩) hrun
    rcases hhandled with ⟨f', hf', -⟩ | hsettled
    · simp [hstack] at hf'
    · exact absurd hr hsettled.1

/-- With all methods used up that are allowed, a walk only finds what is ahead of it. -/
lemma exists_ahead_of_run_eq_found (hfull : w.policy.limits.maxMethods ≤ s.visited.length)
    (h : w.run s = .found) : ∃ f ∈ s.stack, ∃ o ∈ f.operands, w.react o = .found := by
  by_contra hnone
  push Not at hnone
  have hturn : ∀ s s' : State, (w.policy.limits.maxMethods ≤ s.visited.length ∧
        ∀ f ∈ s.stack, ∀ o ∈ f.operands, w.react o ≠ .found) → w.Turn s s' →
      w.policy.limits.maxMethods ≤ s'.visited.length ∧
        ∀ f ∈ s'.stack, ∀ o ∈ f.operands, w.react o ≠ .found := by
    rintro s s' ⟨hfull, hnone⟩ ht
    cases ht with
    | leave => exact ⟨hfull, (List.forall_mem_cons.mp hnone).2⟩
    | pass _ =>
      obtain ⟨htop, hnone⟩ := List.forall_mem_cons.mp hnone
      exact ⟨hfull, List.forall_mem_cons.mpr ⟨(List.forall_mem_cons.mp htop).2, hnone⟩⟩
    | refuse _ _ _ _ =>
      obtain ⟨htop, hnone⟩ := List.forall_mem_cons.mp hnone
      exact ⟨hfull, List.forall_mem_cons.mpr ⟨(List.forall_mem_cons.mp htop).2, hnone⟩⟩
    | enter _ _ _ _ hm _ => exact absurd hfull (Nat.not_le.mpr hm)
  obtain ⟨s', ⟨hfull', hnone'⟩, hf⟩ := of_run_eq_found hturn ⟨hfull, hnone⟩ h
  cases hf with
  | operand hr => exact hnone' _ List.mem_cons_self _ List.mem_cons_self hr
  | localVar _ _ _ _ hm _ _ => exact absurd hfull' (Nat.not_le.mpr hm)

/-- While methods are left, a walk that may enter more of them at the same depth takes the same
step. -/
lemma step_withLimits_of_room (hd : l.maxDepth = w.policy.limits.maxDepth)
    (hn : w.policy.limits.maxMethods ≤ l.maxMethods)
    (hroom : s.visited.length < w.policy.limits.maxMethods) :
    (w.withLimits l).step s = w.step s := by
  apply step_withLimits
  intro s' n depth hv _
  apply enter_withLimits_of_exhausted_eq
  have hroom' : s.visited.length < l.maxMethods := hroom.trans_le hn
  simp [exhausted, withLimits, Policy.withLimits, hv, hd, Nat.not_le.mpr hroom,
    Nat.not_le.mpr hroom']

lemma run_withLimits_eq_found (hd : l.maxDepth = w.policy.limits.maxDepth)
    (hn : w.policy.limits.maxMethods ≤ l.maxMethods) (h : w.run s = .found) :
    (w.withLimits l).run s = .found := by
  -- Up to the turn at which the methods are used up both walks go the same way. What is found after
  -- it is ahead at that turn already, where no walk passes it over.
  have hfull : ∀ s, w.policy.limits.maxMethods ≤ s.visited.length → w.run s = .found →
      (w.withLimits l).run s = .found := by
    intro s hfull h
    obtain ⟨f, hf, o, ho, hr⟩ := exists_ahead_of_run_eq_found hfull h
    have hr' : (w.withLimits l).react o = .found := hr
    exact run_eq_found_of_ahead hf ho hr'
  induction s using run.induct (w := w) with
  | case1 s hstep =>
    rw [run_of_step_eq_none hstep] at h
    cases h
  | case2 s hstep =>
    by_cases hroom : s.visited.length < w.policy.limits.maxMethods
    · exact run_of_step_eq_found ((step_withLimits_of_room hd hn hroom).trans hstep)
    · exact hfull s (Nat.not_lt.mp hroom) h
  | case3 s s₁ hstep _ ih =>
    by_cases hroom : s.visited.length < w.policy.limits.maxMethods
    · rw [run_of_step_eq_next ((step_withLimits_of_room hd hn hroom).trans hstep)]
      exact ih (run_of_step_eq_next hstep ▸ h)
    · exact hfull s (Nat.not_lt.mp hroom) h

/-- What is found is found with more methods allowed, if the depth stays the same. -/
theorem search_withLimits_eq_present (hd : l.maxDepth = w.policy.limits.maxDepth)
    (hn : w.policy.limits.maxMethods ≤ l.maxMethods) (h : w.search root = .present) :
    (w.withLimits l).search root = .present := by
  obtain ⟨path, hpath⟩ := exists_path_of_search_eq_present h
  have hroom : 0 < w.policy.limits.maxMethods := Nat.zero_lt_of_lt hpath.methods
  have henter : (w.withLimits l).enter .initial root 0 = w.enter .initial root 0 := by
    apply enter_withLimits_of_exhausted_eq
    have hroom' : 0 < l.maxMethods := hroom.trans_le hn
    simp [exhausted, withLimits, Policy.withLimits, State.initial, hd, hroom.ne', hroom'.ne']
  cases hout : w.enter .initial root 0 with
  | found => exact search_of_enter_eq_found (henter.trans hout)
  | next s =>
    have hrun := run_eq_found_of_presence ((search_of_enter_eq_next hout).symm.trans h)
    rw [search_of_enter_eq_next (henter.trans hout), run_withLimits_eq_found hd hn hrun]
    rfl

end Walk

open Walk

/-- Under higher limits an absent pattern stays absent. One that is present stays so if only more
methods are allowed, or if the search for it met no limit; else the answer may be lost, but where full
names tell apart the methods that can be reached it is never reversed. -/
theorem presenceInCalls_withLimits (p : Pattern) (policy : Policy) (s : AssemblySet)
    (root : MethodRef) {d d' n n' : Nat} (hd : d ≤ d') (hn : n ≤ n') :
    (presenceInCalls p (policy.withLimits ⟨d, n⟩) s root = .absent →
      presenceInCalls p (policy.withLimits ⟨d', n'⟩) s root = .absent) ∧
    (presenceInCalls p (policy.withLimits ⟨d, n⟩) s root = .present →
      (d' = d ∨ ¬ (startingAt p (policy.withLimits ⟨d, n⟩) s root).MeetsLimit root →
        presenceInCalls p (policy.withLimits ⟨d', n'⟩) s root = .present) ∧
      (Set.InjOn MethodRef.fullName ((startingAt p policy s root).region root) →
        presenceInCalls p (policy.withLimits ⟨d', n'⟩) s root ≠ .absent)) := by
  simp only [presenceInCalls_eq_search]
  -- The second walk is the first one under the higher limits.
  have hraised : (startingAt p (policy.withLimits ⟨d, n⟩) s root).RaisedTo ⟨d', n'⟩ := ⟨hd, hn⟩
  refine ⟨fun h => ?_, fun h => ⟨?_, fun hinj => ?_⟩⟩
  · exact (hraised.search_eq (not_meetsLimit_of_search_eq_absent h)).trans h
  · rintro (rfl | hfree)
    · exact search_withLimits_eq_present (l := ⟨d', n'⟩) rfl hn h
    · exact (hraised.search_eq hfree).trans h
  · intro habsent
    obtain ⟨m, hm, hit⟩ := exists_hit_of_search_eq_present h
    -- No boundary depends on the limits, so that all three walks have one region.
    have hregion : Set.InjOn MethodRef.fullName
        ((startingAt p (policy.withLimits ⟨d', n'⟩) s root).region root) := hinj
    exact not_hit_of_search_eq_absent hregion habsent m hm hit

/-! ### A short path and a long one -/

namespace Shortcut

def owner : TypeRef := ⟨"Mod", "Mod", "Plugin"⟩

def method (name : String) : MethodRef := ⟨owner, name, "()"⟩

/-- A declared method that calls others. -/
def calling (name : String) (callees : List MethodRef) : MethodDef :=
  ⟨name, "()", some ⟨[], callees.map fun m => ⟨0, "call", some (.method m)⟩⟩⟩

/-- A declared method with a local of type `File`. -/
def writing (name : String) : MethodDef :=
  ⟨name, "()", some ⟨[⟨0, ⟨"mscorlib", "System.IO", "File"⟩⟩], []⟩⟩

def loaded (methods : List MethodDef) : AssemblySet :=
  AssemblySet.empty.insert ⟨none, "Mod", [⟨"Mod", "Plugin", none, [], [], methods⟩]⟩

/-- `Start` calls `Save` itself and by way of `Load` and `Parse`, and `Save` calls `Write`, which uses
a file. -/
def saving : AssemblySet :=
  loaded [calling "Start" [method "Load", method "Save"], calling "Load" [method "Parse"],
    calling "Parse" [method "Save"], calling "Save" [method "Write"], writing "Write"]

/-- `Start` calls `Save`, which uses a file, and by way of `Load` a method whose full name is the same
as that of `Save`. -/
def veiled : AssemblySet :=
  loaded [calling "Start" [method "Load", method "Save"], calling "Load" [⟨owner, "Save()", ""⟩],
    writing "Save", ⟨"Save()", "", some ⟨[], []⟩⟩]

def noFiles : Restriction := ⟨.type ⟨"System.IO", "File"⟩, "no files", none, .prohibited, .error⟩

lemma presenceInCalls_saving {l : WalkLimits} {q : Presence}
    (h : ((startingAt (noFiles.pattern saving) .empty saving (method "Start")).withLimits
      l).searchWithin 12 (method "Start") = some q) :
    presenceInCalls (noFiles.pattern saving) (Policy.empty.withLimits l) saving (method "Start") =
      q :=
  search_eq_of_searchWithin h

/-- One more level of depth loses the use of a file: by the long path `Save` is entered at the last
level, so that `Write` is refused, and on the short path it counts as searched. If its name is that of
another method, the use even seems absent. -/
theorem lost_at_greater_depth :
    presenceInCalls (noFiles.pattern saving) (Policy.empty.withLimits ⟨3, 10000⟩) saving
        (method "Start") = .present ∧
      presenceInCalls (noFiles.pattern saving) (Policy.empty.withLimits ⟨4, 10000⟩) saving
        (method "Start") = .truncated ∧
      noFiles.verify (Policy.empty.withLimits ⟨3, 10000⟩) saving (.method (method "Start")) =
        .violation "no files" ∧
      noFiles.verify (Policy.empty.withLimits ⟨4, 10000⟩) saving (.method (method "Start")) =
        .inconclusive ∧
      presenceInCalls (noFiles.pattern veiled) (Policy.empty.withLimits ⟨2, 10000⟩) veiled
        (method "Start") = .present ∧
      presenceInCalls (noFiles.pattern veiled) (Policy.empty.withLimits ⟨3, 10000⟩) veiled
        (method "Start") = .absent := by
  have hpresent := presenceInCalls_saving (l := ⟨3, 10000⟩) (q := .present) rfl
  have htruncated := presenceInCalls_saving (l := ⟨4, 10000⟩) (q := .truncated) rfl
  refine ⟨hpresent, htruncated, ?_, ?_, ?_, ?_⟩
  · exact (Restriction.verify_eq_judge rfl).trans (congrArg noFiles.judge hpresent)
  · exact (Restriction.verify_eq_judge rfl).trans (congrArg noFiles.judge htruncated)
  · exact search_eq_of_searchWithin (n := 12) rfl
  · exact search_eq_of_searchWithin (n := 12) rfl

lemma injOn_region : Set.InjOn MethodRef.fullName
    ((startingAt (noFiles.pattern saving) .empty saving (method "Start")).region
      (method "Start")) := by
  have hcallees : saving.callees =
    [method "Load", method "Save", method "Parse", method "Save", method "Write"] := rfl
  have hnodup : ((["Start", "Load", "Save", "Parse", "Write"].map method).map
    MethodRef.fullName).Nodup := by decide
  refine injOn_fullName_of_nodup (fun m hm => ?_) hnodup
  rcases eq_or_mem_callees_of_mem_region hm with rfl | hm
  · simp
  · have hm : m ∈ saving.callees := hm
    rw [hcallees] at hm
    simp only [List.map_cons, List.map_nil, List.mem_cons, List.not_mem_nil, or_false] at hm ⊢
    tauto

/-- With more methods allowed the use of a file is still found, and no depth makes it seem absent. -/
theorem kept_with_more_methods :
    3 ≤ 3 ∧ 10000 ≤ 20000 ∧
      presenceInCalls (noFiles.pattern saving) (Policy.empty.withLimits ⟨3, 10000⟩) saving
        (method "Start") = .present ∧
      presenceInCalls (noFiles.pattern saving) (Policy.empty.withLimits ⟨3, 20000⟩) saving
        (method "Start") = .present ∧
      ∀ d ≥ 3, presenceInCalls (noFiles.pattern saving) (Policy.empty.withLimits ⟨d, 10000⟩) saving
        (method "Start") ≠ .absent := by
  have hpresent := presenceInCalls_saving (l := ⟨3, 10000⟩) (q := .present) rfl
  refine ⟨by decide, by decide, hpresent, ?_, fun d hd => ?_⟩
  · have hkept := presenceInCalls_withLimits (noFiles.pattern saving) .empty saving
      (method "Start") (Nat.le_refl 3) (by decide : 10000 ≤ 20000)
    exact (hkept.2 hpresent).1 (.inl rfl)
  · have hkept := presenceInCalls_withLimits (noFiles.pattern saving) .empty saving
      (method "Start") hd (Nat.le_refl 10000)
    exact (hkept.2 hpresent).2 injOn_region

end Shortcut

end AssemblyPolicy
