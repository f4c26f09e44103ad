import AssemblyPolicy.Proofs.Walk.Search

/-!
# What a walk looks at

A `Walk.History` records which methods a walk enters and which operands it looks at. `Walk.after` is
the walk after some turns of its loop, with that record. `Walk.search_bounded` says that the loop ends
and what holds at every moment before: no identity is entered twice, no operand is looked at twice,
and stack and record stay within the limits.
-/

namespace AssemblyPolicy.Walk

/-- What a walk has looked at so far. -/
structure History where
  /-- The methods whose locals and operands were to be looked at, the latest first. -/
  entered : List MethodRef
  /-- The methods whose frames are on the stack, from the top. -/
  trail : List MethodRef
  /-- The operands that were looked at, each with the method it stands in, in order. -/
  taken : List (MethodRef × MemberRef)

namespace History

def empty : History := ⟨[], [], []⟩

def enter (h : History) (m : MethodRef) : History :=
  { h with entered := m :: h.entered, trail := m :: h.trail }

/-- Leave the method on top of the stack. -/
def leave (h : History) : History := { h with trail := h.trail.tail }

/-- Look at an operand of the method on top of the stack. -/
def take (h : History) (o : MemberRef) : History :=
  { h with taken := h.taken ++ h.trail.head?.toList.map (·, o) }

/-- The operands that were looked at in a method, in order. -/
def takenFrom (h : History) (m : MethodRef) : List MemberRef :=
  (h.taken.filter (·.1 = m)).map (·.2)

end History

/-! ### Recording a walk -/

variable (w : Walk)

/-- Is a method entered at some depth, so that its locals are searched? -/
def opens (s : State) (m : MethodRef) (depth : Nat) : Bool :=
  (w.loaded.methodBody? m).isSome && decide (m.fullName ∉ s.visited) && !w.exhausted s depth

def recordEntry (s : State) (m : MethodRef) (depth : Nat) (h : History) : History :=
  if w.opens s m depth then h.enter m else h

/-- The record after a step from a state. -/
def recordStep (s : State) (h : History) : History :=
  match s.stack with
  | [] => h
  | ⟨[], _⟩ :: _ => h.leave
  | ⟨o :: operands, depth⟩ :: stack =>
    match w.react o with
    | .descend n =>
      w.recordEntry { s with stack := ⟨operands, depth⟩ :: stack } n (depth + 1) (h.take o)
    | _ => h.take o

/-- A walk at some moment, with its record. -/
structure Moment where
  outcome : Outcome
  history : History

/-- A turn of the loop. When the loop has ended nothing changes. -/
def Moment.turn (p : Moment) : Moment :=
  match p.outcome with
  | .found => p
  | .next s =>
    match w.step s with
    | none => p
    | some out => ⟨out, w.recordStep s p.history⟩

/-- The search from `root` after some turns of its loop. -/
def after (root : MethodRef) : Nat → Moment
  | 0 => ⟨w.enter .initial root 0, w.recordEntry .initial root 0 .empty⟩
  | n + 1 => (after root n).turn w

/-- The loop has ended: the pattern was found, or nothing is left on the stack. -/
def Outcome.Ended : Outcome → Prop
  | .found => True
  | .next s => s.stack = []

variable {w} {s s' : State} {h : History} {root m n : MethodRef} {o : MemberRef} {b : MethodBody}
  {os : List MemberRef} {d : Nat} {fs : List Frame} {v : List String} {t : Bool}

/-! ### The record of a step -/

lemma opens_eq_true_iff : w.opens s m d = true ↔ (∃ b, w.loaded.methodBody? m = some b) ∧
    m.fullName ∉ s.visited ∧ d < w.policy.limits.maxDepth ∧
      s.visited.length < w.policy.limits.maxMethods := by
  simp [opens, exhausted, Option.isSome_iff_exists, and_assoc]

/-- A method that is not entered leaves the record as it is. -/
lemma recordEntry_of_not (hopens : ¬ w.opens s m d = true) : w.recordEntry s m d h = h :=
  if_neg hopens

lemma recordEntry_of_opens (hopens : w.opens s m d = true) :
    w.recordEntry s m d h = h.enter m := if_pos hopens

lemma recordStep_of_descend (hr : w.react o = .descend n) :
    w.recordStep ⟨⟨o :: os, d⟩ :: fs, v, t⟩ h =
      w.recordEntry ⟨⟨os, d⟩ :: fs, v, t⟩ n (d + 1) (h.take o) := by
  simp [recordStep, hr]

lemma takenFrom_take_head {ms : List MethodRef} (htrail : h.trail = m :: ms) :
    (h.take o).takenFrom m = h.takenFrom m ++ [o] := by
  simp [History.take, History.takenFrom, htrail]

lemma takenFrom_take_of_ne {ms : List MethodRef} (htrail : h.trail = n :: ms) (hne : n ≠ m) :
    (h.take o).takenFrom m = h.takenFrom m := by
  simp [History.take, History.takenFrom, htrail, hne]

/-! ### The record and the stack -/

variable (w)

/-- The operands of a method, none if it has no body. -/
def operandsOf (m : MethodRef) : List MemberRef :=
  ((w.loaded.methodBody? m).map MethodBody.operands).getD []

/-- Operands were looked at in the order in which they stand, in methods that were entered. -/
structure Orderly (h : History) : Prop where
  entered : ∀ x ∈ h.taken, x.1 ∈ h.entered
  inOrder : ∀ m, h.takenFrom m <+: w.operandsOf m

/-- What was looked at in some methods, and what is left of them in the frames of a stack. -/
def Split (h : History) (ms : List MethodRef) (stack : List Frame) : Prop :=
  List.Forall₂ (fun m f => h.takenFrom m ++ f.operands = w.operandsOf m) ms stack

variable {w} {ms : List MethodRef}

lemma operandsOf_eq (hb : w.loaded.methodBody? m = some b) : w.operandsOf m = b.operands := by
  simp [operandsOf, hb]

lemma Split.congr {h' : History} (hsplit : w.Split h ms fs)
    (heq : ∀ m ∈ ms, h'.takenFrom m = h.takenFrom m) : w.Split h' ms fs := by
  induction hsplit with
  | nil => exact .nil
  | cons hm _ ih =>
    obtain ⟨hhead, htail⟩ := List.forall_mem_cons.mp heq
    exact .cons (hhead ▸ hm) (ih htail)

/-- In a method that was not entered nothing was looked at. -/
lemma Orderly.takenFrom_eq_nil (hh : w.Orderly h) (hm : m ∉ h.entered) : h.takenFrom m = [] := by
  rw [History.takenFrom, List.map_eq_nil_iff, List.filter_eq_nil_iff]
  intro x hx hxm
  exact hm (of_decide_eq_true hxm ▸ hh.entered x hx)

lemma Orderly.enter (hh : w.Orderly h) (m : MethodRef) : w.Orderly (h.enter m) :=
  ⟨fun x hx => List.mem_cons_of_mem m (hh.entered x hx), hh.inOrder⟩

lemma orderly_empty : w.Orderly .empty := ⟨by simp [History.empty], fun _ => List.nil_prefix⟩

/-- Looking at the next operand of the method on top of the stack. -/
lemma Orderly.take (hh : w.Orderly h) (hsplit : w.Split h h.trail (⟨o :: os, d⟩ :: fs))
    (hsub : h.trail ⊆ h.entered) (hnodup : h.trail.Nodup) :
    w.Orderly (h.take o) ∧ w.Split (h.take o) h.trail (⟨os, d⟩ :: fs) := by
  cases htrail : h.trail with
  | nil => rw [htrail] at hsplit; cases hsplit
  | cons m ms =>
    rw [htrail] at hsplit hsub hnodup
    obtain ⟨htop, hrest⟩ : _ ∧ w.Split h ms fs := List.forall₂_cons.mp hsplit
    have hnew : (h.take o).takenFrom m ++ os = w.operandsOf m := by
      rw [takenFrom_take_head htrail, List.append_assoc]
      exact htop
    have hother : ∀ m' ≠ m, (h.take o).takenFrom m' = h.takenFrom m' := fun m' hne =>
      takenFrom_take_of_ne htrail hne.symm
    have hbelow : w.Split (h.take o) ms fs := hrest.congr fun m' hm' =>
      hother m' (ne_of_mem_of_not_mem hm' (List.nodup_cons.mp hnodup).1)
    refine ⟨⟨fun x hx => ?_, fun m' => ?_⟩, .cons hnew hbelow⟩
    · simp only [History.take, htrail, List.head?_cons, Option.toList_some, List.map_cons,
        List.map_nil, List.mem_append, List.mem_singleton] at hx
      rcases hx with hx | rfl
      · exact hh.entered x hx
      · exact hsub List.mem_cons_self
    · by_cases hm : m' = m
      · exact hm ▸ ⟨os, hnew⟩
      · rw [hother m' hm]
        exact hh.inOrder m'

/-! ### The invariant -/

variable (w)

/-- A walk from `root` in a state, with its record after some turns of the loop. -/
structure Recorded (root : MethodRef) (turns : Nat) (s : State) (h : History) : Prop where
  progress : w.Progress root s h.entered h.trail
  orderly : w.Orderly h
  split : w.Split h h.trail s.stack
  /-- Each turn looks at an operand or leaves a method. -/
  turns_eq : turns + s.stack.length = h.taken.length + h.entered.length

variable {w} {k : Nat}

lemma Recorded.trail_nodup (hr : w.Recorded root k s h) : h.trail.Nodup :=
  (List.Nodup.of_map _ hr.progress.distinct).sublist hr.progress.sublist

lemma Recorded.leave (hrec : w.Recorded root k ⟨⟨[], d⟩ :: fs, v, t⟩ h)
    (hsearched : ∀ m ∈ h.entered, w.Searched ⟨fs, v, t⟩ m) :
    w.Recorded root (k + 1) ⟨fs, v, t⟩ h.leave where
  progress := hrec.progress.leave hsearched
  orderly := ⟨hrec.orderly.entered, hrec.orderly.inOrder⟩
  split := by
    have hsplit := hrec.split
    cases htrail : h.trail with
    | nil => rw [htrail] at hsplit; cases hsplit
    | cons m ms =>
      rw [htrail] at hsplit
      have hleft : h.leave.trail = ms := by simp [History.leave, htrail]
      exact hleft ▸ (List.forall₂_cons.mp hsplit).2
  turns_eq := by
    have hturns := hrec.turns_eq
    simp only [List.length_cons, History.leave] at hturns ⊢
    omega

lemma Recorded.length_take (hrec : w.Recorded root k ⟨⟨o :: os, d⟩ :: fs, v, t⟩ h) :
    (h.take o).taken.length = h.taken.length + 1 := by
  obtain ⟨m, ms, b, htrail, -⟩ := hrec.progress.stacked.exists_operand
  simp [History.take, htrail]

lemma Recorded.take (hrec : w.Recorded root k ⟨⟨o :: os, d⟩ :: fs, v, t⟩ h) :
    w.Orderly (h.take o) ∧ w.Split (h.take o) h.trail (⟨os, d⟩ :: fs) :=
  hrec.orderly.take hrec.split hrec.progress.sublist.subset hrec.trail_nodup

/-- An operand that leads nowhere. -/
lemma Recorded.pass {t' : Bool} (hrec : w.Recorded root k ⟨⟨o :: os, d⟩ :: fs, v, t⟩ h)
    (hsearched : ∀ m ∈ h.entered, w.Searched ⟨⟨os, d⟩ :: fs, v, t'⟩ m) :
    w.Recorded root (k + 1) ⟨⟨os, d⟩ :: fs, v, t'⟩ (h.take o) where
  progress := hrec.progress.advance hsearched
  orderly := hrec.take.1
  split := hrec.take.2
  turns_eq := by
    have hturns := hrec.turns_eq
    rw [hrec.length_take]
    simp only [List.length_cons, History.take] at hturns ⊢
    omega

/-- An operand that leads into a method. -/
lemma Recorded.descend (hrec : w.Recorded root k ⟨⟨.method n :: os, d⟩ :: fs, v, t⟩ h)
    (hr : w.react (.method n) = .descend n) (hb : w.loaded.methodBody? n = some b)
    (hv : n.fullName ∉ v) (hd : d + 1 < w.policy.limits.maxDepth)
    (hm : v.length < w.policy.limits.maxMethods)
    (hl : ∀ l ∈ b.locals, w.pattern.inLocal l.varType = false)
    (hsearched : ∀ m ∈ h.entered,
      w.Searched ⟨⟨b.operands, d + 1⟩ :: ⟨os, d⟩ :: fs, n.fullName :: v, t⟩ m) :
    w.Recorded root (k + 1) ⟨⟨b.operands, d + 1⟩ :: ⟨os, d⟩ :: fs, n.fullName :: v, t⟩
      ((h.take (.method n)).enter n) where
  progress := hrec.progress.descend hr hb hv hd hm hl hsearched
  orderly := hrec.take.1.enter n
  split := by
    have hvisited : v = h.entered.map MethodRef.fullName := hrec.progress.visited
    have hnew : n ∉ (h.take (.method n)).entered := fun hmem =>
      hv (hvisited ▸ List.mem_map_of_mem hmem)
    refine .cons ?_ hrec.take.2
    change (h.take (.method n)).takenFrom n ++ b.operands = w.operandsOf n
    rw [hrec.take.1.takenFrom_eq_nil hnew, operandsOf_eq hb, List.nil_append]
  turns_eq := by
    have hturns := hrec.turns_eq
    have htake := hrec.length_take
    simp only [List.length_cons, History.enter, History.take] at hturns htake ⊢
    omega

/-- A step keeps the invariant. -/
theorem Recorded.step (hrec : w.Recorded root k s h) (hstep : w.step s = some (.next s')) :
    w.Recorded root (k + 1) s' (w.recordStep s h) := by
  have hsearched : ∀ m ∈ h.entered, w.Searched s' m := fun m hm =>
    (hrec.progress.searched m hm).turn (.of_step hstep)
  obtain ⟨stack, v, t⟩ := s
  match stack with
  | [] => simp [Walk.step] at hstep
  | ⟨[], d⟩ :: fs =>
    simp only [Walk.step, Option.some.injEq, Outcome.next.injEq] at hstep
    exact hstep ▸ hrec.leave (hstep ▸ hsearched)
  | ⟨o :: os, d⟩ :: fs =>
    cases hr : w.react o with
    | found => simp [Walk.step, hr] at hstep
    | skip =>
      simp only [Walk.step, hr, Option.some.injEq, Outcome.next.injEq] at hstep
      obtain rfl := hstep
      have hrecord : w.recordStep ⟨⟨o :: os, d⟩ :: fs, v, t⟩ h = h.take o := by
        simp [recordStep, hr]
      exact hrecord ▸ hrec.pass hsearched
    | descend n =>
      obtain rfl := ((w.react_eq_descend_iff o n).mp hr).1
      rw [step_eq_enter hr, Option.some.injEq] at hstep
      rw [recordStep_of_descend hr]
      have he := w.entry_enter ⟨⟨os, d⟩ :: fs, v, t⟩ n (d + 1)
      rw [hstep] at he
      cases he with
      | bodiless hb =>
        rw [recordEntry_of_not (by simp [opens, hb])]
        exact hrec.pass hsearched
      | known hb hv =>
        rw [recordEntry_of_not (by simp [opens, hv])]
        exact hrec.pass hsearched
      | refused hb hv hx =>
        rw [recordEntry_of_not (by rw [opens, (w.exhausted_iff _ _).mpr hx]; simp)]
        exact hrec.pass hsearched
      | @opened b hb hv hd hm hl =>
        rw [recordEntry_of_opens (opens_eq_true_iff.mpr ⟨⟨b, hb⟩, hv, hd, hm⟩)]
        exact hrec.descend hr hb hv hd hm hl hsearched

/-! ### Bounds -/

variable (w)

/-- What a search from `root` has looked at is bounded by the limits and by the methods that calls
lead to, and nothing is looked at twice. -/
structure History.Bounded (root : MethodRef) (h : History) : Prop where
  enteredOnce : (h.entered.map MethodRef.fullName).Nodup
  entered_le : h.entered.length ≤ w.policy.limits.maxMethods
  reached : ∀ m ∈ h.entered, m ∈ w.region root
  orderly : w.Orderly h

/-- A state within the limits. -/
structure State.Bounded (s : State) : Prop where
  visited_le : s.visited.length ≤ w.policy.limits.maxMethods
  stack_le : s.stack.length ≤ w.policy.limits.maxDepth
  /-- The position of a frame, counted from the bottom of the stack, is its depth. -/
  depth_eq : ∀ (i : Nat) (f : Frame), s.stack.reverse[i]? = some f → f.depth = i
  /-- The next depth is no greater than the limit, so that what can hold the limit can hold it. -/
  depth_le : ∀ f ∈ s.stack, f.depth + 1 ≤ w.policy.limits.maxDepth

variable {w}

lemma History.Bounded.enter (hh : h.Bounded w root)
    (hv : n.fullName ∉ h.entered.map MethodRef.fullName)
    (hm : h.entered.length < w.policy.limits.maxMethods) (hn : n ∈ w.region root) :
    (h.enter n).Bounded w root where
  enteredOnce := List.nodup_cons.mpr ⟨hv, hh.enteredOnce⟩
  entered_le := hm
  reached := List.forall_mem_cons.mpr ⟨hn, hh.reached⟩
  orderly := hh.orderly.enter n

lemma Recorded.bounded (hrec : w.Recorded root k s h) : h.Bounded w root where
  enteredOnce := hrec.progress.distinct
  entered_le := hrec.progress.within
  reached := hrec.progress.reached
  orderly := hrec.orderly

lemma Recorded.bounded_take (hrec : w.Recorded root k ⟨⟨o :: os, d⟩ :: fs, v, t⟩ h) :
    (h.take o).Bounded w root :=
  { hrec.bounded with orderly := hrec.take.1 }

lemma Stacked.depth_eq_of_getElem? {i : Nat} {f : Frame} (hs : w.Stacked ms fs)
    (hf : fs.reverse[i]? = some f) : f.depth = i := by
  induction hs with
  | nil => simp at hf
  | @cons m b ms os d fs _ _ hd _ _ ih =>
    rw [List.reverse_cons] at hf
    rcases Nat.lt_trichotomy i fs.reverse.length with hi | hi | hi
    · rw [List.getElem?_append_left hi] at hf
      exact ih hf
    · rw [hi, List.getElem?_concat_length, Option.some.injEq] at hf
      rw [← hf, hi, List.length_reverse]
      exact hd
    · rw [List.getElem?_eq_none (by simpa using hi)] at hf
      cases hf

lemma Stacked.depth_lt {f : Frame} (hs : w.Stacked ms fs) (hf : f ∈ fs) :
    f.depth < w.policy.limits.maxDepth := by
  induction hs with
  | nil => cases hf
  | cons _ _ _ hx _ ih =>
    rcases List.mem_cons.mp hf with rfl | hf
    · exact hx
    · exact ih hf

lemma Recorded.state_bounded (hrec : w.Recorded root k s h) : s.Bounded w where
  visited_le := by
    rw [hrec.progress.visited, List.length_map]
    exact hrec.progress.within
  stack_le := hrec.progress.stacked.length_eq ▸ hrec.progress.stacked.length_le
  depth_eq _ _ := hrec.progress.stacked.depth_eq_of_getElem?
  depth_le _ := hrec.progress.stacked.depth_lt

/-- A step that finds the pattern. What it looked at for that is recorded. -/
lemma Recorded.found (hrec : w.Recorded root k s h) (hstep : w.step s = some .found) :
    (w.recordStep s h).Bounded w root ∧
      k + 1 ≤ (w.recordStep s h).taken.length + (w.recordStep s h).entered.length := by
  have hturns := hrec.turns_eq
  cases Finding.of_step hstep with
  | @operand o os d fs v t hr =>
    have hrecord : w.recordStep ⟨⟨o :: os, d⟩ :: fs, v, t⟩ h = h.take o := by
      simp [recordStep, hr]
    rw [hrecord]
    refine ⟨hrec.bounded_take, ?_⟩
    rw [hrec.length_take]
    simp only [List.length_cons, History.take] at hturns ⊢
    omega
  | @localVar n b l os d fs v t hr hb hv hd hm hl hp =>
    have hopens : w.opens ⟨⟨os, d⟩ :: fs, v, t⟩ n (d + 1) = true :=
      opens_eq_true_iff.mpr ⟨⟨b, hb⟩, hv, hd, hm⟩
    rw [recordStep_of_descend hr, recordEntry_of_opens hopens]
    obtain ⟨hchain, hstart⟩ := hrec.progress.extend hr
    have hvisited : v = h.entered.map MethodRef.fullName := hrec.progress.visited
    have hroom : h.entered.length < w.policy.limits.maxMethods := by
      rwa [hvisited, List.length_map] at hm
    refine ⟨hrec.bounded_take.enter (hvisited ▸ hv) hroom
      (hrec.progress.mem_region hb hchain hstart), ?_⟩
    have htake := hrec.length_take
    simp only [List.length_cons, History.enter, History.take] at hturns htake ⊢
    omega

/-! ### The beginning -/

lemma recorded_unentered (w : Walk) (root : MethodRef) (t : Bool) :
    w.Recorded root 0 ⟨[], [], t⟩ .empty where
  progress := { progress_initial w root with visited := rfl, searched := nofun, stacked := .nil }
  orderly := orderly_empty
  split := .nil
  turns_eq := rfl

/-- A search that does not find the pattern in the locals of its root. -/
lemma recorded_start (hs : w.enter .initial root 0 = .next s) :
    w.Recorded root 0 s (w.recordEntry .initial root 0 .empty) := by
  have he := w.entry_enter .initial root 0
  rw [hs] at he
  cases he with
  | bodiless hb =>
    rw [recordEntry_of_not (by simp [opens, hb])]
    exact recorded_unentered w root false
  | known hb hv => cases hv
  | refused hb hv hx =>
    rw [recordEntry_of_not (by rw [opens, (w.exhausted_iff _ _).mpr hx]; simp)]
    exact recorded_unentered w root true
  | @opened b hb hv hd hm hl =>
    rw [recordEntry_of_opens (opens_eq_true_iff.mpr ⟨⟨b, hb⟩, hv, hd, hm⟩)]
    have hprogress := (progress_initial w root).enter .nil hb hv hd hm hl (.singleton root)
      (by simp) rfl (by simp)
    exact
      { progress := hprogress
        orderly := orderly_empty.enter root
        split := .cons (operandsOf_eq hb).symm .nil
        turns_eq := rfl }

/-- A search that finds the pattern in the locals of its root. -/
lemma bounded_start (hs : w.enter .initial root 0 = .found) :
    (w.recordEntry .initial root 0 .empty).Bounded w root := by
  have he := w.entry_enter .initial root 0
  rw [hs] at he
  cases he with
  | @found b l hb hv hd hm hl hp =>
    rw [recordEntry_of_opens (opens_eq_true_iff.mpr ⟨⟨b, hb⟩, hv, hd, hm⟩)]
    exact (recorded_unentered w root false).bounded.enter hv hm (mem_region_self hb)

/-! ### Every moment -/

variable (w)

/-- The bounds at a moment of a search: those on what it has looked at, and if it has not found the
pattern, those on its state. -/
structure Moment.Bounded (root : MethodRef) (p : Moment) : Prop where
  history : p.history.Bounded w root
  state : ∀ s, p.outcome = .next s →
    s.visited = p.history.entered.map MethodRef.fullName ∧ s.Bounded w

variable {w} {p : Moment} {k : Nat}

/-- What every turn of the loop keeps. -/
structure Moment.Kept (w : Walk) (root : MethodRef) (p : Moment) : Prop where
  history : p.history.Bounded w root
  state : ∀ s, p.outcome = .next s → ∃ k, w.Recorded root k s p.history

lemma turn_of_next {out : Outcome} (hp : p.outcome = .next s) (hstep : w.step s = some out) :
    p.turn w = ⟨out, w.recordStep s p.history⟩ := by
  simp [Moment.turn, hp, hstep]

/-- A turn after the end of the loop. -/
lemma turn_of_ended (hp : p.outcome.Ended) : p.turn w = p := by
  obtain ⟨out, h⟩ := p
  cases out with
  | found => rfl
  | next s =>
    have hstack : s.stack = [] := hp
    simp [Moment.turn, Walk.step, hstack]

lemma Moment.Kept.turn (hp : p.Kept w root) : (p.turn w).Kept w root := by
  cases hout : p.outcome with
  | found =>
    have hended : p.outcome.Ended := by rw [hout]; trivial
    exact (turn_of_ended (w := w) hended).symm ▸ hp
  | next s =>
    obtain ⟨k, hrec⟩ := hp.state s hout
    cases hstep : w.step s with
    | none =>
      have hended : p.outcome.Ended := by rw [hout]; exact stack_eq_nil_of_step_eq_none hstep
      exact (turn_of_ended (w := w) hended).symm ▸ hp
    | some out =>
      rw [turn_of_next hout hstep]
      cases out with
      | found => exact ⟨(hrec.found hstep).1, nofun⟩
      | next s' =>
        have hrec' := hrec.step hstep
        refine ⟨hrec'.bounded, fun s'' hs'' => ⟨k + 1, ?_⟩⟩
        obtain rfl : s' = s'' := Outcome.next.inj hs''
        exact hrec'

theorem kept_after (w : Walk) (root : MethodRef) (n : Nat) : (w.after root n).Kept w root := by
  induction n with
  | zero =>
    cases hs : w.enter .initial root 0 with
    | found => exact ⟨bounded_start hs, fun s hs' => by cases hs.symm.trans hs'⟩
    | next s =>
      have hrec := recorded_start hs
      refine ⟨hrec.bounded, fun s' hs' => ⟨0, ?_⟩⟩
      obtain rfl : s = s' := Outcome.next.inj (hs.symm.trans hs')
      exact hrec
  | succ n ih => exact ih.turn

lemma Moment.Kept.bounded (hp : p.Kept w root) : p.Bounded w root where
  history := hp.history
  state s hs := by
    obtain ⟨k, hrec⟩ := hp.state s hs
    exact ⟨hrec.progress.visited, hrec.state_bounded⟩

/-! ### The end of the loop -/

/-- From a state that a search goes through, its loop ends with the outcome of the run. -/
lemma exists_ended (hout : (w.after root k).outcome = .next s)
    (hrec : w.Recorded root k s (w.after root k).history) :
    ∃ n, (w.after root n).outcome.Ended ∧ (w.after root n).outcome = w.run s ∧
      n ≤ (w.after root n).history.taken.length + (w.after root n).history.entered.length := by
  induction s using run.induct (w := w) generalizing k with
  | case1 s hstep =>
    refine ⟨k, ?_, hout.trans (run_of_step_eq_none hstep).symm, ?_⟩
    · rw [hout]
      exact stack_eq_nil_of_step_eq_none hstep
    · exact Nat.le_of_add_right_le hrec.turns_eq.le
  | case2 s hstep =>
    have hnext : w.after root (k + 1) = ⟨.found, w.recordStep s (w.after root k).history⟩ :=
      turn_of_next hout hstep
    refine ⟨k + 1, ?_⟩
    rw [hnext]
    exact ⟨trivial, (run_of_step_eq_found hstep).symm, (hrec.found hstep).2⟩
  | case3 s s₁ hstep _ ih =>
    have hnext : w.after root (k + 1) = ⟨.next s₁, w.recordStep s (w.after root k).history⟩ :=
      turn_of_next hout hstep
    rw [run_of_step_eq_next hstep]
    refine ih (k := k + 1) ?_ ?_
    · rw [hnext]
    · rw [hnext]
      exact hrec.step hstep

/-- The loop of a search ends with its answer, after no more turns than operands were looked at and
methods entered. Until then, and whatever the set of assemblies and the limits, the search keeps to
its bounds. -/
theorem search_bounded (w : Walk) (root : MethodRef) :
    (∃ n, (w.after root n).outcome.Ended ∧ (w.after root n).outcome.presence = w.search root ∧
      n ≤ (w.after root n).history.taken.length + (w.after root n).history.entered.length) ∧
    (w.region root).Finite ∧ ∀ n, (w.after root n).Bounded w root := by
  refine ⟨?_, w.region_finite root, fun n => (w.kept_after root n).bounded⟩
  cases hs : w.enter .initial root 0 with
  | found =>
    refine ⟨0, ?_, ?_, Nat.zero_le _⟩
    · change (w.enter .initial root 0).Ended
      rw [hs]
      trivial
    · rw [search_of_enter_eq_found hs]
      exact congrArg Outcome.presence hs
  | next s =>
    obtain ⟨n, hended, hout, hle⟩ := exists_ended (k := 0) hs (recorded_start hs)
    exact ⟨n, hended, by rw [hout, search_of_enter_eq_next hs], hle⟩

end AssemblyPolicy.Walk
