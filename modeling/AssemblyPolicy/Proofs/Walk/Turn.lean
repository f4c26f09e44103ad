import AssemblyPolicy.Proofs.Walk.Calls

/-!
# The turns of a walk

`Walk.Entry` lists what can come of entering a method, `Walk.Turn` what a step can do to the state
and `Walk.Finding` the states in which a step finds the pattern. What every turn keeps, a run keeps
up to its end (`of_run_eq_next`) or up to the finding (`of_run_eq_found`).
-/

namespace AssemblyPolicy.Walk

variable (w : Walk)

/-! ### Entering a method -/

/-- What comes of entering a method at some depth. -/
inductive Entry (s : State) (m : MethodRef) (depth : Nat) : Outcome → Prop where
  | bodiless (hb : w.loaded.methodBody? m = none) : Entry s m depth (.next s)
  | known {b : MethodBody} (hb : w.loaded.methodBody? m = some b) (hv : m.fullName ∈ s.visited) :
      Entry s m depth (.next s)
  | refused {b : MethodBody} (hb : w.loaded.methodBody? m = some b) (hv : m.fullName ∉ s.visited)
      (hx : w.policy.limits.maxDepth ≤ depth ∨ w.policy.limits.maxMethods ≤ s.visited.length) :
      Entry s m depth (.next { s with truncated := true })
  | found {b : MethodBody} {l : LocalVar} (hb : w.loaded.methodBody? m = some b)
      (hv : m.fullName ∉ s.visited) (hd : depth < w.policy.limits.maxDepth)
      (hm : s.visited.length < w.policy.limits.maxMethods) (hl : l ∈ b.locals)
      (hp : w.pattern.inLocal l.varType = true) : Entry s m depth .found
  | opened {b : MethodBody} (hb : w.loaded.methodBody? m = some b) (hv : m.fullName ∉ s.visited)
      (hd : depth < w.policy.limits.maxDepth)
      (hm : s.visited.length < w.policy.limits.maxMethods)
      (hl : ∀ l ∈ b.locals, w.pattern.inLocal l.varType = false) :
      Entry s m depth
        (.next ⟨⟨b.operands, depth⟩ :: s.stack, m.fullName :: s.visited, s.truncated⟩)

lemma exhausted_iff (s : State) (depth : Nat) : w.exhausted s depth = true ↔
    w.policy.limits.maxDepth ≤ depth ∨ w.policy.limits.maxMethods ≤ s.visited.length := by
  simp [exhausted]

lemma entry_enter (s : State) (m : MethodRef) (depth : Nat) :
    w.Entry s m depth (w.enter s m depth) := by
  unfold enter
  cases hb : w.loaded.methodBody? m with
  | none => exact .bodiless hb
  | some b =>
    dsimp only
    split_ifs with hv hx hl
    · exact .known hb hv
    · exact .refused hb hv ((w.exhausted_iff s depth).mp hx)
    · obtain ⟨l, hl, hp⟩ := List.any_eq_true.mp hl
      rw [exhausted_iff, not_or, Nat.not_le, Nat.not_le] at hx
      exact .found hb hv hx.1 hx.2 hl hp
    · rw [exhausted_iff, not_or, Nat.not_le, Nat.not_le] at hx
      exact .opened hb hv hx.1 hx.2 (by simpa using hl)

/-! ### One step -/

/-- An operand that leaves everything as it is: no call to follow, or one of a method that has no
body or was entered before. -/
def Passes (visited : List String) (o : MemberRef) : Prop :=
  w.react o = .skip ∨ ∃ n, w.react o = .descend n ∧
    (w.loaded.methodBody? n = none ∨ n.fullName ∈ visited)

/-- What a step does to the state. -/
inductive Turn : State → State → Prop where
  | leave {d : Nat} {fs : List Frame} {v : List String} {t : Bool} :
      Turn ⟨⟨[], d⟩ :: fs, v, t⟩ ⟨fs, v, t⟩
  | pass {o : MemberRef} {os : List MemberRef} {d : Nat} {fs : List Frame} {v : List String}
      {t : Bool} (ho : w.Passes v o) :
      Turn ⟨⟨o :: os, d⟩ :: fs, v, t⟩ ⟨⟨os, d⟩ :: fs, v, t⟩
  | refuse {n : MethodRef} {b : MethodBody} {os : List MemberRef} {d : Nat} {fs : List Frame}
      {v : List String} {t : Bool} (hr : w.react (.method n) = .descend n)
      (hb : w.loaded.methodBody? n = some b) (hv : n.fullName ∉ v)
      (hx : w.policy.limits.maxDepth ≤ d + 1 ∨ w.policy.limits.maxMethods ≤ v.length) :
      Turn ⟨⟨.method n :: os, d⟩ :: fs, v, t⟩ ⟨⟨os, d⟩ :: fs, v, true⟩
  | enter {n : MethodRef} {b : MethodBody} {os : List MemberRef} {d : Nat} {fs : List Frame}
      {v : List String} {t : Bool} (hr : w.react (.method n) = .descend n)
      (hb : w.loaded.methodBody? n = some b) (hv : n.fullName ∉ v)
      (hd : d + 1 < w.policy.limits.maxDepth) (hm : v.length < w.policy.limits.maxMethods)
      (hl : ∀ l ∈ b.locals, w.pattern.inLocal l.varType = false) :
      Turn ⟨⟨.method n :: os, d⟩ :: fs, v, t⟩
        ⟨⟨b.operands, d + 1⟩ :: ⟨os, d⟩ :: fs, n.fullName :: v, t⟩

/-- A state in which the next step finds the pattern. -/
inductive Finding : State → Prop where
  | operand {o : MemberRef} {os : List MemberRef} {d : Nat} {fs : List Frame} {v : List String}
      {t : Bool} (hr : w.react o = .found) : Finding ⟨⟨o :: os, d⟩ :: fs, v, t⟩
  | localVar {n : MethodRef} {b : MethodBody} {l : LocalVar} {os : List MemberRef} {d : Nat}
      {fs : List Frame} {v : List String} {t : Bool} (hr : w.react (.method n) = .descend n)
      (hb : w.loaded.methodBody? n = some b) (hv : n.fullName ∉ v)
      (hd : d + 1 < w.policy.limits.maxDepth) (hm : v.length < w.policy.limits.maxMethods)
      (hl : l ∈ b.locals) (hp : w.pattern.inLocal l.varType = true) :
      Finding ⟨⟨.method n :: os, d⟩ :: fs, v, t⟩

variable {w} {s s' : State}

lemma stack_eq_nil_of_step_eq_none (h : w.step s = none) : s.stack = [] := by
  unfold step at h
  split at h
  · assumption
  · cases h
  · split at h <;> cases h

/-- A step that goes into an operand does what entering the method does. -/
lemma step_eq_enter {o : MemberRef} {n : MethodRef} {os : List MemberRef} {d : Nat}
    {fs : List Frame} {v : List String} {t : Bool} (hr : w.react o = .descend n) :
    w.step ⟨⟨o :: os, d⟩ :: fs, v, t⟩ = some (w.enter ⟨⟨os, d⟩ :: fs, v, t⟩ n (d + 1)) := by
  simp [step, hr]

lemma Turn.of_step (h : w.step s = some (.next s')) : w.Turn s s' := by
  obtain ⟨stack, v, t⟩ := s
  match stack with
  | [] => simp [step] at h
  | ⟨[], d⟩ :: fs =>
    simp only [step, Option.some.injEq, Outcome.next.injEq] at h
    exact h ▸ .leave
  | ⟨o :: os, d⟩ :: fs =>
    cases hr : w.react o with
    | found => simp [step, hr] at h
    | skip =>
      simp only [step, hr, Option.some.injEq, Outcome.next.injEq] at h
      exact h ▸ .pass (.inl hr)
    | descend n =>
      obtain rfl := ((w.react_eq_descend_iff o n).mp hr).1
      rw [step_eq_enter hr, Option.some.injEq] at h
      have he := w.entry_enter ⟨⟨os, d⟩ :: fs, v, t⟩ n (d + 1)
      rw [h] at he
      cases he with
      | bodiless hb => exact .pass (.inr ⟨n, hr, .inl hb⟩)
      | known hb hv => exact .pass (.inr ⟨n, hr, .inr hv⟩)
      | refused hb hv hx => exact .refuse hr hb hv hx
      | opened hb hv hd hm hl => exact .enter hr hb hv hd hm hl

lemma Finding.of_step (h : w.step s = some .found) : w.Finding s := by
  obtain ⟨stack, v, t⟩ := s
  match stack with
  | [] => simp [step] at h
  | ⟨[], d⟩ :: fs => simp [step] at h
  | ⟨o :: os, d⟩ :: fs =>
    cases hr : w.react o with
    | found => exact .operand hr
    | skip => simp [step, hr] at h
    | descend n =>
      obtain rfl := ((w.react_eq_descend_iff o n).mp hr).1
      rw [step_eq_enter hr, Option.some.injEq] at h
      have he := w.entry_enter ⟨⟨os, d⟩ :: fs, v, t⟩ n (d + 1)
      rw [h] at he
      cases he with
      | found hb hv hd hm hl hp => exact .localVar hr hb hv hd hm hl hp

/-! ### Runs -/

lemma run_of_step_eq_none (h : w.step s = none) : w.run s = .next s := by
  unfold run
  split <;> simp_all

lemma run_of_step_eq_found (h : w.step s = some .found) : w.run s = .found := by
  unfold run
  split <;> simp_all

lemma run_of_step_eq_next (h : w.step s = some (.next s')) : w.run s = w.run s' := by
  conv_lhs => unfold run
  split <;> simp_all

variable {P : State → Prop}

/-- What every turn keeps holds at the end of a run, when the stack is empty. -/
lemma of_run_eq_next (hturn : ∀ s s', P s → w.Turn s s' → P s') (hs : P s)
    (h : w.run s = .next s') : P s' ∧ s'.stack = [] := by
  induction s using run.induct (w := w) with
  | case1 s hstep =>
    rw [run_of_step_eq_none hstep, Outcome.next.injEq] at h
    exact h ▸ ⟨hs, stack_eq_nil_of_step_eq_none hstep⟩
  | case2 s hstep => rw [run_of_step_eq_found hstep] at h; cases h
  | case3 s s₁ hstep _ ih =>
    rw [run_of_step_eq_next hstep] at h
    exact ih (hturn s s₁ hs (.of_step hstep)) h

/-- What every turn keeps holds when a run finds the pattern. -/
lemma of_run_eq_found (hturn : ∀ s s', P s → w.Turn s s' → P s') (hs : P s)
    (h : w.run s = .found) : ∃ s', P s' ∧ w.Finding s' := by
  induction s using run.induct (w := w) with
  | case1 s hstep => rw [run_of_step_eq_none hstep] at h; cases h
  | case2 s hstep => exact ⟨s, hs, .of_step hstep⟩
  | case3 s s₁ hstep _ ih =>
    rw [run_of_step_eq_next hstep] at h
    exact ih (hturn s s₁ hs (.of_step hstep)) h

end AssemblyPolicy.Walk
