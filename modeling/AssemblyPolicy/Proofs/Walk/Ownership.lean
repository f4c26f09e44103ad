import AssemblyPolicy.Proofs.Walk.Presence

/-!
# Members of the assembly that is checked

Boundaries are for other assemblies. A walk asks the policy nothing about members of the assembly it
started from, wherever it meets them, so an assembly cannot hide its own code by the names it
chooses (`candidate_not_shielded`). Two walks that react alike to all operands they can meet
take every step alike.
-/

namespace AssemblyPolicy

/-! ### Operands that references lead to -/

namespace AssemblySet

variable (s : AssemblySet)

/-- The body of the method `m` refers to the method `n`. -/
def Refers (m n : MethodRef) : Prop :=
  ∃ b, s.methodBody? m = some b ∧ .method n ∈ b.operands

/-- The operands in the bodies of all methods that references lead to, whatever the boundaries. -/
def operandsFrom (root : MethodRef) : Set MemberRef :=
  {o | ∃ m b, Relation.ReflTransGen s.Refers root m ∧ s.methodBody? m = some b ∧ o ∈ b.operands}

variable {s} {root n : MethodRef} {b : MethodBody} {o : MemberRef}

lemma mem_operandsFrom_root (hb : s.methodBody? root = some b) (ho : o ∈ b.operands) :
    o ∈ s.operandsFrom root :=
  ⟨root, b, .refl, hb, ho⟩

lemma mem_operandsFrom_of_body (hn : .method n ∈ s.operandsFrom root)
    (hb : s.methodBody? n = some b) (ho : o ∈ b.operands) : o ∈ s.operandsFrom root := by
  obtain ⟨m, b', hm, hb', hmem⟩ := hn
  exact ⟨n, b, hm.tail ⟨b', hb', hmem⟩, hb, ho⟩

/-- The operands in the bodies of a set. -/
def operands (s : AssemblySet) : List MemberRef :=
  s.assemblies.flatMap fun a => a.types.flatMap fun t => t.methods.flatMap fun d =>
    d.body.elim [] MethodBody.operands

lemma mem_operands_of_mem_operandsFrom (h : o ∈ s.operandsFrom root) : o ∈ s.operands := by
  obtain ⟨m, b, -, hb, ho⟩ := h
  obtain ⟨a, ha, t, ht, d, hd, -, hbody⟩ := exists_declares hb
  simp only [operands, List.mem_flatMap]
  exact ⟨a, ha, t, ht, d, hd, by simpa [hbody] using ho⟩

end AssemblySet

/-! ### Walks in step -/

namespace Walk

variable {w w' : Walk} {root n : MethodRef} {s s' : State} {o : MemberRef}

/-- A reaction depends on the pattern, on what counts, and of a method on whether the walk may go
into it. -/
lemma react_eq_of_iff (hpattern : w.pattern = w'.pattern) (hcounts : w.Counts o ↔ w'.Counts o)
    (hopen : ∀ n, o = .method n → (w.Open o ↔ w'.Open o)) : w.react o = w'.react o := by
  have hfound : w.react o = .found ↔ w'.react o = .found := by
    rw [react_eq_found_iff, react_eq_found_iff, hcounts, hpattern]
  have hdescend : ∀ n, w.react o = .descend n ↔ w'.react o = .descend n := by
    intro n
    rw [react_eq_descend_iff, react_eq_descend_iff, hpattern]
    exact and_congr_right fun hn => and_congr_left' (hopen n hn)
  cases h : w.react o with
  | found => exact (hfound.mp h).symm
  | descend n => exact ((hdescend n).mp h).symm
  | skip =>
    cases h' : w'.react o with
    | found => rw [hfound.mpr h'] at h; cases h
    | descend n => rw [(hdescend n).mpr h'] at h; cases h
    | skip => rfl

/-- The frames on the stack hold operands of the set only. -/
def State.HoldsOnly (s : State) (q : Set MemberRef) : Prop := ∀ f ∈ s.stack, ∀ o ∈ f.operands, o ∈ q

lemma Turn.holdsOnly (ht : w.Turn s s') (h : s.HoldsOnly (w.loaded.operandsFrom root)) :
    s'.HoldsOnly (w.loaded.operandsFrom root) := by
  cases ht with
  | leave => exact (List.forall_mem_cons.mp h).2
  | pass ho =>
    obtain ⟨htop, h⟩ := List.forall_mem_cons.mp h
    exact List.forall_mem_cons.mpr ⟨(List.forall_mem_cons.mp htop).2, h⟩
  | refuse hr hb hv hx =>
    obtain ⟨htop, h⟩ := List.forall_mem_cons.mp h
    exact List.forall_mem_cons.mpr ⟨(List.forall_mem_cons.mp htop).2, h⟩
  | enter hr hb hv hd hm hl =>
    obtain ⟨htop, h⟩ := List.forall_mem_cons.mp h
    obtain ⟨hn, htop⟩ := List.forall_mem_cons.mp htop
    refine List.forall_mem_cons.mpr ⟨fun o ho => ?_, List.forall_mem_cons.mpr ⟨htop, h⟩⟩
    exact AssemblySet.mem_operandsFrom_of_body hn hb ho

lemma holdsOnly_of_enter (h : w.enter .initial root 0 = .next s) :
    s.HoldsOnly (w.loaded.operandsFrom root) := by
  have he := w.entry_enter .initial root 0
  rw [h] at he
  cases he with
  | bodiless hb => simp [State.HoldsOnly, State.initial]
  | known hb hv => simp [State.HoldsOnly, State.initial]
  | refused hb hv hx => simp [State.HoldsOnly, State.initial]
  | opened hb hv hd hm hl =>
    intro f hf o ho
    obtain rfl := List.mem_singleton.mp hf
    exact AssemblySet.mem_operandsFrom_root hb ho

lemma step_eq_of_holdsOnly {q : Set MemberRef} (hreact : ∀ o ∈ q, w.react o = w'.react o)
    (henter : ∀ s m depth, w.enter s m depth = w'.enter s m depth) (h : s.HoldsOnly q) :
    w.step s = w'.step s := by
  obtain ⟨stack, v, t⟩ := s
  match stack with
  | [] => rfl
  | ⟨[], d⟩ :: fs => rfl
  | ⟨o :: os, d⟩ :: fs =>
    have ho : o ∈ q := h _ List.mem_cons_self o List.mem_cons_self
    simp only [step, hreact o ho, henter]

lemma run_eq_of_holdsOnly
    (hreact : ∀ o ∈ w.loaded.operandsFrom root, w.react o = w'.react o)
    (henter : ∀ s m depth, w.enter s m depth = w'.enter s m depth)
    (h : s.HoldsOnly (w.loaded.operandsFrom root)) : w.run s = w'.run s := by
  -- The states are equal at every turn, so the invariant is followed along the first walk only.
  induction s using run.induct (w := w) with
  | case1 s hstep =>
    have hstep' := (step_eq_of_holdsOnly hreact henter h).symm.trans hstep
    rw [run_of_step_eq_none hstep, run_of_step_eq_none hstep']
  | case2 s hstep =>
    have hstep' := (step_eq_of_holdsOnly hreact henter h).symm.trans hstep
    rw [run_of_step_eq_found hstep, run_of_step_eq_found hstep']
  | case3 s s₁ hstep _ ih =>
    have hstep' := (step_eq_of_holdsOnly hreact henter h).symm.trans hstep
    rw [run_of_step_eq_next hstep, run_of_step_eq_next hstep']
    exact ih ((Turn.of_step hstep).holdsOnly h)

/-- Walks that enter methods alike, and react alike to the operands that references lead to, give
one answer. -/
lemma search_eq_of_react_eq
    (hreact : ∀ o ∈ w.loaded.operandsFrom root, w.react o = w'.react o)
    (henter : ∀ s m depth, w.enter s m depth = w'.enter s m depth) :
    w.search root = w'.search root := by
  cases hout : w.enter .initial root 0 with
  | found => simp only [search, ← henter, hout]
  | next s =>
    have hrun := run_eq_of_holdsOnly hreact henter (holdsOnly_of_enter hout)
    simp only [search, ← henter, hout, hrun]

end Walk

/-! ### Policies that agree on other assemblies -/

/-- The policies set the same boundaries for a member. -/
structure Policy.AgreeOn (policy policy' : Policy) (o : MemberRef) : Prop where
  trusted : policy.isTrusted o.assembly = policy'.isTrusted o.assembly
  interfaces : policy.isInterface o.assembly = policy'.isInterface o.assembly
  exempt : ∀ t ∈ o.declaringType?, policy.isExempt t.ns = policy'.isExempt t.ns

open Walk

variable {p : Pattern} {policy policy' : Policy} {s : AssemblySet} {root : MethodRef}
  {o : MemberRef}

/-- Of its own members a walk asks no policy, so the policies have to agree on the others only. -/
lemma react_eq_of_agreeOn
    (h : o.assembly ≠ root.declaringType.assembly → policy.AgreeOn policy' o) :
    (startingAt p policy s root).react o = (startingAt p policy' s root).react o := by
  refine react_eq_of_iff (by rfl) ?_ ?_
  · by_cases hown : o.assembly = root.declaringType.assembly
    · exact iff_of_true (.inl hown) (.inl hown)
    · simp only [Counts, startingAt, (h hown).interfaces]
  · rintro n rfl
    by_cases hown : (MemberRef.method n).assembly = root.declaringType.assembly
    · exact iff_of_true (.inl hown) (.inl hown)
    · have hexempt := (h hown).exempt n.declaringType rfl
      simp only [Open, startingAt, (h hown).interfaces, (h hown).trusted, MemberRef.subject,
        hexempt]

/-- Entering a method asks the policy for its limits only. -/
lemma enter_eq_of_limits_eq (hlimits : policy.limits = policy'.limits) (st : State)
    (m : MethodRef) (depth : Nat) :
    (startingAt p policy s root).enter st m depth =
      (startingAt p policy' s root).enter st m depth := by
  simp only [enter, exhausted, startingAt, hlimits]
  rfl

lemma presenceInCalls_eq_of_agreeOn (hlimits : policy.limits = policy'.limits)
    (h : ∀ o ∈ s.operandsFrom root, o.assembly ≠ root.declaringType.assembly →
      policy.AgreeOn policy' o) :
    presenceInCalls p policy s root = presenceInCalls p policy' s root := by
  rw [presenceInCalls_eq_search, presenceInCalls_eq_search]
  apply search_eq_of_react_eq
  · intro o ho
    exact react_eq_of_agreeOn (h o ho)
  · exact enter_eq_of_limits_eq hlimits

/-- Boundaries never shield the assembly of the root. The answer is the same under policies that
agree on all other assemblies, and where only members of that assembly are met it depends on no
boundary at all. -/
theorem candidate_not_shielded (p : Pattern) (s : AssemblySet) (root : MethodRef)
    (hlimits : policy.limits = policy'.limits) :
    ((∀ name, name ≠ root.declaringType.assembly →
        policy.isTrusted name = policy'.isTrusted name ∧
          policy.isInterface name = policy'.isInterface name) →
      (∀ o ∈ s.operandsFrom root, o.assembly ≠ root.declaringType.assembly →
        ∀ t ∈ o.declaringType?, policy.isExempt t.ns = policy'.isExempt t.ns) →
      presenceInCalls p policy s root = presenceInCalls p policy' s root) ∧
    ((∀ o ∈ s.operandsFrom root, o.assembly = root.declaringType.assembly) →
      presenceInCalls p policy s root = presenceInCalls p policy' s root) := by
  constructor
  · intro hassemblies hexempt
    refine presenceInCalls_eq_of_agreeOn hlimits fun o ho hown => ?_
    obtain ⟨htrusted, hinterface⟩ := hassemblies o.assembly hown
    exact ⟨htrusted, hinterface, hexempt o ho hown⟩
  · intro howned
    exact presenceInCalls_eq_of_agreeOn hlimits fun o ho hown => absurd (howned o ho) hown

/-! ### A call through a library -/

namespace Detour

def run : MethodRef := ⟨⟨"Mod", "Mod", "Plugin"⟩, "Run", "()"⟩

def apply : MethodRef := ⟨⟨"Lib", "Lib", "Helper"⟩, "Apply", "()"⟩

def delete : MethodRef := ⟨⟨"Mod", "Mod", "Plugin"⟩, "Delete", "()"⟩

/-- A method that calls one of a library, which calls one of the assembly again. -/
def plugin : AssemblyModel :=
  ⟨none, "Mod", [⟨"Mod", "Plugin", none, [], [],
    [⟨"Run", "()", some ⟨[], [⟨0, "call", some (.method apply)⟩]⟩⟩,
      ⟨"Delete", "()", some ⟨[⟨0, ⟨"mscorlib", "System.IO", "File"⟩⟩], []⟩⟩]⟩]⟩

def library : AssemblyModel :=
  ⟨none, "Lib", [⟨"Lib", "Helper", none, [], [],
    [⟨"Apply", "()", some ⟨[], [⟨0, "callvirt", some (.method delete)⟩]⟩⟩]⟩]⟩

def loaded : AssemblySet := (AssemblySet.empty.insert plugin).insert library

/-- A policy without boundaries. -/
def plain : Policy := { Policy.empty with interfaces := [], exempt := [] }

/-- The assembly has the name of one of the host, and its namespace is exempt. -/
def shielding : Policy := { Policy.empty with interfaces := ["Mod"], exempt := ["Mod"] }

/-- All assemblies are trusted besides. -/
def trusting : Policy := { shielding with trusted := [⟨"**", [.leading]⟩] }

/-- The walk leaves the assembly, comes back, and meets the local. -/
lemma presenceInCalls_eq_present : presenceInCalls PingPong.file plain loaded run = .present :=
  search_eq_of_searchWithin (n := 2) rfl

/-- The local is found as well where the names of the assembly are those of boundaries; and where
all that is met belongs to it, also if every assembly is trusted. -/
theorem not_shielded_run : presenceInCalls PingPong.file shielding loaded run = .present ∧
    presenceInCalls PingPong.file trusting PingPong.loaded PingPong.ping = .present := by
  have hforeign : ∀ o ∈ loaded.operands, o.assembly ≠ "Mod" →
      ∀ t ∈ o.declaringType?, shielding.isExempt t.ns = plain.isExempt t.ns := by
    decide
  have hown : ∀ o ∈ PingPong.loaded.operands, o.assembly = "Mod" := by decide
  have hshielding : shielding.limits = plain.limits := rfl
  have htrusting : trusting.limits = Policy.empty.limits := rfl
  constructor
  · rw [← presenceInCalls_eq_present]
    apply (candidate_not_shielded PingPong.file loaded run hshielding).1
    · intro name hname
      have hname : "Mod" ≠ name := hname.symm
      simp [Policy.isTrusted, Policy.isInterface, plain, shielding, Policy.empty, hname]
    · intro o ho
      exact hforeign o (AssemblySet.mem_operands_of_mem_operandsFrom ho)
  · rw [← PingPong.presenceInCalls_eq_present]
    apply (candidate_not_shielded PingPong.file PingPong.loaded PingPong.ping htrusting).2
    intro o ho
    exact hown o (AssemblySet.mem_operands_of_mem_operandsFrom ho)

end Detour

end AssemblyPolicy
