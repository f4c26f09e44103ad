import AssemblyPolicy.Proofs.Walk.Turn
import Mathlib.Data.List.Chain

/-!
# The progress of a walk

`Walk.Progress` ties the state of a walk from `root` to the methods behind it: `entered` holds those
whose names are recorded, `trail` those whose frames are on the stack, both with the latest first.
The trail is a path of calls that starts at `root`, and every operand of a method that was entered
is either still ahead in some frame or settled. Every turn keeps this (`Progress.turn`).
-/

namespace AssemblyPolicy.Walk

variable (w : Walk)

/-! ### Operands -/

/-- An operand that needs no look in this state: it is no finding, and a method it leads to has no
body, was entered, or was refused. -/
def Settled (s : State) (o : MemberRef) : Prop :=
  w.react o ≠ .found ∧ ∀ n, w.react o = .descend n →
    w.loaded.methodBody? n = none ∨ n.fullName ∈ s.visited ∨ s.truncated = true

/-- An operand that is still ahead in a frame, or settled. -/
def Handled (s : State) (o : MemberRef) : Prop :=
  (∃ f ∈ s.stack, o ∈ f.operands) ∨ w.Settled s o

/-- A method whose locals were searched, and whose operands are all handled. -/
def Searched (s : State) (m : MethodRef) : Prop :=
  ∃ b, w.loaded.methodBody? m = some b ∧
    (∀ l ∈ b.locals, w.pattern.inLocal l.varType = false) ∧ ∀ o ∈ b.operands, w.Handled s o

variable {w} {s s' : State} {o : MemberRef} {m n root : MethodRef} {b : MethodBody}

lemma Settled.mono (h : w.Settled s o) (hv : s.visited ⊆ s'.visited)
    (ht : s.truncated = true → s'.truncated = true) : w.Settled s' o :=
  ⟨h.1, fun n hn => (h.2 n hn).imp id (Or.imp (@hv _) ht)⟩

lemma settled_of_passes (h : w.Passes s.visited o) : w.Settled s o := by
  rcases h with h | ⟨n, h, hn⟩
  · exact ⟨by simp [h], by simp [h]⟩
  · refine ⟨by simp [h], fun n' h' => ?_⟩
    obtain rfl : n = n' := by simpa [h] using h'
    exact hn.imp id Or.inl

lemma settled_of_descend (h : w.react o = .descend n)
    (hn : n.fullName ∈ s.visited ∨ s.truncated = true) : w.Settled s o := by
  refine ⟨by simp [h], fun n' h' => ?_⟩
  obtain rfl : n = n' := by simpa [h] using h'
  exact .inr hn

/-- Taking the operand `o'` off the frame on top keeps all others handled. -/
lemma Handled.advance {o' : MemberRef} {os : List MemberRef} {d : Nat} {fs : List Frame}
    {v : List String} {t : Bool} (h : w.Handled ⟨⟨o' :: os, d⟩ :: fs, v, t⟩ o)
    (ho : w.Settled s' o') (hstack : ⟨os, d⟩ :: fs ⊆ s'.stack) (hv : v ⊆ s'.visited)
    (ht : t = true → s'.truncated = true) : w.Handled s' o := by
  rcases h with ⟨f, hf, hof⟩ | h
  · rcases List.mem_cons.mp hf with rfl | hf
    · rcases List.mem_cons.mp hof with rfl | hof
      · exact .inr ho
      · exact .inl ⟨_, hstack List.mem_cons_self, hof⟩
    · exact .inl ⟨f, hstack (List.mem_cons_of_mem _ hf), hof⟩
  · exact .inr (h.mono hv ht)

lemma Handled.turn (h : w.Handled s o) (ht : w.Turn s s') : w.Handled s' o := by
  cases ht with
  | leave =>
    rcases h with ⟨f, hf, hof⟩ | h
    · rcases List.mem_cons.mp hf with rfl | hf
      · cases hof
      · exact .inl ⟨f, hf, hof⟩
    · exact .inr (h.mono (List.Subset.refl _) id)
  | pass ho => exact h.advance (settled_of_passes ho) (List.Subset.refl _) (List.Subset.refl _) id
  | refuse hr hb hv hx =>
    exact h.advance (settled_of_descend hr (.inr rfl)) (List.Subset.refl _) (List.Subset.refl _)
      fun _ => rfl
  | enter hr hb hv hd hm hl =>
    exact h.advance (settled_of_descend hr (.inl List.mem_cons_self)) (List.subset_cons_self _ _)
      (List.subset_cons_self _ _) id

lemma Searched.turn (h : w.Searched s m) (ht : w.Turn s s') : w.Searched s' m := by
  obtain ⟨b, hb, hl, ho⟩ := h
  exact ⟨b, hb, hl, fun o h => (ho o h).turn ht⟩

/-- With nothing on the stack, a method that was searched does not use the pattern. -/
lemma Searched.not_hit (h : w.Searched s m) (hs : s.stack = []) : ¬ w.Hit m := by
  obtain ⟨b, hb, hl, ho⟩ := h
  rw [hit_iff hb, not_usedIn_iff]
  refine ⟨hl, fun o hmem => ?_⟩
  rcases ho o hmem with ⟨f, hf, _⟩ | h
  · simp [hs] at hf
  · exact h.1

/-- With nothing on the stack and no limit hit, the methods that a searched method leads to were
entered, as far as their names tell. -/
lemma Searched.visited_of_descends (h : w.Searched s m) (hs : s.stack = [])
    (ht : s.truncated = false) (hd : w.Descends m n) (hb : w.loaded.methodBody? n = some b) :
    n.fullName ∈ s.visited := by
  obtain ⟨b', hb', -, ho⟩ := h
  obtain ⟨hmem, hr⟩ := (descends_iff hb').mp hd
  rcases ho _ hmem with ⟨f, hf, _⟩ | h
  · simp [hs] at hf
  · simpa [hb, ht] using h.2 n hr

/-! ### The stack -/

variable (w)

/-- The frames of a stack and the methods they belong to. The depth of a frame is its height in the
stack, and the operands left are the last of the method. -/
inductive Stacked : List MethodRef → List Frame → Prop where
  | nil : Stacked [] []
  | cons {m : MethodRef} {b : MethodBody} {ms : List MethodRef} {os : List MemberRef} {d : Nat}
      {fs : List Frame} (hb : w.loaded.methodBody? m = some b) (hos : os <:+ b.operands)
      (hd : d = fs.length) (hx : d < w.policy.limits.maxDepth) (h : Stacked ms fs) :
      Stacked (m :: ms) (⟨os, d⟩ :: fs)

variable {w} {ms : List MethodRef} {os : List MemberRef} {d : Nat} {fs : List Frame}

lemma Stacked.length_eq (h : w.Stacked ms fs) : ms.length = fs.length := by
  induction h with
  | nil => rfl
  | cons _ _ _ _ _ ih => simp [ih]

lemma Stacked.tail (h : w.Stacked (m :: ms) (⟨os, d⟩ :: fs)) : w.Stacked ms fs := by
  cases h with
  | cons _ _ _ _ h => exact h

lemma Stacked.advance (h : w.Stacked ms (⟨o :: os, d⟩ :: fs)) :
    w.Stacked ms (⟨os, d⟩ :: fs) := by
  cases h with
  | cons hb hos hd hx h => exact .cons hb ((List.suffix_cons o os).trans hos) hd hx h

lemma Stacked.depth_eq (h : w.Stacked ms (⟨os, d⟩ :: fs)) : d = fs.length := by
  cases h with
  | cons _ _ hd _ _ => exact hd

lemma Stacked.length_le (h : w.Stacked ms fs) : ms.length ≤ w.policy.limits.maxDepth := by
  cases h with
  | nil => exact Nat.zero_le _
  | cons _ _ hd hx h =>
    rw [List.length_cons, h.length_eq, ← hd]
    exact hx

/-- The operand on top of the stack belongs to the method on top of the trail. -/
lemma Stacked.exists_operand (h : w.Stacked ms (⟨o :: os, d⟩ :: fs)) :
    ∃ m ms' b, ms = m :: ms' ∧ w.loaded.methodBody? m = some b ∧ o ∈ b.operands := by
  cases h with
  | cons hb hos hd hx h => exact ⟨_, _, _, rfl, hb, hos.subset List.mem_cons_self⟩

/-! ### The invariant -/

variable (w)

/-- The state of a walk from `root` with the methods that were `entered` and those on the stack,
the `trail`. -/
structure Progress (root : MethodRef) (s : State) (entered trail : List MethodRef) : Prop where
  visited : s.visited = entered.map MethodRef.fullName
  distinct : (entered.map MethodRef.fullName).Nodup
  within : entered.length ≤ w.policy.limits.maxMethods
  reached : ∀ m ∈ entered, m ∈ w.region root
  searched : ∀ m ∈ entered, w.Searched s m
  sublist : trail.Sublist entered
  chain : trail.IsChain fun n m => w.Descends m n
  start : ∀ m ∈ trail.getLast?, m = root
  stacked : w.Stacked trail s.stack

variable {w} {entered trail : List MethodRef}

/-- Nothing was entered yet. -/
lemma progress_initial (w : Walk) (root : MethodRef) : w.Progress root .initial [] [] where
  visited := rfl
  distinct := .nil
  within := Nat.zero_le _
  reached := by simp
  searched := by simp
  sublist := .slnil
  chain := .nil
  start := by simp
  stacked := .nil

/-- A method that extends a trail of entered methods lies in the region. -/
lemma Progress.mem_region (h : w.Progress root s entered trail)
    (hb : w.loaded.methodBody? n = some b)
    (hchain : (n :: trail).IsChain fun n m => w.Descends m n)
    (hstart : ∀ m ∈ (n :: trail).getLast?, m = root) : n ∈ w.region root := by
  match trail with
  | [] =>
    obtain rfl : n = root := hstart n rfl
    exact mem_region_self hb
  | m :: ms =>
    have hm : m ∈ entered := h.sublist.subset List.mem_cons_self
    exact mem_region_of_descends (h.reached m hm) (List.isChain_cons_cons.mp hchain).1 hb

/-- Entering a new method at the end of the trail. The stack below it may have moved on since. -/
lemma Progress.enter {stack : List Frame} (h : w.Progress root s entered trail)
    (hstack : w.Stacked trail stack) (hb : w.loaded.methodBody? n = some b)
    (hv : n.fullName ∉ s.visited) (hd : stack.length < w.policy.limits.maxDepth)
    (hm : s.visited.length < w.policy.limits.maxMethods)
    (hl : ∀ l ∈ b.locals, w.pattern.inLocal l.varType = false)
    (hchain : (n :: trail).IsChain fun n m => w.Descends m n)
    (hstart : ∀ m ∈ (n :: trail).getLast?, m = root)
    (hs' : s' = ⟨⟨b.operands, stack.length⟩ :: stack, n.fullName :: s.visited, s.truncated⟩)
    (hsearched : ∀ m ∈ entered, w.Searched s' m) :
    w.Progress root s' (n :: entered) (n :: trail) where
  visited := by rw [hs', h.visited, List.map_cons]
  distinct := by
    rw [List.map_cons, List.nodup_cons, ← h.visited]
    exact ⟨hv, h.visited ▸ h.distinct⟩
  within := by
    rw [h.visited, List.length_map] at hm
    exact hm
  reached := List.forall_mem_cons.mpr ⟨h.mem_region hb hchain hstart, h.reached⟩
  searched := by
    refine List.forall_mem_cons.mpr ⟨⟨b, hb, hl, fun o ho => .inl ?_⟩, hsearched⟩
    exact ⟨⟨b.operands, stack.length⟩, by simp [hs'], ho⟩
  sublist := h.sublist.cons_cons n
  chain := hchain
  start := hstart
  stacked := by
    rw [hs']
    exact .cons hb (List.suffix_refl _) rfl hd hstack

/-- The call on top of the stack extends the trail. -/
lemma Progress.extend {v : List String} {t : Bool}
    (h : w.Progress root ⟨⟨.method n :: os, d⟩ :: fs, v, t⟩ entered trail)
    (hr : w.react (.method n) = .descend n) :
    (n :: trail).IsChain (fun n m => w.Descends m n) ∧
      ∀ m ∈ (n :: trail).getLast?, m = root := by
  obtain ⟨m, ms, b, rfl, hb, hmem⟩ := h.stacked.exists_operand
  constructor
  · exact List.isChain_cons_cons.mpr ⟨(descends_iff hb).mpr ⟨hmem, hr⟩, h.chain⟩
  · rw [List.getLast?_cons_cons]
    exact h.start

/-- Taking an operand off the frame on top, when all that was entered stays searched. -/
lemma Progress.advance {v : List String} {t t' : Bool}
    (h : w.Progress root ⟨⟨o :: os, d⟩ :: fs, v, t⟩ entered trail)
    (hsearched : ∀ m ∈ entered, w.Searched ⟨⟨os, d⟩ :: fs, v, t'⟩ m) :
    w.Progress root ⟨⟨os, d⟩ :: fs, v, t'⟩ entered trail :=
  { h with searched := hsearched, stacked := h.stacked.advance }

/-- Leaving the method on top of the stack. -/
lemma Progress.leave {v : List String} {t : Bool}
    (h : w.Progress root ⟨⟨[], d⟩ :: fs, v, t⟩ entered trail)
    (hsearched : ∀ m ∈ entered, w.Searched ⟨fs, v, t⟩ m) :
    w.Progress root ⟨fs, v, t⟩ entered trail.tail := by
  obtain ⟨hvis, hnd, hin, hre, -, hsub, hch, hst, hstk⟩ := h
  match trail, hstk with
  | m :: ms, hstk =>
    refine ⟨hvis, hnd, hin, hre, hsearched, ?_, hch.tail, ?_, hstk.tail⟩
    · exact (List.sublist_cons_self m ms).trans hsub
    · intro x hx
      exact hst x (List.mem_getLast?_cons hx)

/-- Going into the method that the operand on top of the stack calls. -/
lemma Progress.descend {v : List String} {t : Bool}
    (h : w.Progress root ⟨⟨.method n :: os, d⟩ :: fs, v, t⟩ entered trail)
    (hr : w.react (.method n) = .descend n) (hb : w.loaded.methodBody? n = some b)
    (hv : n.fullName ∉ v) (hd : d + 1 < w.policy.limits.maxDepth)
    (hm : v.length < w.policy.limits.maxMethods)
    (hl : ∀ l ∈ b.locals, w.pattern.inLocal l.varType = false)
    (hsearched : ∀ m ∈ entered,
      w.Searched ⟨⟨b.operands, d + 1⟩ :: ⟨os, d⟩ :: fs, n.fullName :: v, t⟩ m) :
    w.Progress root ⟨⟨b.operands, d + 1⟩ :: ⟨os, d⟩ :: fs, n.fullName :: v, t⟩ (n :: entered)
      (n :: trail) := by
  obtain ⟨hchain, hstart⟩ := h.extend hr
  obtain rfl := h.stacked.depth_eq
  exact h.enter h.stacked.advance hb hv hd hm hl hchain hstart rfl hsearched

/-- Every turn keeps the invariant, and forgets no method that was entered. -/
theorem Progress.turn (h : w.Progress root s entered trail) (ht : w.Turn s s') :
    ∃ entered' trail', w.Progress root s' entered' trail' ∧ entered ⊆ entered' := by
  have hsearched : ∀ m ∈ entered, w.Searched s' m := fun m hm => (h.searched m hm).turn ht
  -- Only leaving a method and entering one change the trail.
  cases ht with
  | leave => exact ⟨entered, trail.tail, h.leave hsearched, List.Subset.refl _⟩
  | pass ho => exact ⟨entered, trail, h.advance hsearched, List.Subset.refl _⟩
  | refuse hr hb hv hx => exact ⟨entered, trail, h.advance hsearched, List.Subset.refl _⟩
  | @enter n b os d fs v t hr hb hv hd hm hl =>
    exact ⟨n :: entered, n :: trail, h.descend hr hb hv hd hm hl hsearched,
      List.subset_cons_self _ _⟩

end AssemblyPolicy.Walk
