import AssemblyPolicy.Metadata.AssemblySet
import AssemblyPolicy.Policy.Basic

/-!
# The search through called methods

A walk looks for a pattern in a method and in the methods it calls, depth first over an explicit
stack, since call chains may be arbitrarily long. Each method is entered once. `Walk.step` takes one
operand, `Walk.run` repeats it; every entry uses up one of the methods the limits allow, so the walk
ends.
-/

namespace AssemblyPolicy

/-- What a walk looks for, in operands and in local variables. -/
structure Pattern where
  inOperand : MemberRef → Bool
  inLocal : TypeRef → Bool

/-- The outcome of a walk. -/
inductive Presence where
  | present
  | absent
  /-- A limit was hit before the pattern was found. -/
  | truncated
  deriving DecidableEq

def Presence.name : Presence → String
  | present => "present"
  | absent => "absent"
  | truncated => "truncated"

structure Walk where
  pattern : Pattern
  policy : Policy
  loaded : AssemblySet
  /-- The assembly of the method the walk starts from. Its own members are never beyond a
  boundary. -/
  candidate : String

namespace Walk

/-- A method that is being searched: the operands left, and its distance from the start. -/
structure Frame where
  operands : List MemberRef
  depth : Nat

structure State where
  stack : List Frame
  visited : List String
  truncated : Bool

/-- The state before the first method is entered. -/
def State.initial : State := ⟨[], [], false⟩

/-- What an operand calls for. -/
inductive Reaction where
  | found
  | descend (callee : MethodRef)
  | skip

/-- The state after a step, if the pattern was not found in it. -/
inductive Outcome where
  | found
  | next (s : State)

variable (w : Walk)

/-- Is the member part of the assembly where the walk starts? -/
def owns (m : MemberRef) : Bool := m.assembly = w.candidate

/-- Does a reference to the member count? -/
def regards (m : MemberRef) : Bool := w.owns m || !w.policy.isInterface m.assembly

/-- May the walk go into the member? -/
def admits (m : MemberRef) : Bool :=
  w.owns m || (!w.policy.isTrusted m.assembly && !w.policy.isExempt m.subject.ns)

def react (m : MemberRef) : Reaction :=
  if !w.regards m then .skip
  else if w.pattern.inOperand m then .found
  else match m with
    | .method callee => if w.admits m then .descend callee else .skip
    | _ => .skip

/-- Has a limit been reached at this depth? -/
def exhausted (s : State) (depth : Nat) : Bool :=
  w.policy.limits.maxDepth ≤ depth || w.policy.limits.maxMethods ≤ s.visited.length

/-- Enter a method, unless it has no body or was entered before. -/
def enter (s : State) (m : MethodRef) (depth : Nat) : Outcome :=
  match w.loaded.methodBody? m with
  | none => .next s
  | some body =>
    if m.fullName ∈ s.visited then .next s
    else if w.exhausted s depth then .next { s with truncated := true }
    else if body.locals.any fun l => w.pattern.inLocal l.varType then .found
    else .next ⟨⟨body.operands, depth⟩ :: s.stack, m.fullName :: s.visited, s.truncated⟩

/-- Take the next operand of the method on top of the stack, or leave that method; nothing when the
stack is empty. -/
def step (s : State) : Option Outcome :=
  match s.stack with
  | [] => none
  | ⟨[], _⟩ :: stack => some (.next { s with stack })
  | ⟨m :: operands, depth⟩ :: stack =>
    let s := { s with stack := ⟨operands, depth⟩ :: stack }
    match w.react m with
    | .found => some .found
    | .skip => some (.next s)
    | .descend callee => some (w.enter s callee (depth + 1))

/-! ### Termination -/

/-- The operands left, and the frames to leave. -/
def State.load (s : State) : Nat := s.stack.foldr (fun f n => f.operands.length + 1 + n) 0

/-- How many methods may still be entered. -/
def allowance (s : State) : Nat := w.policy.limits.maxMethods - s.visited.length

/-- Entering a method uses up some of the allowance, or leaves the stack as it is. -/
theorem enter_decreases {s s' : State} {m : MethodRef} {depth : Nat}
    (h : w.enter s m depth = .next s') :
    w.allowance s' < w.allowance s ∨ w.allowance s' = w.allowance s ∧ s'.load = s.load := by
  unfold enter at h
  split at h
  · cases h; exact .inr ⟨rfl, rfl⟩
  · split at h
    · cases h; exact .inr ⟨rfl, rfl⟩
    · split at h
      · cases h; exact .inr ⟨rfl, rfl⟩
      · split at h
        · cases h
        · rename_i hx _
          cases h
          simp only [exhausted, Bool.or_eq_true, decide_eq_true_eq, not_or, Nat.not_le] at hx
          left
          simp only [allowance, List.length_cons]
          omega

/-- Every step uses up some of the allowance or takes something off the stack. -/
theorem step_decreases {s s' : State} (h : w.step s = some (.next s')) :
    w.allowance s' < w.allowance s ∨ w.allowance s' = w.allowance s ∧ s'.load < s.load := by
  unfold step at h
  split at h
  · cases h
  · rename_i hs
    cases h
    simp [allowance, State.load, hs]
  · rename_i m operands depth stack hs
    have hload : State.load { s with stack := ⟨operands, depth⟩ :: stack } < s.load := by
      simp [State.load, hs]
    split at h
    · cases h
    · cases h; exact .inr ⟨rfl, hload⟩
    · simp only [Option.some.injEq] at h
      rcases w.enter_decreases h with h | ⟨ha, hl⟩
      · exact .inl h
      · exact .inr ⟨ha, hl ▸ hload⟩

/-! ### Runs -/

/-- Repeat steps until the pattern is found or the stack is empty. -/
def run (s : State) : Outcome :=
  match h : w.step s with
  | none => .next s
  | some .found => .found
  | some (.next s') =>
    have := w.step_decreases h
    run s'
termination_by (w.allowance s, s.load)
decreasing_by
  rcases w.step_decreases h with h | ⟨ha, hl⟩
  · exact .left _ _ h
  · rw [ha]; exact .right _ hl

def Outcome.presence : Outcome → Presence
  | found => .present
  | next s => if s.truncated then .truncated else .absent

def search (m : MethodRef) : Presence :=
  match w.enter .initial m 0 with
  | .found => .present
  | .next s => (w.run s).presence

end Walk

/-- Is the pattern present in a method or in one that it calls, directly or not? -/
def presenceInCalls (p : Pattern) (policy : Policy) (s : AssemblySet) (m : MethodRef) : Presence :=
  Walk.search ⟨p, policy, s, m.declaringType.assembly⟩ m

end AssemblyPolicy
