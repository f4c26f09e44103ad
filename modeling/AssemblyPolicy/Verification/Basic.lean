import AssemblyPolicy.Policy.Presence
import AssemblyPolicy.Walk.Basic

/-!
# Checking one restriction against one member

`Restriction.verify` combines three questions: does the restriction apply to the member, is its
target present there, and what does its mode make of that.
-/

namespace AssemblyPolicy

/-- The result of checking a restriction against a member. -/
inductive Result where
  | pass
  /-- The restriction is violated; its message is given. -/
  | violation (message : String)
  /-- A limit was hit before the answer was known. -/
  | inconclusive
  deriving DecidableEq

namespace Restriction

/-- What a walk looks for on behalf of the restriction. -/
def pattern (r : Restriction) (s : AssemblySet) : Pattern where
  inOperand m := r.target.isIn s m
  inLocal t := r.target.isInLocal t

/-- Does the restriction apply to a member? With a scope it applies to the proper subtypes of that
type and their members; a scope without a name is none. -/
def appliesTo (r : Restriction) (s : AssemblySet) (m : MemberRef) : Bool :=
  match r.scope with
  | none => true
  | some base => base.name.isEmpty || s.inherits m.subject base

/-- Is the target present in the member? Methods are searched with all they call. -/
def presence (r : Restriction) (policy : Policy) (s : AssemblySet) : MemberRef → Presence
  | .method m => presenceInCalls (r.pattern s) policy s m
  | m => if r.target.isIn s m then .present else .absent

/-- What a presence means for the restriction. -/
def judge (r : Restriction) : Presence → Result
  | .truncated => .inconclusive
  | .present =>
    match r.mode with
    | .prohibited => .violation r.message
    | .required => .pass
  | .absent =>
    match r.mode with
    | .prohibited => .pass
    | .required => .violation r.message

def verify (r : Restriction) (policy : Policy) (s : AssemblySet) (m : MemberRef) : Result :=
  if r.appliesTo s m then r.judge (r.presence policy s m) else .pass

end Restriction

end AssemblyPolicy
