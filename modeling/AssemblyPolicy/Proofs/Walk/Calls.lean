import AssemblyPolicy.Walk.Basic
import Mathlib.Data.Set.Card
import Mathlib.Logic.Relation

/-!
# Calls between methods

What a walk has to decide, said without the walk: `Walk.Hit` holds of the methods that use the
pattern themselves, `Walk.Calls` follows the calls that no boundary stops, and `Walk.region` holds
the methods to search, those with a body that lie at the end of such calls.
-/

namespace AssemblyPolicy

/-- The walk for a pattern that starts from a method. -/
def Walk.startingAt (p : Pattern) (policy : Policy) (s : AssemblySet) (m : MethodRef) : Walk :=
  ⟨p, policy, s, m.declaringType.assembly⟩

lemma presenceInCalls_eq_search (p : Pattern) (policy : Policy) (s : AssemblySet) (m : MethodRef) :
    presenceInCalls p policy s m = (Walk.startingAt p policy s m).search m := rfl

namespace Walk

variable (w : Walk)

/-! ### Boundaries -/

/-- References to members of the host do not count, unless the walk started in the host. -/
def Counts (o : MemberRef) : Prop :=
  o.assembly = w.candidate ∨ w.policy.isInterface o.assembly = false

/-- A member in which the walk may go on: it belongs to the assembly where the walk started, or is
beyond none of the three boundaries. -/
def Open (o : MemberRef) : Prop :=
  o.assembly = w.candidate ∨
    w.policy.isInterface o.assembly = false ∧ w.policy.isTrusted o.assembly = false ∧
      w.policy.isExempt o.subject.ns = false

variable {w}

lemma Open.counts {o : MemberRef} (h : w.Open o) : w.Counts o := h.imp id And.left

variable (w)

lemma regards_iff (o : MemberRef) : w.regards o = true ↔ w.Counts o := by
  simp [regards, owns, Counts]

lemma regards_and_admits_iff (o : MemberRef) :
    w.regards o = true ∧ w.admits o = true ↔ w.Open o := by
  simp only [regards, admits, owns, Open, Bool.or_eq_true, Bool.and_eq_true, decide_eq_true_eq,
    Bool.not_eq_true']
  tauto

/-! ### Reactions -/

lemma react_eq_found_iff (o : MemberRef) :
    w.react o = .found ↔ w.Counts o ∧ w.pattern.inOperand o = true := by
  rw [← regards_iff]
  cases o with
  | method n =>
    simp only [react]
    split_ifs <;> simp_all
  | _ =>
    simp only [react]
    split_ifs <;> simp_all

lemma react_eq_descend_iff (o : MemberRef) (n : MethodRef) :
    w.react o = .descend n ↔
      o = .method n ∧ w.Open o ∧ w.pattern.inOperand o = false := by
  rw [← regards_and_admits_iff]
  cases o with
  | method n' =>
    simp only [react]
    split_ifs <;> simp_all
  | _ =>
    simp only [react]
    split_ifs <;> simp_all

/-! ### Methods that use the pattern, and calls between methods -/

/-- The pattern occurs in a body: in the type of a local variable, or in a reference that counts. -/
def UsedIn (b : MethodBody) : Prop :=
  (∃ l ∈ b.locals, w.pattern.inLocal l.varType = true) ∨
    ∃ o ∈ b.operands, w.Counts o ∧ w.pattern.inOperand o = true

/-- A method with a body in which the pattern occurs. -/
def Hit (m : MethodRef) : Prop := ∃ b, w.loaded.methodBody? m = some b ∧ w.UsedIn b

/-- The method `m` has a body that refers to the method `n`, and no boundary stops the walk there. -/
def Calls (m n : MethodRef) : Prop :=
  ∃ b, w.loaded.methodBody? m = some b ∧ .method n ∈ b.operands ∧ w.Open (.method n)

/-- A call of a method that is not itself what the walk looks for. -/
def Descends (m n : MethodRef) : Prop := w.Calls m n ∧ w.pattern.inOperand (.method n) = false

/-- The methods to search for a walk from `root`: those with a body that calls lead to. -/
def region (root : MethodRef) : Set MethodRef :=
  {m | Relation.ReflTransGen w.Descends root m ∧ ∃ b, w.loaded.methodBody? m = some b}

variable {w} {root m n : MethodRef} {b : MethodBody}

lemma hit_iff (hb : w.loaded.methodBody? m = some b) : w.Hit m ↔ w.UsedIn b := by
  simp [Hit, hb]

lemma not_usedIn_iff : ¬ w.UsedIn b ↔
    (∀ l ∈ b.locals, w.pattern.inLocal l.varType = false) ∧
      ∀ o ∈ b.operands, w.react o ≠ .found := by
  simp [UsedIn, react_eq_found_iff]

lemma calls_iff (hb : w.loaded.methodBody? m = some b) :
    w.Calls m n ↔ .method n ∈ b.operands ∧ w.Open (.method n) := by
  simp [Calls, hb]

lemma descends_iff (hb : w.loaded.methodBody? m = some b) :
    w.Descends m n ↔ .method n ∈ b.operands ∧ w.react (.method n) = .descend n := by
  simp [Descends, calls_iff hb, react_eq_descend_iff, and_assoc]

/-- A method that calls another either uses the pattern by that or lets the walk descend. -/
lemma Calls.hit_or_descends (h : w.Calls m n) : w.Hit m ∨ w.Descends m n := by
  cases hp : w.pattern.inOperand (.method n) with
  | false => exact .inr ⟨h, hp⟩
  | true =>
    obtain ⟨b, hb, hmem, hopen⟩ := h
    exact .inl ⟨b, hb, .inr ⟨_, hmem, hopen.counts, hp⟩⟩

lemma mem_region_self (hb : w.loaded.methodBody? root = some b) : root ∈ w.region root :=
  ⟨.refl, b, hb⟩

lemma mem_region_of_descends (hm : m ∈ w.region root) (h : w.Descends m n)
    (hb : w.loaded.methodBody? n = some b) : n ∈ w.region root :=
  ⟨hm.1.tail h, b, hb⟩

/-! ### Paths of calls -/

variable {path : List MethodRef}

/-- A path of calls to a method with the pattern starts in a method with a body. -/
lemma exists_body_of_isChain (hchain : (m :: path).IsChain w.Calls)
    (hit : ∃ n ∈ (m :: path).getLast?, w.Hit n) : ∃ b, w.loaded.methodBody? m = some b := by
  cases path with
  | nil =>
    obtain ⟨n, hn, b, hb, -⟩ := hit
    obtain rfl : m = n := Option.some.inj hn
    exact ⟨b, hb⟩
  | cons n path =>
    obtain ⟨⟨b, hb, -⟩, -⟩ := List.isChain_cons_cons.mp hchain
    exact ⟨b, hb⟩

/-- A path of calls that leaves the region passes a method with the pattern first. -/
lemma exists_hit_of_isChain (hm : m ∈ w.region root) (hchain : (m :: path).IsChain w.Calls)
    (hit : ∃ n ∈ (m :: path).getLast?, w.Hit n) : ∃ n ∈ w.region root, w.Hit n := by
  induction path generalizing m with
  | nil =>
    obtain ⟨n, hn, hit⟩ := hit
    obtain rfl : m = n := Option.some.inj hn
    exact ⟨m, hm, hit⟩
  | cons n path ih =>
    obtain ⟨hcall, hchain⟩ := List.isChain_cons_cons.mp hchain
    rw [List.getLast?_cons_cons] at hit
    rcases hcall.hit_or_descends with h | h
    · exact ⟨m, hm, h⟩
    · obtain ⟨b, hb⟩ := exists_body_of_isChain hchain hit
      exact ih (mem_region_of_descends hm h hb) hchain hit

end Walk

end AssemblyPolicy
