import AssemblyPolicy.Proofs.Metadata.Name
import AssemblyPolicy.Proofs.Text.Split
import AssemblyPolicy.Proofs.Walk.History

/-!
# Methods and their full names

A walk knows the methods that it has entered by their full names, in which an assembly, a namespace,
two names and a signature stand side by side. A full name of a well-named method can be taken apart
again (`MethodRef.WellNamed.eq_of_fullName_eq`), so that a walk among such methods passes over none but
those that it has entered (`fullName_faithful`).
-/

namespace AssemblyPolicy

open Walk

namespace MethodRef

/-- Names as compiled assemblies have them: none has a character in it that sets it off in the full
name, and a signature that is not empty begins with a parenthesis. -/
structure WellNamed (m : MethodRef) : Prop where
  assembly : ']' ∉ m.declaringType.assembly.toList
  ns : ':' ∉ m.declaringType.ns.toList
  typeName : ':' ∉ m.declaringType.name.toList
  simple : '.' ∉ m.declaringType.name.toList
  method : '(' ∉ m.name.toList
  signature : m.signature = "" ∨ beginsWith "(" m.signature = true

instance : DecidablePred WellNamed := fun m =>
  decidable_of_iff (']' ∉ m.declaringType.assembly.toList ∧ ':' ∉ m.declaringType.ns.toList ∧
      ':' ∉ m.declaringType.name.toList ∧ '.' ∉ m.declaringType.name.toList ∧
      '(' ∉ m.name.toList ∧ (m.signature = "" ∨ beginsWith "(" m.signature = true))
    ⟨fun ⟨h₁, h₂, h₃, h₄, h₅, h₆⟩ => ⟨h₁, h₂, h₃, h₄, h₅, h₆⟩,
      fun h => ⟨h.assembly, h.ns, h.typeName, h.simple, h.method, h.signature⟩⟩

/-! ### The parts of a full name -/

variable {a b m : MethodRef}

lemma toList_fullName (m : MethodRef) :
    m.fullName.toList = '[' :: (m.declaringType.assembly.toList ++ ']' ::
      (m.declaringType.typeName.text.toList ++ ':' :: ':' ::
        (m.name.toList ++ m.signature.toList))) := by
  simp [fullName, TypeRef.fullName]

/-- The assembly comes before what the method is called in it. -/
lemma fullName_eq (m : MethodRef) : m.fullName =
    "[" ++ m.declaringType.assembly ++ "]" ++ (MemberRef.method m).qualifiedName := by
  simp [fullName, MemberRef.qualifiedName, String.append_assoc]

lemma WellNamed.notMem_text (h : m.WellNamed) : ':' ∉ m.declaringType.typeName.text.toList :=
  TypeName.notMem_text (by decide) h.ns h.typeName

lemma WellNamed.ofDotted_text (h : m.WellNamed) :
    TypeName.ofDotted m.declaringType.typeName.text = m.declaringType.typeName :=
  TypeName.ofDotted_text_iff.mpr h.simple

lemma WellNamed.eq_paren_of_mem_head? (h : m.WellNamed) :
    ∀ c ∈ m.signature.toList.head?, c = '(' := by
  intro c hc
  rcases h.signature with hempty | hparen
  · rw [hempty] at hc
    cases hc
  · obtain ⟨rest, hrest⟩ := List.isPrefixOf_iff_prefix.mp hparen
    rw [← hrest] at hc
    exact (Option.some.inj hc).symm

/-- Full names tell well-named methods apart. -/
lemma WellNamed.eq_of_fullName_eq (ha : a.WellNamed) (hb : b.WellNamed)
    (h : a.fullName = b.fullName) : a = b := by
  have hlist := congrArg String.toList h
  rw [toList_fullName, toList_fullName] at hlist
  -- The text is cut from the left: at the bracket, at the colons and at the parenthesis.
  obtain ⟨hassembly, hrest⟩ := eq_and_eq_of_append_eq ha.assembly hb.assembly (by simp) (by simp)
    (List.cons.inj hlist).2
  obtain ⟨htext, hrest⟩ := eq_and_eq_of_append_eq ha.notMem_text hb.notMem_text (by simp) (by simp)
    (List.cons.inj hrest).2
  obtain ⟨hname, hsignature⟩ := eq_and_eq_of_append_eq ha.method hb.method
    ha.eq_paren_of_mem_head? hb.eq_paren_of_mem_head? (List.cons.inj (List.cons.inj hrest).2).2
  have htype : a.declaringType.typeName = b.declaringType.typeName :=
    calc a.declaringType.typeName
      _ = .ofDotted a.declaringType.typeName.text := ha.ofDotted_text.symm
      _ = .ofDotted b.declaringType.typeName.text := by rw [String.toList_injective htext]
      _ = b.declaringType.typeName := hb.ofDotted_text
  obtain ⟨⟨assembly, ns, typeName⟩, name, signature⟩ := a
  obtain ⟨⟨assembly', ns', typeName'⟩, name', signature'⟩ := b
  obtain rfl := String.toList_injective hassembly
  obtain ⟨rfl, rfl⟩ := TypeName.mk.inj htype
  obtain rfl := String.toList_injective hname
  obtain rfl := String.toList_injective hsignature
  rfl

end MethodRef

/-! ### Walks among well-named methods -/

namespace Walk

variable {w : Walk} {root m : MethodRef} {n : Nat} {s : State}

/-- Among well-named methods, a walk takes for entered just the methods that it has entered. -/
lemma fullName_mem_visited_iff (hregion : ∀ m ∈ w.region root, m.WellNamed)
    (hs : (w.after root n).outcome = .next s) (hm : m.WellNamed) :
    m.fullName ∈ s.visited ↔ m ∈ (w.after root n).history.entered := by
  have hbounded := (w.kept_after root n).bounded
  rw [(hbounded.state s hs).1, List.mem_map]
  constructor
  · rintro ⟨e, he, hname⟩
    have hnamed := hregion e (hbounded.history.reached e he)
    exact hnamed.eq_of_fullName_eq hm hname ▸ he
  · intro hentered
    exact ⟨m, hentered, rfl⟩

/-- Among well-named methods, what a search does not find is nowhere. -/
theorem not_hit_of_wellNamed (hregion : ∀ m ∈ w.region root, m.WellNamed)
    (hs : w.search root = .absent) : ∀ m ∈ w.region root, ¬ w.Hit m := by
  have hinj : Set.InjOn MethodRef.fullName (w.region root) := fun a ha b hb =>
    (hregion a ha).eq_of_fullName_eq (hregion b hb)
  exact not_hit_of_search_eq_absent hinj hs

end Walk

/-- A full name of a type is read back when there is no dot in the simple name, full names tell
well-named methods apart, and at every moment of a walk among such methods those that count as
visited are those that it has entered. -/
theorem fullName_faithful :
    (∀ n : TypeName, TypeName.ofDotted n.text = n ↔ '.' ∉ n.name.toList) ∧
    (∀ a b : MethodRef, a.WellNamed → b.WellNamed → (a.fullName = b.fullName ↔ a = b)) ∧
    ∀ (w : Walk) (root : MethodRef), (∀ m ∈ w.region root, m.WellNamed) →
      ∀ n s, (w.after root n).outcome = .next s → ∀ m : MethodRef, m.WellNamed →
        (m.fullName ∈ s.visited ↔ m ∈ (w.after root n).history.entered) := by
  refine ⟨fun _ => TypeName.ofDotted_text_iff, fun a b ha hb => ?_, ?_⟩
  · exact ⟨ha.eq_of_fullName_eq hb, congrArg MethodRef.fullName⟩
  · intro w root hregion n s hs m hm
    exact fullName_mem_visited_iff hregion hs hm

/-- No condition can be left out: each second method breaks one of them and has the full name of the
first. -/
example : ∀ p ∈ ([
    (⟨⟨"A", "", "B]C"⟩, "Go", "()"⟩, ⟨⟨"A]B", "", "C"⟩, "Go", "()"⟩),
    (⟨⟨"A", "", "N"⟩, "M.T::Go", "()"⟩, ⟨⟨"A", "N::M", "T"⟩, "Go", "()"⟩),
    (⟨⟨"A", "", "T"⟩, "M::Go", "()"⟩, ⟨⟨"A", "", "T::M"⟩, "Go", "()"⟩),
    (⟨⟨"A", "N.M", "T"⟩, "Go", "()"⟩, ⟨⟨"A", "N", "M.T"⟩, "Go", "()"⟩),
    (⟨⟨"A", "", "T"⟩, "Go", "()"⟩, ⟨⟨"A", "", "T"⟩, "Go()", ""⟩),
    (⟨⟨"A", "", "T"⟩, "Going", ""⟩, ⟨⟨"A", "", "T"⟩, "Go", "ing"⟩)] :
      List (MethodRef × MethodRef)),
    p.1.WellNamed ∧ p.1 ≠ p.2 ∧ p.1.fullName = p.2.fullName := by
  decide

/-! ### Two overloads -/

namespace Overloads

def plugin : TypeRef := ⟨"Mod", "Mod.Core", "Plugin"⟩

def run : MethodRef := ⟨plugin, "Run", "()"⟩

/-- The other overload takes a text. -/
def runText : MethodRef := ⟨plugin, "Run", "(System.String)"⟩

/-- The first overload calls the second. -/
def loaded : AssemblySet :=
  AssemblySet.empty.insert ⟨none, "Mod", [⟨"Mod.Core", "Plugin", none, [], [],
    [⟨"Run", "()", some ⟨[], [⟨0, "call", some (.method runText)⟩]⟩⟩,
      ⟨"Run", "(System.String)", some ⟨[], []⟩⟩]⟩]⟩

def walk : Walk := startingAt ⟨fun _ => false, fun _ => false⟩ .empty loaded run

lemma wellNamed_of_mem_region : ∀ m ∈ walk.region run, m.WellNamed := by
  have hcallees : loaded.callees = [runText] := rfl
  intro m hm
  rcases eq_or_mem_callees_of_mem_region hm with rfl | hcall
  · decide
  · obtain rfl := List.mem_singleton.mp (hcallees ▸ hcall : m ∈ [runText])
    decide

/-- The overloads have different full names, and when the walk has entered the first it has yet to
enter the second. -/
theorem fullName_overloads :
    TypeName.ofDotted "Mod.Core.Plugin" = ⟨"Mod.Core", "Plugin"⟩ ∧
      run.WellNamed ∧ runText.WellNamed ∧ run.fullName ≠ runText.fullName ∧
      ∃ s, (walk.after run 0).outcome = .next s ∧ run.fullName ∈ s.visited ∧
        runText.fullName ∉ s.visited := by
  obtain ⟨hread, hnames, hvisited⟩ := fullName_faithful
  have hrun : run.WellNamed := by decide
  have htext : runText.WellNamed := by decide
  have hentered : (walk.after run 0).history.entered = [run] := rfl
  have hmem := hvisited walk run wellNamed_of_mem_region 0 _ rfl
  refine ⟨(hread ⟨"Mod.Core", "Plugin"⟩).mpr (by decide), hrun, htext, ?_, _, rfl, ?_, ?_⟩
  · exact mt (hnames run runText hrun htext).mp (by decide)
  · rw [hmem run hrun, hentered]
    exact List.mem_singleton_self run
  · rw [hmem runText htext, hentered]
    decide

end Overloads

end AssemblyPolicy
