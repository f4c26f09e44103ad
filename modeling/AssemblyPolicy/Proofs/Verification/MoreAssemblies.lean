import AssemblyPolicy.Proofs.Metadata.Extension
import AssemblyPolicy.Proofs.Verification.Basic
import AssemblyPolicy.Proofs.Walk.Comparison

/-!
# Checks with more assemblies loaded

A reference that does not resolve is passed over, so what is loaded decides what a check can see.
Loading more only adds to it: base types, bodies of methods, and uses. A violated prohibition is
therefore never forgiven for an assembly that is loaded besides (`violation_survives_foldl_insert`),
though the limits of the walk may then be hit before the use is met.
-/

namespace AssemblyPolicy

open Walk

variable {s s' : AssemblySet} {policy : Policy} {r : Restriction} {m : MemberRef}

/-! ### What more assemblies add -/

namespace AssemblySet.Extends

/-- What uses a target in a set uses it in a larger one. -/
lemma isIn (h : s'.Extends s) {target : Target} (hm : target.isIn s m = true) :
    target.isIn s' m = true := by
  cases target with
  | inheritance base =>
    cases m with
    | type t => exact h.inherits hm
    | _ => cases hm
  | _ => exact hm

/-- A restriction that applies to a member still applies to it. -/
lemma appliesTo (h : s'.Extends s) (hm : r.appliesTo s m = true) : r.appliesTo s' m = true := by
  cases hscope : r.scope with
  | none => simp [Restriction.appliesTo, hscope]
  | some base =>
    simp only [Restriction.appliesTo, hscope, Bool.or_eq_true] at hm ⊢
    exact hm.imp id h.inherits

lemma within (h : s'.Extends s) (r : Restriction) (policy : Policy) (root : MethodRef) :
    (startingAt (r.pattern s) policy s root).Within (startingAt (r.pattern s') policy s' root) where
  body _ _ := h.methodBody?_eq_some
  counts _ := id
  opens _ := id
  inOperand _ := h.isIn
  inLocal _ := id

end AssemblySet.Extends

/-! ### Checks -/

/-- The methods that the bodies of a set refer to, and the member itself if it is one. -/
def AssemblySet.namedWith (s : AssemblySet) (m : MemberRef) : Set MethodRef :=
  {n | m = .method n ∨ n ∈ s.callees}

lemma AssemblySet.region_subset_namedWith {p : Pattern} {root : MethodRef} :
    (startingAt p policy s root).region root ⊆ s.namedWith (.method root) := by
  intro n hn
  rcases eq_or_mem_callees_of_mem_region hn with rfl | hn
  · exact .inl rfl
  · exact .inr hn

lemma AssemblySet.Extends.presence_ne_absent (h : s'.Extends s)
    (hinj : Set.InjOn MethodRef.fullName (s'.namedWith m))
    (hpresent : r.presence policy s m = .present) : r.presence policy s' m ≠ .absent := by
  cases m with
  | method root =>
    exact (h.within r policy root).search_ne_absent
      (hinj.mono AssemblySet.region_subset_namedWith) hpresent
  | _ =>
    have hin := (r.presence_eq_present_iff policy s (by simp)).mp hpresent
    simp [(r.presence_eq_present_iff policy s' (by simp)).mpr (h.isIn hin)]

/-- A prohibition that is violated stays so, or is left open. -/
lemma AssemblySet.Extends.verify_of_violation (h : s'.Extends s) (hmode : r.mode = .prohibited)
    (hinj : Set.InjOn MethodRef.fullName (s'.namedWith m)) {message : String}
    (hv : r.verify policy s m = .violation message) :
    r.verify policy s' m = .violation message ∨ r.verify policy s' m = .inconclusive := by
  obtain rfl := Restriction.message_of_verify hv
  have happlies := Restriction.appliesTo_of_verify hv
  rw [Restriction.verify_eq_judge happlies, Restriction.judge_eq_violation_iff hmode] at hv
  have habsent := h.presence_ne_absent hinj hv
  rw [Restriction.verify_eq_judge (h.appliesTo happlies), Restriction.judge_eq_violation_iff hmode,
    Restriction.judge_eq_inconclusive_iff hmode]
  cases hp : r.presence policy s' m with
  | present => exact .inl rfl
  | absent => exact absurd hp habsent
  | truncated => exact .inr rfl

/-- Assemblies with new names forgive no violation of a prohibition, where full names tell methods
apart, and take nothing out of the reach of a restriction or out of a hierarchy. -/
theorem violation_survives_foldl_insert (s : AssemblySet) (models : List AssemblyModel)
    (hnew : ∀ a ∈ models, s.find? a.name = none) :
    (∀ (policy : Policy) (r : Restriction) (m : MemberRef) (message : String),
      r.mode = .prohibited →
      Set.InjOn MethodRef.fullName ((models.foldl AssemblySet.insert s).namedWith m) →
      r.verify policy s m = .violation message →
        r.verify policy (models.foldl AssemblySet.insert s) m = .violation message ∨
          r.verify policy (models.foldl AssemblySet.insert s) m = .inconclusive) ∧
    (∀ (r : Restriction) (m : MemberRef), r.appliesTo s m = true →
      r.appliesTo (models.foldl AssemblySet.insert s) m = true) ∧
    ∀ (t : TypeRef) (base : TypeName), s.inherits t base = true →
      (models.foldl AssemblySet.insert s).inherits t base = true := by
  have h := AssemblySet.extends_foldl_insert hnew
  refine ⟨?_, ?_, ?_⟩
  · intro policy r m message hmode hinj hv
    exact h.verify_of_violation hmode hinj hv
  · intro r m
    exact h.appliesTo
  · intro t base
    exact h.inherits

/-! ### A library that is loaded later -/

namespace LateLibrary

def owner : TypeRef := ⟨"Mod", "Mod", "Plugin"⟩

def run : MethodRef := ⟨owner, "Run", "()"⟩

def delete : MethodRef := ⟨owner, "Delete", "()"⟩

def prepare : MethodRef := ⟨⟨"Lib", "Lib", "Helper"⟩, "Prepare", "()"⟩

/-- A method that calls one of the library, and then one with a local variable of type `File`. -/
def plugin : AssemblyModel :=
  ⟨none, "Mod", [⟨"Mod", "Plugin", some ⟨"Game", "Game", "Behaviour"⟩, [], [],
    [⟨"Run", "()", some ⟨[], [⟨0, "call", some (.method prepare)⟩,
        ⟨1, "call", some (.method delete)⟩]⟩⟩,
      ⟨"Delete", "()", some ⟨[⟨0, ⟨"mscorlib", "System.IO", "File"⟩⟩], []⟩⟩]⟩]⟩

def library : AssemblyModel :=
  ⟨none, "Lib", [⟨"Lib", "Helper", none, [], [], [⟨"Prepare", "()", some ⟨[], []⟩⟩]⟩]⟩

def loaded : AssemblySet := .insert .empty plugin

def behaviour : TypeName := ⟨"Game", "Behaviour"⟩

def noFiles : Restriction :=
  ⟨.type ⟨"System.IO", "File"⟩, "no files", some behaviour, .prohibited, .error⟩

/-- The walk may enter two methods, and of the three one belongs to the library. -/
def tight : Policy := { Policy.empty with limits := ⟨2, 2⟩ }

lemma inherits_behaviour : loaded.inherits owner behaviour = true :=
  AssemblySet.inheritsFrom_iff.mpr ⟨_, rfl, .inl rfl⟩

lemma verify_eq_violation :
    noFiles.verify tight loaded (.method run) = .violation "no files" := by
  have happlies : noFiles.appliesTo loaded (.method run) = true := inherits_behaviour
  have hpresent : presenceInCalls (noFiles.pattern loaded) tight loaded run = .present :=
    search_eq_of_searchWithin (n := 2) rfl
  rw [Restriction.verify_eq_judge happlies]
  exact (Restriction.judge_eq_violation_iff rfl).mpr hpresent

lemma injOn_namedWith :
    Set.InjOn MethodRef.fullName ((loaded.insert library).namedWith (.method run)) := by
  refine injOn_fullName_of_nodup ?_
    (by decide : ([run, prepare, delete].map MethodRef.fullName).Nodup)
  rintro n (hn | hn)
  · exact MemberRef.method.inj hn ▸ List.mem_cons_self
  · exact List.mem_cons_of_mem _ hn

/-- With the library loaded the use is still no pass, and the type still a subtype. -/
theorem violation_survives_library :
    (noFiles.verify tight (loaded.insert library) (.method run) = .violation "no files" ∨
      noFiles.verify tight (loaded.insert library) (.method run) = .inconclusive) ∧
    (loaded.insert library).inherits owner behaviour = true := by
  have hnew : ∀ a ∈ [library], loaded.find? a.name = none := by decide
  obtain ⟨hverify, -, hinherits⟩ := violation_survives_foldl_insert loaded [library] hnew
  exact ⟨hverify tight noFiles (.method run) "no files" rfl injOn_namedWith verify_eq_violation,
    hinherits owner behaviour inherits_behaviour⟩

end LateLibrary

end AssemblyPolicy
