import AssemblyPolicy.Proofs.Verification.Basic
import AssemblyPolicy.Proofs.Walk.Comparison

/-!
# Checks under wider boundaries

To trust more assemblies, to leave out more of the host or to exempt more namespaces takes calls away
from a walk, so it may lose uses and never gains one (`widening_adds_no_use`). The two walks visit
methods in different orders and hit their limits at different places. They are compared by what they
can reach.
-/

namespace AssemblyPolicy

open Walk

variable {policy policy' : Policy} {s : AssemblySet} {p : Pattern} {root : MethodRef}

/-- All boundaries of the one policy are boundaries of the other. -/
structure Policy.WidensTo (policy policy' : Policy) : Prop where
  trusted : ∀ name, policy.isTrusted name = true → policy'.isTrusted name = true
  interfaces : ∀ name, policy.isInterface name = true → policy'.isInterface name = true
  exempt : ∀ ns, policy.isExempt ns = true → policy'.isExempt ns = true

namespace Policy

lemma isTrusted_iff {name : String} :
    policy.isTrusted name = true ↔ ∃ g ∈ policy.trusted, g.isMatch name = true :=
  List.any_eq_true

lemma isInterface_iff {name : String} : policy.isInterface name = true ↔ name ∈ policy.interfaces := by
  simp [isInterface]

lemma isExempt_iff {ns : String} :
    policy.isExempt ns = true ↔ ∃ start ∈ policy.exempt, start.toList <+: ns.toList := by
  simp [isExempt, beginsWith]

/-- Longer lists are wider boundaries. -/
lemma widensTo_of_subset (htrusted : policy.trusted ⊆ policy'.trusted)
    (hinterfaces : policy.interfaces ⊆ policy'.interfaces)
    (hexempt : policy.exempt ⊆ policy'.exempt) : policy.WidensTo policy' where
  trusted name h := by
    obtain ⟨g, hg, hname⟩ := isTrusted_iff.mp h
    exact isTrusted_iff.mpr ⟨g, htrusted hg, hname⟩
  interfaces name h := isInterface_iff.mpr (hinterfaces (isInterface_iff.mp h))
  exempt ns h := by
    obtain ⟨start, hstart, hns⟩ := isExempt_iff.mp h
    exact isExempt_iff.mpr ⟨start, hexempt hstart, hns⟩

end Policy

namespace Policy.WidensTo

lemma trusted_eq_false (h : policy.WidensTo policy') (name : String) :
    policy'.isTrusted name = false → policy.isTrusted name = false := by
  simpa using mt (h.trusted name)

lemma interface_eq_false (h : policy.WidensTo policy') (name : String) :
    policy'.isInterface name = false → policy.isInterface name = false := by
  simpa using mt (h.interfaces name)

lemma exempt_eq_false (h : policy.WidensTo policy') (ns : String) :
    policy'.isExempt ns = false → policy.isExempt ns = false := by
  simpa using mt (h.exempt ns)

/-- Within wider boundaries a walk sees less. -/
lemma within (h : policy.WidensTo policy') (p : Pattern) (s : AssemblySet) (root : MethodRef) :
    (startingAt p policy' s root).Within (startingAt p policy s root) where
  body _ _ := id
  counts o ho := ho.imp id (h.interface_eq_false o.assembly)
  opens o ho := by
    refine ho.imp id ?_
    rintro ⟨hinterface, htrusted, hexempt⟩
    exact ⟨h.interface_eq_false _ hinterface, h.trusted_eq_false _ htrusted,
      h.exempt_eq_false _ hexempt⟩
  inOperand _ := id
  inLocal _ := id

/-- What is absent does not appear when boundaries are widened. -/
lemma presenceInCalls_ne_present (h : policy.WidensTo policy')
    (hinj : Set.InjOn MethodRef.fullName (s.named root))
    (habsent : presenceInCalls p policy s root = .absent) :
    presenceInCalls p policy' s root ≠ .present := by
  intro hpresent
  have hregion : (startingAt p policy s root).region root ⊆ s.named root :=
    fun _ => eq_or_mem_callees_of_mem_region
  exact (h.within p s root).search_ne_absent (hinj.mono hregion) hpresent habsent

end Policy.WidensTo

/-- Where full names tell methods apart, wider boundaries turn no absence into a presence, whatever
the limits: a prohibition that passes is not violated, and a requirement that is violated does not
pass. -/
theorem widening_adds_no_use (h : policy.WidensTo policy')
    (hinj : Set.InjOn MethodRef.fullName (s.named root)) :
    (∀ p : Pattern, presenceInCalls p policy s root = .absent →
      presenceInCalls p policy' s root ≠ .present) ∧
    (∀ r : Restriction, r.mode = .prohibited → r.verify policy s (.method root) = .pass →
      ∀ message, r.verify policy' s (.method root) ≠ .violation message) ∧
    ∀ (r : Restriction) (message : String), r.mode = .required →
      r.verify policy s (.method root) = .violation message →
        r.verify policy' s (.method root) ≠ .pass := by
  refine ⟨fun p => h.presenceInCalls_ne_present hinj, ?_, ?_⟩
  · intro r hmode hpass message hviolation
    obtain rfl := Restriction.message_of_verify hviolation
    have happlies := Restriction.appliesTo_of_verify hviolation
    rw [Restriction.verify_eq_judge happlies] at hpass hviolation
    exact h.presenceInCalls_ne_present hinj ((Restriction.judge_eq_pass_iff hmode).mp hpass)
      ((Restriction.judge_eq_violation_iff hmode).mp hviolation)
  · intro r message hmode hviolation hpass
    obtain rfl := Restriction.message_of_verify hviolation
    have happlies := Restriction.appliesTo_of_verify hviolation
    rw [Restriction.verify_eq_judge happlies] at hpass hviolation
    exact h.presenceInCalls_ne_present hinj
      ((Restriction.judge_required_eq_violation_iff hmode).mp hviolation)
      ((Restriction.judge_required_eq_pass_iff hmode).mp hpass)

/-! ### A vendor that becomes trusted -/

namespace TrustedVendor

def run : MethodRef := ⟨⟨"Mod", "Mod", "Plugin"⟩, "Run", "()"⟩

def helper : MethodRef := ⟨⟨"Vendor", "Vendor", "Lib"⟩, "Help", "()"⟩

def boom : MethodRef := ⟨⟨"Danger", "Danger", "Api"⟩, "Boom", "()"⟩

/-- A method calls one of the vendor, and that one a method that is not loaded. -/
def loaded : AssemblySet :=
  (AssemblySet.empty.insert ⟨none, "Mod", [⟨"Mod", "Plugin", none, [], [],
    [⟨"Run", "()", some ⟨[], [⟨0, "call", some (.method helper)⟩]⟩⟩]⟩]⟩).insert
      ⟨none, "Vendor", [⟨"Vendor", "Lib", none, [], [],
        [⟨"Help", "()", some ⟨[], [⟨0, "call", some (.method boom)⟩]⟩⟩]⟩]⟩

/-- The vendor is trusted, by its name. -/
def trusting : Policy :=
  { Policy.empty with trusted := [⟨"Vendor", "Vendor".toList.map .literal⟩] }

/-- Files are prohibited, or required. -/
def files (mode : Mode) : Restriction := ⟨.type ⟨"System.IO", "File"⟩, "files", none, mode, .error⟩

lemma presenceInCalls_eq_absent (mode : Mode) :
    presenceInCalls ((files mode).pattern loaded) .empty loaded run = .absent :=
  search_eq_of_searchWithin (n := 5) rfl

lemma injOn_named : Set.InjOn MethodRef.fullName (loaded.named run) := by
  refine injOn_fullName_of_nodup ?_ (by decide : ([run, helper, boom].map MethodRef.fullName).Nodup)
  rintro n (rfl | hn)
  · exact List.mem_cons_self
  · exact List.mem_cons_of_mem _ hn

/-- Trust in the vendor neither breaks the prohibition nor meets the requirement. -/
theorem widening_adds_no_use_vendor :
    presenceInCalls ((files .prohibited).pattern loaded) trusting loaded run ≠ .present ∧
      (files .prohibited).verify trusting loaded (.method run) ≠ .violation "files" ∧
      (files .required).verify trusting loaded (.method run) ≠ .pass := by
  have hwide : Policy.empty.WidensTo trusting :=
    Policy.widensTo_of_subset (List.nil_subset _) (List.Subset.refl _) (List.Subset.refl _)
  obtain ⟨hpresence, hprohibited, hrequired⟩ := widening_adds_no_use hwide injOn_named
  have hpass : (files .prohibited).verify .empty loaded (.method run) = .pass := by
    rw [Restriction.verify_eq_judge rfl, Restriction.judge_eq_pass_iff rfl]
    exact presenceInCalls_eq_absent .prohibited
  have hviolation : (files .required).verify .empty loaded (.method run) = .violation "files" := by
    rw [Restriction.verify_eq_judge rfl]
    exact (Restriction.judge_required_eq_violation_iff rfl).mpr (presenceInCalls_eq_absent .required)
  exact ⟨hpresence _ (presenceInCalls_eq_absent .prohibited), hprohibited _ rfl hpass "files",
    hrequired _ "files" rfl hviolation⟩

end TrustedVendor

end AssemblyPolicy
