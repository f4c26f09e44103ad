import AssemblyPolicy.Proofs.Configuration.Resolution
import AssemblyPolicy.Verification.Basic

/-!
# Scopes in configurations

The scope of an entry names a type, as its target may do, but it is not read like a target: blanks
around the name belong to it, and no scope is rejected. `Configuration.scope_of_resolve` says what
becomes of a scope, and when that is the type that the same text names as a target.
-/

namespace AssemblyPolicy

variable {s : String} {r : Restriction}

/-- A text that is not blank is a name as it stands if there are no blanks around it and it does not
end in a dot. -/
lemma TypeName.parse_eq_ok_ofDotted_iff (h : allBlank s = false) :
    TypeName.parse s = .ok (.ofDotted s) ↔ trim s = s ∧ s.toList.getLast? ≠ some '.' := by
  rw [parse_eq_ok_iff]
  constructor
  · rintro ⟨hname, hdotted⟩
    have htrim := eq_of_ofDotted_eq dot_mem_trim_iff.symm hdotted
    rw [IsName, ← htrim] at hname
    exact ⟨htrim.symm, hname.2⟩
  · rintro ⟨htrim, hlast⟩
    rw [IsName, htrim]
    exact ⟨⟨h, hlast⟩, rfl⟩

/-- What a scope that is not blank makes of a restriction. -/
structure Restriction.IsScopedBy (r : Restriction) (s : String) : Prop where
  scope : r.scope = some (.ofDotted s)
  /-- The scope is read like a target. -/
  parse : (∃ n, TypeName.parse s = .ok n ∧ r.scope = some n) ↔
    trim s = s ∧ s.toList.getLast? ≠ some '.'
  applies : ∀ (set : AssemblySet) (m : MemberRef), r.appliesTo set m = true ↔
    s.toList.getLast? = some '.' ∨ set.inherits m.subject (.ofDotted s) = true

lemma Restriction.isScopedBy_of_scope (h : allBlank s = false)
    (hscope : r.scope = some (.ofDotted s)) : r.IsScopedBy s := by
  have hne : s ≠ "" := by
    rintro rfl
    cases h
  refine ⟨hscope, ?_, fun set m => ?_⟩
  · rw [← TypeName.parse_eq_ok_ofDotted_iff h, hscope]
    constructor
    · rintro ⟨n, hparse, hn⟩
      cases hn
      exact hparse
    · exact fun hparse => ⟨_, hparse, rfl⟩
  · rw [appliesTo, hscope]
    simp [TypeName.name_ofDotted_eq_empty_iff, hne]

/-! ### Other scopes -/

def CommonFields.mapScope (f : Option String → Option String) (c : CommonFields) : CommonFields :=
  { c with scope := f c.scope }

lemma CommonFields.valid_mapScope {f : Option String → Option String} {c : CommonFields} :
    (c.mapScope f).Valid ↔ c.Valid :=
  ⟨fun h => ⟨h.mode, h.severity⟩, fun h => ⟨h.mode, h.severity⟩⟩

namespace Configuration

variable {f : Option String → Option String} {c : Configuration} {o : Overrides}

/-- The configuration with other scopes. -/
def mapScopes (f : Option String → Option String) (c : Configuration) : Configuration :=
  { c with
    namespaces := c.namespaces.map fun e => { e with common := e.common.mapScope f }
    types := c.types.map fun e => { e with common := e.common.mapScope f }
    members := c.members.map fun e => { e with common := e.common.mapScope f }
    inheritance := c.inheritance.map fun e => { e with common := e.common.mapScope f } }

def Entry.mapScope (f : Option String → Option String) : Entry → Entry
  | inNamespace e => inNamespace { e with common := e.common.mapScope f }
  | type e => type { e with common := e.common.mapScope f }
  | member e => member { e with common := e.common.mapScope f }
  | inheritance e => inheritance { e with common := e.common.mapScope f }

lemma entries_mapScopes : (c.mapScopes f).entries = c.entries.map (Entry.mapScope f) := by
  simp only [entries, mapScopes, List.map_append, List.map_map]
  rfl

lemma Entry.valid_mapScope {e : Entry} : (e.mapScope f).Valid ↔ e.Valid := by
  cases e <;> exact and_congr_right' CommonFields.valid_mapScope

lemma valid_mapScopes : (c.mapScopes f).Valid o ↔ c.Valid o := by
  have hentries : (∀ e ∈ (c.mapScopes f).entries, e.Valid) ↔ ∀ e ∈ c.entries, e.Valid := by
    rw [entries_mapScopes, List.forall_mem_map]
    simp only [Entry.valid_mapScope]
  exact
    ⟨fun h => ⟨h.profile, h.failOn, h.trusted, h.exempt, h.depth, h.methods, hentries.mp h.entries⟩,
      fun h =>
        ⟨h.profile, h.failOn, h.trusted, h.exempt, h.depth, h.methods, hentries.mpr h.entries⟩⟩

/-- Whether a configuration is accepted does not depend on its scopes. If it is, a scope that is not
blank gives the dotted name that it is as it stands, which is what a target would give only if there
are no blanks around it and no dot at its end; with such a dot it is no scope at all. -/
theorem scope_of_resolve (c : Configuration) (o : Overrides) :
    (∀ f, (∃ p, (c.mapScopes f).resolve o = .ok p) ↔ ∃ p, c.resolve o = .ok p) ∧
      ∀ p, c.resolve o = .ok p → ∃ base more, ((c.profile? o).getD "modtool", base) ∈ profiles ∧
        p.restrictions = base.restrictions ++ more ∧
        List.Forall₂ (fun e r => ∀ s, e.common.scope = some s → allBlank s = false → r.IsScopedBy s)
          c.entries more := by
  refine ⟨fun f => ?_, fun p hp => ?_⟩
  · rw [exists_resolve_iff, exists_resolve_iff, valid_mapScopes]
  · obtain ⟨base, hbase, hgives⟩ := resolve_eq_ok_iff.mp hp
    obtain ⟨more, hmore, hentries⟩ := hgives.restrictions
    refine ⟨base, more, hbase, hmore, hentries.imp ?_⟩
    rintro e r ⟨-, hr⟩ s hs hblank
    refine r.isScopedBy_of_scope hblank ?_
    rw [hr.scope, hs]
    simp [hblank]

end Configuration

/-! ### A scope with blanks around it, and one that ends in a dot -/

namespace MisreadScope

/-- The only entry: no file may be used within a scope. -/
def noFilesIn (scope : String) : Configuration :=
  { Configuration.empty with
    profile := some "empty"
    types := [⟨"System.IO.File", ⟨none, "no files", some scope, none⟩⟩] }

def noFiles (scope : TypeName) : Restriction :=
  ⟨.type ⟨"System.IO", "File"⟩, "no files", some scope, .prohibited, .error⟩

def policy (scope : TypeName) : Policy := { Policy.empty with restrictions := [noFiles scope] }

def plugin : TypeRef := ⟨"Mod", "", "Plugin"⟩

/-- A plugin that is a behaviour of the game. -/
def loaded : AssemblySet :=
  AssemblySet.empty.insert
    ⟨none, "Mod", [⟨"", "Plugin", some ⟨"Game", "Game", "Behaviour"⟩, [], [], []⟩]⟩

lemma inherits_of_plugin : loaded.inherits plugin ⟨"Game", "Behaviour"⟩ = true := by
  rw [AssemblySet.inherits, AssemblySet.inheritsFrom]
  rfl

/-- A scope that is written without blanks is read like a target. -/
theorem reads_behaviour :
    (noFilesIn "Game.Behaviour").resolve .none = .ok (policy ⟨"Game", "Behaviour"⟩) ∧
      (noFiles ⟨"Game", "Behaviour"⟩).IsScopedBy "Game.Behaviour" ∧
      (noFiles ⟨"Game", "Behaviour"⟩).appliesTo loaded (.type plugin) = true := by
  have hresolve : (noFilesIn "Game.Behaviour").resolve .none =
      .ok (policy ⟨"Game", "Behaviour"⟩) := rfl
  obtain ⟨base, more, hbase, hmore, hentries⟩ :=
    (Configuration.scope_of_resolve (noFilesIn "Game.Behaviour") .none).2 _ hresolve
  have hempty : ("empty", base) ∈ profiles := hbase
  obtain rfl : base = .empty := by simpa [profiles] using hempty
  obtain rfl : [noFiles ⟨"Game", "Behaviour"⟩] = more := hmore
  have hscoped : (noFiles ⟨"Game", "Behaviour"⟩).IsScopedBy "Game.Behaviour" := by
    cases hentries with
    | cons h _ => exact h _ rfl rfl
  exact ⟨hresolve, hscoped, (hscoped.applies _ _).mpr (.inr inherits_of_plugin)⟩

/-- With blanks around it the scope names a type that the plugin does not inherit from, and with a
dot at its end it is none, though a target would be the behaviour in one case and be rejected in the
other. -/
theorem misreads_blanks_and_dot :
    TypeName.parse " Game.Behaviour " = .ok ⟨"Game", "Behaviour"⟩ ∧
      (noFilesIn " Game.Behaviour ").resolve .none = .ok (policy ⟨" Game", "Behaviour "⟩) ∧
      loaded.inherits plugin ⟨"Game", "Behaviour"⟩ = true ∧
      (noFiles ⟨" Game", "Behaviour "⟩).appliesTo loaded (.type plugin) = false ∧
      TypeName.parse "Game." = .error (.unnamedType "Game.") ∧
      (noFilesIn "Game.").resolve .none = .ok (policy ⟨"Game", ""⟩) ∧
      ∀ (set : AssemblySet) (m : MemberRef), (noFiles ⟨"Game", ""⟩).appliesTo set m = true := by
  have hnot : loaded.inherits plugin ⟨" Game", "Behaviour "⟩ = false := by
    rw [AssemblySet.inherits, AssemblySet.inheritsFrom]
    rfl
  refine ⟨rfl, rfl, inherits_of_plugin, ?_, rfl, rfl, fun set m => rfl⟩
  rw [Restriction.appliesTo]
  simpa [noFiles, MemberRef.subject] using hnot

end MisreadScope

end AssemblyPolicy
