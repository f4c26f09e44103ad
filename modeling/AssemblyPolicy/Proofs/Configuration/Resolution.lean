import AssemblyPolicy.Proofs.Configuration.Entry
import AssemblyPolicy.Proofs.Glob.Set

/-!
# Which configurations are accepted

`Configuration.Valid` says what has to be in order in a configuration and what overrides it, and
`Configuration.Gives` what the policy is that comes of them. Each part of a policy is computed by
itself, so a configuration gives a policy exactly if each of its parts does.
-/

namespace AssemblyPolicy

/-! ### Parts of policies -/

lemma FailOn.name_mem_spellings {failOn : FailOn} : failOn.name ∈ failOn.spellings := by
  cases failOn <;> decide

lemma parseOr_failOn_eq_ok_iff {standard failOn : FailOn} {given : Option String} :
    parseOr standard FailOn.parse given = .ok failOn ↔
      given.getD standard.name ∈ failOn.spellings :=
  parseOr_eq_ok_iff (R := fun t f => t ∈ FailOn.spellings f) FailOn.parse_eq_ok_iff
    fun {f} => by cases standard <;> cases f <;> decide

lemma resolveTrusted_eq_ok_iff {patterns : List String} {gs : List Glob} :
    resolveTrusted patterns = .ok gs ↔
      (∀ pattern ∈ patterns, allBlank pattern = false) ∧ Glob.parseAll patterns = .ok gs := by
  have hnone : patterns.any allBlank = false ↔ ∀ pattern ∈ patterns, allBlank pattern = false := by
    simp
  rw [← hnone, resolveTrusted]
  split_ifs with h <;> simp [h]

/-- Trusted assemblies are described by the globs of the patterns, in order. -/
lemma resolveTrusted_eq_ok_iff_map {patterns : List String} {gs : List Glob} :
    resolveTrusted patterns = .ok gs ↔ gs.map Glob.pattern = patterns ∧
      ∀ g ∈ gs, allBlank g.pattern = false ∧ Glob.Reads g.pattern g := by
  rw [resolveTrusted_eq_ok_iff]
  constructor
  · rintro ⟨h, hgs⟩
    have hmap := Glob.map_pattern_of_parseAll hgs
    rw [← hmap, Glob.parseAll_eq_ok_iff, List.forall₂_map_left_iff, List.forall₂_same] at hgs
    rw [← hmap, List.forall_mem_map] at h
    exact ⟨hmap, fun g hg => ⟨h g hg, hgs g hg⟩⟩
  · rintro ⟨rfl, h⟩
    rw [Glob.parseAll_eq_ok_iff, List.forall₂_map_left_iff, List.forall₂_same, List.forall_mem_map]
    exact ⟨fun g hg => (h g hg).1, fun g hg => (h g hg).2⟩

lemma exists_resolveTrusted_iff {patterns : List String} :
    (∃ gs, resolveTrusted patterns = .ok gs) ↔
      ∀ pattern ∈ patterns, allBlank pattern = false ∧ Glob.Valid pattern := by
  simp only [resolveTrusted_eq_ok_iff, exists_and_left, Glob.exists_parseAll_iff, forall₂_and]

lemma resolveExempt_eq_ok_iff {namespaces exempt : List String} :
    resolveExempt namespaces = .ok exempt ↔ "" ∉ namespaces ∧ namespaces = exempt := by
  have hany : namespaces.any String.isEmpty = true ↔ "" ∈ namespaces := by
    simp [List.any_eq_true, String.isEmpty_iff]
  unfold resolveExempt
  split_ifs with h
  · simp [hany.mp h]
  · simp [mt hany.mpr h]

lemma resolveLimit_eq_ok_iff {key : String} {greatest given n : Nat} :
    resolveLimit key greatest given = .ok n ↔ (1 ≤ given ∧ given ≤ greatest) ∧ given = n := by
  unfold resolveLimit
  split_ifs with h <;> simp [h]

/-- What is only checked is good in the end, whether given or standard. -/
lemma parseOr_check_eq_ok_iff {α ε : Type} {P : α → Prop} {check : α → Except ε α}
    {standard b : α} {given : Option α} (hcheck : ∀ {a b}, check a = .ok b ↔ P a ∧ a = b)
    (h : P standard) :
    parseOr standard check given = .ok b ↔ P b ∧ b = given.getD standard := by
  have hstandard {b : α} : P standard ∧ standard = b ↔ standard = b := and_iff_right h
  rw [parseOr_eq_ok_iff (R := fun a b => P a ∧ a = b) hcheck hstandard, eq_comm]
  exact and_congr_left fun hb => by rw [hb]

/-- Limits that may be configured. -/
structure WalkLimits.Legal (l : WalkLimits) : Prop where
  depth : 1 ≤ l.maxDepth ∧ l.maxDepth ≤ greatestDepth
  methods : 1 ≤ l.maxMethods ∧ l.maxMethods ≤ greatestMethods

namespace Configuration

variable {c : Configuration} {o : Overrides} {name : String} {base p : Policy}

/-! ### Profiles -/

lemma findProfile_eq_ok_iff : findProfile name = .ok base ↔ (name, base) ∈ profiles := by
  unfold findProfile
  by_cases hmodtool : name = "modtool"
  · subst hmodtool
    simp [profiles, eq_comm]
  · by_cases hempty : name = "empty"
    · subst hempty
      simp [profiles, List.lookup_cons, eq_comm]
    · simp [profiles, List.lookup_cons, hmodtool, hempty, beq_false_of_ne]

/-- The profiles could themselves be configured. -/
lemma of_mem_profiles (h : (name, base) ∈ profiles) :
    base.profile = name ∧ "" ∉ base.exempt ∧ base.limits.Legal := by
  simp only [profiles, List.mem_cons, Prod.mk.injEq, List.not_mem_nil, or_false] at h
  rcases h with ⟨rfl, rfl⟩ | ⟨rfl, rfl⟩
  · exact ⟨rfl, by decide, ⟨by decide, by decide⟩⟩
  · exact ⟨rfl, by decide, ⟨by decide, by decide⟩⟩

/-! ### Policies -/

/-- The profile that is set, an override before the configuration. -/
def profile? (c : Configuration) (o : Overrides) : Option String := o.profile.or c.profile

/-- The depth that is set. -/
def depth? (c : Configuration) (o : Overrides) : Option Nat := o.maxDepth.or c.limits.maxDepth

/-- The number of methods that is set. -/
def methods? (c : Configuration) (o : Overrides) : Option Nat := o.maxMethods.or c.limits.maxMethods

/-- The configuration is in order, together with what overrides it. -/
structure Valid (c : Configuration) (o : Overrides) : Prop where
  profile : ∃ base, ((c.profile? o).getD "modtool", base) ∈ profiles
  failOn : ∀ t ∈ c.failOn, ∃ failOn : FailOn, t ∈ failOn.spellings
  trusted : ∀ pattern ∈ c.trusted ++ o.trusted, allBlank pattern = false ∧ Glob.Valid pattern
  exempt : ∀ namespaces ∈ c.exempt, "" ∉ namespaces
  depth : ∀ d ∈ c.depth? o, 1 ≤ d ∧ d ≤ greatestDepth
  methods : ∀ n ∈ c.methods? o, 1 ≤ n ∧ n ≤ greatestMethods
  entries : ∀ e ∈ c.entries, e.Valid

/-- What the policy is that comes of a configuration: the profile, with all that is set in its place,
and the further restrictions after its own, one for each entry. -/
structure Gives (c : Configuration) (o : Overrides) (base p : Policy) : Prop where
  profile : p.profile = (c.profile? o).getD "modtool"
  failOn : c.failOn.getD base.failOn.name ∈ p.failOn.spellings
  restrictions : ∃ more, p.restrictions = base.restrictions ++ more ∧
    List.Forall₂ (fun e r => e.IsNamed ∧ e.common.Describes e.target r) c.entries more
  trusted : p.trusted.map Glob.pattern = c.trusted ++ o.trusted ∧
    ∀ g ∈ p.trusted, allBlank g.pattern = false ∧ Glob.Reads g.pattern g
  interfaces : p.interfaces = c.interfaces.getD base.interfaces
  exempt : "" ∉ p.exempt ∧ p.exempt = c.exempt.getD base.exempt
  limits : p.limits.Legal ∧
    p.limits = ⟨(c.depth? o).getD base.limits.maxDepth, (c.methods? o).getD base.limits.maxMethods⟩

/-- Without a name the profile is `modtool`. -/
lemma profileName_eq : c.profileName o = (c.profile? o).getD "modtool" := rfl

/-- What the steps of the computation give is what the policy consists of. -/
lemma resolve_eq_ok_iff : c.resolve o = .ok p ↔
    ∃ base, ((c.profile? o).getD "modtool", base) ∈ profiles ∧ c.Gives o base p := by
  simp only [resolve, profileName_eq, bind_eq_ok_iff, findProfile_eq_ok_iff]
  refine exists_congr fun base => and_congr_right fun hbase => ?_
  obtain ⟨hname, hexempt, hlimits⟩ := of_mem_profiles hbase
  simp only [parseOr_failOn_eq_ok_iff, resolveTrusted_eq_ok_iff_map, restrictions_eq_ok_iff,
    parseOr_check_eq_ok_iff (P := fun e => "" ∉ e) resolveExempt_eq_ok_iff hexempt,
    parseOr_check_eq_ok_iff resolveLimit_eq_ok_iff hlimits.depth,
    parseOr_check_eq_ok_iff resolveLimit_eq_ok_iff hlimits.methods, Entry.restriction_eq_ok_iff,
    Except.ok.injEq]
  constructor
  · rintro ⟨f, hf, gs, hgs, e, he, d, ⟨hd, rfl⟩, n, ⟨hn, rfl⟩, more, hmore, rfl⟩
    exact ⟨hname, hf, ⟨more, rfl, hmore⟩, hgs, rfl, he, ⟨hd, hn⟩, rfl⟩
  · rintro ⟨hprofile, hf, ⟨more, hmore, hall⟩, hgs, hinterfaces, he, hlegal, hvalues⟩
    have hdepth := congrArg WalkLimits.maxDepth hvalues
    have hmethods := congrArg WalkLimits.maxMethods hvalues
    exact ⟨p.failOn, hf, p.trusted, hgs, p.exempt, he, p.limits.maxDepth, ⟨hlegal.depth, hdepth⟩,
      p.limits.maxMethods, ⟨hlegal.methods, hmethods⟩, more, hall,
      by rw [hname, ← hprofile, ← hmore, ← hinterfaces]⟩

/-- What has to be in order is what each part of a policy asks for. -/
lemma exists_gives_iff (hbase : ((c.profile? o).getD "modtool", base) ∈ profiles) :
    (∃ p, c.Gives o base p) ↔ c.Valid o := by
  obtain ⟨-, hexempt, hlimits⟩ := of_mem_profiles hbase
  have hfailOn := getD_iff (P := fun t => ∃ failOn : FailOn, t ∈ failOn.spellings) (o := c.failOn)
    ⟨base.failOn, FailOn.name_mem_spellings⟩
  have hnamespaces := getD_iff (P := fun e : List String => "" ∉ e) (o := c.exempt) hexempt
  have hdepth := getD_iff (P := fun d => 1 ≤ d ∧ d ≤ greatestDepth) (o := c.depth? o) hlimits.depth
  have hmethods := getD_iff (P := fun n => 1 ≤ n ∧ n ≤ greatestMethods) (o := c.methods? o)
    hlimits.methods
  have hentries : (∃ more, List.Forall₂ (fun e r => e.restriction = .ok r) c.entries more) ↔
      ∀ e ∈ c.entries, e.Valid := by
    simp only [exists_forall₂_iff, Entry.exists_restriction_iff]
  simp only [Entry.restriction_eq_ok_iff] at hentries
  constructor
  · rintro ⟨p, hp⟩
    obtain ⟨more, -, hmore⟩ := hp.restrictions
    have htrusted := resolveTrusted_eq_ok_iff_map.mpr hp.trusted
    exact
      { profile := ⟨base, hbase⟩
        failOn := hfailOn.mp ⟨p.failOn, hp.failOn⟩
        trusted := exists_resolveTrusted_iff.mp ⟨p.trusted, htrusted⟩
        exempt := hnamespaces.mp (hp.exempt.2 ▸ hp.exempt.1)
        depth := hdepth.mp (by simpa [hp.limits.2] using hp.limits.1.depth)
        methods := hmethods.mp (by simpa [hp.limits.2] using hp.limits.1.methods)
        entries := hentries.mp ⟨more, hmore⟩ }
  · intro h
    obtain ⟨failOn, hf⟩ := hfailOn.mpr h.failOn
    obtain ⟨trusted, htrusted⟩ := exists_resolveTrusted_iff.mpr h.trusted
    obtain ⟨more, hmore⟩ := hentries.mpr h.entries
    exact ⟨⟨(c.profile? o).getD "modtool", failOn, base.restrictions ++ more, trusted,
        c.interfaces.getD base.interfaces, c.exempt.getD base.exempt,
        ⟨(c.depth? o).getD base.limits.maxDepth, (c.methods? o).getD base.limits.maxMethods⟩⟩,
      { profile := rfl
        failOn := hf
        restrictions := ⟨more, rfl, hmore⟩
        trusted := resolveTrusted_eq_ok_iff_map.mp htrusted
        interfaces := rfl
        exempt := ⟨hnamespaces.mpr h.exempt, rfl⟩
        limits := ⟨⟨hdepth.mpr h.depth, hmethods.mpr h.methods⟩, rfl⟩ }⟩

lemma exists_resolve_iff : (∃ p, c.resolve o = .ok p) ↔ c.Valid o := by
  simp only [resolve_eq_ok_iff]
  constructor
  · rintro ⟨p, base, hbase, hgives⟩
    exact (exists_gives_iff hbase).mp ⟨p, hgives⟩
  · intro h
    obtain ⟨base, hbase⟩ := h.profile
    obtain ⟨p, hgives⟩ := (exists_gives_iff hbase).mpr h
    exact ⟨p, base, hbase, hgives⟩

/-- A configuration is accepted exactly if it is in order, together with what overrides it, and the
policy consists of nothing but what the profile, the configuration and the overrides say. -/
theorem resolve_decides (c : Configuration) (o : Overrides) :
    ((∃ p, c.resolve o = .ok p) ↔ c.Valid o) ∧
      ∀ p, c.resolve o = .ok p ↔
        ∃ base, ((c.profile? o).getD "modtool", base) ∈ profiles ∧ c.Gives o base p :=
  ⟨exists_resolve_iff, fun _ => resolve_eq_ok_iff⟩

/-- A limit out of range does not matter if another overrides it. -/
example : ({ empty with limits := ⟨some 0, none⟩ }.resolve
    { Overrides.none with maxDepth := some 5 }).toOption.map Policy.limits = some ⟨5, 10000⟩ := by
  rfl

end Configuration

end AssemblyPolicy
