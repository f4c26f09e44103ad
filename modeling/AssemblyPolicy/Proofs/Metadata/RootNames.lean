import AssemblyPolicy.Metadata.Snapshot
import AssemblyPolicy.Proofs.Metadata.Hierarchy
import AssemblyPolicy.Proofs.Metadata.Insertion
import AssemblyPolicy.Verification.Basic

/-!
# Types that are taken for the root

The root of the hierarchy is known by its name, and an assembly chooses its own name. What its types
derive from is seen as far as the first root of that name, and not beyond
(`inherits_insert`).
-/

namespace AssemblyPolicy

namespace AssemblySet

variable {s : AssemblySet} {a : AssemblyModel} {t : TypeDef} {r : TypeRef} {name : TypeName}
  {path path' : List TypeRef}

/-- A type of this name is on the path, and no root comes before it. -/
def MetBelowRoot (name : TypeName) (path : List TypeRef) : Prop :=
  ∃ before reached after, path = before ++ reached :: after ∧ reached.typeName = name ∧
    ∀ r ∈ before, r.isRoot = false

/-- A type has one base type at most, so of two chains one continues the other. -/
lemma prefix_or_prefix_of_isChain (h : (r :: path).IsChain s.Derives)
    (h' : (r :: path').IsChain s.Derives) : path <+: path' ∨ path' <+: path := by
  induction path generalizing r path' with
  | nil => exact .inl List.nil_prefix
  | cons base path ih =>
    cases path' with
    | nil => exact .inr List.nil_prefix
    | cons base' path' =>
      obtain ⟨hbase, hrest⟩ := List.isChain_cons_cons.mp h
      obtain ⟨hbase', hrest'⟩ := List.isChain_cons_cons.mp h'
      obtain rfl : base = base' :=
        Option.some.inj ((derives_iff.mp hbase).symm.trans (derives_iff.mp hbase'))
      simpa only [List.prefix_cons_inj] using ih hrest hrest'

lemma inherits_of_metBelowRoot (hpath : (r :: path).IsChain s.Derives)
    (hmet : MetBelowRoot name path) : s.inherits r name = true := by
  obtain ⟨before, reached, after, rfl, hname, hroot⟩ := hmet
  refine inherits_iff_exists_ascent.mpr ⟨before, reached, ⟨?_, hroot⟩, hname⟩
  have hprefix : r :: (before ++ [reached]) <+: r :: (before ++ reached :: after) := by simp
  exact hpath.prefix hprefix

lemma metBelowRoot_of_inherits (hpath : (r :: path).IsChain s.Derives)
    (hmem : name ∈ path.map TypeRef.typeName) (h : s.inherits r name = true) :
    MetBelowRoot name path := by
  obtain ⟨between, base, hascent, hbase⟩ := inherits_iff_exists_ascent.mp h
  rcases prefix_or_prefix_of_isChain hascent.chain hpath with ⟨after, hafter⟩ | ⟨after, hafter⟩
  · exact ⟨between, base, after, by simp [← hafter], hbase, hascent.rootless⟩
  · obtain ⟨reached, hreached, hname⟩ := List.mem_map.mp hmem
    obtain ⟨before, rest, rfl⟩ := List.append_of_mem hreached
    refine ⟨before, reached, rest, rfl, hname, fun r hr => hascent.rootless r ?_⟩
    -- The type reached comes no later than the end of the chain, so what is before it is between.
    have hbetween : between = before ++ (reached :: rest ++ after).dropLast := by
      have hdrop := congrArg List.dropLast hafter
      rwa [List.append_assoc, List.dropLast_append_of_ne_nil (by simp), List.dropLast_concat,
        eq_comm] at hdrop
    rw [hbetween]
    exact List.mem_append_left _ hr

/-- Where roots have no base types, no name lies beyond a root. -/
lemma metBelowRoot_of_roots (hroots : ∀ r : TypeRef, r.isRoot = true → s.baseType? r = none)
    (hpath : path.IsChain s.Derives) (hmem : name ∈ path.map TypeRef.typeName) :
    MetBelowRoot name path := by
  obtain ⟨reached, hreached, hname⟩ := List.mem_map.mp hmem
  obtain ⟨before, after, rfl⟩ := List.append_of_mem hreached
  refine ⟨before, reached, after, rfl, hname, fun r hr => Bool.eq_false_iff.mpr fun hroot => ?_⟩
  obtain ⟨start, rest, rfl⟩ := List.append_of_mem hr
  -- Something comes after `r` on the path, so it has a base type.
  have hchain : (r :: (rest ++ reached :: after)).IsChain s.Derives := by
    rw [List.append_assoc, List.cons_append] at hpath
    exact hpath.right_of_append
  obtain ⟨next, l, hl⟩ := List.exists_cons_of_ne_nil (l := rest ++ reached :: after) (by simp)
  rw [hl, List.isChain_cons_cons, derives_iff, hroots r hroot] at hchain
  exact absurd hchain.1 (by simp)

lemma baseType?_insert_of_ne (h : a.name ≠ r.assembly) :
    (s.insert a).baseType? r = s.baseType? r := by
  rw [baseType?, baseType?, resolveType_insert_of_ne s h]

/-- Where base types lead from a type of an inserted assembly to a name, the type is a subtype
exactly if the name is met before they lead past a root. The first base type is the declared one,
whatever the assembly is called and whatever else is loaded. So all is seen when the assembly does not
take a core library's name and the roots that are loaded have no base types. -/
theorem inherits_insert (s : AssemblySet) (ha : a.check = .ok ()) (ht : t ∈ a.types)
    (hfirst : path.head? = t.baseType) (hpath : path.IsChain (s.insert a).Derives)
    (hmem : name ∈ path.map TypeRef.typeName) :
    ((s.insert a).inherits (t.reference a.name) name = true ↔ MetBelowRoot name path) ∧
    (coreLibraries.contains a.name = false →
      (∀ r : TypeRef, r.isRoot = true → s.baseType? r = none) →
        (s.insert a).inherits (t.reference a.name) name = true) := by
  have hwf : a.WellFormed := AssemblyModel.check_eq_ok_iff.mp ha
  have hchain : (t.reference a.name :: path).IsChain (s.insert a).Derives := by
    refine List.IsChain.cons hpath fun base hbase => ?_
    exact ⟨t, resolveType_insert_reference s hwf ht, hfirst ▸ hbase⟩
  refine ⟨⟨metBelowRoot_of_inherits hchain hmem, inherits_of_metBelowRoot hchain⟩, ?_⟩
  intro hname hroots
  refine inherits_of_metBelowRoot hchain (metBelowRoot_of_roots (fun r hroot => ?_) hpath hmem)
  have hcore : coreLibraries.contains r.assembly = true := by
    simp only [TypeRef.isRoot, Bool.and_eq_true] at hroot
    exact hroot.2
  have hne : a.name ≠ r.assembly := by
    intro heq
    rw [heq, hcore] at hname
    cases hname
  rw [baseType?_insert_of_ne hne, hroots r hroot]

end AssemblySet

/-! ### A root that is not the core library's -/

namespace FalseRoot

def behaviour : TypeRef := ⟨"Game", "Game", "Behaviour"⟩

/-- The core library with its root, and a library with the type that others have to derive from. -/
def references : AssemblySet :=
  (AssemblySet.empty.insert ⟨none, "mscorlib", [⟨"System", "Object", none, [], [], []⟩]⟩).insert
    ⟨none, "Game", [⟨"Game", "Behaviour", some ⟨"mscorlib", "System", "Object"⟩, [], [], []⟩]⟩

/-- A type that derives from a `System.Object` of the same assembly, which is a behaviour. -/
def plugin (assembly : String) : TypeDef :=
  ⟨"", "Plugin", some ⟨assembly, "System", "Object"⟩, [], [], []⟩

def object : TypeDef := ⟨"System", "Object", some behaviour, [], [], []⟩

def assembly (name : String) : AssemblyModel := ⟨none, name, [object, plugin name]⟩

def loaded (name : String) : AssemblySet := references.insert (assembly name)

/-- The base types of the plugin. -/
def path (name : String) : List TypeRef := [⟨name, "System", "Object"⟩, behaviour]

lemma isChain_path (name : String) : (path name).IsChain (loaded name).Derives := by
  have hobject : (loaded name).resolveType ⟨name, "System", "Object"⟩ = .ok object :=
    AssemblySet.resolveType_eq_ok_iff.mpr ⟨_, AssemblySet.find?_insert_self _ _, rfl⟩
  exact List.isChain_pair.mpr ⟨object, hobject, rfl⟩

lemma mem_path (name : String) :
    (⟨"Game", "Behaviour"⟩ : TypeName) ∈ (path name).map TypeRef.typeName := by
  simp [path, behaviour, TypeRef.typeName]

lemma baseType?_references (r : TypeRef) (h : r.isRoot = true) :
    references.baseType? r = none := by
  obtain ⟨assembly, ns, name⟩ := r
  simp only [TypeRef.isRoot, coreLibraries, Bool.and_eq_true, decide_eq_true_eq,
    List.contains_iff_mem, List.mem_cons, List.not_mem_nil, or_false] at h
  obtain ⟨⟨rfl, rfl⟩, rfl | rfl | rfl | rfl⟩ := h
  all_goals rfl

/-- In an assembly with a name of its own the plugin counts as a behaviour. -/
theorem inherits_plugin : (assembly "Mod").check = .ok () ∧
    (path "Mod").IsChain (loaded "Mod").Derives ∧
    AssemblySet.MetBelowRoot ⟨"Game", "Behaviour"⟩ (path "Mod") ∧
    (loaded "Mod").inherits ⟨"Mod", "", "Plugin"⟩ ⟨"Game", "Behaviour"⟩ = true := by
  have hcheck : (assembly "Mod").check = .ok () := by decide
  have hmem : plugin "Mod" ∈ (assembly "Mod").types := List.mem_cons_of_mem _ List.mem_cons_self
  have hfirst : (path "Mod").head? = (plugin "Mod").baseType := rfl
  have hplugin :=
    AssemblySet.inherits_insert references hcheck hmem hfirst (isChain_path "Mod") (mem_path "Mod")
  have hinherits := hplugin.2 (by decide) baseType?_references
  exact ⟨hcheck, isChain_path "Mod", hplugin.1.mp hinherits, hinherits⟩

/-- A restriction for behaviours only. -/
def forBehaviours : Restriction :=
  ⟨.inNamespace "System.IO" true, "no files", some ⟨"Game", "Behaviour"⟩, .prohibited, .error⟩

/-- A snapshot of an assembly that takes the name of the core library. -/
def snapshot : String :=
  "[null,\"mscorlib\",[[\"System\",\"Object\",[\"Game\",\"Game\",\"Behaviour\"]]," ++
    "[\"\",\"Plugin\",[\"mscorlib\",\"System\",\"Object\"]]]]"

/-- In the place of the core library it is accepted, and restrictions for behaviours do not apply to
the plugin, though its base types lead to one. -/
theorem exempt_plugin : AssemblyModel.ofSnapshot snapshot = .ok (assembly "mscorlib") ∧
    plugin "mscorlib" ∈ (assembly "mscorlib").types ∧
    (path "mscorlib").head? = (plugin "mscorlib").baseType ∧
    (path "mscorlib").IsChain (loaded "mscorlib").Derives ∧
    (path "mscorlib").getLast? = some behaviour ∧
    (loaded "mscorlib").inherits ⟨"mscorlib", "", "Plugin"⟩ ⟨"Game", "Behaviour"⟩ = false ∧
    forBehaviours.appliesTo (loaded "mscorlib") (.type ⟨"mscorlib", "", "Plugin"⟩) = false := by
  have hcheck : (assembly "mscorlib").check = .ok () := by decide
  have hdecode : AssemblyModel.decode.ofText snapshot = .ok (assembly "mscorlib") := by cbv
  have hinherits : (loaded "mscorlib").inherits ⟨"mscorlib", "", "Plugin"⟩ ⟨"Game", "Behaviour"⟩ =
      false := by
    rw [AssemblySet.inherits, AssemblySet.inheritsFrom]
    rfl
  refine ⟨?_, List.mem_cons_of_mem _ List.mem_cons_self, rfl, isChain_path _, rfl, hinherits, ?_⟩
  · rw [AssemblyModel.ofSnapshot_eq_accept hdecode]
    rfl
  · rw [Restriction.appliesTo]
    simpa [forBehaviours, MemberRef.subject] using hinherits

end FalseRoot

end AssemblyPolicy
