import AssemblyPolicy.Proofs.Configuration.TypeName
import AssemblyPolicy.Proofs.Result

/-!
# Entries of configurations

An entry of a configuration states a restriction: its target, and what every restriction may say.
`CommonFields.Describes` says what the restriction is, and `Configuration.restrictions_eq_ok_iff` that
the four tables give one restriction for each entry, in order, when all entries are in order.
-/

namespace AssemblyPolicy

/-! ### Words -/

/-- The words for a severity. -/
def Severity.spellings : Severity → List String
  | info => ["info"]
  | warning => ["warning", "warn"]
  | error => ["error"]

def FailOn.spellings : FailOn → List String
  | error => ["error"]
  | warning => ["warning", "warn"]

variable {text : String}

lemma Mode.parse_eq_ok_iff {mode : Mode} : Mode.parse text = .ok mode ↔ text = mode.name := by
  unfold Mode.parse
  split <;> cases mode <;> simp_all [Mode.name]

lemma Severity.parse_eq_ok_iff {severity : Severity} :
    Severity.parse text = .ok severity ↔ text ∈ severity.spellings := by
  unfold Severity.parse
  split <;> cases severity <;> simp_all [Severity.spellings]

lemma FailOn.parse_eq_ok_iff {failOn : FailOn} :
    FailOn.parse text = .ok failOn ↔ text ∈ failOn.spellings := by
  unfold FailOn.parse
  split <;> cases failOn <;> simp_all [FailOn.spellings]

/-- A default that is good leaves what is given to be checked. -/
lemma getD_iff {α : Type} {P : α → Prop} {o : Option α} {standard : α} (h : P standard) :
    P (o.getD standard) ↔ ∀ a ∈ o, P a := by
  cases o <;> simp [h]

/-- Reading something that may be left out, when one text stands for what is then taken. -/
lemma parseOr_eq_ok_iff {α β ε : Type} {R : α → β → Prop} {parse : α → Except ε β} {standard b : β}
    {given : Option α} {word : α} (hparse : ∀ {a b}, parse a = .ok b ↔ R a b)
    (hword : ∀ {b}, R word b ↔ standard = b) :
    parseOr standard parse given = .ok b ↔ R (given.getD word) b := by
  cases given with
  | none => simp [parseOr, hword]
  | some a => simp [parseOr, hparse]

/-! ### What every restriction says -/

namespace CommonFields

/-- The mode and the severity are known, where they are given. -/
structure Valid (c : CommonFields) : Prop where
  mode : ∀ t ∈ c.mode, ∃ mode : Mode, t = mode.name
  severity : ∀ t ∈ c.severity, ∃ severity : Severity, t ∈ severity.spellings

/-- The restriction has the target, and all else is as the fields say. A scope counts unless it is
blank. Without a mode the restriction prohibits, and without a severity it is an error. -/
structure Describes (c : CommonFields) (target : Target) (r : Restriction) : Prop where
  target : r.target = target
  message : r.message = c.message
  scope : r.scope = (c.scope.filter fun s => !allBlank s).map .ofDotted
  mode : c.mode.getD "prohibited" = r.mode.name
  severity : c.severity.getD "error" ∈ r.severity.spellings

variable {c : CommonFields} {target : Target} {r : Restriction}

lemma restriction_eq_ok_iff : c.restriction target = .ok r ↔ c.Describes target r := by
  have hmode {mode : Mode} : parseOr .prohibited Mode.parse c.mode = .ok mode ↔
      c.mode.getD "prohibited" = mode.name :=
    parseOr_eq_ok_iff Mode.parse_eq_ok_iff fun {b} => by cases b <;> decide
  have hseverity {severity : Severity} : parseOr .error Severity.parse c.severity = .ok severity ↔
      c.severity.getD "error" ∈ severity.spellings :=
    parseOr_eq_ok_iff (R := fun t s => t ∈ Severity.spellings s) Severity.parse_eq_ok_iff
      fun {b} => by cases b <;> decide
  simp only [restriction, bind_eq_ok_iff, hmode, hseverity, Except.ok.injEq]
  constructor
  · rintro ⟨mode, hm, severity, hs, rfl⟩
    exact ⟨rfl, rfl, rfl, hm, hs⟩
  · rintro ⟨rfl, hmessage, hscope, hm, hs⟩
    exact ⟨r.mode, hm, r.severity, hs, by rw [← hmessage, scopeOf, ← hscope]⟩

/-- A restriction can be stated exactly if the words that are given are known. -/
lemma exists_describes_iff : (∃ r, c.Describes target r) ↔ c.Valid := by
  have hmode := getD_iff (P := fun t => ∃ mode : Mode, t = mode.name) (o := c.mode)
    ⟨.prohibited, rfl⟩
  have hseverity := getD_iff (P := fun t => ∃ severity : Severity, t ∈ severity.spellings)
    (o := c.severity) ⟨.error, List.mem_singleton_self _⟩
  constructor
  · rintro ⟨r, h⟩
    exact ⟨hmode.mp ⟨r.mode, h.mode⟩, hseverity.mp ⟨r.severity, h.severity⟩⟩
  · intro h
    obtain ⟨mode, hm⟩ := hmode.mpr h.mode
    obtain ⟨severity, hs⟩ := hseverity.mpr h.severity
    exact ⟨⟨target, c.message, (c.scope.filter fun s => !allBlank s).map .ofDotted, mode, severity⟩,
      rfl, rfl, rfl, hm, hs⟩

end CommonFields

/-! ### Entries of all tables -/

/-- A table gives one restriction for each of its entries. -/
lemma resolveEntries_eq_ok_iff {α : Type} {table : String}
    {resolve : α → Except EntryError Restriction} {index : Nat} {entries : List α}
    {rs : List Restriction} : resolveEntries table resolve index entries = .ok rs ↔
      List.Forall₂ (fun e r => resolve e = .ok r) entries rs := by
  induction entries generalizing index rs with
  | nil => simp [resolveEntries, eq_comm]
  | cons e entries ih =>
    simp only [resolveEntries, bind_eq_ok_iff, mapError_eq_ok_iff, ih, Except.ok.injEq,
      List.forall₂_cons_left_iff]
    constructor
    · rintro ⟨r, hr, rs', hrs, rfl⟩
      exact ⟨r, rs', hr, hrs, rfl⟩
    · rintro ⟨r, rs', hr, hrs, rfl⟩
      exact ⟨r, hr, rs', hrs, rfl⟩

namespace Configuration

/-- An entry of one of the tables. -/
inductive Entry where
  | inNamespace (e : NamespaceEntry)
  | type (e : TypeEntry)
  | member (e : MemberEntry)
  | inheritance (e : InheritanceEntry)

namespace Entry

def common : Entry → CommonFields
  | inNamespace e => e.common
  | type e => e.common
  | member e => e.common
  | inheritance e => e.common

/-- What the entry is about. Blanks around the name of a type do not count. -/
def target : Entry → Target
  | inNamespace e => .inNamespace e.ns e.nested
  | type e => .type (.ofDotted (trim e.type))
  | member e => .member ⟨.ofDotted (trim e.type), e.member⟩
  | inheritance e => .inheritance (.ofDotted (trim e.base))

/-- The entry names what it is about. -/
def IsNamed : Entry → Prop
  | inNamespace e => e.ns ≠ ""
  | type e => TypeName.IsName e.type
  | member e => TypeName.IsName e.type ∧ e.member ≠ ""
  | inheritance e => TypeName.IsName e.base

def Valid (e : Entry) : Prop := e.IsNamed ∧ e.common.Valid

def restriction : Entry → Except EntryError Restriction
  | inNamespace e => e.restriction
  | type e => e.restriction
  | member e => e.restriction
  | inheritance e => e.restriction

variable {e : Entry} {r : Restriction}

lemma restriction_eq_ok_iff :
    e.restriction = .ok r ↔ e.IsNamed ∧ e.common.Describes e.target r := by
  cases e with
  | inNamespace e =>
    simp only [restriction, NamespaceEntry.restriction, String.isEmpty_iff]
    split_ifs with h
    · simp [IsNamed, h]
    · simp [IsNamed, h, CommonFields.restriction_eq_ok_iff, common, target]
  | type e =>
    simp [restriction, TypeEntry.restriction, bind_eq_ok_iff, TypeName.parse_eq_ok_iff,
      CommonFields.restriction_eq_ok_iff, IsNamed, common, target]
  | member e =>
    simp only [restriction, MemberEntry.restriction, bind_eq_ok_iff, TypeName.parse_eq_ok_iff,
      String.isEmpty_iff]
    split_ifs with h
    · simp [IsNamed, h]
    · simp [IsNamed, h, CommonFields.restriction_eq_ok_iff, common, target]
  | inheritance e =>
    simp [restriction, InheritanceEntry.restriction, bind_eq_ok_iff, TypeName.parse_eq_ok_iff,
      CommonFields.restriction_eq_ok_iff, IsNamed, common, target]

/-- The entries that state a restriction are the valid ones. -/
lemma exists_restriction_iff : (∃ r, e.restriction = .ok r) ↔ e.Valid := by
  simp only [restriction_eq_ok_iff, exists_and_left, CommonFields.exists_describes_iff, Valid]

end Entry

/-- The entries of all tables, in the order of their restrictions. -/
def entries (c : Configuration) : List Entry :=
  c.namespaces.map .inNamespace ++ c.types.map .type ++ c.members.map .member ++
    c.inheritance.map .inheritance

lemma restrictions_eq_ok_iff {c : Configuration} {rs : List Restriction} :
    c.restrictions = .ok rs ↔ List.Forall₂ (fun e r => e.restriction = .ok r) c.entries rs := by
  simp only [restrictions, entries, bind_eq_ok_iff, resolveEntries_eq_ok_iff, Except.ok.injEq,
    forall₂_append_left_iff, List.forall₂_map_left_iff, Entry.restriction]
  constructor
  · rintro ⟨ns, hns, ts, hts, ms, hms, is, his, rfl⟩
    exact ⟨_, is, ⟨_, ms, ⟨ns, ts, hns, hts, rfl⟩, hms, rfl⟩, his, rfl⟩
  · rintro ⟨_, is, ⟨_, ms, ⟨ns, ts, hns, hts, rfl⟩, hms, rfl⟩, his, rfl⟩
    exact ⟨ns, hns, ts, hts, ms, hms, is, his, rfl⟩

end Configuration

end AssemblyPolicy
