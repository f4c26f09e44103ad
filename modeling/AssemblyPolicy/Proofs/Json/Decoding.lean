import AssemblyPolicy.Proofs.Json.Sorted
import AssemblyPolicy.Proofs.Result

/-!
# What decoders read

`Decoder.Reads` says that a decoder reads a value wherever the value is shown, and `Decoder.Yields`
what holds of all that a decoder gives. Both are kept by the ways in which decoders are put together.
-/

namespace AssemblyPolicy.Json

variable {α β : Type} {o : Origin} {n : Nat}

/-! ### Limits -/

/-- This many containers may be entered. -/
def Origin.Allows (o : Origin) (n : Nat) : Prop := ∀ limit, o.limit = some limit → n ≤ limit

lemma Origin.allows_of_unlimited (h : o.limit = none) (n : Nat) : o.Allows n := by
  intro limit hlimit
  rw [h] at hlimit
  cases hlimit

lemma Origin.Allows.exists_enter (h : o.Allows (n + 1)) (span : Span) :
    ∃ o', o.enter span = .ok o' ∧ o'.Allows n := by
  obtain ⟨limit, hdeeper, hlimit⟩ := exists_deeper h span
  exact ⟨{ o with limit }, by rw [enter, hdeeper], hlimit⟩

/-! ### Reading values -/

namespace Decoder

/-- Wherever a value is shown, the decoder reads it as `a`, if as many containers may be entered. -/
def Reads (d : Decoder α) (n : Nat) (v : Json) (a : α) : Prop :=
  ∀ (o : Origin) (s : Source), o.Allows n → s.Shows v → d o s = .ok a

variable {d : Decoder α} {v : Json} {a : α}

lemma string_reads (n : Nat) (s : String) : string.Reads n (.string s) s := by
  intro o source _ h
  cases h
  rfl

lemma u32_reads (n : Nat) {k : Nat} (h : k < UInt32.size) : u32.Reads n (.nat k) k := by
  intro o source _ hs
  cases hs
  exact if_pos ⟨Int.natCast_nonneg k, h⟩

lemma bool_reads (n : Nat) (b : Bool) : bool.Reads n (.bool b) b := by
  intro o source _ h
  cases h
  rfl

lemma any_reads (h : v.depth ≤ n) : any.Reads n v v.sorted :=
  fun _ _ ho hs => congrArg orFault (hs.value_eq h ho)

lemma Reads.option (h : d.Reads n v a) (hv : v ≠ .null) : d.option.Reads n v (some a) := by
  intro o s ho hs
  have hread := h o s ho hs
  cases hs with
  | null => exact absurd rfl hv
  | bool | number | string | array | object => exact congrArg (Except.map some) hread

lemma items_eq (toJson : α → Json) {as : List α} (h : ∀ a ∈ as, d.Reads n (toJson a) a)
    {is : List Source} (hs : List.Forall₂ Source.Shows is (as.map toJson)) (ho : o.Allows n) :
    items d o is = .ok as := by
  induction as generalizing is with
  | nil =>
    cases hs
    rfl
  | cons a as ih =>
    cases hs with
    | cons hs hrest =>
      have ha := h a List.mem_cons_self o _ ho hs
      have has := ih (fun a ha => h a (List.mem_cons_of_mem _ ha)) hrest
      simp only [items, ha, has, Except.mapError, bind, Except.bind]

lemma list_reads {toJson : α → Json} {as : List α} (h : ∀ a ∈ as, d.Reads n (toJson a) a) :
    d.list.Reads (n + 1) (.array (as.map toJson)) as := by
  intro o s ho hs
  cases hs with
  | array span his =>
    obtain ⟨o', henter, ho'⟩ := ho.exists_enter span
    simp only [list, henter, items_eq toJson h his ho', atEnd, orFault, bind, Except.bind]

end Decoder

/-! ### Reading records -/

/-- Members show the entries of a record in any order. The entries have different keys. -/
structure Presents (ms : List (Member Source)) (entries : List (String × Option Json)) : Prop where
  nodup : (entries.map (·.1)).Nodup
  shows : ∃ members, members.Perm (present entries) ∧ List.Forall₂ Member.Shows ms members

lemma hasKey_of_shows {m : Member Source} {member : String × Json} (h : m.Shows member)
    (name : String) : m.hasKey name = decide (member.1 = name) := by
  cases h with
  | mk key afterKey hs => rfl

lemma hasKey_eq_false {ms : List (Member Source)} {members : List (String × Json)}
    (h : List.Forall₂ Member.Shows ms members) {name : String} (hname : ∀ m ∈ members, m.1 ≠ name) :
    ∀ m ∈ ms, m.hasKey name = false := by
  induction h with
  | nil => simp
  | cons hm _ ih =>
    obtain ⟨hne, hrest⟩ := List.forall_mem_cons.mp hname
    exact List.forall_mem_cons.mpr ⟨(hasKey_of_shows hm name).trans (decide_eq_false hne), ih hrest⟩

lemma occurrences_eq_nil {ms : List (Member Source)} {name : String}
    (h : ∀ m ∈ ms, m.hasKey name = false) (part : Nat) : occurrences name part ms = [] := by
  induction ms generalizing part with
  | nil => rfl
  | cons m ms ih =>
    obtain ⟨hm, hrest⟩ := List.forall_mem_cons.mp h
    rw [occurrences, if_neg (by simp [hm]), ih hrest]

/-- The one member with the key of an entry. -/
lemma exists_occurrences {ms : List (Member Source)} {members : List (String × Json)}
    (h : List.Forall₂ Member.Shows ms members) (hnodup : (members.map (·.1)).Nodup) {name : String}
    {v : Json} (hmem : (name, v) ∈ members) (part : Nat) :
    ∃ place m, occurrences name part ms = [(place, m)] ∧ m.value.Shows v := by
  induction h generalizing part with
  | nil => cases hmem
  | @cons m member ms members hm hrest ih =>
    obtain ⟨hnew, hnodup⟩ := List.nodup_cons.mp hnodup
    have hne : ∀ m ∈ members, m.1 ≠ member.1 :=
      fun m hmem heq => hnew (List.mem_map.mpr ⟨m, hmem, heq⟩)
    rw [occurrences, hasKey_of_shows hm]
    rcases List.mem_cons.mp hmem with rfl | hmem
    · rw [if_pos (by simp), occurrences_eq_nil (hasKey_eq_false hrest hne)]
      refine ⟨part, m, rfl, ?_⟩
      cases hm with
      | mk key afterKey hs => exact hs
    · rw [if_neg (by simpa using (hne _ hmem).symm)]
      exact ih hnodup hmem (part + 1)

lemma record_ne_null (entries : List (String × Option Json)) : Json.record entries ≠ .null := nofun

namespace Presents

variable {ms : List (Member Source)} {entries : List (String × Option Json)} {name : String}

lemma keys_sublist (entries : List (String × Option Json)) :
    ((present entries).map (·.1)).Sublist (entries.map (·.1)) := by
  induction entries with
  | nil => exact .slnil
  | cons e entries ih =>
    obtain ⟨k, v⟩ := e
    cases v with
    | none => exact ih.cons k
    | some v => exact ih.cons_cons k

lemma exists_occurrences {v : Json} (h : Presents ms entries) (hmem : (name, some v) ∈ entries) :
    ∃ place m, occurrences name 0 ms = [(place, m)] ∧ m.value.Shows v := by
  obtain ⟨members, hperm, hms⟩ := h.shows
  have hnodup := (hperm.map _).nodup_iff.mpr (h.nodup.sublist (keys_sublist entries))
  exact Json.exists_occurrences hms hnodup (hperm.mem_iff.mpr (mem_present hmem)) 0

lemma occurrences_eq_nil (h : Presents ms entries) (hmem : (name, none) ∈ entries) :
    occurrences name 0 ms = [] := by
  have hne : ∀ m ∈ present entries, m.1 ≠ name := by
    refine forall_present fun e he v hv hkey => ?_
    -- Two entries with one key are one entry.
    have hsame : e = (name, none) := List.inj_on_of_nodup_map h.nodup he hmem hkey
    rw [hsame] at hv
    cases hv
  obtain ⟨members, hperm, hms⟩ := h.shows
  refine Json.occurrences_eq_nil (hasKey_eq_false hms fun m hm => ?_) 0
  exact hne m (hperm.mem_iff.mp hm)

end Presents

namespace Fields

/-- Wherever the entries of a record are shown, the fields are read as `a`. -/
def Reads (f : Fields α) (n : Nat) (entries : List (String × Option Json)) (a : α) : Prop :=
  ∀ (o : Origin) (ms : List (Member Source)) (rest : List Char) (index : Nat), o.Allows n →
    Presents ms entries → f.read o (.members ms rest) index = .ok a

variable {entries : List (String × Option Json)} {f : Fields α} {g : Fields β} {a : α} {b : β}
  {d : Decoder α} {name : String}

lemma field_reads {ofObject ofArray : Option α} {v : Json} (hmem : (name, some v) ∈ entries)
    (h : d.Reads n v a) : (field name ofObject ofArray d).Reads n entries a := by
  intro o ms rest index ho hms
  obtain ⟨place, m, hplace, hm⟩ := hms.exists_occurrences hmem
  simp only [field, readMember, hplace, h o m.value ho hm]

lemma field_reads_absent {ofArray : Option α} (hmem : (name, none) ∈ entries) :
    (field name (some a) ofArray d).Reads n entries a := by
  intro o ms rest index _ hms
  simp only [field, readMember, hms.occurrences_eq_nil hmem]

lemma optional_reads {toJson : α → Json} {a : Option α} {ofArray : Option (Option α)}
    (hmem : (name, a.map toJson) ∈ entries) (h : ∀ x, a = some x → d.Reads n (toJson x) x)
    (hnull : ∀ x, toJson x ≠ .null) :
    (field name (some none) ofArray d.option).Reads n entries a := by
  cases a with
  | none => exact field_reads_absent hmem
  | some x => exact field_reads hmem ((h x rfl).option (hnull x))

lemma Reads.and (hf : f.Reads n entries a) (hg : g.Reads n entries b) :
    (f.and g).Reads n entries (a, b) := by
  intro o ms rest index ho hms
  simp only [Fields.and, hf o ms rest index ho hms, hg o ms rest _ ho hms, inOrder]

lemma Reads.map (h : α → β) (hf : f.Reads n entries a) : (f.map h).Reads n entries (h a) := by
  intro o ms rest index ho hms
  simp only [Fields.map, hf o ms rest index ho hms, Except.map]

end Fields

/-- All keys are known, so none is passed over. -/
lemma passOver_of_shows {names : List String} {ms : List (Member Source)}
    {members : List (String × Json)} (h : List.Forall₂ Member.Shows ms members)
    (hnames : ∀ m ∈ members, m.1 ∈ names) (part : Nat) : passOver names part ms none = .ok () := by
  induction h generalizing part with
  | nil => rfl
  | cons hm _ ih =>
    have hkey := hnames _ List.mem_cons_self
    have hrest := ih (fun m hm => hnames m (List.mem_cons_of_mem _ hm)) (part + 1)
    cases hm with
    | mk key afterKey hs => simp only [passOver, if_pos hkey, hrest]

/-- A record is read whatever the order of its members is. -/
lemma Decoder.record_reads_of_perm {kind : String} {f : Fields α}
    {entries : List (String × Option Json)} {members : List (String × Json)} {a : α}
    (h : f.Reads n entries a) (hkeys : entries.map (·.1) = f.names) (hnodup : f.names.Nodup)
    (hperm : members.Perm (present entries)) :
    (record kind f).Reads (n + 1) (.object members) a := by
  intro o s ho hs
  cases hs with
  | @object ms _ span hms =>
    obtain ⟨o', henter, ho'⟩ := ho.exists_enter span
    have hread := h o' ms (afterMembers span ms) 0 ho' ⟨hkeys ▸ hnodup, members, hperm, hms⟩
    have hpass : passOver f.names 0 ms none = .ok () := by
      refine passOver_of_shows hms (fun m hm => ?_) 0
      have hmem := hperm.mem_iff.mp hm
      exact hkeys ▸ (Presents.keys_sublist entries).subset (List.mem_map_of_mem hmem)
    simp only [record, readMembers, henter, hread, hpass, inOrder, dropPart, bind, Except.bind]

lemma Decoder.record_reads {kind : String} {f : Fields α} {entries : List (String × Option Json)}
    {a : α} (h : f.Reads n entries a) (hkeys : entries.map (·.1) = f.names)
    (hnodup : f.names.Nodup) : (record kind f).Reads (n + 1) (.record entries) a :=
  record_reads_of_perm h hkeys hnodup (.refl _)

/-! ### Records with sorted members -/

section SortedRecord

variable {entries : List (String × Option Json)}

/-- The entries of a record with their values sorted. -/
def sortedEntries (entries : List (String × Option Json)) : List (String × Option Json) :=
  entries.map fun e => (e.1, e.2.map sorted)

lemma keys_sortedEntries : (sortedEntries entries).map (·.1) = entries.map (·.1) := by
  rw [sortedEntries, List.map_map]
  rfl

lemma sorted_record (entries : List (String × Option Json)) :
    (Json.record entries).sorted = .ofMembers (present (sortedEntries entries)) := by
  have hpresent : (present entries).map (fun m => (m.1, m.2.sorted)) =
      present (sortedEntries entries) := by
    induction entries with
    | nil => rfl
    | cons e entries ih =>
      obtain ⟨k, v⟩ := e
      cases v with
      | none => exact ih
      | some v => exact congrArg ((k, v.sorted) :: ·) ih
  rw [Json.record, Json.sorted, ← hpresent]
  rfl

lemma nodup_present_sortedEntries (h : (entries.map (·.1)).Nodup) :
    ((present (sortedEntries entries)).map (·.1)).Nodup :=
  (keys_sortedEntries ▸ h).sublist (Presents.keys_sublist _)

lemma get?_sorted_record (h : (entries.map (·.1)).Nodup) {key : String} {v : Json}
    (hmem : (key, some v) ∈ entries) : (Json.record entries).sorted.get? key = some v.sorted := by
  have hnodup := nodup_present_sortedEntries h
  rw [sorted_record, get?_ofMembers hnodup, lookup_eq_some_iff_mem hnodup]
  exact mem_present (List.mem_map.mpr ⟨_, hmem, rfl⟩)

lemma sorted_record_ne_null (entries : List (String × Option Json)) :
    (Json.record entries).sorted ≠ .null := by
  rw [sorted_record]
  intro h
  cases h

/-- A record is also read when its members were sorted. -/
lemma Decoder.record_reads_sorted {kind : String} {f : Fields α} {a : α}
    (h : f.Reads n (sortedEntries entries) a) (hkeys : entries.map (·.1) = f.names)
    (hnodup : f.names.Nodup) : (record kind f).Reads (n + 1) (Json.record entries).sorted a := by
  rw [sorted_record]
  refine record_reads_of_perm h (keys_sortedEntries.trans hkeys) hnodup ?_
  exact perm_sortMembers (nodup_present_sortedEntries (hkeys ▸ hnodup))

end SortedRecord

/-! ### Reading values and texts -/

lemma Decoder.Reads.ofValue {d : Decoder α} {v : Json} {a : α} (h : d.Reads n v a) :
    d.ofValue v = .ok a := by
  rw [Decoder.ofValue, h .value _ (Origin.allows_of_unlimited rfl n) (Source.shows_ofJson v)]
  rfl

/-- Whoever reads a value reads its text. -/
lemma Decoder.Reads.ofText {d : Decoder α} {v : Json} {a : α} (h : d.Reads n v a) (hv : Exact v)
    (hn : n ≤ nestingLimit) (layout : Layout) :
    d.ofText (String.ofList (render layout v)) = .ok a := by
  obtain ⟨s, hs, hdocument⟩ := hv.exists_shows_ofText layout
  have hallows : Origin.text.Allows n := by
    rintro _ ⟨⟩
    exact hn
  simp only [Decoder.ofText, hdocument, h .text s hallows hs]

/-! ### What decoders give -/

/-- All that the decoder gives has a property. -/
def Decoder.Yields (d : Decoder α) (p : α → Prop) : Prop := ∀ o s a, d o s = .ok a → p a

/-- All that the fields are read as has a property. -/
def Fields.Yields (f : Fields α) (p : α → Prop) : Prop :=
  ∀ o parts index a, f.read o parts index = .ok a → p a

variable {d : Decoder α} {f : Fields α} {g : Fields β} {p : α → Prop} {q : β → Prop}

namespace Decoder

lemma u32_yields : u32.Yields (· < UInt32.size) := by
  intro o s n h
  unfold u32 at h
  split at h
  · split at h
    · next hn =>
      cases h
      exact hn.2
    · cases h
  · cases h

lemma Yields.option (h : d.Yields p) : d.option.Yields fun a => ∀ x, a = some x → p x := by
  intro o s a ha x hx
  subst hx
  unfold Decoder.option at ha
  split at ha
  · cases ha
  · obtain ⟨y, hy, hyx⟩ := map_eq_ok_iff.mp ha
    cases hyx
    exact h _ _ _ hy

lemma Yields.items (h : d.Yields p) {is : List Source} {as : List α}
    (has : items d o is = .ok as) : ∀ a ∈ as, p a := by
  induction is generalizing as with
  | nil =>
    cases has
    simp
  | cons s is ih =>
    obtain ⟨a, ha, hitems⟩ := bind_eq_ok_iff.mp has
    obtain ⟨rest, hrest, hend⟩ := bind_eq_ok_iff.mp hitems
    cases hend
    exact List.forall_mem_cons.mpr ⟨h _ _ _ (mapError_eq_ok_iff.mp ha), ih hrest⟩

lemma Yields.list (h : d.Yields p) : d.list.Yields fun as => ∀ a ∈ as, p a := by
  intro o s as has
  unfold Decoder.list at has
  split at has
  · next stop span =>
    obtain ⟨o', -, hitems⟩ := bind_eq_ok_iff.mp has
    obtain ⟨as', hitems, hend⟩ := bind_eq_ok_iff.mp hitems
    cases stop with
    | some b => cases hend
    | none =>
      cases hend
      exact h.items hitems
  · cases has

end Decoder

lemma inOrder_eq_ok_iff {x : Except Misread α} {y : Except Misread β} {c : α × β} :
    inOrder x y = .ok c ↔ x = .ok c.1 ∧ y = .ok c.2 := by
  obtain ⟨a, b⟩ := c
  cases x <;> cases y <;> simp [inOrder]

lemma dropPart_eq_ok_iff {x : Except Misread α} {a : α} : dropPart x = .ok a ↔ x = .ok a := by
  cases x <;> simp [dropPart]

namespace Fields

lemma field_yields {name : String} {ofObject ofArray : Option α} (h : d.Yields p)
    (hobject : ∀ a, ofObject = some a → p a) (harray : ∀ a, ofArray = some a → p a) :
    (field name ofObject ofArray d).Yields p := by
  intro o parts index a ha
  cases parts with
  | members ms rest =>
    simp only [field, readMember] at ha
    split at ha
    · split at ha
      · cases ha
        exact hobject _ rfl
      · cases ha
    · split at ha
      · cases ha
      · next hd _ =>
        cases ha
        exact h _ _ _ hd
      · cases ha
  | items is stop wanted rest =>
    simp only [field, readItem] at ha
    split at ha
    · exact h _ _ _ (mapError_eq_ok_iff.mp ha)
    · cases ha
    · cases ha
      exact harray _ rfl
    · cases ha

lemma withDefault_yields {name : String} {a : α} (h : d.Yields p) (ha : p a) :
    (withDefault name a d).Yields p :=
  field_yields h (fun _ hb => Option.some.inj hb ▸ ha) fun _ hb => Option.some.inj hb ▸ ha

lemma optional_yields {name : String} (h : d.Yields p) :
    (optional name d).Yields fun a => ∀ x, a = some x → p x :=
  withDefault_yields h.option nofun

lemma yields_true (f : Fields α) : f.Yields fun _ => True := fun _ _ _ _ _ => trivial

lemma Yields.mono {p' : α → Prop} (hf : f.Yields p) (h : ∀ a, p a → p' a) : f.Yields p' :=
  fun o parts index a ha => h a (hf o parts index a ha)

lemma Yields.and (hf : f.Yields p) (hg : g.Yields q) :
    (f.and g).Yields fun c => p c.1 ∧ q c.2 := by
  intro o parts index c hc
  obtain ⟨ha, hb⟩ := inOrder_eq_ok_iff.mp hc
  exact ⟨hf _ _ _ _ ha, hg _ _ _ _ hb⟩

lemma Yields.map {h : α → β} (hf : f.Yields fun a => q (h a)) : (f.map h).Yields q := by
  intro o parts index b hb
  obtain ⟨a, ha, rfl⟩ := map_eq_ok_iff.mp hb
  exact hf _ _ _ _ ha

end Fields

lemma Decoder.record_yields {kind : String} (h : f.Yields p) : (record kind f).Yields p := by
  intro o s a ha
  unfold record at ha
  split at ha
  · obtain ⟨o', -, hread⟩ := bind_eq_ok_iff.mp ha
    obtain ⟨⟨a', _⟩, hread, hend⟩ := bind_eq_ok_iff.mp hread
    cases hend
    exact h _ _ _ _ (inOrder_eq_ok_iff.mp (dropPart_eq_ok_iff.mp hread)).1
  · obtain ⟨o', -, hread⟩ := bind_eq_ok_iff.mp ha
    obtain ⟨a', hread, hend⟩ := bind_eq_ok_iff.mp hread
    obtain ⟨-, -, hend⟩ := bind_eq_ok_iff.mp hend
    cases hend
    exact h _ _ _ _ (dropPart_eq_ok_iff.mp hread)
  · cases ha

lemma Decoder.Yields.ofText (h : d.Yields p) {text : String} {a : α} (ha : d.ofText text = .ok a) :
    p a := by
  simp only [Decoder.ofText] at ha
  split at ha
  · next hd _ =>
    cases ha
    exact h _ _ _ hd
  · cases ha
  · cases ha

end AssemblyPolicy.Json
