import AssemblyPolicy.Json.Decoder
import AssemblyPolicy.Proofs.Json.Members
import AssemblyPolicy.Proofs.Json.Reading

/-!
# Values read from texts

What is read from the text of a value is the value with the members of its objects sorted by key
(`Exact.parse_render`). A value that is sorted already comes back as it was.
-/

namespace AssemblyPolicy.Json

variable {n : Nat}

/-! ### Depth -/

mutual

/-- How deep containers nest in a value. -/
def depth : Json → Nat
  | .array items => itemsDepth items + 1
  | .object members => membersDepth members + 1
  | _ => 0

def itemsDepth : List Json → Nat
  | [] => 0
  | v :: rest => max v.depth (itemsDepth rest)

def membersDepth : List (String × Json) → Nat
  | [] => 0
  | (_, v) :: rest => max v.depth (membersDepth rest)

end

lemma itemsDepth_le_iff {items : List Json} : itemsDepth items ≤ n ↔ ∀ v ∈ items, v.depth ≤ n := by
  induction items with
  | nil => simp [itemsDepth]
  | cons v items ih => simp [itemsDepth, ih]

lemma membersDepth_le_iff {members : List (String × Json)} :
    membersDepth members ≤ n ↔ ∀ m ∈ members, m.2.depth ≤ n := by
  induction members with
  | nil => simp [membersDepth]
  | cons m members ih => simp [membersDepth, ih]

lemma depth_array_le {items : List Json} (h : ∀ v ∈ items, v.depth ≤ n) :
    (Json.array items).depth ≤ n + 1 :=
  Nat.succ_le_succ (itemsDepth_le_iff.mpr h)

lemma depth_record_le {entries : List (String × Option Json)}
    (h : ∀ e ∈ entries, ∀ v, e.2 = some v → v.depth ≤ n) : (Json.record entries).depth ≤ n + 1 :=
  Nat.succ_le_succ (membersDepth_le_iff.mpr (forall_present h))

lemma exists_deeper {limit : Option Nat} (h : ∀ k, limit = some k → n + 1 ≤ k) (span : Span) :
    ∃ limit', deeper limit span = .ok limit' ∧ ∀ k, limit' = some k → n ≤ k := by
  cases limit with
  | none => exact ⟨none, rfl, by simp⟩
  | some k =>
    have hk := h k rfl
    cases k with
    | zero => omega
    | succ k =>
      refine ⟨some k, rfl, ?_⟩
      rintro _ ⟨⟩
      omega

/-! ### Sorting the members of all objects -/

/-- The value with the members of all its objects sorted by key. -/
def sorted : Json → Json
  | .null => .null
  | .bool b => .bool b
  | .number n => .number n
  | .string s => .string s
  | .array items => .array (items.map sorted)
  | .object members => .ofMembers (members.map fun m => (m.1, m.2.sorted))
decreasing_by
  · decreasing_tactic
  · have hsize := List.sizeOf_lt_of_mem ‹_›
    cases m
    simp only [Prod.mk.sizeOf_spec, object.sizeOf_spec] at hsize ⊢
    omega

@[simp] lemma sorted_null : sorted .null = .null := by rw [sorted]

@[simp] lemma sorted_bool (b : Bool) : sorted (.bool b) = .bool b := by rw [sorted]

@[simp] lemma sorted_nat (n : Nat) : (Json.nat n).sorted = .nat n := by rw [nat, sorted]

@[simp] lemma sorted_string (s : String) : sorted (.string s) = .string s := by rw [sorted]

@[simp] lemma sorted_array (items : List Json) :
    sorted (.array items) = .array (items.map sorted) := by
  rw [sorted]

/-- A value in which the members of all objects are sorted by key. -/
inductive Sorted : Json → Prop
  | null : Sorted .null
  | bool (b : Bool) : Sorted (.bool b)
  | number (n : Number) : Sorted (.number n)
  | string (s : String) : Sorted (.string s)
  | array {items : List Json} (h : ∀ v ∈ items, Sorted v) : Sorted (.array items)
  | object {members : List (String × Json)} (hkeys : KeysSorted members)
      (h : ∀ m ∈ members, Sorted m.2) : Sorted (.object members)

lemma Sorted.sorted_eq {v : Json} (h : Sorted v) : v.sorted = v := by
  induction h with
  | null => exact sorted_null
  | bool b => exact sorted_bool b
  | number n => rw [sorted]
  | string s => exact sorted_string s
  | array h ih => rw [sorted_array, List.map_congr_left ih, List.map_id']
  | @object members hkeys h ih =>
    have hmembers : members.map (fun m => (m.1, m.2.sorted)) = members := by
      rw [List.map_congr_left fun m hm => congrArg (Prod.mk m.1) (ih m hm), List.map_id']
    rw [sorted, hmembers, ofMembers, sortMembers_of_keysSorted hkeys]

lemma Sorted.ofMembers {members : List (String × Json)} (h : ∀ m ∈ members, Sorted m.2) :
    Sorted (.ofMembers members) :=
  .object (keysSorted_sortMembers members) fun m hm => h m (mem_of_mem_sortMembers hm)

lemma sorted_sorted (v : Json) : v.sorted.Sorted := by
  induction v using sorted.induct with
  | case1 => simpa using Sorted.null
  | case2 b => simpa using Sorted.bool b
  | case3 n => simpa [sorted] using Sorted.number n
  | case4 s => simpa using Sorted.string s
  | case5 items ih =>
    rw [sorted_array]
    exact .array (List.forall_mem_map.mpr ih)
  | case6 members ih =>
    rw [sorted]
    exact .ofMembers (List.forall_mem_map.mpr ih)

/-! ### Values of sources -/

lemma atEnd_eq_ok_iff {α : Type} {stop : Option Break} {a b : α} :
    atEnd stop a = .ok b ↔ stop = none ∧ a = b := by
  cases stop with
  | none => simp [atEnd]
  | some _ => simp [atEnd]

mutual

/-- The value of a source is sorted, whatever its text is like. -/
lemma Source.sorted_of_value? {limit : Option Nat} {s : Source} {v : Json}
    (h : s.value? limit = .ok v) : v.Sorted := by
  match s with
  | .null _ => cases h; exact .null
  | .bool b _ => cases h; exact .bool b
  | .number n _ => cases h; exact .number n
  | .string t _ => cases h; exact .string t
  | .valueless _ _ => cases h
  | .broken _ => cases h
  | .array items stop span =>
    simp only [Source.value?, bind_eq_ok_iff, atEnd_eq_ok_iff] at h
    obtain ⟨_, -, values, hvalues, -, rfl⟩ := h
    exact .array (sorted_of_itemValues? hvalues)
  | .object members stop span =>
    simp only [Source.value?, bind_eq_ok_iff, atEnd_eq_ok_iff] at h
    obtain ⟨_, -, values, hvalues, -, rfl⟩ := h
    exact .ofMembers (sorted_of_memberValues? hvalues)

lemma sorted_of_itemValues? {limit : Option Nat} {items : List Source} {values : List Json}
    (h : itemValues? limit items = .ok values) : ∀ v ∈ values, v.Sorted := by
  match items with
  | [] => cases h; simp
  | s :: rest =>
    simp only [itemValues?, bind_eq_ok_iff, Except.ok.injEq] at h
    obtain ⟨v, hv, vs, hvs, rfl⟩ := h
    exact List.forall_mem_cons.mpr ⟨s.sorted_of_value? hv, sorted_of_itemValues? hvs⟩

lemma sorted_of_memberValues? {limit : Option Nat} {members : List (Member Source)}
    {values : List (String × Json)} (h : memberValues? limit members = .ok values) :
    ∀ m ∈ values, m.2.Sorted := by
  match members with
  | [] => cases h; simp
  | ⟨_, _, s⟩ :: rest =>
    simp only [memberValues?, bind_eq_ok_iff, Except.ok.injEq] at h
    obtain ⟨k, -, v, hv, vs, hvs, rfl⟩ := h
    exact List.forall_mem_cons.mpr ⟨s.sorted_of_value? hv, sorted_of_memberValues? hvs⟩

end

/-- Every value that is read from a text is sorted. -/
lemma sorted_of_parse {text : String} {v : Json} (h : parse text = .ok v) : v.Sorted := by
  rw [parse, mapError_eq_ok_iff, ofText?] at h
  split at h
  · rename_i hvalue _
    cases h
    exact Source.sorted_of_value? hvalue
  · cases h
  · cases h

lemma itemValues_eq {limit : Option Nat} {is : List Source} {items : List Json}
    (h : List.Forall₂ Source.Shows is items)
    (hvalue : ∀ (s : Source), ∀ v ∈ items, s.Shows v → s.value? limit = .ok v.sorted) :
    itemValues? limit is = .ok (items.map sorted) := by
  induction h with
  | nil => rfl
  | cons hs _ ih =>
    have hrest := ih fun s v hv => hvalue s v (List.mem_cons_of_mem _ hv)
    simp only [itemValues?, hvalue _ _ List.mem_cons_self hs, hrest, List.map_cons, bind,
      Except.bind]

lemma memberValues_eq {limit : Option Nat} {ms : List (Member Source)}
    {members : List (String × Json)} (h : List.Forall₂ Member.Shows ms members)
    (hvalue : ∀ (s : Source), ∀ m ∈ members, s.Shows m.2 → s.value? limit = .ok m.2.sorted) :
    memberValues? limit ms = .ok (members.map fun m => (m.1, m.2.sorted)) := by
  induction h with
  | nil => rfl
  | cons hm _ ih =>
    have hrest := ih fun s m hm => hvalue s m (List.mem_cons_of_mem _ hm)
    cases hm with
    | mk key afterKey hs =>
      simp only [memberValues?, hvalue _ _ List.mem_cons_self hs, hrest, List.map_cons, bind,
        Except.bind]

/-- The value of a source that shows a value is that value sorted, if it does not nest too deep. -/
lemma Source.Shows.value_eq {s : Source} {v : Json} (h : s.Shows v) (hv : v.depth ≤ n)
    {limit : Option Nat} (hlimit : ∀ k, limit = some k → n ≤ k) :
    s.value? limit = .ok v.sorted := by
  -- The bound goes down with each container that is entered, as the limit does.
  induction n generalizing s v limit with
  | zero =>
    cases h with
    | null | bool | number | string => rw [sorted]; rfl
    | array | object => cases hv
  | succ n ih =>
    cases h with
    | null | bool | number | string => rw [sorted]; rfl
    | array span his =>
      obtain ⟨limit', hdeeper, hlimit'⟩ := exists_deeper hlimit span
      have hdepth := itemsDepth_le_iff.mp (Nat.le_of_succ_le_succ hv)
      have hitems := itemValues_eq his fun s v hv hs => ih hs (hdepth v hv) hlimit'
      simp only [Source.value?, hdeeper, hitems, sorted, bind, Except.bind, atEnd]
    | object span hms =>
      obtain ⟨limit', hdeeper, hlimit'⟩ := exists_deeper hlimit span
      have hdepth := membersDepth_le_iff.mp (Nat.le_of_succ_le_succ hv)
      have hmembers := memberValues_eq hms fun s m hm hs => ih hs (hdepth m hm) hlimit'
      simp only [Source.value?, hdeeper, hmembers, sorted, bind, Except.bind, atEnd]

/-- The text of a value that nests within the limit is read, and the members are sorted. -/
theorem Exact.parse_render {v : Json} (h : Exact v) (hv : v.depth ≤ nestingLimit)
    (layout : Layout) : parse (String.ofList (render layout v)) = .ok v.sorted := by
  obtain ⟨s, hs, hdocument⟩ := h.exists_shows_ofText layout
  have hlimit : ∀ k, some nestingLimit = some k → nestingLimit ≤ k := by
    rintro _ ⟨⟩
    exact le_rfl
  simp only [parse, ofText?, hdocument, hs.value_eq hv hlimit]
  rfl

end AssemblyPolicy.Json
