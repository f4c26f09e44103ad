import AssemblyPolicy.Proofs.Json.Sorted

/-!
# Steps into values

Steps lead from a JSON value to the members of objects and the items of arrays. `Json.at?` is the
value at the end of some steps and `Json.headAt?` what that value is, its own parts left out. A sorted
value is known by its heads (`Sorted.eq_of_headAt?_eq`).
-/

namespace AssemblyPolicy.Json

/-- A step from a value to one of its parts. -/
inductive Step where
  | member (key : String)
  | item (i : Nat)
  deriving DecidableEq

/-- The part that a step leads to. -/
def child? : Json → Step → Option Json
  | .object members, .member key => members.lookup key
  | .array items, .item i => items[i]?
  | _, _ => none

/-- The value that some steps lead to. -/
def at? : Json → List Step → Option Json
  | v, [] => some v
  | v, s :: p => (v.child? s).bind fun x => x.at? p

/-- What a value is, its parts left out. -/
inductive Head where
  | null
  | bool (b : Bool)
  | number (n : Number)
  | string (s : String)
  | array (length : Nat)
  | object (keys : List String)
  deriving DecidableEq

/-- Does a value with this head have the part that the step leads to? -/
def Head.HasStep : Head → Step → Prop
  | .array length, .item i => i < length
  | .object keys, .member key => key ∈ keys
  | _, _ => False

def head : Json → Head
  | .null => .null
  | .bool b => .bool b
  | .number n => .number n
  | .string s => .string s
  | .array items => .array items.length
  | .object members => .object (members.map (·.1))

def headAt? (v : Json) (p : List Step) : Option Head := (v.at? p).map head

variable {v w : Json} {p : List Step} {s : Step}

lemma child?_member (v : Json) (key : String) : v.child? (.member key) = v.get? key := by
  cases v with
  | null | bool | number | string | array | object => rfl

lemma at?_append (v : Json) (p q : List Step) : v.at? (p ++ q) = (v.at? p).bind (·.at? q) := by
  induction p generalizing v with
  | nil => rfl
  | cons s p ih => simp only [List.cons_append, at?, ih, Option.bind_assoc]

lemma at?_concat (v : Json) (p : List Step) (s : Step) :
    v.at? (p ++ [s]) = (v.at? p).bind (·.child? s) := by
  simp [at?_append, at?]

@[simp] lemma headAt?_nil (v : Json) : v.headAt? [] = some v.head := rfl

lemma headAt?_cons (v : Json) (s : Step) (p : List Step) :
    v.headAt? (s :: p) = (v.child? s).bind fun x => x.headAt? p := by
  simp only [headAt?, at?, Option.map_bind]
  rfl

/-! ### Members with other values -/

/-- Change the values of members, each as its key says. -/
def mapValues (f : String → Json → Json) (members : List (String × Json)) : List (String × Json) :=
  members.map fun m => (m.1, f m.1 m.2)

variable {f : String → Json → Json} {members : List (String × Json)}

@[simp] lemma keys_mapValues : (mapValues f members).map (·.1) = members.map (·.1) := by
  simp [mapValues]

lemma lookup_mapValues (key : String) :
    (mapValues f members).lookup key = (members.lookup key).map (f key) := by
  induction members with
  | nil => rfl
  | cons m members ih =>
    obtain ⟨k, v⟩ := m
    simp only [mapValues, List.map_cons, List.lookup_cons] at ih ⊢
    cases hk : key == k with
    | true => simp [beq_iff_eq.mp hk]
    | false => exact ih

lemma mapValues_mapValues (f g : String → Json → Json) (members : List (String × Json)) :
    mapValues f (mapValues g members) = mapValues (fun k v => f k (g k v)) members := by
  simp [mapValues]

lemma insertMember_mapValues (key : String) (value : Json) :
    insertMember key (f key value) (mapValues f members) =
      mapValues f (insertMember key value members) := by
  induction members with
  | nil => rfl
  | cons m members ih =>
    simp only [mapValues, List.map_cons, insertMember] at ih ⊢
    split_ifs with hlt heq
    · rfl
    · rfl
    · rw [ih, List.map_cons]

lemma sortMembers_mapValues (f : String → Json → Json) (members : List (String × Json)) :
    sortMembers (mapValues f members) = mapValues f (sortMembers members) := by
  induction members using List.reverseRecOn with
  | nil => rfl
  | append_singleton members m ih =>
    have hconcat : mapValues f (members ++ [m]) = mapValues f members ++ [(m.1, f m.1 m.2)] := by
      simp [mapValues]
    rw [hconcat, sortMembers_concat, sortMembers_concat, ih, insertMember_mapValues]

lemma Sorted.mapValues (h : Sorted (.object members))
    (hf : ∀ m ∈ members, m.2.Sorted → (f m.1 m.2).Sorted) :
    Sorted (.object (mapValues f members)) := by
  cases h with
  | object hkeys hmembers =>
    refine .object (List.pairwise_map.mpr hkeys) (List.forall_mem_map.mpr fun m hm => ?_)
    exact hf m hm (hmembers m hm)

/-! ### Values with the same heads -/

/-- The head of a value tells which steps can be taken from it. -/
lemma isSome_child?_iff : (v.child? s).isSome ↔ v.head.HasStep s := by
  cases v with
  | null | bool | number | string => simp [child?, head, Head.HasStep]
  | array items =>
    cases s with
    | member => simp [child?, head, Head.HasStep]
    | item i => simp [child?, head, Head.HasStep, ← Option.ne_none_iff_isSome]
  | object members =>
    cases s with
    | member key =>
      simp only [child?, List.lookup_isSome_iff, beq_iff_eq, head, Head.HasStep, List.mem_map]
      exact exists_congr fun m => and_congr_right' eq_comm
    | item => simp [child?, head, Head.HasStep]

lemma isSome_child?_eq (h : v.head = w.head) (s : Step) :
    (v.child? s).isSome = (w.child? s).isSome := by
  rw [Bool.eq_iff_iff, isSome_child?_iff, isSome_child?_iff, h]

/-- Steps that can be taken from both values or from neither. -/
lemma child?_cases (h : v.head = w.head) (s : Step) :
    v.child? s = none ∧ w.child? s = none ∨
      ∃ x y, v.child? s = some x ∧ w.child? s = some y := by
  have hsome := isSome_child?_eq h s
  cases hv : v.child? s with
  | none => exact .inl ⟨rfl, by simpa [hv] using hsome.symm⟩
  | some x =>
    obtain ⟨y, hy⟩ := Option.isSome_iff_exists.mp (by simpa [hv] using hsome.symm)
    exact .inr ⟨x, y, rfl, hy⟩

/-- Where heads agree, the next step can be taken in both values or in neither. -/
lemma isSome_at?_concat_eq (h : v.headAt? p = w.headAt? p) (s : Step) :
    (v.at? (p ++ [s])).isSome = (w.at? (p ++ [s])).isSome := by
  rw [at?_concat, at?_concat]
  cases hv : v.at? p with
  | none =>
    cases hw : w.at? p with
    | none => rfl
    | some y => simp [headAt?, hv, hw] at h
  | some x =>
    cases hw : w.at? p with
    | none => simp [headAt?, hv, hw] at h
    | some y => exact isSome_child?_eq (by simpa [headAt?, hv, hw] using h) s

/-- Objects with the same keys are equal when the parts are. -/
lemma eq_of_lookup_eq {members' : List (String × Json)} (hnodup : (members.map (·.1)).Nodup)
    (hkeys : members.map (·.1) = members'.map (·.1))
    (h : ∀ key, members.lookup key = members'.lookup key) : members = members' := by
  refine List.ext_getElem (by simpa using congrArg List.length hkeys) fun i hi hi' => ?_
  have hkey : members[i].1 = members'[i].1 := by
    simpa [hi, hi'] using congrArg (fun keys => keys[i]?) hkeys
  have hvalue : members'.lookup members'[i].1 = some members'[i].2 :=
    (lookup_eq_some_iff_mem (hkeys ▸ hnodup)).mpr (List.getElem_mem hi')
  have hvalue' : members.lookup members[i].1 = some members[i].2 :=
    (lookup_eq_some_iff_mem hnodup).mpr (List.getElem_mem hi)
  rw [h, hkey, hvalue] at hvalue'
  exact Prod.ext hkey (Option.some.inj hvalue').symm

lemma ofMembers_inj {members' : List (String × Json)} (hnodup : (members.map (·.1)).Nodup)
    (hkeys : members.map (·.1) = members'.map (·.1)) :
    Json.ofMembers members = .ofMembers members' ↔ members = members' := by
  refine ⟨fun h => eq_of_lookup_eq hnodup hkeys fun key => ?_, congrArg _⟩
  rw [← get?_ofMembers hnodup, h, get?_ofMembers (hkeys ▸ hnodup)]

lemma Sorted.eq_of_child?_eq (hv : v.Sorted) (hhead : v.head = w.head)
    (hchild : ∀ s, v.child? s = w.child? s) : v = w := by
  cases hv with
  | null | bool | number | string => cases w <;> cases hhead; rfl
  | array =>
    cases w with
    | array items' => exact congrArg Json.array (List.ext_getElem? fun i => hchild (.item i))
    | null | bool | number | string | object => cases hhead
  | object hkeys =>
    cases w with
    | object members' =>
      refine congrArg Json.object (eq_of_lookup_eq hkeys.nodup (Head.object.inj hhead) ?_)
      exact fun key => hchild (.member key)
    | null | bool | number | string | array => cases hhead

/-- Where all heads agree, the parts do if they are known by their heads. -/
lemma child?_eq_of_headAt?_eq (h : ∀ p, v.headAt? p = w.headAt? p)
    (hpart : ∀ x, v.child? s = some x → ∀ y, (∀ p, x.headAt? p = y.headAt? p) → x = y) :
    v.child? s = w.child? s := by
  have hhead : v.head = w.head := by simpa using h []
  rcases child?_cases hhead s with ⟨hv, hw⟩ | ⟨x, y, hx, hy⟩
  · rw [hv, hw]
  · rw [hx, hy, hpart x hx y fun p => ?_]
    simpa [headAt?_cons, hx, hy] using h (s :: p)

/-- Induction from the parts of a value to the value. -/
theorem Sorted.parts_induction {motive : ∀ v : Json, v.Sorted → Prop}
    (step : ∀ v (hv : v.Sorted), (∀ s x, v.child? s = some x → ∃ hx, motive x hx) → motive v hv)
    {v : Json} (hv : v.Sorted) : motive v hv := by
  induction hv with
  | null => exact step _ .null nofun
  | bool b => exact step _ (.bool b) nofun
  | number n => exact step _ (.number n) nofun
  | string t => exact step _ (.string t) nofun
  | array hitems ih =>
    refine step _ (.array hitems) fun s x hx => ?_
    cases s with
    | member => cases hx
    | item i => exact ⟨_, ih x (List.mem_of_getElem? hx)⟩
  | object hkeys hmembers ih =>
    refine step _ (.object hkeys hmembers) fun s x hx => ?_
    cases s with
    | member key => exact ⟨_, ih _ ((lookup_eq_some_iff_mem hkeys.nodup).mp hx)⟩
    | item => cases hx

/-- A sorted value is known by its heads. -/
theorem Sorted.eq_of_headAt?_eq (hv : v.Sorted) (h : ∀ p, v.headAt? p = w.headAt? p) : v = w := by
  induction hv using Sorted.parts_induction generalizing w with
  | step v hv ih =>
    have hhead : v.head = w.head := by simpa using h []
    refine hv.eq_of_child?_eq hhead fun s => child?_eq_of_headAt?_eq h fun x hx y hxy => ?_
    obtain ⟨-, hpart⟩ := ih s x hx
    exact hpart hxy

end AssemblyPolicy.Json
