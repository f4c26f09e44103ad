import AssemblyPolicy.Proofs.Json.Decoding

/-!
# What decoders take from values

`Decoder.Takes` says how all that a decoder gives is related to the value that it is shown. A field of a
record is taken from the part of the value that has its name, or its place when the record is an array
(`Fields.field_takes`). Only a field without a part has its default.
-/

namespace AssemblyPolicy.Json

variable {α β : Type} {name : String} {index : Nat}

/-! ### Parts of values -/

/-- The part of a record for a field: the member with its name, or the item at its place. -/
def part? (name : String) (index : Nat) : Json → Option Json
  | .object members => members.lookup name
  | .array items => items[index]?
  | _ => none

/-- The part of a record for a field, where the record is read from. -/
def Parts.part? (name : String) (index : Nat) : Parts → Option Source
  | .members ms _ => (occurrences name 0 ms).head?.map (·.2.value)
  | .items is _ _ _ => is[index]?

/-- A record is read from the parts of a value. -/
inductive Parts.Shows : Parts → Json → Prop
  | members {ms : List (Member Source)} {members : List (String × Json)} (rest : List Char)
      (h : List.Forall₂ Member.Shows ms members) : Parts.Shows (.members ms rest) (.object members)
  | items {is : List Source} {items : List Json} (stop : Option Break) (wanted : String)
      (rest : List Char) (h : List.Forall₂ Source.Shows is items) :
      Parts.Shows (.items is stop wanted rest) (.array items)

lemma rel_lookup {ms : List (Member Source)} {members : List (String × Json)}
    (h : List.Forall₂ Member.Shows ms members) (name : String) (part : Nat) :
    Option.Rel Source.Shows ((occurrences name part ms).head?.map (·.2.value))
      (members.lookup name) := by
  induction h generalizing part with
  | nil => exact .none
  | cons hm _ ih =>
    have hkey := hasKey_of_shows hm name
    cases hm with
    | mk key afterKey hs =>
      rw [occurrences, hkey, List.lookup_cons]
      by_cases heq : key = name
      · rw [if_pos (decide_eq_true heq), beq_iff_eq.mpr heq.symm]
        exact .some hs
      · rw [if_neg (by simpa using heq), beq_eq_false_iff_ne.mpr (Ne.symm heq)]
        exact ih (part + 1)

lemma rel_getElem? {is : List Source} {items : List Json} (h : List.Forall₂ Source.Shows is items)
    (index : Nat) : Option.Rel Source.Shows is[index]? items[index]? := by
  induction h generalizing index with
  | nil => exact .none
  | cons hs _ ih =>
    cases index with
    | zero => exact .some hs
    | succ index => exact ih index

lemma Parts.Shows.rel_part? {parts : Parts} {v : Json} (h : parts.Shows v) (name : String)
    (index : Nat) : Option.Rel Source.Shows (parts.part? name index) (v.part? name index) := by
  cases h with
  | members rest h => exact rel_lookup h name 0
  | items stop wanted rest h => exact rel_getElem? h index

/-! ### Decoders -/

/-- What the decoder gives for a value is related to it. -/
def Decoder.Takes (d : Decoder α) (r : Json → α → Prop) : Prop :=
  ∀ o s v a, s.Shows v → d o s = .ok a → r v a

/-- What the fields are read as is related to the value that shows them. The first of them has the
given place. -/
def Fields.Takes (f : Fields α) (r : Json → Nat → α → Prop) : Prop :=
  ∀ o parts index v a, parts.Shows v → f.read o parts index = .ok a → r v index a

variable {d : Decoder α} {f : Fields α} {g : Fields β} {r : Json → α → Prop}

namespace Decoder

lemma string_takes : string.Takes fun v s => v = .string s := by
  intro o source v s hs h
  cases hs with
  | string s' span =>
    cases h
    rfl
  | null | bool | number | array | object => cases h

lemma Takes.mono {r' : Json → α → Prop} (h : d.Takes r) (hr : ∀ v a, r v a → r' v a) :
    d.Takes r' :=
  fun o s v a hs ha => hr v a (h o s v a hs ha)

lemma Takes.option (h : d.Takes r) : d.option.Takes fun v a =>
    v = .null ∧ a = none ∨ ∃ x, a = some x ∧ r v x := by
  intro o s v a hs ha
  cases hs with
  | null span =>
    cases ha
    exact .inl ⟨rfl, rfl⟩
  | bool | number | string | array | object =>
    obtain ⟨x, hx, rfl⟩ := map_eq_ok_iff.mp ha
    exact .inr ⟨x, rfl, h o _ _ x (by constructor <;> assumption) hx⟩

lemma Takes.items (h : d.Takes r) {o : Origin} {is : List Source} {vs : List Json} {as : List α}
    (hs : List.Forall₂ Source.Shows is vs) (has : items d o is = .ok as) :
    List.Forall₂ r vs as := by
  induction hs generalizing as with
  | nil =>
    cases has
    exact .nil
  | cons hs _ ih =>
    obtain ⟨a, ha, hitems⟩ := bind_eq_ok_iff.mp has
    obtain ⟨rest, hrest, hend⟩ := bind_eq_ok_iff.mp hitems
    cases hend
    exact .cons (h _ _ _ _ hs (mapError_eq_ok_iff.mp ha)) (ih hrest)

lemma Takes.list (h : d.Takes r) : d.list.Takes fun v as =>
    ∃ vs, v = .array vs ∧ List.Forall₂ r vs as := by
  intro o s v as hs has
  cases hs with
  | array span his =>
    obtain ⟨o', -, hitems⟩ := bind_eq_ok_iff.mp has
    obtain ⟨as', hitems, hend⟩ := bind_eq_ok_iff.mp hitems
    cases hend
    exact ⟨_, rfl, h.items his hitems⟩
  | null | bool | number | string | object => cases has

end Decoder

/-! ### Fields -/

namespace Fields

lemma eq_ok_of_field {ofObject ofArray : Option α} {o : Origin} {parts : Parts} {a : α}
    (h : (field name ofObject ofArray d).read o parts index = .ok a) :
    (∃ s, parts.part? name index = some s ∧ d o s = .ok a) ∨
      parts.part? name index = none ∧ (ofObject = some a ∨ ofArray = some a) := by
  cases parts with
  | members ms rest =>
    simp only [field, readMember] at h
    split at h
    · next hnone =>
      split at h
      · cases h
        exact .inr ⟨by simp [Parts.part?, hnone], .inl rfl⟩
      · cases h
    · next hsome =>
      split at h
      · cases h
      · next hd =>
        cases h
        exact .inl ⟨_, by simp [Parts.part?, hsome], hd⟩
      · cases h
  | items is stop wanted rest =>
    simp only [field, readItem] at h
    split at h
    · next hsome => exact .inl ⟨_, hsome, mapError_eq_ok_iff.mp h⟩
    · cases h
    · next hnone =>
      cases h
      exact .inr ⟨hnone, .inr rfl⟩
    · cases h

/-- A field is taken from its part. -/
lemma field_takes {ofObject ofArray : Option α} (h : d.Takes r) :
    (field name ofObject ofArray d).Takes fun v index a =>
      (∃ w, v.part? name index = some w ∧ r w a) ∨
        v.part? name index = none ∧ (ofObject = some a ∨ ofArray = some a) := by
  intro o parts index v a hv ha
  have hrel := hv.rel_part? name index
  rcases eq_ok_of_field ha with ⟨s, hs, hd⟩ | ⟨hnone, hdefault⟩
  · rw [hs] at hrel
    cases hw : v.part? name index with
    | none =>
      rw [hw] at hrel
      cases hrel
    | some w =>
      rw [hw] at hrel
      cases hrel with
      | some hs => exact .inl ⟨w, rfl, h _ _ _ _ hs hd⟩
  · rw [hnone] at hrel
    refine .inr ⟨?_, hdefault⟩
    cases hw : v.part? name index with
    | none => rfl
    | some w =>
      rw [hw] at hrel
      cases hrel

lemma required_takes (h : d.Takes r) : (required name d).Takes fun v index a =>
    ∃ w, v.part? name index = some w ∧ r w a := by
  intro o parts index v a hv ha
  rcases field_takes h o parts index v a hv ha with hw | ⟨-, hdefault | hdefault⟩
  · exact hw
  · cases hdefault
  · cases hdefault

lemma withDefault_takes {b : α} (h : d.Takes r) : (withDefault name b d).Takes fun v index a =>
    (∃ w, v.part? name index = some w ∧ r w a) ∨ v.part? name index = none ∧ a = b := by
  intro o parts index v a hv ha
  refine (field_takes h o parts index v a hv ha).imp_right fun ⟨hnone, hdefault⟩ => ⟨hnone, ?_⟩
  cases hdefault with
  | inl hobject => exact (Option.some.inj hobject).symm
  | inr harray => exact (Option.some.inj harray).symm

lemma Takes.mono {r r' : Json → Nat → α → Prop} (hf : f.Takes r)
    (h : ∀ v index a, r v index a → r' v index a) : f.Takes r' :=
  fun o parts index v a hv ha => h v index a (hf o parts index v a hv ha)

lemma Takes.before {r : Json → Nat → α → Prop} (hf : f.Takes r) (g : Fields β) :
    (f.and g).Takes fun v index c => r v index c.1 := by
  intro o parts index v c hv hc
  exact hf _ _ _ _ _ hv (inOrder_eq_ok_iff.mp hc).1

lemma Takes.after {r : Json → Nat → β → Prop} (hg : g.Takes r) (f : Fields α) :
    (f.and g).Takes fun v index c => r v (index + f.names.length) c.2 := by
  intro o parts index v c hv hc
  exact hg _ _ _ _ _ hv (inOrder_eq_ok_iff.mp hc).2

lemma Takes.and {r : Json → Nat → α → Prop} {r' : Json → Nat → β → Prop} (hf : f.Takes r)
    (hg : g.Takes r') :
    (f.and g).Takes fun v index c => r v index c.1 ∧ r' v (index + f.names.length) c.2 := by
  intro o parts index v c hv hc
  exact ⟨hf.before g _ _ _ _ _ hv hc, hg.after f _ _ _ _ _ hv hc⟩

lemma Takes.map {r : Json → Nat → β → Prop} {h : α → β}
    (hf : f.Takes fun v index a => r v index (h a)) : (f.map h).Takes r := by
  intro o parts index v b hv hb
  obtain ⟨a, ha, rfl⟩ := map_eq_ok_iff.mp hb
  exact hf _ _ _ _ _ hv ha

end Fields

lemma Decoder.record_takes {kind : String} {r : Json → Nat → α → Prop} (h : f.Takes r) :
    (record kind f).Takes fun v a => r v 0 a := by
  intro o s v a hs ha
  cases hs with
  | object span hms =>
    obtain ⟨o', -, hread⟩ := bind_eq_ok_iff.mp ha
    obtain ⟨⟨a', _⟩, hread, hend⟩ := bind_eq_ok_iff.mp hread
    cases hend
    exact h _ _ _ _ _ (.members _ hms) (inOrder_eq_ok_iff.mp (dropPart_eq_ok_iff.mp hread)).1
  | array span his =>
    obtain ⟨o', -, hread⟩ := bind_eq_ok_iff.mp ha
    obtain ⟨a', hread, hend⟩ := bind_eq_ok_iff.mp hread
    obtain ⟨-, -, hend⟩ := bind_eq_ok_iff.mp hend
    cases hend
    exact h _ _ _ _ _ (.items _ _ _ his) (dropPart_eq_ok_iff.mp hread)
  | null | bool | number | string => cases ha

lemma Decoder.Takes.ofValue (h : d.Takes r) {v : Json} {a : α} (ha : d.ofValue v = .ok a) : r v a :=
  h _ _ _ _ (Source.shows_ofJson v) (mapError_eq_ok_iff.mp ha)

end AssemblyPolicy.Json
