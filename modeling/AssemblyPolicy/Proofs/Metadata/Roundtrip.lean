import AssemblyPolicy.Metadata.Encoder
import AssemblyPolicy.Proofs.Json.Decoding
import AssemblyPolicy.Proofs.Metadata.WellFormed

/-!
# Encoding and decoding metadata

The decoder of metadata gives back what was encoded, from a value and from its text in any layout
(`AssemblyModel.roundtrip`). Numbers must fit 32 bits, as all that is decoded do.
-/

namespace AssemblyPolicy

open Json

/-! ### Numbers that fit -/

structure MethodBody.Fits (b : MethodBody) : Prop where
  indices : ∀ l ∈ b.locals, l.index < UInt32.size
  offsets : ∀ i ∈ b.instructions, i.offset < UInt32.size

def MethodDef.Fits (m : MethodDef) : Prop := ∀ b, m.body = some b → b.Fits

def TypeDef.Fits (t : TypeDef) : Prop := ∀ m ∈ t.methods, m.Fits

/-- Indices of local variables and offsets of instructions fit 32 bits. -/
def AssemblyModel.Fits (a : AssemblyModel) : Prop := ∀ t ∈ a.types, t.Fits

/-! ### Decoding what was encoded -/

variable (n : Nat)

lemma TypeRef.reads (t : TypeRef) : TypeRef.decode.Reads (n + 1) t.toJson t := by
  have hassembly := Decoder.string_reads n t.assembly
  have hns := Decoder.string_reads n t.ns
  have hname := Decoder.string_reads n t.name
  refine Decoder.record_reads (.map (a := (t.assembly, t.ns, t.name)) _ ?_) rfl (by decide)
  refine .and (Fields.field_reads ?_ hassembly)
    (.and (Fields.field_reads ?_ hns) (Fields.field_reads ?_ hname))
  all_goals simp [members]

/-- A name and the type of what has it, which is under a key of its own. -/
lemma reads_nameAndType {entries : List (String × Option Json)} {name key : String} {t : TypeRef}
    (hname : ("name", some (.string name)) ∈ entries) (htype : (key, some t.toJson) ∈ entries) :
    ((Fields.required "name" Decoder.string).and (Fields.required key TypeRef.decode)).Reads (n + 1)
      entries (name, t) :=
  .and (Fields.field_reads hname (Decoder.string_reads _ name))
    (Fields.field_reads htype (t.reads n))

lemma FieldRef.reads (f : FieldRef) : FieldRef.decode.Reads (n + 2) (.record
    [("declaring_type", some f.declaringType.toJson), ("name", some (.string f.name)),
      ("field_type", some f.fieldType.toJson)]) f := by
  have hdeclaringType := f.declaringType.reads n
  refine Decoder.record_reads (.map (a := (f.declaringType, f.name, f.fieldType)) _ ?_)
    rfl (by decide)
  refine .and (Fields.field_reads ?_ hdeclaringType) (reads_nameAndType n ?_ ?_)
  all_goals simp

lemma PropertyRef.reads (p : PropertyRef) : PropertyRef.decode.Reads (n + 2) (.record
    [("declaring_type", some p.declaringType.toJson), ("name", some (.string p.name)),
      ("property_type", some p.propertyType.toJson)]) p := by
  have hdeclaringType := p.declaringType.reads n
  refine Decoder.record_reads (.map (a := (p.declaringType, p.name, p.propertyType)) _ ?_)
    rfl (by decide)
  refine .and (Fields.field_reads ?_ hdeclaringType) (reads_nameAndType n ?_ ?_)
  all_goals simp

lemma MethodRef.reads (m : MethodRef) : MethodRef.decode.Reads (n + 2) m.toJson m := by
  have hdeclaringType := m.declaringType.reads n
  have hname := Decoder.string_reads (n + 1) m.name
  have hsignature := Decoder.string_reads (n + 1) m.signature
  refine Decoder.record_reads
    (.map (a := (m.declaringType, m.name, m.signature)) _ ?_)
    rfl (by decide)
  refine .and (Fields.field_reads ?_ hdeclaringType)
    (.and (Fields.field_reads ?_ hname) (Fields.field_reads ?_ hsignature))
  all_goals simp [members]

namespace MemberRef

variable {n : Nat}

lemma findKind_of_shows {o : Origin} (ho : o.Allows n) {ms : List (Member Source)}
    {members : List (String × Json)} (h : List.Forall₂ Member.Shows ms members)
    (hmembers : ∀ m ∈ members, m.1 ≠ "kind" ∧ m.2.depth ≤ n) (rest : List Char) (kind : Kind) :
    findKind o none rest (some kind) ms = .ok kind := by
  induction h with
  | nil => rfl
  | cons hm _ ih =>
    obtain ⟨hkey, hdepth⟩ := hmembers _ List.mem_cons_self
    have hrest := ih fun m hm => hmembers m (List.mem_cons_of_mem _ hm)
    cases hm with
    | mk key afterKey hs =>
      have hany := Decoder.any_reads hdepth o _ ho hs
      unfold findKind
      split
      · contradiction
      · next heq _ => exact absurd (Except.ok.inj heq) hkey
      · contradiction
      · simp only [hany, hrest, bind, Except.bind]

/-- A record whose first member names its kind is decoded as what the rest is for that kind. -/
lemma reads_tagged {name : String} {kind : Kind} (hkind : Kind.byName.lookup name = some kind)
    {entries : List (String × Option Json)}
    (hentries : ∀ e ∈ entries, ∀ v, e.2 = some v → e.1 ≠ "kind" ∧ v.depth ≤ n) {k : Nat}
    {m : MemberRef} (h : (decodeAs kind).Reads k (.record entries) m) :
    decode.Reads (n + 1) (.record (("kind", some (.string name)) :: entries)) m := by
  intro o s ho hs
  have hmembers : ∀ m ∈ present entries, m.1 ≠ "kind" ∧ m.2.depth ≤ n := forall_present hentries
  cases hs with
  | object span hms =>
    change List.Forall₂ _ _ (("kind", Json.string name) :: present entries) at hms
    cases hms with
    | @cons _ _ ms _ hm hms =>
      cases hm with
      | mk key afterKey hs =>
        cases hs with
        | string _ nameSpan =>
          obtain ⟨o', henter, ho'⟩ := ho.exists_enter span
          have hname : Kind.decode o' (.string name nameSpan) = .ok kind := by
            simp only [Kind.decode, Decoder.variant, hkind, Except.mapError]
          have hfind := fun rest => findKind_of_shows ho' hms hmembers rest kind
          have hfilter : ms.filter (!·.hasKey "kind") = ms := by
            have hkeys := hasKey_eq_false hms fun m hm => (hmembers m hm).1
            exact List.filter_eq_self.mpr fun m hm => by simp [hkeys m hm]
          have hunlimited := Origin.buffer.allows_of_unlimited rfl k
          have hrest := h .buffer (.object ms none span) hunlimited (.object span hms)
          simp only [decode, henter, findKind, hname, hfind, bind, Except.bind]
          rw [List.filter_cons_of_neg (by simp [Member.hasKey]), hfilter]
          exact hrest

lemma depth_typeRef (t : TypeRef) : t.toJson.depth = 1 := rfl

lemma reads (m : MemberRef) : decode.Reads (n + 2) m.toJson m := by
  cases m with
  | type t =>
    have hread : (decodeAs .type).Reads 1 t.toJson (.type t) :=
      fun o s ho hs => congrArg (Except.map MemberRef.type) (t.reads 0 o s ho hs)
    refine reads_tagged rfl ?_ hread
    simp [TypeRef.members, depth]
  | field f =>
    have hread : (decodeAs .field).Reads 2 _ (.field f) :=
      fun o s ho hs => congrArg (Except.map MemberRef.field) (f.reads 0 o s ho hs)
    refine reads_tagged rfl ?_ hread
    simp [depth, depth_typeRef]
  | property p =>
    have hread : (decodeAs .property).Reads 2 _ (.property p) :=
      fun o s ho hs => congrArg (Except.map MemberRef.property) (p.reads 0 o s ho hs)
    refine reads_tagged rfl ?_ hread
    simp [depth, depth_typeRef]
  | method m =>
    have hread : (decodeAs .method).Reads 2 m.toJson (.method m) :=
      fun o s ho hs => congrArg (Except.map MemberRef.method) (m.reads 0 o s ho hs)
    refine reads_tagged rfl ?_ hread
    simp [MethodRef.members, depth, depth_typeRef]

lemma toJson_ne_null (m : MemberRef) : m.toJson ≠ .null := by
  cases m with
  | type | field | property | method => exact record_ne_null _

end MemberRef

lemma LocalVar.reads {l : LocalVar} (h : l.index < UInt32.size) :
    LocalVar.decode.Reads (n + 2) l.toJson l := by
  have hindex := Decoder.u32_reads (n + 1) h
  have hvarType := l.varType.reads n
  refine Decoder.record_reads (.map (a := (l.index, l.varType)) _ ?_) rfl (by decide)
  refine .and (Fields.field_reads ?_ hindex) (Fields.field_reads ?_ hvarType)
  all_goals simp

lemma Instruction.reads {i : Instruction} (h : i.offset < UInt32.size) :
    Instruction.decode.Reads (n + 3) i.toJson i := by
  have hoffset := Decoder.u32_reads (n + 2) h
  have hopcode := Decoder.string_reads (n + 2) i.opcode
  have hoperand : ∀ m, i.operand = some m → MemberRef.decode.Reads (n + 2) m.toJson m :=
    fun m _ => m.reads
  refine Decoder.record_reads (.map (a := (i.offset, i.opcode, i.operand)) _ ?_) rfl (by decide)
  refine .and (Fields.field_reads ?_ hoffset) (.and (Fields.field_reads ?_ hopcode)
    (Fields.optional_reads ?_ hoperand MemberRef.toJson_ne_null))
  all_goals simp

lemma MethodBody.reads {b : MethodBody} (h : b.Fits) :
    MethodBody.decode.Reads (n + 5) b.toJson b := by
  have hlocals : LocalVar.decode.list.Reads (n + 4) (.array (b.locals.map LocalVar.toJson))
      b.locals :=
    Decoder.list_reads fun l hl => LocalVar.reads (n + 1) (h.indices l hl)
  have hinstructions : Instruction.decode.list.Reads (n + 4)
      (.array (b.instructions.map Instruction.toJson)) b.instructions :=
    Decoder.list_reads fun i hi => Instruction.reads n (h.offsets i hi)
  refine Decoder.record_reads (.map (a := (b.locals, b.instructions)) _ ?_) rfl (by decide)
  refine .and (Fields.field_reads ?_ hlocals) (Fields.field_reads ?_ hinstructions)
  all_goals simp

lemma MethodDef.reads {m : MethodDef} (h : m.Fits) :
    MethodDef.decode.Reads (n + 6) m.toJson m := by
  have hname := Decoder.string_reads (n + 5) m.name
  have hsignature := Decoder.string_reads (n + 5) m.signature
  have hbody : ∀ b, m.body = some b → MethodBody.decode.Reads (n + 5) b.toJson b :=
    fun b hb => MethodBody.reads n (h b hb)
  refine Decoder.record_reads (.map (a := (m.name, m.signature, m.body)) _ ?_) rfl (by decide)
  refine .and (Fields.field_reads ?_ hname) (.and (Fields.field_reads ?_ hsignature)
    (Fields.optional_reads ?_ hbody fun b => record_ne_null _))
  all_goals simp

lemma FieldDef.reads (f : FieldDef) : FieldDef.decode.Reads (n + 2) f.toJson f := by
  refine Decoder.record_reads (.map (a := (f.name, f.fieldType)) _ ?_) rfl (by decide)
  refine reads_nameAndType n ?_ ?_
  all_goals simp

lemma PropertyDef.reads (p : PropertyDef) : PropertyDef.decode.Reads (n + 2) p.toJson p := by
  refine Decoder.record_reads (.map (a := (p.name, p.propertyType)) _ ?_) rfl (by decide)
  refine reads_nameAndType n ?_ ?_
  all_goals simp

lemma TypeDef.reads {t : TypeDef} (h : t.Fits) : TypeDef.decode.Reads (n + 8) t.toJson t := by
  have hns := Decoder.string_reads (n + 7) t.ns
  have hname := Decoder.string_reads (n + 7) t.name
  have hbase : ∀ b, t.baseType = some b → TypeRef.decode.Reads (n + 7) b.toJson b :=
    fun b _ => b.reads (n + 6)
  have hfields : FieldDef.decode.list.Reads (n + 7) (.array (t.fields.map FieldDef.toJson))
      t.fields :=
    Decoder.list_reads fun f _ => f.reads (n + 4)
  have hproperties : PropertyDef.decode.list.Reads (n + 7)
      (.array (t.properties.map PropertyDef.toJson)) t.properties :=
    Decoder.list_reads fun p _ => p.reads (n + 4)
  have hmethods : MethodDef.decode.list.Reads (n + 7) (.array (t.methods.map MethodDef.toJson))
      t.methods :=
    Decoder.list_reads fun m hm => MethodDef.reads n (h m hm)
  refine Decoder.record_reads
    (.map (a := (t.ns, t.name, t.baseType, t.fields, t.properties, t.methods)) _ ?_)
    rfl (by decide)
  refine .and (Fields.field_reads ?_ hns) (.and (Fields.field_reads ?_ hname)
    (.and (Fields.optional_reads ?_ hbase fun b => record_ne_null _)
      (.and (Fields.field_reads ?_ hfields) (.and (Fields.field_reads ?_ hproperties)
        (Fields.field_reads ?_ hmethods)))))
  all_goals simp

lemma AssemblyModel.reads {a : AssemblyModel} (h : a.Fits) :
    AssemblyModel.decode.Reads (n + 10) a.toJson a := by
  have hschema : ∀ s, a.schema = some s → Decoder.string.Reads (n + 9) (.string s) s :=
    fun s _ => Decoder.string_reads (n + 9) s
  have hname := Decoder.string_reads (n + 9) a.name
  have htypes : TypeDef.decode.list.Reads (n + 9) (.array (a.types.map TypeDef.toJson)) a.types :=
    Decoder.list_reads fun t ht => TypeDef.reads n (h t ht)
  refine Decoder.record_reads (.map (a := (a.schema, a.name, a.types)) _ ?_) rfl (by decide)
  refine .and (Fields.optional_reads ?_ hschema nofun) (.and (Fields.field_reads ?_ hname)
    (Fields.field_reads ?_ htypes))
  all_goals simp

/-! ### Texts of what was encoded -/

lemma TypeRef.exact_toJson (t : TypeRef) : Exact t.toJson := by
  simp [toJson, members, exact_record_iff, Exact.string]

lemma MemberRef.exact_toJson (m : MemberRef) : Exact m.toJson := by
  cases m with
  | type t => simp [toJson, TypeRef.members, exact_record_iff, Exact.string]
  | field f => simp [toJson, exact_record_iff, Exact.string, TypeRef.exact_toJson]
  | property p => simp [toJson, exact_record_iff, Exact.string, TypeRef.exact_toJson]
  | method m =>
    simp [toJson, MethodRef.members, exact_record_iff, Exact.string, TypeRef.exact_toJson]

lemma MethodBody.exact_toJson {b : MethodBody} (h : b.Fits) : Exact b.toJson := by
  have hlocal : ∀ l ∈ b.locals, Exact l.toJson := by
    intro l hl
    simp [LocalVar.toJson, exact_record_iff, exact_u32 (h.indices l hl), TypeRef.exact_toJson]
  have hinstruction : ∀ i ∈ b.instructions, Exact i.toJson := by
    intro i hi
    simp [Instruction.toJson, exact_record_iff, exact_u32 (h.offsets i hi), Exact.string,
      MemberRef.exact_toJson]
  simpa [toJson, exact_record_iff, exact_array_iff] using ⟨hlocal, hinstruction⟩

lemma MethodDef.exact_toJson {m : MethodDef} (h : m.Fits) : Exact m.toJson := by
  simpa [toJson, exact_record_iff, Exact.string] using fun b hb => MethodBody.exact_toJson (h b hb)

lemma TypeDef.exact_toJson {t : TypeDef} (h : t.Fits) : Exact t.toJson := by
  have hmethod : ∀ m ∈ t.methods, Exact m.toJson := fun m hm => MethodDef.exact_toJson (h m hm)
  simpa [toJson, FieldDef.toJson, PropertyDef.toJson, exact_record_iff, exact_array_iff,
    Exact.string, TypeRef.exact_toJson] using hmethod

lemma AssemblyModel.exact_toJson {a : AssemblyModel} (h : a.Fits) : Exact a.toJson := by
  have htype : ∀ t ∈ a.types, Exact t.toJson := fun t ht => TypeDef.exact_toJson (h t ht)
  simpa [toJson, exact_record_iff, exact_array_iff, Exact.string] using htype

/-! ### Decoding gives numbers that fit -/

lemma LocalVar.decode_yields : LocalVar.decode.Yields (·.index < UInt32.size) := by
  refine Decoder.record_yields (.map ?_)
  refine .mono (.and (Fields.withDefault_yields Decoder.u32_yields ?_) (Fields.yields_true _)) ?_
  · decide
  · intro fields h
    exact h.1

lemma Instruction.decode_yields : Instruction.decode.Yields (·.offset < UInt32.size) := by
  refine Decoder.record_yields (.map ?_)
  refine .mono (.and (Fields.withDefault_yields Decoder.u32_yields ?_) (Fields.yields_true _)) ?_
  · decide
  · intro fields h
    exact h.1

lemma MethodBody.decode_yields : MethodBody.decode.Yields MethodBody.Fits := by
  refine Decoder.record_yields (.map ?_)
  refine .mono (.and (Fields.withDefault_yields LocalVar.decode_yields.list ?_)
    (Fields.withDefault_yields Instruction.decode_yields.list ?_)) ?_
  · simp
  · simp
  · intro fields h
    exact ⟨h.1, h.2⟩

lemma MethodDef.decode_yields : MethodDef.decode.Yields MethodDef.Fits := by
  refine Decoder.record_yields (.map ?_)
  refine .mono (.and (Fields.yields_true _) (.and (Fields.yields_true _)
    (Fields.optional_yields MethodBody.decode_yields))) ?_
  rintro fields ⟨-, -, hbody⟩
  exact hbody

lemma TypeDef.decode_yields : TypeDef.decode.Yields TypeDef.Fits := by
  refine Decoder.record_yields (.map ?_)
  refine .mono (.and (Fields.yields_true _) (.and (Fields.yields_true _)
    (.and (Fields.yields_true _) (.and (Fields.yields_true _) (.and (Fields.yields_true _)
      (Fields.withDefault_yields MethodDef.decode_yields.list ?_)))))) ?_
  · simp
  · rintro fields ⟨-, -, -, -, -, hmethods⟩
    exact hmethods

lemma AssemblyModel.decode_yields : AssemblyModel.decode.Yields AssemblyModel.Fits := by
  refine Decoder.record_yields (.map ?_)
  refine .mono (.and (Fields.yields_true _) (.and (Fields.yields_true _)
    (Fields.withDefault_yields TypeDef.decode_yields.list ?_))) ?_
  · simp
  · rintro fields ⟨-, -, htypes⟩
    exact htypes

/-! ### Round trips -/

namespace AssemblyModel

/-- The text of an assembly's metadata. -/
def snapshot (layout : Layout) (a : AssemblyModel) : String :=
  String.ofList (render layout a.toJson)

/-- An assembly is the same after encoding and decoding it. -/
structure Roundtrips (a : AssemblyModel) : Prop where
  value : decode.ofValue a.toJson = .ok a
  text : ∀ layout, decode.ofText (a.snapshot layout) = .ok a
  /-- If it is valid, it is also read as a snapshot. -/
  snapshot : a.schema = none ∨ a.schema = some "modguard.assembly.v1" → a.check = .ok () →
    ∀ layout, ofSnapshot (a.snapshot layout) = .ok a

lemma ofText_snapshot {a : AssemblyModel} (h : a.Fits) (layout : Layout) :
    decode.ofText (a.snapshot layout) = .ok a :=
  (reads 0 h).ofText (exact_toJson h) (by decide) layout

lemma fits_of_ofSnapshot {text : String} {a : AssemblyModel} (h : ofSnapshot text = .ok a) :
    a.Fits := by
  obtain ⟨b, hb, haccept⟩ := bind_eq_ok_iff.mp h
  obtain rfl := (accept_eq_ok_iff.mp haccept).1
  exact decode_yields.ofText (mapError_eq_ok_iff.mp hb)

/-- Whatever fits the format is given back, and all that is read from a text fits it. -/
theorem snapshot_roundtrip :
    (∀ a : AssemblyModel, a.Fits → a.Roundtrips) ∧
      ∀ text a, ofSnapshot text = .ok a →
        a.Fits ∧ ∀ layout, ofSnapshot (a.snapshot layout) = .ok a := by
  constructor
  · intro a h
    refine ⟨(reads 0 h).ofValue, ofText_snapshot h, fun hschema hcheck layout => ?_⟩
    rw [ofSnapshot_eq_accept (ofText_snapshot h layout)]
    refine accept_eq_ok_iff.mpr ⟨rfl, fun s hs => ?_, check_eq_ok_iff.mp hcheck⟩
    rcases hschema with hnone | hsome
    · rw [hnone] at hs
      cases hs
    · rw [hsome] at hs
      cases hs
      rfl
  · intro text a h
    have hfits := fits_of_ofSnapshot h
    refine ⟨hfits, fun layout => ?_⟩
    rw [ofSnapshot_eq_accept (ofText_snapshot hfits layout)]
    exact accept_of_ofSnapshot h

end AssemblyModel

/-! ### A snapshot with all parts -/

namespace AllParts

def base : TypeRef := ⟨"Runtime", "System", "Object"⟩

def text : TypeRef := ⟨"Runtime", "", "String"⟩

def body : MethodBody where
  locals := [⟨0, text⟩, ⟨4294967295, base⟩]
  instructions :=
    [⟨0, "ldtoken", some (.type base)⟩, ⟨5, "ldsfld", some (.field ⟨base, "Empty", text⟩)⟩,
      ⟨10, "call", some (.property ⟨base, "Length", text⟩)⟩,
      ⟨15, "call", some (.method ⟨base, "Quote \"\\\u0007", ""⟩)⟩, ⟨20, "", none⟩]

def declared : TypeDef where
  ns := ""
  name := "Outer/Inner"
  baseType := some base
  fields := [⟨"field", text⟩]
  properties := [⟨"Property", text⟩]
  methods := [⟨"Run", "()", some body⟩, ⟨"Empty", "", some ⟨[], []⟩⟩, ⟨"Abstract", "", none⟩]

def assembly : AssemblyModel :=
  ⟨some snapshotSchema, "Mod", [declared, ⟨"N", "T", none, [], [], []⟩]⟩

/-- The snapshot is read back from one line and from many. -/
theorem roundtrip_assembly :
    AssemblyModel.ofSnapshot (assembly.snapshot .compact) = .ok assembly ∧
      AssemblyModel.ofSnapshot (assembly.snapshot (.pretty 0)) = .ok assembly := by
  have hbody : body.Fits := ⟨by decide, by decide⟩
  have hempty : MethodBody.Fits ⟨[], []⟩ := ⟨by decide, by decide⟩
  have hfits : assembly.Fits := by
    simp [AssemblyModel.Fits, TypeDef.Fits, MethodDef.Fits, assembly, declared, hbody, hempty]
  have hcompact :=
    (AssemblyModel.snapshot_roundtrip.1 assembly hfits).snapshot (.inr rfl) (by rfl) .compact
  exact ⟨hcompact, (AssemblyModel.snapshot_roundtrip.2 _ _ hcompact).2 (.pretty 0)⟩

end AllParts

end AssemblyPolicy
