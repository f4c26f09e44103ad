import AssemblyPolicy.Metadata.Defect
import AssemblyPolicy.Proofs.Json.Members
import AssemblyPolicy.Proofs.Report.Evaluation

/-!
# Fingerprints and identities

The fingerprint of a finding is the digest of the five fields of its identity, joined by bars. As
long as the hash has no collision, findings share it exactly when the joined texts are the same
(`fingerprint_eq_iff`). That is less than having the same identity, since a field may itself hold a
bar. A finding without one shares its fingerprint with no finding of another identity.
-/

namespace AssemblyPolicy

/-! ### Texts of digests -/

namespace Sha256

/-- Two messages with one digest. -/
def Collision (x y : List UInt8) : Prop := x ≠ y ∧ digest x = digest y

/-- The bytes of a text, of which the digest is taken. -/
def bytes (text : String) : List UInt8 := text.toUTF8.toList

lemma hexDigit_inj : ∀ m < 16, ∀ n < 16, hexDigit m = hexDigit n → m = n := by decide

lemma eq_of_hexDigits {a b : UInt8} (hhigh : hexDigit (a.toNat / 16) = hexDigit (b.toNat / 16))
    (hlow : hexDigit (a.toNat % 16) = hexDigit (b.toNat % 16)) : a = b := by
  have ha := a.toNat_lt
  have hb := b.toNat_lt
  have hdiv := hexDigit_inj _ (by omega) _ (by omega) hhigh
  have hmod := hexDigit_inj _ (by omega) _ (by omega) hlow
  exact UInt8.toNat_inj.mp (by omega)

/-- Bytes can be read off their text. -/
lemma eq_of_flatMap_hexDigits {x y : List UInt8}
    (h : (x.flatMap fun b => [hexDigit (b.toNat / 16), hexDigit (b.toNat % 16)]) =
      y.flatMap fun b => [hexDigit (b.toNat / 16), hexDigit (b.toNat % 16)]) : x = y := by
  induction x generalizing y with
  | nil =>
    cases y with
    | nil => rfl
    | cons b y => cases h
  | cons a x ih =>
    cases y with
    | nil => cases h
    | cons b y =>
      simp only [List.flatMap_cons, List.cons_append, List.nil_append, List.cons.injEq] at h
      obtain ⟨hhigh, hlow, htail⟩ := h
      rw [eq_of_hexDigits hhigh hlow, ih htail]

lemma toList_loop (b : ByteArray) (i : Nat) (read : List UInt8) :
    ByteArray.toList.loop b i read = read.reverse ++ b.data.toList.drop i := by
  induction i, read using ByteArray.toList.loop.induct b with
  | case1 i read hlt ih =>
    have hget : b.get! i :: b.data.toList.drop (i + 1) = b.data.toList.drop i := by
      have hlength : i < b.data.toList.length := hlt
      rw [List.drop_eq_getElem_cons hlength, Array.getElem_toList]
      exact congrArg (· :: _) (getElem!_pos b.data i hlt)
    rw [ByteArray.toList.loop.eq_1, if_pos hlt, ih, List.reverse_cons, List.append_assoc,
      List.singleton_append, hget]
  | case2 i read hge =>
    have hnil : b.data.toList.drop i = [] := List.drop_eq_nil_of_le (Nat.le_of_not_lt hge)
    rw [ByteArray.toList.loop.eq_1, if_neg hge, hnil, List.append_nil]

lemma bytes_injective : Function.Injective bytes := by
  intro s t h
  rw [bytes, bytes, ByteArray.toList, ByteArray.toList, toList_loop, toList_loop] at h
  exact String.toByteArray_inj.mp (ByteArray.ext (Array.toList_inj.mp h))

lemma hexDigest_eq_iff {s t : String} (h : ¬ Collision (bytes s) (bytes t)) :
    hexDigest s = hexDigest t ↔ s = t := by
  refine ⟨fun heq => ?_, congrArg _⟩
  have hdigest := eq_of_flatMap_hexDigits (String.ofList_injective heq)
  by_contra hne
  exact h ⟨fun hbytes => hne (bytes_injective hbytes), hdigest⟩

end Sha256

/-! ### Cutting a text at its bars -/

/-- The parts of a text between its bars. -/
def barParts (s : String) : List (List Char) := s.toList.splitOn '|'

/-- How many bars a text has. -/
def barCount (s : String) : Nat := s.toList.count '|'

lemma barParts_injective : Function.Injective barParts := by
  intro s t h
  have hjoin := congrArg ['|'].intercalate h
  rw [barParts, barParts, List.intercalate_splitOn, List.intercalate_splitOn] at hjoin
  exact String.toList_injective hjoin

lemma length_barParts (s : String) : (barParts s).length = barCount s + 1 := by
  rw [barParts, barCount]
  induction s.toList with
  | nil => rfl
  | cons c cs ih =>
    rw [List.splitOn_cons_eq_if_modifyHead, List.count_cons]
    split_ifs <;> simp [ih]

/-- Joined texts have the parts of each. -/
lemma barParts_intercalate {texts : List String} (h : texts ≠ []) :
    barParts ("|".intercalate texts) = texts.flatMap barParts := by
  induction texts with
  | nil => exact absurd rfl h
  | cons s texts ih =>
    cases texts with
    | nil => simp
    | cons t texts =>
      have hjoin : ("|".intercalate (s :: t :: texts)).toList =
          s.toList ++ '|' :: ("|".intercalate (t :: texts)).toList := by
        simp [String.intercalate_cons_cons]
      rw [barParts, hjoin, List.splitOn_append_cons_self, List.flatMap_cons,
        ← ih (List.cons_ne_nil _ _)]
      rfl

/-- Of texts with as many bars each, the parts determine the texts. -/
lemma eq_of_flatMap_barParts {l m : List String} (hcount : l.map barCount = m.map barCount)
    (h : l.flatMap barParts = m.flatMap barParts) : l = m := by
  induction l generalizing m with
  | nil =>
    cases m with
    | nil => rfl
    | cons t m => cases hcount
  | cons s l ih =>
    cases m with
    | nil => cases hcount
    | cons t m =>
      obtain ⟨hhead, htail⟩ := List.cons.inj hcount
      have hlength : (barParts s).length = (barParts t).length := by
        rw [length_barParts, length_barParts, hhead]
      obtain ⟨hst, hlm⟩ := List.append_inj h hlength
      rw [barParts_injective hst, ih htail hlm]

lemma length_flatMap_barParts (texts : List String) :
    (texts.flatMap barParts).length = (texts.map barCount).sum + texts.length := by
  induction texts with
  | nil => rfl
  | cons s texts ih =>
    rw [List.flatMap_cons, List.length_append, length_barParts, ih, List.map_cons, List.sum_cons,
      List.length_cons]
    omega

/-- When texts have no bars, as many texts that are cut into the same parts have none either. -/
lemma map_barCount_eq {l m : List String} (hlength : l.length = m.length)
    (hl : ∀ s ∈ l, barCount s = 0) (h : l.flatMap barParts = m.flatMap barParts) :
    l.map barCount = m.map barCount := by
  have hparts := congrArg List.length h
  rw [length_flatMap_barParts, length_flatMap_barParts, hlength, Nat.add_right_cancel_iff] at hparts
  have hzero : ∀ n ∈ l.map barCount, n = 0 := by simpa using hl
  have hsum : (m.map barCount).sum = 0 := hparts ▸ List.sum_eq_zero hzero
  rw [List.eq_replicate_of_mem hzero, List.eq_replicate_of_mem (List.sum_eq_zero_iff.mp hsum)]
  simp [hlength]

/-! ### Identities -/

/-- What makes a finding the same from run to run. -/
structure Identity where
  checkId : String
  code : String
  /-- The name of the assembly, or the path of its file when the name is unknown. -/
  assembly : String
  member : Option String
  /-- What is prohibited or required. -/
  target : Option String
  deriving DecidableEq

namespace Identity

/-- The fields as texts. One that is absent is empty. -/
def fields (i : Identity) : List String :=
  [i.checkId, i.code, i.assembly, i.member.getD "", i.target.getD ""]

/-- The text that is hashed. -/
def text (i : Identity) : String := "|".intercalate i.fields

/-- How many bars each field has. -/
def bars (i : Identity) : List Nat := i.fields.map barCount

/-- The codes of findings in a member. -/
def memberCodes : List String := ["prohibited_present", "required_absent", limitCode]

/-- The codes of findings in a file that was not checked. -/
def fileCodes : List String := ["malformed_metadata", "unreadable_assembly"]

/-- The code of a finding says which of its fields there are. -/
inductive Regular : Identity → Prop
  | inMember {checkId code assembly member target : String} (h : code ∈ memberCodes) :
      Regular ⟨checkId, code, assembly, some member, some target⟩
  | inFile {checkId code assembly : String} (h : code ∈ fileCodes) :
      Regular ⟨checkId, code, assembly, none, none⟩

variable {i j : Identity}

lemma Regular.eq_of_fields_eq (hi : i.Regular) (hj : j.Regular) (h : i.fields = j.fields) :
    i = j := by
  have hdisjoint : ∀ code ∈ memberCodes, code ∉ fileCodes := by decide
  cases hi with
  | inMember hi =>
    cases hj with
    | inMember hj =>
      simp only [fields, Option.getD_some, List.cons.injEq] at h
      obtain ⟨rfl, rfl, rfl, rfl, rfl, -⟩ := h
      rfl
    | inFile hj =>
      obtain ⟨-, rfl, -⟩ := (by simpa [fields] using h)
      exact absurd hj (hdisjoint _ hi)
  | inFile hi =>
    cases hj with
    | inMember hj =>
      obtain ⟨-, rfl, -⟩ := (by simpa [fields] using h)
      exact absurd hi (hdisjoint _ hj)
    | inFile hj =>
      simp only [fields, List.cons.injEq] at h
      obtain ⟨rfl, rfl, rfl, -⟩ := h
      rfl

lemma flatMap_barParts_of_text_eq (h : i.text = j.text) :
    i.fields.flatMap barParts = j.fields.flatMap barParts := by
  have hjoin : ∀ k : Identity, barParts k.text = k.fields.flatMap barParts :=
    fun k => barParts_intercalate (List.cons_ne_nil _ _)
  rw [← hjoin, ← hjoin, h]

end Identity

/-- The identity as a reader of the report finds it. -/
def Finding.identity (f : Finding) : Identity where
  checkId := f.checkId
  code := f.code
  assembly := ((f.data.get? "assembly").bind Json.text?).getD f.pathKey
  member := f.location.bind (·.member)
  target := (f.data.get? "target").bind Json.text?

/-! ### Identities of the findings of an evaluation -/

/-- The fingerprint of a finding is the hash of its identity. -/
structure Finding.Identified (f : Finding) : Prop where
  fingerprint : f.fingerprint = some (Sha256.hexDigest f.identity.text)
  regular : f.identity.Regular

lemma Violation.identity_finding (path : ArtifactPath) (v : Violation) :
    (v.finding path).identity =
      ⟨v.checkId, v.code, v.assembly, some v.member, some v.target⟩ := by
  rw [Finding.identity, finding, Json.get?_ofMembers (by simp), Json.get?_ofMembers (by simp)]
  rfl

lemma Violation.identified_finding (path : ArtifactPath) (v : Violation) :
    (v.finding path).Identified := by
  have hcode : v.code ∈ Identity.memberCodes := by
    rw [code]
    cases v.mode <;> decide
  have hidentity := v.identity_finding path
  exact ⟨hidentity ▸ rfl, hidentity ▸ .inMember hcode⟩

lemma Inconclusive.identified_finding (path : ArtifactPath) (limits : WalkLimits)
    (i : Inconclusive) : (i.finding path limits).Identified := by
  have hidentity : (i.finding path limits).identity =
      ⟨callGraphCheck, limitCode, i.assembly, some i.member, some i.target⟩ := by
    rw [Finding.identity, finding, Json.get?_ofMembers (by simp), Json.get?_ofMembers (by simp)]
    rfl
  exact ⟨hidentity ▸ rfl, hidentity ▸ .inMember (by decide)⟩

lemma identified_metadataFinding (path : ArtifactPath) (assembly : Option String)
    {code : String} (hcode : code ∈ Identity.fileCodes) (help error : String) :
    (metadataFinding path assembly code help error).Identified := by
  have hidentity : (metadataFinding path assembly code help error).identity =
      ⟨metadataCheck, code, assembly.getD path.text, none, none⟩ := by
    rw [Finding.identity, metadataFinding, Json.get?_ofMembers (by simp),
      Json.get?_ofMembers (by simp)]
    cases assembly <;> rfl
  exact ⟨hidentity ▸ rfl, hidentity ▸ .inFile hcode⟩

lemma FileOutcome.identified_of_mem {limits : WalkLimits} {o : FileOutcome} {f : Finding}
    (h : f ∈ o.findings limits) : f.Identified := by
  obtain ⟨path, result⟩ := o
  cases result with
  | verified assembly sweep =>
    rcases (mem_findings_of_verified rfl).mp h with ⟨v, -, rfl⟩ | ⟨i, -, rfl⟩
    · exact v.identified_finding path
    · exact i.identified_finding path limits
  | malformed assembly error =>
    obtain rfl := List.mem_singleton.mp h
    exact identified_metadataFinding path assembly (by decide) _ _
  | unreadable error =>
    obtain rfl := List.mem_singleton.mp h
    exact identified_metadataFinding path none (by decide) _ _

section Separation

variable {policy policy' : Policy} {outcomes outcomes' : List FileOutcome} {f g : Finding}

lemma identified_of_mem_evaluate (h : f ∈ (evaluate policy outcomes).findings) :
    f.Identified := by
  obtain ⟨o, -, hf⟩ := mem_findings_iff.mp h
  exact o.identified_of_mem hf

/-- Findings share their fingerprint exactly when the joined fields of their identities are the same
text. They are then of one identity if each field has as many bars in both, or if one of the two has
no bars at all. -/
theorem fingerprint_eq_iff (hf : f ∈ (evaluate policy outcomes).findings)
    (hg : g ∈ (evaluate policy' outcomes').findings)
    (hsha : ¬ Sha256.Collision (Sha256.bytes f.identity.text) (Sha256.bytes g.identity.text)) :
    (f.fingerprint = g.fingerprint ↔ f.identity.text = g.identity.text) ∧
      (f.identity = g.identity ↔
        f.fingerprint = g.fingerprint ∧ f.identity.bars = g.identity.bars) ∧
      ((∀ s ∈ f.identity.fields, '|' ∉ s.toList) →
        (f.fingerprint = g.fingerprint ↔ f.identity = g.identity)) := by
  have hfi := identified_of_mem_evaluate hf
  have hgi := identified_of_mem_evaluate hg
  have htext : f.fingerprint = g.fingerprint ↔ f.identity.text = g.identity.text := by
    rw [hfi.fingerprint, hgi.fingerprint, Option.some_inj, Sha256.hexDigest_eq_iff hsha]
  have hbars : f.identity = g.identity ↔
      f.fingerprint = g.fingerprint ∧ f.identity.bars = g.identity.bars := by
    rw [htext]
    refine ⟨fun h => h ▸ ⟨rfl, rfl⟩, fun ⟨h, hcount⟩ => hfi.regular.eq_of_fields_eq hgi.regular ?_⟩
    exact eq_of_flatMap_barParts hcount (Identity.flatMap_barParts_of_text_eq h)
  refine ⟨htext, hbars, fun hplain => ⟨fun h => hbars.mpr ⟨h, ?_⟩, fun h => (hbars.mp h).1⟩⟩
  exact map_barCount_eq rfl (fun s hs => List.count_eq_zero.mpr (hplain s hs))
    (Identity.flatMap_barParts_of_text_eq (htext.mp h))

end Separation

/-! ### Names with and without bars -/

namespace Barred

/-- An assembly with one type, which has a field for a file. -/
def model (assembly type : String) : AssemblyModel :=
  ⟨none, assembly, [⟨"", type, none, [⟨"log", ⟨"mscorlib", "System.IO", "File"⟩⟩], [], []⟩]⟩

def policy : Policy :=
  { Policy.empty with
    restrictions := [⟨.type ⟨"System.IO", "File"⟩, "no files", none, .prohibited, .error⟩] }

def outcome (assembly type : String) : FileOutcome :=
  ⟨⟨assembly ++ ".json"⟩, .verified assembly
    ((model assembly type).sweep policy (AssemblySet.empty.insert (model assembly type)))⟩

/-- The violation by the field. -/
def violation (assembly type : String) : Violation :=
  ⟨"no files", type ++ "::" ++ "log", .prohibited, "restriction.type", "type", "System.IO.File",
    .error, assembly⟩

/-- What is found in the assembly. -/
def finding (assembly type : String) : Finding :=
  (violation assembly type).finding ⟨assembly ++ ".json"⟩

lemma mem_findings (assembly type : String) :
    finding assembly type ∈ (outcome assembly type).findings policy.limits := by
  refine (FileOutcome.mem_findings_of_verified rfl).mpr (.inl ⟨violation assembly type, ?_, rfl⟩)
  exact List.mem_singleton.mpr rfl

lemma mem_evaluate {assembly type : String} {outcomes : List FileOutcome}
    (h : outcome assembly type ∈ outcomes) :
    finding assembly type ∈ (evaluate policy outcomes).findings :=
  mem_findings_iff.mpr ⟨_, h, mem_findings assembly type⟩

lemma identity_finding (assembly type : String) : (finding assembly type).identity =
    ⟨"restriction.type", "prohibited_present", assembly, some (type ++ "::" ++ "log"),
      some "System.IO.File"⟩ :=
  Violation.identity_finding _ _

/-- Findings in the fields of two types have different fingerprints. -/
theorem fingerprint_types_ne :
    (finding "Mod" "A").fingerprint ≠ (finding "Mod" "B").fingerprint := by
  have hsha : ¬ Sha256.Collision (Sha256.bytes (finding "Mod" "A").identity.text)
      (Sha256.bytes (finding "Mod" "B").identity.text) := by
    rw [identity_finding, identity_finding]
    exact fun h => absurd h.2 (by decide +kernel)
  have hfields := fingerprint_eq_iff (mem_evaluate (List.mem_singleton_self (outcome "Mod" "A")))
    (mem_evaluate (List.mem_singleton_self (outcome "Mod" "B"))) hsha
  rw [ne_eq, hfields.2.2 (by rw [identity_finding]; decide), identity_finding, identity_finding]
  decide

/-- The same bar may belong to the name of a type or to that of an assembly: two accepted assemblies
have findings that share their fingerprint. -/
theorem fingerprint_mod_eq :
    (model "Mod" "A|B").check = .ok () ∧ (model "Mod|A" "B").check = .ok () ∧
    ∃ f ∈ (evaluate policy [outcome "Mod" "A|B", outcome "Mod|A" "B"]).findings,
      ∃ g ∈ (evaluate policy [outcome "Mod" "A|B", outcome "Mod|A" "B"]).findings,
        f.fingerprint = g.fingerprint ∧ f.identity.assembly ≠ g.identity.assembly ∧
          f.identity.member ≠ g.identity.member := by
  refine ⟨by decide, by decide, finding "Mod" "A|B", mem_evaluate List.mem_cons_self,
    finding "Mod|A" "B", mem_evaluate (List.mem_cons_of_mem _ List.mem_cons_self), rfl, ?_, ?_⟩
  · rw [identity_finding, identity_finding]
    decide
  · rw [identity_finding, identity_finding]
    decide

end Barred

end AssemblyPolicy
