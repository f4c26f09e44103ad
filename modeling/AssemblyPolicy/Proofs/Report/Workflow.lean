import AssemblyPolicy.Proofs.Text.Split
import AssemblyPolicy.Report.Workflow
import Mathlib.Data.List.Basic

/-!
# Reading workflow annotations

A line is read by the grammar of workflow commands: the level, properties between commas, and the
message, with escapes undone once (`Workflow.read?`). The lines for a report read as what its findings
say, whatever the texts in them are, and each of them is one line (`Workflow.read_lines`).
-/

namespace AssemblyPolicy.Workflow

variable {escapes : List ((Char × Char) × Char)} {c d : Char} {cs : List Char}

/-! ### Escapes -/

/-- What two characters after a percent sign stand for in a message. -/
def dataEscapes : List ((Char × Char) × Char) :=
  [(('2', '5'), '%'), (('0', 'D'), '\r'), (('0', 'A'), '\n')]

/-- What two characters after a percent sign stand for in a property. -/
def propertyEscapes : List ((Char × Char) × Char) :=
  dataEscapes ++ [(('3', 'A'), ':'), (('2', 'C'), ',')]

/-- Undo escapes, once. A percent sign that begins no escape stays. -/
def unescape (escapes : List ((Char × Char) × Char)) : List Char → List Char
  | '%' :: a :: b :: rest =>
    match escapes.lookup (a, b) with
    | some c => c :: unescape escapes rest
    | none => '%' :: unescape escapes (a :: b :: rest)
  | c :: rest => c :: unescape escapes rest
  | [] => []

/-- The ways to write a character such that it can be read again. -/
inductive Stands (escapes : List ((Char × Char) × Char)) (c : Char) : List Char → Prop where
  | plain (h : c ≠ '%') : Stands escapes c [c]
  | escaped {a b : Char} (h : escapes.lookup (a, b) = some c) : Stands escapes c ['%', a, b]

lemma Stands.unescape_append (h : Stands escapes c cs) (rest : List Char) :
    unescape escapes (cs ++ rest) = c :: unescape escapes rest := by
  cases h with
  | plain h => simp [unescape, h]
  | escaped h => simp [unescape, h]

lemma unescape_flatMap {escape : Char → List Char} (h : ∀ c, Stands escapes c (escape c))
    (cs : List Char) : unescape escapes (cs.flatMap escape) = cs := by
  induction cs with
  | nil => rfl
  | cons c cs ih => rw [List.flatMap_cons, (h c).unescape_append, ih]

lemma stands_escapeDataChar (c : Char) : Stands dataEscapes c (escapeDataChar c) := by
  unfold escapeDataChar
  split
  · exact .escaped rfl
  · exact .escaped rfl
  · exact .escaped rfl
  · exact .plain ‹_›

/-- More escapes may be known. -/
lemma Stands.append (h : Stands escapes c cs) (more : List ((Char × Char) × Char)) :
    Stands (escapes ++ more) c cs := by
  cases h with
  | plain h => exact .plain h
  | escaped h => exact .escaped (by rw [List.lookup_append, h, Option.some_or])

lemma stands_escapePropertyChar (c : Char) : Stands propertyEscapes c (escapePropertyChar c) := by
  unfold escapePropertyChar
  split
  · exact .escaped rfl
  · exact .escaped rfl
  · exact (stands_escapeDataChar c).append _

lemma notMem_escapeDataChar (hd : d = '\r' ∨ d = '\n') (c : Char) : d ∉ escapeDataChar c := by
  unfold escapeDataChar
  split <;> rcases hd with rfl | rfl <;> simp_all [eq_comm]

lemma notMem_escapePropertyChar (hd : d = '\r' ∨ d = '\n' ∨ d = ':' ∨ d = ',') (c : Char) :
    d ∉ escapePropertyChar c := by
  unfold escapePropertyChar
  split
  · rcases hd with rfl | rfl | rfl | rfl <;> decide
  · rcases hd with rfl | rfl | rfl | rfl <;> decide
  · rename_i hcolon hcomma
    unfold escapeDataChar
    split <;> rcases hd with rfl | rfl | rfl | rfl <;> simp_all [eq_comm]

lemma toList_escapeData (s : String) : (escapeData s).toList = s.toList.flatMap escapeDataChar := by
  rw [escapeData, String.toList_ofList]

lemma toList_escapeProperty (s : String) :
    (escapeProperty s).toList = s.toList.flatMap escapePropertyChar := by
  rw [escapeProperty, String.toList_ofList]

lemma notMem_escapeData (hd : d = '\r' ∨ d = '\n') (s : String) : d ∉ (escapeData s).toList := by
  simp [toList_escapeData, notMem_escapeDataChar hd]

lemma notMem_escapeProperty (hd : d = '\r' ∨ d = '\n' ∨ d = ':' ∨ d = ',') (s : String) :
    d ∉ (escapeProperty s).toList := by
  simp [toList_escapeProperty, notMem_escapePropertyChar hd]

/-! ### Reading a line -/

/-- A workflow command. -/
structure Command where
  level : String
  properties : List (String × String)
  message : String
  deriving DecidableEq

/-- Does a text begin with what ends a level? -/
def endsLevel : List Char → Bool
  | ' ' :: _ => true
  | ':' :: ':' :: _ => true
  | _ => false

/-- The level at the start of a text, and what follows it. -/
def cutLevel : List Char → List Char × List Char
  | [] => ([], [])
  | c :: rest =>
    if endsLevel (c :: rest) then ([], c :: rest) else (c :: (cutLevel rest).1, (cutLevel rest).2)

/-- The parts before and after the first two colons in a row. -/
def cutColons? : List Char → Option (List Char × List Char)
  | ':' :: ':' :: rest => some ([], rest)
  | c :: rest => (cutColons? rest).map fun p => (c :: p.1, p.2)
  | [] => none

def readProperty? (cs : List Char) : Option (String × String) :=
  (splitFirst? '=' cs).map fun p => (.ofList p.1, .ofList (unescape propertyEscapes p.2))

def readMessage (cs : List Char) : String := .ofList (unescape dataEscapes cs)

/-- The command in a line. -/
def read? (line : String) : Option Command :=
  match line.toList with
  | ':' :: ':' :: rest =>
    match cutLevel rest with
    | (level, ':' :: ':' :: message) => some ⟨.ofList level, [], readMessage message⟩
    | (level, ' ' :: rest) => do
      let (properties, message) ← cutColons? rest
      let properties ← (splitAll ',' properties).mapM readProperty?
      some ⟨.ofList level, properties, readMessage message⟩
    | _ => none
  | _ => none

/-- The word for a severity at the start of a command. -/
def levelWord : Severity → String
  | .error => "error"
  | .warning => "warning"
  | .info => "notice"

/-- The properties that say where a finding is. -/
def placed : Option Location → List (String × String)
  | none => []
  | some ⟨path, none⟩ => [("file", path.text)]
  | some ⟨path, some member⟩ => [("file", path.text), ("title", member)]

/-- The command that says how severe a finding is, where it is, and which check found what. -/
def Command.of (severity : Severity) (checkId : Option String) (code message : String)
    (location : Option Location) : Command where
  level := levelWord severity
  properties := placed location
  message := "[" ++ checkId.getD "modguard" ++ ":" ++ code ++ "] " ++ message

lemma cutLevel_append (hspace : ' ' ∉ cs) (hcolon : ':' ∉ cs) (rest : List Char)
    (hrest : endsLevel rest = true) : cutLevel (cs ++ rest) = (cs, rest) := by
  induction cs with
  | nil =>
    cases rest with
    | nil => rfl
    | cons c rest => rw [List.nil_append, cutLevel, if_pos hrest]
  | cons c cs ih =>
    rw [List.mem_cons, not_or] at hspace hcolon
    have hgoes : endsLevel (c :: (cs ++ rest)) = false := by
      unfold endsLevel
      split <;> simp_all
    rw [List.cons_append, cutLevel, hgoes, ih hspace.2 hcolon.2]
    rfl

lemma cutColons?_append (hcolon : ':' ∉ cs) (rest : List Char) :
    cutColons? (cs ++ ':' :: ':' :: rest) = some (cs, rest) := by
  induction cs with
  | nil => rfl
  | cons c cs ih =>
    rw [List.mem_cons, not_or] at hcolon
    simp [cutColons?, ih hcolon.2, Ne.symm hcolon.1]

lemma readMessage_escapeData (s : String) : readMessage (escapeData s).toList = s := by
  rw [readMessage, toList_escapeData, unescape_flatMap stands_escapeDataChar, String.ofList_toList]

lemma notMem_level (hd : d = '\r' ∨ d = '\n' ∨ d = ':' ∨ d = ' ') (severity : Severity) :
    d ∉ (level severity).toList := by
  rcases hd with rfl | rfl | rfl | rfl <;> cases severity <;> decide

/-! ### Reading what is written -/

/-- A property as it is written. -/
def field (key value : String) : List Char := key.toList ++ '=' :: (escapeProperty value).toList

lemma readProperty?_field {key : String} (hkey : '=' ∉ key.toList) (value : String) :
    readProperty? (field key value) = some (key, value) := by
  rw [readProperty?, field, splitFirst?_append hkey, toList_escapeProperty, Option.map_some,
    unescape_flatMap stands_escapePropertyChar, String.ofList_toList, String.ofList_toList]

lemma notMem_field {key : String} (hkey : ',' ∉ key.toList) (value : String) :
    ',' ∉ field key value := by
  have hvalue : ',' ∉ (escapeProperty value).toList := notMem_escapeProperty (by simp) value
  simp [field, hkey, hvalue]

/-- The properties of a place, without the commas between them. -/
def fields (l : Location) : List (List Char) :=
  field "file" l.path.text :: l.member.elim [] fun member => [field "title" member]

lemma toList_properties (l : Location) : (properties l).toList = [','].intercalate (fields l) := by
  cases h : l.member <;> simp [properties, fields, field, h]

lemma splitAll_properties (l : Location) : splitAll ',' (properties l).toList = fields l := by
  have hfields : ∀ part ∈ fields l, ',' ∉ part := by
    cases h : l.member <;> simp [fields, h, notMem_field]
  rw [toList_properties, splitAll_intercalate hfields (List.cons_ne_nil _ _)]

lemma mapM_readProperty?_fields (l : Location) :
    (fields l).mapM readProperty? = some (placed l) := by
  obtain ⟨path, member⟩ := l
  cases member <;> simp [fields, placed, readProperty?_field]

lemma notMem_properties (hd : d = '\r' ∨ d = '\n' ∨ d = ':') (l : Location) :
    d ∉ (properties l).toList := by
  have hescape : ∀ s, d ∉ (escapeProperty s).toList :=
    notMem_escapeProperty (hd.imp_right (.imp_right .inl))
  have hnames : d ∉ "file=".toList ∧ d ∉ ",title=".toList := by
    rcases hd with rfl | rfl | rfl <;> decide
  cases h : l.member <;> simp_all [properties]

lemma level_eq (severity : Severity) : level severity = levelWord severity := by
  cases severity <;> rfl

/-- A line reads as what its finding says. -/
lemma read?_render (f : FindingView) : read? (render f) =
    some (.of f.severity f.checkId f.code f.message f.location) := by
  have hspace : ' ' ∉ (level f.severity).toList := notMem_level (by simp) f.severity
  have hcolon : ':' ∉ (level f.severity).toList := notMem_level (by simp) f.severity
  cases h : f.location with
  | none =>
    have htext : (render f).toList = ':' :: ':' ::
        ((level f.severity).toList ++ ':' :: ':' :: (escapeData (message f)).toList) := by
      simp [render, h]
    have hcut := cutLevel_append hspace hcolon (':' :: ':' :: (escapeData (message f)).toList) rfl
    rw [read?, htext]
    simp only [hcut, readMessage_escapeData, String.ofList_toList, Command.of, ← level_eq]
    rfl
  | some l =>
    have htext : (render f).toList = ':' :: ':' :: ((level f.severity).toList ++
        ' ' :: ((properties l).toList ++ ':' :: ':' :: (escapeData (message f)).toList)) := by
      simp [render, h]
    have hcut := cutLevel_append hspace hcolon
      (' ' :: ((properties l).toList ++ ':' :: ':' :: (escapeData (message f)).toList)) rfl
    have hmarks := cutColons?_append (notMem_properties (by simp) l)
      (escapeData (message f)).toList
    rw [read?, htext]
    simp only [hcut, hmarks, Option.bind_eq_bind, Option.bind_some, splitAll_properties,
      mapM_readProperty?_fields, readMessage_escapeData, String.ofList_toList, Command.of, ← level_eq]
    rfl

/-- A line is one line. -/
lemma notMem_render (hd : d = '\r' ∨ d = '\n') (f : FindingView) : d ∉ (render f).toList := by
  have hlevel : d ∉ (level f.severity).toList := notMem_level (by tauto) f.severity
  have hmessage : d ∉ (escapeData (message f)).toList := notMem_escapeData hd _
  have hproperties : ∀ l, d ∉ (properties l).toList := notMem_properties (by tauto)
  have hmarks : d ∉ "::".toList ∧ d ∉ " ".toList := by rcases hd with rfl | rfl <;> decide
  cases h : f.location <;> simp_all [render]

/-- Whatever is in a report, its lines stay lines and read as its findings. -/
theorem read_lines (limit : Nat) (r : ReportView) :
    (∀ line ∈ lines limit r, '\r' ∉ line.toList ∧ '\n' ∉ line.toList) ∧
      (lines limit r).map read? = (r.findings.take limit).map fun f =>
        some (.of f.severity f.checkId f.code f.message f.location) := by
  constructor
  · intro line hline
    obtain ⟨f, -, rfl⟩ := List.mem_map.mp (List.mem_of_mem_take hline)
    exact ⟨notMem_render (.inl rfl) f, notMem_render (.inr rfl) f⟩
  · rw [lines, ← List.map_take, List.map_map]
    exact List.map_congr_left fun f _ => read?_render f

example : read? "::error file=A.json,title=A%3A%3ARun(x%2Cy)::[b:c] no %2541%0A" =
    some ⟨"error", [("file", "A.json"), ("title", "A::Run(x,y)")], "[b:c] no %41\n"⟩ := by
  decide +kernel

end AssemblyPolicy.Workflow
