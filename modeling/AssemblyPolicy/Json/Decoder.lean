import AssemblyPolicy.Json.Source
import AssemblyPolicy.Json.Printer
import AssemblyPolicy.Text.Quoted

/-!
# Decoding

A decoder takes a source to a value of another type, or says what is wrong with it. Errors come in
reading order: of the errors in the parts of a record the one at the earliest place is reported, and
a field that is missing is noticed after all parts are read.

An error in a text has a place. One that is about a single value lies at its end, or at the start of
a container; any other lies where the reader stands once it has looked for the end of the container
that it is in the middle of.
-/

namespace AssemblyPolicy.Json

/-- What stands where something else was expected. -/
inductive Shape where
  | null
  | bool (b : Bool)
  | number (n : Number)
  | string (s : String)
  | sequence
  | map
  deriving DecidableEq

def Shape.describe : Shape → String
  | null => "null"
  | bool b => s!"boolean `{b}`"
  | number (.int n) => s!"integer `{n}`"
  | number (.double d) => s!"floating point `{String.ofList d.render}`"
  | string s => "string " ++ Quoted.quote s
  | sequence => "sequence"
  | map => "map"

/-! ### Errors -/

/-- How closely an error is told. -/
inductive Wording where
  /-- Without its position, and with no more of a fault than whether the text ended too early. -/
  | brief
  | exact
  deriving DecidableEq

inductive DecodeError where
  | fault (kind : FaultKind)
  | invalidType (got : Shape) (wanted : String)
  | outOfRange (n : Int) (wanted : String)
  | invalidValue (got : Shape) (wanted : String)
  | missingField (name : String)
  | duplicateField (name : String)
  | unknownVariant (name : String) (variants : List String)
  | invalidLength (given : Nat) (wanted : String)
  /-- A text does not have the format it should have, for some cause. -/
  | unreadable (format cause : String)
  deriving DecidableEq

def FaultKind.told (k : FaultKind) : Wording → String
  | .brief => if k.isEnd then "<json eof>" else "<json syntax>"
  | .exact => k.message

def DecodeError.message (w : Wording) : DecodeError → String
  | fault kind => kind.told w
  | invalidType got wanted => s!"invalid type: {got.describe}, expected {wanted}"
  | outOfRange n wanted => s!"invalid value: integer `{n}`, expected {wanted}"
  | invalidValue got wanted => s!"invalid value: {got.describe}, expected {wanted}"
  | missingField name => s!"missing field `{name}`"
  | duplicateField name => s!"duplicate field `{name}`"
  | unknownVariant name variants =>
    s!"unknown variant `{name}`, expected " ++
      match variants with
      | [v] => s!"`{v}`"
      | [v, w] => s!"`{v}` or `{w}`"
      | vs => "one of " ++ ", ".intercalate (vs.map fun v => s!"`{v}`")
  | invalidLength given wanted => s!"invalid length {given}, expected {wanted}"
  | unreadable format cause =>
    match w with
    | .brief => s!"<{format}>"
    | .exact => cause

/-- An error of decoding, with its place when it is known. -/
structure Failure where
  error : DecodeError
  place : Option Place
  deriving DecidableEq

/-- A fault is an error of decoding at its own place. -/
def Failure.ofFault (f : Fault) : Failure := ⟨.fault f.kind, some f.place⟩

def orFault {α : Type} : Except Fault α → Except Failure α
  | .ok a => .ok a
  | .error f => .error (.ofFault f)

/-- An error in a text, with its position there. -/
structure LocatedError where
  error : DecodeError
  position : Position
  deriving DecidableEq

def LocatedError.message (w : Wording) (e : LocatedError) : String :=
  match w with
  | .brief => e.error.message .brief
  | .exact => e.error.message .exact ++ " " ++ e.position.message

/-- The error in a text. One without a place is about the text as a whole. -/
def Failure.locate (text : String) (f : Failure) : LocatedError :=
  ⟨f.error, (f.place.getD ⟨[], 0⟩).position text.toList⟩

/-! ### Origins -/

/-- What values are decoded from. -/
inductive Medium where
  | text
  /-- A value that was read before. -/
  | value
  /-- A part of a text or value that was set aside until its kind was known. -/
  | buffer
  deriving DecidableEq

/-- Where values are decoded from. -/
structure Origin where
  medium : Medium
  /-- How many containers may still be entered, when that is limited. -/
  limit : Option Nat
  deriving DecidableEq

namespace Origin

/-- A text being read. -/
def text : Origin := ⟨.text, some nestingLimit⟩

/-- A value that was read before. -/
def value : Origin := ⟨.value, none⟩

/-- A part that was set aside. -/
def buffer : Origin := ⟨.buffer, none⟩

def enter (o : Origin) (span : Span) : Except Failure Origin :=
  match deeper o.limit span with
  | .ok limit => .ok { o with limit }
  | .error f => .error (.ofFault f)

/-- An error at a place, which counts in a text only. -/
def fail (o : Origin) (place : Place) (e : DecodeError) : Failure :=
  ⟨e, if o.medium = .text then some place else none⟩

/-- Give an error in a text a place if it has none. -/
def settle (o : Origin) (place : Place) (f : Failure) : Failure :=
  if f.place.isNone then o.fail place f.error else f

end Origin

abbrev Decoder (α : Type) := Origin → Source → Except Failure α

/-- The error about a value, which lies at its end. -/
def Origin.failAt (o : Origin) (span : Span) (e : DecodeError) : Failure := o.fail ⟨span.stop, 0⟩ e

def Origin.mismatch (o : Origin) (wanted : String) : Source → Failure
  | .null span => o.failAt span (.invalidType .null wanted)
  | .bool b span => o.failAt span (.invalidType (.bool b) wanted)
  | .number n span => o.failAt span (.invalidType (.number n) wanted)
  | .string s span => o.failAt span (.invalidType (.string s) wanted)
  | .valueless f _ => .ofFault f
  | .broken b => .ofFault b.reading
  | .array _ _ span => o.fail ⟨span.start, 0⟩ (.invalidType .sequence wanted)
  | .object _ _ span => o.fail ⟨span.start, 0⟩ (.invalidType .map wanted)

/-! ### Ends of containers -/

/-- Where a reader stands that has looked for the end of an array. -/
def arrayEnd (rest : List Char) : Place :=
  match rest.dropWhile isSpace with
  | ']' :: rest => ⟨rest, 0⟩
  | ',' :: rest => ⟨rest.dropWhile isSpace, 0⟩
  | rest => ⟨rest, 0⟩

def objectEnd (rest : List Char) : Place :=
  match rest.dropWhile isSpace with
  | '\x7d' :: rest => ⟨rest, 0⟩
  | rest => ⟨rest, 0⟩

/-- The fault met where the end of an array must come. -/
def arrayEndFault? (rest : List Char) : Option Fault :=
  match rest.dropWhile isSpace with
  | [] => some (.ahead .endInList [])
  | ']' :: _ => none
  | ',' :: rest =>
    let rest := rest.dropWhile isSpace
    some (.inNext (if rest.head? = some ']' then .trailingComma else .trailingCharacters) rest)
  | rest => some (.inNext .trailingCharacters rest)

def afterItems (span : Span) (is : List Source) : List Char :=
  match is.getLast? with
  | some s => s.span.stop
  | none => span.start.drop 1

def afterMembers (span : Span) (ms : List (Member Source)) : List Char :=
  match ms.getLast? with
  | some m => m.value.span.stop
  | none => span.start.drop 1

namespace Decoder

variable {α : Type}

def string : Decoder String
  | _, .string s _ => .ok s
  | o, s => .error (o.mismatch "a string" s)

def bool : Decoder Bool
  | _, .bool b _ => .ok b
  | o, s => .error (o.mismatch "a boolean" s)

def u32 : Decoder Nat
  | o, .number (.int n) span =>
    if 0 ≤ n ∧ n.toNat < UInt32.size then .ok n.toNat else .error (o.failAt span (.outOfRange n "u32"))
  | o, s => .error (o.mismatch "u32" s)

def any : Decoder Json
  | o, s => orFault (s.value? o.limit)

/-- Decode an optional value; null is absence. -/
def option (d : Decoder α) : Decoder (Option α)
  | _, .null _ => .ok none
  | o, s => (d o s).map some

def items (d : Decoder α) (o : Origin) : List Source → Except Failure (List α)
  | [] => .ok []
  | s :: rest => do
    let a ← (d o s).mapError (o.settle (arrayEnd s.span.stop))
    let as ← items d o rest
    .ok (a :: as)

def list (d : Decoder α) : Decoder (List α)
  | o, .array is stop span => do
    let o ← o.enter span
    let as ← items d o is
    orFault (atEnd stop as)
  | o, s => .error (o.mismatch "a sequence" s)

end Decoder

/-! ### Records -/

/-- The parts a record is decoded from, and what follows them: the members of an object, or the items
of an array in the order of the fields, with what the array should have been in words. -/
inductive Parts where
  | members (ms : List (Member Source)) (rest : List Char)
  | items (is : List Source) (stop : Option Break) (wanted : String) (rest : List Char)

/-- An error and the part that it is found in. -/
structure Misread where
  part : Nat
  failure : Failure

/-- Both results, or the error in the earlier part. -/
def inOrder {α β : Type} : Except Misread α → Except Misread β → Except Misread (α × β)
  | .ok a, .ok b => .ok (a, b)
  | .ok _, .error e => .error e
  | .error e, .ok _ => .error e
  | .error e, .error e' => .error (if e'.part < e.part then e' else e)

/-- Some fields of a record: their names, and how to read them given the number of fields before
them. -/
structure Fields (α : Type) where
  names : List String
  read : Origin → Parts → Nat → Except Misread α

/-- The members with a key, and their numbers. -/
def occurrences (name : String) (part : Nat) : List (Member Source) → List (Nat × Member Source)
  | [] => []
  | m :: rest =>
    if m.hasKey name then (part, m) :: occurrences name (part + 1) rest
    else occurrences name (part + 1) rest

/-- Read one field of an object; `absent` is its value when it is left out. -/
def readMember {α : Type} (name : String) (d : Decoder α) (absent : Option α) (o : Origin)
    (ms : List (Member Source)) (rest : List Char) (index : Nat) : Except Misread α :=
  match occurrences name 0 ms with
  | [] =>
    match absent with
    | some a => .ok a
    | none => .error ⟨ms.length + 1 + index, o.fail (objectEnd rest) (.missingField name)⟩
  | (part, m) :: more =>
    match d o m.value, more with
    | .error e, _ => .error ⟨part, o.settle (objectEnd m.value.span.stop) e⟩
    | .ok a, [] => .ok a
    | .ok _, (second, m) :: _ =>
      .error ⟨second, o.fail (objectEnd m.afterKey) (.duplicateField name)⟩

/-- Read one field of an array; `absent` is its value when it is left out. -/
def readItem {α : Type} (d : Decoder α) (absent : Option α) (o : Origin) (is : List Source)
    (stop : Option Break) (wanted : String) (rest : List Char) (index : Nat) : Except Misread α :=
  match is[index]?, stop, absent with
  | some s, _, _ =>
    (d o s).mapError fun e => ⟨index, o.settle (arrayEnd s.span.stop) e⟩
  | none, some b, _ => .error ⟨index, .ofFault b.reading⟩
  | none, none, some a => .ok a
  | none, none, none => .error ⟨index, o.fail (arrayEnd rest) (.invalidLength index wanted)⟩

namespace Fields

variable {α β : Type}

/-- A field with its values when it is left out of an object or of an array. -/
def field (name : String) (ofObject ofArray : Option α) (d : Decoder α) : Fields α where
  names := [name]
  read := fun o p index =>
    match p with
    | .members ms rest => readMember name d ofObject o ms rest index
    | .items is stop wanted rest => readItem d ofArray o is stop wanted rest index

def required (name : String) (d : Decoder α) : Fields α := field name none none d

/-- A field that is `a` when left out. -/
def withDefault (name : String) (a : α) (d : Decoder α) : Fields α := field name (some a) (some a) d

/-- A field that may be left out or null. -/
def optional (name : String) (d : Decoder α) : Fields (Option α) := withDefault name none d.option

/-- A field that may be null, and may be left out of an object. -/
def nullable (name : String) (d : Decoder α) : Fields (Option α) := field name (some none) none d.option

def and (f : Fields α) (g : Fields β) : Fields (α × β) where
  names := f.names ++ g.names
  read := fun o p index => inOrder (f.read o p index) (g.read o p (index + f.names.length))

def map (h : α → β) (f : Fields α) : Fields β where
  names := f.names
  read := fun o p index => (f.read o p index).map h

end Fields

/-- The first fault that passing over the other members meets. -/
def passOver (names : List String) (part : Nat) :
    List (Member Source) → Option Break → Except Misread Unit
  | [], none => .ok ()
  | [], some b => .error ⟨part, .ofFault b.reading⟩
  | m :: rest, stop =>
    match m.key with
    | .error f => .error ⟨part, .ofFault f⟩
    | .ok key =>
      if key ∈ names then passOver names (part + 1) rest stop
      else match m.value.skipFault? with
        | some f => .error ⟨part, .ofFault f⟩
        | none => passOver names (part + 1) rest stop

def elements (n : Nat) : String := if n = 1 then "1 element" else s!"{n} elements"

/-- Check that an array has no items beyond the fields. -/
def checkSurplus (o : Origin) (count : Nat) (is : List Source) (stop : Option Break) (span : Span) :
    Except Failure Unit :=
  if is.length < count then orFault (atEnd stop ())
  else match o.medium with
    | .text =>
      match arrayEndFault? (afterItems span (is.take count)) with
      | some f => .error (.ofFault f)
      | none => .ok ()
    | .value =>
      if is.length = count then .ok ()
      else .error (o.failAt span (.invalidLength is.length "fewer elements in array"))
    | .buffer =>
      if is.length = count then .ok ()
      else .error (o.failAt span (.invalidLength is.length (elements count ++ " in sequence")))

/-- The result, or the error without the number of its part. -/
def dropPart {α : Type} : Except Misread α → Except Failure α
  | .ok a => .ok a
  | .error e => .error e.failure

def readMembers {α : Type} (f : Fields α) (o : Origin) (ms : List (Member Source))
    (stop : Option Break) (span : Span) : Except Failure α := do
  let read := f.read o (.members ms (afterMembers span ms)) 0
  let (a, _) ← dropPart (inOrder read (passOver f.names 0 ms stop))
  .ok a

/-- Decode the record called `kind` from the items of an array. -/
def readItems {α : Type} (kind : String) (f : Fields α) (o : Origin) (is : List Source)
    (stop : Option Break) (span : Span) : Except Failure α := do
  let count := f.names.length
  let wanted := s!"struct {kind} with {elements count}"
  let a ← dropPart (f.read o (.items is stop wanted (afterItems span is)) 0)
  checkSurplus o count is stop span
  .ok a

namespace Decoder

variable {α : Type}

/-- Decode the record called `kind`, from an object or from an array of its fields. -/
def record (kind : String) (f : Fields α) : Decoder α
  | o, .object ms stop span => do readMembers f (← o.enter span) ms stop span
  | o, .array is stop span => do readItems kind f (← o.enter span) is stop span
  | o, s => .error (o.mismatch s!"struct {kind}" s)

/-- One of the names of some variants. -/
def variant (variants : List (String × α)) (s : String) : Except DecodeError α :=
  match variants.lookup s with
  | some a => .ok a
  | none => .error (.unknownVariant s (variants.map (·.1)))

def ofValue (d : Decoder α) (j : Json) : Except DecodeError α :=
  (d .value (.ofJson j)).mapError (·.error)

def ofText (d : Decoder α) (text : String) : Except LocatedError α :=
  let document := Document.ofText text
  match d .text document.value, document.trailing with
  | .ok a, none => .ok a
  | .ok _, some f => .error ((Failure.ofFault f).locate text)
  | .error f, _ => .error (f.locate text)

end Decoder

def parse (text : String) : Except LocatedError Json :=
  (ofText? text).mapError fun f => (Failure.ofFault f).locate text

end AssemblyPolicy.Json
