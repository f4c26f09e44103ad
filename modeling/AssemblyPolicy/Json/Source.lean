import AssemblyPolicy.Json.Token

/-!
# A JSON text as a reader meets it

`Source` is the tree of a text that may break off or go wrong at any place: the parts before the
fault are there, in reading order, with repeated keys and all. A decoder over a `Source` thus meets
a wrong value before a fault that comes after it. `Document.ofText` reads a text, `Source.value?`
gives the value of a text without faults, and `Source.ofJson` presents a value as a source.
-/

namespace AssemblyPolicy.Json

/-- A member of an object, with what follows its key. -/
structure Member (α : Type) where
  key : Except Fault String
  afterKey : List Char
  value : α
  deriving Inhabited

def Member.hasKey {α : Type} (key : String) (m : Member α) : Bool :=
  match m.key with
  | .ok k => k = key
  | .error _ => false

/-- A value in a text, with its span. Only the last part of a text can be broken: `stop` tells what is
met in place of the next item or the end of the container. -/
inductive Source where
  | null (span : Span)
  | bool (b : Bool) (span : Span)
  | number (n : Number) (span : Span)
  | string (s : String) (span : Span)
  /-- A text or number without a value, which can be passed over. -/
  | valueless (f : Fault) (span : Span)
  | broken (b : Break)
  | array (items : List Source) (stop : Option Break) (span : Span)
  | object (members : List (Member Source)) (stop : Option Break) (span : Span)
  deriving Inhabited

def Source.span : Source → Span
  | .null span => span
  | .bool _ span => span
  | .number _ span => span
  | .string _ span => span
  | .valueless _ span => span
  | .broken _ => .none
  | .array _ _ span => span
  | .object _ _ span => span

/-- A text as a whole: its value and what follows it. -/
structure Document where
  value : Source
  trailing : Option Fault
  deriving Inhabited

/-! ### Reading -/

/-- A container that is being read: its parts in reverse, and the text from its start on. -/
inductive Frame where
  | array (items : List Source) (start : List Char)
  | object (members : List (Member Source)) (key : Except Fault String) (afterKey start : List Char)

/-- What the next token may be. -/
inductive Expecting where
  | value
  | item
  | itemOrEnd
  | keyOrEnd (start : List Char)
  | key (members : List (Member Source)) (start : List Char)
  | colon
  | separator
  | nothing (value : Source)

/-- Hand the last part of a broken text to the containers around it. -/
def closeFrames (s : Source) : List Frame → Source
  | [] => s
  | .array items start :: frames =>
    closeFrames (.array (s :: items).reverse none ⟨start, []⟩) frames
  | .object members key afterKey start :: frames =>
    closeFrames (.object (⟨key, afterKey, s⟩ :: members).reverse none ⟨start, []⟩) frames

def afterValue (s : Source) : List Frame → Expecting × List Frame
  | [] => (.nothing s, [])
  | .array items start :: frames => (.separator, .array (s :: items) start :: frames)
  | .object members key afterKey start :: frames =>
    (.separator, .object (⟨key, afterKey, s⟩ :: members) key afterKey start :: frames)

/-- The break at a place where `e` was expected and something else stands, or nothing more. -/
def Expecting.breakAt (e : Expecting) (frames : List Frame) (rest : List Char) : Break :=
  let all (atEnd otherwise : FaultKind) : Break :=
    .of (if rest = [] then .ahead atEnd [] else .inNext otherwise rest)
  match e with
  | .value => all .endInValue .noValue
  | .item =>
    if rest.head? = some ']' then ⟨.inNext .trailingComma rest, .inNext .noValue rest⟩
    else all .endInValue .noValue
  | .itemOrEnd => all .endInList .noValue
  | .keyOrEnd _ => all .endInObject .keyNotString
  | .key _ _ =>
    if rest = [] then ⟨.ahead .endInValue [], .ahead .endInObject []⟩
    else if rest.head? = some '\x7d' then ⟨.inNext .trailingComma rest, .inNext .keyNotString rest⟩
    else all .endInObject .keyNotString
  | .colon => all .endInObject .noColon
  | .separator =>
    match frames with
    | .object _ _ _ _ :: _ => all .endInObject .noMemberSeparator
    | _ => all .endInList .noItemSeparator
  | .nothing _ => all .endInValue .trailingCharacters

/-- The document whose text breaks off where `e` was expected. -/
def breakOff (b : Break) (e : Expecting) (frames : List Frame) : Document :=
  match e with
  | .nothing s => ⟨s, some b.reading⟩
  | .value | .item | .colon => ⟨closeFrames (.broken b) frames, none⟩
  | .itemOrEnd =>
    match frames with
    | .array _ start :: frames => ⟨closeFrames (.array [] (some b) ⟨start, []⟩) frames, none⟩
    | _ => ⟨closeFrames (.broken b) frames, none⟩
  | .keyOrEnd start => ⟨closeFrames (.object [] (some b) ⟨start, []⟩) frames, none⟩
  | .key members start =>
    ⟨closeFrames (.object members.reverse (some b) ⟨start, []⟩) frames, none⟩
  | .separator =>
    match frames with
    | .array items start :: frames =>
      ⟨closeFrames (.array items.reverse (some b) ⟨start, []⟩) frames, none⟩
    | .object members _ _ start :: frames =>
      ⟨closeFrames (.object members.reverse (some b) ⟨start, []⟩) frames, none⟩
    | [] => ⟨.broken b, none⟩

/-- The next state of the reader, or the document when the text breaks off. -/
abbrev Progress := Except Document (Expecting × List Frame)

/-- What a token does where a value may stand: it is one, opens one, or breaks off. -/
def valueToken? (frames : List Frame) (t : Token) (span : Span) : Option Progress :=
  match t with
  | .null => some (.ok (afterValue (.null span) frames))
  | .bool b => some (.ok (afterValue (.bool b span) frames))
  | .number (.ok n) => some (.ok (afterValue (.number n span) frames))
  | .number (.error f) => some (.ok (afterValue (.valueless f span) frames))
  | .string (.ok s) => some (.ok (afterValue (.string s span) frames))
  | .string (.error f) => some (.ok (afterValue (.valueless f span) frames))
  | .openArray => some (.ok (.itemOrEnd, .array [] span.start :: frames))
  | .openObject => some (.ok (.keyOrEnd span.start, frames))
  | .brokenString b | .broken b => some (.error ⟨closeFrames (.broken b) frames, none⟩)
  | _ => none

def keyToken? (members : List (Member Source)) (start : List Char) (frames : List Frame) (t : Token)
    (span : Span) : Option Progress :=
  match t with
  | .string key => some (.ok (.colon, .object members key span.stop start :: frames))
  | .brokenString b =>
    some (.error ⟨closeFrames (.object members.reverse (some b) ⟨start, []⟩) frames, none⟩)
  | _ => none

/-- A token that may not stand where `e` is expected ends the document. -/
def orBreakOff (e : Expecting) (frames : List Frame) (span : Span) (p : Option Progress) : Progress :=
  match p with
  | some r => r
  | none => .error (breakOff (e.breakAt frames span.start) e frames)

def advance (e : Expecting) (frames : List Frame) (t : Token) (span : Span) : Progress :=
  match e, t, frames with
  | .value, t, frames => orBreakOff .value frames span (valueToken? frames t span)
  | .item, t, frames => orBreakOff .item frames span (valueToken? frames t span)
  | .itemOrEnd, .closeArray, .array items start :: frames =>
    .ok (afterValue (.array items.reverse none ⟨start, span.stop⟩) frames)
  | .itemOrEnd, t, frames => orBreakOff .itemOrEnd frames span (valueToken? frames t span)
  | .keyOrEnd start, .closeObject, frames =>
    .ok (afterValue (.object [] none ⟨start, span.stop⟩) frames)
  | .keyOrEnd start, t, frames =>
    orBreakOff (.keyOrEnd start) frames span (keyToken? [] start frames t span)
  | .key members start, t, frames =>
    orBreakOff (.key members start) frames span (keyToken? members start frames t span)
  | .colon, .colon, frames => .ok (.value, frames)
  | .separator, .comma, .array items start :: frames => .ok (.item, .array items start :: frames)
  | .separator, .closeArray, .array items start :: frames =>
    .ok (afterValue (.array items.reverse none ⟨start, span.stop⟩) frames)
  | .separator, .comma, .object members _ _ start :: frames => .ok (.key members start, frames)
  | .separator, .closeObject, .object members _ _ start :: frames =>
    .ok (afterValue (.object members.reverse none ⟨start, span.stop⟩) frames)
  | e, _, frames => orBreakOff e frames span none

def readTokens (e : Expecting) (frames : List Frame) : List (Token × Span) → Document
  | [] =>
    match e with
    | .nothing s => ⟨s, none⟩
    | _ => breakOff (e.breakAt frames []) e frames
  | (t, span) :: ts =>
    match advance e frames t span with
    | .ok (e, frames) => readTokens e frames ts
    | .error document => document

def Document.ofText (text : String) : Document := readTokens .value [] (tokens text.toList)

/-! ### Values -/

/-- The fault met in passing over a value. A text breaks off only at its end, so only the last part
can be broken. -/
def Source.skipFault? : Source → Option Fault
  | .broken b => some b.skipping
  | .array items stop _ =>
    match stop with
    | some b => some b.skipping
    | none => lastFault? items
  | .object members stop _ =>
    match stop with
    | some b => some b.skipping
    | none => lastMemberFault? members
  | _ => none
where
  /-- The fault in the last of some items. -/
  lastFault? : List Source → Option Fault
    | [] => none
    | [s] => s.skipFault?
    | _ :: s :: rest => lastFault? (s :: rest)
  /-- The fault in the last of some members. -/
  lastMemberFault? : List (Member Source) → Option Fault
    | [] => none
    | [⟨_, _, s⟩] => s.skipFault?
    | _ :: m :: rest => lastMemberFault? (m :: rest)

/-- One container deeper, if the limit allows it. No limit allows all. The container starts at the
place where too deep nesting is noticed. -/
def deeper (limit : Option Nat) (span : Span) : Except Fault (Option Nat) :=
  match limit with
  | none => .ok none
  | some 0 => .error (.inNext .tooDeep span.start)
  | some (n + 1) => .ok (some n)

/-- A finished container, or the fault at its end. -/
def atEnd {α : Type} (stop : Option Break) (a : α) : Except Fault α :=
  match stop with
  | some b => .error b.reading
  | none => .ok a

mutual

/-- The value of a source, its objects sorted by key, when it nests no deeper than the limit. -/
def Source.value? (limit : Option Nat) : Source → Except Fault Json
  | .null _ => .ok .null
  | .bool b _ => .ok (.bool b)
  | .number n _ => .ok (.number n)
  | .string s _ => .ok (.string s)
  | .valueless f _ => .error f
  | .broken b => .error b.reading
  | .array items stop span => do
    let limit ← deeper limit span
    let values ← itemValues? limit items
    atEnd stop (.array values)
  | .object members stop span => do
    let limit ← deeper limit span
    let values ← memberValues? limit members
    atEnd stop (.ofMembers values)

def itemValues? (limit : Option Nat) : List Source → Except Fault (List Json)
  | [] => .ok []
  | s :: rest => do
    let v ← s.value? limit
    let vs ← itemValues? limit rest
    .ok (v :: vs)

def memberValues? (limit : Option Nat) :
    List (Member Source) → Except Fault (List (String × Json))
  | [] => .ok []
  | ⟨key, _, s⟩ :: rest => do
    let k ← key
    let v ← s.value? limit
    let vs ← memberValues? limit rest
    .ok ((k, v) :: vs)

end

/-- Containers may nest this deep where a value is wanted. -/
def nestingLimit : Nat := 127

def ofText? (text : String) : Except Fault Json :=
  let document := Document.ofText text
  match document.value.value? (some nestingLimit), document.trailing with
  | .ok v, none => .ok v
  | .ok _, some f => .error f
  | .error f, _ => .error f

mutual

/-- A value as a source without faults. -/
def Source.ofJson : Json → Source
  | .null => .null .none
  | .bool b => .bool b .none
  | .number n => .number n .none
  | .string s => .string s .none
  | .array items => .array (ofItems items) none .none
  | .object members => .object (ofMemberList members) none .none

def ofItems : List Json → List Source
  | [] => []
  | v :: rest => .ofJson v :: ofItems rest

def ofMemberList : List (String × Json) → List (Member Source)
  | [] => []
  | (k, v) :: rest => ⟨.ok k, [], .ofJson v⟩ :: ofMemberList rest

end

end AssemblyPolicy.Json
