import AssemblyPolicy.Toml.Scalar

/-!
# TOML documents

A document is a list of statements, headers of tables and entries. `Document.ofText?` reads the
statements and builds the root table from them: no entry and no table is defined twice, and tables in
braces are never added to.
-/

namespace AssemblyPolicy.Toml

/-! ### Building tables -/

def find? (key : String) (entries : Entries) : Option Value := entries.lookup key

/-- Put a value at a key, in the place of the one there or at the end. -/
def put (key : String) (v : Value) : Entries → Entries
  | [] => [(key, v)]
  | (k, w) :: rest => if k = key then (k, v) :: rest else (k, w) :: put key v rest

def updateLast (f : Value → Option Value) : List Value → Option (List Value)
  | [] => none
  | [v] => (f v).map fun v => [v]
  | v :: rest => (updateLast f rest).map (v :: ·)

/-- Add an entry with a dotted key. A table on the way that no header made takes it and counts as made
by dotted keys from then on, so that no header can make it any more. The key may go on through the
last table of an array, but that table itself takes no entry: `dotted` tells whether the entry may end
up right here. -/
def addEntry (dotted : Bool) (v : Value) : List String → Entries → Option Entries
  | [], _ => none
  | [key], entries =>
    if dotted ∧ (find? key entries).isNone then some (put key v entries) else none
  | key :: rest, entries => do
    match find? key entries with
    | none => do
      let inner ← addEntry true v rest []
      some (put key (.table .dotted inner) entries)
    | some (.table .dotted inner) | some (.table .implied inner) => do
      let inner ← addEntry true v rest inner
      some (put key (.table .dotted inner) entries)
    | some (.array true items) => do
      let items ← updateLast (fun
        | .table kind inner => (addEntry false v rest inner).map (.table kind)
        | _ => none) items
      some (put key (.array true items) entries)
    | some _ => none

def addEntries : List (List String × Value) → Entries → Option Entries
  | [], entries => some entries
  | (path, v) :: rest, entries => do addEntries rest (← addEntry true v path entries)

def addTable (isArray : Bool) (body : List (List String × Value)) :
    List String → Entries → Option Entries
  | [], _ => none
  | [key], entries =>
    if isArray then do
      let inner ← addEntries body []
      match find? key entries with
      | none => some (put key (.array true [.table .header inner]) entries)
      | some (.array true items) =>
        some (put key (.array true (items ++ [.table .header inner])) entries)
      | some _ => none
    else
      match find? key entries with
      | none => do
        let inner ← addEntries body []
        some (put key (.table .header inner) entries)
      | some (.table .implied inner) => do
        let inner ← addEntries body inner
        some (put key (.table .header inner) entries)
      | some _ => none
  | key :: rest, entries =>
    match find? key entries with
    | none => do
      let inner ← addTable isArray body rest []
      some (put key (.table .implied inner) entries)
    | some (.table .inline _) => none
    | some (.table kind inner) => do
      let inner ← addTable isArray body rest inner
      some (put key (.table kind inner) entries)
    | some (.array true items) => do
      let items ← updateLast (fun
        | .table kind inner => (addTable isArray body rest inner).map (.table kind)
        | _ => none) items
      some (put key (.array true items) entries)
    | some _ => none

/-! ### Reading values -/

/-- Arrays and tables in braces nest at most this deep. -/
def nestingLimit : Nat := 80

mutual

/-- A value. Each step of the reading uses up fuel, each container some of the depth. -/
def value? (fuel depth : Nat) (cs : List Char) : Option (Value × List Char) :=
  match fuel with
  | 0 => none
  | fuel + 1 =>
    match quoted? cs with
    | some r => r.map fun (s, rest) => (.string s, rest)
    | none =>
      match cs with
      | '[' :: rest =>
        match depth with
        | 0 => none
        | depth + 1 => (items? fuel depth [] rest).map fun (vs, rest) => (.array false vs, rest)
      | '\x7b' :: rest =>
        match depth with
        | 0 => none
        | depth + 1 => do
          let (pairs, rest) ← pairs? fuel depth [] rest
          let entries ← addEntries pairs []
          some (.table .inline entries, rest)
      | cs => bare? cs

/-- The rest of an array. -/
def items? (fuel depth : Nat) (done : List Value) (cs : List Char) : Option (List Value × List Char) :=
  match fuel with
  | 0 => none
  | fuel + 1 => do
    let cs ← skipFiller false cs
    match cs with
    | ']' :: rest => some (done.reverse, rest)
    | cs => do
      let (v, rest) ← value? fuel depth cs
      let rest ← skipFiller false rest
      match rest with
      | ',' :: rest => items? fuel depth (v :: done) rest
      | ']' :: rest => some ((v :: done).reverse, rest)
      | _ => none

/-- The rest of a table in braces. -/
def pairs? (fuel depth : Nat) (done : List (List String × Value)) (cs : List Char) :
    Option (List (List String × Value) × List Char) :=
  match fuel with
  | 0 => none
  | fuel + 1 => do
    let cs ← skipFiller false cs
    match cs with
    | '\x7d' :: rest => some (done.reverse, rest)
    | cs => do
      let (p, rest) ← pair? fuel depth true cs
      let rest ← skipFiller false rest
      match rest with
      | ',' :: rest => pairs? fuel depth (p :: done) rest
      | '\x7d' :: rest => some ((p :: done).reverse, rest)
      | _ => none

/-- A key and its value. `inBraces` tells whether they may stand on several lines. -/
def pair? (fuel depth : Nat) (inBraces : Bool) (cs : List Char) :
    Option ((List String × Value) × List Char) :=
  match fuel with
  | 0 => none
  | fuel + 1 => do
    let (path, rest) ← key? cs
    let rest ← skipGap inBraces rest
    match rest with
    | '=' :: rest => do
      let rest ← skipGap inBraces rest
      let (v, rest) ← value? fuel depth rest
      some ((path, v), rest)
    | _ => none

end

/-! ### Reading statements -/

/-- A line of a document. -/
inductive Statement where
  | header (isArray : Bool) (path : List String)
  | entry (path : List String) (v : Value)

def closeHeader? (isArray : Bool) (cs : List Char) : Option (List Char) :=
  match isArray, cs with
  | true, ']' :: ']' :: rest => some rest
  | false, ']' :: rest => some rest
  | _, _ => none

/-- A header after its opening brackets. -/
def header? (isArray : Bool) (cs : List Char) : Option (Statement × List Char) := do
  let (path, rest) ← key? (skipSpaces cs)
  let rest ← closeHeader? isArray rest
  some (.header isArray path, rest)

def statement? (fuel : Nat) (cs : List Char) : Option (Statement × List Char) :=
  match cs with
  | '[' :: '[' :: rest => header? true rest
  | '[' :: rest => header? false rest
  | cs => (pair? fuel nestingLimit false cs).map fun ((path, v), rest) => (.entry path v, rest)

/-- All statements, each ended by a line break or the end of the text. -/
def statements? (fuel : Nat) (cs : List Char) : Option (List Statement) :=
  match fuel with
  | 0 => none
  | fuel + 1 => do
    let cs ← skipFiller false cs
    match cs with
    | [] => some []
    | cs => do
      let (s, rest) ← statement? fuel cs
      let rest ← endLine rest
      let ss ← statements? fuel rest
      some (s :: ss)

/-- The entries before the first header, and the sections: each header with its entries. -/
def sections : List Statement →
    List (List String × Value) × List (Bool × List String × List (List String × Value))
  | [] => ([], [])
  | .entry path v :: rest =>
    let (body, more) := sections rest
    ((path, v) :: body, more)
  | .header isArray path :: rest =>
    let (body, more) := sections rest
    ([], (isArray, path, body) :: more)

def addSections : List (Bool × List String × List (List String × Value)) → Entries →
    Option Entries
  | [], entries => some entries
  | (isArray, path, body) :: rest, entries => do
    addSections rest (← addTable isArray body path entries)

/-- A mark of byte order may come first. -/
def skipMark : List Char → List Char
  | '\ufeff' :: rest => rest
  | cs => cs

/-- The root table of a document, or nothing if the text is wrong. -/
def root? (text : String) : Option Entries := do
  let cs := skipMark text.toList
  let ss ← statements? (4 * cs.length + 4) cs
  let (body, more) := sections ss
  addSections more (← addEntries body [])

end AssemblyPolicy.Toml
