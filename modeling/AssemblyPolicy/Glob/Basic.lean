import AssemblyPolicy.Text.Split

/-!
# Glob patterns

A pattern is a list of tokens, matched against the UTF-8 bytes of a whole name. `*` and `?` match
any byte, a slash too. `**` stands for any number of path components where it is a whole component.

Matching keeps the set of the places that tokens can lead to, so it takes time in proportion to the
name and to the pattern.
-/

namespace AssemblyPolicy.Glob

abbrev Bytes := List UInt8

def charBytes (c : Char) : Bytes := (String.singleton c).toUTF8.toList

inductive Token where
  | literal (c : Char)
  /-- `?` -/
  | any
  /-- `*` -/
  | many
  /-- `**/` at the start. -/
  | leading
  /-- `/**` at the end. -/
  | trailing
  /-- `/**/` -/
  | between
  /-- `[…]`, ranges of characters. -/
  | oneOf (negated : Bool) (ranges : List (Char × Char))
  /-- `{…,…}` -/
  | alternatives (branches : List (List Token))
  deriving Inhabited

mutual

/-- Does the token stand for the empty text only? -/
def Token.isEmpty : Token → Bool
  | .alternatives branches => branchesEmpty branches
  | _ => false

def tokensEmpty : List Token → Bool
  | [] => true
  | t :: rest => t.isEmpty && tokensEmpty rest

def branchesEmpty : List (List Token) → Bool
  | [] => true
  | b :: rest => tokensEmpty b && branchesEmpty rest

end

/-! ### Matching -/

/-- The ranges of bytes in a range of characters. A character of several bytes counts as a choice
between them; only the last byte of the lower end and the first of the upper end form a range. -/
def byteRanges (r : Char × Char) : List (UInt8 × UInt8) :=
  let single (b : UInt8) := (b, b)
  if r.1 = r.2 then (charBytes r.1).map single
  else match (charBytes r.1).reverse, charBytes r.2 with
    | lo :: before, hi :: after => before.map single ++ (lo, hi) :: after.map single
    | _, _ => []

def inRanges (ranges : List (Char × Char)) (b : UInt8) : Bool :=
  (ranges.flatMap byteRanges).any fun r => r.1 ≤ b && b ≤ r.2

def slash : UInt8 := 47

/-- A set of places in a name: whether each place is in it, from the start of the name to its end. -/
abbrev Places := List Bool

namespace Places

def start (name : Bytes) : Places := true :: name.map fun _ => false

def none (name : Bytes) : Places := false :: name.map fun _ => false

def union (ps qs : Places) : Places := List.zipWith (· || ·) ps qs

/-- The places one byte on, when that byte passes a test. -/
def step (name : Bytes) (test : UInt8 → Bool) (ps : Places) : Places :=
  false :: List.zipWith (fun b p => p && test b) name ps

/-- All places from the first one on. -/
def onward (seen : Bool) : Places → Places
  | [] => []
  | p :: ps => (seen || p) :: onward (seen || p) ps

def afterSlash (name : Bytes) (ps : Places) : Places := ps.step name (· = slash)

def hasEnd (ps : Places) : Bool := ps.getLast? = some true

end Places

mutual

/-- The places that a token can lead to. -/
def Token.follow (name : Bytes) (ps : Places) : Token → Places
  | .literal c => (charBytes c).foldl (fun ps b => ps.step name (· = b)) ps
  | .any => ps.step name fun _ => true
  | .many => ps.onward false
  | .leading => ps.union ((ps.onward false).afterSlash name)
  | .trailing => (ps.afterSlash name).onward false
  | .between =>
    let inside := ps.afterSlash name
    inside.union ((inside.onward false).afterSlash name)
  | .oneOf negated ranges => ps.step name fun b => inRanges ranges b != negated
  | .alternatives branches =>
    if branchesEmpty branches then ps else followBranches name ps branches

def followAll (name : Bytes) (ps : Places) : List Token → Places
  | [] => ps
  | t :: rest => followAll name (t.follow name ps) rest

/-- The places that one of the branches can lead to; empty branches do not count. -/
def followBranches (name : Bytes) (ps : Places) : List (List Token) → Places
  | [] => .none name
  | b :: rest =>
    let others := followBranches name ps rest
    if tokensEmpty b then others else (followAll name ps b).union others

end

/-! ### Strategies -/

def Token.literal? : Token → Option Char
  | .literal c => some c
  | _ => none

def isFixed (tokens : List Token) : Bool := tokens.all fun t => t.literal?.isSome

def Token.isLiteral (c : Char) (t : Token) : Bool := t.literal? = some c

/-- How a pattern is matched. -/
inductive Strategy where
  /-- By comparing a part of the name with a fixed text. -/
  | comparison
  /-- By comparing the last component of the name, or its extension, with a fixed text. -/
  | component
  /-- By the extension of the last component, and then as a whole. -/
  | extension
  | search
  deriving DecidableEq

/-- Is this a fixed text with or without something open before or behind it? -/
def isComparison (tokens : List Token) : Bool :=
  match tokens with
  | [] => false
  | .leading :: .many :: rest => isFixed rest && rest.any fun t => !t.isLiteral '/' || rest.length ≠ 1
  | .leading :: rest => isFixed rest && !rest.isEmpty
  | .many :: rest => isFixed rest && rest.any fun t => !t.isLiteral '/' || rest.length ≠ 1
  | tokens =>
    match tokens.getLast? with
    | some .many => isFixed tokens.dropLast && tokens.length ≠ 1
    | some .trailing => isFixed tokens.dropLast
    | _ => isFixed tokens

/-- Is this a fixed last component, or a fixed extension? -/
def isComponent (tokens : List Token) : Bool :=
  let isExtension (rest : List Token) : Bool :=
    match rest with
    | .literal '.' :: rest =>
      isFixed rest && !rest.any fun t => t.isLiteral '.' || t.isLiteral '/'
    | _ => false
  match tokens with
  | .leading :: .many :: rest => isExtension rest
  | .leading :: rest => isFixed rest && !rest.isEmpty && !rest.any (·.isLiteral '/')
  | .many :: rest => isExtension rest
  | _ => false

/-- Does the pattern end in a dot and fixed characters that are neither dots nor slashes? -/
def endsInExtension (tokens : List Token) : Bool :=
  match tokens.reverse.dropWhile fun t => t.literal?.any fun c => c ≠ '.' && c ≠ '/' with
  | .literal '.' :: _ => true
  | _ => false

def strategy (tokens : List Token) : Strategy :=
  if isComponent tokens then .component
  else if isComparison tokens then .comparison
  else if endsInExtension tokens then .extension
  else .search

def lastComponent (name : String) : String :=
  String.ofList ((splitAll '/' name.toList).getLast?.getD [])

/-- May the strategy be used for a name? The component `..` is no name of its own, and has no
extension. -/
def Strategy.admits (s : Strategy) (name : String) : Bool :=
  match s with
  | .component => lastComponent name ≠ ".."
  | .extension => lastComponent name ≠ ".."
  | _ => true

/-- Do the tokens match the whole name? A lone `**` matches everything. -/
def tokensMatch (tokens : List Token) (name : String) : Bool :=
  match tokens with
  | [.leading] => true
  | tokens =>
    let bytes := name.toUTF8.toList
    (strategy tokens).admits name && (followAll bytes (.start bytes) tokens).hasEnd

end AssemblyPolicy.Glob
