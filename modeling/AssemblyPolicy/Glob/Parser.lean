import AssemblyPolicy.Glob.Basic

/-!
# Reading glob patterns

`Glob.readTokens` reads a pattern from left to right, with a stack of the groups of alternatives that are
open.
-/

namespace AssemblyPolicy.Glob

inductive ParseError where
  | unclosedClass
  | invalidRange (lower upper : Char)
  | unopenedGroup
  | unclosedGroup
  | danglingEscape
  deriving DecidableEq

def ParseError.message : ParseError → String
  | unclosedClass => "unclosed character class; missing ']'"
  | invalidRange lower upper =>
    "invalid range; '" ++ lower.toString ++ "' > '" ++ upper.toString ++ "'"
  | unopenedGroup =>
    "unopened alternate group; missing '\x7b' (maybe escape '\x7d' with '[\x7d]'?)"
  | unclosedGroup =>
    "unclosed alternate group; missing '\x7d' (maybe escape '\x7b' with '[\x7b]'?)"
  | danglingEscape => "dangling '\\'"

/-! ### Classes -/

/-- Extend the last range, which is kept first, up to a character. -/
def extendRange (upper : Char) : List (Char × Char) → Except ParseError (List (Char × Char))
  | [] => .ok []
  | (lower, _) :: rest =>
    if upper < lower then .error (.invalidRange lower upper) else .ok ((lower, upper) :: rest)

/-- Read the ranges of a class up to its closing bracket. `first` tells that nothing was read yet,
`waiting` that a range waits for its upper end. -/
def readRanges (first waiting : Bool) (ranges : List (Char × Char)) :
    List Char → Except ParseError (List (Char × Char) × List Char)
  | [] => .error .unclosedClass
  | c :: rest =>
    if c = ']' ∧ !first then
      .ok ((if waiting then ('-', '-') :: ranges else ranges).reverse, rest)
    else if c = '-' ∧ !first ∧ !waiting then
      readRanges false true ranges rest
    else if waiting then do
      readRanges false false (← extendRange c ranges) rest
    else
      readRanges false false ((c, c) :: ranges) rest

theorem readRanges_length {first waiting : Bool} {ranges : List (Char × Char)} {cs : List Char}
    {r : List (Char × Char) × List Char} (h : readRanges first waiting ranges cs = .ok r) :
    r.2.length < cs.length := by
  induction cs generalizing first waiting ranges with
  | nil => simp [readRanges] at h
  | cons c rest ih =>
    simp only [readRanges] at h
    split at h
    · cases h; simp
    · split at h
      · exact Nat.lt_succ_of_lt (ih h)
      · split at h
        · cases hx : extendRange c ranges with
          | error e => simp [hx, bind, Except.bind] at h
          | ok rs =>
            simp only [hx, bind, Except.bind] at h
            exact Nat.lt_succ_of_lt (ih h)
        · exact Nat.lt_succ_of_lt (ih h)

/-- Is the class negated, and what follows the mark of negation? -/
def negation : List Char → Bool × List Char
  | '!' :: rest => (true, rest)
  | '^' :: rest => (true, rest)
  | cs => (false, cs)

theorem negation_length (cs : List Char) : (negation cs).2.length ≤ cs.length := by
  unfold negation
  split <;> simp

def readClass (cs : List Char) : Except ParseError (Token × List Char) :=
  match readRanges true false [] (negation cs).2 with
  | .ok (ranges, rest) => .ok (.oneOf (negation cs).1 ranges, rest)
  | .error e => .error e

theorem readClass_length {cs : List Char} {r : Token × List Char} (h : readClass cs = .ok r) :
    r.2.length < cs.length := by
  unfold readClass at h
  split at h
  · rename_i hr
    cases h
    exact Nat.lt_of_lt_of_le (readRanges_length hr) (negation_length cs)
  · cases h

/-! ### Stars -/

/-- The tokens of `**`, given those before it in reverse, the character before it, whether a group
is open, and the characters after it; with what is left of the latter. -/
def doubleStar (before : List Token) (previous : Option Char) (inGroup : Bool) (cs : List Char) :
    List Token × List Char :=
  let twoStars := (.many :: .many :: before, cs)
  match before with
  | [] =>
    match cs with
    | [] => ([.leading], [])
    | '/' :: rest => ([.leading], rest)
    | _ => twoStars
  | last :: earlier =>
    if previous = some '/' || (inGroup && (previous = some ',' || previous = some '\x7b')) then
      let merged (token : Token) : List Token :=
        match last with
        | .leading => .leading :: earlier
        | .trailing => .trailing :: earlier
        | _ => token :: earlier
      match cs with
      | [] => (merged .trailing, [])
      | '/' :: rest => (merged .between, rest)
      | c :: _ =>
        if inGroup && (c = ',' || c = '\x7d') then (merged .trailing, cs) else twoStars
    else
      twoStars

theorem doubleStar_length (before : List Token) (previous : Option Char) (inGroup : Bool)
    (cs : List Char) : (doubleStar before previous inGroup cs).2.length ≤ cs.length := by
  unfold doubleStar
  repeat' split
  all_goals simp

/-! ### Patterns -/

/-- A group of alternatives that is open: the tokens before it and its finished branches, both in
reverse. -/
structure Group where
  outer : List Token
  branches : List (List Token)

/-- Read a pattern, given the tokens of the current branch in reverse, the open groups from the
inside out, and the character before. -/
def readTokens (done : List Token) (groups : List Group) (previous : Option Char)
    (cs : List Char) : Except ParseError (List Token) :=
  match cs with
  | [] => if groups.isEmpty then .ok done.reverse else .error .unclosedGroup
  | '?' :: rest => readTokens (.any :: done) groups (some '?') rest
  | '*' :: '*' :: rest =>
    let r := doubleStar done previous (!groups.isEmpty) rest
    have := doubleStar_length done previous (!groups.isEmpty) rest
    readTokens r.1 groups (some (if r.2.length < rest.length then '/' else '*')) r.2
  | '*' :: rest => readTokens (.many :: done) groups (some '*') rest
  | '[' :: rest =>
    match h : readClass rest with
    | .error e => .error e
    | .ok r =>
      have := readClass_length h
      readTokens (r.1 :: done) groups (some ']') r.2
  | '\x7b' :: rest => readTokens [] (⟨done, []⟩ :: groups) (some '\x7b') rest
  | '\x7d' :: rest =>
    match groups with
    | [] => .error .unopenedGroup
    | group :: groups =>
      let branches := (done.reverse :: group.branches).reverse
      readTokens (.alternatives branches :: group.outer) groups (some '\x7d') rest
  | ',' :: rest =>
    match groups with
    | [] => readTokens (.literal ',' :: done) [] (some ',') rest
    | group :: groups =>
      readTokens [] (⟨group.outer, done.reverse :: group.branches⟩ :: groups) (some ',') rest
  | '\\' :: rest =>
    match rest with
    | [] => .error .danglingEscape
    | c :: rest' => readTokens (.literal c :: done) groups (some c) rest'
  | c :: rest => readTokens (.literal c :: done) groups (some c) rest
termination_by cs.length
decreasing_by all_goals (simp_all only [List.length_cons]; omega)

end Glob

structure Glob where
  pattern : String
  tokens : List Glob.Token
  deriving Inhabited

namespace Glob

def isMatch (g : Glob) (name : String) : Bool := tokensMatch g.tokens name

end AssemblyPolicy.Glob
