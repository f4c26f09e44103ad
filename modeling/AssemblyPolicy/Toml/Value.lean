import AssemblyPolicy.Decimal.Double

/-!
# TOML values

Tables keep how they came to be, since that decides what may be added to them.
-/

namespace AssemblyPolicy.Toml

/-- How a table came to be. -/
inductive TableKind where
  /-- By a header, or as the root. -/
  | header
  /-- As a part of the path of a header. -/
  | implied
  /-- As a part of a dotted key. -/
  | dotted
  /-- In braces. -/
  | inline
  deriving DecidableEq

inductive Value where
  | string (s : String)
  | integer (n : Int)
  /-- A float, unless its numeral is out of range. -/
  | float (d : Option Double)
  | bool (b : Bool)
  /-- A date, a time or both, as written. -/
  | datetime (text : String)
  /-- An array in brackets, or one of tables that headers add to. -/
  | array (ofTables : Bool) (items : List Value)
  | table (kind : TableKind) (entries : List (String × Value))
  deriving Inhabited

abbrev Entries := List (String × Value)

end AssemblyPolicy.Toml
