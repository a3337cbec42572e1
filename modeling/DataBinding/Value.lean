import DataBinding.Number.Show

/-!
# Values

What the properties of a state tree hold. Comparison is shallow: an object is the same as itself
only, whatever its properties are, so that a change inside an object is no change of the property
that holds it.
-/

namespace DataBinding

/-- The identity of an object: its place in the store. -/
abbrev ObjectId := Nat

/-- A value of a state tree. -/
inductive Value
  | undefined
  | null
  | bool (b : Bool)
  | number (n : Number)
  | string (s : String)
  | object (id : ObjectId)
deriving DecidableEq

namespace Value

/-- Shallow equality: numbers numerically, objects by identity, all else by content. -/
def same : Value → Value → Bool
  | undefined, undefined => true
  | null, null => true
  | bool a, bool b => a == b
  | number a, number b => a.same b
  | string a, string b => a == b
  | object a, object b => a == b
  | _, _ => false

/-- The text that a rendering shows. A missing value shows nothing. -/
def text : Value → String
  | undefined | null => ""
  | bool b => if b then "true" else "false"
  | number n => n.text
  | string s => s
  | object _ => "[object Object]"

/-- The number of a value in arithmetic: anything but a number counts as zero. -/
def toNumber : Value → Number
  | number n => n
  | _ => .zero

/-- The object that a value is, if it is one. -/
def object? : Value → Option ObjectId
  | object id => some id
  | _ => none

end Value

end DataBinding
