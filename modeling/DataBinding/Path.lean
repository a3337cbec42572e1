import DataBinding.Text.Blank
import DataBinding.Text.Search

/-!
# Dotted paths

A path such as `user.address.city` names a property by the keys that lead to it. Blanks around
the path and around each key do not count, so `user . name` and `user.name` read the same
property.
-/

namespace DataBinding

/-- A dotted path: its trimmed source and the keys between the dots. -/
structure Path where
  source : String
  segments : List String
deriving DecidableEq

/-- The keys of a source text: its parts between the dots, each trimmed. -/
def Path.keysOf (source : List Char) : List String :=
  (Text.fields '.' source).map fun part => String.ofList (Text.trim part)

/-- Every text is a path; the empty text is the path of one empty key. -/
def Path.parse (source : String) : Path :=
  { source := String.ofList (Text.trim source.toList)
    segments := keysOf (Text.trim source.toList) }

end DataBinding
