/-!
# Conventions of a markup

Which attributes are directives and how a placeholder is written: by default an attribute whose
name begins with `v-`, and a path between double braces.
-/

namespace DataBinding

/-- What marks directives and placeholders in a markup. -/
structure Convention where
  /-- The beginning of the name of a directive attribute. -/
  marker : String
  /-- What opens a placeholder. -/
  opening : String
  /-- What closes a placeholder. -/
  closing : String
deriving DecidableEq

/-- Directives begin with `v-`, placeholders stand between double braces. -/
def Convention.standard : Convention :=
  { marker := "v-", opening := "\x7b\x7b", closing := "\x7d\x7d" }

end DataBinding
