import DataBinding.Error
import DataBinding.Path

/-!
# Directives

An attribute whose name begins with the marker of the convention declares a binding:
`v-text`, `v-html` and `v-model` bind a path, `v-on:event` binds an event to a method. What
follows a colon after the first three is ignored.
-/

namespace DataBinding

/-- A binding declared by an attribute. -/
inductive Directive
  /-- The text content follows the path. -/
  | text (path : Path)
  /-- The value of the path is parsed as markup into the element. -/
  | html (path : Path)
  /-- The form value follows the path, and input is written back. -/
  | model (path : Path)
  /-- The event calls the method. -/
  | on (event method : String)
deriving DecidableEq

namespace Directive

/-- The directive that `rest`, the attribute's name after the marker, stands for. The full name
is for the report of an error. -/
def ofRest (name : String) (rest : List Char) (expression : String) : Except Error Directive :=
  let kind := rest.takeWhile (· ≠ ':')
  let argument := (rest.dropWhile (· ≠ ':')).drop 1
  if kind = "text".toList then .ok (.text (Path.parse expression))
  else if kind = "html".toList then .ok (.html (Path.parse expression))
  else if kind = "model".toList then .ok (.model (Path.parse expression))
  else if kind = "on".toList then
    if argument = [] then .error (.missingEvent name)
    else .ok (.on (String.ofList argument) (String.ofList (Text.trim expression.toList)))
  else .error (.unknownDirective name)

/-- Reads an attribute: nothing when its name lacks the marker. -/
def parse (marker name expression : String) : Except Error (Option Directive) :=
  match Text.afterLeading marker.toList name.toList with
  | none => .ok none
  | some rest => (ofRest name rest expression).map some

end Directive

end DataBinding
