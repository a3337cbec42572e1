import DataBinding.Script.Run.Steps

/-!
# Surveys

Values and templates looked at from every side: each value with what it is read as, each pair of
values with whether they are the same, and a template with its paths and its renderings.
-/

namespace DataBinding

/-- A value with everything that it can be read as. -/
structure ValueProfile where
  text : String
  isUndefined : Bool
  number : Option Number
  string : Option String
  bool : Option Bool
  keys : Option (List String)

/-- What a value is read as. -/
def World.profile (w : World) (v : Value) : ValueProfile where
  text := v.text
  isUndefined := v = .undefined
  number := match v with
    | .number n => some n
    | _ => none
  string := match v with
    | .string s => some s
    | _ => none
  bool := match v with
    | .bool b => some b
    | _ => none
  keys := v.object?.map w.graph.keys

/-- Some values: the profile of each, and for each the others that it is the same as. -/
structure ValueSurvey where
  profiles : List ValueProfile
  same : List (List Bool)

/-- Evaluates some expressions in order and surveys their values. -/
def surveyValues (expressions : List Expr) : Proc ValueSurvey := do
  let values ← Expr.evalAll .outside expressions
  Proc.ask fun w =>
    { profiles := values.map w.profile
      same := values.map fun a => values.map a.same }

/-- A template: its placeholders, and its text on some data and on none. -/
structure TemplateSurvey where
  hasPlaceholders : Bool
  placeholders : List Path
  rendered : String
  empty : String

/-- Reads a template and renders it on an object with some properties, and on one without. -/
def surveyTemplate (text : String) (convention : Convention) (data : List (String × Expr)) :
    Proc TemplateSurvey := do
  let template ← Proc.need .emptyOpening (Template.parse? convention text)
  let values ← Expr.evalProperties .outside data
  let object ← createObject values
  let rendered ← template.render object none
  let bare ← createObject []
  let empty ← template.render bare none
  pure
    { hasPlaceholders := template.hasPlaceholders
      placeholders := template.placeholders
      rendered
      empty }

end DataBinding
