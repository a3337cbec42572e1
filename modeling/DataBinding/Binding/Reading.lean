import DataBinding.Proc
import DataBinding.World.Evaluation

/-!
# Reading

Reading a property yields its value, or runs its accessor. A reading may belong to an evaluation,
its tracker, which then depends on every reactive property that is read, also inside accessors.
A path is walked key by key; the walk ends with `undefined` where there is no object to go on from.
-/

namespace DataBinding

/-- Notes a reactive property that a tracker reads. -/
def noteRead (tracker : Option EvaluationId) (property : Property) : Proc Unit :=
  match tracker, property.dependency with
  | some e, some d => Proc.modify (·.track e d)
  | _, _ => pure ()

/-- Reads a property of an object. -/
def readProperty (id : ObjectId) (key : String) (tracker : Option EvaluationId) : Proc Value := do
  match ← Proc.ask (·.graph.slot? id key) with
  | none => pure .undefined
  | some (.data property) => do
    noteRead tracker property
    pure property.value
  | some (.computed accessor) => Proc.perform (.accessor id tracker accessor)

/-- Walks keys from a value. -/
def walk (tracker : Option EvaluationId) : (from_ : Value) → (keys : List String) → Proc Value
  | v, [] => pure v
  | .object id, key :: keys => do
    let next ← readProperty id key tracker
    walk tracker next keys
  | _, _ :: _ => pure .undefined

/-- Resolves a path from an object. -/
def Path.resolve (path : Path) (root : ObjectId) (tracker : Option EvaluationId) : Proc Value :=
  walk tracker (.object root) path.segments

/-- Asks the questions about an object. -/
def Asking.run {α : Type} (data : ObjectId) (tracker : Option EvaluationId) : Asking α → Proc α
  | answer a => pure a
  | get path next => do
    let v ← (Path.parse path).resolve data tracker
    (next v).run data tracker

/-- The text of some segments of a template on an object. -/
def renderSegments (root : ObjectId) (tracker : Option EvaluationId) :
    List Segment → Proc String
  | [] => pure ""
  | .literal text :: segments => do
    let rest ← renderSegments root tracker segments
    pure (text ++ rest)
  | .placeholder path :: segments => do
    let value ← path.resolve root tracker
    let rest ← renderSegments root tracker segments
    pure (value.text ++ rest)

/-- Replaces every placeholder of a template by the text of its value. -/
def Template.render (t : Template) (root : ObjectId) (tracker : Option EvaluationId) :
    Proc String :=
  renderSegments root tracker t.segments

end DataBinding
