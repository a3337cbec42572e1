import DataBinding.Binding.Writing
import DataBinding.World.Naming
import DataBinding.World.Show

/-!
# Running actions on objects
-/

namespace DataBinding

/-- What a name stands for. -/
def named {α : Type} (kind : Names → Keyed α) (name : String) : Proc α := do
  let w ← Proc.state
  Proc.need (.unknownName name) ((kind w.names).find? name)

/-- Runs a process with a named evaluation as its tracker, which is kept alive meanwhile. -/
def withTracker {α : Type} (name : Option String) (body : Option EvaluationId → Proc α) :
    Proc α :=
  match name with
  | none => body none
  | some name => do
    let e ← named (·.evaluations) name
    Proc.modify (·.retainEvaluation e)
    let result ← body (some e)
    Proc.modify (·.releaseEvaluation e)
    pure result

/-- The reply that shows a value. -/
def replyValue (value : Value) : Proc Reply :=
  Proc.ask fun w => .value (w.showValue value)

/-- The properties of an object under some keys, read one after the other. -/
def dumpRows (id : ObjectId) : List String → Proc (List (String × ValueView × Option Nat))
  | [] => pure []
  | key :: keys => do
    let value ← readProperty id key none
    let row ← Proc.ask fun w => (key, w.showValue value, w.liveSubscribers id key)
    let rows ← dumpRows id keys
    pure (row :: rows)

/-- Runs an action on objects. -/
def runObjectAction : ObjectAction → Proc Reply
  | .get object key tracker => do
    let id ← named (·.objects) object
    withTracker tracker fun e => do
      let value ← readProperty id key e
      replyValue value
  | .fetch into object key => do
    let id ← named (·.objects) object
    match ← readProperty id key none with
    | .object found => do
      Proc.modify (·.nameObject into found)
      pure (.flag true)
    | _ => pure (.flag false)
  | .keys object => do
    let id ← named (·.objects) object
    Proc.ask fun w => .keys (w.graph.keys id)
  | .has object key => do
    let id ← named (·.objects) object
    Proc.ask fun w => .flag ((w.graph.slots id).contains key)
  | .same object other => do
    let id ← named (·.objects) object
    let otherId ← named (·.objects) other
    pure (.flag (id == otherId))
  | .reactive object key => do
    let id ← named (·.objects) object
    Proc.ask fun w => .reactive (w.liveSubscribers id key)
  | .dump object => do
    let id ← named (·.objects) object
    let keys ← Proc.ask (·.graph.keys id)
    let rows ← dumpRows id keys
    pure (.dump rows)
  | .resolve object source tracker => do
    let id ← named (·.objects) object
    withTracker tracker fun e => do
      let value ← (Path.parse source).resolve id e
      replyValue value
  | .render object text convention tracker => do
    let id ← named (·.objects) object
    let template ← Proc.need .emptyOpening (Template.parse? convention text)
    withTracker tracker fun e => do
      let rendered ← template.render id e
      pure (.text rendered)
  | .path source => pure (.path (Path.parse source))

end DataBinding
