import DataBinding.Binding.Writing

/-!
# Events and methods

Dispatching an event delivers it to the listeners that the node has for its kind at that moment, in
the order in which they were added.
-/

namespace DataBinding

/-- Runs a handler. -/
def Handler.run (handler : Handler) (event : Event) : Proc Unit :=
  match handler with
  | .client name body => Proc.perform (.handler name event body)
  | .writeBack data path => do
    let value ← Proc.ask fun w => (w.document.node event.target).value
    let _ ← path.assign data (.string value)
    pure ()
  | .method context called => Proc.perform (.method context called event)

/-- Delivers an event to the listeners of a node. -/
def dispatch (node : NodeId) (event : Event) : Proc Unit := do
  let listeners ← Proc.ask (·.document.listenersFor node event.kind)
  Proc.each (fun listener => Proc.perform (.deliver listener event)) listeners

/-- Sets the form value of a node and delivers an `input` event. -/
def input (node : NodeId) (content : String) : Proc Unit := do
  Proc.modify (·.onDocument (·.setValue node content))
  dispatch node ⟨"input", node⟩

/-- Calls a method by its name. -/
def Context.call (context : Context) (name : String) (event : Event) : Proc (Except Error Unit) :=
  match context.methods.find? name with
  | none => pure (.error (.unknownMethod name))
  | some method => do
    Proc.perform (.method context method event)
    pure (.ok ())

end DataBinding
