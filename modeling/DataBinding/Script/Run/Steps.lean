import DataBinding.Script.Keyword
import DataBinding.Script.Run.Bindings
import DataBinding.Script.Run.Nodes
import DataBinding.Script.Run.Tracking

/-!
# Running scripts

Expressions are evaluated and steps are run from left to right. What the data, the reading of a
path and the given value mean depends on the client code that is running, its scope.
-/

namespace DataBinding

/-- The client code that is running, with what it was given. -/
inductive Scope
  /-- No client code, or client code that is given nothing. -/
  | outside
  | accessor (data : ObjectId) (tracker : Option EvaluationId)
  | callback (value : Value)
  | method (context : Context) (event : Event)
  | handler (event : Event)

namespace Scope

/-- The data that client code reads from, and the evaluation that its readings belong to. -/
def data? : Scope → Option (ObjectId × Option EvaluationId)
  | accessor data tracker => some (data, tracker)
  | method context _ => some (context.data, none)
  | _ => none

/-- The value that client code was given. -/
def given : Scope → Proc Value
  | callback value => pure value
  | method _ event | handler event =>
    Proc.ask fun w => .string (w.document.node event.target).value
  | _ => Proc.halt .misplaced

end Scope

/-- Logs a step of client code that was run. A note is no more than its own entry. -/
def logStep (step : Step) (reply : Reply) : Proc Unit :=
  match step with
  | .note _ => pure ()
  | step => Proc.modify (·.note (.step step.keyword reply))

/-- The methods of a context, each under its name and labelled with it. -/
def methodsOf (methods : List (String × List Step)) : List (String × Method) :=
  methods.map fun entry => (entry.1, ⟨entry.1, entry.2⟩)

/-! ## Steps on values that were evaluated -/

/-- Makes a watcher of client code under a name. -/
def watchNamed (into object path : String) (body : List Step) : Proc Reply := do
  let id ← named (·.objects) object
  match ← createWatcher id (Path.parse path) (.client into body) with
  | .error e => pure (.failure e)
  | .ok watcher => do
    Proc.modify (·.nameWatcher into watcher)
    replyWatcher watcher

/-- Makes a listener of client code under a name. -/
def listenNamed (into node event : String) (body : List Step) : Proc Reply := do
  let id ← named (·.nodes) node
  let listener ← Proc.ask (·.document.nextListener)
  Proc.modify fun w =>
    (w.onDocument (·.listen id event (.client into body))).nameListener into listener
  Proc.ask fun w => .count (w.document.node id).listeners.length

/-- Mounts data on an element under a name. -/
def mountNamed (into node object : String) (computed : List (String × Expr))
    (methods : List (String × Method)) (convention : Convention) : Proc Reply := do
  let element ← named (·.nodes) node
  let data ← named (·.objects) object
  match ← mount element data computed methods convention with
  | .error e => pure (.failure e)
  | .ok id => do
    Proc.modify (·.nameModel into id)
    let view ← Proc.ask fun w => (w.model id).view
    replyCompiled view element

/-! ## Expressions and steps -/

mutual

/-- Evaluates an expression. -/
def Expr.eval (scope : Scope) : Expr → Proc Value
  | .const v => pure v
  | .object name => do
    let id ← named (·.objects) name
    pure (.object id)
  | .fresh properties name => do
    let values ← Expr.evalProperties scope properties
    let id ← createObject values
    match name with
    | none => pure (.object id)
    | some name => do
      Proc.modify (·.nameObject name id)
      pure (.object id)
  | .lookup object path => do
    let id ← named (·.objects) object
    (Path.parse path).resolve id none
  | .concat parts => do
    let values ← Expr.evalAll scope parts
    pure (.string (String.join (values.map (·.text))))
  | .sum parts => do
    let values ← Expr.evalAll scope parts
    pure (.number (values.foldl (fun total v => total.add v.toNumber) .zero))
  | .same a b => do
    let x ← Expr.eval scope a
    let y ← Expr.eval scope b
    pure (.bool (x.same y))
  | .less a b => do
    let x ← Expr.eval scope a
    let y ← Expr.eval scope b
    pure (.bool (x.toNumber.less y.toNumber))
  | .choose condition yes no => do
    let c ← Expr.eval scope condition
    if c = .bool true then Expr.eval scope yes else Expr.eval scope no
  | .after steps result => do
    Step.runAll scope steps
    Expr.eval scope result
  | .get path => do
    let source ← Proc.need .misplaced scope.data?
    (Path.parse path).resolve source.1 source.2
  | .data => do
    let source ← Proc.need .misplaced scope.data?
    pure (.object source.1)
  | .asking questions => do
    let source ← Proc.need .misplaced scope.data?
    (questions source.1).run source.1 source.2
  | .given => scope.given
termination_by structural e => e

/-- Evaluates expressions from left to right. -/
def Expr.evalAll (scope : Scope) : List Expr → Proc (List Value)
  | [] => pure []
  | e :: es => do
    let v ← Expr.eval scope e
    let vs ← Expr.evalAll scope es
    pure (v :: vs)
termination_by structural es => es

/-- Evaluates the values of properties from left to right. -/
def Expr.evalProperties (scope : Scope) :
    List (String × Expr) → Proc (List (String × Value))
  | [] => pure []
  | (key, e) :: es => do
    let v ← Expr.eval scope e
    let vs ← Expr.evalProperties scope es
    pure ((key, v) :: vs)
termination_by structural es => es

/-- Runs a step. -/
def Step.run (scope : Scope) : Step → Proc Reply
  | .note text => do
    Proc.modify (·.note (.note text))
    pure .nothing
  | .newObject into properties => do
    let values ← Expr.evalProperties scope properties
    let id ← createObject values
    Proc.modify (·.nameObject into id)
    replyValue (.object id)
  | .set object key value => do
    let id ← named (·.objects) object
    let v ← Expr.eval scope value
    setProperty id key v
    pure .nothing
  | .observe value => do
    let v ← Expr.eval scope value
    Proc.modify (·.onGraph (·.observe v))
    pure .nothing
  | .define object key accessor => do
    let id ← named (·.objects) object
    Proc.modify (·.onGraph (·.define id key accessor))
    pure .nothing
  | .assign object path value => do
    let id ← named (·.objects) object
    let v ← Expr.eval scope value
    let assigned ← (Path.parse path).assign id v
    pure (.flag assigned)
  | .assignSelf path value => do
    let source ← Proc.need .misplaced scope.data?
    let v ← Expr.eval scope value
    let assigned ← (Path.parse path).assign source.1 v
    pure (.flag assigned)
  | .subscriber into body => do
    let id ← Proc.ask (·.nextClient)
    Proc.modify fun w => (w.addClient into body).nameClient into id
    pure .nothing
  | .watch into object path body => watchNamed into object path body
  | .listen into node event body => listenNamed into node event body
  | .context into object methods => do
    let id ← named (·.objects) object
    Proc.modify (·.nameContext into ⟨id, Keyed.ofList (methodsOf methods)⟩)
    pure .nothing
  | .extend into context method label body => do
    let cx ← named (·.contexts) context
    Proc.modify
      (·.nameContext into { cx with methods := cx.methods.put method ⟨label, body⟩ })
    pure .nothing
  | .assignContext context path value => do
    let cx ← named (·.contexts) context
    let v ← Expr.eval scope value
    let assigned ← (Path.parse path).assign cx.data v
    pure (.flag assigned)
  | .mount into node object computed methods convention =>
    mountNamed into node object computed (methodsOf methods) convention
  | .assignModel model path value =>
    withModel model fun cx => do
      let v ← Expr.eval scope value
      let assigned ← (Path.parse path).assign cx.data v
      pure (.flag assigned)
  | .object action => runObjectAction action
  | .tracking action => runTrackingAction action
  | .watcher action => runWatcherAction action
  | .node action => runNodeAction action
  | .binding action => runBindingAction action
termination_by structural s => s

/-- Runs the steps of client code in order, and logs each of them. -/
def Step.runAll (scope : Scope) : List Step → Proc Unit
  | [] => pure ()
  | step :: steps => do
    let reply ← Step.run scope step
    logStep step reply
    Step.runAll scope steps
termination_by structural steps => steps

end

end DataBinding
