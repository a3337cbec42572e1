import DataBinding.Binding.Compile
import DataBinding.Script.Run.Objects
import DataBinding.World.Inspect

/-!
# Running actions on contexts, views and view models
-/

namespace DataBinding

/-- The reply that shows a view and the markup it was compiled from. -/
def replyCompiled (view : ViewId) (node : NodeId) : Proc Reply :=
  Proc.ask fun w => .compiled (w.showView view) (w.document.outerMarkup node)

/-- The reply to a call. -/
def replyCall (result : Except Error Unit) : Proc Reply :=
  match result with
  | .ok () => pure (.flag true)
  | .error e => pure (.failure e)

/-- Runs a process on a named view model, which is kept alive meanwhile. -/
def withModel {α : Type} (name : String) (body : Context → Proc α) : Proc α := do
  let id ← named (·.models) name
  let model ← Proc.ask (·.model id)
  Proc.modify (·.retainModel id)
  let result ← body model.context
  Proc.modify (·.releaseModel id)
  pure result

/-- Something in words. -/
def inspectNamed (what : Inspectable) (name : String) : Proc String :=
  match what with
  | .object => do
    let id ← named (·.objects) name
    Proc.ask (·.inspectObject id)
  | .dependency => do
    let d ← named (·.dependencies) name
    Proc.ask (·.inspectDependency d)
  | .node => do
    let id ← named (·.nodes) name
    Proc.ask (·.document.outerMarkup id)
  | .watcher => do
    let id ← named (·.watchers) name
    Proc.ask (·.inspectWatcher id)
  | .context => do
    let context ← named (·.contexts) name
    Proc.ask (·.inspectContext context)
  | .view => do
    let id ← named (·.views) name
    Proc.ask (·.inspectView id)
  | .model => do
    let id ← named (·.models) name
    Proc.ask (·.inspectModel id)

/-- Runs an action on contexts, views and view models. -/
def runBindingAction : BindingAction → Proc Reply
  | .hasMethod context method => do
    let cx ← named (·.contexts) context
    pure (.flag (cx.methods.contains method))
  | .read context path => do
    let cx ← named (·.contexts) context
    let value ← (Path.parse path).resolve cx.data none
    replyValue value
  | .call context method event target => do
    let cx ← named (·.contexts) context
    let node ← named (·.nodes) target
    let result ← cx.call method ⟨event, node⟩
    replyCall result
  | .compile into node context convention => do
    let id ← named (·.nodes) node
    let cx ← named (·.contexts) context
    match ← compile id cx convention with
    | .error e => pure (.failure e)
    | .ok compiled => do
      Proc.modify (·.nameView into compiled)
      replyCompiled compiled id
  | .view name => do
    let id ← named (·.views) name
    Proc.ask fun w => .view (w.showView id)
  | .viewWatcher into name index => do
    let id ← named (·.views) name
    match ← Proc.ask fun w => (w.view id).watchers[index]? with
    | none => pure .nothing
    | some watcher => do
      Proc.modify fun w => (w.retain (.watcher watcher)).nameWatcher into watcher
      Proc.ask fun w => .watcher (w.showWatcher watcher)
  | .disposeView name => do
    let id ← named (·.views) name
    Proc.modify (·.disposeView id)
    pure .nothing
  | .dropView name => do
    let _ ← named (·.views) name
    Proc.modify (·.dropView name)
    pure .nothing
  | .model name => do
    let id ← named (·.models) name
    Proc.ask fun w =>
      let m := w.model id
      .model (w.showView m.view) (w.document.outerMarkup m.element)
        (w.showValue (.object m.context.data))
  | .readModel name path =>
    withModel name fun cx => do
      let value ← (Path.parse path).resolve cx.data none
      replyValue value
  | .callModel name method event target => do
    let node ← named (·.nodes) target
    withModel name fun cx => do
      let result ← cx.call method ⟨event, node⟩
      replyCall result
  | .unmount name => do
    let _ ← named (·.models) name
    Proc.modify (·.dropModel name)
    pure .nothing
  | .dropModel name => do
    let _ ← named (·.models) name
    Proc.modify (·.dropModel name)
    pure .nothing
  | .inspect what name => do
    let text ← inspectNamed what name
    pure (.text text)

end DataBinding
