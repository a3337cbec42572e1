import DataBinding.Binding.Events
import DataBinding.Directive
import DataBinding.World.View

/-!
# Compiling

Compiling a node finds the directives and placeholders below it, in document order with the
attributes of an element before its children, and makes a watcher or a listener for each. They are
collected in a view. While it goes on the children are in a fragment of their own; they are put
back at the end, also after an error, which disposes of the view.
-/

namespace DataBinding

/-! ## One binding -/

/-- Makes a watcher, shows its first value, and adds it to a view. -/
def bindWatcher (data : ObjectId) (path : Path) (reaction : Reaction) (view : ViewId) :
    Proc (Except Error Unit) := do
  match ← createWatcher data path reaction with
  | .error e => pure (.error e)
  | .ok id => do
    let watcher ← Proc.ask (·.watcher id)
    reaction.run watcher.value
    Proc.modify (·.viewWatches view id)
    pure (.ok ())

/-- Installs a directive on an element. -/
def Directive.bind (directive : Directive) (node : NodeId) (context : Context) (view : ViewId) :
    Proc (Except Error Unit) :=
  match directive with
  | .text path => bindWatcher context.data path (.text node) view
  | .html path => bindWatcher context.data path (.markup node) view
  | .model path => do
    Proc.modify (·.viewListens view node "input" (.writeBack context.data path))
    bindWatcher context.data path (.formValue node) view
  | .on event method =>
    match context.methods.find? method with
    | none => pure (.error (.unknownMethod method))
    | some body => do
      Proc.modify (·.viewListens view node event (.method context body))
      pure (.ok ())

/-- Installs what an attribute declares, if anything. -/
def bindAttribute (node : NodeId) (context : Context) (convention : Convention) (view : ViewId)
    (pair : String × String) : Proc (Except Error Unit) :=
  match Directive.parse convention.marker pair.1 pair.2 with
  | .error e => pure (.error e)
  | .ok none => pure (.ok ())
  | .ok (some directive) => directive.bind node context view

/-- Installs a watcher for one placeholder of a text. Its reaction renders the whole text. -/
def bindPlaceholder (node : NodeId) (template : Template) (data : ObjectId) (view : ViewId)
    (path : Path) : Proc (Except Error Unit) := do
  match ← createWatcher data path (.template node template data) with
  | .error e => pure (.error e)
  | .ok id => do
    Proc.modify (·.viewWatches view id)
    pure (.ok ())

/-- Installs the placeholders of a text and renders it. -/
def bindText (node : NodeId) (context : Context) (convention : Convention) (view : ViewId) :
    Proc (Except Error Unit) := do
  let content ← Proc.ask (·.document.textContent node)
  let template ← Proc.need .emptyOpening (Template.parse? convention content)
  if template.hasPlaceholders then
    match ← Proc.tryEach (bindPlaceholder node template context.data view)
        template.placeholders with
    | .error e => pure (.error e)
    | .ok () => do
      let text ← template.render context.data none
      Proc.modify (·.onDocument (·.setText node text))
      pure (.ok ())
  else pure (.ok ())

/-! ## The tree -/

/-- Compiles one child: an element with its attributes and then its children, or a text. -/
def compileChild (context : Context) (convention : Convention) (view : ViewId) (node : NodeId) :
    Proc (Except Error Unit) := do
  let n ← Proc.ask (·.document.node node)
  match n.kind with
  | .fragment => pure (.ok ())
  | .text => bindText node context convention view
  | .element _ =>
    match ← Proc.tryEach (bindAttribute node context convention view) n.attributes.entries with
    | .error e => pure (.error e)
    | .ok () => Proc.perform (.descend node context convention view)

/-- Compiles the children that a node has now. -/
def compileChildren (node : NodeId) (context : Context) (convention : Convention)
    (view : ViewId) : Proc (Except Error Unit) := do
  let n ← Proc.ask (·.document.node node)
  Proc.tryEach (compileChild context convention view) n.children

/-- Moves the children of a node into a new fragment, and makes an empty view. -/
def World.openCompilation (w : World) (root : NodeId) : World :=
  (w.onDocument fun d =>
    (d.node root).children.foldl (·.append d.nextNode ·)
      ((d.add (.new .fragment)).takeChildren root)).addView

/-- Compiles what is below a node. -/
def compile (root : NodeId) (context : Context) (convention : Convention) :
    Proc (Except Error ViewId) := do
  let w ← Proc.state
  if (w.document.node root).kind = .text then pure (.error .invalidRoot)
  else do
    Proc.modify (·.openCompilation root)
    let result ← compileChildren w.document.nextNode context convention w.nextView
    Proc.modify (·.onDocument (·.append root w.document.nextNode))
    match result with
    | .ok () => pure (.ok w.nextView)
    | .error e => do
      Proc.modify (·.disposeView w.nextView)
      pure (.error e)

/-- Mounts data on an element: the data becomes reactive, the computed properties are installed,
and what is below the element is compiled. -/
def mount (element : NodeId) (data : ObjectId) (computed : List (String × Expr))
    (methods : List (String × Method)) (convention : Convention) :
    Proc (Except Error ModelId) := do
  Proc.modify (·.onGraph (·.observe (.object data)))
  Proc.modify (·.onGraph fun g => computed.foldl (fun g entry => g.define data entry.1 entry.2) g)
  let context : Context := ⟨data, Keyed.ofList methods⟩
  match ← compile element context convention with
  | .error e => pure (.error e)
  | .ok view => do
    let id ← Proc.ask (·.nextModel)
    Proc.modify (·.addModel context element view)
    pure (.ok id)

end DataBinding
