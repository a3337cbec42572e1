import DataBinding.Document.Basic
import DataBinding.Script.Report
import DataBinding.Store.Observe
import DataBinding.Template

/-!
# The state of a run

Everything there is at one moment: the object graph, the evaluations and the slot of the running
one, the watchers and the subscribers of client code, the document, views and view models, the
names that client code has given, and the log.

Watchers and subscribers are held by handles: a name is a handle, a view holds its watchers, and so
does a notification or a step while it runs. One without handles is dead.
-/

namespace DataBinding

/-- The identity of an evaluation. -/
abbrev EvaluationId := Nat

/-- The identity of a watcher. -/
abbrev WatcherId := Nat

/-- The identity of a view. -/
abbrev ViewId := Nat

/-- The identity of a view model. -/
abbrev ModelId := Nat

/-- One evaluation of a subscriber. What it reads is collected in `current`; the subscriber is
registered already with what is in `previous`. -/
structure Evaluation where
  parent : SubscriberId
  previous : List DependencyId
  current : List DependencyId
  alive : Bool
  handles : Nat

/-- What a watcher does when its value has changed. -/
inductive Reaction
  /-- Runs client code. -/
  | client (name : String) (body : List Step)
  /-- Shows the value as the text of a node. -/
  | text (node : NodeId)
  /-- Shows the value as the markup of a node. -/
  | markup (node : NodeId)
  /-- Shows the value as the form value of a node. -/
  | formValue (node : NodeId)
  /-- Renders a template into the text of a node. -/
  | template (node : NodeId) (template : Template) (data : ObjectId)

/-- A path that is kept resolved, and what to do when its value changes. -/
structure Watcher where
  data : ObjectId
  path : Path
  reaction : Reaction
  value : Value
  dependencies : List DependencyId
  disposed : Bool
  handles : Nat

/-- A subscriber of client code. -/
structure Client where
  name : String
  body : List Step
  handles : Nat

/-- The bindings of a compiled tree. -/
structure View where
  watchers : List WatcherId
  listeners : List (NodeId × ListenerId)

/-- A context bound to an element. -/
structure Model where
  context : Context
  element : NodeId
  view : ViewId
  handles : Nat

/-- What client code has named. -/
structure Names where
  objects : Keyed ObjectId
  clients : Keyed Nat
  dependencies : Keyed DependencyId
  evaluations : Keyed EvaluationId
  dependencySets : Keyed (List DependencyId)
  watchers : Keyed WatcherId
  nodes : Keyed NodeId
  listeners : Keyed ListenerId
  contexts : Keyed Context
  views : Keyed ViewId
  models : Keyed ModelId

/-- No names. -/
def Names.empty : Names :=
  ⟨.empty, .empty, .empty, .empty, .empty, .empty, .empty, .empty, .empty, .empty, .empty⟩

/-- The state of a run. `slot` holds the subscriber whose evaluation is running. -/
structure World where
  graph : Graph
  slot : Option SubscriberId
  evaluations : List Evaluation
  watchers : List Watcher
  clients : List Client
  document : Document
  views : List View
  models : List Model
  names : Names
  log : List LogEntry

namespace World

/-- The state before anything has happened. -/
def start : World :=
  ⟨.empty, none, [], [], [], .empty, [], [], .empty, []⟩

/-- Changes the object graph. -/
def onGraph (w : World) (change : Graph → Graph) : World :=
  { w with graph := change w.graph }

/-- Changes the document. -/
def onDocument (w : World) (change : Document → Document) : World :=
  { w with document := change w.document }

/-- Changes the names. -/
def onNames (w : World) (change : Names → Names) : World :=
  { w with names := change w.names }

/-- Appends to the log. -/
def note (w : World) (entry : LogEntry) : World :=
  { w with log := w.log ++ [entry] }

/-- Changes the watcher at a place. -/
def onWatcher (w : World) (id : WatcherId) (change : Watcher → Watcher) : World :=
  { w with watchers := w.watchers.modify id change }

/-- Changes the subscriber of client code at a place. -/
def onClient (w : World) (id : Nat) (change : Client → Client) : World :=
  { w with clients := w.clients.modify id change }

/-- Changes the evaluation at a place. -/
def onEvaluation (w : World) (id : EvaluationId) (change : Evaluation → Evaluation) : World :=
  { w with evaluations := w.evaluations.modify id change }

/-- Changes the view at a place. -/
def onView (w : World) (id : ViewId) (change : View → View) : World :=
  { w with views := w.views.modify id change }

/-- Changes the view model at a place. -/
def onModel (w : World) (id : ModelId) (change : Model → Model) : World :=
  { w with models := w.models.modify id change }

/-! Looking up a place where nothing is yields something dead and empty. -/

/-- The watcher at a place. -/
def watcher (w : World) (id : WatcherId) : Watcher :=
  w.watchers.getD id ⟨0, ⟨"", []⟩, .client "" [], .undefined, [], true, 0⟩

/-- The subscriber of client code at a place. -/
def client (w : World) (id : Nat) : Client :=
  w.clients.getD id ⟨"", [], 0⟩

/-- The evaluation at a place. -/
def evaluation (w : World) (id : EvaluationId) : Evaluation :=
  w.evaluations.getD id ⟨.client 0, [], [], false, 0⟩

/-- The view at a place. -/
def view (w : World) (id : ViewId) : View :=
  w.views.getD id ⟨[], []⟩

/-- The view model at a place. -/
def model (w : World) (id : ModelId) : Model :=
  w.models.getD id ⟨⟨0, .empty⟩, 0, 0, 0⟩

/-- Whether an evaluation is running. -/
def isEvaluating (w : World) : Bool :=
  w.slot.isSome

end World

end DataBinding
