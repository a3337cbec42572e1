import DataBinding.Document.Markup
import DataBinding.World.Subscriber

/-!
# Showing the state

Values, watchers, nodes and views as they are reported. Objects and nodes are shown with the first
name that stands for them.
-/

namespace DataBinding.World

/-- A value as it is shown now. -/
def showValue (w : World) : Value → ValueView
  | .undefined => .undefined
  | .null => .null
  | .bool b => .bool b
  | .number n => .number n
  | .string s => .string s
  | .object id => .object (w.names.objects.keyOf? (· == id)) (w.graph.keys id)

/-- A watcher as it is shown now. -/
def showWatcher (w : World) (id : WatcherId) : WatcherView :=
  let watcher := w.watcher id
  { path := watcher.path.source
    value := w.showValue watcher.value
    dependencies := watcher.dependencies.length
    disposed := watcher.disposed }

/-- A node as it is shown now. -/
def showNode (w : World) (id : NodeId) : NodeView :=
  { name := w.names.nodes.keyOf? (· == id)
    markup := w.document.outerMarkup id }

/-- A view as it is shown now. -/
def showView (w : World) (id : ViewId) : ViewView :=
  { watchers := (w.view id).watchers.map w.showWatcher
    listeners := (w.view id).listeners.length }

/-- The number of live subscribers of a property, if it is reactive. -/
def liveSubscribers (w : World) (id : ObjectId) (key : String) : Option Nat :=
  (w.graph.dependency? id key).map w.liveCount

end DataBinding.World
