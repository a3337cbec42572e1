import DataBinding.World.Subscriber

/-!
# Views

A view holds the watchers and the listeners of a compiled tree. Disposing of it disposes of every
watcher, gives up the handles on them and removes every listener; nothing is left of it then. A
view model holds a view, and disposes of it when its last handle goes.
-/

namespace DataBinding.World

/-- The place of the next view. -/
def nextView (w : World) : ViewId :=
  w.views.length

/-- One more view, without bindings, at the place `nextView`. -/
def addView (w : World) : World :=
  { w with views := w.views ++ [⟨[], []⟩] }

/-- A view takes over the handle on a watcher. -/
def viewWatches (w : World) (view : ViewId) (watcher : WatcherId) : World :=
  w.onView view fun v => { v with watchers := v.watchers ++ [watcher] }

/-- Adds a listener to a node for a view. -/
def viewListens (w : World) (view : ViewId) (node : NodeId) (event : String) (handler : Handler) :
    World :=
  (w.onDocument (·.listen node event handler)).onView view fun v =>
    { v with listeners := v.listeners ++ [(node, w.document.nextListener)] }

/-- Disposes of the watchers, in order, and gives up the handles on them. -/
def dropWatchers (w : World) (watchers : List WatcherId) : World :=
  watchers.foldl (fun w id => (w.dispose id).release (.watcher id)) w

/-- Removes listeners from their nodes, in order. -/
def dropListeners (d : Document) (listeners : List (NodeId × ListenerId)) : Document :=
  listeners.foldl (fun d listener => d.unlisten listener.1 listener.2) d

/-- Tears down the bindings of a view. -/
def disposeView (w : World) (view : ViewId) : World :=
  let v := w.view view
  ((w.onView view fun _ => ⟨[], []⟩).dropWatchers v.watchers).onDocument
    (dropListeners · v.listeners)

/-- The place of the next view model. -/
def nextModel (w : World) : ModelId :=
  w.models.length

/-- One more view model, with one handle, at the place `nextModel`. -/
def addModel (w : World) (context : Context) (element : NodeId) (view : ViewId) : World :=
  { w with models := w.models ++ [⟨context, element, view, 1⟩] }

/-- One more handle on a view model. -/
def retainModel (w : World) (id : ModelId) : World :=
  w.onModel id fun model => { model with handles := model.handles + 1 }

/-- One handle less on a view model; without any its view is disposed of. -/
def releaseModel (w : World) (id : ModelId) : World :=
  let model := w.model id
  let w := w.onModel id fun model => { model with handles := model.handles - 1 }
  if model.handles ≤ 1 then w.disposeView model.view else w

end DataBinding.World
