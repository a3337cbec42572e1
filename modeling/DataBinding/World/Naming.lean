import DataBinding.World.View

/-!
# Names

Client code names what it makes. A name is a handle: when it is given to something else or dropped,
the handle on what it stood for is given up, after the new one is there. Giving a used name keeps
its place in the order of names.
-/

namespace DataBinding.World

/-! ## Names of what needs no handle -/

def nameObject (w : World) (name : String) (id : ObjectId) : World :=
  w.onNames fun names => { names with objects := names.objects.put name id }

def nameDependency (w : World) (name : String) (id : DependencyId) : World :=
  w.onNames fun names => { names with dependencies := names.dependencies.put name id }

def nameDependencySet (w : World) (name : String) (set : List DependencyId) : World :=
  w.onNames fun names => { names with dependencySets := names.dependencySets.put name set }

def nameNode (w : World) (name : String) (id : NodeId) : World :=
  w.onNames fun names => { names with nodes := names.nodes.put name id }

def nameListener (w : World) (name : String) (id : ListenerId) : World :=
  w.onNames fun names => { names with listeners := names.listeners.put name id }

def nameContext (w : World) (name : String) (context : Context) : World :=
  w.onNames fun names => { names with contexts := names.contexts.put name context }

/-- The set of dependencies that a name stands for. Without a name, or under one that was not
given, it is the empty set. -/
def dependencySet (w : World) (name : Option String) : List DependencyId :=
  (name.bind w.names.dependencySets.find?).getD []

/-! ## Names that are handles -/

/-- Gives up what a name stood for, if it stood for anything. -/
def giveUp {α : Type} (w : World) (former : Option α) (drop : World → α → World) : World :=
  match former with
  | some former => drop w former
  | none => w

def nameClient (w : World) (name : String) (id : Nat) : World :=
  (w.onNames fun names => { names with clients := names.clients.put name id }).giveUp
    (w.names.clients.find? name) fun w id => w.release (.client id)

def nameEvaluation (w : World) (name : String) (id : EvaluationId) : World :=
  (w.onNames fun names => { names with evaluations := names.evaluations.put name id }).giveUp
    (w.names.evaluations.find? name) releaseEvaluation

def nameWatcher (w : World) (name : String) (id : WatcherId) : World :=
  (w.onNames fun names => { names with watchers := names.watchers.put name id }).giveUp
    (w.names.watchers.find? name) fun w id => w.release (.watcher id)

def nameView (w : World) (name : String) (id : ViewId) : World :=
  (w.onNames fun names => { names with views := names.views.put name id }).giveUp
    (w.names.views.find? name) disposeView

def nameModel (w : World) (name : String) (id : ModelId) : World :=
  (w.onNames fun names => { names with models := names.models.put name id }).giveUp
    (w.names.models.find? name) releaseModel

def dropClient (w : World) (name : String) : World :=
  (w.onNames fun names => { names with clients := names.clients.erase name }).giveUp
    (w.names.clients.find? name) fun w id => w.release (.client id)

def dropEvaluation (w : World) (name : String) : World :=
  (w.onNames fun names => { names with evaluations := names.evaluations.erase name }).giveUp
    (w.names.evaluations.find? name) releaseEvaluation

def dropWatcher (w : World) (name : String) : World :=
  (w.onNames fun names => { names with watchers := names.watchers.erase name }).giveUp
    (w.names.watchers.find? name) fun w id => w.release (.watcher id)

def dropView (w : World) (name : String) : World :=
  (w.onNames fun names => { names with views := names.views.erase name }).giveUp
    (w.names.views.find? name) disposeView

def dropModel (w : World) (name : String) : World :=
  (w.onNames fun names => { names with models := names.models.erase name }).giveUp
    (w.names.models.find? name) releaseModel

end DataBinding.World
