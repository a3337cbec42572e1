import DataBinding.World.Evaluation

/-!
# Subscribers

Watchers and subscribers of client code, and the handles that keep them alive. A dead subscriber
is not told anything and not counted. A watcher that dies is unregistered everywhere.
-/

namespace DataBinding.World

/-! ## Watchers -/

/-- The place of the next watcher. -/
def nextWatcher (w : World) : WatcherId :=
  w.watchers.length

/-- One more watcher, with one handle, at the place `nextWatcher`. It was not evaluated yet. -/
def addWatcher (w : World) (data : ObjectId) (path : Path) (reaction : Reaction) : World :=
  { w with watchers := w.watchers ++ [⟨data, path, reaction, .undefined, [], false, 1⟩] }

/-- Begins an evaluation of a watcher, which gives its dependencies up to it. -/
def beginWatcher (w : World) (id : WatcherId) : Except Error World :=
  (w.enter (.watcher id) (w.watcher id).dependencies).map
    (·.onWatcher id fun watcher => { watcher with dependencies := [] })

/-- Finishes an evaluation of a watcher, whose dependencies are then those that it read. -/
def endWatcher (w : World) (id : WatcherId) (e : EvaluationId) : World :=
  (w.finish e).onWatcher id fun watcher =>
    { watcher with dependencies := (w.evaluation e).current }

/-- Unregisters a watcher from its dependencies and leaves it without any. -/
def unsubscribe (w : World) (id : WatcherId) : World :=
  (w.onGraph (·.unregisterAll (w.watcher id).dependencies (.watcher id))).onWatcher id
    fun watcher => { watcher with dependencies := [] }

/-- Disposes of a watcher: it is unsubscribed, and ignores later notifications and updates. -/
def dispose (w : World) (id : WatcherId) : World :=
  (w.unsubscribe id).onWatcher id fun watcher => { watcher with disposed := true }

/-! ## Subscribers of client code -/

/-- The place of the next subscriber of client code. -/
def nextClient (w : World) : Nat :=
  w.clients.length

/-- One more subscriber of client code, with one handle, at the place `nextClient`. -/
def addClient (w : World) (name : String) (body : List Step) : World :=
  { w with clients := w.clients ++ [⟨name, body, 1⟩] }

/-! ## Handles -/

/-- Whether there is a handle on a subscriber. -/
def alive (w : World) : SubscriberId → Bool
  | .watcher id => 0 < (w.watcher id).handles
  | .client id => 0 < (w.client id).handles

/-- The number of live entries among the subscribers of a dependency. -/
def liveCount (w : World) (d : DependencyId) : Nat :=
  (w.graph.subscribersOf d).countP w.alive

/-- One more handle on a subscriber. -/
def retain (w : World) : SubscriberId → World
  | .watcher id => w.onWatcher id fun watcher => { watcher with handles := watcher.handles + 1 }
  | .client id => w.onClient id fun client => { client with handles := client.handles + 1 }

/-- One handle less on a subscriber. A watcher without any is unsubscribed. -/
def release (w : World) : SubscriberId → World
  | .watcher id =>
    let handles := (w.watcher id).handles
    let w := w.onWatcher id fun watcher => { watcher with handles := watcher.handles - 1 }
    if handles ≤ 1 then w.unsubscribe id else w
  | .client id => w.onClient id fun client => { client with handles := client.handles - 1 }

end DataBinding.World
