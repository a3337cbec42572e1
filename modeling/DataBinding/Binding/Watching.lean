import DataBinding.Binding.Reading
import DataBinding.Document.Markup
import DataBinding.World.Subscriber

/-!
# Watching

A watcher resolves its path in an evaluation of its own and remembers the value. An update resolves
it again and reacts if the value is not the same as before. While another evaluation is running it
cannot be updated, and a notification passes it by.
-/

namespace DataBinding

/-- Runs what a watcher does about a new value. -/
def Reaction.run (reaction : Reaction) (value : Value) : Proc Unit :=
  match reaction with
  | .client name body => Proc.perform (.callback name value body)
  | .text node => Proc.modify (·.onDocument (·.setText node value.text))
  | .markup node => Proc.modify (·.onDocument (·.showMarkup node value.text))
  | .formValue node => Proc.modify (·.onDocument (·.setValue node value.text))
  | .template node parsed data => do
    let content ← parsed.render data none
    Proc.modify (·.onDocument (·.setText node content))

/-- Resolves the path of a watcher in an evaluation of its own. -/
def evaluateWatcher (id : WatcherId) : Proc (Except Error Value) := do
  let w ← Proc.state
  match w.beginWatcher id with
  | .error e => pure (.error e)
  | .ok begun => do
    Proc.modify fun _ => begun
    let value ← (w.watcher id).path.resolve (w.watcher id).data (some w.nextEvaluation)
    Proc.modify (·.endWatcher id w.nextEvaluation)
    pure (.ok value)

/-- A watcher remembers a value. -/
def rememberValue (id : WatcherId) (value : Value) : Proc Unit :=
  Proc.modify (·.onWatcher id fun watcher => { watcher with value })

/-- A new watcher, evaluated once. The handle on it is the caller's. -/
def createWatcher (data : ObjectId) (path : Path) (reaction : Reaction) :
    Proc (Except Error WatcherId) := do
  let id ← Proc.ask (·.nextWatcher)
  Proc.modify (·.addWatcher data path reaction)
  match ← evaluateWatcher id with
  | .error e => do
    Proc.modify (·.release (.watcher id))
    pure (.error e)
  | .ok value => do
    rememberValue id value
    pure (.ok id)

/-- Evaluates a watcher again and reacts to a changed value. Answers whether there was one; a
disposed watcher has none. -/
def updateWatcher (id : WatcherId) : Proc (Except Error Bool) := do
  if (← Proc.ask (·.watcher id)).disposed then pure (.ok false)
  else
    match ← evaluateWatcher id with
    | .error e => pure (.error e)
    | .ok value => do
      let watcher ← Proc.ask (·.watcher id)
      if watcher.value.same value then pure (.ok false)
      else do
        rememberValue id value
        Proc.perform (.react id value)
        pure (.ok true)

/-- Tells a subscriber that something it read has changed. -/
def invalidate : SubscriberId → Proc Unit
  | .watcher id => do
    if ← Proc.ask (·.isEvaluating) then pure ()
    else
      let _ ← updateWatcher id
      pure ()
  | .client id => do
    let client ← Proc.ask (·.client id)
    Proc.perform (.invalidated client.name client.body)

/-- Tells a subscriber, if it is still alive, and keeps it alive meanwhile. -/
def notifySubscriber (s : SubscriberId) : Proc Unit := do
  if ← Proc.ask (·.alive s) then
    Proc.modify (·.retain s)
    invalidate s
    Proc.modify (·.release s)
  else pure ()

/-- Tells the subscribers of a dependency in the order of registration. Dead ones are taken off
the list first; those that are told are the ones on it then, whatever they do to it. -/
def notify (d : DependencyId) : Proc Unit := do
  Proc.modify fun w => w.onGraph (·.prune d w.alive)
  let subscribers ← Proc.ask (·.graph.subscribersOf d)
  Proc.each notifySubscriber subscribers

end DataBinding
