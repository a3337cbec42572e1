import DataBinding.Script.Run.Objects

/-!
# Running actions on dependencies, evaluations and watchers
-/

namespace DataBinding

/-- The reply that counts the live subscribers of a dependency. -/
def replyLive (d : DependencyId) : Proc Reply :=
  Proc.ask fun w => .count (w.liveCount d)

/-- The reply that shows a watcher. -/
def replyWatcher (id : WatcherId) : Proc Reply :=
  Proc.ask fun w => .watcher (w.showWatcher id)

/-- Begins an evaluation of a subscriber of client code, under a name. -/
def enterNamed (into : String) (client : Nat) (previous : List DependencyId) : Proc Reply := do
  let w ← Proc.state
  match w.enter (.client client) previous with
  | .error e => pure (.failure e)
  | .ok entered => do
    Proc.modify fun _ => entered.nameEvaluation into w.nextEvaluation
    pure (.flag true)

/-- Finishes a named evaluation, which no reading may belong to any more, and perhaps names the set
of what it has read. -/
def finishNamed (name : String) (e : EvaluationId) (into : Option String) : Proc Reply := do
  let evaluation ← Proc.ask (·.evaluation e)
  if 1 < evaluation.handles then Proc.halt (.inUse name)
  else do
    Proc.modify fun w => (w.finish e).dropEvaluation name
    match into with
    | none => pure (.count evaluation.current.length)
    | some set => do
      Proc.modify (·.nameDependencySet set evaluation.current)
      pure (.count evaluation.current.length)

/-- Runs an action on dependencies, subscribers and evaluations. -/
def runTrackingAction : TrackingAction → Proc Reply
  | .dropSubscriber subscriber => do
    let _ ← named (·.clients) subscriber
    Proc.modify (·.dropClient subscriber)
    pure .nothing
  | .newDependency into => do
    let d ← Proc.ask (·.graph.nextDependency)
    Proc.modify fun w => (w.onGraph (·.addDependency)).nameDependency into d
    pure .nothing
  | .dependencyOf into object key => do
    let id ← named (·.objects) object
    match ← Proc.ask (·.graph.dependency? id key) with
    | none => pure .nothing
    | some d => do
      Proc.modify (·.nameDependency into d)
      replyLive d
  | .register dependency subscriber => do
    let d ← named (·.dependencies) dependency
    let client ← named (·.clients) subscriber
    Proc.modify (·.onGraph (·.register d (.client client)))
    replyLive d
  | .unregister dependency subscriber => do
    let d ← named (·.dependencies) dependency
    let client ← named (·.clients) subscriber
    Proc.modify (·.onGraph (·.unregister d (.client client)))
    replyLive d
  | .notify dependency => do
    let d ← named (·.dependencies) dependency
    notify d
    replyLive d
  | .count dependency => do
    let d ← named (·.dependencies) dependency
    Proc.ask fun w => .size (w.liveCount d)
  | .sameDependency dependency other => do
    let d ← named (·.dependencies) dependency
    let otherId ← named (·.dependencies) other
    pure (.flag (d == otherId))
  | .evaluating => Proc.ask fun w => .flag w.isEvaluating
  | .enter into subscriber previous => do
    let client ← named (·.clients) subscriber
    let set ← Proc.ask (·.dependencySet previous)
    enterNamed into client set
  | .finish evaluation into => do
    let e ← named (·.evaluations) evaluation
    finishNamed evaluation e into
  | .abandon evaluation => do
    let _ ← named (·.evaluations) evaluation
    Proc.modify (·.dropEvaluation evaluation)
    pure .nothing

/-- Runs an action on watchers. -/
def runWatcherAction : WatcherAction → Proc Reply
  | .info watcher => do
    let id ← named (·.watchers) watcher
    replyWatcher id
  | .update watcher => do
    let id ← named (·.watchers) watcher
    Proc.modify (·.retain (.watcher id))
    let result ← updateWatcher id
    Proc.modify (·.release (.watcher id))
    match result with
    | .ok changed => pure (.flag changed)
    | .error e => pure (.failure e)
  | .dispose watcher => do
    let id ← named (·.watchers) watcher
    Proc.modify (·.dispose id)
    pure .nothing
  | .drop watcher => do
    let _ ← named (·.watchers) watcher
    Proc.modify (·.dropWatcher watcher)
    pure .nothing
  | .share into watcher => do
    let id ← named (·.watchers) watcher
    Proc.modify fun w => (w.retain (.watcher id)).nameWatcher into id
    pure .nothing

end DataBinding
