import DataBinding.World.Basic

/-!
# Evaluations

An evaluation occupies the slot from its beginning to its end, so that there is at most one at a
time. Tracking a dependency registers the evaluated subscriber right away, unless it is registered
already; finishing unregisters it from what was read before and not this time. An evaluation that
is abandoned frees the slot and leaves the registrations as they are.
-/

namespace DataBinding.World

/-- The place of the next evaluation. -/
def nextEvaluation (w : World) : EvaluationId :=
  w.evaluations.length

/-- Begins an evaluation of `s`, at the place `nextEvaluation`. -/
def enter (w : World) (s : SubscriberId) (previous : List DependencyId) : Except Error World :=
  if w.isEvaluating then .error .reentrantEvaluation
  else
    .ok { w with
      slot := some s
      evaluations := w.evaluations ++ [⟨s, previous, [], true, 1⟩] }

/-- Notes that an evaluation has read a dependency. -/
def track (w : World) (e : EvaluationId) (d : DependencyId) : World :=
  let evaluation := w.evaluation e
  if d ∈ evaluation.current then w
  else
    let w := w.onEvaluation e fun evaluation =>
      { evaluation with current := evaluation.current ++ [d] }
    if d ∈ evaluation.previous then w else w.onGraph (·.register d evaluation.parent)

/-- What an evaluation was registered with before and has not read. -/
def stale (w : World) (e : EvaluationId) : List DependencyId :=
  (w.evaluation e).previous.filter (· ∉ (w.evaluation e).current)

/-- Frees the slot and ends an evaluation. -/
def close (w : World) (e : EvaluationId) : World :=
  { w.onEvaluation e fun evaluation => { evaluation with alive := false } with slot := none }

/-- Ends an evaluation: the subscriber stays registered with what was read, and with nothing else
that was read before. -/
def finish (w : World) (e : EvaluationId) : World :=
  (w.onGraph (·.unregisterAll (w.stale e) (w.evaluation e).parent)).close e

/-- One more handle on an evaluation. -/
def retainEvaluation (w : World) (e : EvaluationId) : World :=
  w.onEvaluation e fun evaluation => { evaluation with handles := evaluation.handles + 1 }

/-- One handle less on an evaluation; without any it is abandoned. -/
def releaseEvaluation (w : World) (e : EvaluationId) : World :=
  let evaluation := w.evaluation e
  let w := w.onEvaluation e fun evaluation => { evaluation with handles := evaluation.handles - 1 }
  if evaluation.alive && evaluation.handles ≤ 1 then w.close e else w

end DataBinding.World
