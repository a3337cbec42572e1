import DataBinding.Proofs.Client.Script
import DataBinding.Proofs.Freshness.Evaluation
import DataBinding.Proofs.Run.Reachable

/-!
# Observed objects along a run

An object is observed from the moment at which it can be reached, through
the values of data properties, from what was given to an observation or
from another observed object; it stays observed. That is history, so a
monitor keeps it beside the state (`observing`).

`Orderly` says what client code may do about observed objects, one write
at a time, and `Session` which states the scripts come to that do no
more. `Fair` is what then holds of them at any time: the observed objects
are closed under reachability and reactive, and every watcher begins at
one of them.
-/

namespace DataBinding

/-- A state, and the objects that were ever observed. -/
structure Observing where
  world : World
  observed : ObjectId → Prop

/-- Nothing has happened, and nothing was observed. -/
def Observing.start : Observing := ⟨.start, fun _ => False⟩

/-- After a write, what the observed objects lead to is observed; and if
the write was the observation of a value, so is what the value leads
to. -/
@[reducible] def observing : Monitor where
  State := Observing
  world := Observing.world
  next s w t := t.world = w ∧
    ((∀ j, t.observed j ↔ w.graph.Leads s.observed j) ∨
      ∃ v, w = s.world.onGraph (·.observe v) ∧
        ∀ j, t.observed j ↔ w.graph.Leads (fun i => s.observed i ∨ v = .object i) j)
  world_next h := h.1

/-- A write of a run as it is foreseen. -/
structure Orderly (s t : Observing) : Prop where
  /-- Accessors are functions of what they read. -/
  pure : ∀ {id key accessor}, t.world.graph.slot? id key = some (.computed accessor) →
    accessor.Pure
  /-- No evaluation of client code is open. -/
  unoccupied : ∀ client, t.world.slot ≠ some (.client client)
  /-- Watchers begin at observed objects. -/
  rooted : ∀ {x : Nat}, x < t.world.watchers.length → t.observed (t.world.watcher x).data
  /-- Only existing data properties of observed objects are written. That
  goes for the time before the first watcher, too: a key that is added to an
  observed object is a plain property, and a watcher that is made later and
  reads it would not be told of its changes. -/
  existing : ∀ {id key property}, s.observed id →
    t.world.graph.slot? id key = some (.data property) → s.world.graph.slot? id key ≠ none
  /-- Once there is a watcher, no accessor is installed on an observed object. -/
  installed : s.world.watchers ≠ [] → ∀ {id key accessor}, s.observed id →
    t.world.graph.slot? id key = some (.computed accessor) →
    s.world.graph.slot? id key = some (.computed accessor)

/-- Runs in which every write is orderly. -/
@[reducible] def orderly : Monitor :=
  observing.restrict Orderly

/-- A state between two steps of a script whose runs are orderly. -/
inductive Session : Observing → Prop
  | start : Session .start
  | step {s t : Observing} {reply : Reply} (action : Step) :
      Session s → orderly.Run s (action.run .outside) t (.done reply) →
      Session ⟨{ t.world with log := [] }, t.observed⟩

theorem Session.rested {s : Observing} (h : Session s) : s.world.Rested := by
  induction h with
  | start => exact .start
  | step action _ hrun ih => exact .step action ih hrun.reaches

/-! ## What is newly observed -/

/-- The same runs, with the ledger at hand. -/
@[reducible] def accounted : Monitor :=
  orderly.restrict fun _ t => World.Ledger t.world

variable {s t : Observing} {w : World}

/-- After a write the observed objects are closed under reachability. -/
theorem closed_of_next (h : observing.next s w t) : w.graph.Closed t.observed := by
  obtain ⟨-, hleads | ⟨v, -, hleads⟩⟩ := h
  · exact fun _ _ _ hi hc => (hleads _).2 (.step ((hleads _).1 hi) hc)
  · exact fun _ _ _ hi hc => (hleads _).2 (.step ((hleads _).1 hi) hc)

/-- What is newly observed was reached from an observed object, or is
reactive because it was observed right now. -/
theorem leads_or_reactive (h : observing.next s w t) {j : ObjectId} (hj : t.observed j) :
    w.graph.Leads s.observed j ∨ w.graph.Reactive j := by
  obtain ⟨-, hleads | ⟨v, rfl, hleads⟩⟩ := h
  · exact .inl ((hleads j).1 hj)
  · refine ((hleads j).1 hj).or.imp_right fun hv => ?_
    exact Graph.reactive_observe (hv.congr (Graph.observed_observe _ v).content)

/-! ## What holds at any time -/

/-- What is needed for a watcher to be kept up to date. -/
structure Fair (s : Observing) : Prop where
  ledger : World.Ledger s.world
  pure : ∀ {id key accessor}, s.world.graph.slot? id key = some (.computed accessor) →
    accessor.Pure
  closed : s.world.graph.Closed s.observed
  rooted : ∀ {x : Nat}, x < s.world.watchers.length → s.observed (s.world.watcher x).data
  reactive : ∀ j, s.observed j → s.world.graph.Reactive j

namespace Fair

theorem start : Fair .start where
  ledger := .start
  pure h := by simp [Observing.start, World.start, Graph.empty, Graph.slot?, Graph.slots] at h
  closed _ _ _ h := h.elim
  rooted h := by simp [Observing.start, World.start] at h
  reactive _ h := h.elim

theorem of_reactive (h : accounted.next s w t)
    (hreactive : ∀ j, t.observed j → w.graph.Reactive j) : Fair t := by
  obtain ⟨⟨hnext, horderly⟩, hledger⟩ := h
  have hworld : t.world = w := hnext.1
  exact ⟨hledger, horderly.pure, by rw [hworld]; exact closed_of_next hnext, horderly.rooted,
    by rw [hworld]; exact hreactive⟩

/-- A write that leads to no further object and leaves what is reactive
so. -/
theorem next (h : accounted.next s w t) (hclosed : w.graph.Closed s.observed)
    (hreactive : ∀ j, s.observed j → w.graph.Reactive j) : Fair t :=
  of_reactive h fun j hj =>
    (leads_or_reactive h.1.1 hj).elim (fun hleads => hreactive j (hleads.of_closed hclosed)) id

/-- A write that leaves all objects as they are. -/
theorem quiet (hs : Fair s) (h : accounted.next s w t)
    (hobjects : w.graph.objects = s.world.graph.objects) : Fair t := by
  refine next h (hs.closed.congr (World.content_eq hobjects)) fun j hj key property hslot => ?_
  exact hs.reactive j hj key property ((World.slot?_eq hobjects j key).symm.trans hslot)

/-- An observation. -/
theorem observe (hs : Fair s) {v : Value}
    (h : accounted.next s (s.world.onGraph (·.observe v)) t) : Fair t :=
  next h (hs.closed.congr (Graph.observed_observe _ v).content) fun j hj =>
    (Graph.observed_observe _ v).reactive (hs.reactive j hj)

/-- What the path of a watcher comes to is observed. -/
theorem begins (hs : Fair s) {x : WatcherId} (hx : x < s.world.watchers.length) :
    Graph.Query.begins s.observed (s.world.watcher x).query := by
  rintro j ⟨rfl⟩
  exact hs.rooted hx

end Fair

end DataBinding
