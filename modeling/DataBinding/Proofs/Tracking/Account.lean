import DataBinding.Machine

/-!
# The tracking part of a state

Tracking is about the object graph, the evaluations with their slot, the
watchers, and the handles on both. `SameTracking` relates two states that
differ in nothing of this: everything that is done to the document, to
the log, to subscribers of client code and to other names leaves the
tracking part as it is, one lemma for each.

A watcher is held by the names that stand for it and by the views that it
is in; `held` counts both.
-/

namespace DataBinding

/-- How many keys stand for a value. -/
def Keyed.naming {β : Type} [DecidableEq β] (c : Keyed β) (value : β) : Nat :=
  (c.entries.map (·.2)).count value

namespace World

/-! ## Who holds what -/

/-- How many names stand for a watcher. -/
def namings (w : World) (id : WatcherId) : Nat :=
  w.names.watchers.naming id

/-- How often a watcher is in a view. -/
def viewings (w : World) (id : WatcherId) : Nat :=
  (w.views.flatMap (·.watchers)).count id

/-- The handles on a watcher that names and views account for. -/
def held (w : World) (id : WatcherId) : Nat :=
  w.namings id + w.viewings id

/-- How many names stand for an evaluation. -/
def evaluationNamings (w : World) (e : EvaluationId) : Nat :=
  w.names.evaluations.naming e

/-! ## States that differ in nothing that is tracked -/

/-- The same graph, evaluations and watchers, held by as many names and
views. -/
structure SameTracking (w w' : World) : Prop where
  graph : w'.graph = w.graph
  slot : w'.slot = w.slot
  evaluations : w'.evaluations = w.evaluations
  watchers : w'.watchers = w.watchers
  watcherNames : w'.names.watchers = w.names.watchers
  evaluationNames : w'.names.evaluations = w.names.evaluations
  viewings : ∀ id, w'.viewings id = w.viewings id

namespace SameTracking

variable {w w' w'' : World}

theorem refl (w : World) : SameTracking w w :=
  ⟨rfl, rfl, rfl, rfl, rfl, rfl, fun _ => rfl⟩

theorem trans (h : SameTracking w w') (h' : SameTracking w' w'') : SameTracking w w'' :=
  ⟨h'.graph.trans h.graph, h'.slot.trans h.slot, h'.evaluations.trans h.evaluations,
    h'.watchers.trans h.watchers, h'.watcherNames.trans h.watcherNames,
    h'.evaluationNames.trans h.evaluationNames, fun id => (h'.viewings id).trans (h.viewings id)⟩

theorem symm (h : SameTracking w w') : SameTracking w' w :=
  ⟨h.graph.symm, h.slot.symm, h.evaluations.symm, h.watchers.symm, h.watcherNames.symm,
    h.evaluationNames.symm, fun id => (h.viewings id).symm⟩

theorem watcher (h : SameTracking w w') (id : WatcherId) : w'.watcher id = w.watcher id := by
  rw [World.watcher, World.watcher, h.watchers]

theorem evaluation (h : SameTracking w w') (e : EvaluationId) :
    w'.evaluation e = w.evaluation e := by
  rw [World.evaluation, World.evaluation, h.evaluations]

theorem held (h : SameTracking w w') (id : WatcherId) : w'.held id = w.held id := by
  rw [World.held, World.held, h.viewings, World.namings, World.namings, h.watcherNames]

theorem evaluationNamings (h : SameTracking w w') (e : EvaluationId) :
    w'.evaluationNamings e = w.evaluationNamings e := by
  rw [World.evaluationNamings, World.evaluationNamings, h.evaluationNames]

/-! ### Changes outside the tracking part -/

theorem note (w : World) (entry : LogEntry) : SameTracking w (w.note entry) :=
  ⟨rfl, rfl, rfl, rfl, rfl, rfl, fun _ => rfl⟩

theorem clearLog (w : World) : SameTracking w { w with log := [] } :=
  ⟨rfl, rfl, rfl, rfl, rfl, rfl, fun _ => rfl⟩

theorem noteEvent (w : World) (event : Event)
    (entry : String → Option String → String → LogEntry) :
    SameTracking w (w.noteEvent event entry) :=
  ⟨rfl, rfl, rfl, rfl, rfl, rfl, fun _ => rfl⟩

theorem onDocument (w : World) (change : Document → Document) :
    SameTracking w (w.onDocument change) :=
  ⟨rfl, rfl, rfl, rfl, rfl, rfl, fun _ => rfl⟩

/-- Names other than those of watchers and evaluations are free. -/
theorem onNames (w : World) {change : Names → Names}
    (hwatchers : (change w.names).watchers = w.names.watchers)
    (hevaluations : (change w.names).evaluations = w.names.evaluations) :
    SameTracking w (w.onNames change) :=
  ⟨rfl, rfl, rfl, rfl, hwatchers, hevaluations, fun _ => rfl⟩

theorem onClient (w : World) (id : Nat) (change : Client → Client) :
    SameTracking w (w.onClient id change) :=
  ⟨rfl, rfl, rfl, rfl, rfl, rfl, fun _ => rfl⟩

theorem addClient (w : World) (name : String) (body : List Step) :
    SameTracking w (w.addClient name body) :=
  ⟨rfl, rfl, rfl, rfl, rfl, rfl, fun _ => rfl⟩

theorem giveUpClient (w : World) (former : Option Nat) :
    SameTracking w (w.giveUp former fun w id => w.release (.client id)) := by
  cases former with
  | none => exact refl w
  | some id => exact onClient w id _

theorem nameClient (w : World) (name : String) (id : Nat) :
    SameTracking w (w.nameClient name id) :=
  (onNames w rfl rfl).trans (giveUpClient _ _)

theorem dropClient (w : World) (name : String) : SameTracking w (w.dropClient name) :=
  (onNames w rfl rfl).trans (giveUpClient _ _)

theorem onModel (w : World) (id : ModelId) (change : Model → Model) :
    SameTracking w (w.onModel id change) :=
  ⟨rfl, rfl, rfl, rfl, rfl, rfl, fun _ => rfl⟩

theorem addModel (w : World) (context : Context) (element : NodeId) (view : ViewId) :
    SameTracking w (w.addModel context element view) :=
  ⟨rfl, rfl, rfl, rfl, rfl, rfl, fun _ => rfl⟩

theorem addView (w : World) : SameTracking w w.addView :=
  ⟨rfl, rfl, rfl, rfl, rfl, rfl, fun id => by simp [World.viewings, World.addView]⟩

/-- Changing only the listeners of a view takes no watcher out of it. -/
theorem onView (w : World) (view : ViewId) {change : View → View}
    (h : ∀ v, (change v).watchers = v.watchers) : SameTracking w (w.onView view change) := by
  refine ⟨rfl, rfl, rfl, rfl, rfl, rfl, fun id => ?_⟩
  have hmap : ∀ (views : List View) (i : Nat),
      (views.modify i change).flatMap (·.watchers) = views.flatMap (·.watchers) := by
    intro views
    induction views with
    | nil => intro i; cases i <;> rfl
    | cons v views ih =>
        intro i
        cases i with
        | zero => simp [List.flatMap_cons, h]
        | succ i => simp [List.flatMap_cons, ih]
  rw [World.viewings, World.viewings, World.onView, hmap]

theorem viewListens (w : World) (view : ViewId) (node : NodeId) (event : String)
    (handler : Handler) : SameTracking w (w.viewListens view node event handler) :=
  (onDocument w _).trans (onView _ view fun _ => rfl)

theorem openCompilation (w : World) (root : NodeId) : SameTracking w (w.openCompilation root) :=
  (onDocument w _).trans (addView _)

end SameTracking

/-! ## Views that are given up -/

namespace SameTracking

variable {w w' : World}

theorem onWatcher (h : SameTracking w w') (id : WatcherId) (change : Watcher → Watcher) :
    SameTracking (w.onWatcher id change) (w'.onWatcher id change) where
  graph := h.graph
  slot := h.slot
  evaluations := h.evaluations
  watchers := by rw [World.onWatcher, World.onWatcher, h.watchers]
  watcherNames := h.watcherNames
  evaluationNames := h.evaluationNames
  viewings := h.viewings

theorem onGraph (h : SameTracking w w') (change : Graph → Graph) :
    SameTracking (w.onGraph change) (w'.onGraph change) where
  graph := by rw [World.onGraph, World.onGraph, h.graph]
  slot := h.slot
  evaluations := h.evaluations
  watchers := h.watchers
  watcherNames := h.watcherNames
  evaluationNames := h.evaluationNames
  viewings := h.viewings

theorem unsubscribe (h : SameTracking w w') (id : WatcherId) :
    SameTracking (w.unsubscribe id) (w'.unsubscribe id) := by
  rw [World.unsubscribe, World.unsubscribe, h.watcher id]
  exact (h.onGraph _).onWatcher id _

theorem dispose (h : SameTracking w w') (id : WatcherId) :
    SameTracking (w.dispose id) (w'.dispose id) :=
  (h.unsubscribe id).onWatcher id _

theorem release (h : SameTracking w w') (id : WatcherId) :
    SameTracking (w.release (.watcher id)) (w'.release (.watcher id)) := by
  simp only [World.release, h.watcher id]
  split
  · exact (h.onWatcher id _).unsubscribe id
  · exact h.onWatcher id _

theorem dropWatchers (h : SameTracking w w') (ids : List WatcherId) :
    SameTracking (w.dropWatchers ids) (w'.dropWatchers ids) := by
  induction ids generalizing w w' with
  | nil => exact h
  | cons id ids ih => exact ih ((h.dispose id).release id)

/-- Whatever is done about names and models, disposing of a view is the
same as far as tracking goes. -/
theorem disposeView (h : SameTracking w w') (hviews : w'.views = w.views) (view : ViewId) :
    SameTracking (w.disposeView view) (w'.disposeView view) := by
  have hview : w'.view view = w.view view := by rw [World.view, World.view, hviews]
  have hempty : SameTracking (w.onView view fun _ => ⟨[], []⟩)
      (w'.onView view fun _ => ⟨[], []⟩) :=
    { graph := h.graph
      slot := h.slot
      evaluations := h.evaluations
      watchers := h.watchers
      watcherNames := h.watcherNames
      evaluationNames := h.evaluationNames
      viewings := fun id => by
        simp only [World.viewings, World.onView, hviews] }
  simp only [World.disposeView, hview]
  exact ((onDocument _ _).symm.trans (hempty.dropWatchers _)).trans (onDocument _ _)

end SameTracking

/-- A state that differs from `w` at most in a view that was disposed of,
and in what is not tracked. -/
def TornDown (w w' : World) : Prop :=
  SameTracking w w' ∨ ∃ view, SameTracking (w.disposeView view) w'

namespace TornDown

theorem giveUpView {w w' : World} (h : SameTracking w w') (hviews : w'.views = w.views)
    (former : Option ViewId) : TornDown w (w'.giveUp former World.disposeView) := by
  cases former with
  | none => exact .inl h
  | some view => exact .inr ⟨view, h.disposeView hviews view⟩

theorem nameView (w : World) (name : String) (id : ViewId) : TornDown w (w.nameView name id) :=
  giveUpView (SameTracking.onNames w rfl rfl) rfl _

theorem dropView (w : World) (name : String) : TornDown w (w.dropView name) :=
  giveUpView (SameTracking.onNames w rfl rfl) rfl _

theorem releaseModel {w w' : World} (h : SameTracking w w') (hviews : w'.views = w.views)
    (id : ModelId) : TornDown w (w'.releaseModel id) := by
  simp only [World.releaseModel]
  split
  · exact .inr ⟨_, (h.trans (SameTracking.onModel w' id _)).disposeView hviews _⟩
  · exact .inl (h.trans (SameTracking.onModel w' id _))

theorem giveUpModel {w w' : World} (h : SameTracking w w') (hviews : w'.views = w.views)
    (former : Option ModelId) : TornDown w (w'.giveUp former World.releaseModel) := by
  cases former with
  | none => exact .inl h
  | some id => exact releaseModel h hviews id

theorem nameModel (w : World) (name : String) (id : ModelId) : TornDown w (w.nameModel name id) :=
  giveUpModel (SameTracking.onNames w rfl rfl) rfl _

theorem dropModel (w : World) (name : String) : TornDown w (w.dropModel name) :=
  giveUpModel (SameTracking.onNames w rfl rfl) rfl _

end TornDown

end World

end DataBinding
