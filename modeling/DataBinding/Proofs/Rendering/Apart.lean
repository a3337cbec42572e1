import DataBinding.Proofs.Freshness.Evaluation
import DataBinding.Proofs.Rendering.Shown
import DataBinding.Proofs.Subscription.Invariant

/-!
# What goes on apart from a view

A view is bound to a data root. `Aside` says that a piece of a run is
none of its business: what can be reached from the root, the document and
the watchers of the view are as they were. So is what the library does
about other watchers (`aside_evaluated` and the lemmas around it). `Quiet`
asks it of the code that a change is told to: of the reactions of other
watchers, and of subscribers of client code.
-/

namespace DataBinding

open World

variable {α : Type} {data : ObjectId} {view : ViewId} {w w' w'' : World} {x : WatcherId}

/-! ## Evaluations and what they leave alone -/

namespace World

theorem views_track (w : World) (e : EvaluationId) (d : DependencyId) :
    (w.track e d).views = w.views ∧ (w.track e d).document = w.document := by
  by_cases hcurrent : d ∈ (w.evaluation e).current
  · rw [track_of_read hcurrent]
    exact ⟨rfl, rfl⟩
  · by_cases hprevious : d ∈ (w.evaluation e).previous
    · rw [track_of_previous hcurrent hprevious]
      exact ⟨rfl, rfl⟩
    · rw [track_of_new hcurrent hprevious]
      exact ⟨rfl, rfl⟩

theorem views_evaluated (w : World) (x : WatcherId) (cells : List Cell) :
    (w.evaluated x cells).views = w.views ∧ (w.evaluated x cells).document = w.document := by
  have hall : ∀ (ds : List DependencyId) (w : World) (e : EvaluationId),
      (ds.foldl (fun w d => w.track e d) w).views = w.views ∧
        (ds.foldl (fun w d => w.track e d) w).document = w.document := by
    intro ds
    induction ds with
    | nil => exact fun _ _ => ⟨rfl, rfl⟩
    | cons d ds ih =>
        intro w e
        obtain ⟨hviews, hdocument⟩ := ih (w.track e d) e
        obtain ⟨hviews', hdocument'⟩ := views_track w e d
        exact ⟨hviews.trans hviews', hdocument.trans hdocument'⟩
  exact hall _ (w.begun x) w.nextEvaluation

end World

/-- An evaluation that returns has looked at some cells and has come to what
its path gives. Accessors that are functions of what they read yield it. -/
theorem reaches_evaluateWatcher {result : Except Error Value} (hslot : w.slot = none)
    (hw : w.OnlyAsks) (h : Reaches ⟨w, evaluateWatcher x⟩ ⟨w', .done result⟩) :
    ∃ v cells, result = .ok v ∧ w' = w.evaluated x cells ∧
      (∃ cells, w.graph.Gives (.walk (.object (w.watcher x).data) (w.watcher x).path.segments) v
        cells) ∧
      (w.Pure → w.graph.Yields (w.watcher x).query [v] cells) := by
  have hbegin : Passes ⟨w, evaluateWatcher x⟩ [] ⟨w.begun x,
      (w.watcher x).path.resolve (w.watcher x).data (some w.nextEvaluation) >>= fun value => do
        Proc.modify (·.endWatcher x w.nextEvaluation)
        pure (.ok value : Except Error Value)⟩ := by
    refine .bind_nil .state ?_
    rw [beginWatcher_of_free hslot]
    exact .bind_nil (.modify _) (.here _)
  obtain ⟨v, u, hresolve, hend⟩ := (Reaches.through hbegin h rfl).of_bind
  have hbegun : (w.begun x).OnlyAsks := hw.of_objects rfl
  obtain ⟨cells, hworld, hyields⟩ := reaches_resolve hbegun hresolve
  obtain ⟨looked, hgives, -⟩ := given_of_reaches hbegun hresolve
  have hlast : Passes ⟨u, Proc.modify (·.endWatcher x w.nextEvaluation) >>= fun _ =>
      (pure (.ok v) : Proc (Except Error Value))⟩ []
      ⟨u.endWatcher x w.nextEvaluation, .done (.ok v)⟩ := .bind_nil (.modify _) (.here _)
  obtain ⟨rfl, rfl⟩ := Reaches.result hlast hend
  refine ⟨v, cells, rfl, ?_, ⟨looked, hgives⟩, fun hpure => hyields (hpure.of_objects rfl)⟩
  rw [evaluated]
  exact congrArg (·.endWatcher x w.nextEvaluation) hworld

/-! ## The same data -/

/-- What is reachable stays so where nothing reachable has changed. -/
theorem Graph.Leads.of_slots {g g' : Graph} {among : ObjectId → Prop} {j : ObjectId}
    (h : g.Leads among j)
    (hslots : ∀ j, g.Leads among j → ∀ key, g'.slot? j key = g.slot? j key) :
    g'.Leads among j := by
  induction h with
  | base hi => exact .base hi
  | @step i j key hi hc ih =>
      have hcell : g'.content (i, key) = some (.inl (.object j)) := by
        rw [← hc, content, content, hslots i hi]
      exact .step ih hcell

/-- What is reachable from the data root has stayed. -/
def SameData (data : ObjectId) (w w' : World) : Prop :=
  ∀ j, w.graph.Leads (· = data) j → ∀ key, w'.graph.slot? j key = w.graph.slot? j key

namespace SameData

theorem of_objects (h : w'.graph.objects = w.graph.objects) : SameData data w w' :=
  fun j _ key => slot?_eq h j key

theorem reachable (h : SameData data w w') {j : ObjectId} (hj : w'.graph.Leads (· = data) j) :
    w.graph.Leads (· = data) j := by
  induction hj with
  | base hi => exact .base hi
  | @step i j key _ hc ih =>
      have hcell : w.graph.content (i, key) = some (.inl (.object j)) := by
        rw [← hc, Graph.content, Graph.content, h i ih]
      exact .step ih hcell

theorem trans {w'' : World} (h : SameData data w w') (h' : SameData data w' w'') :
    SameData data w w'' := fun j hj key =>
  (h' j (hj.of_slots h) key).trans (h j hj key)

theorem reactive (h : SameData data w w')
    (hreactive : ∀ j, w.graph.Leads (· = data) j → w.graph.Reactive j) (j : ObjectId)
    (hj : w'.graph.Leads (· = data) j) : w'.graph.Reactive j := by
  intro key property hslot
  rw [h j (h.reachable hj)] at hslot
  exact hreactive j (h.reachable hj) key property hslot

/-- A reading that begins at the root yields what it did. -/
theorem yields (h : SameData data w w') {keys : List String} {vs : List Value}
    {cells : List Cell} (hyields : w.graph.Yields (.walk (.object data) keys) vs cells) :
    w'.graph.Yields (.walk (.object data) keys) vs cells := by
  refine hyields.congr fun c hc => ?_
  rw [Graph.content, Graph.content, h c.1 (hyields.leads c hc)]

/-- A watcher that begins at the root stays up to date. -/
theorem upToDate (h : SameData data w w') (hx : w.UpToDate x) (hdata : (w.watcher x).data = data)
    (hwatcher : ∃ handles, w'.watcher x = { w.watcher x with handles }) : w'.UpToDate x := by
  obtain ⟨v, hv, hagrees⟩ := hx
  obtain ⟨handles, hwatcher⟩ := hwatcher
  refine ⟨v, ?_, by rwa [hwatcher]⟩
  rw [hwatcher]
  refine hv.frame (Graph.Leads.closed w.graph (· = data)) ?_ fun c hc _ => .of_slot? (h c.1 hc c.2)
  intro j hj
  cases hj
  exact .base hdata

end SameData

/-! ## Aside -/

/-- What can be reached from the data root, the document and the watchers
of the view are as they were. -/
structure Aside (data : ObjectId) (view : ViewId) (w w' : World) : Prop where
  slots : SameData data w w'
  watchers : ∀ x ∈ (w.view view).watchers, ∃ handles, w'.watcher x = { w.watcher x with handles }
  view : w'.view view = w.view view
  document : w'.document = w.document
  slot : w'.slot = w.slot
  pure : w.Pure → w'.Pure

namespace Aside

theorem refl (data : ObjectId) (view : ViewId) (w : World) : Aside data view w w :=
  ⟨.of_objects rfl, fun _ _ => ⟨_, rfl⟩, rfl, rfl, rfl, id⟩

theorem trans (h : Aside data view w w') (h' : Aside data view w' w'') :
    Aside data view w w'' where
  slots := h.slots.trans h'.slots
  watchers x hx := by
    obtain ⟨handles, hwatcher⟩ := h.watchers x hx
    obtain ⟨handles', hwatcher'⟩ := h'.watchers x (h.view ▸ hx)
    exact ⟨handles', by rw [hwatcher', hwatcher]⟩
  view := h'.view.trans h.view
  document := h'.document.trans h.document
  slot := h'.slot.trans h.slot
  pure hw := h'.pure (h.pure hw)

/-- The same objects, and a change of no watcher of the view but in its
handles. -/
theorem of_objects (hobjects : w'.graph.objects = w.graph.objects)
    (hwatchers : ∀ x ∈ (w.view view).watchers, ∃ handles,
      w'.watcher x = { w.watcher x with handles })
    (hviews : w'.views = w.views) (hdocument : w'.document = w.document)
    (hslot : w'.slot = w.slot) : Aside data view w w' where
  slots := .of_objects hobjects
  watchers := hwatchers
  view := by rw [World.view, World.view, hviews]
  document := hdocument
  slot := hslot
  pure hw := hw.of_objects hobjects

/-- A change of a watcher that is not of the view. -/
theorem onWatcher (hx : x ∉ (w.view view).watchers) (change : Watcher → Watcher) :
    Aside data view w (w.onWatcher x change) := by
  refine .of_objects rfl (fun y hy => ?_) rfl rfl rfl
  have hne : y ≠ x := fun heq => hx (heq ▸ hy)
  exact ⟨_, watcher_of_ne hne _ _⟩

theorem evaluated (hx : x ∉ (w.view view).watchers) (hslot : w.slot = none)
    (cells : List Cell) : Aside data view w (w.evaluated x cells) := by
  obtain ⟨hviews, hdocument⟩ := views_evaluated w x cells
  refine .of_objects (objects_evaluated w x cells) (fun y hy => ?_) hviews hdocument hslot.symm
  have hne : y ≠ x := fun heq => hx (heq ▸ hy)
  exact ⟨_, watcher_evaluated_of_ne hne w cells⟩

theorem release (hx : x ∉ (w.view view).watchers) :
    Aside data view w (w.release (.watcher x)) := by
  have hless : Aside data view w (w.lessen x) := .onWatcher hx _
  refine release_of_lessen hless fun _ => hless.trans
    (.of_objects (Graph.objects_unregisterAll _ _ _) (fun y hy => ?_) rfl rfl rfl)
  have hne : y ≠ x := fun heq => hx (heq ▸ hy)
  exact ⟨_, by rw [watcher_unsubscribe, if_neg hne]⟩

end Aside

/-! ## Quiet code -/

/-- Calls that tell a change to code that does not belong to the view. -/
def Call.Foreign (view : ViewId) (w : World) : Call → Prop
  | .react x _ => x ∉ (w.view view).watchers
  | .invalidated _ _ => True
  | _ => False

instance (view : ViewId) (w : World) (call : Call) : Decidable (call.Foreign view w) :=
  match call with
  | .react x _ => inferInstanceAs (Decidable (x ∉ (w.view view).watchers))
  | .invalidated _ _ => isTrue trivial
  | .accessor _ _ _ | .deliver _ _ | .callback _ _ _ | .method _ _ _ | .handler _ _ _
  | .descend _ _ _ _ => isFalse id

/-- The code that the run tells of a change, but for the reactions of the
view, leaves alone what the view is bound to. -/
def Quiet (data : ObjectId) (view : ViewId) (c : Config α) : Prop :=
  Along (fun w call => call.Foreign view w → ∀ answer w',
    Reaches ⟨w, call.body⟩ ⟨w', .done answer⟩ → Aside data view w w') c

/-- A run that tells nobody else is quiet. -/
theorem Quiet.of_run (data : ObjectId) (fuel : Nat) {c : Config α}
    (hend : (c.advance fuel).tick.isNone)
    (hnone : ∀ n < fuel, ∀ call ∈ (c.advance n).calls, ¬ call.Foreign view (c.advance n).world) :
    Quiet data view c :=
  Along.of_run fuel (Option.isNone_iff_eq_none.1 hend) fun n hn call hcall hforeign =>
    absurd hforeign (hnone n hn call hcall)

end DataBinding
