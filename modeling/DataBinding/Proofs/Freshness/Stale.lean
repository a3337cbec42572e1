import DataBinding.Proofs.Freshness.Grounded
import DataBinding.Proofs.Resolution.Reading
import DataBinding.Proofs.Subscription.Handles

/-!
# Stale watchers

A live watcher that is not disposed of is *stale* when its value does not
agree with what its path yields, or is not grounded on its dependency
set. `Settles` relates two states with the same objects and the same slot
in which no watcher has become stale: what is done about handles, names,
views and subscriber lists settles, and so does disposing of a watcher.
-/

namespace DataBinding

/-- What a watcher keeps resolved. -/
def Watcher.query (watcher : Watcher) : Query :=
  .walk (.object watcher.data) watcher.path.segments

namespace World

variable {w w' w'' : World} {x y : WatcherId}

/-- The value of a watcher agrees with one that its path yields and that
is grounded on its dependency set. -/
def UpToDate (w : World) (x : WatcherId) : Prop :=
  ∃ v, w.graph.Grounded (w.watcher x).query (w.watcher x).dependencies v ∧
    (w.watcher x).value.Agrees v

/-- A watcher that should be updated. -/
def Stale (w : World) (x : WatcherId) : Prop :=
  0 < (w.watcher x).handles ∧ (w.watcher x).disposed = false ∧ ¬ w.UpToDate x

/-- A watcher that is unchanged but for its handles. -/
def SameButHandles (w w' : World) (x : WatcherId) : Prop :=
  0 < (w.watcher x).handles ∧ ∃ handles, w'.watcher x = { w.watcher x with handles }

theorem Stale.of_sameButHandles (h : w'.Stale x) (hsame : SameButHandles w w' x)
    (hgrounded : ∀ v, w.graph.Grounded (w.watcher x).query (w.watcher x).dependencies v →
      w'.graph.Grounded (w.watcher x).query (w.watcher x).dependencies v) : w.Stale x := by
  obtain ⟨hpos, handles, hwatcher⟩ := hsame
  obtain ⟨-, hdisposed, hstale⟩ := h
  rw [hwatcher] at hdisposed
  refine ⟨hpos, hdisposed, fun hupToDate => hstale ?_⟩
  obtain ⟨v, hv, hagrees⟩ := hupToDate
  refine ⟨v, ?_, ?_⟩
  · rw [hwatcher]
    exact hgrounded v hv
  · rwa [hwatcher]

/-! ## Settling -/

/-- The same objects and the same slot, and nothing has become stale. -/
structure Settles (w w' : World) : Prop where
  objects : w'.graph.objects = w.graph.objects
  slot : w'.slot = w.slot
  stale : ∀ x, w'.Stale x → w.Stale x

namespace Settles

theorem refl (w : World) : Settles w w :=
  ⟨rfl, rfl, fun _ h => h⟩

theorem trans (h : Settles w w') (h' : Settles w' w'') : Settles w w'' :=
  ⟨h'.objects.trans h.objects, h'.slot.trans h.slot, fun x hx => h.stale x (h'.stale x hx)⟩

/-- Who is still to be kept up to date is as before but for handles. -/
theorem of_watcher (hobjects : w'.graph.objects = w.graph.objects) (hslot : w'.slot = w.slot)
    (hwatcher : ∀ x, 0 < (w'.watcher x).handles → (w'.watcher x).disposed = false →
      SameButHandles w w' x) : Settles w w' :=
  ⟨hobjects, hslot, fun x hx =>
    hx.of_sameButHandles (hwatcher x hx.1 hx.2.1) fun _ hv => hv.of_objects hobjects⟩

/-- The watchers are the same. -/
theorem of_watchers (hobjects : w'.graph.objects = w.graph.objects) (hslot : w'.slot = w.slot)
    (hwatchers : w'.watchers = w.watchers) : Settles w w' := by
  have hwatcher : ∀ x, w'.watcher x = w.watcher x := fun x => by
    rw [watcher, watcher, hwatchers]
  refine of_watcher hobjects hslot fun x hpos _ => ⟨hwatcher x ▸ hpos, _, hwatcher x⟩

theorem of_sameTracking (h : SameTracking w w') : Settles w w' :=
  of_watchers (by rw [h.graph]) h.slot h.watchers

theorem onGraph (w : World) {change : Graph → Graph}
    (h : (change w.graph).objects = w.graph.objects) : Settles w (w.onGraph change) :=
  of_watchers h rfl rfl

theorem track (w : World) (e : EvaluationId) (d : DependencyId) : Settles w (w.track e d) :=
  of_watchers (objects_track w e d) (track_frame w e d).1 (track_frame w e d).2.1

/-! ### Handles -/

theorem retain (h : 0 < (w.watcher x).handles) : Settles w (w.retain (.watcher x)) := by
  refine of_watcher rfl rfl fun y hpos _ => ?_
  rw [SameButHandles]
  rw [World.retain, watcher_onWatcher] at hpos ⊢
  split
  · rename_i hsame
    rw [hsame.1]
    exact ⟨h, _, rfl⟩
  · rename_i hsame
    rw [if_neg hsame] at hpos
    exact ⟨hpos, _, rfl⟩

/-- Who loses its dependency set is dead or disposed of. -/
theorem unsubscribe (w : World) (x : WatcherId)
    (h : 0 < (w.watcher x).handles → (w.watcher x).disposed = true) :
    Settles w (w.unsubscribe x) := by
  refine of_watcher (Graph.objects_unregisterAll _ _ _) rfl fun y hpos hdisposed => ?_
  rw [SameButHandles]
  rw [watcher_unsubscribe] at hpos hdisposed ⊢
  split
  · rename_i hself
    rw [if_pos hself] at hpos hdisposed
    have hgone : (w.watcher x).disposed = true := h hpos
    rw [hgone] at hdisposed
    cases hdisposed
  · rename_i hother
    rw [if_neg hother] at hpos
    exact ⟨hpos, _, rfl⟩

theorem dispose (w : World) (x : WatcherId) : Settles w (w.dispose x) := by
  refine of_watcher (Graph.objects_unregisterAll _ _ _) rfl fun y hpos hdisposed => ?_
  by_cases hself : y = x
  · subst hself
    have hlt := lt_of_handles hpos
    have hlength : (w.dispose y).watchers.length = (w.unsubscribe y).watchers.length :=
      List.length_modify ..
    rw [World.dispose, watcher_onWatcher_self (hlength ▸ hlt)] at hdisposed
    cases hdisposed
  · rw [SameButHandles]
    rw [World.dispose, watcher_of_ne hself, watcher_unsubscribe, if_neg hself] at hpos ⊢
    exact ⟨hpos, _, rfl⟩

theorem release (w : World) (x : WatcherId) : Settles w (w.release (.watcher x)) := by
  have hless : Settles w (w.lessen x) := of_watcher rfl rfl fun y hpos _ => by
    rw [watcher_lessen] at hpos
    rw [SameButHandles, watcher_lessen]
    exact ⟨Nat.lt_of_lt_of_le hpos (Nat.sub_le _ _), _, rfl⟩
  refine release_of_lessen hless fun hlast => hless.trans (unsubscribe _ x fun hpos => ?_)
  rw [handles_lessen, if_pos rfl] at hpos
  omega

/-! ### Names and views -/

theorem onNames (w : World) (change : Names → Names) : Settles w (w.onNames change) :=
  of_watchers rfl rfl rfl

theorem giveUpWatcher (w : World) (former : Option WatcherId) :
    Settles w (w.giveUp former fun w x => w.release (.watcher x)) := by
  cases former with
  | none => exact refl w
  | some x => exact release w x

theorem nameWatcher (w : World) (name : String) (x : WatcherId) :
    Settles w (w.nameWatcher name x) :=
  (onNames w _).trans (giveUpWatcher _ _)

theorem dropWatcher (w : World) (name : String) : Settles w (w.dropWatcher name) :=
  (onNames w _).trans (giveUpWatcher _ _)

theorem viewWatches (w : World) (view : ViewId) (x : WatcherId) :
    Settles w (w.viewWatches view x) :=
  of_watchers rfl rfl rfl

theorem dropWatchers (w : World) (ids : List WatcherId) : Settles w (w.dropWatchers ids) := by
  induction ids generalizing w with
  | nil => exact refl w
  | cons x ids ih => exact ((dispose w x).trans (release _ x)).trans (ih _)

theorem disposeView (w : World) (view : ViewId) : Settles w (w.disposeView view) := by
  have hempty : Settles w (w.onView view fun _ => ⟨[], []⟩) := of_watchers rfl rfl rfl
  exact (hempty.trans (dropWatchers _ _)).trans (of_watchers rfl rfl rfl)

theorem tearDown (h : TornDown w w') : Settles w w' := by
  rcases h with h | ⟨view, h⟩
  · exact of_sameTracking h
  · exact (disposeView w view).trans (of_sameTracking h)

end Settles

end World

end DataBinding
