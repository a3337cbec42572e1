import DataBinding.Proofs.Client.Steps
import DataBinding.Proofs.Subscription.Invariant

/-!
# What is done to watchers that are gone

A watcher is `Gone` when it is disposed of and has no dependencies. Only
its own evaluation can bring dependencies back, and it is the evaluation
alone that takes the slot for it: every other change of a state is
`Steady`, so that who is gone stays gone, who is disposed of loses all
dependencies, and every watcher is as much in its own evaluation as
before.
-/

namespace DataBinding.World

variable {w w' w'' : World} {x y : WatcherId} {e : EvaluationId}

/-- A watcher that is disposed of and has no dependencies. -/
def Gone (w : World) (x : WatcherId) : Prop :=
  (w.watcher x).disposed = true ∧ (w.watcher x).dependencies = []

/-- Every watcher is as much in its own evaluation as it was. -/
structure Abides (w w' : World) : Prop where
  slot : ∀ x, w.slot = some (.watcher x) ↔ w'.slot = some (.watcher x)
  evaluations : w.evaluations.length ≤ w'.evaluations.length
  parent : ∀ {e}, e < w.evaluations.length → (w'.evaluation e).parent = (w.evaluation e).parent

theorem Abides.refl (w : World) : Abides w w :=
  ⟨fun _ => Iff.rfl, Nat.le_refl _, fun _ => rfl⟩

theorem Abides.trans (h : Abides w w') (h' : Abides w' w'') : Abides w w'' where
  slot x := (h.slot x).trans (h'.slot x)
  evaluations := Nat.le_trans h.evaluations h'.evaluations
  parent he := (h'.parent (Nat.lt_of_lt_of_le he h.evaluations)).trans (h.parent he)

/-- Who is gone stays gone, who is disposed of is gone, and no evaluation
of a watcher begins or ends. -/
structure Steady (w w' : World) : Prop extends Abides w w' where
  watchers : w.watchers.length ≤ w'.watchers.length
  gone : ∀ {x}, x < w.watchers.length → w.Gone x → w'.Gone x
  disposed : ∀ {x}, (w.watcher x).disposed = false → (w'.watcher x).disposed = true → w'.Gone x

/-- Where no watcher is, nothing is left to be disposed of. -/
theorem lt_of_not_gone (h : ¬ w.Gone x) : x < w.watchers.length := by
  refine Nat.lt_of_not_le fun hle => h ?_
  rw [Gone, watcher_eq_default hle]
  exact ⟨rfl, rfl⟩

theorem lt_of_not_disposed (h : (w.watcher x).disposed = false) : x < w.watchers.length :=
  lt_of_not_gone fun hgone => by
    rw [hgone.1] at h
    cases h

theorem Gone.of_watcher (h : w.Gone x) (hwatcher : w'.watcher x = w.watcher x) : w'.Gone x := by
  rwa [Gone, hwatcher]

/-- Who was disposed of has no dependencies. -/
theorem gone_dispose (w : World) (x : WatcherId) : (w.dispose x).Gone x := by
  have hdependencies : ((w.unsubscribe x).watcher x).dependencies = [] := by
    rw [watcher_unsubscribe, if_pos rfl]
  refine ⟨?_, (field_onWatcher _ x x Watcher.dependencies rfl).trans hdependencies⟩
  rw [World.dispose, watcher_onWatcher]
  split
  · rfl
  · rename_i hout
    have hle : (w.unsubscribe x).watchers.length ≤ x := Nat.le_of_not_lt fun h => hout ⟨rfl, h⟩
    rw [watcher_eq_default hle]

namespace Steady

theorem refl (w : World) : Steady w w :=
  ⟨.refl w, Nat.le_refl _, fun _ h => h, fun h h' => Bool.noConfusion (h.symm.trans h')⟩

theorem trans (h : Steady w w') (h' : Steady w' w'') : Steady w w'' where
  toAbides := h.toAbides.trans h'.toAbides
  watchers := Nat.le_trans h.watchers h'.watchers
  gone hx hgone := h'.gone (Nat.lt_of_lt_of_le hx h.watchers) (h.gone hx hgone)
  disposed {x} hx hx'' := by
    cases hx' : (w'.watcher x).disposed with
    | false => exact h'.disposed hx' hx''
    | true =>
        exact h'.gone (Nat.lt_of_lt_of_le (lt_of_not_disposed hx) h.watchers) (h.disposed hx hx')

/-- Every watcher is as it was. -/
theorem of_watcher (hslot : ∀ x, w.slot = some (.watcher x) ↔ w'.slot = some (.watcher x))
    (hevaluations : w.evaluations.length ≤ w'.evaluations.length)
    (hparent : ∀ {e}, e < w.evaluations.length →
      (w'.evaluation e).parent = (w.evaluation e).parent)
    (hwatchers : w'.watchers = w.watchers) : Steady w w' where
  slot := hslot
  evaluations := hevaluations
  parent := hparent
  watchers := Nat.le_of_eq (by rw [hwatchers])
  gone _ hgone := hgone.of_watcher (by rw [watcher, watcher, hwatchers])
  disposed {x} hx hx' := by
    rw [watcher, hwatchers] at hx'
    exact Bool.noConfusion (hx.symm.trans hx')

/-- The same watchers, and nobody's evaluation is touched. -/
theorem of_kept {a : WatcherId → Int} {b : EvaluationId → Int} (h : Kept a b w w')
    (hwatchers : w'.watchers = w.watchers) : Steady w w' :=
  of_watcher h.slot h.length h.parent hwatchers

/-- The same slot, evaluations and watchers. -/
theorem of_watchers (hslot : w'.slot = w.slot) (hevaluations : w'.evaluations = w.evaluations)
    (hwatchers : w'.watchers = w.watchers) : Steady w w' :=
  of_watcher (fun x => by rw [hslot]) (Nat.le_of_eq (by rw [hevaluations]))
    (fun _ => by rw [evaluation, evaluation, hevaluations]) hwatchers

theorem of_sameTracking (h : SameTracking w w') : Steady w w' :=
  of_watchers h.slot h.evaluations h.watchers

theorem onGraph (w : World) (change : Graph → Graph) : Steady w (w.onGraph change) :=
  of_watchers rfl rfl rfl

/-! ### Watchers -/

/-- A change of one watcher that does not bring it back. -/
theorem onWatcher (w : World) (x : WatcherId) {change : Watcher → Watcher}
    (hgone : w.Gone x → (w.onWatcher x change).Gone x)
    (hdisposed : (w.watcher x).disposed = false →
      ((w.onWatcher x change).watcher x).disposed = true → (w.onWatcher x change).Gone x) :
    Steady w (w.onWatcher x change) where
  slot _ := Iff.rfl
  evaluations := Nat.le_refl _
  parent _ := rfl
  watchers := Nat.le_of_eq (List.length_modify ..).symm
  gone {y} _ hy := by
    by_cases hself : y = x
    · exact hself ▸ hgone (hself ▸ hy)
    · exact hy.of_watcher (watcher_of_ne hself w change)
  disposed {y} hy hy' := by
    by_cases hself : y = x
    · subst hself
      exact hdisposed hy hy'
    · rw [watcher_of_ne hself] at hy'
      exact Bool.noConfusion (hy.symm.trans hy')

/-- A change of one watcher that is no disposal. -/
theorem onField (w : World) (x : WatcherId) {change : Watcher → Watcher}
    (hdisposed : (change (w.watcher x)).disposed = (w.watcher x).disposed)
    (hdependencies : (w.watcher x).dependencies = [] → (change (w.watcher x)).dependencies = []) :
    Steady w (w.onWatcher x change) := by
  have hsame := field_onWatcher w x x Watcher.disposed hdisposed
  refine onWatcher w x (fun h => ⟨hsame.trans h.1, ?_⟩) fun h h' => ?_
  · rw [watcher_onWatcher]
    split
    · exact hdependencies h.2
    · exact h.2
  · exact Bool.noConfusion (h.symm.trans (hsame.symm.trans h'))

theorem addWatcher (w : World) (data : ObjectId) (path : Path) (reaction : Reaction) :
    Steady w (w.addWatcher data path reaction) where
  slot _ := Iff.rfl
  evaluations := Nat.le_refl _
  parent _ := rfl
  watchers := by simp [World.addWatcher]
  gone {y} hy hgone := by
    have hold : y ≠ w.nextWatcher := Nat.ne_of_lt hy
    exact hgone.of_watcher (by rw [watcher_addWatcher, if_neg hold])
  disposed {y} hy hy' := by
    have hold : y ≠ w.nextWatcher := Nat.ne_of_lt (lt_of_not_disposed hy)
    rw [watcher_addWatcher, if_neg hold] at hy'
    exact Bool.noConfusion (hy.symm.trans hy')

theorem retain (w : World) (x : WatcherId) : Steady w (w.retain (.watcher x)) :=
  onField w x rfl id

theorem unsubscribe (w : World) (x : WatcherId) : Steady w (w.unsubscribe x) :=
  (onGraph w _).trans (onField _ x rfl fun _ => rfl)

theorem dispose (w : World) (x : WatcherId) : Steady w (w.dispose x) :=
  (unsubscribe w x).trans (onWatcher _ x (fun _ => gone_dispose w x) fun _ _ => gone_dispose w x)

theorem release (w : World) (x : WatcherId) : Steady w (w.release (.watcher x)) := by
  have hless : Steady w (w.lessen x) := onField w x rfl id
  exact release_of_lessen hless fun _ => hless.trans (unsubscribe _ x)

/-! ### Names and views -/

theorem onNames (w : World) (change : Names → Names) : Steady w (w.onNames change) :=
  of_watchers rfl rfl rfl

theorem giveUpWatcher (w : World) (former : Option WatcherId) :
    Steady w (w.giveUp former fun w x => w.release (.watcher x)) := by
  cases former with
  | none => exact refl w
  | some x => exact release w x

theorem nameWatcher (w : World) (name : String) (x : WatcherId) :
    Steady w (w.nameWatcher name x) :=
  (onNames w _).trans (giveUpWatcher _ _)

theorem dropWatcher (w : World) (name : String) : Steady w (w.dropWatcher name) :=
  (onNames w _).trans (giveUpWatcher _ _)

theorem viewWatches (w : World) (view : ViewId) (x : WatcherId) :
    Steady w (w.viewWatches view x) :=
  of_watchers rfl rfl rfl

theorem dropWatchers (w : World) (xs : List WatcherId) : Steady w (w.dropWatchers xs) := by
  induction xs generalizing w with
  | nil => exact refl w
  | cons x xs ih => exact ((dispose w x).trans (release _ x)).trans (ih _)

theorem disposeView (w : World) (view : ViewId) : Steady w (w.disposeView view) := by
  have hempty : Steady w (w.onView view fun _ => ⟨[], []⟩) := of_watchers rfl rfl rfl
  exact (hempty.trans (dropWatchers _ _)).trans (of_watchers rfl rfl rfl)

theorem tearDown (h : TornDown w w') : Steady w w' := by
  rcases h with h | ⟨view, h⟩
  · exact of_sameTracking h
  · exact (disposeView w view).trans (of_sameTracking h)

/-! ### Evaluations -/

theorem track (w : World) (e : EvaluationId) (d : DependencyId) : Steady w (w.track e d) := by
  obtain ⟨hslot, hwatchers, -, -, hlength⟩ := track_frame w e d
  exact of_watcher (fun x => by rw [hslot]) (Nat.le_of_eq hlength.symm)
    (fun _ => field_track w e _ d Evaluation.parent fun _ => rfl) hwatchers

theorem onHandles (w : World) (e : EvaluationId) (handles : Evaluation → Nat) :
    Steady w (w.onEvaluation e fun evaluation =>
      { evaluation with handles := handles evaluation }) :=
  of_watcher (fun _ => Iff.rfl) (Nat.le_of_eq (List.length_modify ..).symm)
    (fun _ => field_onEvaluation w e _ Evaluation.parent rfl) rfl

/-- Only client code's own evaluations end with their last handle. -/
theorem releaseEvaluation (hw : Ledger w) {client : Nat}
    (hparent : (w.evaluation e).parent = .client client) : Steady w (w.releaseEvaluation e) := by
  have hless : Steady w (w.lessenEvaluation e) := onHandles w e (·.handles - 1)
  refine releaseEvaluation_of_lessen hless fun halive _ => ?_
  have hslot := hw.slot_of_alive halive
  rw [hparent] at hslot
  refine hless.trans (of_watcher (fun x => ⟨fun h => ?_, fun h => by cases h⟩)
    (Nat.le_of_eq (List.length_modify ..).symm)
    (fun _ => field_onEvaluation _ e _ Evaluation.parent rfl) rfl)
  cases hslot.symm.trans h

end Steady

/-! ## Named evaluations -/

theorem watchers_giveUpEvaluation (w : World) (former : Option EvaluationId) :
    (w.giveUp former World.releaseEvaluation).watchers = w.watchers := by
  cases former with
  | none => rfl
  | some e =>
      exact releaseEvaluation_of_lessen (P := fun u => u.watchers = w.watchers) rfl fun _ _ => rfl

theorem watchers_nameEvaluation (w : World) (name : String) (e : EvaluationId) :
    (w.nameEvaluation name e).watchers = w.watchers :=
  watchers_giveUpEvaluation _ _

theorem watchers_dropEvaluation (w : World) (name : String) :
    (w.dropEvaluation name).watchers = w.watchers :=
  watchers_giveUpEvaluation _ _

/-! ## Routine writes -/

/-- Routine writes are steady: evaluations that client code begins and ends
are its own. -/
theorem Routine.steady {sites : NodeId → Prop} (hw : Ledger w) (h : w.Routine sites w') :
    Steady w w' := by
  cases h with
  | untracked h => exact .of_sameTracking h.toSameTracking
  | discards h => exact .tearDown (World.GivesUp.tornDown (.inr ⟨_, h⟩))
  | track e d => exact .track w e d
  | retain s =>
      cases s with
      | client client => exact .of_watchers rfl rfl rfl
      | watcher x => exact .retain w x
  | release s =>
      cases s with
      | client client => exact .of_watchers rfl rfl rfl
      | watcher x => exact .release w x
  | nameWatcher into x => exact .nameWatcher w into x
  | share into x => exact (Steady.retain w x).trans (.nameWatcher _ into x)
  | dropWatcher name => exact .dropWatcher w name
  | dispose x => exact .dispose w x
  | retainEvaluation e => exact .onHandles w e (·.handles + 1)
  | enter into h =>
      refine .of_kept (hw.enterNamed h into).kept ?_
      obtain ⟨-, rfl⟩ := enter_eq_ok h
      exact watchers_nameEvaluation _ _ _
  | finish hname hunused =>
      exact .of_kept (hw.finishNamed _ hname hunused).kept (watchers_dropEvaluation _ _)
  | abandon name =>
      cases hname : w.names.evaluations.find? name with
      | none =>
          rw [World.dropEvaluation, hname]
          exact Steady.of_watchers rfl rfl rfl
      | some e => exact .of_kept (hw.dropEvaluation name hname).kept (watchers_dropEvaluation _ _)
  | viewWatches | create | define | observe | newDependency | register | unregister | prune =>
      exact .of_watchers rfl rfl rfl

/-- An evaluation that had a name is client code's own. -/
theorem Steady.releaseNamed (hw : Ledger w) (hw' : Ledger w') {name : String}
    (hname : w.names.evaluations.find? name = some e)
    (hparent : e < w.evaluations.length → (w'.evaluation e).parent = (w.evaluation e).parent) :
    Steady w' (w'.releaseEvaluation e) := by
  obtain ⟨halive, client, hclient⟩ := hw.entitled (Keyed.naming_pos hname)
  exact .releaseEvaluation hw' ((hparent (lt_of_alive halive)).trans hclient)

/-! ## Evaluations of watchers -/

/-- An evaluation that is over, as seen from outside. -/
theorem Abides.evaluation {begun last : World} (hw : w.beginWatcher x = .ok begun)
    (h : Abides begun last) (e : EvaluationId) : Abides w (last.endWatcher x e) := by
  have hbegun := begun_of_beginWatcher hw
  have hended := ended_endWatcher last x e
  have hlater := h.evaluations
  rw [hbegun.length] at hlater
  refine ⟨fun y => by rw [hbegun.free, hended.slot], by rw [hended.length]; omega,
    fun {e} he => ?_⟩
  rw [hended.parent, h.parent (by rw [hbegun.length]; omega), hbegun.older (Nat.ne_of_lt he)]

end DataBinding.World
