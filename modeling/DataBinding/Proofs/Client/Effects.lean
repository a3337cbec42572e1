import DataBinding.Proofs.Client.Steps
import DataBinding.Proofs.Store.Properties

/-!
# What a write does to evaluations, values and objects

An evaluation stays what it is and does not come back to life, and the
slot is taken only by one that is alive (`Carries`); a watcher stays, with
the value that it remembers (`Remembers`). Keeping track of who has read
what does both, and leaves the objects alone (`Tracks`). A routine write
is of this kind, or else it is about objects only (`Routine.effect`).
-/

namespace DataBinding

/-- A change of objects other than the store of a value. -/
inductive Graph.Shapes (g : Graph) : Graph → Prop
  | create (properties : List (String × Value)) :
      Shapes g (properties.foldl (fun g' entry => g'.fill g.nextObject entry) g.addObject)
  | define (id : ObjectId) (entries : List (String × Expr)) :
      Shapes g (entries.foldl (fun g entry => g.define id entry.1 entry.2) g)
  | observe (v : Value) : Shapes g (g.observe v)

namespace World

variable {sites : NodeId → Prop} {w w' w'' : World} {x : WatcherId} {e : EvaluationId}

/-! ## The relations -/

/-- Whoever has the slot has an evaluation that is alive. -/
def Occupied (w : World) : Prop :=
  ∀ s, w.slot = some s → ∃ e, (w.evaluation e).alive = true ∧ (w.evaluation e).parent = s

/-- Evaluations stay what they are and do not come back to life, and
whoever has the slot still has one that is alive. -/
structure Carries (w w' : World) : Prop where
  length : w.evaluations.length ≤ w'.evaluations.length
  parent : ∀ {e}, e < w.evaluations.length → (w'.evaluation e).parent = (w.evaluation e).parent
  alive : ∀ {e}, e < w.evaluations.length → (w'.evaluation e).alive = true →
    (w.evaluation e).alive = true
  occupied : w.Occupied → w'.Occupied

/-- There are the same watchers, with the same values and reactions. -/
structure Remembers (w w' : World) : Prop where
  watchers : w'.watchers.length = w.watchers.length
  value : ∀ x, (w'.watcher x).value = (w.watcher x).value
  reaction : ∀ x, (w'.watcher x).reaction = (w.watcher x).reaction

/-- Nothing has changed but handles, dependency sets, subscriber lists and
who is being evaluated. -/
structure Tracks (w w' : World) : Prop extends Carries w w', Remembers w w' where
  objects : w'.graph.objects = w.graph.objects

namespace Carries

theorem trans (h : Carries w w') (h' : Carries w' w'') : Carries w w'' where
  length := Nat.le_trans h.length h'.length
  parent he := (h'.parent (Nat.lt_of_lt_of_le he h.length)).trans (h.parent he)
  alive he halive := h.alive he (h'.alive (Nat.lt_of_lt_of_le he h.length) halive)
  occupied hw := h'.occupied (h.occupied hw)

/-- Nothing about evaluations has changed. -/
theorem of_same (hslot : w'.slot = w.slot) (hevaluations : w'.evaluations = w.evaluations) :
    Carries w w' := by
  have hsame : ∀ e, w'.evaluation e = w.evaluation e := fun e => by
    rw [evaluation, evaluation, hevaluations]
  refine ⟨Nat.le_of_eq (by rw [hevaluations]), fun _ => by rw [hsame], fun _ h => hsame _ ▸ h,
    fun h s hs => ?_⟩
  obtain ⟨e, halive, hparent⟩ := h s (hslot ▸ hs)
  exact ⟨e, by rw [hsame]; exact halive, by rw [hsame]; exact hparent⟩

theorem refl (w : World) : Carries w w :=
  of_same rfl rfl

/-- A change of one evaluation other than of its life. -/
theorem onEvaluation (w : World) (e : EvaluationId) {change : Evaluation → Evaluation}
    (hparent : (change (w.evaluation e)).parent = (w.evaluation e).parent)
    (halive : (change (w.evaluation e)).alive = (w.evaluation e).alive) :
    Carries w (w.onEvaluation e change) := by
  have hparents := fun other => field_onEvaluation w e other Evaluation.parent hparent
  have hlives := fun other => field_onEvaluation w e other Evaluation.alive halive
  refine ⟨Nat.le_of_eq (List.length_modify ..).symm, fun _ => hparents _, fun _ h => ?_,
    fun h s hs => ?_⟩
  · rwa [hlives] at h
  · obtain ⟨e', he, hs⟩ := h s hs
    exact ⟨e', by rw [hlives]; exact he, by rw [hparents]; exact hs⟩

/-- An evaluation ends, and the slot is free. -/
theorem close (w : World) (e : EvaluationId) : Carries w (w.close e) := by
  refine ⟨Nat.le_of_eq (List.length_modify ..).symm,
    fun _ => field_onEvaluation w e _ Evaluation.parent rfl, fun {other} _ h => ?_, nofun⟩
  have hlater : ((w.onEvaluation e fun evaluation => { evaluation with alive := false }).evaluation
      other).alive = true := h
  rw [evaluation_onEvaluation] at hlater
  split at hlater
  · cases hlater
  · exact hlater

/-- An evaluation begins. -/
theorem enter {s : SubscriberId} {previous : List DependencyId}
    (h : w.enter s previous = .ok w') : Carries w w' := by
  obtain ⟨-, rfl⟩ := enter_eq_ok h
  have hold : ∀ {e}, e < w.evaluations.length → e ≠ w.nextEvaluation := fun he => Nat.ne_of_lt he
  refine ⟨by simp, fun he => ?_, fun he h => ?_, fun _ s' hs' => ⟨w.nextEvaluation, ?_⟩⟩
  · rw [evaluation_append, if_neg (hold he)]
  · rwa [evaluation_append, if_neg (hold he)] at h
  · obtain rfl : s = s' := Option.some.inj hs'
    rw [evaluation_append, if_pos rfl]
    exact ⟨rfl, rfl⟩

end Carries

namespace Remembers

theorem trans (h : Remembers w w') (h' : Remembers w' w'') : Remembers w w'' where
  watchers := h'.watchers.trans h.watchers
  value x := (h'.value x).trans (h.value x)
  reaction x := (h'.reaction x).trans (h.reaction x)

theorem of_same (hwatchers : w'.watchers = w.watchers) : Remembers w w' := by
  have hsame : ∀ x, w'.watcher x = w.watcher x := fun x => by rw [watcher, watcher, hwatchers]
  exact ⟨by rw [hwatchers], fun x => by rw [hsame], fun x => by rw [hsame]⟩

end Remembers

/-! ## Keeping track -/

namespace Tracks

theorem trans (h : Tracks w w') (h' : Tracks w' w'') : Tracks w w'' :=
  ⟨h.toCarries.trans h'.toCarries, h.toRemembers.trans h'.toRemembers, h'.objects.trans h.objects⟩

/-- Whatever is done to the evaluations. -/
theorem of_carries (h : Carries w w') (hwatchers : w'.watchers = w.watchers)
    (hobjects : w'.graph.objects = w.graph.objects) : Tracks w w' :=
  ⟨h, .of_same hwatchers, hobjects⟩

theorem of_same (hslot : w'.slot = w.slot) (hevaluations : w'.evaluations = w.evaluations)
    (hwatchers : w'.watchers = w.watchers) (hobjects : w'.graph.objects = w.graph.objects) :
    Tracks w w' :=
  of_carries (.of_same hslot hevaluations) hwatchers hobjects

theorem refl (w : World) : Tracks w w :=
  of_same rfl rfl rfl rfl

theorem of_sameTracking (h : SameTracking w w') : Tracks w w' :=
  of_same h.slot h.evaluations h.watchers (by rw [h.graph])

theorem onGraph (w : World) {change : Graph → Graph}
    (h : (change w.graph).objects = w.graph.objects) : Tracks w (w.onGraph change) :=
  of_same rfl rfl rfl h

theorem onNames (w : World) (change : Names → Names) : Tracks w (w.onNames change) :=
  of_same rfl rfl rfl rfl

/-- A change of a watcher other than of its value and its reaction. -/
theorem onWatcher (w : World) (x : WatcherId) {change : Watcher → Watcher}
    (hvalue : (change (w.watcher x)).value = (w.watcher x).value)
    (hreaction : (change (w.watcher x)).reaction = (w.watcher x).reaction) :
    Tracks w (w.onWatcher x change) :=
  ⟨.of_same rfl rfl, ⟨List.length_modify .., fun _ => field_onWatcher w x _ Watcher.value hvalue,
    fun _ => field_onWatcher w x _ Watcher.reaction hreaction⟩, rfl⟩

/-! ### Watchers -/

theorem unsubscribe (w : World) (x : WatcherId) : Tracks w (w.unsubscribe x) :=
  (onGraph w (Graph.objects_unregisterAll _ _ _)).trans (onWatcher _ x rfl rfl)

theorem dispose (w : World) (x : WatcherId) : Tracks w (w.dispose x) :=
  (unsubscribe w x).trans (onWatcher _ x rfl rfl)

theorem retain (w : World) (s : SubscriberId) : Tracks w (w.retain s) := by
  cases s with
  | client id => exact of_same rfl rfl rfl rfl
  | watcher x => exact onWatcher w x rfl rfl

theorem release (w : World) (s : SubscriberId) : Tracks w (w.release s) := by
  cases s with
  | client id => exact of_same rfl rfl rfl rfl
  | watcher x =>
      have hless : Tracks w (w.lessen x) := onWatcher w x rfl rfl
      exact release_of_lessen hless fun _ => hless.trans (unsubscribe _ x)

/-- What a name for a watcher stood for is given up. -/
theorem giveUpWatcher (w : World) (change : Names → Names) (former : Option WatcherId) :
    Tracks w ((w.onNames change).giveUp former fun w x => w.release (.watcher x)) := by
  cases former with
  | none => exact onNames w change
  | some x => exact (onNames w change).trans (release _ (.watcher x))

theorem dropWatchers (xs : List WatcherId) (w : World) : Tracks w (w.dropWatchers xs) := by
  induction xs generalizing w with
  | nil => exact refl w
  | cons x xs ih => exact ((dispose w x).trans (release _ (.watcher x))).trans (ih _)

theorem discards {view : ViewId} (h : w.Discards view w') : Tracks w w' := by
  let emptied := w.onView view fun _ => ⟨[], []⟩
  have hemptied : Tracks w emptied := of_same rfl rfl rfl rfl
  have hdropped : Tracks emptied (w.disposeView view) :=
    (dropWatchers (w.view view).watchers emptied).trans (of_same rfl rfl rfl rfl)
  exact (hemptied.trans hdropped).trans (of_sameTracking h.sameTracking)

/-! ### Evaluations -/

theorem releaseEvaluation (w : World) (e : EvaluationId) : Tracks w (w.releaseEvaluation e) := by
  have hless : Tracks w (w.lessenEvaluation e) := of_carries (.onEvaluation w e rfl rfl) rfl rfl
  exact releaseEvaluation_of_lessen hless fun _ _ => hless.trans (of_carries (.close _ e) rfl rfl)

/-- What a name for an evaluation stood for is given up. -/
theorem giveUpEvaluation (w : World) (change : Names → Names) (former : Option EvaluationId) :
    Tracks w ((w.onNames change).giveUp former World.releaseEvaluation) := by
  cases former with
  | none => exact onNames w change
  | some e => exact (onNames w change).trans (releaseEvaluation _ e)

theorem track (w : World) (e : EvaluationId) (d : DependencyId) : Tracks w (w.track e d) := by
  have hread : Tracks w (w.onEvaluation e fun evaluation =>
      { evaluation with current := evaluation.current ++ [d] }) :=
    of_carries (.onEvaluation w e rfl rfl) rfl rfl
  simp only [World.track]
  split
  · exact refl w
  · split
    · exact hread
    · exact hread.trans (onGraph _ rfl)

theorem enter {s : SubscriberId} {previous : List DependencyId}
    (h : w.enter s previous = .ok w') : Tracks w w' := by
  have hcarries := Carries.enter h
  obtain ⟨-, rfl⟩ := enter_eq_ok h
  exact of_carries hcarries rfl rfl

theorem finish (w : World) (e : EvaluationId) : Tracks w (w.finish e) :=
  (onGraph w (Graph.objects_unregisterAll _ _ _)).trans (of_carries (.close _ e) rfl rfl)

end Tracks

/-! ## The effect of a write -/

/-- A routine write keeps track, or is about objects only. -/
theorem Routine.effect (h : w.Routine sites w') :
    w.Tracks w' ∨ ∃ g, w' = { w with graph := g } ∧ w.graph.Shapes g := by
  cases h with
  | create properties => exact .inr ⟨_, rfl, .create properties⟩
  | define id entries => exact .inr ⟨_, rfl, .define id entries⟩
  | observe v => exact .inr ⟨_, rfl, .observe v⟩
  | untracked h => exact .inl (.of_sameTracking h.toSameTracking)
  | discards h => exact .inl (.discards h)
  | track e d => exact .inl (.track w e d)
  | retain s => exact .inl (.retain w s)
  | release s => exact .inl (.release w s)
  | nameWatcher into x => exact .inl (.giveUpWatcher w _ _)
  | share into x => exact .inl ((Tracks.retain w (.watcher x)).trans (.giveUpWatcher _ _ _))
  | dropWatcher name => exact .inl (.giveUpWatcher w _ _)
  | dispose x => exact .inl (.dispose w x)
  | retainEvaluation e => exact .inl (.of_carries (.onEvaluation w e rfl rfl) rfl rfl)
  | enter into h => exact .inl ((Tracks.enter h).trans (.giveUpEvaluation _ _ _))
  | finish _ _ => exact .inl ((Tracks.finish w _).trans (.giveUpEvaluation _ _ _))
  | abandon name => exact .inl (.giveUpEvaluation w _ _)
  | viewWatches | newDependency | register | unregister | prune =>
      exact .inl (.of_same rfl rfl rfl rfl)

theorem Tracks.beginWatcher {x : WatcherId} (h : w.beginWatcher x = .ok w') : Tracks w w' := by
  obtain ⟨entered, hentered, rfl⟩ := beginWatcher_eq_ok h
  exact (Tracks.enter hentered).trans (.onWatcher _ _ rfl rfl)

theorem Tracks.endWatcher (w : World) (x : WatcherId) (e : EvaluationId) :
    Tracks w (w.endWatcher x e) :=
  (Tracks.finish w e).trans (.onWatcher _ x rfl rfl)

/-- Every watcher reacts where it did, or at a site. -/
def ReactsAt (sites : NodeId → Prop) (w w' : World) : Prop :=
  ∀ x n, (w'.watcher x).reaction.node? = some n →
    (w.watcher x).reaction.node? = some n ∨ sites n

theorem Remembers.reactsAt (h : w.Remembers w') : w.ReactsAt sites w' :=
  fun x _ hn => .inl (h.reaction x ▸ hn)

/-- Every other write keeps track, or is about objects only, or about one
watcher. -/
theorem Maintains.effect (h : w.Maintains sites w') : w.Tracks w' ∨
    (∃ g, w' = { w with graph := g } ∧ w.graph.Shapes g) ∨
    ∃ watchers, w' = { w with watchers } ∧ w.watchers.length ≤ watchers.length ∧
      w.ReactsAt sites w' := by
  cases h with
  | routine h => exact h.effect.imp_right .inl
  | beginWatcher h => exact .inl (.beginWatcher h)
  | endWatcher x e => exact .inl (.endWatcher w x e)
  | releaseEvaluation e => exact .inl (.releaseEvaluation w e)
  | addWatcher data path reaction hsites =>
      refine .inr (.inr ⟨_, rfl, by simp, fun x n hn => ?_⟩)
      rw [watcher_addWatcher] at hn
      split at hn
      · exact .inr (hsites n hn)
      · exact .inl hn
  | remember x v =>
      have hreaction : ∀ y, ((w.remember x v).watcher y).reaction = (w.watcher y).reaction :=
        fun y => field_onWatcher w x y Watcher.reaction rfl
      refine .inr (.inr ⟨_, rfl, Nat.le_of_eq (List.length_modify ..).symm, fun y n hn => ?_⟩)
      exact .inl (hreaction y ▸ hn)

theorem Routine.remembers (h : w.Routine sites w') : w.Remembers w' := by
  rcases h.effect with htracks | ⟨g, rfl, -⟩
  · exact htracks.toRemembers
  · exact .of_same rfl

theorem Writes.carries (h : w.Writes sites w') : w.Carries w' := by
  cases h with
  | store => exact .of_same rfl rfl
  | maintains h =>
      rcases h.effect with htracks | ⟨g, rfl, -⟩ | ⟨watchers, rfl, -⟩
      · exact htracks.toCarries
      · exact .of_same rfl rfl
      · exact .of_same rfl rfl

theorem Writes.watchers (h : w.Writes sites w') : w.watchers.length ≤ w'.watchers.length := by
  cases h with
  | store => exact Nat.le_refl _
  | maintains h =>
      rcases h.effect with htracks | ⟨g, rfl, -⟩ | ⟨watchers, rfl, hle, -⟩
      · exact Nat.le_of_eq htracks.watchers.symm
      · exact Nat.le_refl _
      · exact hle

theorem Writes.reactsAt (h : w.Writes sites w') : w.ReactsAt sites w' := by
  cases h with
  | store => exact (Remembers.of_same rfl).reactsAt
  | maintains h =>
      rcases h.effect with htracks | ⟨g, rfl, -⟩ | ⟨watchers, rfl, -, hreacts⟩
      · exact htracks.toRemembers.reactsAt
      · exact (Remembers.of_same rfl).reactsAt
      · exact hreacts

end World

end DataBinding
