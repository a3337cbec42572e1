import DataBinding.Proofs.Tracking.Lookup

/-!
# The subscription ledger

Two records have to agree: the subscriber lists of the dependencies, and
what each watcher has read - its dependency set, or, while it is being
evaluated, what its evaluation was registered with before and what it has
read so far. `Ledger` says that they do, with what is needed to keep them
so:

- the slot belongs to the one evaluation that is alive;
- an evaluation that client code has a name for is an evaluation of
  client code, and alive;
- there are at least as many handles on a watcher as names and views
  account for, and one more while it is being evaluated, so that no
  watcher dies in its own evaluation.

Most changes leave both records alone (`Unmoved`). Those that do not are
in `Subscription.Moves`.
-/

namespace DataBinding.World

/-! ## Handles that are left over -/

/-- The handles on a watcher beyond those that names and views account
for. -/
def surplus (w : World) (id : WatcherId) : Int :=
  (w.watcher id).handles - w.held id

/-- The handle that an evaluation of the watcher needs. -/
def pinned (w : World) (id : WatcherId) : Int :=
  if w.slot = some (.watcher id) then 1 else 0

/-- The handles on an evaluation beyond those that names account for. -/
def evaluationSurplus (w : World) (e : EvaluationId) : Int :=
  (w.evaluation e).handles - w.evaluationNamings e

/-! ## The invariant -/

/-- Whether a watcher is to be told of a dependency. -/
def Subscribed (w : World) (id : WatcherId) (d : DependencyId) : Prop :=
  d ∈ (w.watcher id).dependencies ∨
    ∃ e, (w.evaluation e).alive = true ∧ (w.evaluation e).parent = .watcher id ∧
      (d ∈ (w.evaluation e).previous ∨ d ∈ (w.evaluation e).current)

/-- How often a watcher is in the list of a dependency. -/
def entries (w : World) (id : WatcherId) (d : DependencyId) : Nat :=
  (w.graph.subscribersOf d).count (.watcher id)

/-- The subscriber lists agree with what the watchers have read. -/
structure Tracked (w : World) : Prop where
  owned : w.graph.Owned
  slot_of_alive : ∀ {e}, (w.evaluation e).alive = true → w.slot = some (w.evaluation e).parent
  alive_unique : ∀ {e e'}, (w.evaluation e).alive = true → (w.evaluation e').alive = true → e = e'
  idle : ∀ {id}, w.slot = some (.watcher id) → (w.watcher id).dependencies = []
  once : ∀ {id d}, w.Subscribed id d → w.entries id d = 1
  never : ∀ {id d}, ¬ w.Subscribed id d → w.entries id d = 0

/-- The handles on watchers suffice, and the dead are subscribed to
nothing. -/
structure Covered (w : World) : Prop where
  covered : ∀ id, w.pinned id ≤ w.surplus id
  dead : ∀ {id}, (w.watcher id).handles = 0 → (w.watcher id).dependencies = []
  watcherKeys : w.names.watchers.keys.Nodup

/-- What client code has names for are evaluations of its own that are
alive. -/
structure Entitled (w : World) : Prop where
  entitled : ∀ {e}, 0 < w.evaluationNamings e →
    (w.evaluation e).alive = true ∧ ∃ client, (w.evaluation e).parent = .client client
  evaluationCovered : ∀ e, 0 ≤ w.evaluationSurplus e
  evaluationKeys : w.names.evaluations.keys.Nodup

/-- The two records agree, and are kept in agreement by whoever holds a
handle. -/
structure Ledger (w : World) : Prop extends Tracked w, Covered w, Entitled w

variable {w w' : World} {id : WatcherId} {e : EvaluationId}

theorem Ledger.start : Ledger World.start where
  owned := .empty
  slot_of_alive h := by simp [World.start, evaluation] at h
  alive_unique h := by simp [World.start, evaluation] at h
  idle h := by simp [World.start] at h
  once h := by simp [World.start, Subscribed, watcher, evaluation] at h
  never _ := by simp [World.start, entries, Graph.empty, Graph.subscribersOf]
  covered id := by simp [World.start, pinned, surplus, watcher, held, namings, viewings,
    Keyed.naming, Names.empty, Keyed.empty]
  dead _ := by simp [World.start, watcher]
  entitled h := by simp [World.start, evaluationNamings, Keyed.naming, Names.empty, Keyed.empty] at h
  evaluationCovered e := by simp [World.start, evaluationSurplus, evaluation, evaluationNamings,
    Keyed.naming, Names.empty, Keyed.empty]
  watcherKeys := List.nodup_nil
  evaluationKeys := List.nodup_nil

/-! ### What follows at once -/

theorem pinned_nonneg (w : World) (id : WatcherId) : 0 ≤ w.pinned id := by
  unfold pinned
  split <;> decide

theorem pinned_self (h : w.slot = some (.watcher id)) : w.pinned id = 1 := by
  simp [pinned, h]

theorem pinned_of_ne (h : w.slot ≠ some (.watcher id)) : w.pinned id = 0 := by
  simp [pinned, h]

/-- Whoever has a handle to give up keeps the watcher alive by it. -/
theorem handles_pos (hid : w.pinned id < w.surplus id) : 0 < (w.watcher id).handles := by
  have := pinned_nonneg w id
  simp only [surplus] at hid
  omega

namespace Tracked

/-- Outside its own evaluation a watcher is subscribed to its dependency
set. -/
theorem subscribed_iff (h : Tracked w) (hslot : w.slot ≠ some (.watcher id))
    (d : DependencyId) : w.Subscribed id d ↔ d ∈ (w.watcher id).dependencies := by
  constructor
  · rintro (hd | ⟨e, halive, hparent, -⟩)
    · exact hd
    · exact absurd (hparent ▸ h.slot_of_alive halive) hslot
  · exact .inl

/-- In its own evaluation it is subscribed to what that has read, and to
what it had read before. -/
theorem subscribed_iff_of_alive (h : Tracked w) (halive : (w.evaluation e).alive = true)
    (hparent : (w.evaluation e).parent = .watcher id) (d : DependencyId) :
    w.Subscribed id d ↔ d ∈ (w.evaluation e).previous ∨ d ∈ (w.evaluation e).current := by
  constructor
  · rintro (hd | ⟨e', halive', -, hd⟩)
    · rw [h.idle (hparent ▸ h.slot_of_alive halive)] at hd
      exact absurd hd List.not_mem_nil
    · rwa [h.alive_unique halive halive']
  · exact fun hd => .inr ⟨e, halive, hparent, hd⟩

/-- Only the evaluation that has the slot is alive. -/
theorem not_alive (h : Tracked w) (hslot : w.slot = none) (e : EvaluationId) :
    ¬ (w.evaluation e).alive = true := fun halive => by
  have := h.slot_of_alive halive
  rw [hslot] at this
  cases this

theorem entries_le_one (h : Tracked w) (id : WatcherId) (d : DependencyId) :
    w.entries id d ≤ 1 := by
  by_cases hs : w.Subscribed id d
  · exact Nat.le_of_eq (h.once hs)
  · rw [h.never hs]
    exact Nat.zero_le 1

end Tracked

/-- A watcher that is being evaluated is there. -/
theorem Covered.lt_of_slot (h : Covered w) (hslot : w.slot = some (.watcher id)) :
    id < w.watchers.length := by
  have := h.covered id
  rw [pinned_self hslot, surplus] at this
  exact lt_of_handles (by omega)

/-- The dead are subscribed to nothing. -/
theorem Ledger.not_subscribed_of_dead (h : Ledger w) (hid : (w.watcher id).handles = 0)
    (d : DependencyId) : ¬ w.Subscribed id d := by
  rintro (hd | ⟨e, halive, hparent, -⟩)
  · rw [h.dead hid] at hd
    exact absurd hd List.not_mem_nil
  · have hslot := h.slot_of_alive halive
    rw [hparent] at hslot
    have := h.covered id
    rw [pinned_self hslot, surplus, hid] at this
    omega

/-! ## Changes that leave the records alone -/

/-- What both records consist of is the same. -/
structure Unmoved (w w' : World) : Prop where
  slot : w'.slot = w.slot
  alive : ∀ e, (w'.evaluation e).alive = (w.evaluation e).alive
  parent : ∀ e, (w'.evaluation e).parent = (w.evaluation e).parent
  previous : ∀ e, (w'.evaluation e).previous = (w.evaluation e).previous
  current : ∀ e, (w'.evaluation e).current = (w.evaluation e).current
  dependencies : ∀ id, (w'.watcher id).dependencies = (w.watcher id).dependencies
  entries : ∀ id d, w'.entries id d = w.entries id d

theorem Unmoved.subscribed (h : Unmoved w w') (id : WatcherId) (d : DependencyId) :
    w'.Subscribed id d ↔ w.Subscribed id d := by
  simp only [Subscribed, h.dependencies, h.alive, h.parent, h.previous, h.current]

theorem Tracked.unmoved (h : Tracked w) (hw : Unmoved w w') (howned : w'.graph.Owned) :
    Tracked w' where
  owned := howned
  slot_of_alive halive := by
    rw [hw.alive] at halive
    rw [hw.slot, hw.parent]
    exact h.slot_of_alive halive
  alive_unique halive halive' := by
    rw [hw.alive] at halive halive'
    exact h.alive_unique halive halive'
  idle hslot := by
    rw [hw.slot] at hslot
    rw [hw.dependencies]
    exact h.idle hslot
  once hs := (hw.entries _ _).trans (h.once ((hw.subscribed _ _).1 hs))
  never hs := (hw.entries _ _).trans (h.never fun h => hs ((hw.subscribed _ _).2 h))

theorem Unmoved.of_sameTracking (h : SameTracking w w') : Unmoved w w' where
  slot := h.slot
  alive e := by rw [h.evaluation]
  parent e := by rw [h.evaluation]
  previous e := by rw [h.evaluation]
  current e := by rw [h.evaluation]
  dependencies id := by rw [h.watcher]
  entries id d := by rw [World.entries, World.entries, h.graph]

/-- A change of the graph that keeps the places of watchers. -/
theorem Unmoved.onGraph (w : World) {change : Graph → Graph}
    (h : ∀ id d, ((change w.graph).subscribersOf d).count (.watcher id) = w.entries id d) :
    Unmoved w (w.onGraph change) :=
  ⟨rfl, fun _ => rfl, fun _ => rfl, fun _ => rfl, fun _ => rfl, fun _ => rfl, h⟩

/-- A change of a watcher other than of its dependency set. -/
theorem Unmoved.onWatcher (w : World) (id : WatcherId) {change : Watcher → Watcher}
    (h : (change (w.watcher id)).dependencies = (w.watcher id).dependencies) :
    Unmoved w (w.onWatcher id change) :=
  ⟨rfl, fun _ => rfl, fun _ => rfl, fun _ => rfl, fun _ => rfl,
    fun other => field_onWatcher w id other Watcher.dependencies h, fun _ _ => rfl⟩

theorem Unmoved.onNames (w : World) (change : Names → Names) : Unmoved w (w.onNames change) :=
  ⟨rfl, fun _ => rfl, fun _ => rfl, fun _ => rfl, fun _ => rfl, fun _ => rfl, fun _ _ => rfl⟩

/-- A change of the handles on an evaluation. -/
theorem Unmoved.onEvaluation (w : World) (e : EvaluationId) (handles : Evaluation → Nat) :
    Unmoved w (w.onEvaluation e fun evaluation =>
      { evaluation with handles := handles evaluation }) where
  slot := rfl
  alive other := field_onEvaluation w e other Evaluation.alive rfl
  parent other := field_onEvaluation w e other Evaluation.parent rfl
  previous other := field_onEvaluation w e other Evaluation.previous rfl
  current other := field_onEvaluation w e other Evaluation.current rfl
  dependencies _ := rfl
  entries _ _ := rfl

theorem Unmoved.addWatcher (h : Covered w) (data : ObjectId) (path : Path)
    (reaction : Reaction) : Unmoved w (w.addWatcher data path reaction) where
  slot := rfl
  alive _ := rfl
  parent _ := rfl
  previous _ := rfl
  current _ := rfl
  dependencies id := by
    rw [watcher_addWatcher]
    split
    · rename_i hid
      have hnone : w.watcher id = _ := watcher_eq_default (Nat.le_of_eq hid.symm)
      exact (h.dead (by rw [hnone])).symm
    · rfl
  entries _ _ := rfl

end DataBinding.World
