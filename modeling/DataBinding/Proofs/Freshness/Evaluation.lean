import DataBinding.Proofs.Freshness.Stale

/-!
# One evaluation of a watcher

The state that evaluating a watcher comes to, as a function of the cells
that were looked at (`evaluated`). Nothing but the dependency set of the
watcher is different for the watchers, and it consists of the
dependencies of those cells; so the value that was found is grounded on
it, and a watcher that remembers it is up to date.
-/

namespace DataBinding

open World

namespace World

variable {w : World} {x y : WatcherId} {e : EvaluationId} {cells : List Cell}

/-! ## What was read -/

theorem mem_current_track (he : e < w.evaluations.length) (d other : DependencyId) :
    other ∈ ((w.track e d).evaluation e).current ↔
      other ∈ (w.evaluation e).current ∨ other = d := by
  by_cases hcurrent : d ∈ (w.evaluation e).current
  · rw [track_of_read hcurrent]
    refine ⟨.inl, fun h => h.elim id fun heq => heq ▸ hcurrent⟩
  · have hread : ((w.onEvaluation e (·.read d)).evaluation e).current =
        (w.evaluation e).current ++ [d] := by
      rw [evaluation_onEvaluation, if_pos ⟨rfl, he⟩]
      rfl
    by_cases hprevious : d ∈ (w.evaluation e).previous
    · rw [track_of_previous hcurrent hprevious, hread, List.mem_append, List.mem_singleton]
    · rw [track_of_new hcurrent hprevious]
      exact (iff_of_eq (congrArg (other ∈ ·) hread)).trans (by simp)

theorem mem_current_foldl_track (ds : List DependencyId) {w : World}
    (he : e < w.evaluations.length) (d : DependencyId) :
    d ∈ ((ds.foldl (fun w d => w.track e d) w).evaluation e).current ↔
      d ∈ (w.evaluation e).current ∨ d ∈ ds := by
  induction ds generalizing w with
  | nil => simp
  | cons first ds ih =>
      have hlength := (track_frame w e first).2.2.2.2
      rw [List.foldl_cons, ih (hlength.symm ▸ he), mem_current_track he, List.mem_cons, or_assoc]

/-- What tracking some cells leaves as it is. -/
theorem trackCells_frame (w : World) (tracker : Option EvaluationId) (cells : List Cell) :
    (w.trackCells tracker cells).slot = w.slot ∧
      (w.trackCells tracker cells).watchers = w.watchers := by
  cases tracker with
  | none => exact ⟨rfl, rfl⟩
  | some e =>
      simp only [trackCells]
      generalize w.dependenciesOf cells = ds
      induction ds generalizing w with
      | nil => exact ⟨rfl, rfl⟩
      | cons d ds ih =>
          obtain ⟨hslot, hwatchers, -⟩ := track_frame w e d
          exact ⟨(ih _).1.trans hslot, (ih _).2.trans hwatchers⟩

/-! ## Begun and over -/

/-- The state in which a watcher reads. -/
def begun (w : World) (x : WatcherId) : World :=
  ({ w with
    slot := some (.watcher x)
    evaluations :=
      w.evaluations ++ [⟨.watcher x, (w.watcher x).dependencies, [], true, 1⟩] } : World).onWatcher
    x fun watcher => { watcher with dependencies := [] }

/-- The state after it has looked at some cells. -/
def evaluated (w : World) (x : WatcherId) (cells : List Cell) : World :=
  ((w.begun x).trackCells (some w.nextEvaluation) cells).endWatcher x w.nextEvaluation

theorem beginWatcher_of_free (h : w.slot = none) : w.beginWatcher x = .ok (w.begun x) := by
  simp [beginWatcher, enter, isEvaluating, h, Except.map, begun]

theorem objects_evaluated (w : World) (x : WatcherId) (cells : List Cell) :
    (w.evaluated x cells).graph.objects = w.graph.objects :=
  (Graph.objects_unregisterAll _ _ _).trans (objects_trackCells _ _ _)

theorem length_evaluated (w : World) (x : WatcherId) (cells : List Cell) :
    (w.evaluated x cells).watchers.length = w.watchers.length := by
  refine (List.length_modify ..).trans ?_
  show (World.trackCells _ _ _).watchers.length = _
  rw [(trackCells_frame _ _ cells).2]
  exact List.length_modify ..

theorem watcher_evaluated_of_ne (h : y ≠ x) (w : World) (cells : List Cell) :
    (w.evaluated x cells).watcher y = w.watcher y := by
  refine (watcher_of_ne h _ _).trans ?_
  show watcher (World.trackCells _ _ _) y = _
  rw [watcher, (trackCells_frame _ _ cells).2]
  exact watcher_of_ne h _ _

/-- The evaluated watcher depends on what it has looked at. -/
theorem watcher_evaluated (h : x < w.watchers.length) (cells : List Cell) :
    ∃ ds, (w.evaluated x cells).watcher x = { w.watcher x with dependencies := ds } ∧
      ∀ d, d ∈ ds ↔ d ∈ w.dependenciesOf cells := by
  let last := (w.begun x).trackCells (some w.nextEvaluation) cells
  have hwatchers : last.watchers = (w.begun x).watchers := (trackCells_frame _ _ _).2
  have hlength : x < last.watchers.length := by
    rw [hwatchers]
    exact (List.length_modify ..).symm ▸ h
  have hwatcher : last.watcher x = { w.watcher x with dependencies := [] } := by
    rw [watcher, hwatchers]
    exact watcher_onWatcher_self h _
  have hcurrent : ((w.begun x).evaluation w.nextEvaluation).current = [] :=
    congrArg Evaluation.current
      ((evaluation_append w _ (some (.watcher x)) w.nextEvaluation).trans (if_pos rfl))
  refine ⟨(last.evaluation w.nextEvaluation).current, ?_, fun d => ?_⟩
  · refine (watcher_onWatcher_self hlength _).trans ?_
    exact congrArg (fun watcher : Watcher =>
      { watcher with dependencies := (last.evaluation w.nextEvaluation).current }) hwatcher
  · have he : w.nextEvaluation < (w.begun x).evaluations.length := by
      simp [begun, World.onWatcher, nextEvaluation]
    refine (mem_current_foldl_track _ he d).trans ?_
    rw [hcurrent]
    simp [dependenciesOf, begun, World.onWatcher]

/-! ## What an evaluation settles -/

/-- Another watcher does not become stale in it. -/
theorem Stale.of_evaluated (h : (w.evaluated x cells).Stale y) (hne : y ≠ x) : w.Stale y := by
  have hsame := watcher_evaluated_of_ne hne w cells
  exact h.of_sameButHandles ⟨hsame ▸ h.1, _, hsame⟩
    fun _ hv => hv.of_objects (objects_evaluated w x cells)

/-- A value is grounded on the dependencies of the cells that were looked
at for it, if they are reactive. -/
theorem grounded_of_reads {q : Query} {ds : List DependencyId} {v : Value}
    (hyields : w.graph.Yields q [v] cells) (hds : ∀ d ∈ w.dependenciesOf cells, d ∈ ds)
    (hreactive : ∀ c ∈ cells, w.graph.Reactive c.1) : w.graph.Grounded q ds v := by
  refine ⟨cells, hyields, fun c hc u hu => ?_⟩
  obtain ⟨property, hslot, -⟩ := Graph.slot?_of_content hu
  obtain ⟨d, hd⟩ := Option.isSome_iff_exists.1 (hreactive c hc _ _ hslot)
  have hdependency : w.graph.dependency? c.1 c.2 = some d := by
    rw [Graph.dependency?, hslot]
    exact hd
  exact ⟨d, hds d (List.mem_filterMap.2 ⟨c, hc, hdependency⟩), hdependency⟩

/-- The value that was found is grounded on what was read for it. -/
theorem grounded_evaluated {v : Value} (hx : x < w.watchers.length)
    (hyields : w.graph.Yields (w.watcher x).query [v] cells)
    (hreactive : ∀ c ∈ cells, w.graph.Reactive c.1) :
    ((w.evaluated x cells).graph).Grounded (w.watcher x).query
      ((w.evaluated x cells).watcher x).dependencies v := by
  obtain ⟨ds, hwatcher, hds⟩ := watcher_evaluated hx cells
  rw [hwatcher]
  have hgrounded : w.graph.Grounded (w.watcher x).query ds v :=
    grounded_of_reads hyields (fun d hd => (hds d).2 hd) hreactive
  exact hgrounded.of_objects (objects_evaluated w x cells)

/-- The state in which a new value is remembered. -/
def remembered (w : World) (x : WatcherId) (cells : List Cell) (v : Value) : World :=
  (w.evaluated x cells).onWatcher x fun watcher => { watcher with value := v }

/-- A watcher that has remembered the value of its evaluation is up to
date, and nobody else has become stale. -/
theorem fresh_remembered {v : Value} (hx : x < w.watchers.length)
    (hyields : w.graph.Yields (w.watcher x).query [v] cells)
    (hreactive : ∀ c ∈ cells, w.graph.Reactive c.1) :
    (w.remembered x cells v).UpToDate x ∧
      ∀ y, y ≠ x → (w.remembered x cells v).Stale y → w.Stale y := by
  obtain ⟨ds, hwatcher, -⟩ := watcher_evaluated hx cells
  have hlength : x < (w.evaluated x cells).watchers.length := length_evaluated w x cells ▸ hx
  have hself : (w.remembered x cells v).watcher x = { w.watcher x with dependencies := ds, value := v } := by
    refine (watcher_onWatcher_self hlength _).trans ?_
    rw [hwatcher]
  have hgrounded := grounded_evaluated hx hyields hreactive
  rw [hwatcher] at hgrounded
  refine ⟨⟨v, ?_, ?_⟩, fun y hne hy => ?_⟩
  · rw [hself]
    exact hgrounded
  · rw [hself]
    exact .refl v
  · have hother : (w.remembered x cells v).watcher y = (w.evaluated x cells).watcher y := watcher_of_ne hne _ _
    refine Stale.of_evaluated (hy.of_sameButHandles ⟨hother ▸ hy.1, _, hother⟩ fun _ hv => hv) hne

end World

/-- Evaluating a watcher comes to the value that its path yields. -/
theorem passes_evaluateWatcher {w : World} {x : WatcherId} {v : Value} {cells : List Cell}
    (hslot : w.slot = none) (hyields : w.graph.Yields (w.watcher x).query [v] cells) :
    ∃ calls, Silent calls ∧
      Passes ⟨w, evaluateWatcher x⟩ calls ⟨w.evaluated x cells, .done (.ok v)⟩ := by
  obtain ⟨u, hu, calls, hsilent, hpasses⟩ :=
    hyields.comes (some w.nextEvaluation) (w := w.begun x) fun _ => rfl
  cases hu
  refine ⟨calls, hsilent, .bind_nil .state ?_⟩
  rw [beginWatcher_of_free hslot]
  refine .bind_nil (.modify _) ?_
  have hrest : Passes ⟨w.begun x, DataBinding.walk (some w.nextEvaluation)
      (.object (w.watcher x).data) (w.watcher x).path.segments >>= fun value => do
        Proc.modify (·.endWatcher x w.nextEvaluation)
        pure (.ok value : Except Error Value)⟩ (calls ++ [])
      ⟨w.evaluated x cells, .done (.ok v)⟩ :=
    .bind hpasses (.bind_nil (.modify _) (.here _))
  rwa [List.append_nil] at hrest

/-- An update that finds the value that is remembered. -/
theorem passes_updateWatcher_same {w : World} {x : WatcherId} {v : Value} {cells : List Cell}
    (hslot : w.slot = none) (hx : x < w.watchers.length)
    (hdisposed : (w.watcher x).disposed = false)
    (hyields : w.graph.Yields (w.watcher x).query [v] cells)
    (hsame : (w.watcher x).value.same v = true) :
    ∃ calls, Silent calls ∧
      Passes ⟨w, updateWatcher x⟩ calls ⟨w.evaluated x cells, .done (.ok false)⟩ := by
  obtain ⟨calls, hsilent, hevaluate⟩ := passes_evaluateWatcher hslot hyields
  obtain ⟨ds, hwatcher, -⟩ := watcher_evaluated hx cells
  refine ⟨calls ++ [], hsilent.append .nil, .bind_nil (.ask _) ?_⟩
  rw [hdisposed]
  refine .bind hevaluate (.bind_nil (.ask _) ?_)
  rw [hwatcher, if_pos hsame]
  exact .here _

end DataBinding
