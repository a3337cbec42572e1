import DataBinding.Proofs.Subscription.Ledger

/-!
# What moves subscriptions

The changes that move a watcher between subscriber lists, dependency sets
and evaluations: tracking a dependency, beginning and ending an
evaluation, and unsubscribing. Each of them is followed through both
records, so that they agree again afterwards.
-/

namespace DataBinding

/-- An evaluation that has read one more dependency. -/
def Evaluation.read (evaluation : Evaluation) (d : DependencyId) : Evaluation :=
  { evaluation with current := evaluation.current ++ [d] }

namespace World

variable {w w' : World} {id : WatcherId} {e : EvaluationId}

/-! ## Tracking -/

theorem track_of_read {d : DependencyId} (h : d ∈ (w.evaluation e).current) :
    w.track e d = w := by
  simp [track, h]

theorem track_of_previous {d : DependencyId} (h : d ∉ (w.evaluation e).current)
    (hprevious : d ∈ (w.evaluation e).previous) :
    w.track e d = w.onEvaluation e (·.read d) := by
  simp [track, h, hprevious, Evaluation.read]

theorem track_of_new {d : DependencyId} (h : d ∉ (w.evaluation e).current)
    (hprevious : d ∉ (w.evaluation e).previous) :
    w.track e d =
      (w.onEvaluation e (·.read d)).onGraph (·.register d (w.evaluation e).parent) := by
  simp [track, h, hprevious, Evaluation.read]

theorem subscribed_read (w : World) (e : EvaluationId) (d other : DependencyId)
    (id : WatcherId) :
    (w.onEvaluation e (·.read d)).Subscribed id other ↔ w.Subscribed id other ∨
      other = d ∧ (w.evaluation e).alive = true ∧ (w.evaluation e).parent = .watcher id := by
  constructor
  · rintro (hd | ⟨e', halive, hparent, hd⟩)
    · exact .inl (.inl hd)
    · rw [evaluation_onEvaluation] at halive hparent hd
      split at hd
      · rename_i hsame
        rw [if_pos hsame] at halive hparent
        rcases hd with hd | hd
        · exact .inl (.inr ⟨e, halive, hparent, .inl hd⟩)
        · rcases List.mem_append.1 hd with hd | hd
          · exact .inl (.inr ⟨e, halive, hparent, .inr hd⟩)
          · exact .inr ⟨List.mem_singleton.1 hd, halive, hparent⟩
      · rename_i hsame
        rw [if_neg hsame] at halive hparent
        exact .inl (.inr ⟨e', halive, hparent, hd⟩)
  · rintro ((hd | ⟨e', halive, hparent, hd⟩) | ⟨rfl, halive, hparent⟩)
    · exact .inl hd
    · refine .inr ⟨e', ?_, ?_, ?_⟩
      · rwa [field_onEvaluation w e e' Evaluation.alive rfl]
      · rwa [field_onEvaluation w e e' Evaluation.parent rfl]
      · rw [field_onEvaluation w e e' Evaluation.previous rfl, evaluation_onEvaluation]
        refine hd.imp_right fun hd => ?_
        split
        · rename_i hsame
          exact List.mem_append_left _ (hsame.1 ▸ hd)
        · exact hd
    · refine .inr ⟨e, ?_, ?_, .inr ?_⟩
      · rwa [field_onEvaluation w e e Evaluation.alive rfl]
      · rwa [field_onEvaluation w e e Evaluation.parent rfl]
      · rw [evaluation_onEvaluation, if_pos ⟨rfl, lt_of_alive halive⟩]
        exact List.mem_append_right _ (List.mem_singleton.2 rfl)

/-- An evaluation has read what it had not read, and its subscriber has a new
entry for it unless there was one from before. -/
structure Records (w : World) (e : EvaluationId) (d : DependencyId) (w' : World) : Prop where
  unread : d ∉ (w.evaluation e).current
  owned : w'.graph.Owned
  slot : w'.slot = w.slot
  watcher : ∀ id, w'.watcher id = w.watcher id
  evaluation : ∀ other, w'.evaluation other = (w.onEvaluation e (·.read d)).evaluation other
  entries : ∀ id other, w'.entries id other = w.entries id other +
    if other = d ∧ (w.evaluation e).parent = .watcher id ∧ d ∉ (w.evaluation e).previous
      then 1 else 0

theorem records_of_previous {d : DependencyId} (howned : w.graph.Owned)
    (h : d ∉ (w.evaluation e).current) (hprevious : d ∈ (w.evaluation e).previous) :
    Records w e d (w.track e d) := by
  rw [track_of_previous h hprevious]
  refine ⟨h, howned, rfl, fun _ => rfl, fun _ => rfl, fun id other => ?_⟩
  rw [if_neg fun hall => hall.2.2 hprevious]
  rfl

theorem records_of_new {d : Nat} (howned : w.graph.Owned) (hd : d < w.graph.subscribers.length)
    (h : d ∉ (w.evaluation e).current) (hprevious : d ∉ (w.evaluation e).previous) :
    Records w e d (w.track e d) := by
  rw [track_of_new h hprevious]
  refine ⟨h, howned.subscribers (by simp [onEvaluation]), rfl, fun _ => rfl, fun _ => rfl,
    fun id other => ?_⟩
  refine (Graph.count_register w.graph hd _ _ other).trans ?_
  simp only [hprevious, not_false_eq_true, and_true, eq_comm]
  rfl

namespace Records

variable {d : DependencyId}

theorem alive (h : Records w e d w') (other : EvaluationId) :
    (w'.evaluation other).alive = (w.evaluation other).alive := by
  rw [h.evaluation, field_onEvaluation w e other Evaluation.alive rfl]

theorem parent (h : Records w e d w') (other : EvaluationId) :
    (w'.evaluation other).parent = (w.evaluation other).parent := by
  rw [h.evaluation, field_onEvaluation w e other Evaluation.parent rfl]

theorem subscribed (h : Records w e d w') (id : WatcherId) (other : DependencyId) :
    w'.Subscribed id other ↔ w.Subscribed id other ∨
      other = d ∧ (w.evaluation e).alive = true ∧ (w.evaluation e).parent = .watcher id := by
  rw [← subscribed_read w e d other id]
  simp only [Subscribed, h.watcher, h.evaluation]
  rfl

end Records

/-- An evaluation that may read is alive if it is that of a watcher. -/
theorem alive_of_watcher (h : (∃ client, (w.evaluation e).parent = .client client) ∨
      (w.evaluation e).alive = true) (hparent : (w.evaluation e).parent = .watcher id) :
    (w.evaluation e).alive = true := by
  refine h.resolve_left ?_
  rintro ⟨client, hclient⟩
  cases hparent.symm.trans hclient

theorem Tracked.read (h : Tracked w) {d : DependencyId} (hrecords : Records w e d w')
    (htracks : (∃ client, (w.evaluation e).parent = .client client) ∨
      (w.evaluation e).alive = true) : Tracked w' := by
  refine ⟨hrecords.owned, ?_, ?_, ?_, ?_, ?_⟩
  · intro other hother
    rw [hrecords.alive] at hother
    rw [hrecords.slot, hrecords.parent]
    exact h.slot_of_alive hother
  · intro other other' hother hother'
    rw [hrecords.alive] at hother hother'
    exact h.alive_unique hother hother'
  · intro id hid
    rw [hrecords.slot] at hid
    rw [hrecords.watcher]
    exact h.idle hid
  · intro id other hs
    rw [hrecords.entries]
    by_cases hnew : other = d ∧ (w.evaluation e).parent = .watcher id
    · obtain ⟨rfl, hparent⟩ := hnew
      have hiff := h.subscribed_iff_of_alive (alive_of_watcher htracks hparent) hparent other
      by_cases hprevious : other ∈ (w.evaluation e).previous
      · rw [if_neg fun hall => hall.2.2 hprevious]
        exact h.once (hiff.2 (.inl hprevious))
      · rw [if_pos ⟨rfl, hparent, hprevious⟩, h.never fun hold => ?_]
        exact (hiff.1 hold).elim hprevious hrecords.unread
    · rw [if_neg fun hall => hnew ⟨hall.1, hall.2.1⟩]
      refine h.once (((hrecords.subscribed id other).1 hs).resolve_right fun hread => ?_)
      exact hnew ⟨hread.1, hread.2.2⟩
  · intro id other hs
    rw [hrecords.subscribed, not_or] at hs
    rw [hrecords.entries, h.never hs.1, if_neg fun hall => ?_]
    exact hs.2 ⟨hall.1, alive_of_watcher htracks hall.2.1, hall.2.1⟩

theorem Tracked.track (h : Tracked w) {d : Nat} (hd : d < w.graph.subscribers.length)
    (htracks : (∃ client, (w.evaluation e).parent = .client client) ∨
      (w.evaluation e).alive = true) : Tracked (w.track e d) := by
  by_cases hread : d ∈ (w.evaluation e).current
  · rwa [track_of_read hread]
  · by_cases hprevious : d ∈ (w.evaluation e).previous
    · exact h.read (records_of_previous h.owned hread hprevious) htracks
    · exact h.read (records_of_new h.owned hd hread hprevious) htracks

/-! ## Beginning an evaluation -/

theorem enter_eq_ok {s : SubscriberId} {previous : List DependencyId}
    (h : w.enter s previous = .ok w') :
    w.slot = none ∧ w' = { w with
      slot := some s
      evaluations := w.evaluations ++ [⟨s, previous, [], true, 1⟩] } := by
  unfold enter isEvaluating at h
  cases hslot : w.slot with
  | some occupant => simp [hslot] at h
  | none =>
      simp only [hslot, Option.isSome_none, Bool.false_eq_true, if_false, Except.ok.injEq] at h
      exact ⟨rfl, h.symm⟩

/-- While an evaluation is running none begins. -/
theorem enter_of_isEvaluating (h : w.isEvaluating = true) (s : SubscriberId)
    (previous : List DependencyId) : w.enter s previous = .error .reentrantEvaluation :=
  if_pos h

theorem beginWatcher_of_isEvaluating (h : w.isEvaluating = true) (id : WatcherId) :
    w.beginWatcher id = .error .reentrantEvaluation := by
  rw [beginWatcher, enter_of_isEvaluating h]
  rfl

theorem beginWatcher_eq_ok (h : w.beginWatcher id = .ok w') :
    ∃ entered, w.enter (.watcher id) (w.watcher id).dependencies = .ok entered ∧
      w' = entered.onWatcher id fun watcher => { watcher with dependencies := [] } := by
  unfold beginWatcher at h
  cases hentered : w.enter (.watcher id) (w.watcher id).dependencies with
  | error error => simp [hentered, Except.map] at h
  | ok entered =>
      simp only [hentered, Except.map, Except.ok.injEq] at h
      exact ⟨entered, rfl, h.symm⟩

/-- An evaluation is refused only while another one is running. -/
theorem slot_ne_of_beginWatcher {error : Error} (h : w.beginWatcher id = .error error) :
    w.slot ≠ none := by
  intro hfree
  simp [beginWatcher, World.enter, isEvaluating, hfree, Except.map] at h

/-- A watcher has begun its evaluation, and nothing else has happened. -/
structure Begun (w : World) (id : WatcherId) (w' : World) : Prop where
  free : w.slot = none
  slot : w'.slot = some (.watcher id)
  length : w'.evaluations.length = w.evaluations.length + 1
  evaluation : w'.evaluation w.nextEvaluation =
    ⟨.watcher id, (w.watcher id).dependencies, [], true, 1⟩
  older : ∀ {e}, e ≠ w.nextEvaluation → w'.evaluation e = w.evaluation e
  watchers : w'.watchers.length = w.watchers.length
  watcher : w'.watcher id = { w.watcher id with dependencies := [] }
  others : ∀ {other}, other ≠ id → w'.watcher other = w.watcher other
  graph : w'.graph = w.graph
  names : w'.names = w.names
  views : w'.views = w.views

theorem begun_of_beginWatcher (h : w.beginWatcher id = .ok w') : Begun w id w' := by
  obtain ⟨entered, hentered, rfl⟩ := beginWatcher_eq_ok h
  obtain ⟨hslot, rfl⟩ := enter_eq_ok hentered
  have hevaluation := evaluation_append w ⟨.watcher id, (w.watcher id).dependencies, [], true, 1⟩
    (some (.watcher id))
  exact {
    free := hslot
    slot := rfl
    length := by simp [World.onWatcher]
    evaluation := (hevaluation _).trans (if_pos rfl)
    older := fun he => (hevaluation _).trans (if_neg he)
    watchers := List.length_modify ..
    watcher := watcher_clear _ id
    others := fun hother => watcher_of_ne hother _ _
    graph := rfl
    names := rfl
    views := rfl }

/-- A subscriber that begins an evaluation takes its dependency set with
it. -/
theorem Tracked.entered (h : Tracked w) (hslot : w.slot = none) {s : SubscriberId}
    {previous : List DependencyId} (hgraph : w'.graph = w.graph) (hslot' : w'.slot = some s)
    (hevaluation : ∀ other, w'.evaluation other =
      if other = w.nextEvaluation then ⟨s, previous, [], true, 1⟩ else w.evaluation other)
    (hother : ∀ id, s ≠ .watcher id →
      (w'.watcher id).dependencies = (w.watcher id).dependencies)
    (hself : ∀ id, s = .watcher id →
      (w'.watcher id).dependencies = [] ∧ previous = (w.watcher id).dependencies) :
    Tracked w' := by
  have halive : ∀ {other}, (w'.evaluation other).alive = true → other = w.nextEvaluation := by
    intro other hother
    by_cases hnext : other = w.nextEvaluation
    · exact hnext
    · rw [hevaluation, if_neg hnext] at hother
      exact absurd hother (h.not_alive hslot other)
  have hnext : w'.evaluation w.nextEvaluation = ⟨s, previous, [], true, 1⟩ := by
    rw [hevaluation, if_pos rfl]
  have hfree : ∀ id, w.slot ≠ some (.watcher id) := by simp [hslot]
  have hsubscribed : ∀ id d, w'.Subscribed id d ↔ w.Subscribed id d := by
    intro id d
    rw [h.subscribed_iff (hfree id)]
    by_cases hs : s = .watcher id
    · obtain ⟨hnone, rfl⟩ := hself id hs
      constructor
      · rintro (hd | ⟨other, hlive, -, hd⟩)
        · rw [hnone] at hd
          exact absurd hd List.not_mem_nil
        · rw [halive hlive, hnext] at hd
          exact hd.resolve_right List.not_mem_nil
      · refine fun hd => .inr ⟨w.nextEvaluation, ?_⟩
        rw [hnext]
        exact ⟨rfl, hs, .inl hd⟩
    · constructor
      · rintro (hd | ⟨other, hlive, hparent, -⟩)
        · rwa [hother id hs] at hd
        · rw [halive hlive, hnext] at hparent
          exact absurd hparent hs
      · exact fun hd => .inl (by rwa [hother id hs])
  have hentries : ∀ id d, w'.entries id d = w.entries id d := fun id d => by
    rw [entries, entries, hgraph]
  refine ⟨hgraph ▸ h.owned, ?_, ?_, ?_, ?_, ?_⟩
  · intro other hlive
    rw [hslot', halive hlive, hnext]
  · intro other other' hlive hlive'
    exact (halive hlive).trans (halive hlive').symm
  · intro id hid
    exact (hself id (Option.some.inj (hslot'.symm.trans hid))).1
  · intro id d hs
    rw [hentries]
    exact h.once ((hsubscribed id d).1 hs)
  · intro id d hs
    rw [hentries]
    exact h.never fun hold => hs ((hsubscribed id d).2 hold)

theorem Tracked.enterClient (h : Tracked w) {client : Nat} {previous : List DependencyId}
    (hw : w.enter (.client client) previous = .ok w') : Tracked w' := by
  obtain ⟨hslot, rfl⟩ := enter_eq_ok hw
  exact h.entered hslot rfl rfl (evaluation_append w _ _) (fun _ _ => rfl)
    (fun _ hs => by cases hs)

theorem Tracked.beginWatcher (h : Tracked w) (hw : w.beginWatcher id = .ok w') : Tracked w' := by
  have hbegun := begun_of_beginWatcher hw
  have hevaluation : ∀ other, w'.evaluation other = if other = w.nextEvaluation then
      ⟨.watcher id, (w.watcher id).dependencies, [], true, 1⟩ else w.evaluation other := by
    intro other
    split
    · rename_i hlast
      rw [hlast, hbegun.evaluation]
    · rename_i hold
      exact hbegun.older hold
  refine h.entered hbegun.free hbegun.graph hbegun.slot hevaluation (fun other hother => ?_)
    (fun other hother => ?_)
  · rw [hbegun.others fun heq => hother (by rw [heq])]
  · cases hother
    rw [hbegun.watcher]
    exact ⟨rfl, rfl⟩

/-! ## Ending an evaluation -/

/-- Outside its own evaluation a watcher is once in the lists of its
dependency set, and in no other. -/
theorem Tracked.entries_eq (h : Tracked w) (hslot : w.slot ≠ some (.watcher id))
    (d : DependencyId) :
    w.entries id d = if d ∈ (w.watcher id).dependencies then 1 else 0 := by
  split
  · rename_i hd
    exact h.once (.inl hd)
  · rename_i hd
    exact h.never fun hs => hd ((h.subscribed_iff hslot d).1 hs)

/-- Without an evaluation that is all there is to it. -/
theorem Tracked.of_entries (howned : w.graph.Owned) (hslot : w.slot = none)
    (halive : ∀ e, ¬ (w.evaluation e).alive = true)
    (hentries : ∀ id d, w.entries id d = if d ∈ (w.watcher id).dependencies then 1 else 0) :
    Tracked w where
  owned := howned
  slot_of_alive hlive := absurd hlive (halive _)
  alive_unique hlive := absurd hlive (halive _)
  idle hid := by simp [hslot] at hid
  once hs := by
    rcases hs with hd | ⟨e, hlive, -⟩
    · rw [hentries, if_pos hd]
    · exact absurd hlive (halive e)
  never hs := by
    rw [hentries, if_neg fun hd => hs (.inl hd)]

/-- After the evaluation that has the slot was closed none is alive. -/
theorem Tracked.not_alive_close (h : Tracked w) (halive : (w.evaluation e).alive = true)
    (hw : ∀ other, w'.evaluation other = (w.close e).evaluation other) (other : EvaluationId) :
    ¬ (w'.evaluation other).alive = true := by
  rw [hw]
  show ¬ ((w.onEvaluation e _).evaluation other).alive = true
  rw [evaluation_onEvaluation]
  split
  · simp
  · rename_i hother
    exact fun hlive => hother ⟨h.alive_unique hlive halive, lt_of_alive halive⟩

/-- Closing an evaluation of client code, whatever it was registered
with. -/
theorem Tracked.closeClient (h : Tracked w) (halive : (w.evaluation e).alive = true)
    {client : Nat} (hclient : (w.evaluation e).parent = .client client)
    (ds : List DependencyId) :
    Tracked ((w.onGraph (·.unregisterAll ds (.client client))).close e) := by
  have hslot : ∀ id, w.slot ≠ some (.watcher id) := fun id hid => by
    have := h.slot_of_alive halive
    rw [hid, hclient] at this
    cases this
  refine .of_entries ?_ rfl (h.not_alive_close halive fun _ => rfl) fun id d => ?_
  · refine h.owned.mono (Nat.le_of_eq (Graph.length_unregisterAll _ _ _).symm) fun hd => ?_
    simpa [Graph.dependency?, Graph.slot?, Graph.slots, close, World.onGraph, onEvaluation] using hd
  · refine Eq.trans ?_ (h.entries_eq (hslot id) d)
    exact (Graph.count_unregisterAll _ _ _ _ _).trans (if_neg fun hall => by cases hall.2)

/-- A watcher has ended its evaluation, and nothing else has happened but to
subscriber lists. -/
structure Ended (w : World) (id : WatcherId) (e : EvaluationId) (w' : World) : Prop where
  slot : w'.slot = none
  length : w'.evaluations.length = w.evaluations.length
  older : ∀ {other}, other ≠ e → w'.evaluation other = w.evaluation other
  parent : ∀ other, (w'.evaluation other).parent = (w.evaluation other).parent
  evaluationHandles : ∀ other, (w'.evaluation other).handles = (w.evaluation other).handles
  watchers : w'.watchers.length = w.watchers.length
  others : ∀ {other}, other ≠ id → w'.watcher other = w.watcher other
  handles : ∀ other, (w'.watcher other).handles = (w.watcher other).handles
  names : w'.names = w.names
  views : w'.views = w.views

theorem ended_endWatcher (w : World) (id : WatcherId) (e : EvaluationId) :
    Ended w id e (w.endWatcher id e) where
  slot := rfl
  length := List.length_modify ..
  older {other} hother := (evaluation_onEvaluation w e other _).trans
    (if_neg fun hall => hother hall.1)
  parent other := field_onEvaluation w e other Evaluation.parent rfl
  evaluationHandles other := field_onEvaluation w e other Evaluation.handles rfl
  watchers := List.length_modify ..
  others hother := watcher_of_ne hother _ _
  handles other := field_onWatcher (w.finish e) id other Watcher.handles rfl
  names := rfl
  views := rfl

/-- A watcher that ends its evaluation is subscribed to what that has
read. -/
theorem Tracked.endWatcher (h : Tracked w) (hid : id < w.watchers.length)
    (halive : (w.evaluation e).alive = true)
    (hparent : (w.evaluation e).parent = .watcher id) : Tracked (w.endWatcher id e) := by
  refine .of_entries ?_ rfl (h.not_alive_close halive fun _ => rfl) fun other d => ?_
  · refine h.owned.mono (Nat.le_of_eq (Graph.length_unregisterAll _ _ _).symm) fun hd => ?_
    simpa [Graph.dependency?, Graph.slot?, Graph.slots, World.endWatcher, World.finish, close,
      World.onGraph, onEvaluation, World.onWatcher] using hd
  · have hentries : (w.endWatcher id e).entries other d =
        if d ∈ w.stale e ∧ SubscriberId.watcher other = .watcher id then 0
        else w.entries other d :=
      hparent ▸ Graph.count_unregisterAll w.graph (w.stale e) (w.evaluation e).parent _ d
    have hwatcher : (w.endWatcher id e).watcher other =
        if other = id then { w.watcher id with dependencies := (w.evaluation e).current }
        else w.watcher other := by
      refine (watcher_onWatcher (w.finish e) id other _).trans ?_
      by_cases hother : other = id
      · rw [if_pos ⟨hother, hid⟩, if_pos hother]
        rfl
      · rw [if_neg fun hall => hother hall.1, if_neg hother]
        rfl
    have hslot := h.slot_of_alive halive
    rw [hparent] at hslot
    rw [hentries, hwatcher]
    by_cases hother : other = id
    · subst hother
      have hiff := h.subscribed_iff_of_alive halive hparent d
      simp only [stale, List.mem_filter, decide_not, Bool.not_eq_eq_eq_not, Bool.not_true,
        decide_eq_false_iff_not, and_true, if_true]
      by_cases hcurrent : d ∈ (w.evaluation e).current
      · rw [if_neg fun hall => hall.2 hcurrent, if_pos hcurrent]
        exact h.once (hiff.2 (.inr hcurrent))
      · rw [if_neg hcurrent]
        split
        · rfl
        · rename_i hstale
          refine h.never fun hs => hstale ⟨?_, hcurrent⟩
          exact (hiff.1 hs).resolve_right hcurrent
    · rw [if_neg fun hall => hother (by cases hall.2; rfl), if_neg hother]
      refine h.entries_eq (fun hown => hother ?_) d
      rw [hslot] at hown
      cases hown
      rfl

/-! ## Unsubscribing -/

theorem entries_unsubscribe (w : World) (id other : WatcherId) (d : DependencyId) :
    (w.unsubscribe id).entries other d =
      if d ∈ (w.watcher id).dependencies ∧ other = id then 0 else w.entries other d := by
  refine (Graph.count_unregisterAll w.graph _ _ _ d).trans ?_
  simp only [SubscriberId.watcher.injEq]
  rfl

theorem Tracked.unsubscribe (h : Tracked w) (id : WatcherId) : Tracked (w.unsubscribe id) := by
  have howned : (w.unsubscribe id).graph.Owned := by
    refine h.owned.mono (Nat.le_of_eq (Graph.length_unregisterAll _ _ _).symm) fun hd => ?_
    simpa [Graph.dependency?, Graph.slot?, Graph.slots, World.unsubscribe, World.onGraph,
      World.onWatcher] using hd
  have hother : ∀ other d, other ≠ id → ((w.unsubscribe id).Subscribed other d ↔
      w.Subscribed other d) := fun other d hne => by
    rw [Subscribed, watcher_unsubscribe, if_neg hne]
    rfl
  refine ⟨howned, h.slot_of_alive, h.alive_unique, ?_, ?_, ?_⟩
  · intro other hslot
    rw [watcher_unsubscribe]
    split
    · rfl
    · exact h.idle hslot
  · intro other d hs
    rw [entries_unsubscribe]
    by_cases hsame : other = id
    · subst hsame
      rcases hs with hd | ⟨e, halive, hparent, hd⟩
      · rw [watcher_unsubscribe, if_pos rfl] at hd
        exact absurd hd List.not_mem_nil
      · have hidle : (w.watcher other).dependencies = [] := by
          refine h.idle ?_
          rw [← hparent]
          exact h.slot_of_alive halive
        rw [hidle, if_neg fun hall => List.not_mem_nil hall.1]
        exact h.once (.inr ⟨e, halive, hparent, hd⟩)
    · rw [if_neg fun hall => hsame hall.2]
      exact h.once ((hother other d hsame).1 hs)
  · intro other d hs
    rw [entries_unsubscribe]
    split
    · rfl
    · rename_i hkept
      refine h.never fun hold => hs ?_
      by_cases hsame : other = id
      · subst hsame
        rcases hold with hd | hread
        · exact absurd ⟨hd, rfl⟩ hkept
        · exact .inr hread
      · exact (hother other d hsame).2 hold

end World

end DataBinding
