import DataBinding.Proofs.Store.Properties
import DataBinding.Proofs.Tracking.Account

/-!
# Looking up after an operation

Watchers, evaluations and subscriber lists after each operation on them,
and the names and views that hold a watcher or an evaluation. One law per
operation, through the look-up.
-/

namespace DataBinding

/-! ## Names -/

namespace Keyed

variable {β : Type}

theorem keys_erase_nodup {c : Keyed β} (h : c.keys.Nodup) (key : String) :
    (c.erase key).keys.Nodup := by
  rw [keys, erase]
  exact h.sublist (List.filter_sublist.map _)

variable [DecidableEq β]

theorem naming_pos {c : Keyed β} {key : String} {value : β} (h : c.find? key = some value) :
    0 < c.naming value := by
  obtain ⟨entries⟩ := c
  simp only [find?, naming, List.count_pos_iff] at h ⊢
  induction entries with
  | nil => simp [findEntry] at h
  | cons entry entries ih =>
      rw [findEntry] at h
      split at h
      · exact List.mem_map.2 ⟨entry, List.mem_cons_self, Option.some.inj h⟩
      · exact List.mem_cons_of_mem _ (ih h)

/-- Writing under a key: what it stood for loses one, the new value gains
one. -/
theorem naming_put (c : Keyed β) (key : String) (value other : β) :
    (c.put key value).naming other + (c.find? key).toList.count other =
      c.naming other + [value].count other := by
  obtain ⟨entries⟩ := c
  simp only [put, naming, find?]
  induction entries with
  | nil => simp [putEntry, findEntry]
  | cons entry entries ih =>
      obtain ⟨name, current⟩ := entry
      by_cases hname : name = key
      · simp only [putEntry, findEntry, hname, if_true, List.map_cons, List.count_cons,
          Option.toList_some, List.count_nil]
        omega
      · simp only [putEntry, findEntry, hname, if_false, List.map_cons, List.count_cons,
          List.count_nil] at ih ⊢
        omega

/-- Removing a key: what it stood for loses one. -/
theorem naming_erase {c : Keyed β} (h : c.keys.Nodup) (key : String) (other : β) :
    (c.erase key).naming other + (c.find? key).toList.count other = c.naming other := by
  obtain ⟨entries⟩ := c
  simp only [keys] at h
  simp only [erase, naming, find?]
  induction entries with
  | nil => simp [findEntry]
  | cons entry entries ih =>
      obtain ⟨name, current⟩ := entry
      simp only [List.map_cons, List.nodup_cons] at h
      by_cases hname : name = key
      · subst hname
        have hkeep : entries.filter (·.1 ≠ name) = entries :=
          List.filter_eq_self.2 fun entry hentry => by
            have : entry.1 ≠ name := fun heq => h.1 (heq ▸ List.mem_map_of_mem hentry)
            simpa using this
        rw [List.filter_cons_of_neg (by simp), hkeep]
        simp [findEntry, List.count_cons]
      · rw [List.filter_cons_of_pos (by simpa using hname)]
        simp only [findEntry, hname, if_false, List.map_cons, List.count_cons]
        have := ih h.2
        omega

end Keyed

namespace World

/-! ## Watchers -/

theorem watcher_onWatcher (w : World) (id other : WatcherId) (change : Watcher → Watcher) :
    (w.onWatcher id change).watcher other =
      if other = id ∧ id < w.watchers.length then change (w.watcher id) else w.watcher other := by
  by_cases h : other = id
  · subst h
    by_cases hid : other < w.watchers.length
    · simp [watcher, onWatcher, List.getD_eq_getElem?_getD, hid]
    · simp [watcher, onWatcher, List.getD_eq_getElem?_getD, hid]
  · simp [watcher, onWatcher, List.getD_eq_getElem?_getD, h, Ne.symm h]

theorem watcher_of_ne {id other : WatcherId} (h : other ≠ id) (w : World)
    (change : Watcher → Watcher) : (w.onWatcher id change).watcher other = w.watcher other := by
  rw [watcher_onWatcher, if_neg fun hsame => h hsame.1]

theorem watcher_onWatcher_self {w : World} {id : WatcherId} (h : id < w.watchers.length)
    (change : Watcher → Watcher) : (w.onWatcher id change).watcher id = change (w.watcher id) := by
  rw [watcher_onWatcher, if_pos ⟨rfl, h⟩]

/-- Where no watcher is, nothing is held or watched. -/
theorem watcher_eq_default {w : World} {id : WatcherId} (h : w.watchers.length ≤ id) :
    w.watcher id = ⟨0, ⟨"", []⟩, .client "" [], .undefined, [], true, 0⟩ := by
  simp [watcher, List.getD_eq_getElem?_getD, List.getElem?_eq_none h]

theorem lt_of_handles {w : World} {id : WatcherId} (h : 0 < (w.watcher id).handles) :
    id < w.watchers.length := by
  refine Nat.lt_of_not_le fun hid => ?_
  simp [watcher_eq_default hid] at h

/-- A change that leaves a field of a watcher leaves it for all. -/
theorem field_onWatcher {β : Type} (w : World) (id other : WatcherId) {change : Watcher → Watcher}
    (field : Watcher → β) (h : field (change (w.watcher id)) = field (w.watcher id)) :
    field ((w.onWatcher id change).watcher other) = field (w.watcher other) := by
  rw [watcher_onWatcher]
  split
  · rename_i hsame
    rw [hsame.1, h]
  · rfl

theorem watcher_addWatcher (w : World) (data : ObjectId) (path : Path) (reaction : Reaction)
    (other : WatcherId) :
    (w.addWatcher data path reaction).watcher other =
      if other = w.nextWatcher then ⟨data, path, reaction, .undefined, [], false, 1⟩
      else w.watcher other := by
  by_cases h : other = w.nextWatcher
  · subst h
    simp [watcher, addWatcher, nextWatcher, List.getD_eq_getElem?_getD]
  · rw [if_neg h]
    simp only [watcher, addWatcher, List.getD_eq_getElem?_getD]
    rcases Nat.lt_or_gt_of_ne h with hlt | hgt
    · rw [List.getElem?_append_left hlt]
    · rw [List.getElem?_eq_none (Nat.le_of_lt hgt),
        List.getElem?_eq_none (by rw [List.length_append]; exact hgt)]

/-- A watcher that is not there has no dependencies to lose. -/
theorem watcher_clear (w : World) (id : WatcherId) :
    (w.onWatcher id fun watcher => { watcher with dependencies := [] }).watcher id =
      { w.watcher id with dependencies := [] } := by
  rw [watcher_onWatcher]
  split
  · rfl
  · rename_i hid
    rw [watcher_eq_default (Nat.le_of_not_lt fun hlt => hid ⟨rfl, hlt⟩)]

theorem watcher_unsubscribe (w : World) (id other : WatcherId) :
    (w.unsubscribe id).watcher other =
      if other = id then { w.watcher id with dependencies := [] } else w.watcher other := by
  split
  · rename_i hother
    rw [hother]
    exact watcher_clear (w.onGraph _) id
  · rename_i hother
    exact watcher_of_ne hother _ _

/-! ### Handles -/

/-- A watcher with one handle less. -/
def lessen (w : World) (id : WatcherId) : World :=
  w.onWatcher id fun watcher => { watcher with handles := watcher.handles - 1 }

theorem watcher_lessen (w : World) (id other : WatcherId) :
    (w.lessen id).watcher other =
      { w.watcher other with
        handles := (w.watcher other).handles - if other = id then 1 else 0 } := by
  rw [lessen, watcher_onWatcher]
  by_cases hother : other = id
  · subst hother
    by_cases hid : other < w.watchers.length
    · rw [if_pos ⟨rfl, hid⟩, if_pos rfl]
    · rw [if_neg fun hall => hid hall.2, watcher_eq_default (Nat.le_of_not_lt hid)]
      simp
  · rw [if_neg fun hall => hother hall.1, if_neg hother]
    rfl

theorem handles_lessen (w : World) (id other : WatcherId) :
    ((w.lessen id).watcher other).handles =
      (w.watcher other).handles - if other = id then 1 else 0 := by
  rw [watcher_lessen]

theorem release_watcher (w : World) (id : WatcherId) : w.release (.watcher id) =
    if (w.watcher id).handles ≤ 1 then (w.lessen id).unsubscribe id else w.lessen id :=
  rfl

/-- What holds with one handle less, and also when the watcher is unsubscribed
because there is none left, holds when a handle was given up. -/
theorem release_of_lessen {P : World → Prop} {w : World} {id : WatcherId} (hless : P (w.lessen id))
    (hlast : (w.watcher id).handles ≤ 1 → P ((w.lessen id).unsubscribe id)) :
    P (w.release (.watcher id)) := by
  rw [release_watcher]
  split
  · rename_i hnone
    exact hlast hnone
  · exact hless

/-- A handle that is not the last one. -/
theorem release_of_spare {w : World} {id : WatcherId} (h : 1 < (w.watcher id).handles) :
    w.release (.watcher id) = w.lessen id := by
  rw [release_watcher, if_neg (Nat.not_le.2 h)]

theorem watcher_release (w : World) (id other : WatcherId) :
    (w.release (.watcher id)).watcher other =
      { w.watcher other with
        handles := (w.watcher other).handles - if other = id then 1 else 0
        dependencies := if other = id ∧ (w.watcher id).handles ≤ 1 then []
          else (w.watcher other).dependencies } := by
  rw [release_watcher]
  by_cases hlast : (w.watcher id).handles ≤ 1
  · rw [if_pos hlast, watcher_unsubscribe]
    by_cases hother : other = id
    · subst hother
      simp [watcher_lessen, hlast]
    · simp [watcher_lessen, hother]
  · rw [if_neg hlast]
    simp [watcher_lessen, hlast]

/-- Giving up a handle is about watchers and subscriber lists only. -/
theorem release_frame (w : World) (id : WatcherId) :
    (w.release (.watcher id)).slot = w.slot ∧
      (w.release (.watcher id)).evaluations = w.evaluations ∧
      (w.release (.watcher id)).watchers.length = w.watchers.length ∧
      (w.release (.watcher id)).document = w.document ∧
      (w.release (.watcher id)).views = w.views ∧
      (w.release (.watcher id)).names = w.names := by
  rw [release_watcher]
  split
  · exact ⟨rfl, rfl, (List.length_modify ..).trans (List.length_modify ..), rfl, rfl, rfl⟩
  · exact ⟨rfl, rfl, List.length_modify .., rfl, rfl, rfl⟩

/-- Who depends on nothing is in no list to be taken out of. -/
theorem graph_release {w : World} {id : WatcherId} (h : (w.watcher id).dependencies = []) :
    (w.release (.watcher id)).graph = w.graph := by
  rw [release_watcher]
  split
  · show w.graph.unregisterAll ((w.lessen id).watcher id).dependencies (.watcher id) = w.graph
    rw [watcher_lessen, h]
    rfl
  · rfl

/-! ## Evaluations -/

theorem evaluation_onEvaluation (w : World) (e other : EvaluationId)
    (change : Evaluation → Evaluation) :
    (w.onEvaluation e change).evaluation other =
      if other = e ∧ e < w.evaluations.length then change (w.evaluation e)
      else w.evaluation other := by
  by_cases h : other = e
  · subst h
    by_cases he : other < w.evaluations.length
    · simp [evaluation, onEvaluation, List.getD_eq_getElem?_getD, he]
    · simp [evaluation, onEvaluation, List.getD_eq_getElem?_getD, he]
  · simp [evaluation, onEvaluation, List.getD_eq_getElem?_getD, h, Ne.symm h]

theorem evaluation_eq_default {w : World} {e : EvaluationId} (h : w.evaluations.length ≤ e) :
    w.evaluation e = ⟨.client 0, [], [], false, 0⟩ := by
  simp [evaluation, List.getD_eq_getElem?_getD, List.getElem?_eq_none h]

theorem lt_of_alive {w : World} {e : EvaluationId} (h : (w.evaluation e).alive = true) :
    e < w.evaluations.length := by
  refine Nat.lt_of_not_le fun he => ?_
  simp [evaluation_eq_default he] at h

theorem field_onEvaluation {β : Type} (w : World) (e other : EvaluationId)
    {change : Evaluation → Evaluation} (field : Evaluation → β)
    (h : field (change (w.evaluation e)) = field (w.evaluation e)) :
    field ((w.onEvaluation e change).evaluation other) = field (w.evaluation other) := by
  rw [evaluation_onEvaluation]
  split
  · rename_i hsame
    rw [hsame.1, h]
  · rfl

/-- The evaluations after one more came in. -/
theorem evaluation_append (w : World) (entered : Evaluation) (slot : Option SubscriberId)
    (other : EvaluationId) :
    ({ w with slot, evaluations := w.evaluations ++ [entered] } : World).evaluation other =
      if other = w.nextEvaluation then entered else w.evaluation other := by
  by_cases h : other = w.nextEvaluation
  · subst h
    simp [evaluation, nextEvaluation, List.getD_eq_getElem?_getD]
  · rw [if_neg h]
    simp only [evaluation, List.getD_eq_getElem?_getD]
    rcases Nat.lt_or_gt_of_ne h with hlt | hgt
    · rw [List.getElem?_append_left hlt]
    · rw [List.getElem?_eq_none (Nat.le_of_lt hgt),
        List.getElem?_eq_none (by rw [List.length_append]; exact hgt)]

/-- An evaluation with one handle less. -/
def lessenEvaluation (w : World) (e : EvaluationId) : World :=
  w.onEvaluation e fun evaluation => { evaluation with handles := evaluation.handles - 1 }

theorem evaluation_lessenEvaluation (w : World) (e other : EvaluationId) :
    (w.lessenEvaluation e).evaluation other =
      { w.evaluation other with
        handles := (w.evaluation other).handles - if other = e then 1 else 0 } := by
  rw [lessenEvaluation, evaluation_onEvaluation]
  by_cases hother : other = e
  · subst hother
    by_cases he : other < w.evaluations.length
    · rw [if_pos ⟨rfl, he⟩, if_pos rfl]
    · rw [if_neg fun hall => he hall.2, evaluation_eq_default (Nat.le_of_not_lt he)]
      simp
  · rw [if_neg fun hall => hother hall.1, if_neg hother]
    rfl

theorem releaseEvaluation_eq (w : World) (e : EvaluationId) : w.releaseEvaluation e =
    if (w.evaluation e).alive && (w.evaluation e).handles ≤ 1 then (w.lessenEvaluation e).close e
    else w.lessenEvaluation e :=
  rfl

/-- What holds with one handle less, and also when the evaluation is abandoned
because there is none left, holds when a handle was given up. -/
theorem releaseEvaluation_of_lessen {P : World → Prop} {w : World} {e : EvaluationId}
    (hless : P (w.lessenEvaluation e))
    (hlast : (w.evaluation e).alive = true → (w.evaluation e).handles ≤ 1 →
      P ((w.lessenEvaluation e).close e)) : P (w.releaseEvaluation e) := by
  rw [releaseEvaluation_eq]
  split
  · rename_i hends
    rw [Bool.and_eq_true, decide_eq_true_eq] at hends
    exact hlast hends.1 hends.2
  · exact hless

end World

/-! ## Subscriber lists -/

namespace Graph

theorem subscribersOf_unregisterAll (g : Graph) (ds : List DependencyId) (s : SubscriberId)
    (other : DependencyId) :
    (g.unregisterAll ds s).subscribersOf other =
      if other ∈ ds then (g.subscribersOf other).filter (· ≠ s) else g.subscribersOf other := by
  unfold unregisterAll
  induction ds generalizing g with
  | nil => simp
  | cons d ds ih =>
      simp only [List.foldl_cons, ih, subscribersOf_unregister, List.mem_cons]
      by_cases hd : other = d
      · subst hd
        simp
      · simp [hd]

@[simp] theorem objects_unregisterAll (g : Graph) (ds : List DependencyId) (s : SubscriberId) :
    (g.unregisterAll ds s).objects = g.objects := by
  unfold unregisterAll
  induction ds generalizing g with
  | nil => rfl
  | cons d ds ih => rw [List.foldl_cons, ih, objects_unregister]

theorem length_unregisterAll (g : Graph) (ds : List DependencyId) (s : SubscriberId) :
    (g.unregisterAll ds s).subscribers.length = g.subscribers.length := by
  unfold unregisterAll
  induction ds generalizing g with
  | nil => rfl
  | cons d ds ih => rw [List.foldl_cons, ih]; simp [unregister]

/-- What a subscriber counts for in the lists without it. -/
theorem count_unregisterAll (g : Graph) (ds : List DependencyId) (s other : SubscriberId)
    (d : DependencyId) :
    ((g.unregisterAll ds s).subscribersOf d).count other =
      if d ∈ ds ∧ other = s then 0 else (g.subscribersOf d).count other := by
  rw [subscribersOf_unregisterAll]
  by_cases hd : d ∈ ds
  · by_cases hs : other = s
    · subst hs
      simp [hd, List.count_eq_zero]
    · rw [if_pos hd, if_neg (fun h => hs h.2), List.count_filter]
      simpa using hs
  · simp [hd]

theorem count_register_of_ne (g : Graph) (d otherD : DependencyId) {s other : SubscriberId}
    (h : s ≠ other) :
    ((g.register d s).subscribersOf otherD).count other = (g.subscribersOf otherD).count other := by
  by_cases hd : d < g.subscribers.length
  · rw [subscribersOf_register g hd]
    split
    · rename_i heq
      simp [heq, List.count_append, h]
    · rfl
  · rw [register, List.modify_eq_self (Nat.le_of_not_lt hd)]

theorem count_unregister_of_ne (g : Graph) (d otherD : DependencyId) {s other : SubscriberId}
    (h : s ≠ other) :
    ((g.unregister d s).subscribersOf otherD).count other =
      (g.subscribersOf otherD).count other := by
  rw [subscribersOf_unregister]
  split
  · rename_i heq
    rw [heq, List.count_filter]
    simpa using h.symm
  · rfl

theorem count_register (g : Graph) {d : Nat} (hd : d < g.subscribers.length)
    (s other : SubscriberId) (otherD : DependencyId) :
    ((g.register d s).subscribersOf otherD).count other =
      (g.subscribersOf otherD).count other + if otherD = d ∧ other = s then 1 else 0 := by
  rw [subscribersOf_register g hd]
  by_cases h : otherD = d
  · subst h
    by_cases hs : other = s
    · simp [hs]
    · simp [List.count_append, hs, Ne.symm hs]
  · simp [h]

end Graph

end DataBinding
