import DataBinding.Proofs.Client.Growing
import DataBinding.Proofs.Disposal.Steady

/-!
# What disposing of a view takes away

Disposing of a view takes its watchers out of every subscriber list,
whenever they were put there, and its listeners off every node, and
leaves all others where they are (`Discards.subscribers`,
`Discards.listeners`). That it suffices for a watcher to be unregistered
from its dependency set is the ledger: outside its own evaluation a
watcher is in no other list.
-/

namespace DataBinding.World

variable {w w' : World} {x : WatcherId} {v : ViewId}

/-! ## Subscribers -/

/-- Unsubscribing takes a watcher out of every list. -/
theorem Tracked.subscribersOf_unsubscribe (h : Tracked w) (hslot : w.slot ≠ some (.watcher x))
    (d : DependencyId) : (w.unsubscribe x).graph.subscribersOf d =
      (w.graph.subscribersOf d).filter (· ≠ .watcher x) := by
  refine (Graph.subscribersOf_unregisterAll w.graph _ _ d).trans ?_
  split
  · rfl
  · rename_i hd
    have hnone : w.entries x d = 0 := h.never fun hs => hd ((h.subscribed_iff hslot d).1 hs)
    refine (List.filter_eq_self.2 fun s hs => ?_).symm
    rw [decide_eq_true_eq]
    exact fun heq => List.count_eq_zero.1 hnone (heq ▸ hs)

theorem Tracked.dispose (h : Tracked w) (x : WatcherId) : Tracked (w.dispose x) :=
  (h.unsubscribe x).unmoved (.onWatcher _ x rfl) (h.unsubscribe x).owned

theorem Tracked.release (h : Tracked w) (x : WatcherId) : Tracked (w.release (.watcher x)) := by
  have hless : Tracked (w.lessen x) := h.unmoved (.onWatcher _ x rfl) h.owned
  exact release_of_lessen hless fun _ => hless.unsubscribe x

/-- Several watchers, none of which is in its own evaluation. -/
theorem Tracked.dropWatchers (xs : List WatcherId) (h : Tracked w)
    (hslot : ∀ x ∈ xs, w.slot ≠ some (.watcher x)) :
    (∀ d, (w.dropWatchers xs).graph.subscribersOf d =
      (w.graph.subscribersOf d).filter fun s => ∀ x ∈ xs, s ≠ .watcher x) ∧
    ∀ x ∈ xs, x < w.watchers.length → (w.dropWatchers xs).Gone x := by
  induction xs generalizing w with
  | nil =>
      refine ⟨fun d => (List.filter_eq_self.2 fun s _ => ?_).symm,
        fun x hx => absurd hx List.not_mem_nil⟩
      exact decide_eq_true fun x hx => absurd hx List.not_mem_nil
  | cons x xs ih =>
      let dropped := (w.dispose x).release (.watcher x)
      have hgone := gone_dispose w x
      have hgraph : dropped.graph = (w.dispose x).graph := graph_release hgone.2
      obtain ⟨hfree, -⟩ := release_frame (w.dispose x) x
      have hsteady : Steady w dropped := (Steady.dispose w x).trans (.release _ x)
      obtain ⟨hlists, hrest⟩ := @ih dropped ((h.dispose x).release x) fun y hy => by
        rw [hfree]
        exact hslot y (List.mem_cons_of_mem _ hy)
      refine ⟨fun d => ?_, fun y hy hlt => ?_⟩
      · refine (hlists d).trans ?_
        have hfirst : dropped.graph.subscribersOf d =
            (w.graph.subscribersOf d).filter (· ≠ .watcher x) := by
          rw [hgraph]
          exact h.subscribersOf_unsubscribe (hslot x List.mem_cons_self) d
        rw [hfirst, List.filter_filter]
        refine List.filter_congr fun s _ => ?_
        simp only [List.forall_mem_cons, Bool.decide_and]
        rw [Bool.and_comm]
      · have hthere := Nat.lt_of_lt_of_le hlt hsteady.watchers
        rcases List.mem_cons.1 hy with rfl | hy
        · exact (Steady.dropWatchers dropped xs).gone hthere
            ((Steady.release (w.dispose y) y).gone
              (Nat.lt_of_lt_of_le hlt (Steady.dispose w y).watchers) hgone)
        · exact hrest y hy hthere

/-! ## Listeners -/

theorem listeners_dropListeners (es : List (NodeId × ListenerId)) (d : Document) (n : NodeId) :
    ((dropListeners d es).node n).listeners =
      (d.node n).listeners.filter fun l => (n, l.id) ∉ es := by
  induction es generalizing d with
  | nil => exact (List.filter_eq_self.2 fun l _ => decide_eq_true List.not_mem_nil).symm
  | cons e es ih =>
      obtain ⟨m, id⟩ := e
      have hfirst : ((d.unlisten m id).node n).listeners =
          (d.node n).listeners.filter fun l => (n, l.id) ≠ (m, id) := by
        rw [Document.unlisten, Document.node_modify_ite]
        split
        · rename_i hself
          simp [hself.1]
        · rename_i hother
          refine (List.filter_eq_self.2 fun l hl => ?_).symm
          rw [decide_eq_true_eq]
          refine fun heq => hother ⟨(Prod.mk.inj heq).1, Nat.lt_of_not_le fun hle => ?_⟩
          rw [Document.node_of_le hle] at hl
          exact List.not_mem_nil hl
      refine (ih _).trans ?_
      rw [hfirst, List.filter_filter]
      refine List.filter_congr fun l _ => ?_
      simp only [List.mem_cons, not_or, Bool.decide_and]
      rw [Bool.and_comm]

/-! ## The view -/

namespace Discards

/-- The watchers of the view are in no list any more, and everybody else
is where it was. -/
theorem subscribers (h : w.Discards v w') (hw : Tracked w)
    (hslot : ∀ x ∈ (w.view v).watchers, w.slot ≠ some (.watcher x)) (d : DependencyId) :
    w'.graph.subscribersOf d =
      (w.graph.subscribersOf d).filter fun s => ∀ x ∈ (w.view v).watchers, s ≠ .watcher x := by
  obtain ⟨views, modelNames, models, rfl⟩ := h
  have hempty : Tracked (w.onView v fun _ => ⟨[], []⟩) :=
    hw.unmoved ⟨rfl, fun _ => rfl, fun _ => rfl, fun _ => rfl, fun _ => rfl, fun _ => rfl,
      fun _ _ => rfl⟩ hw.owned
  exact (hempty.dropWatchers _ hslot).1 d

theorem gone (h : w.Discards v w') (hw : Tracked w)
    (hslot : ∀ x ∈ (w.view v).watchers, w.slot ≠ some (.watcher x)) {x : WatcherId}
    (hx : x ∈ (w.view v).watchers) (hlt : x < w.watchers.length) : w'.Gone x := by
  obtain ⟨views, modelNames, models, rfl⟩ := h
  have hempty : Tracked (w.onView v fun _ => ⟨[], []⟩) :=
    hw.unmoved ⟨rfl, fun _ => rfl, fun _ => rfl, fun _ => rfl, fun _ => rfl, fun _ => rfl,
      fun _ _ => rfl⟩ hw.owned
  exact (hempty.dropWatchers _ hslot).2 x hx hlt

/-- The listeners of the view are off their nodes, and all others are
where they were. -/
theorem listeners (h : w.Discards v w') (n : NodeId) :
    (w'.document.node n).listeners =
      (w.document.node n).listeners.filter fun l => (n, l.id) ∉ (w.view v).listeners := by
  rw [h.document]
  exact listeners_dropListeners _ _ n

end Discards

end DataBinding.World
