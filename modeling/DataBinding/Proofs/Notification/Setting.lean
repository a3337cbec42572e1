import DataBinding.Proofs.Notification.Telling
import DataBinding.Proofs.Subscription.Invariant

/-!
# Setting a property

The write of a data property against a recomputation of all watchers:
`reactions_of_set` says that it runs the reactions of those watchers
whose path resolves to another value afterwards, and of no other, each
once and in the order of the subscriber list.

That nothing is left out is about dependency sets: a watcher that does
not depend on the property has a value that stays grounded (`untouched`).
It is not enough that the value is the one that the path resolves to. An
accessor that was installed in place of a property is in no dependency
set, and a write to what it reads goes by the watcher
(`missed_behind_accessor`).
-/

namespace DataBinding

open World

variable {w : World} {x : WatcherId} {id : ObjectId} {key : String} {property : Property}
  {value : Value}

/-! ## Before and after -/

namespace World

/-- A watcher that is alive and not disposed of. -/
def Watching (w : World) (x : WatcherId) : Prop :=
  0 < (w.watcher x).handles ∧ (w.watcher x).disposed = false

/-- The objects after a property was written. -/
def written (w : World) (id : ObjectId) (key : String) (value : Value) : World :=
  w.onGraph (·.fill id (key, value))

theorem written_same (hslot : w.graph.slot? id key = some (.data property))
    (hsame : property.value.same value = true) : w.written id key value = w := by
  simp [written, World.onGraph, Graph.fill, hslot, hsame]

theorem written_other (hslot : w.graph.slot? id key = some (.data property))
    (hsame : property.value.same value = false) :
    w.written id key value = w.onGraph (·.store id key value) := by
  simp [written, World.onGraph, Graph.fill, hslot, hsame]

theorem Pure.written (hw : w.Pure) (id : ObjectId) (key : String) (value : Value) :
    (w.written id key value).Pure :=
  fun _ _ _ hslot => hw _ _ _ (Graph.computed_of_fill hslot)

/-- The value that an up-to-date watcher has is what its path resolves
to. -/
theorem UpToDate.resolves (h : w.UpToDate x) (hvalue : (w.watcher x).value.isNaN = false) :
    ∃ u, w.graph.Grounded (w.watcher x).query (w.watcher x).dependencies u ∧ w.Resolves x u ∧
      (w.watcher x).value.same u = true := by
  obtain ⟨u, hu, hagrees⟩ := h
  obtain ⟨cells, hyields, -⟩ := id hu
  refine ⟨u, hu, resolves_of_yields hyields, hagrees.resolve_right fun hnan => ?_⟩
  rw [hvalue] at hnan
  exact Bool.noConfusion hnan.1

/-- A watcher that does not depend on the property resolves to what it
did. -/
theorem untouched {u v : Value} (hw : w.Pure)
    (hslot : w.graph.slot? id key = some (.data property))
    (hsame : property.value.same value = false)
    (hgrounded : w.graph.Grounded (w.watcher x).query (w.watcher x).dependencies u)
    (hother : ∀ d ∈ (w.watcher x).dependencies, property.dependency ≠ some d)
    (hv : (w.written id key value).Resolves x v) : v = u := by
  obtain ⟨cells, hyields, -⟩ := hgrounded.store hslot hother value
  have hwritten : (w.written id key value).graph.Yields (w.watcher x).query [u] cells := by
    rw [written_other hslot hsame]
    exact hyields
  exact hv.unique (hw.written id key value) (resolves_of_yields hwritten)

end World

/-! ## Telling all -/

/-- A notification tells those on the list that are alive. -/
theorem passes_toEach (d : DependencyId) : Passes ⟨w, notify d⟩ []
    ⟨w.onGraph (·.prune d w.alive),
      Proc.each notifySubscriber ((w.graph.subscribersOf d).filter w.alive)⟩ := by
  refine .bind_nil (.modify _) (.bind_nil (.ask _) ?_)
  have hlist : (w.onGraph (·.prune d w.alive)).graph.subscribersOf d =
      (w.graph.subscribersOf d).filter w.alive :=
    (Graph.subscribersOf_prune _ _ _ _).trans (if_pos rfl)
  rw [← hlist]
  exact .here _

/-- A calm notification, from the state in which the dead are off the
list. -/
theorem passes_notify {new : WatcherId → Value} {d : DependencyId} (hslot : w.slot = none)
    (honce : ∀ x, w.entries x d ≤ 1)
    (hnew : ∀ x, w.Watching x → ∃ cells, w.graph.Yields (w.watcher x).query [new x] cells)
    (hcalm : Calm ⟨w, notify d⟩) :
    ∃ b calls, Passes ⟨w, notify d⟩ calls ⟨b, .done ()⟩ ∧
      Underway (w.onGraph (·.prune d w.alive)) ((w.graph.subscribersOf d).filter w.alive).reverse b ∧
      reactions calls = ((w.graph.subscribersOf d).filter w.alive).filterMap (w.reaction? new) := by
  let pruned := w.onGraph (·.prune d w.alive)
  have hbegin := @passes_toEach w d
  have hbegun : Underway pruned [] pruned := ⟨rfl, hslot, rfl, fun _ _ => rfl⟩
  have hcount : ∀ x, ([] ++ (w.graph.subscribersOf d).filter w.alive).count (SubscriberId.watcher x) ≤ 1 :=
    fun x => Nat.le_trans (List.Sublist.count_le _ List.filter_sublist) (honce x)
  have hyields : ∀ x, SubscriberId.watcher x ∈ (w.graph.subscribersOf d).filter w.alive →
      0 < (pruned.watcher x).handles → (pruned.watcher x).disposed = false →
      ∃ cells, pruned.graph.Yields (pruned.watcher x).query [new x] cells := by
    intro x _ hlive hdisposed
    obtain ⟨cells, hcells⟩ := hnew x ⟨hlive, hdisposed⟩
    exact ⟨cells, hcells.congr fun c _ => content_eq (by simp [pruned, World.onGraph]) c⟩
  obtain ⟨b, calls, hpasses, hb, hreactions⟩ :=
    passes_each _ hbegun hcount hyields (hcalm.of_reaches hbegin.reaches)
  exact ⟨b, calls, hbegin.trans hpasses, by simpa using hb, hreactions⟩

/-- Who reacts, and to what. -/
theorem mem_reactions {new : WatcherId → Value} {subscribers : List SubscriberId} {v : Value} :
    (x, v) ∈ subscribers.filterMap (w.reaction? new) ↔
      .watcher x ∈ subscribers ∧ w.Watching x ∧ v = new x ∧
        (w.watcher x).value.same v = false := by
  rw [List.mem_filterMap]
  constructor
  · rintro ⟨s, hs, hreaction⟩
    cases s with
    | client client => cases hreaction
    | watcher y =>
        simp only [reaction?, Option.ite_none_right_eq_some, Option.some.injEq,
          Prod.mk.injEq] at hreaction
        obtain ⟨⟨hlive, hdisposed, hsame⟩, rfl, rfl⟩ := hreaction
        exact ⟨hs, ⟨hlive, hdisposed⟩, rfl, hsame⟩
  · rintro ⟨hs, hx, rfl, hsame⟩
    exact ⟨_, hs, if_pos ⟨hx.1, hx.2, hsame⟩⟩

/-- Reactions are in the order of the list. -/
theorem reactions_sublist (w : World) (new : WatcherId → Value) (subscribers : List SubscriberId) :
    ((subscribers.filterMap (w.reaction? new)).map fun r => SubscriberId.watcher r.1).Sublist
      subscribers := by
  induction subscribers with
  | nil => exact .slnil
  | cons s rest ih =>
      rw [List.filterMap_cons]
      cases hreaction : w.reaction? new s with
      | none => exact ih.cons s
      | some r =>
          cases s with
          | client client => cases hreaction
          | watcher y =>
              simp only [reaction?, Option.ite_none_right_eq_some, Option.some.injEq] at hreaction
              obtain ⟨-, rfl⟩ := hreaction
              exact ih.cons_cons _

/-- Who is in the list at most once reacts at most once. -/
theorem nodup_of_sublist {told : List (WatcherId × Value)} {subscribers : List SubscriberId}
    (h : (told.map fun r => SubscriberId.watcher r.1).Sublist subscribers)
    (honce : ∀ x, subscribers.count (.watcher x) ≤ 1) : (told.map (·.1)).Nodup := by
  refine List.nodup_iff_count.2 fun x => ?_
  have hmap := List.count_le_count_map (f := SubscriberId.watcher) (x := x) (l := told.map (·.1))
  rw [List.map_map] at hmap
  exact Nat.le_trans hmap (Nat.le_trans (h.count_le _) (honce x))

/-! ## The write -/

/-- Writing a reactive property is telling its subscribers. -/
theorem passes_toNotify {d : DependencyId} (hproperty : w.graph.slot? id key = some (.data property))
    (hsame : property.value.same value = false) (hd : property.dependency = some d) :
    Passes ⟨w, setProperty id key value⟩ []
      ⟨(w.onGraph (·.store id key value)).onGraph (·.observe value), notify d⟩ := by
  refine .bind_nil (.ask _) ?_
  rw [hproperty]
  dsimp only
  rw [if_neg (by simp [hsame])]
  refine .bind_nil (.modify _) ?_
  rw [hd]
  exact .bind_nil (.modify _) (.here _)

/-- A write that has told watchers of new values, against what their
paths resolve to. -/
structure AsRecomputed (w : World) (id : ObjectId) (key : String) (value : Value)
    (property : Property) (told : List (WatcherId × Value)) (w' : World) : Prop where
  idle : w'.slot = none
  content : ∀ c, w'.graph.content c = (w.written id key value).graph.content c
  changed : ∀ x v, (x, v) ∈ told ↔ w.Watching x ∧
    ∃ u, w.Resolves x u ∧ (w.written id key value).Resolves x v ∧ u.same v = false
  ordered : (told.map fun r => SubscriberId.watcher r.1).Sublist
    (property.dependency.elim [] w.graph.subscribersOf)
  once : (told.map (·.1)).Nodup
  others : ∀ x, (∀ d ∈ (w.watcher x).dependencies, property.dependency ≠ some d) →
    (w'.watcher x).value = (w.watcher x).value ∧
    (w'.watcher x).dependencies = (w.watcher x).dependencies ∧
    ∀ d, w'.entries x d = w.entries x d

section Write

variable (hw : w.Reachable) (hslot : w.slot = none) (hpure : w.Pure)
  (hproperty : w.graph.slot? id key = some (.data property))
  (hcurrent : ∀ x, w.Watching x → w.UpToDate x ∧ (w.watcher x).value.isNaN = false)

include hpure in
/-- Nobody is told if no path resolves to another value. -/
theorem AsRecomputed.of_unchanged {w' : World} (hidle : w'.slot = none)
    (hcontent : ∀ c, w'.graph.content c = (w.written id key value).graph.content c)
    (hwatchers : w'.watchers = w.watchers)
    (hsubscribers : w'.graph.subscribers = w.graph.subscribers)
    (hcurrent : ∀ x, w.Watching x → w.UpToDate x ∧ (w.watcher x).value.isNaN = false)
    (hsame : ∀ x, w.Watching x → ∀ u v, w.Resolves x u →
      (w.written id key value).Resolves x v → u = v) :
    AsRecomputed w id key value property [] w' where
  idle := hidle
  content := hcontent
  changed x v := by
    refine ⟨fun h => absurd h List.not_mem_nil, ?_⟩
    rintro ⟨hx, u, hu, hv, hother⟩
    obtain ⟨hupToDate, hvalue⟩ := hcurrent x hx
    obtain ⟨u', -, hu', hagrees⟩ := hupToDate.resolves hvalue
    obtain rfl := hu.unique hpure hu'
    rw [← hsame x hx u v hu hv, ← Value.same_congr hagrees, hagrees] at hother
    cases hother
  ordered := List.nil_sublist _
  once := List.nodup_nil
  others x _ := by
    have hwatcher : w'.watcher x = w.watcher x := by rw [World.watcher, World.watcher, hwatchers]
    refine ⟨by rw [hwatcher], by rw [hwatcher], fun d => ?_⟩
    rw [entries, entries, Graph.subscribersOf, Graph.subscribersOf, hsubscribers]

/-- Without an evaluation a watcher is in the lists of its dependency
set. -/
theorem mem_subscribersOf (hledger : Ledger w) (hslot : w.slot = none) {d : DependencyId} :
    SubscriberId.watcher x ∈ w.graph.subscribersOf d ↔ d ∈ (w.watcher x).dependencies := by
  have hoff : w.slot ≠ some (.watcher x) := by simp [hslot]
  have hentries := hledger.entries_eq hoff d
  rw [← List.count_pos_iff, ← entries, hentries]
  split
  · rename_i hd
    exact ⟨fun _ => hd, fun _ => Nat.one_pos⟩
  · rename_i hd
    exact ⟨fun h => absurd h (Nat.lt_irrefl 0), fun h => absurd h hd⟩

include hw hslot hpure hproperty in
/-- The run of a write to a reactive property. -/
theorem passes_set {new : WatcherId → Value} {d : DependencyId}
    (hsame : property.value.same value = false) (hd : property.dependency = some d)
    (hnew : ∀ x, w.Watching x → (w.written id key value).Resolves x (new x))
    (hcalm : Calm ⟨w, setProperty id key value⟩) :
    ∃ w' calls, Passes ⟨w, setProperty id key value⟩ calls ⟨w', .done ()⟩ ∧
      w'.slot = none ∧
      (∀ c, w'.graph.content c = (w.written id key value).graph.content c) ∧
      (∀ x, .watcher x ∉ w.graph.subscribersOf d → w'.watcher x = w.watcher x) ∧
      reactions calls = ((w.graph.subscribersOf d).filter w.alive).filterMap (w.reaction? new) := by
  let stored := w.onGraph (·.store id key value)
  let seen := stored.onGraph (·.observe value)
  have hstored : w.written id key value = stored := written_other hproperty hsame
  have hobserved := Graph.observed_observe stored.graph value
  have hlist : seen.graph.subscribersOf d = w.graph.subscribersOf d :=
    (hobserved.subscribersOf d).trans
      (congrArg (·.getD d []) (Graph.subscribers_store w.graph id key value))
  have hbegin := passes_toNotify hproperty hsame hd
  have honce : ∀ x, seen.entries x d ≤ 1 := fun x => by
    rw [entries, hlist]
    exact hw.ledger.entries_le_one x d
  have hyields : ∀ x, seen.Watching x →
      ∃ cells, seen.graph.Yields (seen.watcher x).query [new x] cells := by
    intro x hx
    have hresolves := hnew x hx
    rw [hstored, resolves_iff (hstored ▸ hpure.written id key value)] at hresolves
    obtain ⟨cells, hcells⟩ := hresolves
    exact ⟨cells, hcells.congr fun c _ => hobserved.content c⟩
  obtain ⟨w', calls, hpasses, hunderway, hreactions⟩ :=
    passes_notify (w := seen) hslot honce hyields (hcalm.of_reaches hbegin.reaches)
  rw [hlist] at hunderway hreactions
  refine ⟨w', calls, hbegin.trans hpasses, hunderway.slot, fun c => ?_, fun x hx => ?_, hreactions⟩
  · rw [hstored]
    exact (content_eq hunderway.objects c).trans (hobserved.content c)
  · refine hunderway.untold x ?_
    rw [List.mem_reverse, List.mem_filter]
    exact fun h => hx h.1

include hpure hproperty hcurrent in
/-- A watcher whose path resolves to another value depends on the
property. -/
theorem depends_of_changed {u v : Value} {d : DependencyId}
    (hsame : property.value.same value = false) (hd : property.dependency = some d)
    (hx : w.Watching x) (hu : w.Resolves x u) (hv : (w.written id key value).Resolves x v)
    (hother : (w.watcher x).value.same v = false) : d ∈ (w.watcher x).dependencies := by
  obtain ⟨hupToDate, hvalue⟩ := hcurrent x hx
  obtain ⟨u', hgrounded, hu', hagrees⟩ := hupToDate.resolves hvalue
  obtain rfl := hu.unique hpure hu'
  refine Decidable.byContradiction fun hnot => ?_
  obtain rfl := untouched hpure hproperty hsame hgrounded
    (fun d' hd' heq => hnot (Option.some.inj (hd.symm.trans heq) ▸ hd')) hv
  rw [hagrees] at hother
  cases hother

include hw hslot hpure hproperty hcurrent in
theorem AsRecomputed.of_reactive {new : WatcherId → Value} {d : DependencyId}
    (hsame : property.value.same value = false) (hd : property.dependency = some d)
    (hnew : ∀ x, w.Watching x → (w.written id key value).Resolves x (new x))
    (hcalm : Calm ⟨w, setProperty id key value⟩) :
    ∃ w' calls, Passes ⟨w, setProperty id key value⟩ calls ⟨w', .done ()⟩ ∧
      AsRecomputed w id key value property (reactions calls) w' := by
  obtain ⟨w', calls, hpasses, hidle, hcontent, huntold, hreactions⟩ :=
    passes_set hw hslot hpure hproperty hsame hd hnew hcalm
  have hledger := hw.ledger
  have hledger' : Ledger w' :=
    hledger.along (LedgerDiscipline.lawful.write id key value) hpasses.reaches
  have hsublist : ((reactions calls).map fun r => SubscriberId.watcher r.1).Sublist
      (w.graph.subscribersOf d) := by
    rw [hreactions]
    exact (reactions_sublist _ _ _).trans List.filter_sublist
  -- the remembered value stands for what the path resolves to before
  have hbefore : ∀ {x u}, w.Watching x → w.Resolves x u → ∀ v,
      (w.watcher x).value.same v = u.same v := by
    intro x u hx hu
    obtain ⟨hupToDate, hvalue⟩ := hcurrent x hx
    obtain ⟨u', -, hu', hagrees⟩ := hupToDate.resolves hvalue
    obtain rfl := hu.unique hpure hu'
    exact Value.same_congr hagrees
  refine ⟨w', calls, hpasses, hidle, hcontent, fun x v => ?_, ?_,
    nodup_of_sublist hsublist (hledger.entries_le_one · d), fun x hx => ?_⟩
  · rw [hreactions, mem_reactions, List.mem_filter]
    constructor
    · rintro ⟨-, hx, rfl, hother⟩
      obtain ⟨hupToDate, hvalue⟩ := hcurrent x hx
      obtain ⟨u, -, hu, -⟩ := hupToDate.resolves hvalue
      exact ⟨hx, u, hu, hnew x hx, hbefore hx hu _ ▸ hother⟩
    · rintro ⟨hx, u, hu, hv, hother⟩
      rw [← hbefore hx hu] at hother
      have hdepends := depends_of_changed hpure hproperty hcurrent hsame hd hx hu hv hother
      exact ⟨⟨(mem_subscribersOf hledger hslot).2 hdepends, decide_eq_true hx.1⟩, hx,
        hv.unique (hpure.written id key value) (hnew x hx), hother⟩
  · rw [hd]
    exact hsublist
  · have hwatcher : w'.watcher x = w.watcher x :=
      huntold x fun hmem => hx d ((mem_subscribersOf hledger hslot).1 hmem) hd
    refine ⟨by rw [hwatcher], by rw [hwatcher], fun d' => ?_⟩
    rw [hledger'.entries_eq (by simp [hidle]), hwatcher, hledger.entries_eq (by simp [hslot])]

end Write

/-- Setting a data property runs the reactions that resolving every path
anew calls for: when every watcher is up to date, no value is a NaN and
client code is without effect, exactly the watchers whose path resolves
to another value are told of it, once each, in the order of the
subscribers; and who does not depend on the property keeps its value, its
dependency set and its places. -/
theorem reactions_of_set (hw : w.Reachable) (hslot : w.slot = none) (hpure : w.Pure)
    (hproperty : w.graph.slot? id key = some (.data property))
    (hcurrent : ∀ x, w.Watching x → w.UpToDate x ∧ (w.watcher x).value.isNaN = false)
    (hafter : ∀ x, w.Watching x → ∃ v, (w.written id key value).Resolves x v)
    (hcalm : Calm ⟨w, setProperty id key value⟩) :
    ∃ w' calls, Passes ⟨w, setProperty id key value⟩ calls ⟨w', .done ()⟩ ∧
      AsRecomputed w id key value property (reactions calls) w' := by
  cases hsame : property.value.same value with
  | true =>
      have hwritten := written_same hproperty hsame
      refine ⟨w, [], .bind_nil (.ask _) ?_, .of_unchanged hpure hslot (fun c => by rw [hwritten])
        rfl rfl hcurrent fun x _ u v hu hv => hu.unique hpure (hwritten ▸ hv)⟩
      rw [hproperty]
      dsimp only
      rw [if_pos hsame]
      exact .here _
  | false =>
      cases hd : property.dependency with
      | none =>
          have hwritten := written_other hproperty hsame
          refine ⟨w.onGraph (·.store id key value), [], .bind_nil (.ask _) ?_,
            .of_unchanged hpure hslot (fun c => by rw [hwritten]) rfl
              (Graph.subscribers_store _ _ _ _) hcurrent fun x hx u v hu hv => ?_⟩
          · rw [hproperty]
            dsimp only
            rw [if_neg (by simp [hsame])]
            refine .bind_nil (.modify _) ?_
            rw [hd]
            exact .here _
          · obtain ⟨hupToDate, hvalue⟩ := hcurrent x hx
            obtain ⟨u', hgrounded, hu', -⟩ := hupToDate.resolves hvalue
            obtain rfl := hu.unique hpure hu'
            exact (untouched hpure hproperty hsame hgrounded
              (fun d _ heq => by rw [hd] at heq; cases heq) hv).symm
      | some d =>
          have hnew : ∀ x, ∃ v, w.Watching x → (w.written id key value).Resolves x v := by
            intro x
            by_cases hx : w.Watching x
            · obtain ⟨v, hv⟩ := hafter x hx
              exact ⟨v, fun _ => hv⟩
            · exact ⟨.undefined, fun h => absurd h hx⟩
          obtain ⟨new, hnew⟩ := Classical.axiomOfChoice hnew
          exact AsRecomputed.of_reactive hw hslot hpure hproperty hcurrent hsame hd hnew hcalm

/-! ### Two watchers -/

/-- Two reactive properties, and a watcher of each. -/
def watchedPair : World :=
  { World.start with
    graph := ⟨[⟨[("a", .data ⟨.bool true, some 0⟩), ("b", .data ⟨.bool true, some 1⟩)]⟩],
      [[.watcher 0], [.watcher 1]]⟩
    evaluations := [⟨.watcher 0, [], [0], false, 1⟩, ⟨.watcher 1, [], [1], false, 1⟩]
    watchers := [⟨0, Path.parse "a", .client "w" [], .bool true, [0], false, 1⟩,
      ⟨0, Path.parse "b", .client "v" [], .bool true, [1], false, 1⟩]
    names := { Names.empty with objects := ⟨[("o", 0)]⟩, watchers := ⟨[("w", 0), ("v", 1)]⟩ } }

theorem reachable_watchedPair : watchedPair.Reachable := by
  have hrun : ∃ reports, runScript 100 .start
      [.newObject "o" [("a", .const (.bool true)), ("b", .const (.bool true))],
        .observe (.object "o"), .watch "w" "o" "a" [], .watch "v" "o" "b" []] =
          .finished reports watchedPair := ⟨_, rfl⟩
  obtain ⟨reports, hrun⟩ := hrun
  exact (World.Rested.start.runScript hrun).reachable

theorem pure_watchedPair : watchedPair.Pure := by
  intro id key accessor hslot
  obtain rfl : id = 0 := Nat.lt_one_iff.1 (Graph.lt_of_slot? hslot)
  have hmem := Graph.mem_of_findEntry hslot
  simp [Graph.slots, watchedPair] at hmem

theorem eq_or_eq_of_watching_watchedPair (hx : watchedPair.Watching x) : x = 0 ∨ x = 1 :=
  Nat.le_one_iff_eq_zero_or_eq_one.1 (Nat.le_of_lt_succ (lt_of_handles hx.1))

theorem upToDate_watchedPair (hx : watchedPair.Watching x) :
    watchedPair.UpToDate x ∧ (watchedPair.watcher x).value.isNaN = false := by
  have hbacked : ∀ key d, watchedPair.graph.dependency? 0 key = some d →
      ∀ c ∈ [(0, key)] ++ [], watchedPair.graph.Backed [d] c := by
    intro key d hd c hc v _
    obtain rfl : c = (0, key) := by simpa using hc
    exact ⟨d, List.mem_singleton_self d, hd⟩
  rcases eq_or_eq_of_watching_watchedPair hx with rfl | rfl
  · exact ⟨⟨.bool true, ⟨_, .step (.data rfl) .stop, hbacked "a" 0 rfl⟩, .refl _⟩, rfl⟩
  · exact ⟨⟨.bool true, ⟨_, .step (.data rfl) .stop, hbacked "b" 1 rfl⟩, .refl _⟩, rfl⟩

/-- The write runs one reaction, which is without effect. -/
theorem calm_watchedPair : Calm ⟨watchedPair, setProperty 0 "a" (.bool false)⟩ := by
  refine .of_run 40 rfl fun n hn call hcall htells => ?_
  have honly : ∀ n < 40, ((⟨watchedPair, setProperty 0 "a" (.bool false)⟩ :
      Config Unit).advance n).calls.any Call.tells → n = 24 := by decide +kernel
  obtain rfl : n = 24 := honly n hn (List.any_eq_true.2 ⟨call, hcall, htells⟩)
  obtain rfl : call = .react 0 (.bool false) := List.mem_singleton.1 hcall
  exact inert_of_client_nil (.bool false) rfl

/-- Two watchers of two properties, of which one is set. -/
theorem reactions_of_set_of_two : ∃ w : World, w.Reachable ∧ w.slot = none ∧ w.Pure ∧
    w.graph.slot? 0 "a" = some (.data ⟨.bool true, some 0⟩) ∧
    (∀ x, w.Watching x → w.UpToDate x ∧ (w.watcher x).value.isNaN = false) ∧
    (∀ x, w.Watching x → ∃ v, (w.written 0 "a" (.bool false)).Resolves x v) ∧
    Calm ⟨w, setProperty 0 "a" (.bool false)⟩ ∧ w.Watching 0 ∧ w.Watching 1 ∧
    ∃ w' calls, Passes ⟨w, setProperty 0 "a" (.bool false)⟩ calls ⟨w', .done ()⟩ ∧
      AsRecomputed w 0 "a" (.bool false) ⟨.bool true, some 0⟩ (reactions calls) w' := by
  have hproperty : watchedPair.graph.slot? 0 "a" = some (.data ⟨.bool true, some 0⟩) := rfl
  have hafter : ∀ x, watchedPair.Watching x →
      ∃ v, (watchedPair.written 0 "a" (.bool false)).Resolves x v := by
    intro x hx
    rcases eq_or_eq_of_watching_watchedPair hx with rfl | rfl
    · exact ⟨.bool false, resolves_of_yields (.step (.data rfl) .stop)⟩
    · exact ⟨.bool true, resolves_of_yields (.step (.data rfl) .stop)⟩
  exact ⟨watchedPair, reachable_watchedPair, rfl, pure_watchedPair, hproperty,
    fun _ => upToDate_watchedPair, hafter, calm_watchedPair, ⟨by decide, rfl⟩, ⟨by decide, rfl⟩,
    reactions_of_set reachable_watchedPair rfl pure_watchedPair hproperty
      (fun _ => upToDate_watchedPair) hafter calm_watchedPair⟩

/-! ### Behind an accessor -/

/-- A watcher of a property that has been replaced by an accessor. -/
def watchedBehind : World :=
  { World.start with
    graph := ⟨[⟨[("a", .computed (.get "b")), ("b", .data ⟨.bool true, some 1⟩)]⟩],
      [[.watcher 0], []]⟩
    evaluations := [⟨.watcher 0, [], [0], false, 1⟩]
    watchers := [⟨0, Path.parse "a", .client "w" [], .bool true, [0], false, 1⟩]
    names := { Names.empty with objects := ⟨[("o", 0)]⟩, watchers := ⟨[("w", 0)]⟩ } }

theorem reachable_watchedBehind : watchedBehind.Reachable := by
  have hrun : ∃ reports, runScript 100 .start
      [.newObject "o" [("a", .const (.bool true)), ("b", .const (.bool true))],
        .observe (.object "o"), .watch "w" "o" "a" [], .define "o" "a" (.get "b")] =
          .finished reports watchedBehind := ⟨_, rfl⟩
  obtain ⟨reports, hrun⟩ := hrun
  exact (World.Rested.start.runScript hrun).reachable

theorem slot_watchedBehind {slot : Slot} (h : watchedBehind.graph.slot? id key = some slot) :
    slot = .computed (.get "b") ∨ slot = .data ⟨.bool true, some 1⟩ := by
  obtain rfl : id = 0 := Nat.lt_one_iff.1 (Graph.lt_of_slot? h)
  have hmem := Graph.mem_of_findEntry h
  simp only [Graph.slots, watchedBehind, List.getD_cons_zero, List.mem_cons, Prod.mk.injEq,
    List.not_mem_nil, or_false] at hmem
  exact hmem.imp And.right And.right

theorem pure_watchedBehind : watchedBehind.Pure := by
  intro id key accessor hslot
  obtain hcomputed | hdata := slot_watchedBehind hslot
  · cases hcomputed
    exact .get _
  · cases hdata

theorem reactive_watchedBehind (id : ObjectId) : watchedBehind.graph.Reactive id := by
  intro key property hslot
  obtain hcomputed | hdata := slot_watchedBehind hslot
  · cases hcomputed
  · cases hdata
    rfl

theorem eq_of_watching_watchedBehind (hx : watchedBehind.Watching x) : x = 0 :=
  Nat.lt_one_iff.1 (lt_of_handles hx.1)

/-- The write calls nobody. -/
theorem calm_watchedBehind : Calm ⟨watchedBehind, setProperty 0 "b" (.bool false)⟩ := by
  refine .of_run 8 rfl fun n hn call hcall _ => ?_
  have hnone : ∀ n < 8, ((⟨watchedBehind, setProperty 0 "b" (.bool false)⟩ :
      Config Unit).advance n).calls.isEmpty := by decide +kernel
  rw [List.isEmpty_iff.1 (hnone n hn)] at hcall
  cases hcall

theorem passes_watchedBehind : ∃ w' calls,
    Passes ⟨watchedBehind, setProperty 0 "b" (.bool false)⟩ calls ⟨w', .done ()⟩ ∧
      reactions calls = [] :=
  ⟨_, _, .bind_nil (.ask _) (.bind_nil (.modify _) (.bind_nil (.modify _)
    (.bind_nil (.modify _) (.bind_nil (.ask _) (.here _))))), rfl⟩

/-- That every value is the one that its path resolves to does not
suffice: the watcher does not depend on what the accessor reads. -/
theorem missed_behind_accessor : ∃ w : World, w.Reachable ∧ w.slot = none ∧ w.Pure ∧
    w.graph.slot? 0 "b" = some (.data ⟨.bool true, some 1⟩) ∧
    (∀ x, w.Watching x → ∃ u, w.Resolves x u ∧ (w.watcher x).value.same u = true) ∧
    (∀ x, w.Watching x → ∀ j, w.graph.Leads (· = (w.watcher x).data) j → w.graph.Reactive j) ∧
    (∀ x, w.Watching x → ∃ v, (w.written 0 "b" (.bool false)).Resolves x v ∧ v.isNaN = false) ∧
    Calm ⟨w, setProperty 0 "b" (.bool false)⟩ ∧
    w.Watching 0 ∧ w.Resolves 0 (.bool true) ∧
    (w.written 0 "b" (.bool false)).Resolves 0 (.bool false) ∧
    ∃ w' calls, Passes ⟨w, setProperty 0 "b" (.bool false)⟩ calls ⟨w', .done ()⟩ ∧
      reactions calls = [] ∧
      ¬ AsRecomputed w 0 "b" (.bool false) ⟨.bool true, some 1⟩ (reactions calls) w' := by
  have hwatching : watchedBehind.Watching 0 := ⟨by decide, rfl⟩
  have hbefore : watchedBehind.Resolves 0 (.bool true) :=
    resolves_of_yields (.step (.computed rfl (.get (.step (.data rfl) .stop))) .stop)
  have hafter : (watchedBehind.written 0 "b" (.bool false)).Resolves 0 (.bool false) :=
    resolves_of_yields (.step (.computed rfl (.get (.step (.data rfl) .stop))) .stop)
  obtain ⟨w', calls, hpasses, hnone⟩ := passes_watchedBehind
  refine ⟨watchedBehind, reachable_watchedBehind, rfl, pure_watchedBehind, rfl, ?_,
    fun _ _ j _ => reactive_watchedBehind j, ?_, calm_watchedBehind, hwatching, hbefore, hafter,
    w', calls, hpasses, hnone, fun h => ?_⟩
  · intro x hx
    obtain rfl := eq_of_watching_watchedBehind hx
    exact ⟨.bool true, hbefore, rfl⟩
  · intro x hx
    obtain rfl := eq_of_watching_watchedBehind hx
    exact ⟨.bool false, hafter, rfl⟩
  · -- the watcher has another value to be told of, and nobody is told
    have hchanged := (h.changed 0 (.bool false)).2
      ⟨hwatching, .bool true, hbefore, hafter, rfl⟩
    rw [hnone] at hchanged
    cases hchanged

end DataBinding
