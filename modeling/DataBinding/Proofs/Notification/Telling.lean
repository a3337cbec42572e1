import DataBinding.Proofs.Notification.Calm
import DataBinding.Proofs.Notification.Resolves

/-!
# Telling the subscribers

A calm notification, subscriber by subscriber. `Underway` says in which
states it may be: the objects are as they were when it began, and so are
the watchers that were not told yet. Telling a watcher runs its reaction
if it has a new value; telling a subscriber of client code runs none
(`passes_notifySubscriber`), and the notification runs the reactions of
its list in order (`passes_each`).
-/

namespace DataBinding

open World

variable {w a : World} {x : WatcherId} {told : List SubscriberId} {s : SubscriberId}

/-- A state during a notification that has begun in `w`. -/
structure Underway (w : World) (told : List SubscriberId) (a : World) : Prop where
  objects : a.graph.objects = w.graph.objects
  slot : a.slot = none
  length : a.watchers.length = w.watchers.length
  untold : ∀ x, .watcher x ∉ told → a.watcher x = w.watcher x

namespace Underway

/-- Telling a watcher may change it, but no other. -/
theorem tell {b : World} (h : Underway w told a) (hobjects : b.graph.objects = a.graph.objects)
    (hslot : b.slot = none) (hlength : b.watchers.length = a.watchers.length)
    (hother : ∀ y, s ≠ .watcher y → b.watcher y = a.watcher y) : Underway w (s :: told) b where
  objects := hobjects.trans h.objects
  slot := hslot
  length := hlength.trans h.length
  untold y hy := by
    rw [hother y fun heq => hy (heq ▸ List.mem_cons_self)]
    exact h.untold y fun hmem => hy (List.mem_cons_of_mem _ hmem)

/-- Nothing that matters has changed. -/
theorem tell_same {b : World} (h : Underway w told a) (hgraph : b.graph = a.graph)
    (hslot : b.slot = a.slot) (hwatchers : b.watchers = a.watchers) :
    Underway w (s :: told) b :=
  h.tell (by rw [hgraph]) (hslot.trans h.slot) (by rw [hwatchers]) fun y _ => by
    rw [watcher, watcher, hwatchers]

end Underway

/-! ## Updating -/

/-- What updating a watcher may change. -/
structure UpdatesOnly (x : WatcherId) (a b : World) : Prop where
  objects : b.graph.objects = a.graph.objects
  slot : b.slot = none
  length : b.watchers.length = a.watchers.length
  other : ∀ y, y ≠ x → b.watcher y = a.watcher y

theorem UpdatesOnly.trans {b c : World} (h : UpdatesOnly x a b) (h' : UpdatesOnly x b c) :
    UpdatesOnly x a c :=
  ⟨h'.objects.trans h.objects, h'.slot, h'.length.trans h.length,
    fun y hy => (h'.other y hy).trans (h.other y hy)⟩

theorem UpdatesOnly.onWatcher (h : a.slot = none) (change : Watcher → Watcher) :
    UpdatesOnly x a (a.onWatcher x change) :=
  ⟨rfl, h, List.length_modify .., fun _ hy => watcher_of_ne hy _ _⟩

theorem UpdatesOnly.release (h : a.slot = none) : UpdatesOnly x a (a.release (.watcher x)) := by
  have hless : UpdatesOnly x a (a.lessen x) := .onWatcher h _
  refine release_of_lessen hless fun _ =>
    hless.trans ⟨Graph.objects_unregisterAll _ _ _, h, List.length_modify .., fun y hy => ?_⟩
  rw [watcher_unsubscribe, if_neg hy]

/-- A handle on a watcher is taken. -/
theorem UpdatesOnly.retain (h : a.slot = none) (hlive : 0 < (a.watcher x).handles) :
    UpdatesOnly x a (a.retain (.watcher x)) ∧
      (a.retain (.watcher x)).watcher x =
        { a.watcher x with handles := (a.watcher x).handles + 1 } ∧
      x < (a.retain (.watcher x)).watchers.length := by
  have hretained : UpdatesOnly x a (a.retain (.watcher x)) := .onWatcher h _
  exact ⟨hretained, watcher_onWatcher_self (lt_of_handles hlive) _,
    hretained.length ▸ lt_of_handles hlive⟩

theorem UpdatesOnly.evaluated (x : WatcherId) (a : World) (cells : List Cell) :
    UpdatesOnly x a (a.evaluated x cells) :=
  ⟨objects_evaluated a x cells, rfl, length_evaluated a x cells,
    fun _ hy => watcher_evaluated_of_ne hy a cells⟩

/-- A calm update runs the reaction if the path yields another value. -/
theorem passes_updateWatcher {v : Value} {cells : List Cell} (hslot : a.slot = none)
    (hx : x < a.watchers.length) (hdisposed : (a.watcher x).disposed = false)
    (hyields : a.graph.Yields (a.watcher x).query [v] cells) (hcalm : Calm ⟨a, updateWatcher x⟩) :
    ∃ b calls result, Passes ⟨a, updateWatcher x⟩ calls ⟨b, .done result⟩ ∧
      reactions calls = (if (a.watcher x).value.same v then [] else [(x, v)]) ∧
      UpdatesOnly x a b := by
  by_cases hsame : (a.watcher x).value.same v = true
  · obtain ⟨calls, hsilent, hpasses⟩ :=
      passes_updateWatcher_same hslot hx hdisposed hyields hsame
    refine ⟨_, calls, _, hpasses, ?_, .evaluated x a cells⟩
    rw [if_pos hsame, hsilent.reactions]
  · obtain ⟨calls, hsilent, hevaluate⟩ := passes_evaluateWatcher hslot hyields
    obtain ⟨ds, hwatcher, -⟩ := watcher_evaluated hx cells
    let c := (a.evaluated x cells).onWatcher x fun watcher => { watcher with value := v }
    have hreact : ∀ {calls' : List Call} {d : Config (Except Error Bool)},
        Passes ⟨c, Proc.perform (.react x v) >>= fun _ => pure (.ok true)⟩ calls' d →
        Passes ⟨a, updateWatcher x⟩ (calls ++ calls') d := by
      intro calls' d hrest
      refine .bind_nil (.ask _) ?_
      rw [hdisposed]
      refine .bind hevaluate (.bind_nil (.ask _) ?_)
      rw [hwatcher, if_neg hsame]
      exact .bind_nil (.modify _) hrest
    have hc : UpdatesOnly x a c :=
      (UpdatesOnly.evaluated x a cells).trans (.onWatcher rfl _)
    obtain ⟨b, calls', answer, hcall, hnone, hgraph, hwatchers, hslot'⟩ :=
      (hcalm.of_reaches (hreact (.here _)).reaches).left.perform rfl
    refine ⟨b, calls ++ (.react x v :: calls' ++ []), .ok true,
      hreact (.bind (.perform hcall) (.here _)), ?_, hc.trans ⟨?_, ?_, ?_, fun y _ => ?_⟩⟩
    · rw [if_neg hsame, reactions_append, hsilent.reactions]
      simp [reactions] at hnone ⊢
      exact hnone
    · rw [hgraph]
    · exact hslot'
    · rw [hwatchers]
    · rw [watcher, watcher, hwatchers]

/-! ## Telling -/

/-- The reaction that a subscriber is told to run, when `new` are the
values that paths resolve to. -/
def World.reaction? (w : World) (new : WatcherId → Value) :
    SubscriberId → Option (WatcherId × Value)
  | .watcher x =>
    if 0 < (w.watcher x).handles ∧ (w.watcher x).disposed = false ∧
        (w.watcher x).value.same (new x) = false then
      some (x, new x)
    else none
  | .client _ => none

/-- Telling a live watcher is updating it. -/
theorem passes_toUpdate (hlive : 0 < (a.watcher x).handles) (hslot : a.slot = none) :
    Passes ⟨a, notifySubscriber (.watcher x)⟩ []
      ⟨a.retain (.watcher x), (updateWatcher x >>= fun _ => pure ()) >>= fun _ =>
        Proc.modify (·.release (.watcher x))⟩ := by
  refine .bind_nil (.ask _) ?_
  rw [if_pos (show a.alive (.watcher x) = true from decide_eq_true hlive)]
  refine .bind_nil (.modify _) ?_
  have hask : Passes ⟨a.retain (.watcher x), invalidate (.watcher x)⟩ []
      ⟨a.retain (.watcher x), updateWatcher x >>= fun _ => pure ()⟩ := by
    refine .bind_nil (.ask _) ?_
    have hidle : (a.retain (.watcher x)).slot = none := hslot
    rw [if_neg (by simp [isEvaluating, hidle])]
    exact .here _
  exact hask.bind_left _

/-- Telling a subscriber of client code is calling it. -/
theorem passes_toInvalidated {client : Nat} (hlive : a.alive (.client client) = true) :
    Passes ⟨a, notifySubscriber (.client client)⟩ []
      ⟨a.retain (.client client),
        Proc.perform (.invalidated ((a.retain (.client client)).client client).name
          ((a.retain (.client client)).client client).body) >>= fun _ =>
            Proc.modify (·.release (.client client))⟩ := by
  refine .bind_nil (.ask _) ?_
  rw [if_pos hlive]
  refine .bind_nil (.modify _) ?_
  have hask : Passes ⟨a.retain (.client client), invalidate (.client client)⟩ []
      ⟨a.retain (.client client),
        Proc.perform (.invalidated ((a.retain (.client client)).client client).name
          ((a.retain (.client client)).client client).body)⟩ :=
    .bind_nil (.ask _) (.here _)
  exact hask.bind_left _

/-- Telling a watcher runs its reaction if there is a new value. -/
theorem passes_tellWatcher {new : WatcherId → Value} (ha : Underway w told a)
    (hlive : 0 < (a.watcher x).handles) (hx : .watcher x ∉ told)
    (hnew : (w.watcher x).disposed = false →
      ∃ cells, w.graph.Yields (w.watcher x).query [new x] cells)
    (hcalm : Calm ⟨a, notifySubscriber (.watcher x)⟩) :
    ∃ b calls, Passes ⟨a, notifySubscriber (.watcher x)⟩ calls ⟨b, .done ()⟩ ∧
      Underway w (.watcher x :: told) b ∧
      reactions calls = (w.reaction? new (.watcher x)).toList := by
  have hprefix := passes_toUpdate hlive ha.slot
  have hwatcher := ha.untold x hx
  let c := a.retain (.watcher x)
  obtain ⟨hc, hself, hlt⟩ := UpdatesOnly.retain ha.slot hlive
  rw [hwatcher] at hself
  obtain ⟨b, calls, result, hupdate, hreactions, hb⟩ : ∃ b calls result,
      Passes ⟨c, updateWatcher x⟩ calls ⟨b, .done result⟩ ∧
      reactions calls = (w.reaction? new (.watcher x)).toList ∧ UpdatesOnly x c b := by
    cases hdisposed : (w.watcher x).disposed with
    | true =>
        refine ⟨c, [], .ok false, .bind_nil (.ask _) ?_, by simp [reaction?, hdisposed],
          rfl, hc.slot, rfl, fun _ _ => rfl⟩
        rw [hself, if_pos hdisposed]
        exact .here _
    | false =>
        obtain ⟨cells, hyields⟩ := hnew hdisposed
        have hquery : c.graph.Yields (c.watcher x).query [new x] cells := by
          rw [hself]
          exact hyields.congr fun cell _ => content_eq ha.objects cell
        obtain ⟨b, calls, result, hupdate, hreactions, hb⟩ := passes_updateWatcher hc.slot
          hlt (by rw [hself, hdisposed]) hquery (hcalm.of_reaches hprefix.reaches).left.left
        refine ⟨b, calls, result, hupdate, hreactions.trans ?_, hb⟩
        rw [hwatcher] at hlive
        rw [hself]
        cases hsame : (w.watcher x).value.same (new x) with
        | true => simp [reaction?, hsame]
        | false => simp [reaction?, hlive, hdisposed, hsame]
  have hall := hb.trans (.release hb.slot)
  refine ⟨_, [] ++ (calls ++ [] ++ []), hprefix.trans (.bind (.bind hupdate (.here _)) (.modify _)),
    ha.tell ?_ hall.slot ?_ fun y hy => ?_, by simpa using hreactions⟩
  · rw [hall.objects, hc.objects]
  · rw [hall.length, hc.length]
  · have hne : y ≠ x := fun heq => hy (by rw [heq])
    rw [hall.other y hne, hc.other y hne]

/-- Telling a subscriber, of either kind. -/
theorem passes_notifySubscriber {new : WatcherId → Value} (ha : Underway w told a)
    (hs : ∀ x, s = .watcher x → s ∉ told)
    (hnew : ∀ x, s = .watcher x → 0 < (w.watcher x).handles → (w.watcher x).disposed = false →
      ∃ cells, w.graph.Yields (w.watcher x).query [new x] cells)
    (hcalm : Calm ⟨a, notifySubscriber s⟩) :
    ∃ b calls, Passes ⟨a, notifySubscriber s⟩ calls ⟨b, .done ()⟩ ∧ Underway w (s :: told) b ∧
      reactions calls = (w.reaction? new s).toList := by
  cases halive : a.alive s with
  | false =>
      refine ⟨a, [], .bind_nil (.ask _) ?_, ha.tell_same rfl rfl rfl, ?_⟩
      · rw [halive]
        exact .here _
      · cases s with
        | client client => rfl
        | watcher x =>
            have hdead : ¬ 0 < (w.watcher x).handles := by
              rw [← ha.untold x (hs x rfl)]
              exact of_decide_eq_false halive
            simp [reaction?, hdead]
  | true =>
      cases s with
      | watcher x =>
          have hlive : 0 < (a.watcher x).handles := of_decide_eq_true halive
          have hwatcher := ha.untold x (hs x rfl)
          exact passes_tellWatcher ha hlive (hs x rfl) (hnew x rfl (hwatcher ▸ hlive)) hcalm
      | client client =>
          have hbegin := passes_toInvalidated halive
          obtain ⟨b, calls, answer, hcall, hnone, hgraph, hwatchers, hslot⟩ :=
            (hcalm.of_reaches hbegin.reaches).left.perform rfl
          refine ⟨_, [] ++ (.invalidated _ _ :: calls ++ []),
            hbegin.trans (.bind (.perform hcall) (.modify _)),
            ha.tell_same hgraph hslot hwatchers, ?_⟩
          simpa [reactions, reaction?] using hnone

/-- Telling the subscribers of a list in order. -/
theorem passes_each {new : WatcherId → Value} :
    ∀ (rest : List SubscriberId) {told : List SubscriberId} {a : World}, Underway w told a →
      (∀ x, (told ++ rest).count (.watcher x) ≤ 1) →
      (∀ x, .watcher x ∈ rest → 0 < (w.watcher x).handles → (w.watcher x).disposed = false →
        ∃ cells, w.graph.Yields (w.watcher x).query [new x] cells) →
      Calm ⟨a, Proc.each notifySubscriber rest⟩ →
      ∃ b calls, Passes ⟨a, Proc.each notifySubscriber rest⟩ calls ⟨b, .done ()⟩ ∧
        Underway w (rest.reverse ++ told) b ∧
        reactions calls = rest.filterMap (w.reaction? new)
  | [], told, a, ha, _, _, _ => ⟨a, [], .here _, ha, rfl⟩
  | s :: rest, told, a, ha, honce, hnew, hcalm => by
      have hs : ∀ x, s = .watcher x → s ∉ told := by
        rintro x rfl hmem
        have hcount := honce x
        have hpos := List.count_pos_iff.2 hmem
        simp only [List.count_append, List.count_cons_self] at hcount
        omega
      obtain ⟨b, calls, hfirst, hb, hreactions⟩ := passes_notifySubscriber ha hs
        (fun x hx => hnew x (hx ▸ List.mem_cons_self)) hcalm.left
      have honce' : ∀ x, (s :: told ++ rest).count (.watcher x) ≤ 1 := by
        intro x
        have hcount := honce x
        simp only [List.count_append, List.count_cons, List.cons_append] at hcount ⊢
        omega
      obtain ⟨c, calls', hrest, hc, hreactions'⟩ := passes_each rest hb honce'
        (fun x hx => hnew x (List.mem_cons_of_mem _ hx)) (hcalm.right hfirst.reaches)
      refine ⟨c, calls ++ calls', .bind hfirst hrest, by simpa using hc, ?_⟩
      rw [reactions_append, hreactions, hreactions', List.filterMap_cons]
      cases w.reaction? new s <;> rfl

end DataBinding
