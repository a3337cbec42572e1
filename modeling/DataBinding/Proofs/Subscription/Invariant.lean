import DataBinding.Proofs.Client.Script
import DataBinding.Proofs.Run.Reachable
import DataBinding.Proofs.Subscription.Evaluations

/-!
# Exactly-once subscription

The ledger as a discipline of client code: client code runs in states
with a ledger and deprives nobody of a handle (`ledgerDiscipline`). What
is left to show is that each thing the library does keeps it, from the
lemmas of `Subscription.Handles` and `Subscription.Evaluations`; nested
runs are covered by the contract of the calls.

The headline theorem `subscribed_exactly_once` holds in every state of
every run: outside its own evaluation a watcher is exactly once in the
list of each dependency that it depends on, and in no other list, and a
watcher that has died is in none.
-/

namespace DataBinding

open World

/-! ## The discipline -/

/-- Client code runs in states with a ledger and deprives nobody. A
reading may belong to an evaluation of client code, or to one that is
alive. -/
@[reducible] def ledgerDiscipline : Discipline .plain where
  always := Ledger
  rest := Ledger
  rel := Kept noCredit noCredit
  tracks tracker w := w.MayTrack tracker
  accessorPre _ tracker _ w := Ledger w ∧ w.MayTrack tracker
  accessorPost _ _ _ w _ w' := Ledger w' ∧ Kept noCredit noCredit w w'

namespace LedgerDiscipline

variable {α β : Type} {e : Option EvaluationId} {w w' : World}

/-- A write that keeps the ledger and deprives nobody. -/
theorem modify {f : World → World} {Q : Unit → World → Prop} {w : World} (hledger : Ledger (f w))
    (hQ : Q () (f w)) : (Proc.modify f).Safe ledgerDiscipline.contract Q w :=
  Proc.Safe.modify (fun t ht => by
    obtain rfl : t = f w := ht
    exact ⟨hledger, hQ⟩) trivial

/-- The same as a piece of client code. -/
theorem keeps_modify {f : World → World} (h : ∀ w, Ledger w → Moves noCredit noCredit w (f w)) :
    ledgerDiscipline.Keeps e (Proc.modify f) := fun w hw _ =>
  modify (h w hw).ledger ⟨(h w hw).ledger, (h w hw).kept⟩

/-- A write that deprives nobody, and what follows it. -/
theorem modify_bind {f : World → World} (h : Moves noCredit noCredit w (f w)) {p : Unit → Proc α}
    (hp : ∀ u, ledgerDiscipline.Keeps none (p u)) :
    (Proc.modify f >>= p).Safe ledgerDiscipline.contract
      (fun _ t => Ledger t ∧ Kept noCredit noCredit w t) w :=
  (modify (Q := fun _ t => t = f w) h.ledger rfl).bind fun u t ht => by
    subst ht
    exact (hp u _ h.ledger trivial).mono fun _ _ hlast => ⟨hlast.1, h.kept.andThen hlast.2⟩

theorem noteRead {property : Property} {id : ObjectId} {key : String} {w : World} (hw : Ledger w)
    (he : ledgerDiscipline.tracks e w)
    (hslot : w.graph.slot? id key = some (.data property)) :
    (DataBinding.noteRead e property).Safe ledgerDiscipline.contract
      (fun _ t => Ledger t ∧ Kept noCredit noCredit w t) w := by
  unfold DataBinding.noteRead
  split
  · rename_i e d hd
    have hbound : d < w.graph.subscribers.length :=
      hw.owned.bounded (Graph.dependency?_eq_some.2 ⟨property.value, by rw [hslot, ← hd]⟩)
    have htrack := Ledger.track hw hbound he
    exact modify htrack.ledger ⟨htrack.ledger, htrack.kept⟩
  · exact Proc.Safe.pure ⟨hw, Kept.refl w⟩

theorem read (e : Option EvaluationId) (id : ObjectId) (key : String) :
    ledgerDiscipline.Keeps e (readProperty id key e) := by
  intro w hw he
  refine Proc.Safe.bind (Q := fun found t => found = w.graph.slot? id key ∧ t = w)
    (Proc.Safe.ask ⟨rfl, rfl⟩ trivial) ?_
  rintro found t ⟨rfl, rfl⟩
  split
  · exact Proc.Safe.pure ⟨hw, Kept.refl _⟩
  · rename_i property hslot
    exact (noteRead hw he hslot).bind fun _ t ht => Proc.Safe.pure ht
  · exact Proc.Safe.perform ⟨hw, he⟩ fun _ _ ht => ht

theorem sound : ledgerDiscipline.Sound where
  refl _ := Kept.refl _
  trans h h' := h.andThen h'
  tracks_none _ := trivial
  tracks_rel h he := h.mayTrack he
  frame {s w t} hs ht hw := by
    obtain rfl : t = w := ht
    have hstep := Ledger.frame hs hw.toSameTracking
    exact ⟨hstep.ledger, hstep.ledger, hstep.kept⟩
  read := read

/-! ## The object graph -/

theorem subscribers_eq {g g' : Graph} (h : g'.subscribers = g.subscribers) (d : DependencyId)
    (s : SubscriberId) : (g'.subscribersOf d).count s = (g.subscribersOf d).count s := by
  rw [Graph.subscribersOf, Graph.subscribersOf, h]

theorem create (properties : List (String × Value)) :
    ledgerDiscipline.Keeps none (createObject properties) :=
  .bind sound (.ask sound _) fun _ =>
    .bind sound (keeps_modify fun _ hw => hw.onGraph (hw.owned.create _ _)
      fun _ d => subscribers_eq (Graph.subscribers_create _ _ _) d _) fun _ => .pure sound _

theorem observe (v : Value) : ledgerDiscipline.Keeps e (Proc.modify (·.onGraph (·.observe v))) :=
  keeps_modify fun w hw => hw.onGraph (hw.owned.observe v) fun id d => by
    rw [(Graph.observed_observe w.graph v).subscribersOf]
    rfl

theorem define (id : ObjectId) (entries : List (String × Expr)) :
    ledgerDiscipline.Keeps none (Proc.modify (·.onGraph fun g =>
      entries.foldl (fun g entry => g.define id entry.1 entry.2) g)) :=
  keeps_modify fun _ hw => hw.onGraph (hw.owned.defineAll _ _)
    fun _ d => subscribers_eq (Graph.subscribers_defineAll _ _ _) d _

theorem store (id : ObjectId) (key : String) (v : Value) :
    ledgerDiscipline.Keeps e (Proc.modify (·.onGraph (·.store id key v))) :=
  keeps_modify fun _ hw => hw.onGraph (hw.owned.store _ _ _)
    fun _ d => subscribers_eq (Graph.subscribers_store _ _ _ _) d _

theorem newDependency (into : String) :
    ledgerDiscipline.Keeps none (runTrackingAction (.newDependency into)) := by
  refine .bind sound (.ask sound _) fun d => .bind sound (keeps_modify fun w hw => ?_) fun _ =>
    .pure sound _
  have hstep : Moves noCredit noCredit w (w.onGraph (·.addDependency)) :=
    hw.onGraph (hw.owned.subscribers (by simp)) fun id d => by
      rw [Graph.subscribersOf_addDependency]
      rfl
  have hlast : Moves noCredit noCredit (w.onGraph (·.addDependency))
      ((w.onGraph (·.addDependency)).nameDependency into d) :=
    hstep.ledger.frame (.onNames _ rfl rfl)
  exact ⟨hlast.ledger, hstep.kept.andThen hlast.kept⟩

theorem register (dependency subscriber : String) :
    ledgerDiscipline.Keeps none (runTrackingAction (.register dependency subscriber)) :=
  .bind sound (.named sound _ _) fun d => .bind sound (.named sound _ _) fun client =>
    .bind sound (keeps_modify fun w hw => hw.onGraph (hw.owned.subscribers (by simp))
      fun id other => Graph.count_register_of_ne w.graph d other (by simp)) fun _ => .ask sound _

theorem unregister (dependency subscriber : String) :
    ledgerDiscipline.Keeps none (runTrackingAction (.unregister dependency subscriber)) :=
  .bind sound (.named sound _ _) fun d => .bind sound (.named sound _ _) fun client =>
    .bind sound (keeps_modify fun w hw => hw.onGraph (hw.owned.subscribers (by simp))
      fun id other => Graph.count_unregister_of_ne w.graph d other (by simp)) fun _ => .ask sound _

/-! ## Watchers -/

variable {id : WatcherId}

/-- Whoever has a handle to spare may evaluate the watcher. -/
theorem evaluate (hw : Ledger w) (hid : w.pinned id < w.surplus id) :
    (evaluateWatcher id).Safe ledgerDiscipline.contract
      (fun _ t => Ledger t ∧ Kept noCredit noCredit w t) w := by
  refine Proc.Safe.bind (Q := fun found t => found = w ∧ t = w)
    (Proc.Safe.state ⟨rfl, rfl⟩ trivial) ?_
  rintro found t ⟨rfl, rfl⟩
  split
  · exact Proc.Safe.pure ⟨hw, Kept.refl _⟩
  · rename_i begun hbegun
    have hledger := hw.beginWatcher hid hbegun
    refine Proc.Safe.bind (Q := fun _ t => t = begun) (modify hledger rfl) ?_
    rintro - t rfl
    refine (Discipline.Keeps.resolve sound _ _ _ hledger (begun_of_beginWatcher hbegun).mayTrack).bind ?_
    intro value last hlast
    have hend := Ledger.endWatcher hlast.1 hbegun hlast.2
    exact Proc.Safe.bind (modify hend.ledger ⟨hend.ledger, hend.kept⟩) fun _ _ ht =>
      Proc.Safe.pure ht

/-- What a watcher remembers is no concern of the ledger. -/
theorem remember (id : WatcherId) (v : Value) : ledgerDiscipline.Keeps e (rememberValue id v) :=
  keeps_modify fun _ hw => hw.onWatcher id rfl rfl

theorem pinned_lt_of_kept (hkept : Kept noCredit noCredit w w')
    (hid : w.pinned id < w.surplus id) : w'.pinned id < w'.surplus id := by
  have hpinned : w'.pinned id = w.pinned id := by
    simp only [pinned, ← hkept.slot]
  have := hkept.surplus id
  simp only [noCredit] at this
  omega

theorem update (hw : Ledger w) (hid : w.pinned id < w.surplus id) :
    (updateWatcher id).Safe ledgerDiscipline.contract
      (fun _ t => Ledger t ∧ Kept noCredit noCredit w t) w := by
  refine Proc.Safe.bind (Q := fun _ t => t = w) (Proc.Safe.ask rfl trivial) ?_
  rintro watcher t rfl
  split
  · exact Proc.Safe.pure ⟨hw, Kept.refl _⟩
  · refine (evaluate hw hid).bind fun result t ht => ?_
    cases result with
    | error error => exact Proc.Safe.pure ht
    | ok value =>
        have hreact : ledgerDiscipline.Keeps none (do
            let watcher ← Proc.ask (·.watcher id)
            if watcher.value.same value then pure (Except.ok false)
            else do
              rememberValue id value
              Proc.perform (.react id value)
              pure (Except.ok true : Except Error Bool)) := by
          refine .bind sound (.ask sound _) fun watcher => ?_
          split
          · exact .pure sound _
          · exact .bind sound (remember id value) fun _ =>
              .bind sound (.react id value fun _ ht => ht) fun _ => .pure sound _
        exact (hreact t ht.1 trivial).mono fun _ _ hu => ⟨hu.1, ht.2.andThen hu.2⟩

/-- A handle that was taken is to spare. -/
theorem spare_of_retain (hw : Ledger w)
    (hretain : Moves (owing id) noCredit w (w.retain (.watcher id))) :
    (w.retain (.watcher id)).pinned id < (w.retain (.watcher id)).surplus id := by
  have hcredit := hretain.kept.surplus id
  have hcovered := hw.covered id
  rw [owing_self] at hcredit
  show w.pinned id < _
  omega

/-- A process that is run between taking a handle and giving it up. -/
theorem retained {p : Proc α} (hw : Ledger w) (hid : 0 < (w.watcher id).handles)
    (hp : ∀ t, Ledger t → t.pinned id < t.surplus id → p.Safe ledgerDiscipline.contract
      (fun _ u => Ledger u ∧ Kept noCredit noCredit t u) t) {f : α → Proc β}
    (hf : ∀ a, ledgerDiscipline.Keeps none (f a)) :
    (do
      Proc.modify (·.retain (.watcher id))
      let a ← p
      Proc.modify (·.release (.watcher id))
      f a).Safe ledgerDiscipline.contract
      (fun _ t => Ledger t ∧ Kept noCredit noCredit w t) w := by
  have hretain := hw.retain hid
  have hspare := spare_of_retain hw hretain
  refine Proc.Safe.bind (Q := fun _ t => t = w.retain (.watcher id)) (modify hretain.ledger rfl) ?_
  rintro - t rfl
  refine (hp _ hretain.ledger hspare).bind fun a u hu => ?_
  have hrelease := hu.1.release (pinned_lt_of_kept hu.2 hspare)
  have hall := (hretain.kept.andThen hu.2).settle hrelease.kept (fun _ => by omega)
    (fun _ => by simp [noCredit])
  refine Proc.Safe.bind (Q := fun _ t => t = u.release (.watcher id))
    (modify hrelease.ledger rfl) ?_
  rintro - t rfl
  exact (hf a _ hrelease.ledger trivial).mono fun _ _ ht => ⟨ht.1, hall.andThen ht.2⟩

/-! ## Notifications and writes -/

theorem notifyOne (s : SubscriberId) : ledgerDiscipline.Keeps none (notifySubscriber s) := by
  intro w hw _
  refine Proc.Safe.bind (Q := fun alive t => alive = w.alive s ∧ t = w)
    (Proc.Safe.ask ⟨rfl, rfl⟩ trivial) ?_
  rintro alive t ⟨rfl, rfl⟩
  split
  · rename_i halive
    cases s with
    | client client =>
        have hclient : ledgerDiscipline.Keeps none (do
            Proc.modify (·.retain (.client client))
            invalidate (.client client)
            Proc.modify (·.release (.client client))) :=
          .bind sound (.frame sound fun w => .onClient w client _) fun _ =>
            .bind sound (.bind sound (.ask sound _) fun _ => .invalidated _ _) fun _ =>
              .frame sound fun w => .onClient w client _
        exact hclient _ hw trivial
    | watcher id =>
        have hid : 0 < (World.watcher t id).handles := by simpa [World.alive] using halive
        refine retained (f := fun _ => Proc.done ()) hw hid (fun t ht hspare => ?_)
          fun _ => .pure sound ()
        refine Proc.Safe.bind (Q := fun _ u => u = t) (Proc.Safe.ask rfl trivial) ?_
        rintro evaluating u rfl
        split
        · exact Proc.Safe.pure ⟨ht, Kept.refl _⟩
        · exact (update ht hspare).bind fun _ _ hu => Proc.Safe.pure hu
  · exact Proc.Safe.pure ⟨hw, Kept.refl _⟩

/-- Taking the dead off a list takes no watcher off that is in it. -/
theorem prune (d : DependencyId) :
    ledgerDiscipline.Keeps e (Proc.modify fun w => w.onGraph (·.prune d w.alive)) := by
  refine keeps_modify fun w hw => hw.onGraph (hw.owned.subscribers (by simp)) fun id other => ?_
  rw [Graph.subscribersOf_prune]
  split
  · rename_i hother
    rw [hother]
    by_cases halive : w.alive (.watcher id) = true
    · exact List.count_filter halive
    · have hdead : (w.watcher id).handles = 0 := by simpa [World.alive] using halive
      have hnever := hw.never (hw.not_subscribed_of_dead hdead d)
      rw [hnever]
      exact List.count_eq_zero.2 fun hmem => halive (List.mem_filter.1 hmem).2
  · rfl

theorem notify (d : DependencyId) : ledgerDiscipline.Keeps none (notify d) :=
  .bind sound (prune d) fun _ => .bind sound (.ask sound _) fun _ =>
    .each sound (fun s => notifyOne s) _

theorem write (id : ObjectId) (key : String) (v : Value) :
    ledgerDiscipline.Keeps none (setProperty id key v) := by
  refine .bind sound (.ask sound _) fun found => ?_
  split
  · exact .pure sound _
  · exact store id key v
  · split
    · exact .pure sound _
    · refine .bind sound (store id key v) fun _ => ?_
      split
      · exact .pure sound _
      · exact .bind sound (observe v) fun _ => notify _

/-! ## Named evaluations -/

theorem tracked (name : Option String) (body : Option EvaluationId → Proc α)
    (hbody : ∀ e, ledgerDiscipline.Keeps e (body e)) :
    ledgerDiscipline.Keeps none (withTracker name body) := by
  cases name with
  | none => exact hbody none
  | some name =>
      refine .named_bind sound fun w e hw he => ?_
      obtain ⟨halive, client, hclient⟩ := hw.entitled (Keyed.naming_pos he)
      have hlt := lt_of_alive halive
      have hretain := hw.retainEvaluation hlt
      refine Proc.Safe.bind (Q := fun _ u => u = w.retainEvaluation e) (modify hretain.ledger rfl) ?_
      rintro - u rfl
      have htrack : w.MayTrack (some e) := ⟨hlt, .inl ⟨client, hclient⟩⟩
      refine (hbody _ _ hretain.ledger (hretain.kept.mayTrack htrack)).bind fun a last hlast => ?_
      have hspare : 0 < last.evaluationSurplus e := by
        have hcredit := hretain.kept.evaluationSurplus e
        have hkept := hlast.2.evaluationSurplus e
        have hcovered := hw.evaluationCovered e
        rw [owing_self] at hcredit
        simp only [noCredit] at hkept
        omega
      have hparent : (last.evaluation e).parent = .client client := by
        rw [hlast.2.parent (Nat.lt_of_lt_of_le hlt hretain.kept.length), hretain.kept.parent hlt,
          hclient]
      have hrelease := hlast.1.releaseEvaluation hspare ⟨client, hparent⟩
      have hall := (hretain.kept.andThen hlast.2).settle hrelease.kept
        (fun _ => by simp [noCredit]) (fun _ => by omega)
      exact Proc.Safe.bind (modify hrelease.ledger ⟨hrelease.ledger, hall⟩) fun _ _ hu =>
        Proc.Safe.pure hu

theorem enter (into subscriber : String) (previous : Option String) :
    ledgerDiscipline.Keeps none (runTrackingAction (.enter into subscriber previous)) := by
  refine .bind sound (.named sound _ _) fun client => .bind sound (.ask sound _) fun set => ?_
  intro w hw _
  refine Proc.Safe.bind (Q := fun found t => found = w ∧ t = w)
    (Proc.Safe.state ⟨rfl, rfl⟩ trivial) ?_
  rintro found t ⟨rfl, rfl⟩
  split
  · exact Proc.Safe.pure ⟨hw, Kept.refl _⟩
  · rename_i entered hentered
    exact modify_bind (hw.enterNamed hentered into) fun _ => .pure sound _

theorem finish (evaluation : String) (into : Option String) :
    ledgerDiscipline.Keeps none (runTrackingAction (.finish evaluation into)) := by
  refine .named_bind sound fun w e hw he => ?_
  refine Proc.Safe.bind (Q := fun found t => found = w.evaluation e ∧ t = w)
    (Proc.Safe.ask ⟨rfl, rfl⟩ trivial) ?_
  rintro found t ⟨rfl, rfl⟩
  split
  · trivial
  · rename_i hunused
    refine modify_bind (hw.finishNamed evaluation he (Nat.le_of_not_lt hunused)) fun _ => ?_
    cases into with
    | none => exact .pure sound _
    | some set =>
        exact .bind sound (.frame sound fun w => .onNames w rfl rfl rfl) fun _ => .pure sound _

theorem abandon (evaluation : String) :
    ledgerDiscipline.Keeps none (runTrackingAction (.abandon evaluation)) := by
  exact .named_bind sound fun w e hw he =>
    modify_bind (hw.dropEvaluation evaluation he) fun _ => .pure sound _

/-! ## Handles that client code takes -/

theorem handles_of_named {name : String} (hw : Ledger w)
    (hid : w.names.watchers.find? name = some id) : 0 < (w.watcher id).handles := by
  have hpos : 0 < w.namings id := Keyed.naming_pos hid
  have hcovered := hw.covered id
  have := pinned_nonneg w id
  simp only [surplus, held] at hcovered
  omega

/-- A handle that is taken for a name. -/
theorem shared (hw : Ledger w) (hid : 0 < (w.watcher id).handles) (into : String) :
    Moves noCredit noCredit w ((w.retain (.watcher id)).nameWatcher into id) := by
  have hretain := hw.retain hid
  have hname := hretain.ledger.nameWatcher into (spare_of_retain hw hretain)
  exact ⟨hname.ledger, hretain.kept.settle hname.kept (fun _ => by omega)
    (fun _ => by simp [noCredit])⟩

theorem updateNamed (watcher : String) :
    ledgerDiscipline.Keeps none (runWatcherAction (.update watcher)) := by
  refine .named_bind sound fun w id hw hid => ?_
  refine retained hw (handles_of_named hw hid) (fun t ht hspare => update ht hspare) fun result => ?_
  cases result with
  | ok changed => exact .pure sound _
  | error error => exact .pure sound _

theorem disposeNamed (watcher : String) :
    ledgerDiscipline.Keeps none (runWatcherAction (.dispose watcher)) :=
  .bind sound (.named sound _ _) fun id =>
    .bind sound (keeps_modify fun _ hw => hw.dispose id) fun _ => .pure sound _

theorem dropNamed (watcher : String) :
    ledgerDiscipline.Keeps none (runWatcherAction (.drop watcher)) :=
  .bind sound (.named sound _ _) fun _ =>
    .bind sound (keeps_modify fun _ hw => hw.dropWatcher watcher) fun _ => .pure sound _

theorem share (into watcher : String) :
    ledgerDiscipline.Keeps none (runWatcherAction (.share into watcher)) := by
  exact .named_bind sound fun w id hw hid =>
    modify_bind (shared hw (handles_of_named hw hid) into) fun _ => .pure sound _

theorem handles_of_viewed {view : ViewId} {index : Nat} (hw : Ledger w)
    (hid : (w.view view).watchers[index]? = some id) : 0 < (w.watcher id).handles := by
  have hpos : 0 < w.viewings id := by
    refine List.count_pos_iff.2 (List.mem_flatMap.2 ?_)
    have hview : view < w.views.length := by
      refine Nat.lt_of_not_le fun hle => ?_
      rw [view_eq_default hle] at hid
      simp at hid
    refine ⟨w.view view, ?_, List.mem_of_getElem? hid⟩
    simp [World.view, List.getD_eq_getElem?_getD, hview]
  have hcovered := hw.covered id
  have := pinned_nonneg w id
  simp only [surplus, held] at hcovered
  omega

theorem viewWatcher (into view : String) (index : Nat) :
    ledgerDiscipline.Keeps none (runBindingAction (.viewWatcher into view index)) := by
  refine .bind sound (.named sound _ _) fun viewId => ?_
  intro w hw _
  refine Proc.Safe.bind (Q := fun found t => found = (w.view viewId).watchers[index]? ∧ t = w)
    (Proc.Safe.ask ⟨rfl, rfl⟩ trivial) ?_
  rintro found t ⟨rfl, rfl⟩
  split
  · exact Proc.Safe.pure ⟨hw, Kept.refl _⟩
  · rename_i id hid
    exact modify_bind (shared hw (handles_of_viewed hw hid) into) fun _ => .ask sound _

/-! ## New watchers -/

/-- A new watcher comes with one handle to spare. -/
theorem createWatcher (data : ObjectId) (path : Path) (reaction : Reaction) (hw : Ledger w) :
    (createWatcher data path reaction).Safe ledgerDiscipline.contract
      (fun result t => Ledger t ∧ Kept noCredit noCredit w t ∧
        ∀ id, result = .ok id → Kept (owing id) noCredit w t) w := by
  refine Proc.Safe.bind (Q := fun id t => id = w.nextWatcher ∧ t = w)
    (Proc.Safe.ask ⟨rfl, rfl⟩ trivial) ?_
  rintro id t ⟨rfl, rfl⟩
  have hadd := Ledger.addWatcher hw data path reaction
  have hspare : (World.addWatcher t data path reaction).pinned (World.nextWatcher t) <
      (World.addWatcher t data path reaction).surplus (World.nextWatcher t) := by
    have hcredit := hadd.kept.surplus (World.nextWatcher t)
    have hcovered := Covered.covered hw.toCovered (World.nextWatcher t)
    rw [owing_self] at hcredit
    show World.pinned t _ < _
    omega
  refine Proc.Safe.bind (Q := fun _ u => u = World.addWatcher t data path reaction)
    (modify hadd.ledger rfl) ?_
  rintro - u rfl
  refine (evaluate hadd.ledger hspare).bind fun result last hlast => ?_
  have hcredit := hadd.kept.andThen hlast.2
  cases result with
  | error error =>
      have hrelease := hlast.1.release (pinned_lt_of_kept hlast.2 hspare)
      refine Proc.Safe.bind (modify hrelease.ledger (Q := fun _ u => Ledger u ∧
        Kept noCredit noCredit t u) ⟨hrelease.ledger, ?_⟩) fun _ _ hu =>
          Proc.Safe.pure ⟨hu.1, hu.2, fun id hid => by cases hid⟩
      exact hcredit.settle hrelease.kept (fun _ => by omega) (fun _ => by simp [noCredit])
  | ok value =>
      have hremember : Moves noCredit noCredit last (last.onWatcher (World.nextWatcher t)
          fun watcher => { watcher with value }) := hlast.1.onWatcher _ rfl rfl
      refine Proc.Safe.bind (Q := fun _ u => Ledger u ∧
        Kept (owing (World.nextWatcher t)) noCredit t u)
        (modify hremember.ledger ⟨hremember.ledger, hcredit.andThen hremember.kept⟩)
        fun _ _ hu => Proc.Safe.pure ⟨hu.1, hu.2.weaken (fun i => ?_) (fun _ => Int.le_refl _), ?_⟩
      · simp only [noCredit, owing]
        split <;> decide
      · rintro id ⟨⟩
        exact hu.2

/-- The handle on a new watcher is handed over. -/
theorem handOver {f : World → World} {t : World} (hw : Ledger w)
    (hkept : Kept (owing id) noCredit w t)
    (hf : t.pinned id < t.surplus id → Moves (fun other => - owing id other) noCredit t (f t))
    {p : Unit → Proc α} (hp : ∀ u, ledgerDiscipline.Keeps none (p u)) :
    (Proc.modify f >>= p).Safe ledgerDiscipline.contract
      (fun _ u => Ledger u ∧ Kept noCredit noCredit w u) t := by
  have hstep : Moves (fun other => - owing id other) noCredit t (f t) := by
    refine hf ?_
    have hpinned : t.pinned id = w.pinned id := by simp only [pinned, ← hkept.slot]
    have hcredit := hkept.surplus id
    have hcovered := hw.covered id
    rw [owing_self] at hcredit
    omega
  have hall := hkept.settle hstep.kept (fun _ => by omega) (fun _ => by simp [noCredit])
  refine Proc.Safe.bind (Q := fun _ u => u = f t) (modify hstep.ledger rfl) ?_
  rintro u v rfl
  exact (hp u _ hstep.ledger trivial).mono fun _ _ hlast => ⟨hlast.1, hall.andThen hlast.2⟩

theorem watch (into object path : String) (body : List Step) :
    ledgerDiscipline.Keeps none (watchNamed into object path body) := by
  refine .bind sound (.named sound _ _) fun data => fun w hw _ => ?_
  refine (createWatcher data _ _ hw).bind fun result t ht => ?_
  cases result with
  | error error => exact Proc.Safe.pure ⟨ht.1, ht.2.1⟩
  | ok id =>
      exact handOver hw (ht.2.2 id rfl) (fun hspare => ht.1.nameWatcher into hspare)
        fun _ => .ask sound _

theorem bindPlaceholder (node : NodeId) (template : Template) (data : ObjectId) (view : ViewId)
    (path : Path) : ledgerDiscipline.Keeps none (bindPlaceholder node template data view path) := by
  intro w hw _
  refine (createWatcher data _ _ hw).bind fun result t ht => ?_
  cases result with
  | error error => exact Proc.Safe.pure ⟨ht.1, ht.2.1⟩
  | ok id =>
      exact handOver hw (ht.2.2 id rfl) (fun hspare => ht.1.viewWatches view hspare)
        fun _ => .pure sound _

theorem bindWatcher (data : ObjectId) (path : Path) (reaction : Reaction) (view : ViewId) :
    ledgerDiscipline.Keeps none (bindWatcher data path reaction view) := by
  intro w hw _
  refine (createWatcher data _ _ hw).bind fun result t ht => ?_
  cases result with
  | error error => exact Proc.Safe.pure ⟨ht.1, ht.2.1⟩
  | ok id =>
      have hshow : ledgerDiscipline.Keeps none (do
          let watcher ← Proc.ask (·.watcher id)
          reaction.run watcher.value) :=
        .bind sound (.ask sound _) fun _ =>
          (Discipline.KeepsAt.reaction sound reaction _).keeps fun _ _ _ _ => trivial
      have hshown := hshow t ht.1 trivial
      refine Proc.Safe.bind (p := Proc.ask (·.watcher id) >>= fun watcher =>
        reaction.run watcher.value) hshown fun _ u hu => ?_
      exact handOver hw ((ht.2.2 id rfl).andThen hu.2)
        (fun hspare => hu.1.viewWatches view hspare) fun _ => .pure sound _

/-! ## Every run -/

theorem lawful : ledgerDiscipline.Lawful where
  toSound := sound
  create := create
  write := write
  observe := observe
  define := define
  newDependency := newDependency
  register := register
  unregister := unregister
  notify := notify
  tracked := tracked
  enter := enter
  finish := finish
  abandon := abandon
  watch := watch
  update := updateNamed
  dispose := disposeNamed
  drop := dropNamed
  share := share
  viewWatcher := viewWatcher
  bind data path reaction view := .of_keeps sound (bindWatcher data path reaction view)
  placeholder node template data view path :=
    .of_keeps sound (bindPlaceholder node template data view path)
  tearDown {s w t} hs ht hw := by
    obtain rfl : t = w := ht
    have hstep := Ledger.tearDown hs hw.tornDown
    exact ⟨hstep.ledger, hstep.ledger, hstep.kept⟩

theorem met : ledgerDiscipline.contract.Met :=
  Discipline.met lawful fun data tracker body w hw =>
    lawful.eval (.accessor data tracker) body w hw.1 hw.2

end LedgerDiscipline

/-- What keeps to the discipline comes through states with a ledger only,
if it is run from one. -/
theorem World.Ledger.along {α : Type} {w w' : World} {p q : Proc α} (hw : Ledger w)
    (hkeeps : ledgerDiscipline.Keeps none p) (h : Reaches ⟨w, p⟩ ⟨w', q⟩) : Ledger w' :=
  (Monitor.plain_run h).always LedgerDiscipline.met hw (hkeeps w hw trivial)

theorem World.Ledger.reaches {w w' : World} {s : Step} {p : Proc Reply} (hw : Ledger w)
    (h : Reaches ⟨w, s.run .outside⟩ ⟨w', p⟩) : Ledger w' :=
  hw.along (LedgerDiscipline.lawful.step .outside s) h

theorem World.Rested.ledger {w : World} (h : w.Rested) : Ledger w := by
  induction h with
  | start => exact .start
  | step s _ hreaches ih =>
      exact ((ih.reaches hreaches).frame (.clearLog _)).ledger

theorem World.Reachable.ledger {w : World} (h : w.Reachable) : Ledger w := by
  obtain ⟨before, s, p, hbefore, hreaches⟩ := h
  exact hbefore.ledger.reaches hreaches

/-- In every state of every run: a watcher that is not in the middle of
its own evaluation is exactly once in the list of each dependency of its
dependency set and not at all in any other; one that has died is in no
list. -/
theorem subscribed_exactly_once {w : World} (h : w.Reachable) :
    (∀ id : WatcherId, w.slot ≠ some (.watcher id) → ∀ d : DependencyId,
      (w.graph.subscribersOf d).count (.watcher id) =
        if d ∈ (w.watcher id).dependencies then 1 else 0) ∧
    (∀ id : WatcherId, w.alive (.watcher id) = false → ∀ d : DependencyId,
      SubscriberId.watcher id ∉ w.graph.subscribersOf d) := by
  have hledger := h.ledger
  refine ⟨fun id hslot d => hledger.entries_eq hslot d, fun id hdead d => ?_⟩
  have hhandles : (w.watcher id).handles = 0 := by simpa [World.alive] using hdead
  exact List.count_eq_zero.1 (hledger.never (hledger.not_subscribed_of_dead hhandles d))

/-- Two watchers of one property, the second of them dropped. -/
theorem subscribed_exactly_once_of_two :
    ∃ w : World, w.Reachable ∧ w.slot ≠ some (.watcher 0) ∧ (w.watcher 0).dependencies = [0] ∧
      (w.graph.subscribersOf 0).count (.watcher 0) = 1 ∧ w.alive (.watcher 1) = false ∧
      SubscriberId.watcher 1 ∉ w.graph.subscribersOf 0 := by
  have hrun : ∃ reports last, runScript 100 .start
      [.newObject "o" [("a", .const (.bool true))], .observe (.object "o"),
        .watch "w" "o" "a" [], .watch "v" "o" "a" [], .watcher (.drop "v")] =
          .finished reports last ∧ last.slot = none ∧ (last.watcher 0).dependencies = [0] ∧
        last.alive (.watcher 1) = false := ⟨_, _, rfl, rfl, rfl, rfl⟩
  obtain ⟨reports, last, hrun, hslot, hdependencies, hdead⟩ := hrun
  have hreachable := (World.Rested.start.runScript hrun).reachable
  obtain ⟨honce, hnever⟩ := subscribed_exactly_once hreachable
  have hcount := honce 0 (by simp [hslot]) 0
  rw [hdependencies] at hcount
  exact ⟨last, hreachable, by simp [hslot], hdependencies, hcount, hdead, hnever 1 hdead 0⟩

end DataBinding
