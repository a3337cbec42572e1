import DataBinding.Proofs.Freshness.Observing
import DataBinding.Proofs.Subscription.Invariant

/-!
# Freshness as a discipline

Client code runs while no evaluation is open, and leaves no watcher stale
that was not stale before (`freshDiscipline`). A write makes stale only
who depends on the written property, and these are the subscribers that
are told; whoever was told is up to date from then on, because what is
called on the way keeps the discipline itself. So the watchers that are
stale during a notification are among those that were stale before the
write and those that are still to be told (`notify_of_listed`).
-/

namespace DataBinding

open World

/-! ## The discipline -/

/-- Client code makes no watcher stale. -/
@[reducible] def freshDiscipline : Discipline accounted where
  always _ := True
  rest s := Fair s ∧ s.world.slot = none
  rel s t := ∀ x, t.world.Stale x → s.world.Stale x
  tracks e _ := e = none
  accessorPre _ _ body s := Fair s ∧ body.Pure
  accessorPost data tracker body s v t := Answered Fair (.value data body) tracker s [v] t

namespace FreshDiscipline

variable {α β : Type} {e : Option EvaluationId} {s t : Observing} {x y : WatcherId}

/-- A write that leaves all objects as they are. -/
theorem modify {f : World → World} (hs : Fair s)
    (hobjects : (f s.world).graph.objects = s.world.graph.objects) :
    (Proc.modify f).Safe freshDiscipline.contract
      (fun _ t => Fair t ∧ t.world = f s.world) s :=
  Proc.Safe.modify (fun _ ht => ⟨trivial, hs.quiet ht hobjects, ht.1.1.1⟩) trivial

/-- What a write that settles leaves. -/
theorem settled {w : World} (hs : freshDiscipline.rest s) (ht : accounted.next s w t)
    (hw : Settles s.world w) : freshDiscipline.rest t ∧ freshDiscipline.rel s t := by
  have hworld : t.world = w := ht.1.1.1
  refine ⟨⟨hs.1.quiet ht hw.objects, ?_⟩, fun x hx => hw.stale x ?_⟩
  · rw [hworld, hw.slot]
    exact hs.2
  · exact hworld ▸ hx

/-- A write that settles. -/
theorem settle {f : World → World} (hs : freshDiscipline.rest s)
    (hf : Settles s.world (f s.world)) :
    (Proc.modify f).Safe freshDiscipline.contract
      (fun _ t => freshDiscipline.rest t ∧ freshDiscipline.rel s t) s :=
  Proc.Safe.modify (fun _ ht => ⟨trivial, settled hs ht hf⟩) trivial

theorem keeps_settle {f : World → World} (hf : ∀ w, Settles w (f w)) :
    freshDiscipline.Keeps e (Proc.modify f) :=
  fun _ hs _ => settle hs (hf _)

/-- A process after a write that settles. -/
theorem settle_bind {f : World → World} (hs : freshDiscipline.rest s)
    (hf : Settles s.world (f s.world)) {p : Unit → Proc α}
    (hp : ∀ u, freshDiscipline.Keeps none (p u)) :
    (Proc.modify f >>= p).Safe freshDiscipline.contract
      (fun _ t => freshDiscipline.rest t ∧ freshDiscipline.rel s t) s :=
  (settle hs hf).bind fun u t ht =>
    (hp u t ht.1 rfl).mono fun _ _ hu => ⟨hu.1, fun x hx => ht.2 x (hu.2 x hx)⟩

theorem reads : Reads freshDiscipline.contract Fair where
  track {s _ e d} hs ht := ⟨trivial, hs.quiet ht (objects_track s.world e d)⟩
  pure hs hslot := hs.pure hslot
  pre hs hpure := ⟨hs, hpure⟩
  post ht := ht

theorem read (e : Option EvaluationId) (id : ObjectId) (key : String) :
    freshDiscipline.Keeps e (readProperty id key e) := by
  rintro s hs rfl
  refine (reads.property hs.1 id key).mono fun v t ht => ?_
  obtain ⟨hfair, cells, -, hworld⟩ := ht
  obtain hworld : t.world = s.world := hworld
  exact ⟨⟨hfair, hworld ▸ hs.2⟩, fun x hx => hworld ▸ hx⟩

theorem sound : freshDiscipline.Sound where
  refl _ _ h := h
  trans h h' x hx := h x (h' x hx)
  tracks_none _ := rfl
  tracks_rel _ he := he
  frame hs ht hw := ⟨trivial, settled hs ht (.of_sameTracking hw.toSameTracking)⟩
  read := read

/-! ## Objects and accessors -/

/-- What is built in an orderly way makes no watcher stale. -/
theorem build {f : World → World} (hs : freshDiscipline.rest s)
    (hextends : Graph.Extends s.world.graph (f s.world).graph)
    (hslot : (f s.world).slot = s.world.slot)
    (hwatchers : (f s.world).watchers = s.world.watchers) :
    (Proc.modify f).Safe freshDiscipline.contract
      (fun _ t => freshDiscipline.rest t ∧ freshDiscipline.rel s t) s := by
  refine Proc.Safe.modify (fun t ht => ⟨trivial, ?_⟩) trivial
  have hworld : t.world = f s.world := ht.1.1.1
  obtain ⟨hfair, hfree⟩ := hs
  have hdata : ∀ {id key property}, s.observed id →
      (f s.world).graph.slot? id key = some (.data property) →
      s.world.graph.slot? id key = some (.data property) := by
    intro id key property hid hnew
    rcases hextends id key with hsame | ⟨hnone, -⟩ | ⟨accessor, haccessor⟩
    · exact hsame ▸ hnew
    · exact absurd hnone (ht.1.2.existing hid (by rw [hworld]; exact hnew))
    · rw [haccessor] at hnew
      cases hnew
  have hnew : Fair t := by
    refine .next ht (fun id key j hid hc => ?_) fun j hj key property hnew => ?_
    · obtain ⟨property, hnew, hvalue⟩ := Graph.slot?_of_content hc
      refine hfair.closed id key j hid ?_
      simp [Graph.content, hdata hid hnew, hvalue]
    · exact hfair.reactive j hj key property (hdata hj hnew)
  refine ⟨⟨hnew, by rw [hworld, hslot, hfree]⟩, fun x hx => ?_⟩
  -- whoever is stale is a watcher that was there before the write
  have hwatcher : t.world.watcher x = s.world.watcher x := by
    rw [watcher, watcher, hworld, hwatchers]
  have hlt : x < s.world.watchers.length := lt_of_handles (hwatcher ▸ hx.1)
  have hthere : s.world.watchers ≠ [] := fun hnone => by simp [hnone] at hlt
  have hstays : ∀ c : Cell, s.observed c.1 →
      t.world.graph.slot? c.1 c.2 = s.world.graph.slot? c.1 c.2 := by
    intro c hc
    rw [hworld]
    rcases hextends c.1 c.2 with hsame | ⟨-, property, hproperty⟩ | ⟨accessor, haccessor⟩
    · exact hsame
    · rw [hproperty, hdata hc hproperty]
    · rw [haccessor, ht.1.2.installed hthere hc (by rw [hworld]; exact haccessor)]
  exact hx.of_sameButHandles ⟨hwatcher ▸ hx.1, _, hwatcher⟩ fun v hv =>
    hv.frame hfair.closed (hfair.begins hlt) fun c hc _ => .of_slot? (hstays c hc)

theorem create (properties : List (String × Value)) :
    freshDiscipline.Keeps none (createObject properties) := by
  intro s hs _
  refine Proc.Safe.bind (Q := fun id t => id = s.world.graph.nextObject ∧ t = s)
    (Proc.Safe.ask ⟨rfl, rfl⟩ trivial) ?_
  rintro id t ⟨rfl, rfl⟩
  exact (build hs (Graph.extends_create _ properties) rfl rfl).bind fun _ _ ht => Proc.Safe.pure ht

theorem define (id : ObjectId) (entries : List (String × Expr)) :
    freshDiscipline.Keeps none (Proc.modify (·.onGraph fun g =>
      entries.foldl (fun g entry => g.define id entry.1 entry.2) g)) :=
  fun _ hs _ => build hs (Graph.extends_defineAll _ id entries) rfl rfl

/-- Observing changes no value and keeps every dependency. -/
theorem Stale.of_observed {w : World} {v : Value} (h : (w.onGraph (·.observe v)).Stale x) :
    w.Stale x :=
  h.of_sameButHandles ⟨h.1, _, rfl⟩ fun _ hu => hu.observed (Graph.observed_observe _ v)

theorem observe (v : Value) : freshDiscipline.Keeps none (Proc.modify (·.onGraph (·.observe v))) := by
  intro s hs _
  refine Proc.Safe.modify (fun t ht => ⟨trivial, ⟨hs.1.observe ht, ?_⟩, fun x hx => ?_⟩) trivial
  · rw [ht.1.1.1]
    exact hs.2
  · rw [ht.1.1.1] at hx
    exact Stale.of_observed hx

/-! ## Evaluating -/

/-- An evaluation finds the value that the path yields. -/
theorem evaluate (hs : freshDiscipline.rest s) (hx : x < s.world.watchers.length) :
    (evaluateWatcher x).Safe freshDiscipline.contract
      (fun result t => freshDiscipline.rest t ∧ ∃ v cells, result = .ok v ∧
        s.world.graph.Yields (s.world.watcher x).query [v] cells ∧
        (∀ c ∈ cells, s.world.graph.Reactive c.1) ∧ t.world = s.world.evaluated x cells) s := by
  refine Proc.Safe.bind (Q := fun w t => w = s.world ∧ t = s)
    (Proc.Safe.state ⟨rfl, rfl⟩ trivial) ?_
  rintro w t ⟨rfl, rfl⟩
  rw [beginWatcher_of_free hs.2]
  refine (modify hs.1 (f := fun _ => t.world.begun x) rfl).bind fun _ u hu => ?_
  refine (reads.resolve hu.1 _ _).bind fun v u' hu' => ?_
  obtain ⟨hfair, cells, hyields, hworld⟩ := hu'
  have hbegun : accounted.world u = t.world.begun x := hu.2
  rw [hbegun] at hyields hworld
  have hlast : (accounted.world u').endWatcher x t.world.nextEvaluation =
      t.world.evaluated x cells := by
    rw [hworld]
    rfl
  refine (modify hfair (Graph.objects_unregisterAll _ _ _)).bind fun _ last hend =>
    Proc.Safe.pure ?_
  rw [hlast] at hend
  refine ⟨⟨hend.1, hend.2 ▸ rfl⟩, v, cells, rfl, hyields, fun c hc => ?_, hend.2⟩
  exact hs.1.reactive c.1 ((Graph.Yields.within hs.1.closed hyields (hs.1.begins hx)).1 c hc)

/-- The value of a watcher is remembered. -/
theorem remember (hs : freshDiscipline.rest s) (v : Value) :
    (rememberValue x v).Safe freshDiscipline.contract
      (fun _ t => freshDiscipline.rest t ∧
        t.world = s.world.onWatcher x fun watcher => { watcher with value := v }) s :=
  (modify hs.1 rfl).mono fun _ _ ht => ⟨⟨ht.1, ht.2 ▸ hs.2⟩, ht.2⟩

/-- Updating a watcher brings it up to date. -/
theorem update (hs : freshDiscipline.rest s) (hx : x < s.world.watchers.length) :
    (updateWatcher x).Safe freshDiscipline.contract
      (fun _ t => freshDiscipline.rest t ∧ freshDiscipline.rel s t ∧ ¬ t.world.Stale x) s := by
  refine Proc.Safe.bind (Q := fun watcher t => watcher = s.world.watcher x ∧ t = s)
    (Proc.Safe.ask ⟨rfl, rfl⟩ trivial) ?_
  rintro watcher t ⟨rfl, rfl⟩
  split
  · rename_i hdisposed
    exact Proc.Safe.pure ⟨hs, fun _ h => h, fun hstale => by simp [hstale.2.1] at hdisposed⟩
  · refine (evaluate hs hx).bind fun result u hu => ?_
    obtain ⟨hrest, v, cells, rfl, hyields, hreactive, hworld⟩ := hu
    obtain ⟨ds, hwatcher, -⟩ := watcher_evaluated hx cells
    refine Proc.Safe.bind (Q := fun found u' => found = u.world.watcher x ∧ u' = u)
      (Proc.Safe.ask ⟨rfl, rfl⟩ trivial) ?_
    rintro found u' ⟨rfl, rfl⟩
    split
    · rename_i hsame
      have hupToDate : ¬ u'.world.Stale x := by
        refine fun hstale => hstale.2.2 ⟨v, ?_, .inl hsame⟩
        have hgrounded := grounded_evaluated hx hyields hreactive
        rw [← hworld] at hgrounded
        have hquery : (u'.world.watcher x).query = (t.world.watcher x).query := by
          rw [hworld, hwatcher]
          rfl
        rwa [hquery]
      refine Proc.Safe.pure ⟨hrest, fun y hy => ?_, hupToDate⟩
      by_cases hself : y = x
      · exact absurd (hself ▸ hy) hupToDate
      · exact Stale.of_evaluated (hworld ▸ hy) hself
    · refine (remember hrest v).bind fun _ u hu => ?_
      have hafter := fresh_remembered hx hyields hreactive
      rw [remembered, ← hworld, ← hu.2] at hafter
      have hrel : ∀ y, u.world.Stale y → t.world.Stale y ∧ y ≠ x := fun y hy => by
        have hne : y ≠ x := fun hself => hy.2.2 (hself ▸ hafter.1)
        exact ⟨hafter.2 y hne hy, hne⟩
      have hreact : freshDiscipline.Keeps none (Proc.perform (.react x v)) :=
        .react x v fun _ ht => ht
      refine (hreact u hu.1 rfl).bind fun _ last hlast =>
        Proc.Safe.pure ⟨hlast.1, fun y hy => (hrel y (hlast.2 y hy)).1,
          fun hstale => (hrel x (hlast.2 x hstale)).2 rfl⟩

/-! ## Handles that are taken meanwhile -/

/-- What is done between taking a handle on a live watcher and giving it
up. -/
theorem retained {p : Proc α} (hs : freshDiscipline.rest s)
    (hx : 0 < (s.world.watcher x).handles) {R : Observing → Prop}
    (hR : ∀ {t u : Observing}, R t → (∀ y, u.world.Stale y → t.world.Stale y) → R u)
    (hp : ∀ t, freshDiscipline.rest t → x < t.world.watchers.length →
      freshDiscipline.rel s t → p.Safe freshDiscipline.contract
        (fun _ u => freshDiscipline.rest u ∧ R u) t) {f : α → Proc β}
    (hf : ∀ a, freshDiscipline.Keeps none (f a)) :
    (do
      Proc.modify (·.retain (.watcher x))
      let a ← p
      Proc.modify (·.release (.watcher x))
      f a).Safe freshDiscipline.contract (fun _ t => freshDiscipline.rest t ∧ R t) s := by
  refine (modify hs.1 rfl).bind fun _ t ht => ?_
  have hsettles := Settles.retain hx
  have hrest : freshDiscipline.rest t := ⟨ht.1, ht.2 ▸ hs.2⟩
  have hlength : x < t.world.watchers.length := by
    rw [ht.2]
    exact (List.length_modify ..).symm ▸ lt_of_handles hx
  refine (hp t hrest hlength fun y hy => hsettles.stale y (ht.2 ▸ hy)).bind fun a u hu => ?_
  exact (settle_bind hu.1 (Settles.release u.world x) fun _ => hf a).mono
    fun _ _ hv => ⟨hv.1, hR hu.2 hv.2⟩

/-! ## Notifications and writes -/

/-- Who was told is not stale. -/
theorem notifyOne (hs : freshDiscipline.rest s) (sub : SubscriberId) :
    (notifySubscriber sub).Safe freshDiscipline.contract
      (fun _ t => freshDiscipline.rest t ∧ freshDiscipline.rel s t ∧
        ∀ x, sub = .watcher x → ¬ t.world.Stale x) s := by
  refine Proc.Safe.bind (Q := fun alive t => alive = s.world.alive sub ∧ t = s)
    (Proc.Safe.ask ⟨rfl, rfl⟩ trivial) ?_
  rintro alive t ⟨rfl, rfl⟩
  split
  · rename_i halive
    cases sub with
    | client client =>
        have hclient : freshDiscipline.Keeps none (do
            Proc.modify (·.retain (.client client))
            invalidate (.client client)
            Proc.modify (·.release (.client client))) :=
          .bind sound (.frame sound fun w => .onClient w client _) fun _ =>
            .bind sound (.bind sound (.ask sound _) fun _ => .invalidated _ _) fun _ =>
              .frame sound fun w => .onClient w client _
        exact (hclient t hs rfl).mono fun _ _ ht => ⟨ht.1, ht.2, fun x hx => by cases hx⟩
    | watcher x =>
        have hx : 0 < (t.world.watcher x).handles := by simpa [World.alive] using halive
        refine (retained (f := fun _ => Proc.done ()) hs hx
          (R := fun u => freshDiscipline.rel t u ∧ ¬ u.world.Stale x)
          (fun hu hrel => ⟨fun y hy => hu.1 y (hrel y hy), fun h => hu.2 (hrel x h)⟩)
          (fun u hu hlength hrel => ?_) fun _ => .pure sound ()).mono fun _ _ hu =>
            ⟨hu.1, hu.2.1, fun y hy => by cases hy; exact hu.2.2⟩
        refine Proc.Safe.bind (Q := fun evaluating v => evaluating = false ∧ v = u)
          (Proc.Safe.ask ⟨by simp [isEvaluating, hu.2], rfl⟩ trivial) ?_
        rintro evaluating v ⟨rfl, rfl⟩
        exact (update hu hlength).bind fun _ _ hlast =>
          Proc.Safe.pure ⟨hlast.1, fun y hy => hrel y (hlast.2.1 y hy), hlast.2.2⟩
  · rename_i hdead
    refine Proc.Safe.pure ⟨hs, fun _ h => h, fun x hx hstale => hdead ?_⟩
    rw [hx]
    simpa [World.alive] using hstale.1

/-- If whoever is stale is on the list or was expected to be, only the
latter are stale after all on the list were told. -/
theorem notify_of_listed {expected : WatcherId → Prop} {d : DependencyId}
    (hs : freshDiscipline.rest s) (hlisted : ∀ x, s.world.Stale x →
      expected x ∨ .watcher x ∈ s.world.graph.subscribersOf d) :
    (notify d).Safe freshDiscipline.contract
      (fun _ t => freshDiscipline.rest t ∧ ∀ x, t.world.Stale x → expected x) s := by
  refine (modify hs.1 rfl).bind fun _ t ht => ?_
  have hrest : freshDiscipline.rest t := ⟨ht.1, ht.2 ▸ hs.2⟩
  refine Proc.Safe.bind (Q := fun subscribers u =>
    subscribers = t.world.graph.subscribersOf d ∧ u = t) (Proc.Safe.ask ⟨rfl, rfl⟩ trivial) ?_
  rintro subscribers u ⟨rfl, rfl⟩
  -- whoever is stale is expected to be or still to be told
  refine (Proc.Safe.each (fun rest u => freshDiscipline.rest u ∧
      ∀ x, u.world.Stale x → expected x ∨ .watcher x ∈ rest) ⟨hrest, fun x hx => ?_⟩
    fun sub rest u hu => ?_).mono fun _ _ hu => ⟨hu.1, fun x hx => by simpa using hu.2 x hx⟩
  · rw [ht.2] at hx
    have hsettles : Settles s.world (s.world.onGraph (·.prune d s.world.alive)) := .onGraph _ rfl
    refine (hlisted x (hsettles.stale x hx)).imp_right fun hmem => ?_
    rw [ht.2]
    refine (Graph.subscribersOf_prune ..).symm ▸ ?_
    rw [if_pos rfl]
    exact List.mem_filter.2 ⟨hmem, decide_eq_true hx.1⟩
  · refine (notifyOne hu.1 sub).mono fun _ v hv => ⟨hv.1, fun x hx => ?_⟩
    refine (hu.2 x (hv.2.1 x hx)).imp_right fun hmem => ?_
    rcases List.mem_cons.1 hmem with hself | hmem
    · exact absurd hx (hv.2.2 x hself.symm)
    · exact hmem

theorem notify (d : DependencyId) : freshDiscipline.Keeps none (notify d) :=
  fun _ hs _ => notify_of_listed hs fun _ hx => .inl hx

/-- A write makes stale only who depends on the property. -/
theorem Stale.of_stored {w : World} {id : ObjectId} {key : String} {property : Property}
    {v : Value} (hslot : w.graph.slot? id key = some (.data property))
    (h : (w.onGraph (·.store id key v)).Stale x) :
    w.Stale x ∨ ∃ d ∈ (w.watcher x).dependencies, property.dependency = some d := by
  by_cases hdepends : ∃ d ∈ (w.watcher x).dependencies, property.dependency = some d
  · exact .inr hdepends
  · refine .inl (h.of_sameButHandles ⟨h.1, _, rfl⟩ fun u hu => hu.store hslot ?_ v)
    exact fun d hd heq => hdepends ⟨d, hd, heq⟩

/-- Only an object that is not observed has a property that is not
reactive. -/
theorem fair_stored_plain {id : ObjectId} {key : String} {property : Property} {v : Value}
    (hs : Fair s) (hslot : s.world.graph.slot? id key = some (.data property))
    (hplain : property.dependency = none)
    (ht : accounted.next s (s.world.onGraph (·.store id key v)) t) : Fair t := by
  have hstays : ∀ {j otherKey}, s.observed j →
      (s.world.graph.store id key v).slot? j otherKey = s.world.graph.slot? j otherKey := by
    intro j otherKey hj
    rw [Graph.slot?_store_data hslot, if_neg]
    rintro ⟨rfl, -⟩
    simpa [hplain] using hs.reactive j hj key property hslot
  refine .next ht (fun i otherKey j hi hc => ?_) fun j hj otherKey found hfound => ?_
  · refine hs.closed i otherKey j hi ?_
    rwa [Graph.content, ← hstays hi]
  · exact hs.reactive j hj otherKey found (hstays hj ▸ hfound)

/-- What a write leads to is observed, and the observation that follows
the write makes it reactive. -/
theorem fair_observed {id : ObjectId} {key : String} {property : Property} {v : Value}
    {u : Observing} (hs : Fair s) (hslot : s.world.graph.slot? id key = some (.data property))
    (ht : accounted.next s (s.world.onGraph (·.store id key v)) t)
    (hu : accounted.next t (t.world.onGraph (·.observe v)) u) : Fair u := by
  have hstored := fun j otherKey => Graph.slot?_store_data hslot j otherKey v
  have hobserved := Graph.observed_observe t.world.graph v
  have hworld : t.world = s.world.onGraph (·.store id key v) := ht.1.1.1
  have hleads : ∀ j, (s.world.graph.store id key v).Leads s.observed j →
      s.observed j ∨ (s.world.graph.store id key v).Leads (fun i => v = .object i) j :=
    fun j hj => (hj.of_store hslot).imp_left (·.of_closed hs.closed)
  have hreactive : ∀ j, s.observed j → (s.world.graph.store id key v).Reactive j := by
    intro j hj otherKey found hfound
    rw [hstored] at hfound
    split at hfound
    · rename_i hsame
      cases hfound
      exact hs.reactive id (hsame.1 ▸ hj) key property hslot
    · exact hs.reactive j hj otherKey found hfound
  have hpending : ∀ j, t.observed j → t.world.graph.Reactive j ∨
      t.world.graph.Leads (fun i => v = .object i) j := by
    intro j hj
    rw [hworld]
    rcases leads_or_reactive ht.1.1 hj with hj | hj
    · exact (hleads j hj).imp_left (hreactive j)
    · exact .inl hj
  refine .of_reactive hu fun j hj => ?_
  rcases leads_or_reactive hu.1.1 hj with hj | hj
  · have hclosed : t.world.graph.Closed t.observed := by
      rw [hworld]
      exact closed_of_next ht.1.1
    refine (hpending j (hj.of_closed (hclosed.congr hobserved.content))).elim ?_ ?_
    · exact hobserved.reactive
    · exact Graph.reactive_observe
  · exact hj

theorem write (id : ObjectId) (key : String) (v : Value) :
    freshDiscipline.Keeps none (setProperty id key v) := by
  intro s hs _
  refine Proc.Safe.bind (Q := fun found t => found = s.world.graph.slot? id key ∧ t = s)
    (Proc.Safe.ask ⟨rfl, rfl⟩ trivial) ?_
  rintro found t ⟨hfound, rfl⟩
  split
  · exact Proc.Safe.pure ⟨hs, fun _ h => h⟩
  · exact build hs (Graph.extends_store hfound.symm v) rfl rfl
  · rename_i property
    split
    · exact Proc.Safe.pure ⟨hs, fun _ h => h⟩
    · refine Proc.Safe.bind (Q := fun _ u =>
        accounted.next t (t.world.onGraph (·.store id key v)) u)
        (Proc.Safe.modify (fun u hu => ⟨trivial, hu⟩) trivial) fun _ u hu => ?_
      have hworld : u.world = t.world.onGraph (·.store id key v) := hu.1.1.1
      have hstale : ∀ x, u.world.Stale x → t.world.Stale x ∨
          ∃ d ∈ (t.world.watcher x).dependencies, property.dependency = some d :=
        fun x hx => Stale.of_stored hfound.symm (hworld ▸ hx)
      split
      · rename_i hplain
        refine Proc.Safe.pure ⟨⟨fair_stored_plain hs.1 hfound.symm hplain hu, hworld ▸ hs.2⟩, ?_⟩
        intro x hx
        refine (hstale x hx).resolve_right ?_
        rintro ⟨d, -, hd⟩
        rw [hplain] at hd
        cases hd
      · rename_i d hd
        refine Proc.Safe.bind (Q := fun _ last => freshDiscipline.rest last ∧
          last.world = u.world.onGraph (·.observe v)) (Proc.Safe.modify (fun last hlast =>
            ⟨trivial, ⟨fair_observed hs.1 hfound.symm hu hlast, ?_⟩, hlast.1.1.1⟩) trivial)
          fun _ last hlast => ?_
        · rw [hlast.1.1.1]
          show u.world.slot = none
          rw [hworld]
          exact hs.2
        · refine notify_of_listed hlast.1 fun x hx => ?_
          rw [hlast.2] at hx
          refine (hstale x (Stale.of_observed hx)).imp_right ?_
          rintro ⟨d', hd', heq⟩
          cases hd.symm.trans heq
          -- who depends on the property is in its list, as the ledger has it
          have hdependencies : d ∈ (last.world.watcher x).dependencies := by
            rw [hlast.2, hworld]
            exact hd'
          have hoff : last.world.slot ≠ some (.watcher x) := by simp [hlast.1.2]
          have hentries := hlast.1.1.ledger.entries_eq hoff d
          rw [if_pos hdependencies] at hentries
          exact List.count_pos_iff.1 (Nat.lt_of_lt_of_eq Nat.one_pos hentries.symm)

/-! ## Subscriber lists and evaluations of client code -/

theorem newDependency (into : String) :
    freshDiscipline.Keeps none (runTrackingAction (.newDependency into)) :=
  .bind sound (.ask sound _) fun _ =>
    .bind sound (keeps_settle fun _ => .of_watchers rfl rfl rfl) fun _ => .pure sound _

theorem register (dependency subscriber : String) :
    freshDiscipline.Keeps none (runTrackingAction (.register dependency subscriber)) :=
  .bind sound (.named sound _ _) fun _ => .bind sound (.named sound _ _) fun _ =>
    .bind sound (keeps_settle fun w => .onGraph w rfl) fun _ => .ask sound _

theorem unregister (dependency subscriber : String) :
    freshDiscipline.Keeps none (runTrackingAction (.unregister dependency subscriber)) :=
  .bind sound (.named sound _ _) fun _ => .bind sound (.named sound _ _) fun _ =>
    .bind sound (keeps_settle fun w => .onGraph w rfl) fun _ => .ask sound _

/-- No evaluation has a name. -/
theorem unnamed {name : String} {e : EvaluationId} (hs : freshDiscipline.rest s) :
    s.world.names.evaluations.find? name ≠ some e := by
  intro he
  obtain ⟨halive, -⟩ := hs.1.ledger.entitled (Keyed.naming_pos he)
  exact hs.1.ledger.not_alive hs.2 e halive

theorem tracked (name : Option String) (body : Option EvaluationId → Proc α)
    (hbody : ∀ e, freshDiscipline.Keeps e (body e)) :
    freshDiscipline.Keeps none (withTracker name body) := by
  cases name with
  | none => exact hbody none
  | some name => exact .named_bind sound fun s e hs he => absurd he (unnamed hs)

theorem enter (into subscriber : String) (previous : Option String) :
    freshDiscipline.Keeps none (runTrackingAction (.enter into subscriber previous)) := by
  refine .bind sound (.named sound _ _) fun client => .bind sound (.ask sound _) fun set => ?_
  intro s hs _
  refine Proc.Safe.bind (Q := fun w t => w = s.world ∧ t = s)
    (Proc.Safe.state ⟨rfl, rfl⟩ trivial) ?_
  rintro w t ⟨rfl, rfl⟩
  split
  · exact Proc.Safe.pure ⟨hs, fun _ h => h⟩
  · rename_i entered hentered
    refine Proc.Safe.bind (Q := fun _ _ => False) (Proc.Safe.modify (fun u hu => ?_) trivial)
      fun _ _ h => h.elim
    -- client code would have an evaluation open
    have hslot : u.world.slot = some (.client client) := by
      rw [hu.1.1.1]
      have hnone : t.world.names.evaluations.find? into = none :=
        Option.eq_none_iff_forall_ne_some.2 fun e => unnamed hs
      obtain ⟨-, rfl⟩ := World.enter_eq_ok hentered
      simp only [World.nameEvaluation]
      erw [hnone]
      rfl
    exact absurd hslot (hu.1.2.unoccupied client)

theorem finish (evaluation : String) (into : Option String) :
    freshDiscipline.Keeps none (runTrackingAction (.finish evaluation into)) :=
  .named_bind sound fun _ _ hs he => absurd he (unnamed hs)

theorem abandon (evaluation : String) :
    freshDiscipline.Keeps none (runTrackingAction (.abandon evaluation)) :=
  .named_bind sound fun _ _ hs he => absurd he (unnamed hs)

/-! ## Watchers of client code -/

theorem handles_of_named {name : String} (hs : Fair s)
    (hx : s.world.names.watchers.find? name = some x) : 0 < (s.world.watcher x).handles :=
  LedgerDiscipline.handles_of_named hs.ledger hx

theorem updateNamed (watcher : String) :
    freshDiscipline.Keeps none (runWatcherAction (.update watcher)) := by
  refine .named_bind sound fun s x hs hx => ?_
  refine retained hs (handles_of_named hs.1 hx) (R := freshDiscipline.rel s)
    (fun h h' y hy => h y (h' y hy)) (fun t ht hlength hrel => ?_) fun result => ?_
  · exact (update ht hlength).mono fun _ _ hu => ⟨hu.1, fun y hy => hrel y (hu.2.1 y hy)⟩
  · cases result with
    | ok changed => exact .pure sound _
    | error error => exact .pure sound _

theorem disposeNamed (watcher : String) :
    freshDiscipline.Keeps none (runWatcherAction (.dispose watcher)) :=
  .bind sound (.named sound _ _) fun x =>
    .bind sound (keeps_settle fun w => .dispose w x) fun _ => .pure sound _

theorem dropNamed (watcher : String) :
    freshDiscipline.Keeps none (runWatcherAction (.drop watcher)) :=
  .bind sound (.named sound _ _) fun _ =>
    .bind sound (keeps_settle fun w => .dropWatcher w watcher) fun _ => .pure sound _

theorem share (into watcher : String) :
    freshDiscipline.Keeps none (runWatcherAction (.share into watcher)) :=
  .named_bind sound fun _ x hs hx =>
    settle_bind hs ((Settles.retain (handles_of_named hs.1 hx)).trans (.nameWatcher _ into x))
      fun _ => .pure sound _

theorem viewWatcher (into view : String) (index : Nat) :
    freshDiscipline.Keeps none (runBindingAction (.viewWatcher into view index)) := by
  refine .bind sound (.named sound _ _) fun viewId => ?_
  intro s hs _
  refine Proc.Safe.bind (Q := fun found t =>
    found = (s.world.view viewId).watchers[index]? ∧ t = s) (Proc.Safe.ask ⟨rfl, rfl⟩ trivial) ?_
  rintro found t ⟨hfound, rfl⟩
  split
  · exact Proc.Safe.pure ⟨hs, fun _ h => h⟩
  · rename_i x
    have hpos := LedgerDiscipline.handles_of_viewed hs.1.ledger hfound.symm
    exact settle_bind hs ((Settles.retain hpos).trans (.nameWatcher _ into x)) fun _ => .ask sound _

/-! ## New watchers -/

/-- A new watcher is not stale. -/
theorem createWatcher (data : ObjectId) (path : Path) (reaction : Reaction)
    (hs : freshDiscipline.rest s) :
    (createWatcher data path reaction).Safe freshDiscipline.contract
      (fun _ t => freshDiscipline.rest t ∧ freshDiscipline.rel s t) s := by
  refine Proc.Safe.bind (Q := fun x t => x = s.world.nextWatcher ∧ t = s)
    (Proc.Safe.ask ⟨rfl, rfl⟩ trivial) ?_
  rintro x t ⟨rfl, rfl⟩
  refine (modify hs.1 (f := (·.addWatcher data path reaction)) rfl).bind fun _ u hu => ?_
  have hrest : freshDiscipline.rest u := ⟨hu.1, hu.2 ▸ hs.2⟩
  have hx : t.world.nextWatcher < u.world.watchers.length := by
    simp [hu.2, World.addWatcher, World.nextWatcher]
  have hold : ∀ y, y ≠ t.world.nextWatcher → u.world.Stale y → t.world.Stale y := by
    intro y hne hy
    have hsame : u.world.watcher y = t.world.watcher y := by
      rw [hu.2, watcher_addWatcher, if_neg hne]
    exact hy.of_sameButHandles ⟨hsame ▸ hy.1, _, hsame⟩ fun _ hv => hv.of_objects (by rw [hu.2]; rfl)
  refine (evaluate hrest hx).bind fun result last hlast => ?_
  obtain ⟨hrest, v, cells, rfl, hyields, hreactive, hworld⟩ := hlast
  refine (remember hrest v).bind fun _ final hfinal => Proc.Safe.pure ⟨hfinal.1, fun y hy => ?_⟩
  have hafter := fresh_remembered hx hyields hreactive
  rw [remembered, ← hworld, ← hfinal.2] at hafter
  have hne : y ≠ t.world.nextWatcher := fun hself => hy.2.2 (hself ▸ hafter.1)
  exact hold y hne (hafter.2 y hne hy)

/-- A new watcher whose handle is handed over. -/
theorem created {p : Except Error WatcherId → Proc α} (data : ObjectId) (path : Path)
    (reaction : Reaction) (hp : ∀ result, freshDiscipline.Keeps none (p result)) :
    freshDiscipline.Keeps none (DataBinding.createWatcher data path reaction >>= p) :=
  .bind sound (fun _ hs _ => createWatcher data path reaction hs) hp

theorem watch (into object path : String) (body : List Step) :
    freshDiscipline.Keeps none (watchNamed into object path body) :=
  .bind sound (.named sound _ _) fun data => created data _ _ fun
    | .error _ => .pure sound _
    | .ok x => .bind sound (keeps_settle fun w => .nameWatcher w into x) fun _ => .ask sound _

theorem bindPlaceholder (node : NodeId) (template : Template) (data : ObjectId) (view : ViewId)
    (path : Path) : freshDiscipline.Keeps none (bindPlaceholder node template data view path) :=
  created data _ _ fun
    | .error _ => .pure sound _
    | .ok x => .bind sound (keeps_settle fun w => .viewWatches w view x) fun _ => .pure sound _

theorem bindWatcher (data : ObjectId) (path : Path) (reaction : Reaction) (view : ViewId) :
    freshDiscipline.Keeps none (bindWatcher data path reaction view) :=
  created data path reaction fun
    | .error _ => .pure sound _
    | .ok x => .bind sound (.ask sound _) fun _ =>
        .bind sound ((Discipline.KeepsAt.reaction sound reaction _).keeps fun _ _ _ _ => trivial)
          fun _ => .bind sound (keeps_settle fun w => .viewWatches w view x) fun _ => .pure sound _

/-! ## Every run -/

theorem lawful : freshDiscipline.Lawful where
  toSound := sound
  create := create
  write := write
  observe := observe
  define := define
  newDependency := newDependency
  register := register
  unregister := unregister
  notify := notify
  tracked := tracked
  enter := enter
  finish := finish
  abandon := abandon
  watch := watch
  update := updateNamed
  dispose := disposeNamed
  drop := dropNamed
  share := share
  viewWatcher := viewWatcher
  bind data path reaction view := .of_keeps sound (bindWatcher data path reaction view)
  placeholder node template data view path :=
    .of_keeps sound (bindPlaceholder node template data view path)
  tearDown hs ht hw := ⟨trivial, settled hs ht (.tearDown hw.tornDown)⟩

theorem met : freshDiscipline.contract.Met :=
  Discipline.met lawful fun data _ body _ hs => reads.eval data body hs.1 hs.2

end FreshDiscipline

end DataBinding
