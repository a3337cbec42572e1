import DataBinding.Proofs.Freshness.Observing
import DataBinding.Proofs.Notification.Setting
import DataBinding.Proofs.Rendering.Told

/-!
# Writing under a bound view

`Live` is what holds of a view between two writes: its watchers are up to
date, and every placeholder has one. A write of an existing data property
keeps it, and leaves every part of the document either shown as of now or
as it was, with no new value for it (`Live.set`). In the second case the
part shows what it should because it did before (`Untold.shows`).
-/

namespace DataBinding

open World

variable {data : ObjectId} {view : ViewId} {lo : NodeId} {w w' : World} {x : WatcherId}
  {id : ObjectId} {key : String} {property : Property} {value : Value}

/-- A bound view whose watchers are up to date. -/
structure Live (data : ObjectId) (view : ViewId) (lo : NodeId) (w : World) : Prop
    extends Bound data view lo w where
  complete : Complete view w
  fresh : ∀ x ∈ (w.view view).watchers, w.UpToDate x

/-- A view that shows the values of its watchers. -/
structure Rendered (data : ObjectId) (view : ViewId) (lo : NodeId) (w : World) : Prop
    extends Live data view lo w where
  shown : ∀ x ∈ (w.view view).watchers, Shows lo w x

/-! ## What does not concern the view -/

theorem Live.aside (h : Live data view lo w) (haside : Aside data view w w')
    (hledger : Ledger w') : Live data view lo w' := by
  have hretells := Retells.of_aside h.toBound haside
  have hbound := h.toBound.next hretells.wiring hretells.alters hretells.same hledger
    (haside.slot.trans h.slot) (haside.pure h.pure)
  exact ⟨hbound, h.complete.next hretells.wiring, fun x hx =>
    hretells.fresh x (haside.view ▸ hx) (h.fresh x (haside.view ▸ hx))⟩

theorem Rendered.aside (h : Rendered data view lo w) (haside : Aside data view w w')
    (hledger : Ledger w') : Rendered data view lo w' := by
  have hretells := Retells.of_aside h.toBound haside
  refine ⟨h.toLive.aside haside hledger, fun x hx => ?_⟩
  exact hretells.shows h.toBound (fun n hn => by cases hn) (haside.view ▸ hx)
    (h.shown x (haside.view ▸ hx))

/-! ## What was not told -/

/-- A value that agrees with what a path yields has its text. -/
theorem World.UpToDate.text (h : w.UpToDate x) :
    ∃ u cells, w.graph.Yields (w.watcher x).query [u] cells ∧
      (w.watcher x).value.text = u.text := by
  obtain ⟨u, ⟨cells, hyields, -⟩, hagrees⟩ := h
  exact ⟨u, cells, hyields, hagrees.text⟩

/-- A part none of whose watchers has found another value shows what it
should if it did before. -/
theorem Untold.shows (h : Live data view lo w) (h' : Live data view lo w')
    (hwiring : SameWiring view w w') (hx : x ∈ (w.view view).watchers)
    (huntold : Untold view lo w w' x) (hshows : Shows lo w x) : Shows lo w' x := by
  have hkept := huntold.part w.graph _ hshows
  rw [Shows, hwiring.reaction hx, huntold.values x hx rfl]
  refine hkept.of_graph rfl fun node parsed root hreaction hrenders => ?_
  obtain rfl := h.rendered x hx node parsed root hreaction
  refine hrenders.agree fun path hpath v cells hv => ?_
  obtain ⟨y, hy, hsame, rfl⟩ := h.complete x hx node parsed root hreaction path hpath
  have hquery : (w.watcher y).query = .walk (.object root) (w.watcher y).path.segments := by
    rw [Watcher.query, h.rooted y hy]
  have hvalue := huntold.values y hy (by rw [hsame])
  -- the watcher of the placeholder has the value of both states
  obtain ⟨u, cells', hu, htext⟩ := (h.fresh y hy).text
  obtain ⟨u', cells'', hu', htext'⟩ := (h'.fresh y (hwiring.view ▸ hy)).text
  rw [hquery] at hu
  rw [hwiring.query hy, hquery] at hu'
  obtain rfl := List.singleton_inj.1 (hu.unique hv).1
  exact ⟨u', cells'', hu', by rw [← htext', hvalue, htext]⟩

/-! ## Setting a property -/

/-- Observing makes no accessor. -/
theorem World.Pure.observed (hw : w.Pure) (v : Value) : (w.onGraph (·.observe v)).Pure := by
  intro j otherKey accessor hslot
  rcases (Graph.observed_observe w.graph v).slot? j otherKey with hsame | ⟨value, d, -, hnew, -⟩
  · exact hw j otherKey accessor (hsame ▸ hslot)
  · cases hnew.symm.trans hslot

/-- The state in which the subscribers of a written property are told. -/
def World.announced (w : World) (id : ObjectId) (key : String) (value : Value)
    (d : DependencyId) : World :=
  ((w.onGraph (·.store id key value)).onGraph (·.observe value)).onGraph (·.prune d w.alive)

/-- A view after a write: every part is shown as of now, or no new value
was found for it and it is as it was. -/
structure Wrote (data : ObjectId) (view : ViewId) (lo : NodeId) (w : World) (id : ObjectId)
    (key : String) (value : Value) (w' : World) : Prop where
  live : Live data view lo w'
  wiring : SameWiring view w w'
  yields : ∀ keys vs cells,
    (w.written id key value).graph.Yields (.walk (.object data) keys) vs cells →
      w'.graph.Yields (.walk (.object data) keys) vs cells
  shown : ∀ x ∈ (w.view view).watchers, Shows lo w' x ∨ Untold view lo w w' x

theorem Untold.refl (view : ViewId) (lo : NodeId) (w : World) (x : WatcherId) :
    Untold view lo w w x :=
  ⟨fun _ _ _ => rfl, fun _ _ h => h⟩

section Set

variable (h : Live data view lo w) (hproperty : w.graph.slot? id key = some (.data property))

include h hproperty

/-- A property that is not reactive is not reachable. -/
theorem aside_of_plain (hplain : property.dependency = none) :
    Aside data view w (w.onGraph (·.store id key value)) where
  slots j hj otherKey := by
    refine (Graph.slot?_store_data hproperty j otherKey value).trans (if_neg ?_)
    rintro ⟨rfl, rfl⟩
    have hreactive := h.reactive j hj otherKey property hproperty
    rw [hplain] at hreactive
    cases hreactive
  watchers x _ := ⟨_, rfl⟩
  view := rfl
  document := rfl
  slot := rfl
  pure hw other otherKey accessor hslot := by
    refine hw other otherKey accessor ?_
    rw [World.onGraph, Graph.slot?_store_data hproperty] at hslot
    split at hslot
    · cases hslot
    · exact hslot

/-- What is reachable after a write is reactive, once the value was
observed. -/
theorem reactive_announced {d : DependencyId} (j : ObjectId)
    (hj : (w.announced id key value d).graph.Leads (· = data) j) :
    (w.announced id key value d).graph.Reactive j := by
  let stored := w.graph.store id key value
  have hobserved := Graph.observed_observe stored value
  have hcontent : ∀ c, (w.announced id key value d).graph.content c = stored.content c :=
    fun c => hobserved.content c
  have hstored : (stored.observe value).Reactive j := by
    have hleads : stored.Leads (· = data) j := hj.congr hcontent
    rcases hleads.of_store hproperty with hold | hnew
    · refine hobserved.reactive fun otherKey found hfound => ?_
      have hreactive := h.reactive j hold
      rw [Graph.slot?_store_data hproperty] at hfound
      split at hfound
      · rename_i hcell
        cases hfound
        exact hreactive key property (hcell.1 ▸ hproperty)
      · exact hreactive otherKey found hfound
    · exact Graph.reactive_observe hnew
  exact hstored

/-- A watcher is up to date, or it is to be told. -/
theorem fresh_announced {d : DependencyId} (hd : property.dependency = some d)
    (hx : x ∈ (w.view view).watchers) :
    (w.announced id key value d).UpToDate x ∨
      .watcher x ∈ (w.graph.subscribersOf d).filter w.alive := by
  by_cases hdepends : d ∈ (w.watcher x).dependencies
  · exact .inr (List.mem_filter.2 ⟨(mem_subscribersOf h.ledger h.slot).2 hdepends,
      decide_eq_true (h.handles hx)⟩)
  · obtain ⟨u, hu, hagrees⟩ := h.fresh x hx
    have hother : ∀ d' ∈ (w.watcher x).dependencies, property.dependency ≠ some d' := by
      intro d' hd' heq
      cases hd.symm.trans heq
      exact hdepends hd'
    have hstored := (hu.store hproperty hother value).observed
      (Graph.observed_observe (w.graph.store id key value) value)
    exact .inl ⟨u, hstored.of_objects rfl, hagrees⟩

/-- At first every subscriber of the property is to be told, and nothing
was found yet. -/
theorem telling_announced {d : DependencyId} (hsame : property.value.same value = false)
    (hd : property.dependency = some d) (hledger : Ledger (w.announced id key value d)) :
    Telling data view lo (w.announced id key value d)
      ((w.graph.subscribersOf d).filter w.alive) (w.announced id key value d) := by
  have hwiring : SameWiring view w (w.announced id key value d) :=
    ⟨fun _ _ => ⟨_, _, _, rfl⟩, rfl⟩
  have hpure : (w.onGraph (·.store id key value)).Pure :=
    written_other hproperty hsame ▸ h.pure.written id key value
  have hbound : Bound data view lo (w.announced id key value d) :=
    { toWired := h.toWired.next hwiring
        (@Document.Alters.refl (fun _ => False) (fun _ => False) w.document)
      ledger := hledger
      slot := h.slot
      pure := (hpure.observed value).of_objects rfl
      reactive := reactive_announced h hproperty }
  exact
    { toBound := hbound
      wiring := .refl view _
      same := .of_objects rfl
      fresh := fun x hx => fresh_announced h hproperty hd hx
      shown := fun x _ => .inr (.refl view lo _ x) }

end Set

/-- An existing data property is written. -/
theorem Live.set (h : Live data view lo w) (hproperty : w.graph.slot? id key = some (.data property))
    (hquiet : Quiet data view ⟨w, setProperty id key value⟩)
    (hrun : Reaches ⟨w, setProperty id key value⟩ ⟨w', .done ()⟩) :
    Wrote data view lo w id key value w' := by
  have hledger : ∀ {u : World} {p : Proc Unit}, Reaches ⟨w, setProperty id key value⟩ ⟨u, p⟩ →
      Ledger u := h.ledger.along (LedgerDiscipline.lawful.write id key value)
  cases hsame : property.value.same value with
  | true =>
      have hnone : Passes ⟨w, setProperty id key value⟩ [] ⟨w, .done ()⟩ := by
        refine .bind_nil (.ask _) ?_
        rw [hproperty]
        dsimp only
        rw [if_pos hsame]
        exact .here _
      obtain ⟨rfl, -⟩ := Reaches.result hnone hrun
      refine ⟨h, .refl view w', fun keys vs cells hyields => ?_, fun x _ => .inr (.refl view lo w' x)⟩
      rwa [written_same hproperty hsame] at hyields
  | false =>
      have hwritten := written_other hproperty hsame
      cases hd : property.dependency with
      | none =>
          have hplain : Passes ⟨w, setProperty id key value⟩ []
              ⟨w.onGraph (·.store id key value), .done ()⟩ := by
            refine .bind_nil (.ask _) ?_
            rw [hproperty]
            dsimp only
            rw [if_neg (by simp [hsame])]
            refine .bind_nil (.modify _) ?_
            rw [hd]
            exact .here _
          have haside : Aside data view w (w.onGraph (·.store id key value)) :=
            aside_of_plain h hproperty hd
          obtain ⟨rfl, -⟩ := Reaches.result hplain hrun
          refine ⟨h.aside haside (hledger hplain.reaches), .of_aside haside,
            fun keys vs cells hyields => ?_, fun x _ => .inr ⟨fun _ _ _ => rfl, fun _ _ h => h⟩⟩
          rwa [hwritten] at hyields
      | some d =>
          have hbegin := (passes_toNotify hproperty hsame hd).trans (passes_toEach d)
          let b := w.announced id key value d
          have hwiring : SameWiring view w b := ⟨fun _ _ => ⟨_, _, _, rfl⟩, rfl⟩
          have hlist : ((w.onGraph (·.store id key value)).onGraph (·.observe value)).graph.subscribersOf
              d = w.graph.subscribersOf d :=
            ((Graph.observed_observe _ value).subscribersOf d).trans
              (congrArg (·.getD d []) (Graph.subscribers_store w.graph id key value))
          rw [hlist] at hbegin
          have htelling := telling_announced h hproperty hsame hd (hledger hbegin.reaches)
          have hlast := htelling.each (hquiet.of_reaches hbegin.reaches)
            (Reaches.through hbegin hrun rfl)
          have hall := hwiring.trans hlast.wiring
          refine ⟨⟨hlast.toBound, h.complete.next hall, fun x hx => ?_⟩, hall,
            fun keys vs cells hyields => hlast.same.yields ?_, fun x hx => ?_⟩
          · exact (hlast.fresh x (hall.view ▸ hx)).resolve_right List.not_mem_nil
          · rw [hwritten] at hyields
            exact hyields.congr fun c _ => (Graph.observed_observe _ value).content c
          · exact (hlast.shown x hx).imp_right fun huntold => ⟨huntold.values, huntold.part⟩

end DataBinding
