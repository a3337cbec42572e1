import DataBinding.Proofs.Notification.Telling
import DataBinding.Proofs.Rendering.Bound

/-!
# Telling a bound view

A notification, seen from a view. Whoever is told and is not of the view
does nothing that concerns it (`aside_of_other`, `aside_of_client`). A
watcher of the view that is told is up to date from then on, and if its
value has changed, the part that it keeps shows the new one.

A text with several placeholders is rendered as a whole by each of their
watchers, so a part is either shown as of now, or none of the watchers of
this part has found a new value since the notification began
(`Untold`). `Telling` is this invariant; one subscriber keeps it
(`Telling.next`), and so do all in a row (`Telling.each`).
-/

namespace DataBinding

open World

variable {data : ObjectId} {view : ViewId} {lo : NodeId} {w w' a b : World} {x y : WatcherId}
  {s : SubscriberId} {rest : List SubscriberId}

/-! ## An update that has returned -/

theorem reaches_updateWatcher {result : Except Error Bool} (hslot : w.slot = none) (hw : w.Pure)
    (hx : x < w.watchers.length) (hdisposed : (w.watcher x).disposed = false)
    (h : Reaches ⟨w, updateWatcher x⟩ ⟨w', .done result⟩) :
    ∃ v cells, w.graph.Yields (w.watcher x).query [v] cells ∧
      ((w.watcher x).value.same v = true ∧ w' = w.evaluated x cells ∨
        Reaches ⟨w, updateWatcher x⟩ ⟨w.remembered x cells v,
          Proc.perform (.react x v) >>= fun _ => pure (.ok true)⟩ ∧
        Reaches ⟨w.remembered x cells v, Proc.perform (.react x v)⟩ ⟨w', .done ()⟩) := by
  obtain ⟨next, hbegin, -, hnext⟩ := passes_evaluating hdisposed
  obtain ⟨found, u, hfound, hrest⟩ := (Reaches.through hbegin h rfl).of_bind
  obtain ⟨v, cells, rfl, rfl, -, hyields⟩ := reaches_evaluateWatcher hslot hw.onlyAsks hfound
  refine ⟨v, cells, hyields hw, ?_⟩
  rw [hnext] at hrest
  have hvalue : ((w.evaluated x cells).watcher x).value = (w.watcher x).value := by
    obtain ⟨ds, hwatcher, -⟩ := watcher_evaluated hx cells
    rw [hwatcher]
  cases hsame : (w.watcher x).value.same v with
  | true =>
      rw [← hvalue] at hsame
      exact .inl ⟨rfl, (Reaches.result (passes_answerUpdate_same hsame) hrest).1⟩
  | false =>
      rw [← hvalue] at hsame
      have hremember := passes_answerUpdate_changed hsame
      obtain ⟨answer, u, hreact, hdone⟩ := (Reaches.through hremember hrest rfl).of_bind
      obtain ⟨rfl, -⟩ := Reaches.done_inj hdone
      refine .inr ⟨?_, hreact⟩
      obtain ⟨calls, -, hevaluate⟩ := passes_evaluateWatcher hslot (hyields hw)
      exact (hbegin.trans (.bind hevaluate ((hnext v).symm ▸ hremember))).reaches

/-! ## Those who are not of the view -/

/-- Updating another watcher does nothing but what its reaction does. -/
theorem aside_updateWatcher {result : Except Error Bool} (hx : x ∉ (w.view view).watchers)
    (hlt : x < w.watchers.length) (hslot : w.slot = none) (hw : w.Pure)
    (hquiet : Quiet data view ⟨w, updateWatcher x⟩)
    (h : Reaches ⟨w, updateWatcher x⟩ ⟨w', .done result⟩) : Aside data view w w' := by
  cases hdisposed : (w.watcher x).disposed with
  | true =>
      have hnone : Passes ⟨w, updateWatcher x⟩ [] ⟨w, .done (.ok false)⟩ := by
        refine .bind_nil (.ask _) ?_
        rw [if_pos hdisposed]
        exact .here _
      obtain ⟨rfl, -⟩ := Reaches.result hnone h
      exact .refl data view w'
  | false =>
      obtain ⟨v, cells, -, ⟨-, rfl⟩ | ⟨hforward, hreact⟩⟩ :=
        reaches_updateWatcher hslot hw hlt hdisposed h
      · exact .evaluated hx hslot cells
      · have hevaluated : Aside data view w (w.evaluated x cells) := .evaluated hx hslot cells
        have hout : x ∉ ((w.evaluated x cells).view view).watchers := hevaluated.view ▸ hx
        have hremembered : Aside data view w (w.remembered x cells v) :=
          hevaluated.trans (.onWatcher hout _)
        have hforeign : x ∉ ((w.remembered x cells v).view view).watchers :=
          hremembered.view ▸ hx
        exact hremembered.trans (hquiet _ _ _ hforward hforeign () w' hreact.of_perform)

/-- Neither does telling one, nor telling a subscriber of client code. -/
theorem aside_notifySubscriber (hother : ∀ x ∈ (w.view view).watchers, s ≠ .watcher x)
    (hslot : w.slot = none) (hw : w.Pure) (hquiet : Quiet data view ⟨w, notifySubscriber s⟩)
    (h : Reaches ⟨w, notifySubscriber s⟩ ⟨w', .done ()⟩) : Aside data view w w' := by
  cases halive : w.alive s with
  | false =>
      have hnone : Passes ⟨w, notifySubscriber s⟩ [] ⟨w, .done ()⟩ := by
        refine .bind_nil (.ask _) ?_
        rw [if_neg (by simp [halive])]
        exact .here _
      obtain ⟨rfl, -⟩ := Reaches.result hnone h
      exact .refl data view w'
  | true =>
      cases s with
      | client client =>
          have hbegin := passes_toInvalidated halive
          have hretained : Aside data view w (w.retain (.client client)) :=
            .of_objects rfl (fun _ _ => ⟨_, rfl⟩) rfl rfl rfl
          obtain ⟨answer, u, hcall, hrelease⟩ := (Reaches.through hbegin h rfl).of_bind
          obtain ⟨rfl, -⟩ := Reaches.result (.modify _) hrelease
          have hcalled : Aside data view (w.retain (.client client)) u :=
            (hquiet.of_reaches hbegin.reaches).left.perform trivial answer u hcall.of_perform
          exact (hretained.trans hcalled).trans (.of_objects rfl (fun _ _ => ⟨_, rfl⟩) rfl rfl rfl)
      | watcher x =>
          have hlive : 0 < (w.watcher x).handles := of_decide_eq_true halive
          have hx : x ∉ (w.view view).watchers := fun hmem => hother x hmem rfl
          have hbegin := passes_toUpdate hlive hslot
          have hretained : Aside data view w (w.retain (.watcher x)) := .onWatcher hx _
          obtain ⟨answer, u, hfirst, hrelease⟩ := (Reaches.through hbegin h rfl).of_bind
          obtain ⟨rfl, -⟩ := Reaches.result (.modify _) hrelease
          obtain ⟨result, u', hupdate, hdone⟩ := hfirst.of_bind
          obtain ⟨rfl, -⟩ := Reaches.done_inj hdone
          have hlt : x < (w.retain (.watcher x)).watchers.length :=
            (List.length_modify ..).symm ▸ lt_of_handles hlive
          have hupdated : Aside data view (w.retain (.watcher x)) u := by
            refine aside_updateWatcher (hretained.view ▸ hx) hlt hslot (hretained.pure hw) ?_
              hupdate
            exact (hquiet.of_reaches hbegin.reaches).left.left
          have hall := hretained.trans hupdated
          exact hall.trans (.release (hall.view ▸ hx))

/-! ## Changes that a view sees -/

/-- A change that shows anew what it alters, one part at most. -/
structure Retells (data : ObjectId) (view : ViewId) (lo : NodeId) (part : Option (NodeId × Bool))
    (w w' : World) : Prop where
  wiring : SameWiring view w w'
  same : SameData data w w'
  alters : w.document.Alters (fun n => part = some (n, false)) (fun n => part = some (n, true))
    w'.document
  fresh : ∀ y ∈ (w.view view).watchers, w.UpToDate y → w'.UpToDate y
  values : ∀ y ∈ (w.view view).watchers, (w.watcher y).reaction.target? ≠ part →
    (w'.watcher y).value = (w.watcher y).value
  shown : ∀ y ∈ (w.view view).watchers, (w.watcher y).reaction.target? = part → Shows lo w' y

theorem Retells.of_aside (h : Bound data view lo w) (haside : Aside data view w w') :
    Retells data view lo none w w' where
  wiring := .of_aside haside
  same := haside.slots
  alters := haside.document ▸ .refl _
  fresh y hy hfresh := SameData.upToDate haside.slots hfresh (h.rooted y hy) (haside.watchers y hy)
  values y hy _ := by
    obtain ⟨handles, hwatcher⟩ := haside.watchers y hy
    rw [hwatcher]
  shown y hy htarget := absurd htarget (h.fits y hy).target?_ne_none

/-- What was shown stays shown, unless it is altered. -/
theorem Retells.shows {part : Option (NodeId × Bool)} (h : Retells data view lo part w w')
    (hbound : Bound data view lo w) (hpart : ∀ n, part = some (n, false) → n < lo)
    (hy : y ∈ (w.view view).watchers) (hshows : Shows lo w y) : Shows lo w' y := by
  by_cases htarget : (w.watcher y).reaction.target? = part
  · exact h.shown y hy htarget
  · rw [Shows, h.wiring.reaction hy, h.values y hy htarget]
    have hkept : (w.watcher y).reaction.Shown w'.document w.graph lo (w.watcher y).value :=
      hshows.frame (hbound.fits y hy) hbound.base h.alters
        (fun n hn heq => htarget (hn.trans heq.symm)) (fun n hn heq => htarget (hn.trans heq.symm))
        fun n hn heq => Nat.not_lt.2 hn (hpart n heq)
    refine hkept.of_graph rfl fun node parsed root hreaction hrenders => ?_
    obtain rfl := hbound.rendered y hy node parsed root hreaction
    exact hrenders.agree fun path _ v cells hv => ⟨v, cells, h.same.yields hv, rfl⟩

/-! ## Telling a watcher of the view -/

/-- The template of a text does not show a value. -/
theorem Shows.of_template (hshows : Shows lo w x)
    (hsame : (w.watcher y).reaction = (w.watcher x).reaction)
    (htemplate : (w.watcher x).reaction.isTemplate = true) : Shows lo w y := by
  unfold Shows at hshows ⊢
  rw [hsame]
  cases hreaction : (w.watcher x).reaction with
  | template node parsed root =>
      rw [hreaction] at hshows
      exact hshows
  | _ =>
      rw [hreaction] at htemplate
      cases htemplate

section Own

variable (h : Bound data view lo w) (hx : x ∈ (w.view view).watchers)
  (hupdates : UpdatesOnly x w w') (hviews : w'.views = w.views)
  (hself : ∃ value dependencies handles,
    w'.watcher x = { w.watcher x with value, dependencies, handles })
  (hfresh : w'.UpToDate x)

include h hupdates hviews hself hfresh

theorem wiring_of_updated : SameWiring view w w' ∧
    ∀ y ∈ (w.view view).watchers, w.UpToDate y → w'.UpToDate y := by
  refine ⟨⟨fun y hy => ?_, by rw [World.view, World.view, hviews]⟩, fun y hy hyfresh => ?_⟩
  · by_cases hne : y = x
    · exact hne ▸ hself
    · exact ⟨_, _, _, hupdates.other y hne⟩
  · by_cases hne : y = x
    · exact hne ▸ hfresh
    · exact SameData.upToDate (.of_objects hupdates.objects) hyfresh (h.rooted y hy)
        ⟨_, hupdates.other y hne⟩

/-- The value was the same. -/
theorem Retells.of_same (hdocument : w'.document = w.document)
    (hvalue : (w'.watcher x).value = (w.watcher x).value) : Retells data view lo none w w' := by
  obtain ⟨hwiring, hall⟩ := wiring_of_updated h hupdates hviews hself hfresh
  refine ⟨hwiring, .of_objects hupdates.objects, hdocument ▸ .refl _, hall, fun y _ _ => ?_,
    fun y hy htarget => absurd htarget (h.fits y hy).target?_ne_none⟩
  by_cases hne : y = x
  · exact hne ▸ hvalue
  · rw [hupdates.other y hne]

include hx

/-- There was another value, and it is shown. -/
theorem Retells.of_shown
    (halters : w.document.Alters (fun n => (w.watcher x).reaction.target? = some (n, false))
      (fun n => (w.watcher x).reaction.target? = some (n, true)) w'.document)
    (hshows : Shows lo w' x) :
    Retells data view lo (w.watcher x).reaction.target? w w' := by
  obtain ⟨hwiring, hall⟩ := wiring_of_updated h hupdates hviews hself hfresh
  refine ⟨hwiring, .of_objects hupdates.objects, halters, hall, fun y _ hne => ?_,
    fun y hy htarget => ?_⟩
  · rw [hupdates.other y fun heq => hne (by rw [heq])]
  · rcases h.separate x hx y hy htarget with rfl | ⟨hsame, htemplate⟩
    · exact hshows
    · refine hshows.of_template ?_ ?_
      · rw [hwiring.reaction hy, hwiring.reaction hx, hsame]
      · rw [hwiring.reaction hx, htemplate]

end Own

/-- The handle that was taken to tell a watcher is not its last. -/
theorem release_retained {u : World} (hlive : 0 < (w.watcher x).handles)
    (hupdates : UpdatesOnly x w u) (hhandles : (u.watcher x).handles = (w.watcher x).handles + 1) :
    UpdatesOnly x w (u.release (.watcher x)) ∧
      (∃ handles, (u.release (.watcher x)).watcher x = { u.watcher x with handles }) ∧
      (u.UpToDate x → (u.release (.watcher x)).UpToDate x) ∧
      (u.release (.watcher x)).views = u.views ∧
      (u.release (.watcher x)).document = u.document ∧
      (u.release (.watcher x)).graph = u.graph := by
  rw [release_of_spare (hhandles ▸ Nat.succ_lt_succ hlive)]
  have hwatcher := watcher_lessen u x x
  have hdata : SameData (u.watcher x).data u (u.lessen x) := .of_objects rfl
  exact ⟨hupdates.trans (.onWatcher hupdates.slot _), ⟨_, hwatcher⟩,
    fun hfresh => hdata.upToDate hfresh rfl ⟨_, hwatcher⟩, rfl, rfl, rfl⟩

section Told

variable {v : Value} {cells : List Cell} (h : Bound data view lo w)
  (hx : x ∈ (w.view view).watchers)
  (hyields : w.graph.Yields (w.watcher x).query [v] cells)

include h hx hyields

/-- What a watcher of the view reads is reactive, so that the value is
grounded. -/
theorem reactive_of_told : ∀ c ∈ cells, w.graph.Reactive c.1 := by
  rw [Watcher.query, h.rooted x hx] at hyields
  exact fun c hc => h.reactive c.1 (hyields.leads c hc)

/-- A watcher that has found the value that it remembers. -/
theorem retells_of_same (hsame : (w.watcher x).value.same v = true)
    (hw' : w' = ((w.retain (.watcher x)).evaluated x cells).release (.watcher x)) :
    Retells data view lo none w w' ∧ w'.UpToDate x ∧ UpdatesOnly x w w' := by
  have hlive := h.handles hx
  let c := w.retain (.watcher x)
  obtain ⟨hc, hself, hlt⟩ := UpdatesOnly.retain h.slot hlive
  have hreactive := reactive_of_told h hx hyields
  obtain ⟨ds, hevaluated, -⟩ := watcher_evaluated hlt cells
  obtain ⟨hviews, hdocument⟩ := views_evaluated c x cells
  have hfresh : (c.evaluated x cells).UpToDate x := by
    refine ⟨v, ?_, ?_⟩
    · have hread : c.graph.Yields (c.watcher x).query [v] cells := hself ▸ hyields
      have hgrounded := grounded_evaluated hlt hread hreactive
      rwa [show (c.watcher x).query = ((c.evaluated x cells).watcher x).query by
        rw [hevaluated]; rfl] at hgrounded
    · rw [hevaluated, hself]
      exact .inl hsame
  rw [hself] at hevaluated
  obtain ⟨hall, ⟨handles, hwatcher⟩, hkeeps, hviews', hdocument', -⟩ :=
    release_retained hlive (hc.trans (.evaluated x c cells)) (by rw [hevaluated])
  rw [← hw'] at hall hwatcher hkeeps hviews' hdocument'
  rw [hevaluated] at hwatcher
  exact ⟨.of_same h hall (hviews'.trans hviews) ⟨_, _, _, hwatcher⟩ (hkeeps hfresh)
    (hdocument'.trans hdocument) (by rw [hwatcher]), hkeeps hfresh, hall⟩

/-- A watcher that has found another value, once its part shows it. -/
theorem retells_of_shown {d : Document} (hshown : (w.watcher x).reaction.Shown d
      ((w.retain (.watcher x)).remembered x cells v).graph lo v)
    (halters : w.document.Alters (fun n => (w.watcher x).reaction.target? = some (n, false))
      (fun n => (w.watcher x).reaction.target? = some (n, true)) d)
    (hw' : w' = World.release { (w.retain (.watcher x)).remembered x cells v with document := d }
      (.watcher x)) :
    Retells data view lo (w.watcher x).reaction.target? w w' ∧ w'.UpToDate x ∧
      UpdatesOnly x w w' := by
  have hlive := h.handles hx
  let c := w.retain (.watcher x)
  let u : World := { c.remembered x cells v with document := d }
  obtain ⟨hc, hself, hlt⟩ := UpdatesOnly.retain h.slot hlive
  have hread : c.graph.Yields (c.watcher x).query [v] cells := hself ▸ hyields
  have hreactive := reactive_of_told h hx hyields
  obtain ⟨hremembered, -⟩ := fresh_remembered hlt hread hreactive
  have hfresh : u.UpToDate x := hremembered
  obtain ⟨ds, hevaluated, -⟩ := watcher_evaluated hlt cells
  have hwatcher : u.watcher x =
      { w.watcher x with
        dependencies := ds
        value := v
        handles := (w.watcher x).handles + 1 } := by
    refine (watcher_onWatcher_self ((length_evaluated c x cells).symm ▸ hlt) _).trans ?_
    rw [hevaluated, hself]
  have hu : UpdatesOnly x w u :=
    ((hc.trans (.evaluated x c cells)).trans (.onWatcher rfl _)).trans
      ⟨rfl, rfl, rfl, fun _ _ => rfl⟩
  obtain ⟨hall, ⟨handles, hlast⟩, hkeeps, hviews, hdocument, hgraph⟩ :=
    release_retained hlive hu (congrArg Watcher.handles hwatcher)
  rw [← show w' = u.release (.watcher x) from hw'] at hall hlast hkeeps hviews hdocument hgraph
  rw [hwatcher] at hlast
  have hshows : Shows lo w' x := by
    rw [Shows, hlast, hdocument, hgraph]
    exact hshown
  obtain ⟨hviews', -⟩ := views_evaluated c x cells
  exact ⟨.of_shown h hx hall (hviews.trans hviews') ⟨_, _, _, hlast⟩ (hkeeps hfresh)
    (hdocument ▸ halters) hshows, hkeeps hfresh, hall⟩

end Told

/-- A watcher that was told is up to date, and if it has found another
value its part shows it. -/
theorem retells_of_told (h : Bound data view lo w) (hx : x ∈ (w.view view).watchers)
    (hrun : Reaches ⟨w, notifySubscriber (.watcher x)⟩ ⟨w', .done ()⟩) :
    ∃ part, (part = none ∨ part = (w.watcher x).reaction.target?) ∧
      Retells data view lo part w w' ∧ w'.UpToDate x ∧ w'.slot = none ∧ w'.Pure := by
  have hlive := h.handles hx
  obtain ⟨answer, u, hfirst, hrelease⟩ :=
    (Reaches.through (passes_toUpdate hlive h.slot) hrun rfl).of_bind
  obtain ⟨hlast, -⟩ := Reaches.result (.modify _) hrelease
  obtain ⟨result, u', hupdate, hdone⟩ := hfirst.of_bind
  obtain ⟨rfl, -⟩ := Reaches.done_inj hdone
  let c := w.retain (.watcher x)
  obtain ⟨hc, hself, hlt⟩ := UpdatesOnly.retain h.slot hlive
  have hpure : c.Pure := h.pure.of_objects rfl
  have hdisposed : (c.watcher x).disposed = false := by
    rw [hself]
    exact h.kept x hx
  obtain ⟨v, cells, hread, hfound⟩ := reaches_updateWatcher hc.slot hpure hlt hdisposed hupdate
  rw [hself] at hread hfound
  have hyields : w.graph.Yields (w.watcher x).query [v] cells := hread
  rcases hfound with ⟨hsame, rfl⟩ | ⟨-, hreact⟩
  · obtain ⟨hretells, hfresh, hall⟩ := retells_of_same h hx hyields hsame hlast
    exact ⟨none, .inl rfl, hretells, hfresh, hall.slot, h.pure.of_objects hall.objects⟩
  · obtain ⟨reaction, u', hask, hshow⟩ := Reaches.of_bind hreact.of_perform
    obtain ⟨rfl, rfl⟩ := Reaches.result (.ask _) hask
    obtain ⟨ds, hevaluated, -⟩ := watcher_evaluated hlt cells
    have hreaction : ((c.remembered x cells v).watcher x).reaction = (w.watcher x).reaction := by
      have hwatcher := watcher_onWatcher_self ((length_evaluated c x cells).symm ▸ hlt)
        fun watcher => { watcher with value := v }
      refine (congrArg Watcher.reaction hwatcher).trans ?_
      rw [hevaluated, hself]
    have hdocument : (c.remembered x cells v).document = w.document := (views_evaluated c x cells).2
    have hobjects : (c.remembered x cells v).graph.objects = w.graph.objects :=
      objects_evaluated c x cells
    rw [hreaction] at hshow
    have hpure := h.pure.of_objects hobjects
    obtain ⟨d, rfl, hshown, halters⟩ := reaches_run hpure.onlyAsks
      (hdocument.symm ▸ h.fits x hx) (hdocument.symm ▸ h.base) hshow
    obtain ⟨hretells, hfresh, hall⟩ :=
      retells_of_shown h hx hyields (hshown fun _ => hpure) (hdocument ▸ halters) hlast
    exact ⟨_, .inr rfl, hretells, hfresh, hall.slot, h.pure.of_objects hall.objects⟩

/-! ## During a notification -/

/-- No watcher of the part that a watcher keeps has found another value,
and the part is as it was. -/
structure Untold (view : ViewId) (lo : NodeId) (before w : World) (x : WatcherId) : Prop where
  values : ∀ y ∈ (before.view view).watchers,
    (before.watcher y).reaction.target? = (before.watcher x).reaction.target? →
      (w.watcher y).value = (before.watcher y).value
  part : ∀ g v, (before.watcher x).reaction.Shown before.document g lo v →
    (before.watcher x).reaction.Shown w.document g lo v

/-- A state while some subscribers are still to be told. -/
structure Telling (data : ObjectId) (view : ViewId) (lo : NodeId) (before : World)
    (rest : List SubscriberId) (w : World) : Prop extends Bound data view lo w where
  wiring : SameWiring view before w
  same : SameData data before w
  fresh : ∀ x ∈ (before.view view).watchers, w.UpToDate x ∨ .watcher x ∈ rest
  shown : ∀ x ∈ (before.view view).watchers, Shows lo w x ∨ Untold view lo before w x

namespace Telling

/-- One subscriber less. -/
theorem next {part : Option (NodeId × Bool)} (h : Telling data view lo b (s :: rest) w)
    (hchange : Retells data view lo part w w') (hpart : ∀ n, part = some (n, false) → n < lo)
    (hledger : Ledger w') (hslot : w'.slot = none) (hpure : w'.Pure)
    (htold : ∀ x ∈ (b.view view).watchers, s = .watcher x → w'.UpToDate x) :
    Telling data view lo b rest w' where
  toBound := h.toBound.next hchange.wiring hchange.alters hchange.same hledger hslot hpure
  wiring := h.wiring.trans hchange.wiring
  same := h.same.trans hchange.same
  fresh x hx := by
    rcases h.fresh x hx with hfresh | hmem
    · exact .inl (hchange.fresh x (h.wiring.view ▸ hx) hfresh)
    · rcases List.mem_cons.1 hmem with heq | hmem
      · exact .inl (htold x hx heq.symm)
      · exact .inr hmem
  shown x hx := by
    have hmem : x ∈ (w.view view).watchers := h.wiring.view ▸ hx
    by_cases htarget : (w.watcher x).reaction.target? = part
    · exact .inl (hchange.shown x hmem htarget)
    · rcases h.shown x hx with hshows | huntold
      · exact .inl (hchange.shows h.toBound hpart hmem hshows)
      · rw [h.wiring.reaction hx] at htarget
        refine .inr ⟨fun y hy hsame => ?_, fun g v hshown => ?_⟩
        · rw [hchange.values y (h.wiring.view ▸ hy) ?_, huntold.values y hy hsame]
          rw [h.wiring.reaction hy, hsame]
          exact htarget
        · have hfits := h.fits x hmem
          rw [h.wiring.reaction hx] at hfits
          exact (huntold.part g v hshown).frame hfits h.base hchange.alters
            (fun n hn heq => htarget (hn.trans heq.symm))
            (fun n hn heq => htarget (hn.trans heq.symm))
            fun n hn heq => Nat.not_lt.2 hn (hpart n heq)

theorem notifyOne (h : Telling data view lo b (s :: rest) w)
    (hquiet : Quiet data view ⟨w, notifySubscriber s⟩)
    (hrun : Reaches ⟨w, notifySubscriber s⟩ ⟨w', .done ()⟩) : Telling data view lo b rest w' := by
  have hledger : Ledger w' := h.ledger.along (LedgerDiscipline.notifyOne s) hrun
  by_cases hmember : ∃ x ∈ (w.view view).watchers, s = .watcher x
  · obtain ⟨x, hx, rfl⟩ := hmember
    obtain ⟨part, hpart, hchange, hfresh, hslot, hpure⟩ := retells_of_told h.toBound hx hrun
    refine h.next hchange (fun n hn => ?_) hledger hslot hpure fun y _ heq => ?_
    · rcases hpart with rfl | rfl
      · cases hn
      · exact (h.fits x hx).lt hn
    · cases heq
      exact hfresh
  · have hother : ∀ x ∈ (w.view view).watchers, s ≠ .watcher x :=
      fun x hx heq => hmember ⟨x, hx, heq⟩
    have haside := aside_notifySubscriber hother h.slot h.pure hquiet hrun
    refine h.next (.of_aside h.toBound haside) (fun n hn => ?_) hledger (haside.slot.trans h.slot)
      (haside.pure h.pure) fun x hx heq => ?_
    · cases hn
    · exact absurd heq (hother x (h.wiring.view ▸ hx))

theorem each : ∀ {rest : List SubscriberId} {w : World}, Telling data view lo b rest w →
    Quiet data view ⟨w, Proc.each notifySubscriber rest⟩ →
    Reaches ⟨w, Proc.each notifySubscriber rest⟩ ⟨w', .done ()⟩ → Telling data view lo b [] w'
  | [], w, h, _, hrun => by
      obtain ⟨rfl, -⟩ := Reaches.done_inj hrun
      exact h
  | s :: rest, w, h, hquiet, hrun => by
      obtain ⟨answer, u, hfirst, hrest⟩ := Reaches.of_bind hrun
      exact each (h.notifyOne hquiet.left hfirst) (hquiet.right hfirst) hrest

end Telling

end DataBinding
