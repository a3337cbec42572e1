import DataBinding.Proofs.Rendering.Writing
import DataBinding.Proofs.Resolution.Landing

/-!
# Writes that keep a view current

`Writes` are the writes that a view follows: setting a property, assigning
to a path, input into a form field that is bound to a path, and events
whose listeners do no more. Each writes a data property that is there, and
whoever else is told of it is quiet. In between, anything may happen that
is none of the view's business. Along such writes a view that shows the
values of its watchers keeps showing them (`Writes.rendered`).

While something is typed into a field, the field alone does not show the
value of its watcher (`Showing`). What is written back then is what it
shows already, so that it need not be told.
-/

namespace DataBinding

open World

variable {data : ObjectId} {view : ViewId} {lo : NodeId} {w w' : World} {x : WatcherId}
  {id : ObjectId} {key : String} {property : Property} {value : Value}

/-! ## Assigning -/

theorem Wrote.rendered (hwrote : Wrote data view lo w id key value w')
    (h : Rendered data view lo w) : Rendered data view lo w' := by
  refine ⟨hwrote.live, fun x hx => ?_⟩
  rw [hwrote.wiring.view] at hx
  rcases hwrote.shown x hx with hshows | huntold
  · exact hshows
  · exact huntold.shows h.toLive hwrote.live hwrote.wiring hx (h.shown x hx)

/-- Assigning to a path is setting the property at its end. -/
theorem Live.assign {path : Path} {root : ObjectId} {answer : Bool}
    (h : Live data view lo w)
    (hlast : Reaches ⟨w, walkToLast root path.segments⟩ ⟨w, .done (some (id, key))⟩)
    (hproperty : w.graph.slot? id key = some (.data property))
    (hquiet : Quiet data view ⟨w, path.assign root value⟩)
    (hrun : Reaches ⟨w, path.assign root value⟩ ⟨w', .done answer⟩) :
    Wrote data view lo w id key value w' := by
  obtain ⟨calls, hlast⟩ := hlast.passes
  have hbegin : Passes ⟨w, path.assign root value⟩ (calls ++ [])
      ⟨w, setProperty id key value >>= fun _ => pure true⟩ := .bind hlast (.here _)
  obtain ⟨u, w'', hset, hdone⟩ := (Reaches.through hbegin hrun rfl).of_bind
  obtain ⟨rfl, -⟩ := Reaches.done_inj hdone
  exact h.set hproperty (hquiet.of_reaches hbegin.reaches).left hset

/-! ## Input -/

/-- Values that agree are the same but for numbers. -/
theorem Value.Agrees.eq {v u : Value} (h : v.Agrees u) (hu : ∀ n, u ≠ .number n) : v = u := by
  rcases h with hsame | ⟨-, hnan⟩
  · exact (eq_or_numbers hsame).resolve_right fun ⟨_, m, _, hm, _⟩ => hu m hm
  · cases u with
    | number n => exact absurd rfl (hu n)
    | _ => cases hnan

/-- What is written where a path lands is what the path yields; or it
yields nothing, where it went through the property itself. -/
theorem Wrote.landed {keys : List String} {content : String} {c : Cell}
    (hwrote : Wrote data view lo w c.1 c.2 (.string content) w') (hlands : w.graph.Lands data keys c)
    (hproperty : w.graph.slot? c.1 c.2 = some (.data property)) :
    ∃ u cells, w'.graph.Yields (.walk (.object data) keys) [u] cells ∧
      (u = .string content ∨ u = .undefined ∧ ∃ j, property.value = .object j) := by
  cases hsame : property.value.same (.string content) with
  | true =>
      have hvalue : property.value = .string content :=
        Value.Agrees.eq (.inl hsame) fun n hn => Value.noConfusion hn
      have hcell : w.graph.content c = some (.inl (.string content)) := by
        rw [Graph.content, hproperty, ← hvalue]
        rfl
      obtain ⟨cells, hyields⟩ := hlands.yields hcell
      refine ⟨_, cells, hwrote.yields _ _ _ ?_, .inl rfl⟩
      rwa [written_same hproperty hsame]
  | false =>
      obtain ⟨u, cells, hyields, hu⟩ := hlands.store content hproperty
      refine ⟨u, cells, hwrote.yields _ _ _ ?_, hu⟩
      rwa [written_other hproperty hsame]

/-- A view that shows the values of its watchers, but for one part of the
document. -/
structure Showing (data : ObjectId) (view : ViewId) (lo : NodeId) (part : NodeId × Bool)
    (w : World) : Prop extends Live data view lo w where
  shown : ∀ x ∈ (w.view view).watchers, (w.watcher x).reaction.target? ≠ some part → Shows lo w x

theorem Showing.aside {part : NodeId × Bool} (h : Showing data view lo part w)
    (haside : Aside data view w w') (hledger : Ledger w') : Showing data view lo part w' := by
  have hretells := Retells.of_aside h.toBound haside
  refine ⟨h.toLive.aside haside hledger, fun x hx htarget => ?_⟩
  rw [haside.view] at hx
  rw [hretells.wiring.reaction hx] at htarget
  exact hretells.shows h.toBound (fun n hn => by cases hn) hx (h.shown x hx htarget)

/-- What is typed is written back to where the path of the field lands. -/
theorem Showing.writeBack {node : NodeId} {content : String} {c : Cell} {answer : Bool}
    (h : Showing data view lo (node, true) w) (hx : x ∈ (w.view view).watchers)
    (hreaction : (w.watcher x).reaction = .formValue node)
    (hcontent : (w.document.node node).value = content)
    (hlands : w.graph.Lands data (w.watcher x).path.segments c)
    (hquiet : Quiet data view ⟨w, (w.watcher x).path.assign data (.string content)⟩)
    (hrun : Reaches ⟨w, (w.watcher x).path.assign data (.string content)⟩ ⟨w', .done answer⟩) :
    Rendered data view lo w' ∧ SameWiring view w w' := by
  obtain ⟨property, hproperty⟩ := hlands.slot?
  have hwrote := h.toLive.assign (hlands.passes).reaches hproperty hquiet hrun
  have hwiring := hwrote.wiring
  refine ⟨⟨hwrote.live, fun y hy => ?_⟩, hwiring⟩
  rw [hwiring.view] at hy
  by_cases htarget : (w.watcher y).reaction.target? = some (node, true)
  · -- no other watcher keeps the form value
    have hfield : (w.watcher x).reaction.target? = some (node, true) := congrArg _ hreaction
    obtain rfl : y = x := by
      refine (h.separate x hx y hy (htarget.trans hfield.symm)).resolve_right fun ⟨_, htemplate⟩ => ?_
      rw [hreaction] at htemplate
      cases htemplate
    rcases hwrote.shown y hy with hshows | huntold
    · exact hshows
    · have hkept := huntold.part w.graph (.string content) (by rw [hreaction]; exact hcontent)
      rw [Shows, hwiring.reaction hy]
      refine hkept.of_graph ?_ fun n parsed root heq => by cases hreaction.symm.trans heq
      have hquery : (w.watcher y).query = .walk (.object data) (w.watcher y).path.segments := by
        rw [Watcher.query, h.rooted y hy]
      obtain ⟨u, cells, hyields, hu⟩ := hwrote.landed hlands hproperty
      obtain ⟨u', ⟨cells', hyields', -⟩, hagrees⟩ := hwrote.live.fresh y (hwiring.view ▸ hy)
      rw [hwiring.query hy, hquery] at hyields'
      obtain rfl := List.singleton_inj.1 (hyields'.unique hyields).1
      rcases hu with rfl | ⟨rfl, j, hj⟩
      · exact hagrees.text
      · -- the watcher had an object for its value, so that it was told
        have hcell : w.graph.content c = some (.inl (.object j)) := by
          rw [Graph.content, hproperty, ← hj]
          rfl
        obtain ⟨cells', hbefore⟩ := hlands.yields hcell
        obtain ⟨u, ⟨_, hyields, -⟩, hagrees'⟩ := h.fresh y hy
        rw [hquery] at hyields
        obtain rfl := List.singleton_inj.1 (hyields.unique hbefore).1
        have hvalue := huntold.values y hy rfl
        rw [hagrees.eq fun n hn => Value.noConfusion hn,
          hagrees'.eq fun n hn => Value.noConfusion hn] at hvalue
        cases hvalue
  · rcases hwrote.shown y hy with hshows | huntold
    · exact hshows
    · exact huntold.shows h.toLive hwrote.live hwiring hy (h.shown y hy htarget)

theorem Document.listenersFor_setValue (d : Document) (node : NodeId) (content : String)
    (m : NodeId) (event : String) :
    (d.setValue node content).listenersFor m event = d.listenersFor m event := by
  by_cases hself : m = node
  · subst hself
    by_cases hm : m < d.nodes.length
    · rw [listenersFor, setValue, node_modify_self hm]
      rfl
    · simp [listenersFor, setValue, modify, Document.node, List.getD_eq_getElem?_getD, hm]
  · rw [listenersFor, setValue, node_modify_of_ne hself]
    rfl

/-- Listeners are delivered an event one after the other. -/
theorem reaches_deliver {listeners : List Listener} {event : Event} (among : Listener → Prop)
    (holds : World → Prop) (hamong : ∀ l ∈ listeners, among l)
    (hcalls : Along (fun u call => ∀ l, among l → call = .deliver l event → ∀ u',
      Reaches ⟨u, l.handler.run event⟩ ⟨u', .done ()⟩ → holds u → holds u')
        ⟨w, Proc.each (fun l => Proc.perform (.deliver l event)) listeners⟩)
    (h : Reaches ⟨w, Proc.each (fun l => Proc.perform (.deliver l event)) listeners⟩
      ⟨w', .done ()⟩) (hw : holds w) : holds w' := by
  induction listeners generalizing w with
  | nil =>
      obtain ⟨rfl, -⟩ := Reaches.done_inj h
      exact hw
  | cons l listeners ih =>
      obtain ⟨answer, u, hfirst, hrest⟩ := Reaches.of_bind h
      have hfirstCall := (Along.left hcalls).perform l (hamong l List.mem_cons_self) rfl
      have hrestCalls := Along.right (f := fun _ => Proc.each _ listeners) hcalls hfirst
      exact ih (fun l hl => hamong l (List.mem_cons_of_mem _ hl)) hrestCalls hrest
        (hfirstCall u hfirst.of_perform hw)

/-- A listener that writes back is delivered an event of its field. -/
theorem Showing.deliver {node : NodeId} {kind : String} {l : Listener} {c : Cell}
    (h : Showing data view lo (node, true) w) (hx : x ∈ (w.view view).watchers)
    (hreaction : (w.watcher x).reaction = .formValue node)
    (hhandler : l.handler = .writeBack data (w.watcher x).path)
    (hlands : w.graph.Lands data (w.watcher x).path.segments c)
    (hquiet : Quiet data view ⟨w, Proc.perform (.deliver l ⟨kind, node⟩)⟩)
    (hrun : Reaches ⟨w, Proc.perform (.deliver l ⟨kind, node⟩)⟩ ⟨w', .done ()⟩) :
    Rendered data view lo w' ∧ SameWiring view w w' := by
  have hcalls := Along.body hquiet
  have hhandle := hrun.of_perform
  rw [Call.body, hhandler] at hcalls hhandle
  have hread : Passes ⟨w, (Handler.writeBack data (w.watcher x).path).run ⟨kind, node⟩⟩ []
      ⟨w, (w.watcher x).path.assign data (.string (w.document.node node).value) >>=
        fun _ => pure ()⟩ := .bind_nil (.ask _) (.here _)
  obtain ⟨answer, u, hassign, hdone⟩ := (Reaches.through hread hhandle rfl).of_bind
  obtain ⟨rfl, -⟩ := Reaches.done_inj hdone
  exact h.writeBack hx hreaction rfl hlands (hcalls.of_reaches hread.reaches).left hassign

theorem Aside.lands {keys : List String} {c : Cell} (h : Aside data view w w')
    (hlands : w.graph.Lands data keys c) : w'.graph.Lands data keys c := by
  have hkept : ∀ j, w.graph.Leads (· = data) j → ∀ key,
      w'.graph.content (j, key) = w.graph.content (j, key) := by
    intro j hj key
    rw [Graph.content, Graph.content]
    exact congrArg _ (h.slots j hj key)
  exact hlands.congr hkept (.base rfl)

/-- Typing into a field changes what it shows, and nothing else. -/
theorem Rendered.typed {node : NodeId} (h : Rendered data view lo w)
    (content : String) (hledger : Ledger (w.onDocument (·.setValue node content))) :
    Showing data view lo (node, true) (w.onDocument (·.setValue node content)) := by
  have halters : w.document.Alters (fun _ => False) (· = node)
      (w.document.setValue node content) :=
    .modify _ (fun _ => rfl) (fun _ => rfl) (fun _ _ hl => hl) (.inr fun _ => ⟨rfl, rfl⟩) (.inl rfl)
  have hwiring : SameWiring view w (w.onDocument (·.setValue node content)) :=
    ⟨fun _ _ => ⟨_, _, _, rfl⟩, rfl⟩
  have hbound := h.toBound.next hwiring halters (.of_objects rfl) hledger h.slot
    (h.pure.of_objects rfl)
  refine ⟨⟨hbound, h.complete.next hwiring, fun y hy => ?_⟩, fun y hy htarget => ?_⟩
  · exact SameData.upToDate (.of_objects rfl) (h.fresh y hy) (h.rooted y hy) ⟨_, rfl⟩
  · exact (h.shown y hy).frame (h.fits y hy) h.base halters (fun _ _ hin => hin)
      (fun n hn heq => htarget (heq ▸ hn)) fun _ _ hin => hin

/-- What is typed into a form field is written to the path that the field
is bound to, if nobody else who listens does anything about the view. -/
theorem Rendered.input {node : NodeId} {content : String} {l : Listener}
    {before after : List Listener} {c : Cell}
    (h : Rendered data view lo w) (hx : x ∈ (w.view view).watchers)
    (hreaction : (w.watcher x).reaction = .formValue node)
    (hlisteners : w.document.listenersFor node "input" = before ++ l :: after)
    (hhandler : l.handler = .writeBack data (w.watcher x).path)
    (hlands : w.graph.Lands data (w.watcher x).path.segments c)
    (hothers : Along (fun u call => ∀ l, l ∈ before ++ after → call = .deliver l ⟨"input", node⟩ →
      ∀ u', Reaches ⟨u, l.handler.run ⟨"input", node⟩⟩ ⟨u', .done ()⟩ → Aside data view u u')
        ⟨w, input node content⟩)
    (hquiet : Quiet data view ⟨w, input node content⟩)
    (hrun : Reaches ⟨w, input node content⟩ ⟨w', .done ()⟩) :
    Rendered data view lo w' ∧ SameWiring view w w' := by
  let event : Event := ⟨"input", node⟩
  let deliver : Listener → Proc Unit := fun l => Proc.perform (.deliver l event)
  let typed := w.onDocument (·.setValue node content)
  have hledger : ∀ {u p}, Reaches ⟨w, DataBinding.input node content⟩ ⟨u, p⟩ → Ledger u :=
    h.ledger.along (LedgerDiscipline.lawful.input node content)
  have hbegin : Passes ⟨w, DataBinding.input node content⟩ []
      ⟨typed, Proc.each deliver before >>= fun _ => Proc.each deliver (l :: after)⟩ := by
    refine .bind_nil (.modify _) (.bind_nil (.ask _) ?_)
    rw [← Proc.each_append, ← hlisteners, ← Document.listenersFor_setValue w.document node content]
    exact .here _
  obtain ⟨answer, u, hbefore, hrest⟩ := (Reaches.through hbegin hrun rfl).of_bind
  obtain ⟨answer, u', hwriteBack, hafter⟩ := Reaches.of_bind hrest
  have hlast : Reaches ⟨w, DataBinding.input node content⟩ ⟨u, Proc.each deliver (l :: after)⟩ :=
    hbegin.reaches.trans (hbefore.bind_left _)
  have htyped := h.typed content (hledger (Reaches.step (.step (.here _) rfl) rfl))
  have haside : Aside data view typed u :=
    reaches_deliver (· ∈ before ++ after) (Aside data view typed)
      (fun l hl => List.mem_append_left _ hl)
      (fun v call next hv l hl hcall v' hv' hbefore =>
        hbefore.trans ((hothers.of_reaches hbegin.reaches).left v call next hv l hl hcall v' hv'))
      hbefore (.refl data view typed)
  have hshowing := htyped.aside haside (hledger hlast)
  obtain ⟨handles, hwatcher⟩ := haside.watchers x hx
  have hself : u.watcher x = { w.watcher x with handles } := hwatcher
  have hlands' : u.graph.Lands data (u.watcher x).path.segments c := by
    rw [hself]
    exact haside.lands hlands
  obtain ⟨hrendered, hwiring⟩ := hshowing.deliver (haside.view ▸ hx) (hself ▸ hreaction)
    (hself ▸ hhandler) hlands' (Along.left (f := fun _ => Proc.each deliver after)
      (hquiet.of_reaches hlast)) hwriteBack
  have hlater : Aside data view u' w' :=
    reaches_deliver (· ∈ before ++ after) (Aside data view u')
      (fun l' hl' => List.mem_append_right _ hl')
      (fun v call next hv l hl hcall v' hv' hbefore => hbefore.trans
        (((hothers.of_reaches hlast).right hwriteBack) v call next hv l hl hcall v' hv'))
      hafter (.refl data view u')
  refine ⟨hrendered.aside hlater (hledger hrun), ?_⟩
  have htypedWiring : SameWiring view w typed := ⟨fun _ _ => ⟨_, _, _, rfl⟩, rfl⟩
  exact ((htypedWiring.trans (.of_aside haside)).trans hwiring).trans (.of_aside hlater)

/-! ## Sequences of writes -/

/-- Writes of data properties that are there, told to nobody who does more
than is none of the view's business. -/
inductive Writes (data : ObjectId) (view : ViewId) : World → World → Prop
  | refl (w : World) : Writes data view w w
  | trans {w w' w'' : World} : Writes data view w w' → Writes data view w' w'' →
      Writes data view w w''
  /-- Anything else that is none of the view's business. -/
  | apart {w w' : World} : Aside data view w w' → w'.Reachable → Writes data view w w'
  | set {w w' : World} {id : ObjectId} {key : String} {property : Property} {value : Value} :
      w.graph.slot? id key = some (.data property) →
      Quiet data view ⟨w, setProperty id key value⟩ →
      Reaches ⟨w, setProperty id key value⟩ ⟨w', .done ()⟩ → Writes data view w w'
  | assign {w w' : World} {path : Path} {root id : ObjectId} {key : String} {property : Property}
      {value : Value} {answer : Bool} :
      Reaches ⟨w, walkToLast root path.segments⟩ ⟨w, .done (some (id, key))⟩ →
      w.graph.slot? id key = some (.data property) →
      Quiet data view ⟨w, path.assign root value⟩ →
      Reaches ⟨w, path.assign root value⟩ ⟨w', .done answer⟩ → Writes data view w w'
  /-- The path of the field leads through data properties, and no listener
  but the one that writes back does anything about the view. -/
  | input {w w' : World} {x : WatcherId} {node : NodeId} {content : String} {l : Listener}
      {before after : List Listener} {c : Cell} :
      x ∈ (w.view view).watchers → (w.watcher x).reaction = .formValue node →
      w.document.listenersFor node "input" = before ++ l :: after →
      l.handler = .writeBack data (w.watcher x).path →
      w.graph.Lands data (w.watcher x).path.segments c →
      Along (fun u call => ∀ l, l ∈ before ++ after → call = .deliver l ⟨"input", node⟩ →
        ∀ u', Reaches ⟨u, l.handler.run ⟨"input", node⟩⟩ ⟨u', .done ()⟩ → Aside data view u u')
          ⟨w, input node content⟩ →
      Quiet data view ⟨w, input node content⟩ →
      Reaches ⟨w, input node content⟩ ⟨w', .done ()⟩ → Writes data view w w'
  /-- Whatever a listener does is such a sequence. -/
  | dispatch {w w' : World} {node : NodeId} {event : Event} :
      (∀ u call next, Reaches ⟨w, dispatch node event⟩ ⟨u, .call call next⟩ →
        ∀ l, l ∈ w.document.listenersFor node event.kind → call = .deliver l event →
          ∀ u', Reaches ⟨u, l.handler.run event⟩ ⟨u', .done ()⟩ → Writes data view u u') →
      Reaches ⟨w, dispatch node event⟩ ⟨w', .done ()⟩ → Writes data view w w'

/-- A view that shows the values of its watchers keeps showing them. -/
theorem Writes.rendered (hwrites : Writes data view w w') (h : Rendered data view lo w) :
    Rendered data view lo w' ∧ SameWiring view w w' := by
  induction hwrites with
  | refl w => exact ⟨h, .refl view w⟩
  | trans _ _ ih ih' =>
      obtain ⟨hmiddle, hwiring⟩ := ih h
      obtain ⟨hlast, hwiring'⟩ := ih' hmiddle
      exact ⟨hlast, hwiring.trans hwiring'⟩
  | apart haside hreachable => exact ⟨h.aside haside hreachable.ledger, .of_aside haside⟩
  | set hproperty hquiet hrun =>
      have hwrote := h.set hproperty hquiet hrun
      exact ⟨hwrote.rendered h, hwrote.wiring⟩
  | assign hlast hproperty hquiet hrun =>
      have hwrote := h.assign hlast hproperty hquiet hrun
      exact ⟨hwrote.rendered h, hwrote.wiring⟩
  | input hx hreaction hlisteners hhandler hlands hothers hquiet hrun =>
      exact h.input hx hreaction hlisteners hhandler hlands hothers hquiet hrun
  | @dispatch w w' node event _ hrun ih =>
      obtain ⟨listeners, u, hask, heach⟩ := Reaches.of_bind hrun
      obtain ⟨rfl, rfl⟩ := Reaches.result (.ask _) hask
      have hbegin : Reaches ⟨u, DataBinding.dispatch node event⟩ ⟨u, Proc.each
          (fun l => Proc.perform (.deliver l event)) (u.document.listenersFor node event.kind)⟩ :=
        (Reaches.step (.here _) rfl)
      refine reaches_deliver (· ∈ u.document.listenersFor node event.kind)
        (fun v => Rendered data view lo v ∧ SameWiring view u v) (fun _ hl => hl) ?_ heach
        ⟨h, .refl view u⟩
      rintro v call next hv l hl hcall v' hv' ⟨hbefore, hwiring⟩
      obtain ⟨hafter, hwiring'⟩ := ih v call next (hbegin.trans hv) l hl hcall v' hv' hbefore
      exact ⟨hafter, hwiring.trans hwiring'⟩

end DataBinding
