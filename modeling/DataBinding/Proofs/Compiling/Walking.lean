import DataBinding.Proofs.Compiling.Installing

/-!
# Compiling a tree

Compiling a tree installs what its outline says and ends as the outline
says, where whatever values the data shows are inert markup
(`reaches_compileChild`, by the structure of the tree). What is shown in
place of the children of an element is walked over like anything else,
and nothing is found in it (`reaches_inert`).
-/

namespace DataBinding

open World

variable {context : Context} {convention : Convention} {view : ViewId} {lo : NodeId}
  {site : Nat → NodeId} {w w' : World} {result : Except Error Unit}

/-! ## Bindings at their sites -/

namespace Binding

/-- What is watched for a binding. -/
def watch? (site : Nat → NodeId) (data : ObjectId) : Binding → Option Watch
  | directive place (.text path) => some (path, .text (site place))
  | directive place (.html path) => some (path, .markup (site place))
  | directive place (.model path) => some (path, .formValue (site place))
  | directive _ (.on _ _) => none
  | placeholder place template path => some (path, .template (site place) template data)

/-- What is listened to for a binding. -/
def hearing? (site : Nat → NodeId) (context : Context) : Binding → Option Hearing
  | directive place (.model path) => some (site place, "input", .writeBack context.data path)
  | directive place (.on event method) =>
    (context.methods.find? method).map fun body => (site place, event, .method context body)
  | _ => none

/-- The markup that is shown in place of children is inert. -/
def ShowsInert (convention : Convention) (g : Graph) (data : ObjectId) : Binding → Prop
  | directive _ (.text path) => ∀ v cells,
    g.Gives (.walk (.object data) path.segments) v cells →
      Markup.Tree.InertAll convention (Document.textForest v.text)
  | directive _ (.html path) => ∀ v cells,
    g.Gives (.walk (.object data) path.segments) v cells →
      Markup.Tree.InertAll convention (Document.markupForest v.text)
  | _ => True

variable {data : ObjectId} {b : Binding}

theorem ShowsInert.frame {g g' : Graph} (h : b.ShowsInert convention g data)
    (hobjects : g'.objects = g.objects) : b.ShowsInert convention g' data := by
  cases b with
  | placeholder place template path => trivial
  | directive place directive =>
      cases directive with
      | text path => exact fun v cells hgives => h v cells (hgives.of_objects hobjects.symm)
      | html path => exact fun v cells hgives => h v cells (hgives.of_objects hobjects.symm)
      | model path => trivial
      | on event method => trivial

/-- A binding that shows nothing in place of children shows inert markup
there. -/
theorem ShowsInert.of_not_displaces {g : Graph} (h : b.displaces = false) :
    b.ShowsInert convention g data := by
  cases b with
  | placeholder place template path => trivial
  | directive place directive =>
      cases directive with
      | text path => cases h
      | html path => cases h
      | model path => trivial
      | on event method => trivial

/-- The part that a binding keeps is at its site. -/
theorem target_of_watch {p : Watch} {n : NodeId} {form : Bool}
    (h : b.watch? site data = some p) (htarget : p.2.target? = some (n, form)) :
    n = site b.place := by
  cases b with
  | placeholder place template path =>
      cases h
      cases htarget
      rfl
  | directive place directive =>
      cases directive with
      | on event method => cases h
      | _ =>
          cases h
          cases htarget
          rfl

end Binding

/-- The watches and the hearings of an outline. -/
def Outline.watches (o : Outline) (site : Nat → NodeId) (data : ObjectId) : List Watch :=
  o.bindings.filterMap (·.watch? site data)

def Outline.hearings (o : Outline) (site : Nat → NodeId) (context : Context) : List Hearing :=
  o.bindings.filterMap (·.hearing? site context)

/-- What the watches of an outline keep is at its sites. -/
theorem Outline.site_of_keeps {o : Outline} {data : ObjectId} {n : NodeId} {form : Bool}
    (h : Keeps (o.watches site data) (n, form)) : ∃ b ∈ o.bindings, n = site b.place := by
  obtain ⟨p, hp, htarget⟩ := h
  obtain ⟨b, hb, hwatch⟩ := List.mem_filterMap.1 hp
  exact ⟨b, hb, Binding.target_of_watch hwatch htarget⟩

/-! ## Runs that do what an outline says -/

/-- What an outline says was installed, and the run has ended as it says. -/
def Carries (context : Context) (view : ViewId) (lo : NodeId) (site : Nat → NodeId) (o : Outline)
    (result : Except Error Unit) (w w' : World) : Prop :=
  result = o.result ∧ ∃ xs es, Installs context.data view lo (o.watches site context.data)
    (o.hearings site context) xs es w w'

namespace Carries

variable {o o' : Outline} {u : World} {first : Except Error Unit}

theorem nothing (hready : Ready view lo w) :
    Carries context view lo site .nothing (.ok ()) w w :=
  ⟨rfl, [], [], .refl context.data view lo hready.slot⟩

/-- After an error nothing more is done. -/
theorem andThen (hready : Ready view lo w) (h : Carries context view lo site o first w u)
    (hrest : first = .ok () ∧ Carries context view lo site o' result u w' ∨
      ∃ e, first = .error e ∧ result = .error e ∧ w' = u) :
    Carries context view lo site (o.andThen o') result w w' := by
  obtain ⟨hfirst, xs, es, hinstalls⟩ := h
  rcases hrest with ⟨rfl, hresult, xs', es', hinstalls'⟩ | ⟨e, rfl, rfl, rfl⟩
  · rw [Outline.andThen_of_result hfirst.symm]
    refine ⟨hresult, xs ++ xs', es ++ es', ?_⟩
    have htrans := hinstalls.trans hready.base hinstalls'
    rwa [Outline.watches, Outline.watches, ← List.filterMap_append, Outline.hearings,
      Outline.hearings, ← List.filterMap_append] at htrans
  · rw [Outline.andThen_of_error hfirst.symm]
    exact ⟨hfirst, xs, es, hinstalls⟩

theorem ready (h : Carries context view lo site o result w w') (hready : Ready view lo w) :
    Ready view lo w' := by
  obtain ⟨-, xs, es, hinstalls⟩ := h
  exact hready.next hinstalls.toAdds

theorem objects (h : Carries context view lo site o result w w') :
    w'.graph.objects = w.graph.objects := by
  obtain ⟨-, xs, es, hinstalls⟩ := h
  exact hinstalls.objects

/-- Only the content of sites of the outline has changed. -/
theorem alters (h : Carries context view lo site o result w w') :
    w.document.Alters (fun n => ∃ b ∈ o.bindings, n = site b.place) (fun _ => True)
      w'.document := by
  obtain ⟨-, xs, es, hinstalls⟩ := h
  exact hinstalls.alters.mono (fun _ _ hn => Outline.site_of_keeps hn) fun _ _ _ => trivial

end Carries

/-- A process that stops at the first error has run for one item, and for
the others unless there was one. -/
theorem Reaches.of_tryEach {ι : Type} {f : ι → Proc (Except Error Unit)} {item : ι}
    {items : List ι} (h : Reaches ⟨w, Proc.tryEach f (item :: items)⟩ ⟨w', .done result⟩) :
    ∃ first u, Reaches ⟨w, f item⟩ ⟨u, .done first⟩ ∧
      (first = .ok () ∧ Reaches ⟨u, Proc.tryEach f items⟩ ⟨w', .done result⟩ ∨
        ∃ e, first = .error e ∧ result = .error e ∧ w' = u) := by
  obtain ⟨first, u, hfirst, hrest⟩ := Reaches.of_bind (p := f item) h
  refine ⟨first, u, hfirst, ?_⟩
  cases first with
  | ok _ => exact .inl ⟨rfl, hrest⟩
  | error e =>
      obtain ⟨rfl, rfl⟩ := Reaches.done_inj hrest
      exact .inr ⟨e, rfl, rfl, rfl⟩

/-! ## Elements and texts -/

section Element

variable {place : Nat} (hsite : site place < lo)

include hsite

theorem reaches_directive {directive : Directive} (hready : Ready view lo w)
    (hkind : ∃ tag, (w.document.node (site place)).kind = .element tag)
    (h : Reaches ⟨w, directive.bind (site place) context view⟩ ⟨w', .done result⟩) :
    Carries context view lo site (.ofDirective context.methods place directive) result w w' := by
  cases directive with
  | text path =>
      obtain ⟨rfl, hinstalls⟩ :=
        reaches_bindWatcher (r := .text (site place)) hready ⟨hsite, hkind⟩ h
      exact ⟨rfl, _, _, hinstalls⟩
  | html path =>
      obtain ⟨rfl, hinstalls⟩ :=
        reaches_bindWatcher (r := .markup (site place)) hready ⟨hsite, hkind⟩ h
      exact ⟨rfl, _, _, hinstalls⟩
  | model path =>
      obtain ⟨answer, u, hlisten, hwatch⟩ := Reaches.of_bind h
      obtain ⟨rfl, -⟩ := Reaches.result (.modify _) hlisten
      obtain ⟨l, hlistener⟩ := installs_listener context.data "input"
        (.writeBack context.data path) hready (Nat.lt_of_lt_of_le hsite hready.base)
      obtain ⟨rfl, hinstalls⟩ := reaches_bindWatcher (r := .formValue (site place))
        (hready.next hlistener.toAdds) hsite hwatch
      exact ⟨rfl, _, _, hlistener.trans hready.base hinstalls⟩
  | on event method =>
      cases hmethod : context.methods.find? method with
      | none =>
          simp only [Directive.bind, hmethod] at h
          simp only [Outline.ofDirective, hmethod]
          obtain ⟨rfl, rfl⟩ := Reaches.done_inj h
          exact ⟨rfl, _, _, .refl _ _ _ hready.slot⟩
      | some body =>
          simp only [Directive.bind, hmethod] at h
          simp only [Outline.ofDirective, hmethod]
          have hbegin : Passes ⟨w, do
              Proc.modify (·.viewListens view (site place) event (.method context body))
              pure (.ok () : Except Error Unit)⟩ []
              ⟨w.viewListens view (site place) event (.method context body), .done (.ok ())⟩ :=
            .bind_nil (.modify _) (.here _)
          obtain ⟨rfl, rfl⟩ := Reaches.result hbegin h
          obtain ⟨l, hlistener⟩ := installs_listener context.data event
            (.method context body) hready (Nat.lt_of_lt_of_le hsite hready.base)
          refine ⟨rfl, [], [(site place, l)], ?_⟩
          simp only [Outline.watches, Outline.hearings, List.filterMap_cons, List.filterMap_nil,
            Binding.watch?, Binding.hearing?, hmethod, Option.map_some]
          exact hlistener

theorem reaches_attribute {pair : String × String} (hready : Ready view lo w)
    (hkind : ∃ tag, (w.document.node (site place)).kind = .element tag)
    (h : Reaches ⟨w, bindAttribute (site place) context convention view pair⟩
      ⟨w', .done result⟩) :
    Carries context view lo site (.ofAttribute convention context.methods place pair) result
      w w' := by
  cases hparse : Directive.parse convention.marker pair.1 pair.2 with
  | error e =>
      simp only [bindAttribute, hparse] at h
      simp only [Outline.ofAttribute, hparse]
      obtain ⟨rfl, rfl⟩ := Reaches.done_inj h
      exact ⟨rfl, _, _, .refl _ _ _ hready.slot⟩
  | ok directive? =>
      cases directive? with
      | none =>
          simp only [bindAttribute, hparse] at h
          simp only [Outline.ofAttribute, hparse]
          obtain ⟨rfl, rfl⟩ := Reaches.done_inj h
          exact .nothing hready
      | some directive =>
          simp only [bindAttribute, hparse] at h
          simp only [Outline.ofAttribute, hparse]
          exact reaches_directive hsite hready hkind h

theorem reaches_attributes : ∀ {pairs : List (String × String)} {w : World}, Ready view lo w →
    (∃ tag, (w.document.node (site place)).kind = .element tag) →
    Reaches ⟨w, Proc.tryEach (bindAttribute (site place) context convention view) pairs⟩
      ⟨w', .done result⟩ →
    Carries context view lo site
      (.sequence (pairs.map (.ofAttribute convention context.methods place))) result w w'
  | [], w, hready, _, h => by
      obtain ⟨rfl, rfl⟩ := Reaches.done_inj h
      exact .nothing hready
  | pair :: pairs, w, hready, hkind, h => by
      obtain ⟨first, u, hfirst, hrest⟩ := Reaches.of_tryEach h
      have hcarries := reaches_attribute hsite hready hkind hfirst
      refine hcarries.andThen hready (hrest.imp_left fun ⟨hok, hlater⟩ => ⟨hok, ?_⟩)
      refine reaches_attributes (hcarries.ready hready) ?_ hlater
      rwa [hcarries.alters.kind _ (Nat.lt_of_lt_of_le hsite hready.base)]

end Element

/-- The watchers of the placeholders of a text. -/
theorem reaches_placeholders {node : NodeId} {template : Template} (hnode : node < lo) :
    ∀ {paths : List Path} {w : World}, Ready view lo w →
      (w.document.node node).kind = .text →
      Reaches ⟨w, Proc.tryEach (bindPlaceholder node template context.data view) paths⟩
        ⟨w', .done result⟩ →
      result = .ok () ∧ w'.document = w.document ∧ ∃ xs, Adds context.data view lo
        (paths.map fun path => (path, .template node template context.data)) [] xs [] w w'
  | [], w, hready, _, h => by
      obtain ⟨rfl, rfl⟩ := Reaches.done_inj h
      exact ⟨rfl, rfl, [], .refl _ _ _ hready.slot⟩
  | path :: paths, w, hready, hkind, h => by
      obtain ⟨first, u, hfirst, hrest⟩ := Reaches.of_tryEach h
      obtain ⟨created, u', hcreate, hview⟩ := Reaches.of_bind hfirst
      obtain ⟨rfl, hcreates⟩ := reaches_createWatcher hready.slot hready.asks hcreate
      have hlast : Passes ⟨u', do
          Proc.modify (·.viewWatches view w.nextWatcher)
          pure (.ok () : Except Error Unit)⟩ []
          ⟨u'.viewWatches view w.nextWatcher, .done (.ok ())⟩ := .bind_nil (.modify _) (.here _)
      obtain ⟨rfl, rfl⟩ := Reaches.result hlast hview
      have hadds : Adds context.data view lo [(path, .template node template context.data)] []
          [w.nextWatcher] [] w (u'.viewWatches view w.nextWatcher) :=
        hcreates.adds (d := u'.document) hready ⟨hnode, hkind⟩ (hcreates.document ▸ .refl _)
      have hdocument : (u'.viewWatches view w.nextWatcher).document = w.document :=
        hcreates.document
      rcases hrest with ⟨-, hlater⟩ | ⟨e, herror, -⟩
      · obtain ⟨hok, hsame, xs, hadds'⟩ :=
          reaches_placeholders hnode (hready.next hadds) (hdocument ▸ hkind) hlater
        exact ⟨hok, hsame.trans hdocument, _, hadds.trans hready.base hadds'⟩
      · cases herror

/-- The text of a text node is its content. -/
theorem Document.textContent_of_text {d : Document} {n : NodeId}
    (hkind : (d.node n).kind = .text) : d.textContent n = (d.node n).text := by
  have hlt : n < d.nodes.length := lt_of_kind (by rw [hkind]; nofun)
  obtain ⟨levels, hlevels⟩ := Nat.exists_eq_succ_of_ne_zero (Nat.ne_of_gt (Nat.zero_lt_of_lt hlt))
  have htrees : d.trees n = [.text (d.node n).text] := by
    rw [Document.trees, hlevels, Document.treesWithin]
    simp only [hkind]
  rw [Document.textContent, htrees]
  simp [Markup.contentAll, Markup.Tree.content]

/-- What is watched for the text of a node: the path of each placeholder. -/
def Template.watches (template : Template) (node : NodeId) (data : ObjectId) : List Watch :=
  template.placeholders.map fun path => (path, .template node template data)

theorem Outline.watches_ofText (place : Nat) (content : String) (data : ObjectId) :
    (Outline.ofText convention place content).watches site data =
      (Template.parse convention.opening convention.closing content).watches (site place) data := by
  rw [watches, ofText, List.filterMap_map]
  exact List.filterMap_eq_map ▸ rfl

theorem Outline.hearings_ofText (place : Nat) (content : String) (context : Context) :
    (Outline.ofText convention place content).hearings site context = [] := by
  rw [hearings, ofText, List.filterMap_map]
  exact List.filterMap_eq_nil_iff.2 fun _ _ => rfl

/-- The text is drawn when all its placeholders have their watchers. -/
theorem Adds.rendered {data : ObjectId} {node : NodeId} {template : Template} {path : Path}
    {text : String} {xs : List WatcherId} (hready : Ready view lo w) (hnode : node < lo)
    (h : Adds data view lo (template.watches node data) [] xs [] w w')
    (hkind : (w'.document.node node).kind = .text) (hpath : path ∈ template.placeholders)
    (hrenders : w'.Pure → w'.graph.Renders data template.segments text) :
    Installs data view lo (template.watches node data) [] xs [] w
      (w'.onDocument (·.setText node text)) := by
  have hsetText := Document.setText_of_text hkind text
  have hlt : node < w'.document.nodes.length :=
    Nat.lt_of_lt_of_le hnode (Nat.le_trans hready.base h.alters.length)
  have hkeeps : Keeps (template.watches node data) (node, false) :=
    ⟨_, List.mem_map.2 ⟨path, hpath, rfl⟩, rfl⟩
  have halters : w'.document.Alters (fun n => Keeps (template.watches node data) (n, false))
      (fun n => Keeps (template.watches node data) (n, true)) (w'.document.setText node text) := by
    rw [hsetText]
    exact .modify _ (fun _ => rfl) (fun _ => rfl) (fun _ _ hl => hl) (.inl hkeeps)
      (.inr fun _ => rfl)
  refine ⟨h.redraw hready.base halters, ?_⟩
  rintro part ⟨p, hp, htarget⟩
  obtain ⟨x, hx, -, hreaction⟩ := h.watcher hp
  obtain ⟨_, -, rfl⟩ := List.mem_map.1 hp
  refine ⟨x, hx, (congrArg Reaction.target? hreaction).trans htarget, fun hpure => ?_⟩
  have hpure := hpure (congrArg Reaction.isTemplate hreaction)
  have hshown : (Reaction.template node template data).Shown (w'.document.setText node text)
      w'.graph lo (w'.watcher x).value := by
    rw [Reaction.Shown, hsetText, Document.node_modify_self hlt]
    exact hrenders (hpure.of_objects rfl)
  have hsame : ((w'.onDocument (·.setText node text)).watcher x).reaction =
      .template node template data := hreaction
  rw [Shows, hsame]
  exact hshown

/-- A text with placeholders is rendered once they all have a watcher. -/
theorem reaches_text {place : Nat} (hopening : convention.opening ≠ "") (hsite : site place < lo)
    (hready : Ready view lo w) (hkind : (w.document.node (site place)).kind = .text)
    (h : Reaches ⟨w, bindText (site place) context convention view⟩ ⟨w', .done result⟩) :
    Carries context view lo site
      (.ofText convention place (w.document.node (site place)).text) result w w' := by
  let node := site place
  let template := Template.parse convention.opening convention.closing (w.document.node node).text
  obtain ⟨content, u, hask, hrest⟩ := Reaches.of_bind h
  obtain ⟨rfl, rfl⟩ := Reaches.result (.ask _) hask
  have hparse : Template.parse? convention (u.document.textContent node) = some template := by
    rw [Template.parse?, if_neg hopening, Document.textContent_of_text hkind]
  rw [hparse] at hrest
  obtain ⟨parsed, u', hneed, hrest⟩ := hrest.of_bind
  obtain ⟨rfl, rfl⟩ := Reaches.done_inj hneed
  rw [Carries, Outline.watches_ofText, Outline.hearings_ofText]
  cases hplaceholders : template.hasPlaceholders with
  | false =>
      rw [if_neg (by simp [hplaceholders])] at hrest
      obtain ⟨rfl, rfl⟩ := Reaches.done_inj hrest
      have hnone : template.placeholders = [] := by
        simpa [Template.hasPlaceholders] using hplaceholders
      rw [Template.watches, show Template.placeholders _ = [] from hnone, List.map_nil]
      exact ⟨rfl, [], [], .refl _ _ _ hready.slot⟩
  | true =>
      rw [if_pos hplaceholders] at hrest
      obtain ⟨first, u, hfirst, hrest⟩ := hrest.of_bind
      obtain ⟨rfl, hdocument, xs, hadds⟩ := reaches_placeholders hsite hready hkind hfirst
      obtain ⟨text, u'', hrender, hset⟩ := Reaches.of_bind hrest
      obtain ⟨rfl, hrenders⟩ :=
        reaches_renderSegments (hready.asks.of_objects hadds.objects) hrender
      have hlast : Passes ⟨u'', do
          Proc.modify (·.onDocument (·.setText node text))
          pure (.ok () : Except Error Unit)⟩ []
          ⟨u''.onDocument (·.setText node text), .done (.ok ())⟩ := .bind_nil (.modify _) (.here _)
      obtain ⟨rfl, rfl⟩ := Reaches.result hlast hset
      obtain ⟨path, hpath⟩ : ∃ path, path ∈ template.placeholders := by
        refine List.exists_mem_of_ne_nil _ fun hnone => ?_
        simp [Template.hasPlaceholders, hnone] at hplaceholders
      exact ⟨rfl, xs, [], hadds.rendered hready hsite (hdocument ▸ hkind) hpath hrenders⟩

/-! ## Inert markup -/

/-- Attributes that are no directives ask for nothing. -/
theorem reaches_inertAttributes {node : NodeId} :
    ∀ {pairs : List (String × String)} {w : World},
      (∀ pair ∈ pairs, Directive.parse convention.marker pair.1 pair.2 = .ok none) →
      Reaches ⟨w, Proc.tryEach (bindAttribute node context convention view) pairs⟩
        ⟨w', .done result⟩ → result = .ok () ∧ w' = w
  | [], w, _, h => (Reaches.done_inj h).symm
  | pair :: pairs, w, hinert, h => by
      obtain ⟨first, u, hfirst, hrest⟩ := Reaches.of_tryEach h
      have hparse := hinert pair List.mem_cons_self
      simp only [bindAttribute, hparse] at hfirst
      obtain ⟨rfl, rfl⟩ := Reaches.done_inj hfirst
      rcases hrest with ⟨-, hlater⟩ | ⟨e, herror, -⟩
      · exact reaches_inertAttributes (fun other hother =>
          hinert other (List.mem_cons_of_mem _ hother)) hlater
      · cases herror

mutual

/-- Compiling inert markup does nothing. -/
theorem reaches_inert (hopening : convention.opening ≠ "") :
    ∀ {tree : Markup.Tree} {n : NodeId} {w w' : World} {result : Except Error Unit},
      w.document.Holds n tree → tree.Inert convention →
      Reaches ⟨w, compileChild context convention view n⟩ ⟨w', .done result⟩ →
      result = .ok () ∧ w' = w
  | .element tag attributes children, n, w, w', result, hn, hinert, h => by
      obtain ⟨hkind, hattributes, hchildren⟩ := hn
      obtain ⟨node, u, hask, hrest⟩ := Reaches.of_bind h
      obtain ⟨rfl, rfl⟩ := Reaches.result (.ask _) hask
      simp only [hkind, hattributes] at hrest
      obtain ⟨first, u', hfirst, hlater⟩ := hrest.of_bind
      obtain ⟨rfl, rfl⟩ := reaches_inertAttributes hinert.1 hfirst
      have hbody : Reaches ⟨u', compileChildren n context convention view⟩
          ⟨w', .done result⟩ :=
        Reaches.of_perform (c := .descend n context convention view) hlater
      obtain ⟨node, u, hask, hdescend⟩ := Reaches.of_bind hbody
      obtain ⟨rfl, rfl⟩ := Reaches.result (.ask _) hask
      exact reaches_inertAll hopening hchildren hinert.2 hdescend
  | .text content, n, w, w', result, hn, hinert, h => by
      obtain ⟨hkind, -, rfl⟩ := hn
      obtain ⟨node, u, hask, hrest⟩ := Reaches.of_bind h
      obtain ⟨rfl, rfl⟩ := Reaches.result (.ask _) hask
      simp only [hkind] at hrest
      obtain ⟨content, u', hask, hrest⟩ := Reaches.of_bind hrest
      obtain ⟨rfl, rfl⟩ := Reaches.result (.ask _) hask
      have hnone : (Template.parse convention.opening convention.closing
          (u'.document.node n).text).placeholders = [] := hinert
      rw [Template.parse?, if_neg hopening, Document.textContent_of_text hkind] at hrest
      obtain ⟨parsed, u, hneed, hrest⟩ := hrest.of_bind
      obtain ⟨rfl, rfl⟩ := Reaches.done_inj hneed
      rw [if_neg (by simp [Template.hasPlaceholders, hnone])] at hrest
      exact (Reaches.done_inj hrest).symm

theorem reaches_inertAll (hopening : convention.opening ≠ "") :
    ∀ {trees : List Markup.Tree} {nodes : List NodeId} {w w' : World} {result : Except Error Unit},
      w.document.HoldAll nodes trees → Markup.Tree.InertAll convention trees →
      Reaches ⟨w, Proc.tryEach (compileChild context convention view) nodes⟩
        ⟨w', .done result⟩ → result = .ok () ∧ w' = w
  | [], nodes, w, w', result, hnodes, _, h => by
      rw [show nodes = [] from hnodes] at h
      exact (Reaches.done_inj h).symm
  | tree :: trees, nodes, w, w', result, hnodes, hinert, h => by
      obtain ⟨n, rest, rfl, hn, hall⟩ := hnodes
      obtain ⟨first, u, hfirst, hrest⟩ := Reaches.of_tryEach h
      obtain ⟨rfl, rfl⟩ := reaches_inert hopening hn hinert.1 hfirst
      rcases hrest with ⟨-, hlater⟩ | ⟨e, herror, -⟩
      · exact reaches_inertAll hopening hall hinert.2 hlater
      · cases herror

end

/-! ## The tree -/

section Displaced

variable {place : Nat} {attributes : Keyed String}

/-- What a directive shows in place of the children of its element is
inert. -/
theorem inert_of_displaced
    (h : Carries context view lo site
      (.ofAttributes convention context.methods place attributes) result w w')
    (hinert : ∀ b ∈ (Outline.ofAttributes convention context.methods place
      attributes).bindings, b.ShowsInert convention w.graph context.data)
    (hdisplaced : (Outline.ofAttributes convention context.methods place
      attributes).bindings.any (·.displaces) = true) :
    ∃ trees, Markup.Tree.InertAll convention trees ∧
      w'.document.HoldAll (w'.document.node (site place)).children trees := by
  obtain ⟨-, xs, es, hinstalls⟩ := h
  obtain ⟨b, hb, hdisplaces⟩ := List.any_eq_true.1 hdisplaced
  obtain ⟨directive, rfl⟩ := Outline.directive_of_mem hb
  have hkeeps : Keeps ((Outline.ofAttributes convention context.methods place attributes).watches
      site context.data) (site place, false) := by
    cases directive with
    | text path => exact ⟨_, List.mem_filterMap.2 ⟨_, hb, rfl⟩, rfl⟩
    | html path => exact ⟨_, List.mem_filterMap.2 ⟨_, hb, rfl⟩, rfl⟩
    | model path => cases hdisplaces
    | on event method => cases hdisplaces
  obtain ⟨x, hx, htarget, hshows⟩ := hinstalls.shown _ hkeeps
  obtain ⟨shower, hshower, hwatch⟩ := List.mem_filterMap.1 (hinstalls.asked hx)
  obtain ⟨directive', rfl⟩ := Outline.directive_of_mem hshower
  obtain ⟨cells, hgives⟩ := (hinstalls.found x hx).given
  have hinert := (hinert _ hshower).frame hinstalls.objects
  rw [Shows] at hshows
  cases directive' with
  | text path =>
      obtain ⟨hpath, hreaction⟩ := Prod.mk.inj (Option.some.inj hwatch)
      rw [← hreaction] at hshows
      have hstand := hshows fun htemplate => absurd htemplate Bool.false_ne_true
      exact ⟨_, hinert _ cells (hpath ▸ hgives), Document.StandAll.holdAll hstand⟩
  | html path =>
      obtain ⟨hpath, hreaction⟩ := Prod.mk.inj (Option.some.inj hwatch)
      rw [← hreaction] at hshows
      have hstand := hshows fun htemplate => absurd htemplate Bool.false_ne_true
      exact ⟨_, hinert _ cells (hpath ▸ hgives), Document.StandAll.holdAll hstand⟩
  | model path =>
      obtain ⟨-, hreaction⟩ := Prod.mk.inj (Option.some.inj hwatch)
      rw [← hreaction] at htarget
      cases htarget
  | on event method => cases hwatch

/-- Without such a directive no content is changed. -/
theorem not_keeps_of_not_displaced {data : ObjectId} {n : NodeId}
    (hdisplaced : (Outline.ofAttributes convention context.methods place
      attributes).bindings.any (·.displaces) = false) :
    ¬ Keeps ((Outline.ofAttributes convention context.methods place attributes).watches site data)
      (n, false) := by
  rintro ⟨p, hp, htarget⟩
  obtain ⟨b, hb, hwatch⟩ := List.mem_filterMap.1 hp
  obtain ⟨directive, rfl⟩ := Outline.directive_of_mem hb
  have hkept := List.any_eq_false.1 hdisplaced _ hb
  cases directive with
  | text path => exact hkept rfl
  | html path => exact hkept rfl
  | model path =>
      cases hwatch
      cases htarget
  | on event method => cases hwatch

end Displaced

mutual

/-- Compiling a tree does what its outline says. -/
theorem reaches_compileChild {total : Nat} (hopening : convention.opening ≠ "")
    (hdistinct : Document.Distinct site total) (hsites : ∀ i < total, site i < lo) :
    ∀ {tree : Markup.Tree} {place : Nat} {w w' : World} {result : Except Error Unit},
      Ready view lo w → w.document.Bears site place tree → place + tree.count ≤ total →
      (∀ b ∈ (Outline.ofTree convention context.methods place tree).bindings,
        b.ShowsInert convention w.graph context.data) →
      Reaches ⟨w, compileChild context convention view (site place)⟩ ⟨w', .done result⟩ →
      Carries context view lo site (.ofTree convention context.methods place tree) result w w'
  | .element tag attributes children, place, w, w', result, hready, hbears, htotal, hinert, h => by
      have hcount : (Markup.Tree.element tag attributes children).count =
          1 + Markup.Tree.countAll children := rfl
      have hsite : site place < lo := hsites place (by omega)
      obtain ⟨hkind, hattributes, hchildren⟩ := hbears
      let own := Outline.ofAttributes convention context.methods place attributes
      obtain ⟨node, u, hask, hrest⟩ := Reaches.of_bind h
      obtain ⟨rfl, rfl⟩ := Reaches.result (.ask _) hask
      simp only [hkind, hattributes] at hrest
      obtain ⟨first, u', hfirst, hlater⟩ := hrest.of_bind
      have hown : Carries context view lo site own first u u' :=
        reaches_attributes hsite hready ⟨tag, hkind⟩ hfirst
      rw [Outline.ofTree] at hinert ⊢
      cases first with
      | error e =>
          obtain ⟨rfl, rfl⟩ := Reaches.done_inj hlater
          split
          · exact hown
          · rwa [Outline.andThen_of_error hown.1.symm]
      | ok _ =>
          have hbody : Reaches ⟨u', compileChildren (site place) context convention view⟩
              ⟨w', .done result⟩ :=
            Reaches.of_perform (c := .descend (site place) context convention view) hlater
          obtain ⟨node, v, hask, hdescend⟩ := Reaches.of_bind hbody
          obtain ⟨rfl, rfl⟩ := Reaches.result (.ask _) hask
          split at hinert
          · rename_i hdisplaced
            obtain ⟨trees, htrees, hholds⟩ := inert_of_displaced hown hinert hdisplaced
            obtain ⟨rfl, rfl⟩ := reaches_inertAll hopening hholds htrees hdescend
            rw [if_pos hdisplaced]
            exact hown
          · rename_i hdisplaced
            rw [if_neg hdisplaced]
            refine hown.andThen hready (.inl ⟨rfl, ?_⟩)
            rw [Outline.andThen_of_result hown.1.symm] at hinert
            obtain ⟨-, xs, es, hinstalls⟩ := id hown
            have hkept : ∀ n, ¬ Keeps (own.watches site context.data) (n, false) := fun n =>
              not_keeps_of_not_displaced (Bool.eq_false_iff.2 hdisplaced)
            have hsame := hinstalls.alters.children (site place)
              (Nat.lt_of_lt_of_le hsite hready.base) (hkept _)
            rw [hsame] at hdescend
            refine reaches_compileAll hopening hdistinct hsites (hown.ready hready)
              (hchildren.frame hinstalls.alters fun i _ _ => hkept _) (by omega) (fun b hb => ?_)
              hdescend
            exact (hinert b (List.mem_append_right _ hb)).frame hinstalls.objects
  | .text content, place, w, w', result, hready, hbears, htotal, hinert, h => by
      have hsite : site place < lo := hsites place (Nat.lt_of_lt_of_le (Nat.lt_succ_self _) htotal)
      obtain ⟨hkind, rfl⟩ := hbears
      obtain ⟨node, u, hask, hrest⟩ := Reaches.of_bind h
      obtain ⟨rfl, rfl⟩ := Reaches.result (.ask _) hask
      simp only [hkind] at hrest
      exact reaches_text hopening hsite hready hkind hrest

/-- The same for a forest. -/
theorem reaches_compileAll {total : Nat} (hopening : convention.opening ≠ "")
    (hdistinct : Document.Distinct site total) (hsites : ∀ i < total, site i < lo) :
    ∀ {trees : List Markup.Tree} {place : Nat} {nodes : List NodeId} {w w' : World}
      {result : Except Error Unit},
      Ready view lo w → w.document.BearAll site place nodes trees →
      place + Markup.Tree.countAll trees ≤ total →
      (∀ b ∈ (Outline.ofForest convention context.methods place trees).bindings,
        b.ShowsInert convention w.graph context.data) →
      Reaches ⟨w, Proc.tryEach (compileChild context convention view) nodes⟩
        ⟨w', .done result⟩ →
      Carries context view lo site (.ofForest convention context.methods place trees) result w w'
  | [], place, nodes, w, w', result, hready, hbears, htotal, hinert, h => by
      rw [show nodes = [] from hbears] at h
      obtain ⟨rfl, rfl⟩ := Reaches.done_inj h
      exact .nothing hready
  | tree :: trees, place, nodes, w, w', result, hready, hbears, htotal, hinert, h => by
      obtain ⟨rest, rfl, hfirstBears, hrestBears⟩ := hbears
      rw [Markup.Tree.countAll] at htotal
      rw [Outline.ofForest] at hinert ⊢
      obtain ⟨first, u, hfirst, hrest⟩ := Reaches.of_tryEach h
      have hcarries := reaches_compileChild hopening hdistinct hsites hready hfirstBears (by omega)
        (fun b hb => hinert b (Outline.mem_andThen_left hb)) hfirst
      refine hcarries.andThen hready (hrest.imp_left fun ⟨hok, hlater⟩ => ⟨hok, ?_⟩)
      rw [Outline.andThen_of_result (hcarries.1.symm.trans hok)] at hinert
      refine reaches_compileAll hopening hdistinct hsites (hcarries.ready hready)
        (hrestBears.frame hcarries.alters fun i hle hi => ?_) (by omega) (fun b hb => ?_) hlater
      · -- the nodes of the other trees are not those of the first one
        rintro ⟨b, hb, heq⟩
        obtain ⟨-, hlt⟩ := Outline.place_of_mem_ofTree hb
        have hsame := hdistinct i (by omega) b.place (by omega) heq
        omega
      · exact (hinert b (List.mem_append_right _ hb)).frame hcarries.objects

end

end DataBinding
