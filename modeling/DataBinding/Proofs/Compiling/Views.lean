import DataBinding.Proofs.Compiling.Gathering
import DataBinding.Proofs.Compiling.Walking

/-!
# What a compilation returns

A compilation that has returned has returned what the outline of the tree
says: its error, or a view with a watcher and a listener for everything
that was asked for, in order (`reaches_compile`). The tree must stand
apart from the root, and what the data shows must be inert.
-/

namespace DataBinding

open World

variable {context : Context} {convention : Convention} {site : Nat → NodeId} {root : NodeId}
  {trees : List Markup.Tree} {w w' : World}

/-- A tree below a root that can be walked over: accessors only ask, and
where something is shown in place of children, it is inert. -/
structure Walkable (convention : Convention) (context : Context) (site : Nat → NodeId)
    (root : NodeId) (trees : List Markup.Tree) (w : World) : Prop where
  slot : w.slot = none
  asks : w.OnlyAsks
  there : root < w.document.nodes.length
  bears : w.document.BearAll site 0 (w.document.node root).children trees
  distinct : Document.Distinct site (Markup.Tree.countAll trees)
  below : ∀ i < Markup.Tree.countAll trees, site i ≠ root
  inert : ∀ b ∈ (Outline.ofForest convention context.methods 0 trees).bindings,
    b.ShowsInert convention w.graph context.data

/-- Such a tree, where accessors are functions of what they read. -/
structure Compilable (convention : Convention) (context : Context) (site : Nat → NodeId)
    (root : NodeId) (trees : List Markup.Tree) (w : World) : Prop
    extends Walkable convention context site root trees w where
  pure : w.Pure

theorem Walkable.site_lt (h : Walkable convention context site root trees w) {i : Nat}
    (hi : i < Markup.Tree.countAll trees) : site i < w.document.nextNode :=
  h.bears.lt i (Nat.zero_le _) (by rwa [Nat.zero_add])

/-- The watchers and the listeners of a view, and what they are for. -/
structure Compiled (data : ObjectId) (view : ViewId) (lo : NodeId) (ps : List Watch)
    (ls : List Hearing) (xs : List WatcherId) (es : List (NodeId × Listener)) (w : World) :
    Prop where
  base : lo ≤ w.document.nodes.length
  watching : (w.view view).watchers = xs
  watches : xs.map (fun x => ((w.watcher x).path, (w.watcher x).reaction)) = ps
  fits : ∀ x ∈ xs, (w.watcher x).reaction.Fits w.document lo
  found : ∀ x ∈ xs, w.Found data x
  listening : (w.view view).listeners = es.map fun e => (e.1, e.2.id)
  hears : es.map (fun e => (e.1, e.2.event, e.2.handler)) = ls
  heard : ∀ e ∈ es, e.2 ∈ (w.document.node e.1).listeners
  shown : ∀ part, Keeps ps part → ∃ x ∈ xs, (w.watcher x).reaction.target? = some part ∧
    (((w.watcher x).reaction.isTemplate = true → w.Pure) → Shows lo w x)

/-- A view that was empty before holds what was installed, also after a
change elsewhere in the document. -/
theorem Installs.compiled {data : ObjectId} {view : ViewId} {lo : NodeId} {ps : List Watch}
    {ls : List Hearing} {xs : List WatcherId} {es : List (NodeId × Listener)} {d : Document}
    {inner : NodeId → Prop} (h : Installs data view lo ps ls xs es w w')
    (hempty : w.view view = ⟨[], []⟩) (hlo : lo ≤ w.document.nodes.length)
    (halters : w'.document.Alters inner (fun _ => False) d)
    (hinner : ∀ n, inner n → n < lo ∧ ¬ Keeps ps (n, false)) :
    Compiled data view lo ps ls xs es { w' with document := d } where
  base := Nat.le_trans hlo (Nat.le_trans h.alters.length halters.length)
  watching := by
    refine h.watching.trans ?_
    rw [hempty, List.nil_append]
  watches := h.watches
  fits x hx := (h.fits x hx).frame halters (Nat.le_trans hlo h.alters.length)
  found x hx := (h.found x hx).frame rfl rfl
  listening := by
    refine h.listening.trans ?_
    rw [hempty, List.nil_append]
  hears := h.hears
  heard e he := halters.listeners e.1 (h.heard e he).1 e.2 (h.heard e he).2
  shown part hkeeps := by
    obtain ⟨x, hx, htarget, hshows⟩ := h.shown part hkeeps
    refine ⟨x, hx, htarget, fun hpure => ?_⟩
    have hshown : Shows lo w' x := hshows fun htemplate => (hpure htemplate).of_objects rfl
    refine hshown.frame (h.fits x hx) (Nat.le_trans hlo h.alters.length) halters
      (fun n hn hin => ?_) (fun _ _ hin => hin) fun n hle hin => Nat.not_lt.2 hle (hinner n hin).1
    cases htarget.symm.trans hn
    exact (hinner n hin).2 hkeeps

/-- Once the children are in a fragment of their own, they can be walked
over. -/
theorem Walkable.opened (h : Walkable convention context site root trees w) :
    Ready w.nextView (w.document.nextNode + 1) (w.openCompilation root) ∧
      (w.openCompilation root).view w.nextView = ⟨[], []⟩ ∧
      ((w.openCompilation root).document.node w.document.nextNode).kind = .fragment ∧
      ((w.openCompilation root).document.node w.document.nextNode).children =
        (w.document.node root).children ∧
      (w.openCompilation root).document.BearAll site 0 (w.document.node root).children trees := by
  obtain ⟨hopened, hlength, hfragment, hchildren⟩ :=
    Document.gathered_spec h.bears h.distinct h.there
  refine ⟨⟨h.slot, h.asks.of_objects rfl, ?_, hlength⟩, ?_, hfragment, hchildren, ?_⟩
  · rw [show (w.openCompilation root).views = w.views ++ [⟨[], []⟩] from rfl, List.length_append]
    exact Nat.lt_succ_self _
  · simp [World.view, World.nextView, World.openCompilation, World.addView, World.onDocument]
  · refine h.bears.frame hopened fun i _ hi hor => ?_
    rw [Nat.zero_add] at hi
    exact hor.elim (h.below i hi) (Nat.ne_of_lt (h.site_lt hi))

/-- The walk over them does what the outline says. -/
theorem Walkable.carries (hopening : convention.opening ≠ "")
    (h : Walkable convention context site root trees w) {walked : Except Error Unit}
    (hwalk : Reaches ⟨w.openCompilation root,
      compileChildren w.document.nextNode context convention w.nextView⟩ ⟨w', .done walked⟩) :
    Carries context w.nextView (w.document.nextNode + 1) site
      (.ofForest convention context.methods 0 trees) walked (w.openCompilation root) w' := by
  obtain ⟨hready, -, -, hchildren, hbears⟩ := h.opened
  obtain ⟨node, v, hask, htree⟩ := Reaches.of_bind hwalk
  obtain ⟨rfl, rfl⟩ := Reaches.result (.ask _) hask
  rw [hchildren] at htree
  exact reaches_compileAll hopening h.distinct (fun i hi => Nat.lt_succ_of_lt (h.site_lt hi))
    hready hbears (Nat.le_of_eq (Nat.zero_add _)) (fun b hb => (h.inert b hb).frame rfl) htree

theorem reaches_compile {result : Except Error ViewId} (hopening : convention.opening ≠ "")
    (hkind : (w.document.node root).kind ≠ .text)
    (hwalkable : Walkable convention context site root trees w)
    (h : Reaches ⟨w, compile root context convention⟩ ⟨w', .done result⟩) :
    (∃ e, (Outline.ofForest convention context.methods 0 trees).error = some e ∧
        result = .error e) ∨
      (Outline.ofForest convention context.methods 0 trees).error = none ∧
        result = .ok w.nextView ∧ w'.graph.objects = w.graph.objects ∧ w'.slot = none ∧
        ∃ xs es, Compiled context.data w.nextView (w.document.nextNode + 1)
          ((Outline.ofForest convention context.methods 0 trees).watches site context.data)
          ((Outline.ofForest convention context.methods 0 trees).hearings site context) xs es
          w' := by
  let o := Outline.ofForest convention context.methods 0 trees
  let opened := w.openCompilation root
  let fragment := w.document.nextNode
  obtain ⟨hready, hempty, hfragment, hchildren, -⟩ := hwalkable.opened
  obtain ⟨walked, u'', hwalk, hends⟩ := Reaches.of_compile hkind h
  have hcarries : Carries context w.nextView (fragment + 1) site o walked opened u'' :=
    hwalkable.carries hopening hwalk
  have hfragmentKind : (u''.document.node fragment).kind = .fragment :=
    (hcarries.alters.kind fragment hready.base).trans hfragment
  -- neither the root nor the fragment is a site
  have hkept : ∀ n, n = root ∨ n = fragment →
      ¬ Keeps (o.watches site context.data) (n, false) := by
    rintro n hn hkeeps
    obtain ⟨b, hb, rfl⟩ := Outline.site_of_keeps hkeeps
    have hlt := (Outline.place_of_mem_ofForest hb).2
    rw [Nat.zero_add] at hlt
    exact hn.elim (hwalkable.below _ hlt) (Nat.ne_of_lt (hwalkable.site_lt hlt))
  obtain ⟨hwalked, xs, es, hinstalls⟩ := hcarries
  have happend : u''.document.Alters (fun n => n = root ∨ n = fragment) (fun _ => False)
      (u''.document.append root fragment) := by
    have hlength := hinstalls.alters.length
    refine (Document.append_fragment_spec (Nat.lt_of_lt_of_le ?_ hlength)
      (Nat.lt_of_lt_of_le hready.base hlength) hfragmentKind ?_).1
    · exact Nat.lt_trans hwalkable.there hready.base
    · rw [hinstalls.alters.children fragment hready.base (hkept fragment (.inr rfl)), hchildren]
      exact hwalkable.bears.nodup hwalkable.distinct (Nat.le_of_eq (Nat.zero_add _))
  rcases hends with ⟨rfl, rfl, rfl⟩ | ⟨e, rfl, rfl, rfl⟩
  · refine .inr ⟨Outline.error_of_result hwalked.symm, rfl, hinstalls.objects, hinstalls.slot,
      xs, es, ?_⟩
    refine hinstalls.compiled hempty hready.base happend fun n hn => ⟨?_, hkept n hn⟩
    rcases hn with rfl | rfl
    · exact Nat.lt_succ_of_lt hwalkable.there
    · exact Nat.lt_succ_self _
  · exact .inl ⟨e, Outline.error_of_result_error hwalked.symm, rfl⟩

end DataBinding
