import DataBinding.Proofs.Compiling.Independence
import DataBinding.Proofs.Compiling.Separate
import DataBinding.Proofs.Rendering.Writes

/-!
# Compiled views stay current

A view that was compiled against reactive data shows the values of its
watchers (`Compiled.rendered`), and keeps showing them along writes. So
every binding of the tree is current after every sequence of writes
(`current_of_compile`): what its node shows is what the path has for a
value now, or what the template renders to now.

Whoever else is told of a write must leave the data alone. A text is
rendered as a whole whenever one of its placeholders has a new value, and
the watcher of another one may come to find the value that it had before
(`outdated_text`).
-/

namespace DataBinding

open World

variable {convention : Convention} {methods : Keyed Method} {site : Nat → NodeId} {root : NodeId}
  {trees : List Markup.Tree} {data : ObjectId} {view : ViewId} {lo : NodeId} {w w' : World}
  {x : WatcherId} {o : Outline} {xs : List WatcherId} {es : List (NodeId × Listener)}

/-! ## The watchers of an outline -/

/-- The part of a binding, at its site. -/
theorem Binding.target_eq_part {b : Binding} {p : Watch} (h : b.watch? site data = some p) :
    p.2.target? = b.part?.map fun part => (site part.1, part.2) := by
  cases b with
  | placeholder place template path =>
      cases h
      rfl
  | directive place directive =>
      cases directive with
      | on event method => cases h
      | _ =>
          cases h
          rfl

/-- Watches that keep the same part are for the same template. -/
def Watch.Apart (p q : Watch) : Prop :=
  ∀ part, p.2.target? = some part → q.2.target? = some part → p.2 = q.2 ∧ q.2.isTemplate = true

theorem Outline.Separate.watches {total : Nat} (h : o.Separate)
    (hdistinct : Document.Distinct site total) (hplaces : ∀ b ∈ o.bindings, b.place < total) :
    (o.watches site data).Pairwise Watch.Apart := by
  have hboth : o.bindings.Pairwise fun b b' => b.Apart b' ∧ b.place < total ∧ b'.place < total :=
    h.imp_of_mem fun hb hb' happart => ⟨happart, hplaces _ hb, hplaces _ hb'⟩
  refine hboth.filterMap _ fun b b' ⟨happart, hlt, hlt'⟩ p hp q hq part hpart hpart' => ?_
  rw [Binding.target_eq_part hp] at hpart
  rw [Binding.target_eq_part hq] at hpart'
  obtain ⟨⟨place, form⟩, hb, rfl⟩ := Option.map_eq_some_iff.1 hpart
  obtain ⟨⟨place', form'⟩, hb', hsame⟩ := Option.map_eq_some_iff.1 hpart'
  rw [Binding.place_of_part hb] at hlt
  rw [Binding.place_of_part hb'] at hlt'
  obtain rfl : place' = place := hdistinct _ hlt' _ hlt (congrArg Prod.fst hsame)
  obtain rfl : form' = form := congrArg Prod.snd hsame
  obtain ⟨_, template, path, path', rfl, rfl⟩ := happart _ hb hb'
  cases hp
  cases hq
  exact ⟨rfl, rfl⟩

namespace Compiled

variable {ls : List Hearing}

/-- A watch that was asked for is that of a watcher of the view. -/
theorem watcher_of_mem (h : Compiled data view lo (o.watches site data) ls xs es w) {b : Binding}
    (hb : b ∈ o.bindings) {p : Watch} (hp : b.watch? site data = some p) :
    ∃ x ∈ xs, (w.watcher x).path = p.1 ∧ (w.watcher x).reaction = p.2 := by
  have hmem : p ∈ o.watches site data := List.mem_filterMap.2 ⟨b, hb, hp⟩
  rw [← h.watches] at hmem
  obtain ⟨x, hx, rfl⟩ := List.mem_map.1 hmem
  exact ⟨x, hx, rfl, rfl⟩

/-- Every watcher of the view was asked for. -/
theorem binding_of_watcher (h : Compiled data view lo (o.watches site data) ls xs es w)
    (hx : x ∈ xs) :
    ∃ b ∈ o.bindings, b.watch? site data = some ((w.watcher x).path, (w.watcher x).reaction) := by
  have hmem : ((w.watcher x).path, (w.watcher x).reaction) ∈ o.watches site data :=
    h.watches ▸ List.mem_map_of_mem hx
  exact List.mem_filterMap.1 hmem

theorem template_of_watcher (h : Compiled data view lo (o.watches site data) ls xs es w)
    (hx : x ∈ xs) {node : NodeId} {template : Template} {root : ObjectId}
    (hreaction : (w.watcher x).reaction = .template node template root) :
    root = data ∧ ∃ place path, node = site place ∧
      .placeholder place template path ∈ o.bindings := by
  obtain ⟨b, hb, hwatch⟩ := h.binding_of_watcher hx
  rw [hreaction] at hwatch
  cases b with
  | placeholder place parsed path =>
      cases hwatch
      exact ⟨rfl, place, _, rfl, hb⟩
  | directive place directive =>
      cases directive with
      | on event method => cases hwatch
      | _ => cases hwatch

/-- No two watchers keep the same part, but for those of one text. -/
theorem separate {total : Nat} (h : Compiled data view lo (o.watches site data) ls xs es w)
    (hseparate : o.Separate) (hdistinct : Document.Distinct site total)
    (hplaces : ∀ b ∈ o.bindings, b.place < total) {y : WatcherId} (hx : x ∈ xs) (hy : y ∈ xs)
    (htarget : (w.watcher y).reaction.target? = (w.watcher x).reaction.target?) :
    y = x ∨ (w.watcher y).reaction = (w.watcher x).reaction ∧
      (w.watcher x).reaction.isTemplate = true := by
  let agree : WatcherId → WatcherId → Prop := fun x y =>
    (w.watcher y).reaction.target? = (w.watcher x).reaction.target? → y = x ∨
      (w.watcher y).reaction = (w.watcher x).reaction ∧
        (w.watcher x).reaction.isTemplate = true
  have hpairs : xs.Pairwise fun x y => Watch.Apart
      ((w.watcher x).path, (w.watcher x).reaction) ((w.watcher y).path, (w.watcher y).reaction) :=
    List.pairwise_map.1 (h.watches ▸ hseparate.watches hdistinct hplaces)
  have hboth : ∀ x ∈ xs, ∀ y ∈ xs, Watch.Apart ((w.watcher x).path, (w.watcher x).reaction)
      ((w.watcher y).path, (w.watcher y).reaction) → agree x y ∧ agree y x := by
    intro x hx y _ happart
    obtain ⟨part, hpart⟩ := Option.ne_none_iff_exists'.1 (h.fits x hx).target?_ne_none
    refine ⟨fun heq => ?_, fun heq => ?_⟩
    · obtain ⟨hsame, htemplate⟩ := happart part hpart (heq.trans hpart)
      exact .inr ⟨hsame.symm, (congrArg Reaction.isTemplate hsame).trans htemplate⟩
    · obtain ⟨hsame, htemplate⟩ := happart part hpart (heq ▸ hpart)
      exact .inr ⟨hsame, htemplate⟩
  exact List.Pairwise.forall_of_forall_of_flip (R := agree) (fun _ _ _ => .inl rfl)
    (hpairs.imp_of_mem fun hx hy happart => (hboth _ hx _ hy happart).1)
    (hpairs.imp_of_mem fun hx hy happart => (hboth _ hx _ hy happart).2) hx hy htarget

/-- A compiled view shows what its paths yield. -/
theorem rendered {total : Nat} (h : Compiled data view lo (o.watches site data) ls xs es w)
    (hseparate : o.Separate) (hfull : o.Full) (hdistinct : Document.Distinct site total)
    (hplaces : ∀ b ∈ o.bindings, b.place < total) (hledger : Ledger w) (hslot : w.slot = none)
    (hpure : w.Pure) (hreactive : ∀ j, w.graph.Leads (· = data) j → w.graph.Reactive j) :
    Rendered data view lo w where
  base := h.base
  rooted x hx := (h.found x (h.watching ▸ hx)).rooted
  kept x hx := (h.found x (h.watching ▸ hx)).kept
  fits x hx := h.fits x (h.watching ▸ hx)
  rendered x hx node template root hreaction :=
    (h.template_of_watcher (h.watching ▸ hx) hreaction).1
  separate x hx y hy htarget :=
    h.separate hseparate hdistinct hplaces (h.watching ▸ hx) (h.watching ▸ hy) htarget
  ledger := hledger
  slot := hslot
  pure := hpure
  reactive := hreactive
  complete x hx node template root hreaction path hpath := by
    obtain ⟨rfl, place, path', rfl, hmem⟩ := h.template_of_watcher (h.watching ▸ hx) hreaction
    have hplaceholder : path ∈ template.placeholders :=
      List.mem_filterMap.2 ⟨.placeholder path, hpath, rfl⟩
    obtain ⟨y, hy, hpath', hreaction'⟩ :=
      h.watcher_of_mem (hfull place template path' hmem path hplaceholder) rfl
    exact ⟨y, h.watching ▸ hy, hreaction'.trans hreaction.symm, hpath'⟩
  fresh x hx := by
    obtain ⟨hrooted, -, -, hfound⟩ := h.found x (h.watching ▸ hx)
    obtain ⟨cells, hyields, hdependencies⟩ := hfound hpure
    refine ⟨_, grounded_of_reads hyields (fun d hd => (hdependencies d).2 hd) ?_, .refl _⟩
    rw [Watcher.query, hrooted] at hyields
    exact fun c hc => hreactive c.1 (hyields.leads c hc)
  shown x hx := by
    rw [h.watching] at hx
    obtain ⟨part, hpart⟩ := Option.ne_none_iff_exists'.1 (h.fits x hx).target?_ne_none
    have hkeeps : Keeps (o.watches site data) part := by
      rw [← h.watches]
      exact ⟨_, List.mem_map_of_mem hx, hpart⟩
    obtain ⟨y, hy, htarget, hshows⟩ := h.shown part hkeeps
    have hshown : Shows lo w y := hshows fun _ => hpure
    rcases h.separate hseparate hdistinct hplaces hy hx (hpart.trans htarget.symm) with
      rfl | ⟨hsame, htemplate⟩
    · exact hshown
    · exact hshown.of_template hsame htemplate

end Compiled

/-! ## What a binding shows -/

/-- What a binding shows at its site is what its path has for a value now,
or what its template renders to now. -/
def Binding.Current (site : Nat → NodeId) (data : ObjectId) (w : World) : Binding → Prop
  | .directive place (.text path) => ∃ v, Reaches ⟨w, path.resolve data none⟩ ⟨w, .done v⟩ ∧
      w.document.textContent (site place) = v.text
  | .directive place (.html path) => ∃ v, Reaches ⟨w, path.resolve data none⟩ ⟨w, .done v⟩ ∧
      w.document.HoldAll (w.document.node (site place)).children (Document.markupForest v.text)
  | .directive place (.model path) => ∃ v, Reaches ⟨w, path.resolve data none⟩ ⟨w, .done v⟩ ∧
      (w.document.node (site place)).value = v.text
  | .directive _ (.on _ _) => True
  | .placeholder place parsed _ =>
      Reaches ⟨w, parsed.render data none⟩ ⟨w, .done (w.document.textContent (site place))⟩

/-- The text of an element that holds one text. -/
theorem Document.textContent_of_textForest {d : Document} {n : NodeId} {tag content : String}
    (hkind : (d.node n).kind = .element tag)
    (h : d.HoldAll (d.node n).children (Document.textForest content)) :
    d.textContent n = content := by
  have hholds : d.Holds n (.element tag (d.node n).attributes (Document.textForest content)) :=
    ⟨hkind, rfl, h⟩
  rw [hholds.textContent, Markup.Tree.content, Document.textForest]
  split
  · rename_i hempty
    rw [hempty]
    rfl
  · simp [Markup.contentAll, Markup.Tree.content]

/-- The value of a watcher has the text of what its path resolves to. -/
theorem Rendered.resolves (h : Rendered data view lo w) (hx : x ∈ (w.view view).watchers) :
    ∃ v, Reaches ⟨w, (w.watcher x).path.resolve data none⟩ ⟨w, .done v⟩ ∧
      (w.watcher x).value.text = v.text := by
  obtain ⟨v, cells, hyields, htext⟩ := (h.fresh x hx).text
  rw [Watcher.query, h.rooted x hx] at hyields
  obtain ⟨u, hu, calls, -, hpasses⟩ := hyields.comes none fun _ => rfl
  cases hu
  exact ⟨v, hpasses.reaches, htext⟩

theorem Rendered.current (h : Rendered data view lo w) (hx : x ∈ (w.view view).watchers)
    {b : Binding} (hb : b.watch? site data = some ((w.watcher x).path, (w.watcher x).reaction)) :
    b.Current site data w := by
  obtain ⟨v, hresolves, htext⟩ := h.resolves hx
  have hfits := h.fits x hx
  have hshows := h.shown x hx
  unfold Shows at hshows
  cases b with
  | placeholder place template path =>
      obtain ⟨-, hreaction⟩ := Prod.mk.inj (Option.some.inj hb)
      rw [← hreaction] at hfits hshows
      rw [Binding.Current, Document.textContent_of_text hfits.2]
      obtain ⟨calls, -, hpasses⟩ := passes_renderSegments hshows
      exact hpasses.reaches
  | directive place directive =>
      cases directive with
      | on event method => trivial
      | text path =>
          obtain ⟨hpath, hreaction⟩ := Prod.mk.inj (Option.some.inj hb)
          rw [← hreaction] at hfits hshows
          obtain ⟨tag, htag⟩ := hfits.2
          refine ⟨v, hpath ▸ hresolves, ?_⟩
          rw [Document.textContent_of_textForest htag hshows.holdAll, htext]
      | html path =>
          obtain ⟨hpath, hreaction⟩ := Prod.mk.inj (Option.some.inj hb)
          rw [← hreaction] at hshows
          refine ⟨v, hpath ▸ hresolves, ?_⟩
          rw [← htext]
          exact hshows.holdAll
      | model path =>
          obtain ⟨hpath, hreaction⟩ := Prod.mk.inj (Option.some.inj hb)
          rw [← hreaction] at hshows
          exact ⟨v, hpath ▸ hresolves, hshows.trans htext⟩

/-! ## Compiling and writing -/

/-- A compiled view is current after every sequence of writes. -/
theorem current_of_compile {w'' : World} (hopening : convention.opening ≠ "")
    (hreachable : w.Reachable) (hcompilable : Compilable convention ⟨data, methods⟩ site root trees w)
    (hsingle : Markup.Tree.SingleAll convention trees)
    (hreactive : ∀ j, w.graph.Leads (· = data) j → w.graph.Reactive j)
    (hcompile : Reaches ⟨w, compile root ⟨data, methods⟩ convention⟩ ⟨w', .done (.ok view)⟩)
    (hwrites : Writes data view w' w'') :
    ∀ b ∈ (Outline.ofForest convention methods 0 trees).bindings, b.Current site data w'' := by
  intro b hb
  have hkind : (w.document.node root).kind ≠ .text := fun htext => by
    cases compile_of_text htext hcompile
  rcases reaches_compile hopening hkind hcompilable.toWalkable hcompile with
    ⟨e, -, he⟩ | ⟨-, hok, hobjects, hslot, xs, es, hcompiled⟩
  · cases he
  · cases hok
    have hkeeps := (LedgerDiscipline.lawful.compile root ⟨data, methods⟩ convention).keeps
      fun _ _ _ _ => trivial
    have hledger : Ledger w' := hreachable.ledger.along hkeeps hcompile
    have hsame : SameData data w w' := .of_objects hobjects
    have hplaces : ∀ b ∈ (Outline.ofForest convention methods 0 trees).bindings,
        b.place < Markup.Tree.countAll trees := fun b hb => by
      have hplace := (Outline.place_of_mem_ofForest hb).2
      rwa [Nat.zero_add] at hplace
    have hrendered := hcompiled.rendered (Outline.separate_ofForest 0 hsingle)
      (Outline.full_ofForest trees 0) hcompilable.distinct hplaces hledger hslot
      (hcompilable.pure.of_objects hobjects) (hsame.reactive hreactive)
    obtain ⟨hlast, hwiring⟩ := hwrites.rendered hrendered
    cases hwatch : b.watch? site data with
    | none =>
        cases b with
        | placeholder place template path => cases hwatch
        | directive place directive =>
            cases directive with
            | on event method => trivial
            | _ => cases hwatch
    | some p =>
        obtain ⟨x, hx, hpath, hreaction⟩ := hcompiled.watcher_of_mem hb hwatch
        rw [← hcompiled.watching] at hx
        refine hlast.current (hwiring.view ▸ hx) (hwatch.trans ?_)
        rw [hwiring.path hx, hwiring.reaction hx, hpath, hreaction]

/-- A paragraph and a text, after what they show was written. -/
theorem current_of_compile_of_paragraph : ∃ w' w'' : World,
    Reaches ⟨paragraphWorld "x", compile 0 ⟨0, .empty⟩ .standard⟩ ⟨w', .done (.ok 0)⟩ ∧
      Writes 0 0 w' w'' ∧ w''.document.textContent 1 = "y" ∧ w''.document.textContent 2 = "y" ∧
      ∀ b ∈ (Outline.ofForest .standard .empty 0 paragraphTrees).bindings,
        b.Current (· + 1) 0 w'' := by
  have hrun : ∃ reports, runScript 100 .start
      [.newObject "o" [("a", .const (.string "x")), ("b", .const (.bool true))],
        .observe (.object "o"), .node (.fragment "n"), .node (.element "p" "p"),
        .node (.setAttribute "p" "v-text" "a"), .node (.append "n" "p"),
        .node (.text "t" "\x7b\x7ba\x7d\x7d"), .node (.append "n" "t")] =
          .finished reports (paragraphWorld "x") := ⟨_, rfl⟩
  obtain ⟨reports, hrun⟩ := hrun
  have hcompile := @Config.reaches_of_view? 300
    ⟨paragraphWorld "x", compile 0 ⟨0, .empty⟩ .standard⟩ 0 (by decide +kernel)
  let w' := (Config.advance 300 ⟨paragraphWorld "x", compile 0 ⟨0, .empty⟩ .standard⟩).world
  have hset := @Config.reaches_of_returned Unit 100 ⟨w', setProperty 0 "a" (.string "y")⟩ ()
    (by decide +kernel)
  have hdependency : w'.graph.dependency? 0 "a" = some 0 := by decide +kernel
  obtain ⟨value, hslot⟩ := Graph.dependency?_eq_some.1 hdependency
  have hquiet : Quiet 0 0 ⟨w', setProperty 0 "a" (.string "y")⟩ :=
    .of_run 0 100 (by decide +kernel) (by decide +kernel)
  have hwrites : Writes 0 0 w' _ := .set hslot hquiet hset
  have hcurrent := current_of_compile (by decide) (World.Rested.start.runScript hrun).reachable
    ⟨walkable_paragraphWorld (by decide) (by decide +kernel),
      .of_allReactive (reactive_paragraphWorld "x")⟩
    ⟨⟨by decide +kernel, trivial⟩, trivial, trivial⟩
    (fun j _ => Graph.reactive_of_allReactive (reactive_paragraphWorld "x") j) hcompile hwrites
  exact ⟨w', _, hcompile, hwrites, by decide +kernel, by decide +kernel, hcurrent⟩

/-! ## A text that is not current -/

/-- Two placeholders in one text. -/
def pairTrees : List Markup.Tree :=
  [.text "\x7b\x7ba\x7d\x7d \x7b\x7bb\x7d\x7d"]

/-- Whenever `a` has become `2`, makes `b` `2` and `a` `1` again. -/
def revertingBody : List Step :=
  [.set "o" "b" (.choose (.same .given (.const (.string "2"))) (.const (.string "2"))
      (.lookup "o" "b")),
    .set "o" "a" (.choose (.same .given (.const (.string "2"))) (.const (.string "1"))
      (.lookup "o" "a"))]

/-- Observed data with a watcher that reverts it. -/
def revertingWorld : World :=
  { World.start with
    graph := ⟨[⟨[("a", .data ⟨.string "1", some 0⟩), ("b", .data ⟨.string "1", some 1⟩)]⟩],
      [[.watcher 0], []]⟩
    evaluations := [⟨.watcher 0, [], [0], false, 1⟩]
    watchers := [⟨0, ⟨"a", ["a"]⟩, .client "f" revertingBody, .string "1", [0], false, 1⟩]
    names := { Names.empty with objects := ⟨[("o", 0)]⟩, watchers := ⟨[("f", 0)]⟩ } }

/-- The same, with the text to be compiled. -/
def pairWorld : World :=
  { revertingWorld with
    document := Document.plantAll 0 pairTrees (Document.empty.add (.new .fragment))
    names := { Names.empty with
      objects := ⟨[("o", 0)]⟩, watchers := ⟨[("f", 0)]⟩, nodes := ⟨[("n", 0), ("t", 1)]⟩ } }

theorem reachable_pairWorld : pairWorld.Reachable := by
  have hreverting : ∃ reports, runScript 100 .start
      [.newObject "o" [("a", .const (.string "1")), ("b", .const (.string "1"))],
        .observe (.object "o"), .watch "f" "o" "a" revertingBody] =
          .finished reports revertingWorld := ⟨_, rfl⟩
  have hpair : ∃ reports, runScript 100 revertingWorld
      [.node (.fragment "n"), .node (.text "t" "\x7b\x7ba\x7d\x7d \x7b\x7bb\x7d\x7d"),
        .node (.append "n" "t")] = .finished reports pairWorld := ⟨_, rfl⟩
  obtain ⟨⟨_, hreverting⟩, ⟨_, hpair⟩⟩ := And.intro hreverting hpair
  exact ((World.Rested.start.runScript hreverting).runScript hpair).reachable

theorem compilable_pairWorld :
    Compilable .standard ⟨0, .empty⟩ (· + 1) 0 pairTrees pairWorld where
  slot := rfl
  pure := .of_allReactive rfl
  asks := Pure.onlyAsks (.of_allReactive rfl)
  there := Nat.zero_lt_succ 1
  bears := ⟨[], rfl, ⟨rfl, rfl⟩, rfl⟩
  distinct i _ j _ heq := Nat.succ.inj heq
  below i _ := Nat.succ_ne_zero i
  inert b hb := by
    rcases Outline.mem_andThen hb with hb | hb
    · obtain ⟨path, -, rfl⟩ := List.mem_map.1 hb
      trivial
    · exact absurd hb List.not_mem_nil

/-- The view of the two placeholders is not current after a write. The text
was rendered for `b` while `a` was `2`; the watcher of `a` comes to be told
when it is `1` again, and renders nothing. -/
theorem outdated_text : ∃ w' w'' : World, pairWorld.Reachable ∧
    Compilable .standard ⟨0, .empty⟩ (· + 1) 0 pairTrees pairWorld ∧
    Markup.Tree.SingleAll .standard pairTrees ∧
    (∀ j, pairWorld.graph.Leads (· = 0) j → pairWorld.graph.Reactive j) ∧
    Reaches ⟨pairWorld, compile 0 ⟨0, .empty⟩ .standard⟩ ⟨w', .done (.ok 0)⟩ ∧
    w'.graph.dependency? 0 "a" = some 0 ∧
    Reaches ⟨w', setProperty 0 "a" (.string "2")⟩ ⟨w'', .done ()⟩ ∧ w''.slot = none ∧
    w''.graph.keys 0 = w'.graph.keys 0 ∧ w''.document.textContent 1 = "2 2" ∧
    ∃ b ∈ (Outline.ofForest .standard .empty 0 pairTrees).bindings,
      ¬ b.Current (· + 1) 0 w'' := by
  let ab : Template := ⟨[.placeholder ⟨"a", ["a"]⟩, .literal " ", .placeholder ⟨"b", ["b"]⟩]⟩
  have hcompile := @Config.reaches_of_view? 300
    ⟨pairWorld, compile 0 ⟨0, .empty⟩ .standard⟩ 0 (by decide +kernel)
  let w' := (Config.advance 300 ⟨pairWorld, compile 0 ⟨0, .empty⟩ .standard⟩).world
  have hset := @Config.reaches_of_returned Unit 300 ⟨w', setProperty 0 "a" (.string "2")⟩ ()
    (by decide +kernel)
  let w'' := (Config.advance 300 ⟨w', setProperty 0 "a" (.string "2")⟩).world
  have hrender := @Config.reaches_of_returned String 100 ⟨w'', ab.render 0 none⟩ "1 2"
    (by decide +kernel)
  have htext : w''.document.textContent 1 = "2 2" := by decide +kernel
  have hbinding : .placeholder 0 ab ⟨"a", ["a"]⟩ ∈
      (Outline.ofForest .standard .empty 0 pairTrees).bindings := by decide +kernel
  refine ⟨w', w'', reachable_pairWorld, compilable_pairWorld, ⟨trivial, trivial⟩,
    fun j _ => Graph.reactive_of_allReactive rfl j, hcompile, by decide +kernel, hset,
    Option.isNone_iff_eq_none.1 (by decide +kernel), by decide +kernel, htext, _, hbinding,
    fun hcurrent => ?_⟩
  obtain ⟨calls, hpasses⟩ := hrender.passes
  have hsame := (Reaches.result hpasses hcurrent).2
  rw [htext] at hsame
  exact absurd hsame (by decide)

end DataBinding
