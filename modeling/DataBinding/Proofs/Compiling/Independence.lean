import DataBinding.Proofs.Compiling.Views

/-!
# Compiling does not depend on the data

Two compilations of copies of one tree against different data, when both
have returned, have returned the same error or views with the same paths
and the same listeners at the same places (`compile_of_copies`): both are
what the outline of the tree says. The markup that the data shows must be
inert. It is compiled like the rest of the tree otherwise, and a text in
the data can ask for a watcher (`compile_interprets_data`).
-/

namespace DataBinding

open World

variable {convention : Convention} {methods : Keyed Method} {site : Nat → NodeId} {root : NodeId}
  {trees : List Markup.Tree} {data : ObjectId} {w w' : World}

/-! ## What can be compared -/

/-- A view has watchers for these paths, and listeners for these events at
these places of a tree. -/
structure World.Binds (w : World) (view : ViewId) (site : Nat → NodeId) (paths : List Path)
    (events : List (Nat × String)) : Prop where
  paths : (w.view view).watchers.map (fun x => (w.watcher x).path) = paths
  events : ∃ es : List (NodeId × Listener),
    (w.view view).listeners = es.map (fun e => (e.1, e.2.id)) ∧
      (∀ e ∈ es, e.2 ∈ (w.document.node e.1).listeners) ∧
      es.map (fun e => (e.1, e.2.event)) = events.map fun place => (site place.1, place.2)

/-- The paths that an outline asks for do not depend on the data. -/
theorem Outline.paths_watches (o : Outline) (site : Nat → NodeId) (data : ObjectId) :
    (o.watches site data).map (·.1) = o.bindings.filterMap (·.path?) := by
  rw [watches, List.map_filterMap]
  refine congrArg (List.filterMap · o.bindings) (funext fun b => ?_)
  cases b with
  | placeholder place template path => rfl
  | directive place directive => cases directive <;> rfl

/-- Neither do the events. -/
theorem Outline.events_hearings (o : Outline) (site : Nat → NodeId) (context : Context) :
    (o.hearings site context).map (fun h => (h.1, h.2.1)) =
      (o.bindings.filterMap (·.event? context.methods)).map
        fun place => (site place.1, place.2) := by
  rw [hearings, List.map_filterMap, List.map_filterMap]
  refine congrArg (List.filterMap · o.bindings) (funext fun b => ?_)
  cases b with
  | placeholder place template path => rfl
  | directive place directive =>
      cases directive with
      | on event method =>
          simp only [Binding.hearing?, Binding.event?, Option.map_map]
          rfl
      | _ => rfl

theorem Compiled.binds {lo : NodeId} {view : ViewId} {o : Outline} {xs : List WatcherId}
    {es : List (NodeId × Listener)}
    (h : Compiled data view lo (o.watches site data) (o.hearings site ⟨data, methods⟩) xs es w) :
    w.Binds view site (o.bindings.filterMap (·.path?))
      (o.bindings.filterMap (·.event? methods)) where
  paths := by
    rw [h.watching, ← o.paths_watches site data, ← h.watches, List.map_map]
    rfl
  events := by
    refine ⟨es, h.listening, h.heard, ?_⟩
    rw [← o.events_hearings site ⟨data, methods⟩, ← h.hears, List.map_map]
    rfl

/-! ## Two compilations -/

theorem compile_binds {result : Except Error ViewId} (hopening : convention.opening ≠ "")
    (hkind : (w.document.node root).kind ≠ .text)
    (hwalkable : Walkable convention ⟨data, methods⟩ site root trees w)
    (h : Reaches ⟨w, compile root ⟨data, methods⟩ convention⟩ ⟨w', .done result⟩) :
    let o := Outline.ofForest convention methods 0 trees
    (∃ e, o.error = some e ∧ result = .error e) ∨
      o.error = none ∧ ∃ view, result = .ok view ∧ w'.Binds view site
        (o.bindings.filterMap (·.path?)) (o.bindings.filterMap (·.event? methods)) := by
  rcases reaches_compile hopening hkind hwalkable h with hfailed | ⟨hnone, hok, -, -, xs, es, hes⟩
  · exact .inl hfailed
  · exact .inr ⟨hnone, _, hok, hes.binds⟩

/-- Nothing can be compiled below a text. -/
theorem compile_of_text {context : Context} {result : Except Error ViewId}
    (hkind : (w.document.node root).kind = .text)
    (h : Reaches ⟨w, compile root context convention⟩ ⟨w', .done result⟩) :
    result = .error .invalidRoot :=
  (Reaches.of_compile_text hkind h).2

/-- Compilations of copies of one tree, against any data that shows inert
markup, end alike. -/
theorem compile_of_copies {w₁ w₂ w₁' w₂' : World} {root₁ root₂ : NodeId}
    {site₁ site₂ : Nat → NodeId} {data₁ data₂ : ObjectId} {result₁ result₂ : Except Error ViewId}
    (hopening : convention.opening ≠ "")
    (hkinds : (w₁.document.node root₁).kind = .text ↔ (w₂.document.node root₂).kind = .text)
    (h₁ : Walkable convention ⟨data₁, methods⟩ site₁ root₁ trees w₁)
    (h₂ : Walkable convention ⟨data₂, methods⟩ site₂ root₂ trees w₂)
    (hrun₁ : Reaches ⟨w₁, compile root₁ ⟨data₁, methods⟩ convention⟩ ⟨w₁', .done result₁⟩)
    (hrun₂ : Reaches ⟨w₂, compile root₂ ⟨data₂, methods⟩ convention⟩ ⟨w₂', .done result₂⟩) :
    (∃ e, result₁ = .error e ∧ result₂ = .error e) ∨
      ∃ view₁ view₂ paths events, result₁ = .ok view₁ ∧ result₂ = .ok view₂ ∧
        w₁'.Binds view₁ site₁ paths events ∧ w₂'.Binds view₂ site₂ paths events := by
  by_cases htext : (w₁.document.node root₁).kind = .text
  · exact .inl ⟨_, compile_of_text htext hrun₁, compile_of_text (hkinds.1 htext) hrun₂⟩
  · rcases compile_binds hopening htext h₁ hrun₁ with
      ⟨e, he, rfl⟩ | ⟨hnone, view₁, rfl, hbinds₁⟩
    · rcases compile_binds hopening (fun h => htext (hkinds.2 h)) h₂ hrun₂ with
        ⟨e', he', rfl⟩ | ⟨hnone', -⟩
      · obtain rfl := Option.some.inj (he.symm.trans he')
        exact .inl ⟨e, rfl, rfl⟩
      · cases he.symm.trans hnone'
    · rcases compile_binds hopening (fun h => htext (hkinds.2 h)) h₂ hrun₂ with
        ⟨e', he', rfl⟩ | ⟨-, view₂, rfl, hbinds₂⟩
      · cases he'.symm.trans hnone
      · exact .inr ⟨view₁, view₂, _, _, rfl, rfl, hbinds₁, hbinds₂⟩

/-! ## Two paragraphs -/

/-- A paragraph that shows the property `a`, and a text with it. -/
def paragraphTrees : List Markup.Tree :=
  [.element "p" ⟨[("v-text", "a")]⟩ [], .text "\x7b\x7ba\x7d\x7d"]

/-- The paragraph, next to observed data with a content for it. -/
def paragraphWorld (content : String) : World :=
  { World.start with
    graph := ⟨[⟨[("a", .data ⟨.string content, some 0⟩), ("b", .data ⟨.bool true, some 1⟩)]⟩],
      [[], []]⟩
    document := Document.plantAll 0 paragraphTrees (Document.empty.add (.new .fragment))
    names := { Names.empty with
      objects := ⟨[("o", 0)]⟩, nodes := ⟨[("n", 0), ("p", 1), ("t", 2)]⟩ } }

theorem reactive_paragraphWorld (content : String) :
    (paragraphWorld content).graph.allReactive = true := rfl

theorem bears_paragraphWorld (content : String) :
    (paragraphWorld content).document.BearAll (· + 1) 0
      ((paragraphWorld content).document.node 0).children paragraphTrees :=
  ⟨[2], rfl, ⟨rfl, rfl, rfl⟩, [], rfl, ⟨rfl, rfl⟩, rfl⟩

theorem bindings_paragraphTrees :
    (Outline.ofForest .standard .empty 0 paragraphTrees).bindings =
      [.directive 0 (.text ⟨"a", ["a"]⟩),
        .placeholder 1 ⟨[.placeholder ⟨"a", ["a"]⟩]⟩ ⟨"a", ["a"]⟩] := by
  decide +kernel

theorem walkable_paragraphWorld {content : String} (hcontent : content ≠ "")
    (hinert : (Template.parse "\x7b\x7b" "\x7d\x7d" content).placeholders = []) :
    Walkable .standard ⟨0, .empty⟩ (· + 1) 0 paragraphTrees (paragraphWorld content) where
  slot := rfl
  asks := Pure.onlyAsks (.of_allReactive (reactive_paragraphWorld content))
  there := Nat.zero_lt_succ 2
  bears := bears_paragraphWorld content
  distinct i _ j _ heq := Nat.succ.inj heq
  below i _ := Nat.succ_ne_zero i
  inert b hb := by
    rw [bindings_paragraphTrees] at hb
    rcases List.mem_cons.1 hb with rfl | hb
    · intro v cells hgives
      obtain rfl : v = .string content := hgives.unique (.step (.data rfl) .stop)
      rw [Value.text, Document.textForest, if_neg hcontent]
      exact ⟨hinert, trivial⟩
    · obtain rfl := List.mem_singleton.1 hb
      trivial

theorem compile_of_copies_of_paragraph : ∃ (w w' : World) (v v' : ViewId) (paths : List Path)
    (events : List (Nat × String)),
    Reaches ⟨paragraphWorld "x", compile 0 ⟨0, .empty⟩ .standard⟩ ⟨w, .done (.ok v)⟩ ∧
      Reaches ⟨paragraphWorld "\x7b y", compile 0 ⟨0, .empty⟩ .standard⟩ ⟨w', .done (.ok v')⟩ ∧
      w.Binds v (· + 1) paths events ∧ w'.Binds v' (· + 1) paths events := by
  have hrun := @Config.reaches_of_view? 300
    ⟨paragraphWorld "x", compile 0 ⟨0, .empty⟩ .standard⟩ 0 (by decide +kernel)
  have hrun' := @Config.reaches_of_view? 300
    ⟨paragraphWorld "\x7b y", compile 0 ⟨0, .empty⟩ .standard⟩ 0 (by decide +kernel)
  rcases compile_of_copies (by decide) (by decide)
    (walkable_paragraphWorld (by decide) (by decide +kernel))
    (walkable_paragraphWorld (by decide) (by decide +kernel)) hrun hrun' with
    ⟨e, he, -⟩ | ⟨v, v', paths, events, hv, hv', hbinds, hbinds'⟩
  · cases he
  · exact ⟨_, _, v, v', paths, events, hv ▸ hrun, hv' ▸ hrun', hbinds, hbinds'⟩

/-- A text in the data is interpreted: the placeholder that it shows gets
a watcher of its own. -/
theorem compile_interprets_data : ∃ w₁ w₂ w₁' w₂' : World,
    (∀ w, w = w₁ ∨ w = w₂ → w.slot = none ∧ w.Pure ∧
      (∀ j, w.graph.Leads (· = 0) j → w.graph.Reactive j) ∧
      w.document.BearAll (· + 1) 0 (w.document.node 0).children paragraphTrees) ∧
    Reaches ⟨w₁, compile 0 ⟨0, .empty⟩ .standard⟩ ⟨w₁', .done (.ok 0)⟩ ∧
    Reaches ⟨w₂, compile 0 ⟨0, .empty⟩ .standard⟩ ⟨w₂', .done (.ok 0)⟩ ∧
    (w₁'.view 0).watchers.map (fun x => (w₁'.watcher x).path.source) = ["a", "a"] ∧
    (w₂'.view 0).watchers.map (fun x => (w₂'.watcher x).path.source) = ["a", "b", "a"] := by
  have hrun := @Config.reaches_of_view? 300
    ⟨paragraphWorld "x", compile 0 ⟨0, .empty⟩ .standard⟩ 0 (by decide +kernel)
  have hrun' := @Config.reaches_of_view? 300
    ⟨paragraphWorld "\x7b\x7bb\x7d\x7d", compile 0 ⟨0, .empty⟩ .standard⟩ 0
    (by decide +kernel)
  refine ⟨_, _, _, _, ?_, hrun, hrun', by decide +kernel, by decide +kernel⟩
  rintro w (rfl | rfl)
  · exact ⟨rfl, .of_allReactive (reactive_paragraphWorld _),
      fun j _ => Graph.reactive_of_allReactive (reactive_paragraphWorld _) j,
      bears_paragraphWorld _⟩
  · exact ⟨rfl, .of_allReactive (reactive_paragraphWorld _),
      fun j _ => Graph.reactive_of_allReactive (reactive_paragraphWorld _) j,
      bears_paragraphWorld _⟩

end DataBinding
