import DataBinding.Proofs.Compiling.Ending
import DataBinding.Proofs.Compiling.Independence
import DataBinding.Proofs.Compiling.Ordering
import DataBinding.Proofs.Compiling.Unshown

/-!
# What a compilation finds

What a document asks to be bound is read off its nodes one by one, in
document order: the directives of an element, the placeholders of a text.
Where nothing is shown in place of the content of an element, that is what
a compilation finds (`compile_finds_each_binding`). It fails with the
first thing that is wrong with an attribute and succeeds if there is none;
then the view has a watcher or a listener for each binding, once and in
order. The tree is as it was, but for the texts that have placeholders.

Nothing else has to be known of the tree than that it is one. The outline
of the forest that the nodes stand for comes in between: it `Covers` what
its nodes ask for.
-/

namespace DataBinding

open World

variable {convention : Convention} {methods : Keyed Method} {site : Nat → NodeId}
  {root n m : NodeId} {nodes : List NodeId} {data : ObjectId} {d : Document} {w w' : World}

/-! ## What a node asks for -/

namespace Directive

/-- The directive that an attribute is read as. -/
def ofAttribute? (convention : Convention) (pair : String × String) : Option Directive :=
  match parse convention.marker pair.1 pair.2 with
  | .ok directive? => directive?
  | .error _ => none

/-- What is wrong with an attribute: it cannot be read, or there is no such
method. -/
def fault? (convention : Convention) (methods : Keyed Method) (pair : String × String) :
    Option Error :=
  match parse convention.marker pair.1 pair.2 with
  | .error e => some e
  | .ok (some (.on _ method)) =>
    if (methods.find? method).isSome then none else some (.unknownMethod method)
  | .ok _ => none

theorem fault?_eq_none_iff {pair : String × String} : fault? convention methods pair = none ↔
    ∃ directive?, parse convention.marker pair.1 pair.2 = .ok directive? ∧
      ∀ event method, directive? = some (.on event method) → (methods.find? method).isSome := by
  unfold fault?
  cases parse convention.marker pair.1 pair.2 with
  | error e => simp
  | ok directive? =>
      cases directive? with
      | none => simp
      | some directive => cases directive <;> simp [Option.isSome_iff_ne_none]

end Directive

namespace Document

/-- The attributes of a node. Only an element has any. -/
def attributesAt (d : Document) (n : NodeId) : List (String × String) :=
  match (d.node n).kind with
  | .element _ => (d.node n).attributes.entries
  | _ => []

/-- The paths of the placeholders of a node. Only a text has any. -/
def placeholdersAt (convention : Convention) (d : Document) (n : NodeId) : List Path :=
  match (d.node n).kind with
  | .text => (Template.parse convention.opening convention.closing (d.node n).text).placeholders
  | _ => []

/-- The bindings that a node asks for: the directives of its attributes,
and its placeholders. -/
def bindingsAt (convention : Convention) (d : Document) (n : NodeId) : List Binding :=
  (d.attributesAt n).filterMap (fun pair =>
      (Directive.ofAttribute? convention pair).map (.directive n)) ++
    (d.placeholdersAt convention n).map
      (.placeholder n (Template.parse convention.opening convention.closing (d.node n).text))

/-- The first thing that is wrong with an attribute of some nodes. -/
def firstFault? (convention : Convention) (methods : Keyed Method) (d : Document)
    (nodes : List NodeId) : Option Error :=
  (nodes.flatMap d.attributesAt).findSome? (Directive.fault? convention methods)

/-- No attribute of the node shows a value in place of its content. -/
def Plain (convention : Convention) (d : Document) (n : NodeId) : Prop :=
  ∀ pair ∈ d.attributesAt n, ∀ path,
    Directive.parse convention.marker pair.1 pair.2 ≠ .ok (some (.text path)) ∧
      Directive.parse convention.marker pair.1 pair.2 ≠ .ok (some (.html path))

theorem attributesAt_of_element {tag : String} (h : (d.node n).kind = .element tag) :
    d.attributesAt n = (d.node n).attributes.entries := by
  rw [attributesAt, h]

theorem attributesAt_of_text (h : (d.node n).kind = .text) : d.attributesAt n = [] := by
  rw [attributesAt, h]

theorem placeholdersAt_of_element {tag : String} (h : (d.node n).kind = .element tag) :
    d.placeholdersAt convention n = [] := by
  rw [placeholdersAt, h]

theorem placeholdersAt_of_text (h : (d.node n).kind = .text) :
    d.placeholdersAt convention n =
      (Template.parse convention.opening convention.closing (d.node n).text).placeholders := by
  rw [placeholdersAt, h]

/-- There is no first fault if there is none at all. -/
theorem firstFault?_eq_none_iff : d.firstFault? convention methods nodes = none ↔
    ∀ n ∈ nodes, ∀ pair ∈ d.attributesAt n, Directive.fault? convention methods pair = none := by
  rw [firstFault?, List.findSome?_eq_none_iff]
  simp only [List.mem_flatMap]
  exact ⟨fun h n hn pair hpair => h pair ⟨n, hn, hpair⟩, fun h pair ⟨n, hn, hpair⟩ =>
    h n hn pair hpair⟩

/-- A plain node asks for nothing to be shown in place of content. -/
theorem Plain.not_displaces (h : d.Plain convention n) {b : Binding}
    (hb : b ∈ d.bindingsAt convention n) : b.displaces = false := by
  rcases List.mem_append.1 hb with hb | hb
  · obtain ⟨pair, hpair, hb⟩ := List.mem_filterMap.1 hb
    obtain ⟨directive, hdirective, rfl⟩ := Option.map_eq_some_iff.1 hb
    unfold Directive.ofAttribute? at hdirective
    split at hdirective
    · rename_i directive? hparse
      subst hdirective
      cases directive with
      | text path => exact absurd hparse (h pair hpair path).1
      | html path => exact absurd hparse (h pair hpair path).2
      | model path => rfl
      | on event method => rfl
    · cases hdirective
  · obtain ⟨path, -, rfl⟩ := List.mem_map.1 hb
    rfl

/-- A node with a placeholder that is asked for is a text. -/
theorem placeholder_of_mem_bindingsAt {place : NodeId} {template : Template} {path : Path}
    (hb : .placeholder place template path ∈ d.bindingsAt convention n) :
    place = n ∧ path ∈ d.placeholdersAt convention n := by
  rcases List.mem_append.1 hb with hb | hb
  · obtain ⟨pair, -, hb⟩ := List.mem_filterMap.1 hb
    obtain ⟨directive, -, hb⟩ := Option.map_eq_some_iff.1 hb
    cases hb
  · obtain ⟨path', hpath, hb⟩ := List.mem_map.1 hb
    cases hb
    exact ⟨rfl, hpath⟩

end Document

/-! ## Bindings at nodes -/

namespace Binding

/-- The same binding for another node. -/
def moved (site : Nat → NodeId) : Binding → Binding
  | .directive place what => .directive (site place) what
  | .placeholder place template path => .placeholder (site place) template path

variable (site : Nat → NodeId) (b : Binding)

theorem displaces_moved : (b.moved site).displaces = b.displaces := by
  cases b with
  | placeholder place template path => rfl
  | directive place directive => cases directive <;> rfl

theorem path?_moved : (b.moved site).path? = b.path? := by
  cases b with
  | placeholder place template path => rfl
  | directive place directive => cases directive <;> rfl

theorem event?_moved : (b.moved site).event? methods =
    (b.event? methods).map fun place => (site place.1, place.2) := by
  cases b with
  | placeholder place template path => rfl
  | directive place directive =>
      cases directive with
      | on event method =>
          simp only [moved, event?, Option.map_map]
          rfl
      | _ => rfl

/-- What displaces nothing keeps content only as the placeholder of a text. -/
theorem placeholder_of_keeps {b : Binding} {p : Watch} (h : b.displaces = false)
    (hwatch : b.watch? site data = some p) (htarget : p.2.target? = some (n, false)) :
    ∃ template path, b.moved site = .placeholder n template path := by
  cases b with
  | placeholder place template path =>
      cases hwatch
      cases htarget
      exact ⟨template, path, rfl⟩
  | directive place directive =>
      cases directive with
      | text path => cases h
      | html path => cases h
      | model path =>
          cases hwatch
          cases htarget
      | on event method => cases hwatch

end Binding

/-! ## The outline of a forest and its nodes -/

/-- An outline ends as it should, and has the bindings that are asked for,
or the first ones of them if it ends with an error. -/
structure Outline.Covers (site : Nat → NodeId) (o : Outline) (fault? : Option Error)
    (asked : List Binding) : Prop where
  error : o.error = fault?
  initial : o.bindings.map (·.moved site) <+: asked
  all : o.error = none → o.bindings.map (·.moved site) = asked

namespace Outline

section

variable {o o' : Outline} {fault? fault?' : Option Error} {asked asked' : List Binding}

theorem Covers.nothing : Covers site .nothing none [] :=
  ⟨rfl, List.prefix_refl _, fun _ => rfl⟩

theorem Covers.andThen (h : o.Covers site fault? asked) (h' : o'.Covers site fault?' asked') :
    (o.andThen o').Covers site (fault?.or fault?') (asked ++ asked') := by
  obtain ⟨rfl, hinitial, hall⟩ := h
  unfold Outline.andThen
  cases herror : o.error with
  | some e =>
      exact ⟨herror, hinitial.trans (List.prefix_append ..),
        fun hnone => absurd (herror.symm.trans hnone) (Option.some_ne_none e)⟩
  | none =>
      refine ⟨h'.error, ?_, fun hnone => ?_⟩
      · rw [List.map_append, hall herror]
        exact (List.prefix_append_right_inj _).2 h'.initial
      · rw [List.map_append, hall herror, h'.all hnone]

/-- Every binding of the outline was asked for. -/
theorem Covers.mem (h : o.Covers site fault? asked) {b : Binding} (hb : b ∈ o.bindings) :
    b.moved site ∈ asked :=
  h.initial.subset (List.mem_map_of_mem hb)

end

theorem covers_ofAttribute (place : Nat) (pair : String × String) :
    (ofAttribute convention methods place pair).Covers site
      (Directive.fault? convention methods pair)
      ((Directive.ofAttribute? convention pair).map (Binding.directive (site place))).toList := by
  unfold ofAttribute Directive.fault? Directive.ofAttribute?
  cases Directive.parse convention.marker pair.1 pair.2 with
  | error e => exact ⟨rfl, List.prefix_refl _, fun hnone => absurd hnone (Option.some_ne_none e)⟩
  | ok directive? =>
      cases directive? with
      | none => exact .nothing
      | some directive =>
          cases directive with
          | on event method =>
              simp only [ofDirective]
              cases methods.find? method with
              | none =>
                  exact ⟨rfl, List.nil_prefix, fun hnone => absurd hnone (Option.some_ne_none _)⟩
              | some body => exact ⟨rfl, List.prefix_refl _, fun _ => rfl⟩
          | _ => exact ⟨rfl, List.prefix_refl _, fun _ => rfl⟩

/-- The attributes of an element, by induction on their list. -/
theorem covers_sequence (place : Nat) (pairs : List (String × String)) :
    (sequence (pairs.map (ofAttribute convention methods place))).Covers site
      (pairs.findSome? (Directive.fault? convention methods))
      (pairs.filterMap fun pair =>
        (Directive.ofAttribute? convention pair).map (.directive (site place))) := by
  induction pairs with
  | nil => exact .nothing
  | cons pair pairs ih =>
      rw [← List.singleton_append, List.findSome?_append, List.filterMap_append]
      have hfirst := @covers_ofAttribute convention methods site place pair
      have hfault : [pair].findSome? (Directive.fault? convention methods) =
          Directive.fault? convention methods pair := by
        simp
      have hasked : ([pair].filterMap fun pair => (Directive.ofAttribute? convention pair).map
          (Binding.directive (site place))) =
          ((Directive.ofAttribute? convention pair).map (.directive (site place))).toList := by
        rw [List.filterMap_cons]
        cases Directive.ofAttribute? convention pair <;> rfl
      rw [hfault, hasked]
      exact hfirst.andThen ih

theorem covers_ofAttributes {tag : String} {place : Nat}
    (hkind : (d.node (site place)).kind = .element tag) :
    (ofAttributes convention methods place (d.node (site place)).attributes).Covers site
      (d.firstFault? convention methods [site place]) (d.bindingsAt convention (site place)) := by
  rw [Document.firstFault?, Document.bindingsAt, Document.placeholdersAt_of_element hkind,
    List.map_nil, List.append_nil, List.flatMap_singleton, Document.attributesAt_of_element hkind]
  exact covers_sequence place _

theorem covers_ofText {place : Nat} (hkind : (d.node (site place)).kind = .text) :
    (ofText convention place (d.node (site place)).text).Covers site
      (d.firstFault? convention methods [site place]) (d.bindingsAt convention (site place)) := by
  rw [Document.firstFault?, Document.bindingsAt, List.flatMap_singleton,
    Document.attributesAt_of_text hkind, Document.placeholdersAt_of_text hkind]
  have hsame : (ofText convention place (d.node (site place)).text).bindings.map (·.moved site) =
      (Template.parse convention.opening convention.closing
        (d.node (site place)).text).placeholders.map (.placeholder (site place)
          (Template.parse convention.opening convention.closing (d.node (site place)).text)) :=
    List.map_map ..
  exact ⟨rfl, hsame ▸ List.prefix_refl _, fun _ => hsame⟩

/-- Some nodes, and then others. -/
theorem firstFault?_append (nodes nodes' : List NodeId) :
    d.firstFault? convention methods (nodes ++ nodes') =
      (d.firstFault? convention methods nodes).or (d.firstFault? convention methods nodes') := by
  rw [Document.firstFault?, List.flatMap_append, List.findSome?_append]
  rfl

mutual

/-- The outline of a tree covers what its nodes ask for. -/
theorem covers_ofTree : ∀ {tree : Markup.Tree} {place : Nat}, d.Bears site place tree →
    (∀ i, place ≤ i → i < place + tree.count → d.Plain convention (site i)) →
    (ofTree convention methods place tree).Covers site
      (d.firstFault? convention methods ((List.range' place tree.count).map site))
      (((List.range' place tree.count).map site).flatMap (d.bindingsAt convention))
  | .element tag attributes children, place, h, hplain => by
      have hcount : (Markup.Tree.element tag attributes children).count =
          Markup.Tree.countAll children + 1 := Nat.add_comm ..
      obtain ⟨hkind, rfl, hchildren⟩ := h
      have hown := @covers_ofAttributes convention methods site d tag place hkind
      have hself := hplain place (Nat.le_refl _) (by omega)
      have hkept : ¬ (ofAttributes convention methods place
          (d.node (site place)).attributes).bindings.any (·.displaces) := by
        rw [Bool.not_eq_true, List.any_eq_false]
        intro b hb
        rw [← b.displaces_moved site, hself.not_displaces (hown.mem hb)]
        exact Bool.false_ne_true
      rw [hcount, List.range'_succ, List.map_cons, ← List.singleton_append, firstFault?_append,
        List.flatMap_append, List.flatMap_singleton, ofTree, if_neg hkept]
      exact hown.andThen (covers_ofForest hchildren fun i hle hlt =>
        hplain i (by omega) (by omega))
  | .text content, place, h, _ => by
      obtain ⟨hkind, rfl⟩ := h
      have hcount : (Markup.Tree.text (d.node (site place)).text).count = 1 := rfl
      rw [hcount, List.range'_one, List.map_singleton, List.flatMap_singleton]
      exact covers_ofText hkind

theorem covers_ofForest : ∀ {trees : List Markup.Tree} {place : Nat} {nodes : List NodeId},
    d.BearAll site place nodes trees →
    (∀ i, place ≤ i → i < place + Markup.Tree.countAll trees → d.Plain convention (site i)) →
    (ofForest convention methods place trees).Covers site
      (d.firstFault? convention methods
        ((List.range' place (Markup.Tree.countAll trees)).map site))
      (((List.range' place (Markup.Tree.countAll trees)).map site).flatMap
        (d.bindingsAt convention))
  | [], _, _, _, _ => .nothing
  | tree :: trees, place, nodes, h, hplain => by
      obtain ⟨rest, rfl, hfirst, hrest⟩ := h
      rw [Markup.Tree.countAll] at hplain ⊢
      rw [← List.range'_append_1, List.map_append, firstFault?_append, List.flatMap_append]
      exact (covers_ofTree hfirst fun i hle hlt => hplain i hle (by omega)).andThen
        (covers_ofForest hrest fun i hle hlt => hplain i (by omega) (by omega))

end

end Outline

/-! ## Plain forests -/

section

variable {context : Context} {view : ViewId} {g : Graph}

mutual

/-- A plain tree shows no markup, so that compiling it ends. -/
theorem Markup.Tree.ends_of_plain (hopening : convention.opening ≠ "")
    (hresponds : g.Responds context.data) : ∀ {tree : Markup.Tree} {place : Nat},
    d.Bears site place tree →
    (∀ i, place ≤ i → i < place + tree.count → d.Plain convention (site i)) →
    tree.Ends convention context view g
  | .element tag attributes children, place, h, hplain => by
      have hcount : (Markup.Tree.element tag attributes children).count =
          1 + Markup.Tree.countAll children := rfl
      obtain ⟨hkind, rfl, hchildren⟩ := h
      have hends : ∀ tree ∈ children, tree.Ends convention context view g :=
        Markup.Tree.endsAll_of_plain hopening hresponds hchildren fun i hle hlt =>
          hplain i (by omega) (by omega)
      refine Markup.Tree.Ends.element hopening hresponds hends fun pair hpair path hparse => ?_
      rw [← Document.attributesAt_of_element hkind] at hpair
      exact absurd hparse (hplain place (Nat.le_refl _) (by omega) pair hpair path).2
  | .text content, _, _, _ => Markup.Tree.Ends.text hopening hresponds content

theorem Markup.Tree.endsAll_of_plain (hopening : convention.opening ≠ "")
    (hresponds : g.Responds context.data) : ∀ {trees : List Markup.Tree} {place : Nat}
    {nodes : List NodeId}, d.BearAll site place nodes trees →
    (∀ i, place ≤ i → i < place + Markup.Tree.countAll trees → d.Plain convention (site i)) →
    ∀ tree ∈ trees, tree.Ends convention context view g
  | [], _, _, _, _ => fun _ ht => absurd ht List.not_mem_nil
  | tree :: trees, place, nodes, h, hplain => by
      obtain ⟨rest, rfl, hfirst, hrest⟩ := h
      rw [Markup.Tree.countAll] at hplain
      exact List.forall_mem_cons.2
        ⟨Markup.Tree.ends_of_plain hopening hresponds hfirst fun i hle hlt =>
            hplain i hle (by omega),
          Markup.Tree.endsAll_of_plain hopening hresponds hrest fun i hle hlt =>
            hplain i (by omega) (by omega)⟩

end

end

section

variable {asked : List Binding} {o : Outline} {fault? : Option Error}

/-- What plain nodes ask for displaces nothing. -/
theorem Outline.Covers.not_displaces
    (h : o.Covers site fault? (nodes.flatMap (d.bindingsAt convention)))
    (hplain : ∀ n ∈ nodes, d.Plain convention n) {b : Binding} (hb : b ∈ o.bindings) :
    b.displaces = false := by
  obtain ⟨n, hn, hasked⟩ := List.mem_flatMap.1 (h.mem hb)
  rw [← b.displaces_moved site, (hplain n hn).not_displaces hasked]

/-- The content that is kept for them is that of texts with placeholders. -/
theorem Outline.Covers.placeholder_of_keeps
    (h : o.Covers site fault? (nodes.flatMap (d.bindingsAt convention)))
    (hplain : ∀ n ∈ nodes, d.Plain convention n)
    (hkeeps : Keeps (o.watches site data) (n, false)) :
    n ∈ nodes ∧ d.placeholdersAt convention n ≠ [] := by
  obtain ⟨p, hp, htarget⟩ := hkeeps
  obtain ⟨b, hb, hwatch⟩ := List.mem_filterMap.1 hp
  obtain ⟨template, path, hmoved⟩ :=
    Binding.placeholder_of_keeps site (h.not_displaces hplain hb) hwatch htarget
  obtain ⟨m, hm, hasked⟩ := List.mem_flatMap.1 (h.mem hb)
  rw [hmoved] at hasked
  obtain ⟨rfl, hpath⟩ := Document.placeholder_of_mem_bindingsAt hasked
  exact ⟨hm, List.ne_nil_of_mem hpath⟩

/-- A view that binds what an outline says binds what was asked for. -/
theorem Outline.Covers.binds {view : ViewId} (h : o.Covers site fault? asked)
    (herror : o.error = none)
    (hbinds : w.Binds view site (o.bindings.filterMap (·.path?))
      (o.bindings.filterMap (·.event? methods))) :
    w.Binds view id (asked.filterMap (·.path?)) (asked.filterMap (·.event? methods)) := by
  rw [← h.all herror, List.filterMap_map, List.filterMap_map]
  refine ⟨?_, ?_⟩
  · rw [hbinds.paths]
    exact congrArg (List.filterMap · o.bindings) (funext fun b => (b.path?_moved site).symm)
  · obtain ⟨es, hlistening, hheard, hevents⟩ := hbinds.events
    refine ⟨es, hlistening, hheard, hevents.trans ?_⟩
    rw [List.map_filterMap, List.map_filterMap]
    refine congrArg (List.filterMap · o.bindings) (funext fun b => ?_)
    rw [Function.comp_apply, b.event?_moved site, Option.map_map]
    rfl

end

/-! ## What a compilation has left as it was -/

/-- Nothing is changed but form values, listeners, and the texts of some
nodes. -/
structure Document.Rerenders (rendered : NodeId → Prop) (d d' : Document) : Prop where
  kind : ∀ n < d.nodes.length, (d'.node n).kind = (d.node n).kind
  attributes : ∀ n < d.nodes.length, (d'.node n).attributes = (d.node n).attributes
  children : ∀ n < d.nodes.length, (d'.node n).children = (d.node n).children
  text : ∀ n < d.nodes.length, (d.node n).kind = .text → ¬ rendered n →
    (d'.node n).text = (d.node n).text

theorem Document.Rerenders.dropListeners {rendered : NodeId → Prop} {d' : Document}
    (h : d.Rerenders rendered d') (es : List (NodeId × ListenerId)) :
    d.Rerenders rendered (World.dropListeners d' es) where
  kind n hn := (field_dropListeners d' es n fun _ _ => rfl).trans (h.kind n hn)
  attributes n hn := (field_dropListeners d' es n fun _ _ => rfl).trans (h.attributes n hn)
  children n hn := (field_dropListeners d' es n fun _ _ => rfl).trans (h.children n hn)
  text n hn hkind hout :=
    (field_dropListeners d' es n fun _ _ => rfl).trans (h.text n hn hkind hout)

/-- The texts that are rendered when a root is compiled. -/
def Document.RenderedBelow (convention : Convention) (d : Document) (root n : NodeId) : Prop :=
  d.Below root n ∧ d.placeholdersAt convention n ≠ []

theorem Document.RenderedBelow.kind {n : NodeId} (h : d.RenderedBelow convention root n) :
    (d.node n).kind = .text := by
  refine Decidable.byContradiction fun hother => h.2 ?_
  unfold Document.placeholdersAt
  split
  · rename_i htext
    exact absurd htext hother
  · rfl

section

variable {context : Context}

/-- What is below the top of a plain tree is a forest whose outline covers
what its nodes ask for. -/
theorem Document.TreeTop.covered (hopening : convention.opening ≠ "") (htop : d.TreeTop root)
    (hplain : ∀ n, d.Below root n → d.Plain convention n) :
    ∃ site trees, d.Rooted site root trees ∧
      (∀ (context : Context) (view : ViewId) (g : Graph), g.Responds context.data →
        ∀ tree ∈ trees, tree.Ends convention context view g) ∧
      ∀ methods, (Outline.ofForest convention methods 0 trees).Covers site
        (d.firstFault? convention methods (d.nodesBelow root))
        ((d.nodesBelow root).flatMap (d.bindingsAt convention)) := by
  obtain ⟨site, trees, hrooted, hlisted, hmem⟩ := htop.rooted
  have hsites : ∀ i, 0 ≤ i → i < 0 + Markup.Tree.countAll trees →
      d.Plain convention (site i) := by
    intro i _ hi
    have hsite : site i ∈ d.nodesBelow root :=
      hlisted ▸ List.mem_map_of_mem (List.mem_range.2 (by omega))
    exact hplain _ ((hmem _).1 hsite)
  refine ⟨site, trees, hrooted, fun _ _ _ hresponds =>
    Markup.Tree.endsAll_of_plain hopening hresponds hrooted.bears hsites, fun methods => ?_⟩
  rw [hlisted, List.range_eq_range']
  exact Outline.covers_ofForest hrooted.bears hsites

/-- Such a forest can be walked over. -/
theorem Outline.Covers.walkable {fault? : Option Error} (hslot : w.slot = none)
    (hasks : w.OnlyAsks) (hrooted : w.document.Rooted site root trees)
    (hplain : ∀ n ∈ nodes, w.document.Plain convention n)
    (hcovers : (Outline.ofForest convention context.methods 0 trees).Covers site fault?
      (nodes.flatMap (w.document.bindingsAt convention))) :
    Walkable convention context site root trees w where
  slot := hslot
  asks := hasks
  there := hrooted.there
  bears := hrooted.bears
  distinct := hrooted.distinct
  below := hrooted.below
  inert _ hb := .of_not_displaces (hcovers.not_displaces hplain hb)

/-- A compilation that finds nothing to be shown in place of content
renders texts and moves nothing. -/
theorem rerenders_of_compile {result : Except Error ViewId} {fault? : Option Error}
    (hopening : convention.opening ≠ "") (hslot : w.slot = none) (hasks : w.OnlyAsks)
    (htop : w.document.TreeTop root) (hkind : (w.document.node root).kind ≠ .text)
    (hplain : ∀ n, w.document.Below root n → w.document.Plain convention n)
    (hrooted : w.document.Rooted site root trees)
    (hcovers : (Outline.ofForest convention context.methods 0 trees).Covers site fault?
      ((w.document.nodesBelow root).flatMap (w.document.bindingsAt convention)))
    (h : Reaches ⟨w, compile root context convention⟩ ⟨w', .done result⟩) :
    w.document.Rerenders (w.document.RenderedBelow convention root) w'.document := by
  let ps := (Outline.ofForest convention context.methods 0 trees).watches site context.data
  have hplain' : ∀ n ∈ w.document.nodesBelow root, w.document.Plain convention n :=
    fun n hn => hplain n (htop.mem_nodesBelow.1 hn)
  have hwalkable := hcovers.walkable hslot hasks hrooted hplain'
  obtain ⟨walked, u, hwalk, hends⟩ := Reaches.of_compile hkind h
  obtain ⟨-, xs, es, hinstalls⟩ := hwalkable.carries hopening hwalk
  have hkept : ∀ n, Keeps ps (n, false) → w.document.RenderedBelow convention root n := by
    intro n hkeeps
    obtain ⟨hmem, hplaceholders⟩ := hcovers.placeholder_of_keeps hplain' hkeeps
    exact ⟨htop.mem_nodesBelow.1 hmem, hplaceholders⟩
  obtain ⟨_, _, hgathers⟩ := hasks.gathers hwalk
  obtain ⟨hopened, -⟩ := Document.gathered_frame hrooted.there
    (fun c hc => (hrooted.bears.mem c hc).1) hrooted.nodup
  -- the content that is drawn is that of texts, whose children stay
  obtain ⟨halters, hchildren⟩ := hrooted.reopened hinstalls.alters fun n hn => by
    by_cases hkeeps : Keeps ps (n, false)
    · have hkind := (hkept n hkeeps).kind
      have hlt : n < w.document.nodes.length := Document.lt_of_no_fragment (by simp [hkind])
      exact hgathers.texts n hn ((hopened.kind n hlt).trans hkind)
    · exact hinstalls.alters.children n hn hkeeps
  have hlast : w.document.Rerenders (w.document.RenderedBelow convention root)
      (u.document.append root w.document.nextNode) := by
    refine ⟨halters.kind, halters.attributes, hchildren, fun n hn hkind' hout => ?_⟩
    refine halters.text n hn (not_or.2 ⟨not_or.2 ⟨?_, Nat.ne_of_lt hn⟩, fun hkeeps => ?_⟩)
    · rintro rfl
      exact hkind hkind'
    · exact hout (hkept n hkeeps)
  rcases hends with ⟨-, -, rfl⟩ | ⟨e, -, -, rfl⟩
  · exact hlast
  · have hundone : (u.onDocument (·.append root w.document.nextNode)).Discards w.nextView _ :=
      .disposeView _ _
    rw [hundone.document]
    exact hlast.dropListeners _

end

/-! ## What a compilation has found -/

/-- What a compilation that has returned has found below its root, and what
it has left as it was. -/
structure Finds (convention : Convention) (context : Context) (root : NodeId) (w : World)
    (result : Except Error ViewId) (w' : World) : Prop where
  /-- It succeeds if all attributes can be read and all methods are there. -/
  ok_iff : (∃ view, result = .ok view) ↔ ∀ n, w.document.Below root n →
    ∀ pair ∈ w.document.attributesAt n, ∃ directive?,
      Directive.parse convention.marker pair.1 pair.2 = .ok directive? ∧
        ∀ event method, directive? = some (.on event method) →
          (context.methods.find? method).isSome
  /-- It fails with what is wrong with the first other attribute. -/
  error_iff : ∀ e, result = .error e ↔ w.document.firstFault? convention context.methods
    (w.document.nodesBelow root) = some e
  /-- The view has the watchers and the listeners that the nodes ask for. -/
  binds : ∀ view, result = .ok view →
    let asked := (w.document.nodesBelow root).flatMap (w.document.bindingsAt convention)
    w'.Binds view id (asked.filterMap (·.path?)) (asked.filterMap (·.event? context.methods))
  /-- Only texts with placeholders are changed. -/
  rerenders : w.document.Rerenders (w.document.RenderedBelow convention root) w'.document

/-- Compiling a plain tree, where accessors only ask their scopes, returns
if every path can be resolved. It has then found each binding once, in
document order, or the first fault. -/
theorem compile_finds_each_binding {context : Context} (hopening : convention.opening ≠ "")
    (hslot : w.slot = none) (hasks : w.OnlyAsks) (htop : w.document.TreeTop root)
    (hkind : (w.document.node root).kind ≠ .text)
    (hplain : ∀ n, w.document.Below root n → w.document.Plain convention n) :
    ((∀ path, ∃ v, w.ResolvesTo path context.data v) → ∃ w' result,
      Reaches ⟨w, compile root context convention⟩ ⟨w', .done result⟩) ∧
    ∀ w' result, Reaches ⟨w, compile root context convention⟩ ⟨w', .done result⟩ →
      Finds convention context root w result w' := by
  obtain ⟨data, methods⟩ := context
  obtain ⟨site, trees, hrooted, hends, hcoversAll⟩ := htop.covered hopening hplain
  have hcovers := hcoversAll methods
  refine ⟨fun hresolves => returns_compile hasks hrooted (hends _ _ _ (hasks.responds hresolves)),
    fun w' result h => ?_⟩
  have hwalkable : Walkable convention ⟨data, methods⟩ site root trees w :=
    hcovers.walkable hslot hasks hrooted fun n hn => hplain n (htop.mem_nodesBelow.1 hn)
  have hsound : w.document.firstFault? convention methods (w.document.nodesBelow root) = none ↔
      ∀ n, w.document.Below root n → ∀ pair ∈ w.document.attributesAt n, ∃ directive?,
        Directive.parse convention.marker pair.1 pair.2 = .ok directive? ∧
          ∀ event method, directive? = some (.on event method) →
            (methods.find? method).isSome := by
    simp only [Document.firstFault?_eq_none_iff, htop.mem_nodesBelow, Directive.fault?_eq_none_iff]
  have hrerenders := rerenders_of_compile hopening hslot hasks htop hkind hplain hrooted hcovers h
  rcases compile_binds hopening hkind hwalkable h with
    ⟨e, herror, rfl⟩ | ⟨hnone, view, rfl, hbinds⟩
  · rw [hcovers.error] at herror
    refine ⟨iff_of_false nofun fun hall => ?_, fun e' => ?_, nofun, hrerenders⟩
    · exact absurd (herror.symm.trans (hsound.2 hall)) (Option.some_ne_none e)
    · rw [herror, Except.error.injEq, Option.some.injEq]
  · rw [hcovers.error] at hnone
    refine ⟨iff_of_true ⟨view, rfl⟩ (hsound.1 hnone), fun e => ?_, fun view' hview => ?_,
      hrerenders⟩
    · rw [hnone]
      exact iff_of_false nofun nofun
    · obtain rfl := Except.ok.inj hview
      exact hcovers.binds (hcovers.error.trans hnone) hbinds

/-! ## A form -/

/-- A form that is saved, with a field for the property `a`, a text that
shows two properties, and a text that shows none. -/
def formTrees : List Markup.Tree :=
  [.element "form" ⟨[("class", "x"), ("v-on:submit", "save")]⟩
      [.element "input" ⟨[("v-model", "a")]⟩ [], .text "\x7b\x7ba\x7d\x7d of \x7b\x7bb\x7d\x7d"],
    .text "plain"]

/-- The form, next to observed data. -/
def formWorld : World :=
  { World.start with
    graph := ⟨[⟨[("a", .data ⟨.string "1", some 0⟩), ("b", .data ⟨.string "2", some 1⟩)]⟩],
      [[], []]⟩
    document := Document.plantAll 0 formTrees (Document.empty.add (.new .fragment)) }

/-- What the form is compiled against. -/
def formContext : Context :=
  ⟨0, ⟨[("save", ⟨"save", []⟩)]⟩⟩

theorem treeTop_formWorld : formWorld.document.TreeTop 0 := by
  have hforest : formWorld.document.IsForest := .planted formTrees
  refine hforest.treeTop (Nat.zero_lt_succ 4) fun n hn => ?_
  obtain ⟨p, -, hc⟩ := Relation.TransGen.tail'_iff.1 hn
  have hall : ∀ n < 5, (formWorld.document.node n).kind = .text →
      (formWorld.document.node n).children = [] := by decide
  exact hall n (hforest.toPaired.toLinked.lt hc)

/-- Attributes that are read as something else show nothing in place of
content. -/
theorem plain_formWorld (n : NodeId) : formWorld.document.Plain .standard n := by
  have hread : ∀ n < 5, ∀ pair ∈ formWorld.document.attributesAt n,
      ((Directive.ofAttribute? .standard pair).map (Binding.directive n)).all
        (!·.displaces) = true := by
    decide +kernel
  intro pair hpair path
  have hlt : n < 5 := Nat.lt_of_not_le fun hle => by
    rw [Document.attributesAt, Document.node_of_le hle] at hpair
    exact absurd hpair List.not_mem_nil
  have hkept := hread n hlt pair hpair
  constructor
  all_goals
    intro hparse
    rw [Directive.ofAttribute?, hparse] at hkept
    exact absurd hkept Bool.false_ne_true

theorem compile_finds_each_binding_of_form : ∃ w' : World,
    Reaches ⟨formWorld, compile 0 formContext .standard⟩ ⟨w', .done (.ok 0)⟩ ∧
      w'.Binds 0 id [⟨"a", ["a"]⟩, ⟨"a", ["a"]⟩, ⟨"b", ["b"]⟩] [(1, "submit"), (2, "input")] ∧
      (w'.document.node 0).children = [1, 4] ∧ (w'.document.node 4).text = "plain" := by
  obtain ⟨-, hfinds⟩ := @compile_finds_each_binding _ _ _ formContext (by decide) rfl
    (Pure.onlyAsks (.of_allReactive rfl)) treeTop_formWorld (by decide) fun n _ => plain_formWorld n
  have hrun := @Config.reaches_of_view? 300
    ⟨formWorld, compile 0 formContext .standard⟩ 0 (by decide +kernel)
  obtain ⟨-, -, hbinds, hrerenders⟩ := hfinds _ _ hrun
  refine ⟨_, hrun, ?_, hrerenders.children 0 (by decide), ?_⟩
  · have hpaths : ((formWorld.document.nodesBelow 0).flatMap
        (formWorld.document.bindingsAt .standard)).filterMap (·.path?) =
        [⟨"a", ["a"]⟩, ⟨"a", ["a"]⟩, ⟨"b", ["b"]⟩] := by decide +kernel
    have hevents : ((formWorld.document.nodesBelow 0).flatMap
        (formWorld.document.bindingsAt .standard)).filterMap
          (·.event? formContext.methods) = [(1, "submit"), (2, "input")] := by decide +kernel
    have hview := hbinds 0 rfl
    simp only [hpaths, hevents] at hview
    exact hview
  · have hnone : formWorld.document.placeholdersAt .standard 4 = [] := by decide +kernel
    exact hrerenders.text 4 (by decide) (by decide) fun hrendered => hrendered.2 hnone

end DataBinding
