import DataBinding.Proofs.Compiling.Undoing

/-!
# The document stays a forest

As long as no append makes a node its own descendant, the document is a
forest in every state of every run, and appends do to it what they should
(`document_stays_consistent`). What a compilation puts back is never below
itself: when nothing but the walk has happened since the children of the
root were taken away, no way leads from them to the root
(`IsForest.compile`). So only appends of client code are to blame for a
cycle.
-/

namespace DataBinding

open World

/-! ## What appends do -/

namespace Document

variable {d d' : Document} {n m p c root : NodeId}

/-- An element or a text becomes the last child of a node. -/
structure Moves (d : Document) (p c : NodeId) (d' : Document) : Prop where
  target : (d'.node p).children = (d.node p).children.filter (· ≠ c) ++ [c]
  former : ∀ q, q ≠ p → (d.node c).parent = some q →
    (d'.node q).children = (d.node q).children.filter (· ≠ c)
  others : ∀ q, q ≠ p → (d.node c).parent ≠ some q → (d'.node q).children = (d.node q).children
  parent : ∀ n, (d'.node n).parent = if n = c then some p else (d.node n).parent

/-- The children of a fragment become the last children of another node. -/
structure Unpacks (d : Document) (p c : NodeId) (d' : Document) : Prop where
  target : (d'.node p).children = (d.node p).children ++ (d.node c).children
  emptied : (d'.node c).children = []
  others : ∀ q, q ≠ p → q ≠ c → (d'.node q).children = (d.node q).children
  parent : ∀ n, (d'.node n).parent =
    if n ∈ (d.node c).children then some p else (d.node n).parent

namespace Paired

theorem moves (h : d.Paired) (hp : p < d.nodes.length) (hc : (d.node c).kind ≠ .fragment) :
    d.Moves p c (d.append p c) := by
  have hmoves := h.append hp c
  rw [carried_of_ne hc] at hmoves
  have hfilter : ∀ q, (d.node q).children.filter (· ∉ [c]) = (d.node q).children.filter (· ≠ c) :=
    fun q => List.filter_congr fun m _ => by simp
  have hother : ∀ q, q ≠ p →
      ((d.append p c).node q).children = (d.node q).children.filter (· ≠ c) := by
    intro q hq
    rw [hmoves.children, if_neg (by simpa using hq.symm), List.append_nil, hfilter]
  refine ⟨?_, fun q hq _ => hother q hq, fun q hq hformer => ?_, fun n => ?_⟩
  · rw [hmoves.children, if_pos rfl, hfilter]
  · rw [hother q hq]
    refine List.filter_eq_self.2 fun m hm => decide_eq_true ?_
    rintro rfl
    exact hformer (h.parent hm)
  · simpa using hmoves.parent n

/-- The children of one node are not those of another one. -/
theorem filter_children (h : d.Paired) {q : NodeId} (hq : q ≠ c) :
    (d.node q).children.filter (· ∉ (d.node c).children) = (d.node q).children :=
  List.filter_eq_self.2 fun _ hm => decide_eq_true fun hm' => hq (h.single hm hm')

theorem unpacks (h : d.Paired) (hp : p < d.nodes.length) (hne : p ≠ c)
    (hc : (d.node c).kind = .fragment) : d.Unpacks p c (d.append p c) := by
  have hmoves := h.append hp c
  rw [carried_fragment hc] at hmoves
  refine ⟨?_, ?_, fun q hq hq' => ?_, hmoves.parent⟩
  · rw [hmoves.children, if_pos rfl, h.filter_children hne]
  · rw [hmoves.children, if_neg (by simpa using hne), List.append_nil]
    exact List.filter_eq_nil_iff.2 fun m hm => by simpa using hm
  · rw [hmoves.children, if_neg (by simpa using hq.symm), List.append_nil, h.filter_children hq']

/-- A fragment that is appended to itself has its children taken away and
put back. -/
theorem unpacks_itself (h : d.Paired) (hc : c < d.nodes.length)
    (hkind : (d.node c).kind = .fragment) (n : NodeId) :
    ((d.append c c).node n).children = (d.node n).children ∧
      ((d.append c c).node n).parent = (d.node n).parent := by
  have hmoves := h.append hc c
  rw [carried_fragment hkind] at hmoves
  constructor
  · rw [hmoves.children]
    by_cases hn : n = c
    · subst hn
      rw [if_pos rfl, List.filter_eq_nil_iff.2 fun m hm => by simpa using hm, List.nil_append]
    · rw [if_neg (by simpa using Ne.symm hn), List.append_nil, h.filter_children hn]
  · rw [hmoves.parent]
    split
    · rename_i hmem
      exact (h.parent hmem).symm
    · rfl

end Paired

/-- An append makes a node its own descendant if something that it moves is
the target or above it. -/
theorem IsForest.loops_iff (h : d.IsForest) (hp : p < d.nodes.length) :
    (∃ n, (d.append p c).Below n n) ↔ ∃ n ∈ d.carried c, n = p ∨ d.Below n p := by
  have hforest : (d.append p c).IsForest ↔ ¬ ∃ n, (d.append p c).Below n n :=
    ⟨fun h => not_exists.2 h.acyclic, fun hn => ⟨h.paired_append hp c, not_exists.1 hn⟩⟩
  have hfits : d.Fits (d.carried c) p ↔ ¬ ∃ n ∈ d.carried c, n = p ∨ d.Below n p := by
    simp [Fits]
  have happend := hforest.symm.trans ((h.append_iff hp).trans hfits)
  constructor
  · intro hloop
    exact Classical.byContradiction fun hnone => happend.2 hnone hloop
  · intro hmoved
    exact Classical.byContradiction fun hnone => happend.1 hnone hmoved

/-- The two records of the tree agree, the tree has no cycle, and whatever
is appended to whichever node comes where it should, at the expense of
nothing else. -/
structure Consistent (d : Document) : Prop where
  occurs : ∀ p c, (d.node p).children.count c = if (d.node c).parent = some p then 1 else 0
  single : ∀ {p q c}, c ∈ (d.node p).children → c ∈ (d.node q).children → p = q
  fragment : ∀ {n}, (d.node n).kind = .fragment →
    (d.node n).parent = none ∧ ∀ p, n ∉ (d.node p).children
  acyclic : ∀ n, ¬ d.Below n n
  moves : ∀ {p c}, p < d.nodes.length → (d.node c).kind ≠ .fragment →
    d.Moves p c (d.append p c)
  unpacks : ∀ {p c}, p < d.nodes.length → p ≠ c → (d.node c).kind = .fragment →
    d.Unpacks p c (d.append p c)
  itself : ∀ {c}, c < d.nodes.length → (d.node c).kind = .fragment → ∀ n,
    ((d.append c c).node n).children = (d.node n).children ∧
      ((d.append c c).node n).parent = (d.node n).parent
  loops : ∀ {p c}, p < d.nodes.length →
    ((∃ n, (d.append p c).Below n n) ↔ ∃ n ∈ d.carried c, n = p ∨ d.Below n p)

theorem IsForest.consistent (h : d.IsForest) : d.Consistent where
  occurs := h.count
  single := h.toPaired.single
  fragment := h.toPaired.fragment
  acyclic := h.acyclic
  moves := h.toPaired.moves
  unpacks := h.toPaired.unpacks
  itself := h.unpacks_itself
  loops := h.loops_iff

/-- A tree in which every child is younger than its parent. -/
def descends (d : Document) : Bool :=
  (List.range d.nodes.length).all fun p => (d.node p).children.all (p < ·)

theorem not_below_of_descends (h : d.descends = true) (n : NodeId) : ¬ d.Below n n := by
  have hchild : ∀ {p c}, c ∈ (d.node p).children → p < c := by
    intro p c hc
    have hp : p < d.nodes.length := Nat.lt_of_not_le fun hle => by
      rw [node_of_le hle] at hc
      exact List.not_mem_nil hc
    have hall := List.all_eq_true.1 h p (List.mem_range.2 hp)
    simpa using List.all_eq_true.1 hall c hc
  have hbelow : ∀ {m}, d.Below n m → n < m := by
    intro m h
    induction h with
    | single hc => exact hchild hc
    | tail _ hc ih => exact Nat.lt_trans ih (hchild hc)
  exact fun h => Nat.lt_irrefl n (hbelow h)

/-! ## Compilations -/

/-- Whoever is new has only new children, so no new way leads to an old
node. -/
theorem Sprouts.below (h : Sprouts (fun _ c => d.nodes.length ≤ c) d d')
    (hbelow : d'.Below n m) (hm : m < d.nodes.length) : d.Below n m := by
  have hold : ∀ {p c}, c ∈ (d'.node p).children → c < d.nodes.length →
      c ∈ (d.node p).children := fun hc hlt =>
    (h _ _ hc).resolve_right (Nat.not_le.2 hlt)
  induction hbelow with
  | single hc => exact .single (hold hc hm)
  | @tail p c _ hc ih =>
      have hc := hold hc hm
      have hp : p < d.nodes.length := Nat.lt_of_not_le fun hle => by
        rw [node_of_le hle] at hc
        exact List.not_mem_nil hc
      exact (ih hp).tail hc

end Document

variable {w w' : World} {root : NodeId} {context : Context} {convention : Convention}

/-- A compilation keeps a forest, however it ends: its own appends make no
node its own descendant. -/
theorem Document.IsForest.compile {result : Except Error ViewId} (h : w.document.IsForest)
    (hasks : w.OnlyAsks) (hroot : root < w.document.nodes.length)
    (hrun : Reaches ⟨w, DataBinding.compile root context convention⟩ ⟨w', .done result⟩) :
    w'.document.IsForest := by
  by_cases hkind : (w.document.node root).kind = .text
  · rw [(hrun.of_compile_text hkind).1]
    exact h
  obtain ⟨walked, u, hwalk, hend⟩ := hrun.of_compile hkind
  let first := w.openCompilation root
  let fragment := w.document.nextNode
  have hopened : w.document.Opened root first.document := Document.opened h.toLinked hroot
  have hfillable : Fillable w.nextView (first.document.beside fragment) first :=
    hasks.fillable (Document.closed_beside _ _)
  obtain ⟨xs, es, hgathers⟩ :=
    gathers_of_compileChildren hfillable (fun c hc hout => hout.2 (.single hc)) hwalk
  have hforest : u.document.IsForest := hgathers.forest (h.gathered root)
  have hroot' : root < first.document.nodes.length :=
    Nat.lt_of_lt_of_le hroot hopened.reshapes.length
  have hchildren : (u.document.node fragment).children = (w.document.node root).children :=
    (hgathers.alters.children fragment hopened.there fun h => h hopened.fragment_beside).trans
      hopened.gathered
  have hcarried : u.document.carried fragment = (w.document.node root).children := by
    rw [Document.carried_fragment
      ((hgathers.alters.kind fragment hopened.there).trans hopened.fragment), hchildren]
  -- a way from a child to the root would have been there before
  have hfits : u.document.Fits (u.document.carried fragment) root := by
    intro n hn
    rw [hcarried] at hn
    refine ⟨fun heq => h.acyclic root (.single (heq ▸ hn)), fun hbelow => ?_⟩
    have hfrom : first.document.Below fragment root :=
      Relation.TransGen.head (hopened.gathered ▸ hn) (hgathers.sprouts.below hbelow hroot')
    exact h.acyclic root (hopened.below hfrom)
  have hback : (u.document.append root fragment).IsForest :=
    hforest.append (Nat.lt_of_lt_of_le hroot' hgathers.alters.length) hfits
  rcases hend with ⟨-, -, rfl⟩ | ⟨e, -, -, rfl⟩
  · exact hback
  · rw [(Discards.disposeView _ w.nextView).document]
    exact (Document.Regrafts.dropListeners _ _).isForest_of_same hback

/-! ## Runs -/

/-- An append makes no node its own descendant. -/
def World.Unlooped (w w' : World) : Prop :=
  ∀ p c, w'.document = w.document.append p c → ∀ n, ¬ w'.document.Below n n

theorem ProceedsWithin.isForest {s : Step} {c : Config Reply}
    (h : ProceedsWithin World.Unlooped ⟨.start, s.run .outside⟩ c) :
    c.world.document.IsForest := by
  have hstart : Config.Reachable ⟨.start, s.run .outside⟩ := ⟨.start, s, .start, .here _⟩
  induction h with
  | here => exact .empty
  | tick hrun htick hallowed ih =>
      rcases (hrun.proceeds.reachable hstart).writes htick with hsame | hwrites
      · exact hsame ▸ ih
      · exact hwrites.edits.isForest ih hallowed
  | step _ _ ih => exact ih

/-- In every state of every run without an append that makes a node its own
descendant, the document is a consistent forest; and so it is after a
compilation from there, if accessors only read. -/
theorem document_stays_consistent {s : Step} {c : Config Reply}
    (h : ProceedsWithin World.Unlooped ⟨.start, s.run .outside⟩ c) :
    c.world.document.Consistent ∧ ∀ {root context convention result w'}, c.world.OnlyAsks →
      root < c.world.document.nodes.length →
      Reaches ⟨c.world, compile root context convention⟩ ⟨w', .done result⟩ →
      w'.document.Consistent :=
  ⟨h.isForest.consistent, fun hasks hroot hrun =>
    (h.isForest.compile hasks hroot hrun).consistent⟩

/-! ## A fragment that is appended to itself -/

/-- Steps that go on from an end, each of them run to its own end. -/
def Config.goOn (steps : List Step) (c : Config Reply) : Config Reply :=
  steps.foldl (fun c s => Config.advance 100 ⟨{ c.world with log := [] }, s.run .outside⟩) c

/-- On the way every child is younger than its parent. -/
def Config.descends : List Step → Config Reply → Bool
  | [], _ => true
  | s :: steps, c =>
    let begun : Config Reply := ⟨{ c.world with log := [] }, s.run .outside⟩
    c.returned?.isSome && (begun.worlds 100).all (·.document.descends) &&
      (begun.advance 100).descends steps

theorem ProceedsWithin.descending {a c : Config Reply} (h : ProceedsWithin World.Unlooped a c)
    (fuel : Nat) (hworlds : (c.worlds fuel).all (·.document.descends) = true) :
    ProceedsWithin World.Unlooped a (c.advance fuel) :=
  h.advance (fun _ hw' _ _ _ => Document.not_below_of_descends hw') fuel hworlds

theorem ProceedsWithin.goOn {a : Config Reply} : ∀ (steps : List Step) {c : Config Reply},
    ProceedsWithin World.Unlooped a c → c.descends steps = true →
      ProceedsWithin World.Unlooped a (c.goOn steps)
  | [], _, h, _ => h
  | s :: steps, c, h, hsteps => by
      simp only [Config.descends, Bool.and_eq_true] at hsteps
      obtain ⟨⟨hend, hworlds⟩, hrest⟩ := hsteps
      exact goOn steps ((h.next hend s).descending 100 hworlds) hrest

/-- A fragment with one text. -/
def Document.filledFragment : Document :=
  ⟨[{ Node.new .fragment with children := [1] },
    { Node.new .text with parent := some 0, text := "x" }], 0⟩

/-- A text is put into a fragment. -/
def filling : Config Reply :=
  (Config.advance 100 ⟨.start, (Step.node (.fragment "f")).run .outside⟩).goOn
    [.node (.text "t" "x"), .node (.append "f" "t")]

/-- A paragraph is added that shows a property, and data for it are made. -/
def templating : Config Reply :=
  filling.goOn [.node (.element "p" "p"), .node (.setAttribute "p" "v-text" "a"),
    .node (.append "f" "p"), .newObject "o" [("a", .const (.string "1"))], .observe (.object "o")]

theorem proceeds_filling : ProceedsWithin World.Unlooped
    ⟨.start, (Step.node (.fragment "f")).run .outside⟩ filling :=
  ((ProceedsWithin.here _).descending 100 (by decide +kernel)).goOn _ (by decide +kernel)

theorem proceeds_templating : ProceedsWithin World.Unlooped
    ⟨.start, (Step.node (.fragment "f")).run .outside⟩ templating :=
  proceeds_filling.goOn _ (by decide +kernel)

/-- The text in its fragment, and then the paragraph with what it shows. -/
theorem document_stays_consistent_of_fragment : ∃ c : Config Reply,
    ProceedsWithin World.Unlooped ⟨.start, (Step.node (.fragment "f")).run .outside⟩ c ∧
    c.world.document = .filledFragment ∧ c.world.document.Consistent ∧
    ∃ (d : Config Reply) (w' : World),
      ProceedsWithin World.Unlooped ⟨.start, (Step.node (.fragment "f")).run .outside⟩ d ∧
      Reaches ⟨d.world, compile 0 ⟨0, .empty⟩ .standard⟩ ⟨w', .done (.ok 0)⟩ ∧
      w'.document.outerMarkup 0 = "x<p v-text=\"a\">1</p>" ∧ w'.document.Consistent := by
  have hcompile := @Config.reaches_of_view? 300
    ⟨templating.world, compile 0 ⟨0, .empty⟩ .standard⟩ 0 (by decide +kernel)
  have hasks : templating.world.OnlyAsks := Pure.onlyAsks (.of_allReactive (by decide +kernel))
  have hroot : 0 < templating.world.document.nodes.length := by decide +kernel
  exact ⟨filling, proceeds_filling, rfl, (document_stays_consistent proceeds_filling).1,
    templating, _, proceeds_templating, hcompile, by decide +kernel,
    (document_stays_consistent proceeds_templating).2 hasks hroot hcompile⟩

/-- Not every fragment is left empty by an append, although no node becomes
its own descendant: what is appended to itself keeps its children. -/
theorem fragment_in_itself_keeps_children : ¬ ∀ {s : Step} {c : Config Reply},
    ProceedsWithin World.Unlooped ⟨.start, s.run .outside⟩ c → ∀ p n,
    (c.world.document.node n).kind = .fragment →
    (∀ m, ¬ (c.world.document.append p n).Below m m) →
    ((c.world.document.append p n).node n).children = [] := by
  intro hempty
  have hdocument : filling.world.document = .filledFragment := rfl
  have hleft := hempty proceeds_filling 0 0
  rw [hdocument] at hleft
  have hunlooped : ∀ m, ¬ (Document.filledFragment.append 0 0).Below m m :=
    Document.not_below_of_descends (by decide)
  exact absurd (hleft rfl hunlooped) (by decide)

end DataBinding
