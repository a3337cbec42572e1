import DataBinding.Proofs.Freshness.Evaluation
import DataBinding.Proofs.Resolution.Asking
import DataBinding.Proofs.Run.Returning

/-!
# Tracking is exact and sufficient

A path that is resolved in an evaluation comes to the value that it comes
to without one, and finishing the evaluation returns a set (`Evaluates`).
Where accessors only read through their scopes, that set is exactly what
was looked at on the way, inside accessors too; and it is enough to know
the value, as another state that agrees on it and on what is not reactive
gives the same value and the same set (`tracking_exact_and_sufficient`).

Both come from `Graph.Gives`: an evaluation is a derivation of what is
given, of which it has tracked the cells, and such a derivation is one in
every state where those cells have the same content.
-/

namespace DataBinding

namespace World

variable {w w' : World} {e : EvaluationId} {s : SubscriberId} {previous ds : List DependencyId}
  {path : Path} {root : ObjectId} {v : Value} {cells : List Cell}

/-! ## Resolving in an evaluation -/

/-- Finishing an evaluation returns a set of dependencies. -/
def Finishes (w : World) (e : EvaluationId) (ds : List DependencyId) : Prop :=
  ∀ name set, ∃ last, Passes ⟨w, finishNamed name e (some set)⟩ []
    ⟨last, .done (.count ds.length)⟩ ∧ last.dependencySet (some set) = ds

/-- A path is resolved in an evaluation, to a value, and finishing the
evaluation returns a set. -/
def Evaluates (w : World) (s : SubscriberId) (previous : List DependencyId) (path : Path)
    (root : ObjectId) (v : Value) (ds : List DependencyId) : Prop :=
  ∃ begun last, w.enter s previous = .ok begun ∧
    Reaches ⟨begun, path.resolve root (some w.nextEvaluation)⟩ ⟨last, .done v⟩ ∧
    last.Finishes w.nextEvaluation ds

/-- A path is resolved without an evaluation. -/
def ResolvesTo (w : World) (path : Path) (root : ObjectId) (v : Value) : Prop :=
  ∃ last, Reaches ⟨w, path.resolve root none⟩ ⟨last, .done v⟩

theorem dependencySet_nameDependencySet (w : World) (set : String) (ds : List DependencyId) :
    (w.nameDependencySet set ds).dependencySet (some set) = ds := by
  simp [dependencySet, nameDependencySet, onNames, Keyed.find?_put]

theorem finishes_current (h : (w.evaluation e).handles ≤ 1) :
    w.Finishes e (w.evaluation e).current := by
  intro name set
  have hdone : Passes ⟨w, finishNamed name e (some set)⟩ []
      ⟨((w.finish e).dropEvaluation name).nameDependencySet set (w.evaluation e).current,
        .done (.count (w.evaluation e).current.length)⟩ := by
    refine .bind_nil (.ask _) ?_
    rw [if_neg (Nat.not_lt.2 h)]
    exact .bind_nil (.modify _) (.bind_nil (.modify _) (.here _))
  exact ⟨_, hdone, dependencySet_nameDependencySet _ _ _⟩

theorem Finishes.unique {ds' : List DependencyId} (h : w.Finishes e ds) (h' : w.Finishes e ds') :
    ds = ds' := by
  obtain ⟨last, hpasses, rfl⟩ := h "" ""
  obtain ⟨last', hpasses', rfl⟩ := h' "" ""
  cases (hpasses.unique hpasses' rfl rfl).1
  rfl

/-! ## What an evaluation has tracked -/

/-- The state in which an evaluation has begun. -/
def entered (w : World) (s : SubscriberId) (previous : List DependencyId) : World :=
  { w with slot := some s, evaluations := w.evaluations ++ [⟨s, previous, [], true, 1⟩] }

/-- What an evaluation has read that has looked at some cells. -/
def tracked (w : World) (s : SubscriberId) (previous : List DependencyId) (cells : List Cell) :
    List DependencyId :=
  (((w.entered s previous).trackCells (some w.nextEvaluation) cells).evaluation
    w.nextEvaluation).current

theorem enter_of_free (h : w.isEvaluating = false) :
    w.enter s previous = .ok (w.entered s previous) := by
  rw [enter, h]
  rfl

theorem evaluation_entered (w : World) (s : SubscriberId) (previous : List DependencyId) :
    (w.entered s previous).evaluation w.nextEvaluation = ⟨s, previous, [], true, 1⟩ :=
  (evaluation_append w _ (some s) w.nextEvaluation).trans (if_pos rfl)

/-- These are the dependencies of the cells. -/
theorem mem_tracked (d : DependencyId) :
    d ∈ w.tracked s previous cells ↔ d ∈ w.dependenciesOf cells := by
  have he : w.nextEvaluation < (w.entered s previous).evaluations.length := by
    simp [entered, nextEvaluation]
  refine (mem_current_foldl_track _ he d).trans ?_
  rw [evaluation_entered]
  exact or_iff_right List.not_mem_nil

theorem handles_foldl_track (ds : List DependencyId) (w : World) (e : EvaluationId) :
    ((ds.foldl (fun w d => w.track e d) w).evaluation e).handles = (w.evaluation e).handles := by
  induction ds generalizing w with
  | nil => rfl
  | cons d ds ih => exact (ih _).trans (field_track w e e d Evaluation.handles fun _ => rfl)

theorem finishes_tracked :
    ((w.entered s previous).trackCells (some w.nextEvaluation) cells).Finishes w.nextEvaluation
      (w.tracked s previous cells) := by
  refine finishes_current (Nat.le_of_eq ?_)
  rw [trackCells, handles_foldl_track, evaluation_entered]

theorem evaluates_of_gives (hfree : w.isEvaluating = false)
    (h : w.graph.Gives (.walk (.object root) path.segments) v cells) :
    w.Evaluates s previous path root v (w.tracked s previous cells) := by
  obtain ⟨calls, hpasses⟩ := h.passes (some w.nextEvaluation)
    (w := w.entered s previous) fun _ => rfl
  exact ⟨_, _, enter_of_free hfree, hpasses.reaches, finishes_tracked⟩

theorem Evaluates.gives (hw : w.OnlyAsks) (h : w.Evaluates s previous path root v ds) :
    ∃ cells, w.graph.Gives (.walk (.object root) path.segments) v cells ∧
      ds = w.tracked s previous cells := by
  obtain ⟨begun, last, henter, hreaches, hfinishes⟩ := h
  obtain rfl : w.entered s previous = begun := by
    unfold enter at henter
    split at henter
    · cases henter
    · exact Except.ok.inj henter
  obtain ⟨cells, hgives, rfl⟩ := given_of_reaches (w := w.entered s previous) hw hreaches
  exact ⟨cells, hgives, hfinishes.unique finishes_tracked⟩

theorem resolvesTo_iff (hw : w.OnlyAsks) : w.ResolvesTo path root v ↔
    ∃ cells, w.graph.Gives (.walk (.object root) path.segments) v cells := by
  constructor
  · rintro ⟨last, hreaches⟩
    obtain ⟨cells, hgives, -⟩ := given_of_reaches hw hreaches
    exact ⟨cells, hgives⟩
  · rintro ⟨cells, hgives⟩
    obtain ⟨calls, hpasses⟩ := hgives.passes none fun _ => rfl
    exact ⟨_, hpasses.reaches⟩

theorem Evaluates.unique {v' : Value} {ds' : List DependencyId}
    (h : w.Evaluates s previous path root v ds) (h' : w.Evaluates s previous path root v' ds') :
    v = v' ∧ ds = ds' := by
  obtain ⟨begun, last, henter, hreaches, hfinishes⟩ := h
  obtain ⟨begun', last', henter', hreaches', hfinishes'⟩ := h'
  cases henter.symm.trans henter'
  obtain ⟨calls, hpasses⟩ := hreaches.passes
  obtain ⟨calls', hpasses'⟩ := hreaches'.passes
  cases (hpasses.unique hpasses' rfl rfl).1
  exact ⟨rfl, hfinishes.unique hfinishes'⟩

end World

/-! ## States that agree on a set -/

/-- The dependency of a data property, or the accessor of a computed one. -/
def Slot.frame : Slot → Option DependencyId ⊕ Expr
  | .data property => .inl property.dependency
  | .computed accessor => .inr accessor

/-- Another state has the same keys, accessors and dependencies, and holds
the same values in properties that are not reactive or whose dependency
belongs to the set. -/
structure World.AgreesOn (w w' : World) (ds : List DependencyId) : Prop where
  frame : ∀ id key, (w'.graph.slot? id key).map Slot.frame = (w.graph.slot? id key).map Slot.frame
  value : ∀ id key property property', w.graph.slot? id key = some (.data property) →
    w'.graph.slot? id key = some (.data property') →
    (∀ d, property.dependency = some d → d ∈ ds) → property'.value = property.value

namespace World.AgreesOn

variable {w w' : World} {ds : List DependencyId} {id : ObjectId} {key : String} {cells : List Cell}

theorem dependency? (h : w.AgreesOn w' ds) :
    w'.graph.dependency? id key = w.graph.dependency? id key := by
  have hframe := h.frame id key
  unfold Graph.dependency?
  rcases hslot : w.graph.slot? id key with _ | property | accessor <;>
    rcases hslot' : w'.graph.slot? id key with _ | property' | accessor' <;>
      simp_all [Slot.frame]

theorem dependenciesOf (h : w.AgreesOn w' ds) (cells : List Cell) :
    w'.dependenciesOf cells = w.dependenciesOf cells := by
  simp only [World.dependenciesOf, h.dependency?]

/-- A cell with its dependency in the set, or with none, has the same
content. -/
theorem content (h : w.AgreesOn w' ds)
    (hds : ∀ d, w.graph.dependency? id key = some d → d ∈ ds) :
    w'.graph.content (id, key) = w.graph.content (id, key) := by
  have hframe := h.frame id key
  have hvalue := h.value id key
  unfold Graph.dependency? at hds
  unfold Graph.content
  rcases hslot : w.graph.slot? id key with _ | property | accessor <;>
    rcases hslot' : w'.graph.slot? id key with _ | property' | accessor' <;>
      simp_all [Slot.frame]

theorem content_of_reads (h : w.AgreesOn w' ds)
    (hds : ∀ d ∈ w.dependenciesOf cells, d ∈ ds) :
    ∀ c ∈ cells, w'.graph.content c = w.graph.content c := fun _ hc =>
  h.content fun d hd => hds d (List.mem_filterMap.2 ⟨_, hc, hd⟩)

end World.AgreesOn

/-! ## Exact and sufficient -/

open World in
/-- Where accessors only ask their scopes, a path comes to the same value in
an evaluation as without one. The set that the evaluation returns consists of
the dependencies of what is looked at on the way. Every state that agrees
on this set gives the same value and the same set. -/
theorem tracking_exact_and_sufficient {w : World} (hw : w.OnlyAsks)
    (hfree : w.isEvaluating = false) (s : SubscriberId) (previous : List DependencyId)
    (path : Path) (root : ObjectId) :
    (∀ v, (∃ ds, w.Evaluates s previous path root v ds) ↔ w.ResolvesTo path root v) ∧
    ∀ v ds, w.Evaluates s previous path root v ds →
      (∃ cells, w.graph.Gives (.walk (.object root) path.segments) v cells) ∧
      (∀ u cells, w.graph.Gives (.walk (.object root) path.segments) u cells →
        u = v ∧ ∀ d, d ∈ ds ↔ d ∈ w.dependenciesOf cells) ∧
      ∀ w' s' previous', w.AgreesOn w' ds → w'.isEvaluating = false →
        ∃ ds', w'.Evaluates s' previous' path root v ds' ∧ ∀ d, d ∈ ds' ↔ d ∈ ds := by
  refine ⟨fun v => ?_, fun v ds h => ?_⟩
  · rw [resolvesTo_iff hw]
    constructor
    · rintro ⟨ds, h⟩
      obtain ⟨cells, hgives, -⟩ := h.gives hw
      exact ⟨cells, hgives⟩
    · rintro ⟨cells, hgives⟩
      exact ⟨_, evaluates_of_gives hfree hgives⟩
  · obtain ⟨cells, hgives, hds⟩ := h.gives hw
    refine ⟨⟨cells, hgives⟩, fun u cells' hgives' => ?_, fun w' s' previous' hagrees hfree' => ?_⟩
    · obtain ⟨rfl, rfl⟩ := h.unique (evaluates_of_gives hfree hgives')
      exact ⟨rfl, fun _ => mem_tracked _⟩
    · have hmem : ∀ d, d ∈ ds ↔ d ∈ w.dependenciesOf cells := fun d => by
        rw [hds, mem_tracked]
      have hgives' := hgives.congr (hagrees.content_of_reads fun d hd => (hmem d).2 hd)
      refine ⟨_, evaluates_of_gives hfree' hgives', fun d => ?_⟩
      rw [mem_tracked, hagrees.dependenciesOf, hmem]

/-- An accessor that asks for the name that another property says. The name
it does not ask for is not tracked. -/
example :
    let w := { World.start with
      graph := ⟨[⟨[("which", .data ⟨.string "b", some 0⟩), ("a", .data ⟨.string "Ada", some 1⟩),
        ("b", .data ⟨.string "Bob", some 2⟩),
        ("name", .computed (.asking fun _ => .get "which" fun v => .get v.text .answer))]⟩],
        [[], [], []]⟩ }
    let c := Config.advance 100
      ⟨w.entered (.client 0) [], Path.resolve ⟨"name", ["name"]⟩ 0 (some 0)⟩
    c.returned? = some (.string "Bob") ∧ (c.world.evaluation 0).current = [0, 2] := by
  decide +kernel

/-- An accessor that reads another one, which reads one of two names. -/
def nestedWorld (rest : String) : World :=
  { World.start with
    graph := ⟨[⟨[("shown", .data ⟨.bool true, some 0⟩), ("name", .data ⟨.string "Ada", some 1⟩),
      ("rest", .data ⟨.string rest, some 2⟩),
      ("inner", .computed (.choose (.get "shown") (.get "name") (.get "rest"))),
      ("outer", .computed (.concat [.get "inner", .const (.string "!")]))]⟩], [[], [], []]⟩ }

theorem nestedWorld_onlyGets (rest : String) : (nestedWorld rest).OnlyGets := by
  intro id key accessor hslot
  cases id with
  | zero =>
      have hmem := Graph.mem_of_findEntry hslot
      simp only [nestedWorld, Graph.slots, List.getD_cons_zero, List.mem_cons, Prod.mk.injEq,
        reduceCtorEq, and_false, Slot.computed.injEq, List.not_mem_nil, or_false, false_or] at hmem
      rcases hmem with ⟨-, rfl⟩ | ⟨-, rfl⟩
      · exact .choose (.get _) (.get _) (.get _)
      · exact .concat (by simp [Expr.Gets.get, Expr.Gets.const])
  | succ id => cases hslot

theorem slot?_nestedWorld (rest : String) (id : ObjectId) (key : String) :
    (nestedWorld rest).graph.slot? id key =
      if id = 0 ∧ key = "rest" then some (.data ⟨.string rest, some 2⟩)
      else (nestedWorld "").graph.slot? id key := by
  cases id with
  | zero =>
      by_cases hkey : key = "rest"
      · subst hkey
        rfl
      · simp [nestedWorld, Graph.slot?, Graph.slots, Keyed.find?, Keyed.findEntry, Ne.symm hkey,
          hkey]
  | succ id => rfl

theorem nestedWorld_agreesOn (rest rest' : String) :
    (nestedWorld rest).AgreesOn (nestedWorld rest') [0, 1] := by
  constructor
  · intro id key
    rw [slot?_nestedWorld rest, slot?_nestedWorld rest']
    split <;> rfl
  · intro id key property property' hslot hslot' hds
    rw [slot?_nestedWorld] at hslot hslot'
    split at hslot
    · cases hslot
      exact absurd (hds 2 rfl) (by decide)
    · rename_i hother
      rw [if_neg hother] at hslot'
      cases hslot.symm.trans hslot'
      rfl

/-- The name that is not shown may be any, and is not tracked. -/
theorem tracking_exact_and_sufficient_of_nested :
    (nestedWorld "Bob").Evaluates (.client 0) [] ⟨"outer", ["outer"]⟩ 0 (.string "Ada!") [0, 1] ∧
    ∃ ds, (nestedWorld "Eve").Evaluates (.client 0) [] ⟨"outer", ["outer"]⟩ 0 (.string "Ada!") ds ∧
      ∀ d, d ∈ ds ↔ d ∈ [0, 1] := by
  let begun := (nestedWorld "Bob").entered (.client 0) []
  have hrun := Config.reaches_of_returned 100
    (c := ⟨begun, Path.resolve ⟨"outer", ["outer"]⟩ 0 (some 0)⟩)
    (show _ = some (Value.string "Ada!") by decide +kernel)
  have hevaluates : (nestedWorld "Bob").Evaluates (.client 0) [] ⟨"outer", ["outer"]⟩ 0
      (.string "Ada!") [0, 1] :=
    ⟨begun, _, rfl, hrun, World.finishes_current (by decide +kernel)⟩
  refine ⟨hevaluates, ?_⟩
  have hasks : (nestedWorld "Bob").OnlyAsks := (nestedWorld_onlyGets "Bob").onlyAsks
  obtain ⟨-, hall⟩ := tracking_exact_and_sufficient hasks rfl (.client 0) []
    ⟨"outer", ["outer"]⟩ 0
  exact (hall _ _ hevaluates).2.2 _ _ _ (nestedWorld_agreesOn _ _) rfl

end DataBinding
