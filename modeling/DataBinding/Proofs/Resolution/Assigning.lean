import DataBinding.Proofs.Notification.Passive
import DataBinding.Proofs.Notification.Setting
import DataBinding.Proofs.Resolution.Exact

/-!
# Assigning to a path

Assigning walks a path with a loop of its own, up to the last key. That
loop comes to what resolving the keys before it comes to
(`walkToLast_append`), so there is an object to write to just where they
resolve to one. The write then fills the property (`setProperty_fills`),
and telling the subscribers writes no object.

The write may change the path that it went through, or an accessor on it.
It does not if the property was not looked at on the way: then the whole
path resolves to what was written.
-/

namespace DataBinding

open World

variable {w w' : World}

/-! ## The last key -/

namespace Path

/-- The path of all keys but the last. -/
def parent (path : Path) : Path :=
  { path with segments := path.segments.dropLast }

/-- The last key. -/
def last (path : Path) : String :=
  path.segments.getLast?.getD ""

/-- Every path of a text has a last key. -/
theorem segments_parse (source : String) :
    (parse source).segments = (parse source).parent.segments ++ [(parse source).last] := by
  have hkeys : (parse source).segments ≠ [] := by
    simp [parse, keysOf, Text.fields_ne_nil]
  rw [parent, last, List.getLast?_eq_some_getLast hkeys]
  exact (List.dropLast_concat_getLast hkeys).symm

end Path

/-! ## Walking to the last key -/

theorem walkToLast_cons (id : ObjectId) (key : String) {keys : List String} (h : keys ≠ []) :
    walkToLast id (key :: keys) =
      (readProperty id key none >>= fun v =>
        v.object?.elim (pure none) fun id => walkToLast id keys) := by
  cases keys with
  | nil => exact absurd rfl h
  | cons next keys =>
      refine congrArg _ (funext fun v => ?_)
      cases v <;> rfl

/-- The loop up to the last key comes to what a walk along the keys before
it comes to. -/
theorem walkToLast_append (last : String) : ∀ (keys : List String) (id : ObjectId),
    walkToLast id (keys ++ [last]) =
      (walk none (.object id) keys >>= fun v => pure (v.object?.map (·, last)))
  | [], _ => rfl
  | key :: keys, id => by
      rw [List.cons_append, walkToLast_cons id key (by simp), walk, bind_assoc]
      refine congrArg _ (funext fun v => ?_)
      cases v with
      | object id => exact walkToLast_append last keys id
      | _ => cases keys <;> rfl

/-- What is left of an assignment when the keys before the last have led to
a value. -/
def assignTo (v : Value) (last : String) (value : Value) : Proc Bool :=
  match v.object? with
  | none => pure false
  | some id => do
    setProperty id last value
    pure true

theorem Path.assign_eq {path : Path} {root : ObjectId} {value : Value}
    (h : path.segments = path.parent.segments ++ [path.last]) :
    path.assign root value =
      (path.parent.resolve root none >>= fun v => assignTo v path.last value) := by
  rw [assign, h, walkToLast_append, bind_assoc]
  refine congrArg _ (funext fun v => ?_)
  cases v <;> rfl

/-! ## Filling a property -/

namespace Graph

/-- What a cell holds when a value was filled in. An accessor stays, and so
does a value that is the same. -/
def filled (value : Value) : Option (Value ⊕ Expr) → Value ⊕ Expr
  | some (.inl held) => .inl (if held.same value then held else value)
  | some (.inr accessor) => .inr accessor
  | none => .inl value

/-- Storing where there is no accessor. -/
theorem content_store (g : Graph) (id : ObjectId) (key : String) (value : Value) (c : Cell)
    (h : ∀ accessor, g.slot? id key ≠ some (.computed accessor)) :
    (g.store id key value).content c =
      if c = (id, key) ∧ id < g.objects.length then some (.inl value) else g.content c := by
  obtain ⟨other, otherKey⟩ := c
  simp only [Prod.mk.injEq, and_assoc, content, slot?_store]
  split
  · rcases hslot : g.slot? id key with _ | property | accessor
    · rfl
    · rfl
    · exact absurd hslot (h accessor)
  · rfl

theorem content_fill (g : Graph) (id : ObjectId) (key : String) (value : Value) (c : Cell) :
    (g.fill id (key, value)).content c =
      if c = (id, key) ∧ id < g.objects.length then some (filled value (g.content (id, key)))
      else g.content c := by
  -- the graph stays, or the value is stored
  have hstays (hfill : g.fill id (key, value) = g)
      (hheld : some (filled value (g.content (id, key))) = g.content (id, key)) :
      (g.fill id (key, value)).content c =
        if c = (id, key) ∧ id < g.objects.length then some (filled value (g.content (id, key)))
        else g.content c := by
    rw [hfill]
    split
    · rename_i hc
      rw [hc.1, hheld]
    · rfl
  rcases hslot : g.slot? id key with _ | property | accessor
  · have hfill : g.fill id (key, value) = g.store id key value := by simp [fill, hslot]
    rw [hfill, content_store _ _ _ _ _ (by simp [hslot])]
    simp [content, hslot, filled]
  · by_cases hsame : property.value.same value = true
    · exact hstays (by simp [fill, hslot, hsame]) (by simp [content, hslot, filled, hsame])
    · have hfill : g.fill id (key, value) = g.store id key value := by simp [fill, hslot, hsame]
      rw [hfill, content_store _ _ _ _ _ (by simp [hslot])]
      simp [content, hslot, filled, hsame]
  · exact hstays (by simp [fill, store, hslot]) (by simp [content, hslot, filled])

theorem filled_or (value : Value) (held : Option (Value ⊕ Expr)) :
    some (filled value held) = held ∨ filled value held = .inl value := by
  rcases held with _ | held | accessor
  · exact .inr rfl
  · rw [filled]
    split
    · exact .inl rfl
    · exact .inr rfl
  · exact .inl rfl

/-- Where there is no accessor, it is the value, up to equality. -/
theorem filled_agrees {value : Value} {held : Option (Value ⊕ Expr)}
    (h : ∀ accessor, held ≠ some (.inr accessor)) :
    ∃ u, filled value held = .inl u ∧ u.Agrees value := by
  match held, h with
  | none, _ => exact ⟨value, rfl, .refl value⟩
  | some (.inl v), _ =>
      refine ⟨_, rfl, ?_⟩
      split
      · rename_i hsame
        exact .inl hsame
      · exact .refl value
  | some (.inr accessor), h => exact absurd rfl (h accessor)

end Graph

theorem World.OnlyAsks.written (hw : w.OnlyAsks) (id : ObjectId) (key : String) (value : Value) :
    (w.written id key value).OnlyAsks :=
  fun _ _ _ hslot => hw _ _ _ (Graph.computed_of_fill hslot)

section Write

variable {id : ObjectId} {key : String} {value : Value}

/-- A write fills the property, observes the value if the property is
reactive, and spares the objects from then on. -/
theorem setProperty_fills (w : World) (id : ObjectId) (key : String) (value : Value) :
    ∃ u q, Passes ⟨w, setProperty id key value⟩ [] ⟨u, q⟩ ∧
      (u = w.written id key value ∨ u = (w.written id key value).onGraph (·.observe value)) ∧
      q.Sparing u := by
  rcases hslot : w.graph.slot? id key with _ | property | accessor
  · have hwritten : w.written id key value = w.onGraph (·.store id key value) := by
      simp [World.written, World.onGraph, Graph.fill, hslot]
    refine ⟨_, _, .bind_nil (.ask _) ?_, .inl hwritten.symm, .done ()⟩
    rw [hslot]
    exact .modify _
  · cases hsame : property.value.same value with
    | true =>
        refine ⟨w, _, .bind_nil (.ask _) ?_, .inl (written_same hslot hsame).symm, .done ()⟩
        rw [hslot]
        dsimp only
        rw [if_pos hsame]
        exact .here _
    | false =>
        cases hd : property.dependency with
        | none =>
            refine ⟨_, _, .bind_nil (.ask _) ?_, .inl (written_other hslot hsame).symm, .done ()⟩
            rw [hslot]
            dsimp only
            rw [if_neg (by simp [hsame]), hd]
            exact .bind_nil (.modify _) (.here _)
        | some d =>
            refine ⟨_, _, passes_toNotify hslot hsame hd, .inr ?_, sparing_notify d⟩
            rw [written_other hslot hsame]
  · have hwritten : w.written id key value = w := by
      simp [World.written, World.onGraph, Graph.fill, Graph.store, hslot]
    refine ⟨w, _, .bind_nil (.ask _) ?_, .inl hwritten.symm, .done ()⟩
    rw [hslot]
    exact .here _

theorem content_setProperty (hw : w.OnlyAsks) (hreadOnly : ReadOnly ⟨w, setProperty id key value⟩)
    (h : Reaches ⟨w, setProperty id key value⟩ ⟨w', .done ()⟩) (c : Cell) :
    w'.graph.content c = (w.written id key value).graph.content c := by
  obtain ⟨u, q, hpasses, hu, hq⟩ := setProperty_fills w id key value
  have hfilled : ∀ c, u.graph.content c = (w.written id key value).graph.content c := by
    rcases hu with rfl | rfl
    · exact fun _ => rfl
    · exact (Graph.observed_observe _ value).content
  have hafter := hq.passive.content ((hw.written id key value).of_content hfilled)
    (Along.of_reaches hreadOnly hpasses.reaches) () w' (Reaches.through hpasses h rfl)
  exact (hafter c).trans (hfilled c)

theorem ComesBack.setProperty (h : ComesBack ⟨w, setProperty id key value⟩) :
    (DataBinding.setProperty id key value).Returns w fun _ _ => True := by
  obtain ⟨u, q, hpasses, -, hq⟩ := setProperty_fills w id key value
  obtain ⟨a, w', hrun, -⟩ := hq.returns (Along.of_reaches h hpasses.reaches)
  exact ⟨a, w', hpasses.reaches.trans hrun, trivial⟩

end Write

/-! ## Reading what was written -/

namespace World

/-- At most one cell has another content than before, the value that was
written. -/
structure WritesAt (w : World) (c : Cell) (value : Value) (w' : World) : Prop where
  elsewhere : ∀ c', c' ≠ c → w'.graph.content c' = w.graph.content c'
  there : w'.graph.content c = w.graph.content c ∨ w'.graph.content c = some (.inl value)

/-- Resolving a path gives a value, up to equality. -/
def ReadsAs (w : World) (path : Path) (root : ObjectId) (value : Value) : Prop :=
  (∃ u, w.ResolvesTo path root u) ∧ ∀ u, w.ResolvesTo path root u → u.Agrees value

/-- An assignment changes nothing, tells nobody, and answers `false`. -/
def Refuses (w : World) (path : Path) (root : ObjectId) (value : Value) : Prop :=
  ∃ calls, Silent calls ∧ Passes ⟨w, path.assign root value⟩ calls ⟨w, .done false⟩

variable {path : Path} {root : ObjectId} {u v value : Value} {cells : List Cell}

theorem ResolvesTo.unique (h : w.ResolvesTo path root u) (h' : w.ResolvesTo path root v) :
    u = v := by
  obtain ⟨last, hrun⟩ := h
  obtain ⟨last', hrun'⟩ := h'
  obtain ⟨calls, hpasses⟩ := hrun'.passes
  exact (Reaches.result hpasses hrun).2

/-- Filling a property that is not computed writes there. -/
theorem WritesAt.of_fill {id : ObjectId} {key : String}
    (h : ∀ c, w'.graph.content c = (w.written id key value).graph.content c) :
    w.WritesAt (id, key) value w' where
  elsewhere c hc := by
    rw [h, World.written, onGraph, Graph.content_fill, if_neg fun heq => hc heq.1]
  there := by
    rw [h, World.written, onGraph, Graph.content_fill]
    split
    · exact (Graph.filled_or value _).imp_right (congrArg some)
    · exact .inl rfl

end World

/-- A walk may go one key further. -/
theorem Graph.Gives.walk_append {g : Graph} {o : ObjectId} {last : String} {u : Value}
    {cells' : List Cell} (hlast : g.Gives (.property o last) u cells') :
    ∀ {keys : List String} {v : Value} {cells : List Cell},
      g.Gives (.walk v keys) (.object o) cells →
        g.Gives (.walk v (keys ++ [last])) u (cells ++ cells')
  | [], _, _, h => by
      cases h
      have hstep : g.Gives (.walk (.object o) [last]) u (cells' ++ []) := .step hlast .stop
      rwa [List.append_nil] at hstep
  | _ :: _, _, _, h => by
      cases h with
      | step hproperty hwalk =>
          rw [List.append_assoc]
          exact .step hproperty (hlast.walk_append hwalk)

namespace World

variable {path : Path} {root o : ObjectId} {v value : Value} {cells : List Cell} {answer : Bool}

/-- A path whose keys before the last lead to an object reads as what that
object holds under the last. -/
theorem ReadsAs.of_held {u : Value} (hpath : path.segments = path.parent.segments ++ [path.last])
    (hparent : w.graph.Gives (.walk (.object root) path.parent.segments) (.object o) cells)
    (hheld : w.graph.content (o, path.last) = some (.inl u)) (hu : u.Agrees value) :
    w.ReadsAs path root value := by
  have hgives := (Graph.Gives.data hheld).walk_append hparent
  rw [← hpath] at hgives
  obtain ⟨calls, hpasses⟩ := hgives.passes none fun _ => rfl
  have hresolves : w.ResolvesTo path root u := ⟨_, hpasses.reaches⟩
  exact ⟨⟨u, hresolves⟩, fun u' hu' => hu'.unique hresolves ▸ hu⟩

/-! ## Assigning -/

section Assigning

variable (hpath : path.segments = path.parent.segments ++ [path.last])

include hpath

/-- An assignment first comes to what the keys before the last lead to. -/
theorem passes_assign
    (h : w.graph.Gives (.walk (.object root) path.parent.segments) v cells) (value : Value) :
    ∃ calls, Silent calls ∧
      Passes ⟨w, path.assign root value⟩ calls ⟨w, assignTo v path.last value⟩ := by
  obtain ⟨calls, hsilent, hpasses⟩ := h.passes_silent none (w := w) fun _ => rfl
  rw [Path.assign_eq hpath]
  exact ⟨calls ++ [], hsilent.append .nil, .bind hpasses (.here _)⟩

theorem refuses (hw : w.OnlyAsks) (hparent : w.ResolvesTo path.parent root v)
    (hv : v.object? = none) : w.Refuses path root value := by
  obtain ⟨cells, hgives⟩ := (resolvesTo_iff hw).1 hparent
  obtain ⟨calls, hsilent, hpasses⟩ := passes_assign hpath hgives value
  rw [assignTo, hv] at hpasses
  exact ⟨calls, hsilent, hpasses⟩

theorem assigns (hw : w.OnlyAsks) (hparent : w.ResolvesTo path.parent root (.object o))
    (hback : ComesBack ⟨w, path.assign root value⟩) :
    ∃ w', Reaches ⟨w, path.assign root value⟩ ⟨w', .done true⟩ := by
  obtain ⟨cells, hgives⟩ := (resolvesTo_iff hw).1 hparent
  obtain ⟨calls, -, hpasses⟩ := passes_assign hpath hgives value
  have hset : ComesBack ⟨w, setProperty o path.last value⟩ :=
    Along.left (Along.of_reaches hback hpasses.reaches)
  obtain ⟨⟨⟩, w', hrun, -⟩ := hset.setProperty
  exact ⟨w', hpasses.reaches.trans (hrun.bind_left _)⟩

/-- An assignment that has answered was refused, as it found no object, or
has filled a property of the one that it found. -/
theorem assign_cases (hw : w.OnlyAsks)
    (h : Reaches ⟨w, path.assign root value⟩ ⟨w', .done answer⟩) :
    (∃ v, w.ResolvesTo path.parent root v ∧ v.object? = none ∧ answer = false ∧ w' = w) ∨
      ∃ o, w.ResolvesTo path.parent root (.object o) ∧ answer = true ∧
        (ReadOnly ⟨w, path.assign root value⟩ → ∀ c,
          w'.graph.content c = (w.written o path.last value).graph.content c) := by
  have hfirst := h
  rw [Path.assign_eq hpath] at hfirst
  obtain ⟨v, last, hparent, -⟩ := Reaches.of_bind hfirst
  obtain ⟨cells, hgives⟩ := (resolvesTo_iff hw).1 ⟨last, hparent⟩
  obtain ⟨calls, -, hpasses⟩ := passes_assign hpath hgives value
  have hrest := Reaches.through hpasses h rfl
  cases v with
  | object o =>
      obtain ⟨⟨⟩, u, hset, hanswer⟩ := Reaches.of_bind hrest
      obtain ⟨rfl, rfl⟩ := Reaches.done_inj hanswer
      refine .inr ⟨o, ⟨last, hparent⟩, rfl, fun hreadOnly => ?_⟩
      exact content_setProperty hw (Along.left (Along.of_reaches hreadOnly hpasses.reaches)) hset
  | _ =>
      obtain ⟨rfl, rfl⟩ := Reaches.done_inj hrest
      exact .inl ⟨_, ⟨last, hparent⟩, rfl, rfl, rfl⟩

/-- A property that is not computed, of an object that is there, is read
back where the way to it was not through itself. -/
theorem ReadsAs.of_written
    (hparent : w.graph.Gives (.walk (.object root) path.parent.segments) (.object o) cells)
    (hw' : ∀ c, w'.graph.content c = (w.written o path.last value).graph.content c)
    (ho : o < w.graph.objects.length) (hway : (o, path.last) ∉ cells)
    (hdata : ∀ accessor, w.graph.content (o, path.last) ≠ some (.inr accessor)) :
    w'.ReadsAs path root value := by
  obtain ⟨u, hfilled, hu⟩ := Graph.filled_agrees hdata
  refine .of_held hpath (hparent.congr fun c hc => ?_) ?_ hu
  · exact (WritesAt.of_fill hw').elsewhere c fun heq => hway (heq ▸ hc)
  · rw [hw', World.written, onGraph, Graph.content_fill, if_pos ⟨rfl, ho⟩, hfilled]

end Assigning

end World

/-- Where accessors only ask their scopes, writes and reads agree on paths.
An assignment is refused if the keys before the last resolve to no object,
and otherwise succeeds as soon as client code comes back. Where subscribers
do not write, it then changes at most the last key of that object; and
unless this is computed, or was looked at on the way, the path resolves to
the written value. -/
theorem assign_agrees_with_resolve {w : World} (hasks : w.OnlyAsks) (source : String)
    (root : ObjectId) (value : Value) :
    let path := Path.parse source
    (∀ v, w.ResolvesTo path.parent root v → v.object? = none → w.Refuses path root value) ∧
    (∀ o, w.ResolvesTo path.parent root (.object o) → ComesBack ⟨w, path.assign root value⟩ →
      ∃ w', Reaches ⟨w, path.assign root value⟩ ⟨w', .done true⟩) ∧
    ∀ answer w', Reaches ⟨w, path.assign root value⟩ ⟨w', .done answer⟩ →
      (answer = true ↔ ∃ o, w.ResolvesTo path.parent root (.object o)) ∧
      (answer = false → w' = w ∧ w.Refuses path root value) ∧
      ∀ o, w.ResolvesTo path.parent root (.object o) →
        ReadOnly ⟨w, path.assign root value⟩ →
        w.WritesAt (o, path.last) value w' ∧
        ∀ cells, w.graph.Gives (.walk (.object root) path.parent.segments) (.object o) cells →
          o < w.graph.objects.length → (o, path.last) ∉ cells →
          (∀ accessor, w.graph.content (o, path.last) ≠ some (.inr accessor)) →
          w'.ReadsAs path root value := by
  intro path
  have hpath : path.segments = path.parent.segments ++ [path.last] := Path.segments_parse source
  refine ⟨fun v => refuses hpath hasks, fun o => assigns hpath hasks, fun answer w' hrun => ?_⟩
  rcases assign_cases hpath hasks hrun with ⟨v, hv, hnone, rfl, rfl⟩ | ⟨o, ho, rfl, hcontent⟩
  · have hnever : ∀ o, ¬ w'.ResolvesTo path.parent root (.object o) := by
      intro o ho
      cases hv.unique ho
      cases hnone
    exact ⟨⟨nofun, fun ⟨o, ho⟩ => absurd ho (hnever o)⟩,
      fun _ => ⟨rfl, refuses hpath hasks hv hnone⟩, fun o ho => absurd ho (hnever o)⟩
  · refine ⟨⟨fun _ => ⟨o, ho⟩, fun _ => rfl⟩, nofun, fun o' ho' hreadOnly => ?_⟩
    cases ho.unique ho'
    have hwritten := hcontent hreadOnly
    exact ⟨.of_fill hwritten, fun cells hgives => .of_written hpath hgives hwritten⟩

/-- A watcher of an accessor that reads what another object holds. -/
def labelledWorld : World :=
  { World.start with
    graph := ⟨[⟨[("user", .data ⟨.object 1, some 0⟩), ("label", .computed (.get "user.name"))]⟩,
      ⟨[("name", .data ⟨.string "Ada", some 1⟩)]⟩], [[.watcher 0], [.watcher 0]]⟩
    evaluations := [⟨.watcher 0, [], [0, 1], false, 1⟩]
    watchers := [⟨0, Path.parse "label", .client "w" [], .string "Ada", [0, 1], false, 1⟩] }

theorem labelledWorld_onlyGets : labelledWorld.OnlyGets := by
  intro id key accessor hslot
  match id, hslot with
  | 0, hslot =>
      have hmem := Graph.mem_of_findEntry hslot
      simp only [labelledWorld, Graph.slots, List.getD_cons_zero, List.mem_cons, Prod.mk.injEq,
        reduceCtorEq, and_false, Slot.computed.injEq, List.not_mem_nil, or_false, false_or] at hmem
      exact hmem.2 ▸ .get _
  | 1, hslot =>
      have hmem := Graph.mem_of_findEntry hslot
      simp [labelledWorld, Graph.slots] at hmem
  | _ + 2, hslot => cases hslot

/-- The write goes through an object that the watched accessor reads too,
and its callback is called on the way. Behind a string nothing is written. -/
theorem assign_agrees_with_resolve_of_labelled :
    labelledWorld.OnlyGets ∧
    (∃ w', Reaches ⟨labelledWorld, (Path.parse "user.name").assign 0 (.string "Eve")⟩
        ⟨w', .done true⟩ ∧
      labelledWorld.WritesAt (1, "name") (.string "Eve") w' ∧
      w'.ReadsAs (Path.parse "user.name") 0 (.string "Eve")) ∧
    labelledWorld.Refuses (Path.parse "user.name.first") 0 (.string "Eve") := by
  let c : Config Bool := ⟨labelledWorld, (Path.parse "user.name").assign 0 (.string "Eve")⟩
  have hasks : labelledWorld.OnlyAsks := labelledWorld_onlyGets.onlyAsks
  have hparent : labelledWorld.graph.Gives
      (.walk (.object 0) (Path.parse "user.name").parent.segments) (.object 1) [(0, "user")] :=
    .step (.data rfl) .stop
  have hresolves : labelledWorld.ResolvesTo (Path.parse "user.name").parent 0 (.object 1) :=
    (resolvesTo_iff hasks).2 ⟨_, hparent⟩
  have hstring : labelledWorld.ResolvesTo (Path.parse "user.name.first").parent 0
      (.string "Ada") :=
    (resolvesTo_iff hasks).2 ⟨_, .step (.data rfl) (.step (.data rfl) .stop)⟩
  have hback : ComesBack c := .of_run 60 (by decide +kernel) (by decide +kernel)
  have hreadOnly : ReadOnly c := .of_run 60 (by decide +kernel) (by decide +kernel)
  obtain ⟨-, hassigns, hall⟩ :=
    assign_agrees_with_resolve hasks "user.name" 0 (.string "Eve")
  obtain ⟨w', hrun⟩ := hassigns 1 hresolves hback
  obtain ⟨hwrites, hreads⟩ := (hall _ _ hrun).2.2 1 hresolves hreadOnly
  refine ⟨labelledWorld_onlyGets, ⟨w', hrun, hwrites, ?_⟩, ?_⟩
  · exact hreads _ hparent (by decide) (by decide) (by rintro accessor ⟨⟩)
  · have hbehind := assign_agrees_with_resolve hasks "user.name.first" 0 (.string "Eve")
    exact hbehind.1 _ hstring rfl

/-- A write of what the path went through: afterwards it leads nowhere. -/
example :
    let w := { World.start with graph := ⟨[⟨[("self", .data ⟨.object 0, none⟩)]⟩], []⟩ }
    let last := (⟨w, (Path.parse "self.self").assign 0 (.bool true)⟩ : Config Bool).advance 20
    let read : Config Value := ⟨last.world, (Path.parse "self.self").resolve 0 none⟩
    last.returned? = some true ∧ (read.advance 20).returned? = some .undefined := by
  decide +kernel

end DataBinding
