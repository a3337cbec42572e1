import DataBinding.Proofs.Notification.Resolves
import DataBinding.Proofs.Resolution.Asking
import DataBinding.Proofs.Run.Returning

/-!
# What a template renders to

`Renders` is about the object graph, as `Yields` is: the text of some
segments, when every placeholder shows what its path yields. Rendering
without tracking comes to it and leaves the state alone. The text does
not depend on which of several values that agree a path yields
(`Renders.agree`).
-/

namespace DataBinding

/-! ## The text of values that agree -/

theorem Number.text_of_zero {n : Number} (h : n.isZero = true) : n.text = "0" := by
  have hinfinite : n.isInfinite = false := by
    simp only [isZero, Bool.and_eq_true, decide_eq_true_eq] at h
    simp [isInfinite, h.1]
  simp [text, isNaN_of_isZero h, hinfinite, h]

theorem Number.text_of_same {a b : Number} (h : a.same b = true) : a.text = b.text := by
  rcases same_iff_eq_or_zeros.1 h with ⟨rfl, -⟩ | ⟨ha, hb⟩
  · rfl
  · rw [text_of_zero ha, text_of_zero hb]

/-- Values that agree are shown alike. -/
theorem Value.Agrees.text {v u : Value} (h : v.Agrees u) : v.text = u.text := by
  rcases h with hsame | ⟨hv, hu⟩
  · rcases eq_or_numbers hsame with rfl | ⟨n, m, rfl, rfl, hnumbers⟩
    · rfl
    · exact Number.text_of_same hnumbers
  · have hnumber : ∀ {v : Value}, v.isNaN = true → v.text = "NaN" := by
      intro v hv
      cases v with
      | number n =>
          have hnan : n.isNaN = true := hv
          simp [Value.text, Number.text, hnan]
      | _ => cases hv
    rw [hnumber hv, hnumber hu]

namespace Graph

variable {g g' : Graph} {data : ObjectId}

/-- The text of some segments of a template on an object. -/
def Renders (g : Graph) (data : ObjectId) : List Segment → String → Prop
  | [], content => content = ""
  | .literal text :: segments, content =>
    ∃ rest, g.Renders data segments rest ∧ content = text ++ rest
  | .placeholder path :: segments, content =>
    ∃ v cells rest, g.Yields (.walk (.object data) path.segments) [v] cells ∧
      g.Renders data segments rest ∧ content = v.text ++ rest

/-- Another state of the graph in which the placeholders show the same. -/
theorem Renders.agree : ∀ {segments : List Segment} {content : String},
    g.Renders data segments content →
    (∀ path, .placeholder path ∈ segments → ∀ v cells,
      g.Yields (.walk (.object data) path.segments) [v] cells →
      ∃ u cells', g'.Yields (.walk (.object data) path.segments) [u] cells' ∧ u.text = v.text) →
    g'.Renders data segments content
  | [], _, h, _ => h
  | .literal text :: segments, _, h, hagree => by
      obtain ⟨rest, hrest, rfl⟩ := h
      exact ⟨rest, hrest.agree fun path hpath => hagree path (List.mem_cons_of_mem _ hpath), rfl⟩
  | .placeholder path :: segments, _, h, hagree => by
      obtain ⟨v, cells, rest, hv, hrest, rfl⟩ := h
      obtain ⟨u, cells', hu, htext⟩ := hagree path List.mem_cons_self v cells hv
      exact ⟨u, cells', rest, hu,
        hrest.agree fun path hpath => hagree path (List.mem_cons_of_mem _ hpath), by rw [htext]⟩

end Graph

/-! ## Rendering -/

namespace World

variable {w w' : World}

theorem Pure.onlyGets (hw : w.Pure) : w.OnlyGets :=
  fun id key accessor hslot => (hw id key accessor hslot).gets

theorem Pure.onlyAsks (hw : w.Pure) : w.OnlyAsks :=
  hw.onlyGets.onlyAsks

theorem Pure.of_objects (hw : w.Pure) (h : w'.graph.objects = w.graph.objects) : w'.Pure :=
  fun id key accessor hslot => hw id key accessor ((slot?_eq h id key) ▸ hslot)

/-- Resolving a path does nothing but track what it looks at. Accessors
that are functions of what they read yield the value. -/
theorem reaches_resolve {path : Path} {root : ObjectId} {tracker : Option EvaluationId}
    {v : Value} (hw : w.OnlyAsks)
    (h : Reaches ⟨w, path.resolve root tracker⟩ ⟨w', .done v⟩) :
    ∃ cells, w' = w.trackCells tracker cells ∧
      (w.Pure → w.graph.Yields (.walk (.object root) path.segments) [v] cells) := by
  by_cases hpure : w.Pure
  · have hsafe : (path.resolve root tracker).Safe readings _ w :=
      reads_readings.resolve hpure path root
    obtain ⟨-, cells, hyields, hworld⟩ := hsafe.run met_readings (Monitor.plain_run h)
    exact ⟨cells, hworld, fun _ => hyields⟩
  · obtain ⟨cells, -, hworld⟩ := given_of_reaches hw h
    exact ⟨cells, hworld, fun h => absurd h hpure⟩

theorem reaches_renderSegments {root : ObjectId} (hw : w.OnlyAsks) :
    ∀ {segments : List Segment} {content : String} {w' : World},
      Reaches ⟨w, renderSegments root none segments⟩ ⟨w', .done content⟩ →
      w' = w ∧ (w.Pure → w.graph.Renders root segments content)
  | [], _, _, h => (Reaches.done_inj h).imp_right fun hnone _ => hnone
  | .literal text :: segments, _, _, h => by
      obtain ⟨rest, u, hrest, hdone⟩ := h.of_bind
      obtain ⟨rfl, hrenders⟩ := reaches_renderSegments hw hrest
      obtain ⟨rfl, rfl⟩ := Reaches.done_inj hdone
      exact ⟨rfl, fun hpure => ⟨rest, hrenders hpure, rfl⟩⟩
  | .placeholder path :: segments, _, _, h => by
      obtain ⟨v, u, hv, hlater⟩ := h.of_bind
      obtain ⟨cells, hsame, hyields⟩ := reaches_resolve hw hv
      rw [show u = w from hsame] at hlater
      obtain ⟨rest, u, hrest, hdone⟩ := hlater.of_bind
      obtain ⟨rfl, hrenders⟩ := reaches_renderSegments hw hrest
      obtain ⟨rfl, rfl⟩ := Reaches.done_inj hdone
      exact ⟨rfl, fun hpure => ⟨v, cells, rest, hyields hpure, hrenders hpure, rfl⟩⟩

/-- A template comes to the text that it renders to. -/
theorem passes_renderSegments {root : ObjectId} : ∀ {segments : List Segment} {content : String},
    w.graph.Renders root segments content →
    ∃ calls, Silent calls ∧
      Passes ⟨w, renderSegments root none segments⟩ calls ⟨w, .done content⟩
  | [], _, h => ⟨[], .nil, h ▸ .here _⟩
  | .literal text :: segments, _, h => by
      obtain ⟨rest, hrest, rfl⟩ := h
      exact silently_bind (passes_renderSegments hrest) (silently_done _ _)
  | .placeholder path :: segments, _, h => by
      obtain ⟨v, cells, rest, hv, hrest, rfl⟩ := h
      obtain ⟨u, hu, hresolves⟩ := hv.comes none fun _ => rfl
      cases hu
      exact silently_bind hresolves
        (silently_bind (passes_renderSegments hrest) (silently_done _ _))

end World

end DataBinding
