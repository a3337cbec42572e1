import DataBinding.Proofs.Notification.Resolves

/-!
# Where a path lands

A path that leads through data properties to a data property: it yields
what is there, and assigning to it writes there. A text that is written
there is what the path yields afterwards, unless the path went through
the property that was written (`Lands.store`).
-/

namespace DataBinding

/-- A path leads through data properties to a data property. -/
def Graph.Lands (g : Graph) : (from_ : ObjectId) → (keys : List String) → Cell → Prop
  | _, [], _ => False
  | i, [key], c => c = (i, key) ∧ ∃ v, g.content (i, key) = some (.inl v)
  | i, key :: next :: keys, c =>
    ∃ j, g.content (i, key) = some (.inl (.object j)) ∧ g.Lands j (next :: keys) c

namespace Graph.Lands

variable {g : Graph} {i : ObjectId} {c : Cell} {v : Value}

/-- The path yields what is at its end. -/
theorem yields : ∀ {keys : List String} {i : ObjectId}, g.Lands i keys c →
    g.content c = some (.inl v) → ∃ cells, g.Yields (.walk (.object i) keys) [v] cells
  | [_], _, h, hv => by
      obtain ⟨rfl, -⟩ := h
      exact ⟨_, .step (.data hv) .stop⟩
  | _ :: _ :: _, _, h, hv => by
      obtain ⟨j, hj, hrest⟩ := h
      obtain ⟨cells, hcells⟩ := hrest.yields hv
      exact ⟨_, .step (.data hj) hcells⟩

/-- There is a data property. -/
theorem slot? : ∀ {keys : List String} {i : ObjectId}, g.Lands i keys c →
    ∃ property, g.slot? c.1 c.2 = some (.data property)
  | [_], _, h => by
      obtain ⟨rfl, v, hv⟩ := h
      obtain ⟨property, hslot, -⟩ := slot?_of_content hv
      exact ⟨property, hslot⟩
  | _ :: _ :: _, _, h => by
      obtain ⟨j, -, hrest⟩ := h
      exact hrest.slot?

/-- It does so where nothing reachable has changed. -/
theorem congr {g' : Graph} {among : ObjectId → Prop}
    (hkept : ∀ j, g.Leads among j → ∀ key, g'.content (j, key) = g.content (j, key)) :
    ∀ {keys : List String} {i : ObjectId}, g.Lands i keys c → g.Leads among i → g'.Lands i keys c
  | [_], _, h, hi => by
      obtain ⟨rfl, v, hv⟩ := h
      exact ⟨rfl, v, (hkept _ hi _).trans hv⟩
  | _ :: _ :: _, _, h, hi => by
      obtain ⟨j, hj, hrest⟩ := h
      exact ⟨j, (hkept _ hi _).trans hj, hrest.congr hkept (hi.step hj)⟩

/-- Walking to the last key of the path ends there. -/
theorem passes {w : World} : ∀ {keys : List String} {i : ObjectId}, w.graph.Lands i keys c →
    Passes ⟨w, walkToLast i keys⟩ [] ⟨w, .done (some c)⟩
  | [_], _, h => by
      obtain ⟨rfl, -⟩ := h
      exact .here _
  | key :: _ :: _, i, h => by
      obtain ⟨j, hj, hrest⟩ := h
      obtain ⟨property, hslot, hvalue⟩ := slot?_of_content hj
      have hread : Passes ⟨w, readProperty i key none⟩ [] ⟨w, .done (.object j)⟩ := by
        refine .bind_nil (.ask _) ?_
        rw [hslot, ← hvalue]
        exact .here _
      exact .bind_nil hread hrest.passes

/-- After a text is written there, the path yields the text; or nothing,
if it went through the property itself. -/
theorem store {property : Property} (content : String)
    (hslot : g.slot? c.1 c.2 = some (.data property)) :
    ∀ {keys : List String} {i : ObjectId}, g.Lands i keys c →
      ∃ u cells, (g.store c.1 c.2 (.string content)).Yields (.walk (.object i) keys) [u] cells ∧
        (u = .string content ∨ u = .undefined ∧ ∃ j, property.value = .object j) := by
  have hwritten : (g.store c.1 c.2 (.string content)).content c =
      some (.inl (.string content)) := by
    rw [Graph.content, slot?_store_data hslot, if_pos ⟨rfl, rfl⟩]
    rfl
  intro keys
  induction keys with
  | nil => exact fun h => h.elim
  | cons key keys ih =>
      intro i h
      cases keys with
      | nil =>
          obtain ⟨rfl, -⟩ := h
          exact ⟨_, _, .step (.data hwritten) .stop, .inl rfl⟩
      | cons next keys =>
          obtain ⟨j, hj, hrest⟩ := h
          by_cases hsame : (i, key) = c
          · have hcell : (g.store c.1 c.2 (.string content)).content (i, key) =
                some (.inl (.string content)) := by
              rw [hsame]
              exact hwritten
            refine ⟨_, _, .step (.data hcell) (.leave rfl), .inr ⟨rfl, j, ?_⟩⟩
            rw [hsame] at hj
            obtain ⟨found, hfound, hvalue⟩ := slot?_of_content hj
            cases hslot.symm.trans hfound
            exact hvalue
          · obtain ⟨u, cells, hcells, hu⟩ := ih hrest
            refine ⟨u, _, .step (.data ?_) hcells, hu⟩
            rw [← hj, Graph.content, Graph.content, slot?_store_data hslot, if_neg]
            exact fun hboth => hsame (Prod.ext hboth.1 hboth.2)

end Graph.Lands

end DataBinding
