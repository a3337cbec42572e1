import DataBinding.Proofs.Store.Reachability

/-!
# On what a value is grounded

A value is grounded on some dependencies when a query yields it and every
data property looked at on the way has its dependency among them. As long
as nothing of that changes, the value stays what the query yields: a
write to a property with another dependency, to an object that the query
does not come to, or an observation leaves it grounded.
-/

namespace DataBinding

/-! ## Agreement -/

/-- The one value that does not equal itself. -/
def Value.isNaN : Value → Bool
  | .number n => n.isNaN
  | _ => false

/-- Equal, or both not a number. -/
def Value.Agrees (v u : Value) : Prop :=
  v.same u = true ∨ v.isNaN = true ∧ u.isNaN = true

theorem Value.same_self (v : Value) : v.same v = !v.isNaN := by
  cases v with
  | number n => exact n.same_self
  | bool b => simp [same, isNaN]
  | string s => simp [same, isNaN]
  | object id => simp [same, isNaN]
  | _ => rfl

theorem Value.Agrees.refl (v : Value) : v.Agrees v := by
  cases h : v.isNaN with
  | false => exact .inl (by rw [same_self, h]; rfl)
  | true => exact .inr ⟨h, h⟩

/-- Without a NaN, values that agree are equal. -/
theorem Value.Agrees.same {v u : Value} (h : v.Agrees u) (hu : u.isNaN = false) :
    v.same u = true :=
  h.resolve_right fun hnan => by rw [hu] at hnan; simp at hnan

namespace Graph

variable {g g' : Graph} {q : Query} {ds : List DependencyId} {v : Value}

/-! ## Cells that are backed -/

/-- If the cell is a data property, its dependency is listed. -/
def Backed (g : Graph) (ds : List DependencyId) (c : Cell) : Prop :=
  ∀ v, g.content c = some (.inl v) → ∃ d ∈ ds, g.dependency? c.1 c.2 = some d

/-- The same is in a cell, and its dependency, if it has one, has stayed. -/
def Stays (g g' : Graph) (c : Cell) : Prop :=
  g'.content c = g.content c ∧
    ∀ d, g.dependency? c.1 c.2 = some d → g'.dependency? c.1 c.2 = some d

theorem Stays.backed {c : Cell} (h : Stays g g' c) (hc : g.Backed ds c) : g'.Backed ds c := by
  intro v hv
  obtain ⟨d, hd, hdependency⟩ := hc v (h.1 ▸ hv)
  exact ⟨d, hd, h.2 d hdependency⟩

theorem Stays.of_slot? {c : Cell} (h : g'.slot? c.1 c.2 = g.slot? c.1 c.2) : Stays g g' c := by
  refine ⟨by rw [content, content, h], fun d hd => ?_⟩
  rwa [dependency?, h]

/-! ## Values that are grounded -/

/-- A query yields a value, and the dependencies of the data properties
looked at for it are listed. -/
def Grounded (g : Graph) (q : Query) (ds : List DependencyId) (v : Value) : Prop :=
  ∃ cells, g.Yields q [v] cells ∧ ∀ c ∈ cells, g.Backed ds c

namespace Grounded

theorem unique {u : Value} {ds' : List DependencyId} (h : g.Grounded q ds v)
    (h' : g.Grounded q ds' u) : v = u := by
  obtain ⟨cells, hv, -⟩ := h
  obtain ⟨cells', hu, -⟩ := h'
  exact List.singleton_inj.1 (hv.unique hu).1

/-- A value stays grounded if the cells do in which it may be grounded:
those that are backed and belong to the objects that the query stays
among. -/
theorem frame {among : ObjectId → Prop} (h : g.Grounded q ds v) (hclosed : g.Closed among)
    (hq : Query.begins among q)
    (hstays : ∀ c, among c.1 → g.Backed ds c → Stays g g' c) : g'.Grounded q ds v := by
  obtain ⟨cells, hyields, hbacked⟩ := h
  have hcell : ∀ c ∈ cells, Stays g g' c := fun c hc =>
    hstays c ((hyields.within hclosed hq).1 c hc) (hbacked c hc)
  exact ⟨cells, hyields.congr fun c hc => (hcell c hc).1,
    fun c hc => (hcell c hc).backed (hbacked c hc)⟩

theorem of_stays (h : g.Grounded q ds v) (hstays : ∀ c, g.Backed ds c → Stays g g' c) :
    g'.Grounded q ds v := by
  obtain ⟨cells, hyields, hbacked⟩ := h
  exact ⟨cells, hyields.congr fun c hc => (hstays c (hbacked c hc)).1,
    fun c hc => (hstays c (hbacked c hc)).backed (hbacked c hc)⟩

theorem of_objects (h : g.Grounded q ds v) (hobjects : g'.objects = g.objects) :
    g'.Grounded q ds v :=
  h.of_stays fun c _ => .of_slot? (by rw [slot?, slot?, slots, slots, hobjects])

/-- Observing leaves a value grounded. -/
theorem observed (h : g.Grounded q ds v) (hobserved : Observed g g') : g'.Grounded q ds v := by
  refine h.of_stays fun c _ => ⟨hobserved.content c, fun d hd => ?_⟩
  obtain ⟨value, hslot⟩ := dependency?_eq_some.1 hd
  rw [dependency?, hobserved.slot?_eq (by simp [hslot]), ← dependency?]
  exact hd

/-- Writing a data property that the value is not grounded on. -/
theorem store (h : g.Grounded q ds v) {id : ObjectId} {key : String} {property : Property}
    (hslot : g.slot? id key = some (.data property))
    (hother : ∀ d ∈ ds, property.dependency ≠ some d) (value : Value) :
    (g.store id key value).Grounded q ds v := by
  refine h.of_stays fun c hbacked => .of_slot? ?_
  rw [slot?_store_data hslot, if_neg]
  rintro ⟨hid, hkey⟩
  obtain ⟨other, otherKey⟩ := c
  obtain rfl : other = id := hid
  obtain rfl : otherKey = key := hkey
  obtain ⟨d, hd, hdependency⟩ := hbacked property.value (by simp [content, hslot])
  exact hother d hd (by simpa [dependency?, hslot] using hdependency)

end Grounded

end Graph

end DataBinding
