import DataBinding.Proofs.Client.Ticks
import DataBinding.Proofs.Store.Search

/-!
# Observing is a closure

Observing a value makes reactive what the value leads to, and leaves all
else alone. A dependency that is there stays, and a new one belongs to one
property and has no subscribers (`Numbered`). As the objects that were found
have nothing left to be made reactive, observing twice is observing once.
The headline theorem `observe_is_closure` puts this together.

It is about objects that have each key once (`Distinct`), as all objects
have that scripts make (`Reachable.distinct`).
-/

namespace DataBinding

namespace Graph

variable {g g' g'' : Graph}

/-! ## What has dependencies is left alone -/

theorem plainCount_withDependencies (entries : List (String × Slot)) (next : DependencyId) :
    plainCount (withDependencies next entries) = 0 := by
  fun_induction withDependencies next entries with
  | case1 => rfl
  | case2 next key value entries ih =>
      rw [plainCount, List.countP_cons_of_neg (by simp)]
      exact ih
  | case3 next entry entries hplain ih =>
      rw [plainCount, List.countP_cons_of_neg]
      · exact ih
      · obtain ⟨key, ⟨value, _ | d⟩ | accessor⟩ := entry
        · exact (hplain key value rfl).elim
        · simp
        · simp

theorem withDependencies_eq_self {entries : List (String × Slot)} (next : DependencyId)
    (h : plainCount entries = 0) : withDependencies next entries = entries := by
  fun_induction withDependencies next entries with
  | case1 => rfl
  | case2 next key value entries ih => simp [plainCount] at h
  | case3 next entry entries hplain ih =>
      rw [ih]
      rw [plainCount, List.countP_cons] at h
      exact (Nat.add_eq_zero_iff.1 h).1

theorem keys_withDependencies (next : DependencyId) (entries : List (String × Slot)) :
    (withDependencies next entries).map (·.1) = entries.map (·.1) := by
  fun_induction withDependencies next entries with
  | case1 => rfl
  | case2 next key value entries ih => rw [List.map_cons, List.map_cons, ih]
  | case3 next entry entries _ ih => rw [List.map_cons, List.map_cons, ih]

/-- The objects held are the same. -/
theorem held_withDependencies (next : DependencyId) (entries : List (String × Slot)) :
    ((withDependencies next entries).filterMap fun entry =>
      match entry.2 with
      | .data property => property.value.object?
      | .computed _ => none) =
    entries.filterMap fun entry =>
      match entry.2 with
      | .data property => property.value.object?
      | .computed _ => none := by
  fun_induction withDependencies next entries with
  | case1 => rfl
  | case2 next key value entries ih => rw [List.filterMap_cons, List.filterMap_cons, ih]
  | case3 next entry entries _ ih => rw [List.filterMap_cons, List.filterMap_cons, ih]

theorem slots_makeReactive_ite (g : Graph) (id other : ObjectId) :
    (g.makeReactive id).slots other =
      if other = id then ⟨withDependencies g.nextDependency (g.slots id).entries⟩
      else g.slots other := by
  split
  · rename_i heq
    subst heq
    by_cases hid : other < g.objects.length
    · exact slots_makeReactive g hid
    · have hle := Nat.le_of_not_lt hid
      rw [slots_eq_empty hle, slots_eq_empty (by simpa [makeReactive] using hle)]
      rfl
  · rename_i hne
    simp [slots, makeReactive, List.getD_eq_getElem?_getD, Ne.symm hne]

theorem keys_makeReactive (g : Graph) (id other : ObjectId) :
    (g.makeReactive id).keys other = g.keys other := by
  rw [keys, slots_makeReactive_ite]
  split
  · rename_i heq
    rw [heq]
    exact keys_withDependencies _ _
  · rfl

theorem neighbours_makeReactive (g : Graph) (id other : ObjectId) :
    (g.makeReactive id).neighbours other = g.neighbours other := by
  rw [neighbours, slots_makeReactive_ite]
  split
  · rename_i heq
    rw [heq]
    exact held_withDependencies _ _
  · rfl

/-- An object all of whose data properties are reactive. -/
theorem makeReactive_eq_self {id : ObjectId} (h : plainCount (g.slots id).entries = 0) :
    g.makeReactive id = g := by
  have hobjects : g.objects.modify id (fun slots =>
      ⟨withDependencies g.nextDependency slots.entries⟩) = g.objects := by
    refine List.ext_getElem? fun other => ?_
    rw [List.getElem?_modify]
    split
    · rename_i heq
      subst heq
      cases hslots : g.objects[id]? with
      | none => rfl
      | some slots =>
          have hplain : plainCount slots.entries = 0 := by
            simpa [Graph.slots, List.getD_eq_getElem?_getD, hslots] using h
          simp [withDependencies_eq_self _ hplain]
    · exact id_map _
  rw [makeReactive, hobjects, h, List.replicate_zero, List.append_nil]

/-! ## Several objects -/

variable {ids : List ObjectId}

theorem keys_foldl_makeReactive (ids : List ObjectId) (g : Graph) (id : ObjectId) :
    (ids.foldl makeReactive g).keys id = g.keys id := by
  induction ids generalizing g with
  | nil => rfl
  | cons first ids ih => exact (ih _).trans (keys_makeReactive g first id)

theorem neighbours_foldl_makeReactive (ids : List ObjectId) (g : Graph) (id : ObjectId) :
    (ids.foldl makeReactive g).neighbours id = g.neighbours id := by
  induction ids generalizing g with
  | nil => rfl
  | cons first ids ih => exact (ih _).trans (neighbours_makeReactive g first id)

/-- The other objects are left alone. -/
theorem slots_foldl_makeReactive {id : ObjectId} (h : id ∉ ids) (g : Graph) :
    (ids.foldl makeReactive g).slots id = g.slots id := by
  induction ids generalizing g with
  | nil => rfl
  | cons first ids ih =>
      obtain ⟨hne, hrest⟩ := not_or.1 (mt List.mem_cons.2 h)
      rw [List.foldl_cons, ih hrest, slots_makeReactive_ite, if_neg hne]

theorem plainCount_makeReactive {id : ObjectId} (h : plainCount (g.slots id).entries = 0)
    (other : ObjectId) : plainCount ((g.makeReactive other).slots id).entries = 0 := by
  rw [slots_makeReactive_ite]
  split
  · exact plainCount_withDependencies _ _
  · exact h

theorem plainCount_foldl_makeReactive {id : ObjectId} (h : plainCount (g.slots id).entries = 0)
    (ids : List ObjectId) : plainCount ((ids.foldl makeReactive g).slots id).entries = 0 := by
  induction ids generalizing g with
  | nil => exact h
  | cons first ids ih => exact ih (plainCount_makeReactive h first)

theorem plainCount_of_mem {id : ObjectId} (h : id ∈ ids) (g : Graph) :
    plainCount ((ids.foldl makeReactive g).slots id).entries = 0 := by
  induction ids generalizing g with
  | nil => exact absurd h List.not_mem_nil
  | cons first ids ih =>
      rcases List.mem_cons.1 h with rfl | h
      · refine plainCount_foldl_makeReactive ?_ ids
        rw [slots_makeReactive_ite, if_pos rfl]
        exact plainCount_withDependencies _ _
      · exact ih h _

theorem foldl_makeReactive_eq_self (h : ∀ id ∈ ids, plainCount (g.slots id).entries = 0) :
    ids.foldl makeReactive g = g := by
  induction ids with
  | nil => rfl
  | cons first ids ih =>
      obtain ⟨hfirst, hrest⟩ := List.forall_mem_cons.1 h
      rw [List.foldl_cons, makeReactive_eq_self hfirst]
      exact ih hrest

/-- Objects that are not there make no difference. -/
theorem foldl_makeReactive_present (ids : List ObjectId) (g : Graph) :
    (g.present ids).foldl makeReactive g = ids.foldl makeReactive g := by
  induction ids generalizing g with
  | nil => rfl
  | cons first ids ih =>
      have hlength : (g.makeReactive first).present ids = g.present ids := by
        simp [present, makeReactive]
      rw [List.foldl_cons, ← ih, hlength]
      by_cases hfirst : first < g.objects.length
      · rw [present, List.filter_cons_of_pos (by simpa using hfirst)]
        rfl
      · have hself : g.makeReactive first = g :=
          makeReactive_eq_self (by rw [slots_eq_empty (Nat.le_of_not_lt hfirst)]; rfl)
        rw [present, List.filter_cons_of_neg (by simpa using hfirst), hself]
        rfl

theorem visit_congr (h : ∀ id, g'.neighbours id = g.neighbours id) (levels : Nat)
    (seen : List ObjectId) (id : ObjectId) : g'.visit levels seen id = g.visit levels seen id := by
  induction levels generalizing seen id with
  | zero => rfl
  | succ levels ih =>
      have hvisit : g'.visit levels = g.visit levels := funext fun seen => funext (ih seen)
      rw [visit, visit, h, hvisit]

theorem reachable_observe (g : Graph) (v : Value) : (g.observe v).reachable v = g.reachable v := by
  cases v with
  | object id =>
      have hlength := (observed_observe g (.object id)).objects
      rw [reachable, reachable, hlength]
      exact visit_congr (neighbours_foldl_makeReactive _ g) _ _ _
  | _ => rfl

/-- What the value does not lead to is left alone. -/
theorem slots_observe (hkeys : g.Distinct) {v : Value} {j : ObjectId}
    (hj : ¬ g.Leads (fun i => v = .object i) j) : (g.observe v).slots j = g.slots j := by
  rw [observe, ← foldl_makeReactive_present]
  exact slots_foldl_makeReactive (fun hmem => hj ((mem_present_reachable hkeys).1 hmem).1) g

/-- Observing twice is observing once. -/
theorem observe_observe (g : Graph) (v : Value) : (g.observe v).observe v = g.observe v := by
  rw [observe, reachable_observe]
  exact foldl_makeReactive_eq_self fun id hid => plainCount_of_mem hid g

/-! ## Objects that have each key once -/

namespace Distinct

theorem of_objects (h : g.Distinct) (hobjects : g'.objects = g.objects) : g'.Distinct := by
  intro id
  rw [keys, slots, hobjects]
  exact h id

theorem addObject (h : g.Distinct) : g.addObject.Distinct := by
  intro id
  rw [keys, slots, Graph.addObject, List.getD_eq_getElem?_getD, List.getElem?_append]
  split
  · rw [← List.getD_eq_getElem?_getD]
    exact h id
  · cases id - g.objects.length with
    | zero => exact List.nodup_nil
    | succ n => exact List.nodup_nil

theorem putSlot (h : g.Distinct) (id : ObjectId) (key : String) (slot : Slot) :
    (g.putSlot id key slot).Distinct := by
  intro other
  by_cases hid : id < g.objects.length
  · rw [keys, slots_putSlot g hid]
    split
    · exact Keyed.keys_put_nodup (h id) key slot
    · exact h other
  · have hself : g.putSlot id key slot = g := by
      rw [Graph.putSlot, List.modify_eq_self (Nat.le_of_not_lt hid)]
    rw [hself]
    exact h other

theorem store (h : g.Distinct) (id : ObjectId) (key : String) (value : Value) :
    (g.store id key value).Distinct := by
  unfold Graph.store
  split
  · exact h.putSlot id key _
  · exact h
  · exact h.putSlot id key _

theorem fill (h : g.Distinct) (id : ObjectId) (entry : String × Value) :
    (g.fill id entry).Distinct := by
  unfold Graph.fill
  split
  · split
    · exact h
    · exact h.store id entry.1 entry.2
  · exact h.store id entry.1 entry.2

theorem foldl {β : Type} {change : Graph → β → Graph} (h : g.Distinct)
    (hchange : ∀ {g : Graph} (item : β), g.Distinct → (change g item).Distinct)
    (items : List β) : (items.foldl change g).Distinct := by
  induction items generalizing g with
  | nil => exact h
  | cons item items ih => exact ih (hchange item h)

theorem shapes (h : g.Distinct) (hshapes : g.Shapes g') : g'.Distinct := by
  cases hshapes with
  | create properties => exact h.addObject.foldl (fun entry hg => hg.fill _ entry) properties
  | define id entries => exact h.foldl (fun entry hg => hg.putSlot id entry.1 _) entries
  | observe v => exact fun id => keys_foldl_makeReactive (g.reachable v) g id ▸ h id

end Distinct

/-! ## New dependencies -/

/-- Dependencies are given to some of the properties that have none, to each
its own. -/
structure Numbered (g g' : Graph) : Prop where
  length : g.subscribers.length ≤ g'.subscribers.length
  kept : ∀ {id key d}, g.dependency? id key = some d → g'.dependency? id key = some d
  fresh : ∀ {id key} {d : Nat}, g.dependency? id key = none → g'.dependency? id key = some d →
    g.subscribers.length ≤ d ∧ d < g'.subscribers.length
  distinct : ∀ {id key id' key' d}, g.dependency? id key = none →
    g.dependency? id' key' = none → g'.dependency? id key = some d →
    g'.dependency? id' key' = some d → id = id' ∧ key = key'

namespace Numbered

theorem refl (g : Graph) : Numbered g g where
  length := Nat.le_refl _
  kept h := h
  fresh hnone hsome := nomatch hnone.symm.trans hsome
  distinct hnone _ hsome := nomatch hnone.symm.trans hsome

theorem trans (h : Numbered g g') (h' : Numbered g' g'') : Numbered g g'' where
  length := Nat.le_trans h.length h'.length
  kept hd := h'.kept (h.kept hd)
  fresh {id key d} hnone hsome := by
    cases hmid : g'.dependency? id key with
    | none =>
        obtain ⟨hle, hlt⟩ := h'.fresh hmid hsome
        exact ⟨Nat.le_trans h.length hle, hlt⟩
    | some e =>
        obtain rfl := Option.some.inj ((h'.kept hmid).symm.trans hsome)
        obtain ⟨hle, hlt⟩ := h.fresh hnone hmid
        exact ⟨hle, Nat.lt_of_lt_of_le hlt h'.length⟩
  distinct {id key id' key' d} hnone hnone' hsome hsome' := by
    -- both are new at the same of the two steps, as their numbers show
    have hwhen : ∀ {id key}, g.dependency? id key = none → g''.dependency? id key = some d →
        g'.dependency? id key = some d ∧ (d : Nat) < g'.subscribers.length ∨
          g'.dependency? id key = none ∧ g'.subscribers.length ≤ (d : Nat) := by
      intro id key hnone hsome
      cases hmid : g'.dependency? id key with
      | none => exact .inr ⟨rfl, (h'.fresh hmid hsome).1⟩
      | some e =>
          obtain rfl := Option.some.inj ((h'.kept hmid).symm.trans hsome)
          exact .inl ⟨rfl, (h.fresh hnone hmid).2⟩
    rcases hwhen hnone hsome with ⟨hmid, hlt⟩ | ⟨hmid, hle⟩ <;>
      rcases hwhen hnone' hsome' with ⟨hmid', hlt'⟩ | ⟨hmid', hle'⟩
    · exact h.distinct hnone hnone' hmid hmid'
    · exact absurd hlt (Nat.not_lt.2 hle')
    · exact absurd hlt' (Nat.not_lt.2 hle)
    · exact h'.distinct hmid hmid' hsome hsome'

theorem makeReactive (g : Graph) (id : ObjectId) : Numbered g (g.makeReactive id) := by
  have hslot : ∀ {other key d}, g.dependency? other key = none →
      (g.makeReactive id).dependency? other key = some d → ∃ value, other = id ∧
        g.slot? other key = some (.data ⟨value, none⟩) ∧
        (g.makeReactive id).slot? other key = some (.data ⟨value, some d⟩) ∧
        g.subscribers.length ≤ (d : Nat) ∧ (d : Nat) < (g.makeReactive id).subscribers.length := by
    intro other key d hnone hsome
    obtain ⟨value, hslot⟩ := dependency?_eq_some.1 hsome
    rcases slot?_makeReactive g id other key with ⟨hsame, -⟩ | ⟨value', d', heq, hold, hnew, hd⟩
    · rw [hsame] at hslot
      exact nomatch hnone.symm.trans (dependency?_eq_some.2 ⟨value, hslot⟩)
    · cases hnew.symm.trans hslot
      exact ⟨value, heq, hold, hnew, hd⟩
  constructor
  · simp [Graph.makeReactive]
  · intro other key d hd
    obtain ⟨value, hold⟩ := dependency?_eq_some.1 hd
    rcases slot?_makeReactive g id other key with ⟨hsame, -⟩ | ⟨value', d', -, hplain, -⟩
    · exact dependency?_eq_some.2 ⟨value, hsame.trans hold⟩
    · cases hold.symm.trans hplain
  · intro other key d hnone hsome
    obtain ⟨value, -, -, -, hd⟩ := hslot hnone hsome
    exact hd
  · intro other key other' key' d hnone hnone' hsome hsome'
    obtain ⟨value, rfl, hold, hnew, -⟩ := hslot hnone hsome
    obtain ⟨value', rfl, hold', hnew', -⟩ := hslot hnone' hsome'
    exact ⟨rfl, key_eq_of_makeReactive hold hold' hnew hnew'⟩

theorem foldl_makeReactive (ids : List ObjectId) (g : Graph) :
    Numbered g (ids.foldl Graph.makeReactive g) := by
  induction ids generalizing g with
  | nil => exact refl g
  | cons id ids ih => exact (makeReactive g id).trans (ih _)

end Numbered

/-- A dependency that is not there has no subscribers. -/
theorem subscribersOf_eq_nil {d : Nat} (h : g.subscribers.length ≤ d) : g.subscribersOf d = [] := by
  rw [subscribersOf, List.getD_eq_getElem?_getD, List.getElem?_eq_none h]
  rfl

/-! ## The closure -/

/-- Observing comes to an end, having visited each object once that the
value leads to. It makes them reactive, keeps the dependencies that are
there and their subscribers, and makes one without subscribers for each of
the other properties. Nothing else has changed, and observing again changes
nothing. -/
theorem observe_is_closure (hkeys : g.Distinct) (v : Value) :
    (∃ found, g.Traverses [] v.object?.toList found ∧ found.Nodup ∧
      (∀ j : Nat, j ∈ found ↔ g.Leads (fun i => v = .object i) j ∧ j < g.objects.length) ∧
      g.observe v = found.foldl makeReactive g) ∧
    (∀ j, g.Leads (fun i => v = .object i) j → (g.observe v).Reactive j) ∧
    (∀ {id key d}, g.dependency? id key = some d →
      (g.observe v).dependency? id key = some d ∧
      (g.observe v).subscribersOf d = g.subscribersOf d) ∧
    (∀ {id key} {d : Nat}, g.dependency? id key = none →
      (g.observe v).dependency? id key = some d →
      g.subscribers.length ≤ d ∧ d < (g.observe v).subscribers.length ∧
      (g.observe v).subscribersOf d = [] ∧
      ∀ {id' key'}, g.dependency? id' key' = none →
        (g.observe v).dependency? id' key' = some d → id' = id ∧ key' = key) ∧
    (∀ j, ¬ g.Leads (fun i => v = .object i) j → (g.observe v).slots j = g.slots j) ∧
    (∀ id, (g.observe v).keys id = g.keys id) ∧
    (∀ c, (g.observe v).content c = g.content c) ∧
    (g.observe v).observe v = g.observe v := by
  have hobserved := observed_observe g v
  have hnumbered : Numbered g (g.observe v) := .foldl_makeReactive _ g
  have hfold : g.observe v = (g.present (g.reachable v)).foldl makeReactive g :=
    (foldl_makeReactive_present _ g).symm
  refine ⟨⟨_, traverses_reachable g v, (traverses_reachable g v).nodup List.nodup_nil,
    fun j => mem_present_reachable hkeys, hfold⟩, fun j => reactive_observe,
    fun hd => ⟨hnumbered.kept hd, hobserved.subscribersOf _⟩, fun hnone hsome => ?_,
    fun j => slots_observe hkeys, keys_foldl_makeReactive _ g, hobserved.content,
    observe_observe g v⟩
  obtain ⟨hle, hlt⟩ := hnumbered.fresh hnone hsome
  exact ⟨hle, hlt, (hobserved.subscribersOf _).trans (subscribersOf_eq_nil hle),
    fun hnone' hsome' => hnumbered.distinct hnone' hnone hsome' hsome⟩

/-- A property of the first object that is reactive already, one that holds
the second object, an accessor, and a third object out of reach. -/
def knot : Graph where
  objects :=
    [⟨[("self", .data ⟨.object 0, some 0⟩), ("other", .data ⟨.object 1, none⟩)]⟩,
      ⟨[("back", .data ⟨.object 0, none⟩), ("shown", .computed (.get "back"))]⟩,
      ⟨[("apart", .data ⟨.object 0, none⟩)]⟩]
  subscribers := [[.client 0]]

theorem distinct_knot : knot.Distinct :=
  distinct_of_lt (by decide)

theorem closed_knot : knot.Closed (· < 2)
  | 0, _, j, _, hc => by
      have hj : j ∈ [0, 1] := mem_neighbours hc
      simp only [List.mem_cons, List.not_mem_nil, or_false] at hj
      rcases hj with rfl | rfl <;> decide
  | 1, _, j, _, hc => by
      have hj : j ∈ [0] := mem_neighbours hc
      obtain rfl := List.mem_singleton.1 hj
      decide

theorem observe_is_closure_of_knot : knot.Distinct ∧
    (∃ found, knot.Traverses [] [0] found ∧ found.Nodup ∧ 0 ∈ found ∧ 1 ∈ found ∧ 2 ∉ found) ∧
    (knot.observe (.object 0)).dependency? 0 "self" = some 0 ∧
    (knot.observe (.object 0)).subscribersOf 0 = [.client 0] ∧
    (knot.observe (.object 0)).dependency? 0 "other" = some 1 ∧
    (knot.observe (.object 0)).dependency? 1 "back" = some 2 ∧
    (knot.observe (.object 0)).subscribersOf 2 = [] ∧
    (knot.observe (.object 0)).slots 2 = knot.slots 2 ∧
    (knot.observe (.object 0)).observe (.object 0) = knot.observe (.object 0) := by
  obtain ⟨⟨found, htraverses, hnodup, hfound, -⟩, -, hkept, hfresh, hapart, -, -, htwice⟩ :=
    observe_is_closure distinct_knot (.object 0)
  have hheld : knot.content (0, "other") = some (.inl (.object 1)) := rfl
  have hfirst : knot.Leads (fun i => Value.object 0 = .object i) 0 := .base rfl
  have hsecond : knot.Leads (fun i => Value.object 0 = .object i) 1 := .step hfirst hheld
  have hthird : ¬ knot.Leads (fun i => Value.object 0 = .object i) 2 := fun h =>
    absurd (h.least closed_knot fun i hi => by cases hi; decide) (by decide)
  have hself : knot.dependency? 0 "self" = some 0 := rfl
  have hback : (knot.observe (.object 0)).dependency? 1 "back" = some 2 := rfl
  exact ⟨distinct_knot, ⟨found, htraverses, hnodup, (hfound 0).2 ⟨hfirst, by decide⟩,
    (hfound 1).2 ⟨hsecond, by decide⟩, fun hmem => hthird ((hfound 2).1 hmem).1⟩,
    (hkept hself).1, (hkept hself).2, rfl, hback, (hfresh rfl hback).2.2.1, hapart 2 hthird, htwice⟩

end Graph

/-- The objects of every state that scripts come to have each key once. -/
theorem World.Reachable.distinct {w : World} (hw : w.Reachable) :
    w.graph.Distinct := by
  refine hw.of_writes (I := fun w => w.graph.Distinct) (fun id => List.nodup_nil)
    fun {w w'} h hwrites => ?_
  cases hwrites with
  | store id key v => exact h.store id key v
  | maintains hmaintains =>
      rcases hmaintains.effect with htracks | ⟨g, rfl, hshapes⟩ | ⟨watchers, rfl, -⟩
      · exact h.of_objects htracks.objects
      · exact h.shapes hshapes
      · exact h

end DataBinding
