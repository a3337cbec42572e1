import DataBinding.Store.Observe

/-!
# Properties and their dependencies

What each operation on the object graph does to the slot of a property,
read through `slot?`. A write keeps the dependency of every property,
observing keeps every value and every dependency that is there, and
neither touches a subscriber.

`Graph.Owned` says that every dependency of a property is there and
belongs to that property alone. The headline theorem `observed_observe`
says what observing does.
-/

namespace DataBinding.Graph

variable {g : Graph}

/-! ## Slots after an operation -/

theorem slot?_putSlot_eq (g : Graph) (id other : ObjectId) (key otherKey : String) (slot : Slot) :
    (g.putSlot id key slot).slot? other otherKey =
      if other = id ∧ otherKey = key ∧ id < g.objects.length then some slot
      else g.slot? other otherKey := by
  by_cases hid : id < g.objects.length
  · simp [slot?_putSlot g hid, hid]
  · have hsame : g.putSlot id key slot = g := by
      rw [putSlot, List.modify_eq_self (Nat.le_of_not_lt hid)]
    simp [hsame, hid]

/-- There is nothing where no object is. -/
theorem slots_eq_empty {id : ObjectId} (h : g.objects.length ≤ id) : g.slots id = .empty := by
  simp [slots, List.getD_eq_getElem?_getD, List.getElem?_eq_none h]

theorem lt_of_slot? {id : ObjectId} {key : String} {slot : Slot}
    (h : g.slot? id key = some slot) : id < g.objects.length := by
  refine Nat.lt_of_not_le fun hid => ?_
  simp [slot?, slots_eq_empty hid] at h

/-- A slot after a value was stored in it. -/
def stored (value : Value) : Option Slot → Slot
  | some (.data property) => .data { property with value }
  | some (.computed accessor) => .computed accessor
  | none => .data ⟨value, none⟩

theorem slot?_store (g : Graph) (id other : ObjectId) (key otherKey : String) (value : Value) :
    (g.store id key value).slot? other otherKey =
      if other = id ∧ otherKey = key ∧ id < g.objects.length then
        some (stored value (g.slot? id key))
      else g.slot? other otherKey := by
  unfold store
  rcases h : g.slot? id key with _ | property | accessor
  · exact slot?_putSlot_eq g id other key otherKey _
  · exact slot?_putSlot_eq g id other key otherKey _
  · by_cases hsame : other = id ∧ otherKey = key ∧ id < g.objects.length
    · rw [if_pos hsame, hsame.1, hsame.2.1]
      exact h
    · rw [if_neg hsame]

/-- Where there is a data property, storing replaces its value and
nothing else. -/
theorem slot?_store_data {id : ObjectId} {key : String} {property : Property}
    (h : g.slot? id key = some (.data property)) (other : ObjectId) (otherKey : String)
    (value : Value) :
    (g.store id key value).slot? other otherKey =
      if other = id ∧ otherKey = key then some (.data { property with value })
      else g.slot? other otherKey := by
  simp [slot?_store, h, lt_of_slot? h, stored]

theorem slot?_addObject (g : Graph) (other : ObjectId) (key : String) :
    g.addObject.slot? other key = g.slot? other key := by
  by_cases h : other < g.objects.length
  · simp [slot?, slots, addObject, List.getD_eq_getElem?_getD, List.getElem?_append_left h]
  · have hnew : g.addObject.slots other = .empty := by
      rcases Nat.lt_or_eq_of_le (Nat.le_of_not_lt h) with hlt | heq
      · exact slots_eq_empty (by simpa [addObject] using Nat.succ_le_of_lt hlt)
      · simp [slots, addObject, ← heq]
    rw [slot?, slot?, hnew, slots_eq_empty (Nat.le_of_not_lt h)]

/-! ## Dependencies after an operation -/

theorem dependency?_eq_some {id : ObjectId} {key : String} {d : DependencyId} :
    g.dependency? id key = some d ↔
      ∃ value, g.slot? id key = some (.data ⟨value, some d⟩) := by
  unfold dependency?
  split
  · rename_i property h
    obtain ⟨value, dependency⟩ := property
    simp [h]
  · rename_i h
    constructor
    · intro hnone
      simp at hnone
    · rintro ⟨value, hslot⟩
      exact absurd hslot (h _)

/-- Writing a property leaves all dependencies as they are. -/
theorem dependency?_store (g : Graph) (id other : ObjectId) (key otherKey : String)
    (value : Value) :
    (g.store id key value).dependency? other otherKey = g.dependency? other otherKey := by
  simp only [dependency?, slot?_store]
  by_cases hsame : other = id ∧ otherKey = key ∧ id < g.objects.length
  · rw [if_pos hsame, hsame.1, hsame.2.1]
    rcases g.slot? id key with _ | property | accessor <;> rfl
  · rw [if_neg hsame]

@[simp] theorem subscribers_store (g : Graph) (id : ObjectId) (key : String) (value : Value) :
    (g.store id key value).subscribers = g.subscribers := by
  unfold store
  split <;> rfl

theorem dependency?_fill (g : Graph) (id other : ObjectId) (entry : String × Value)
    (key : String) : (g.fill id entry).dependency? other key = g.dependency? other key := by
  unfold fill
  split
  · split
    · rfl
    · exact dependency?_store ..
  · exact dependency?_store ..

theorem subscribers_fill (g : Graph) (id : ObjectId) (entry : String × Value) :
    (g.fill id entry).subscribers = g.subscribers := by
  unfold fill
  split
  · split
    · rfl
    · exact subscribers_store ..
  · exact subscribers_store ..

theorem subscribers_create (g : Graph) (id : ObjectId) (properties : List (String × Value)) :
    (properties.foldl (fun g entry => g.fill id entry) g.addObject).subscribers =
      g.subscribers := by
  suffices hfold : ∀ h : Graph,
      (properties.foldl (fun g entry => g.fill id entry) h).subscribers = h.subscribers from
    hfold g.addObject
  induction properties with
  | nil => exact fun _ => rfl
  | cons entry properties ih => exact fun h => (ih _).trans (subscribers_fill h id entry)

theorem subscribers_defineAll (g : Graph) (id : ObjectId) (entries : List (String × Expr)) :
    (entries.foldl (fun g entry => g.define id entry.1 entry.2) g).subscribers =
      g.subscribers := by
  induction entries generalizing g with
  | nil => rfl
  | cons entry entries ih => exact (ih _).trans rfl

/-- Installing an accessor gives no property a dependency. -/
theorem dependency?_define {id other : ObjectId} {key otherKey : String} {accessor : Expr}
    {d : DependencyId} (h : (g.define id key accessor).dependency? other otherKey = some d) :
    g.dependency? other otherKey = some d := by
  obtain ⟨value, hslot⟩ := dependency?_eq_some.1 h
  rw [define, slot?_putSlot_eq] at hslot
  split at hslot
  · simp at hslot
  · exact dependency?_eq_some.2 ⟨value, hslot⟩

/-! ## Making properties reactive -/

/-- The slots of an object after it was made reactive, under one key. -/
theorem findEntry_withDependencies (key : String) :
    ∀ (entries : List (String × Slot)) (next : Nat),
      Keyed.findEntry key (withDependencies next entries) = Keyed.findEntry key entries ∧
          (∀ value, Keyed.findEntry key entries ≠ some (.data ⟨value, none⟩)) ∨
        ∃ value, ∃ d : Nat, Keyed.findEntry key entries = some (.data ⟨value, none⟩) ∧
          Keyed.findEntry key (withDependencies next entries) = some (.data ⟨value, some d⟩) ∧
          next ≤ d ∧ d < next + plainCount entries
  | [], next => .inl ⟨rfl, by simp [Keyed.findEntry]⟩
  | (name, slot) :: entries, next => by
      have ih := findEntry_withDependencies key entries
      have hcount : plainCount entries ≤ plainCount ((name, slot) :: entries) := by
        simp only [plainCount, List.countP_cons]
        omega
      rcases slot with ⟨value, _ | d⟩ | accessor
      · have hplain : plainCount ((name, .data ⟨value, none⟩) :: entries)
            = plainCount entries + 1 := by simp [plainCount]
        by_cases hname : name = key
        · exact .inr ⟨value, next, by simp [Keyed.findEntry, hname],
            by simp [withDependencies, Keyed.findEntry, hname], by omega, by omega⟩
        · rcases ih (next + 1) with h | ⟨v, d, h₁, h₂, h₃, h₄⟩
          · exact .inl (by simpa [withDependencies, Keyed.findEntry, hname] using h)
          · exact .inr ⟨v, d, by simpa [Keyed.findEntry, hname] using h₁,
              by simpa [withDependencies, Keyed.findEntry, hname] using h₂, by omega, by omega⟩
      all_goals
        by_cases hname : name = key
        · exact .inl (by simp [withDependencies, Keyed.findEntry, hname])
        · rcases ih next with h | ⟨v, d, h₁, h₂, h₃, h₄⟩
          · exact .inl (by simpa [withDependencies, Keyed.findEntry, hname] using h)
          · exact .inr ⟨v, d, by simpa [Keyed.findEntry, hname] using h₁,
              by simpa [withDependencies, Keyed.findEntry, hname] using h₂, by omega, by omega⟩

/-- New dependencies under different keys are different. -/
theorem key_eq_of_withDependencies {key key' : String} {value value' : Value} {d : Nat} :
    ∀ {entries : List (String × Slot)} {next : Nat},
      Keyed.findEntry key entries = some (.data ⟨value, none⟩) →
      Keyed.findEntry key' entries = some (.data ⟨value', none⟩) →
      Keyed.findEntry key (withDependencies next entries) = some (.data ⟨value, some d⟩) →
      Keyed.findEntry key' (withDependencies next entries) = some (.data ⟨value', some d⟩) →
      key = key'
  | [], _, h, _, _, _ => by simp [Keyed.findEntry] at h
  | (name, slot) :: entries, next, h₁, h₂, h₃, h₄ => by
      have hlater : ∀ {k : String} {v : Value},
          Keyed.findEntry k entries = some (.data ⟨v, none⟩) →
          Keyed.findEntry k (withDependencies (next + 1) entries) = some (.data ⟨v, some d⟩) →
          next < d := by
        intro k v hplain hnew
        rcases findEntry_withDependencies k entries (next + 1) with
          ⟨-, hnone⟩ | ⟨v', d', -, hnew', hle, -⟩
        · exact absurd hplain (hnone v)
        · cases hnew.symm.trans hnew'
          exact hle
      rcases slot with ⟨v, _ | d'⟩ | accessor
      · by_cases hkey : name = key <;> by_cases hkey' : name = key'
        · exact hkey.symm.trans hkey'
        · subst hkey
          simp only [withDependencies, Keyed.findEntry, hkey', if_true, if_false] at h₂ h₃ h₄
          cases h₃
          exact absurd (hlater h₂ h₄) (Nat.lt_irrefl _)
        · subst hkey'
          simp only [withDependencies, Keyed.findEntry, hkey, if_true, if_false] at h₁ h₃ h₄
          cases h₄
          exact absurd (hlater h₁ h₃) (Nat.lt_irrefl _)
        · simp only [withDependencies, Keyed.findEntry, hkey, hkey', if_false] at h₁ h₂ h₃ h₄
          exact key_eq_of_withDependencies h₁ h₂ h₃ h₄
      all_goals
        have hkey : name ≠ key := by rintro rfl; simp [Keyed.findEntry] at h₁
        have hkey' : name ≠ key' := by rintro rfl; simp [Keyed.findEntry] at h₂
        simp only [withDependencies, Keyed.findEntry, hkey, hkey', if_false] at h₁ h₂ h₃ h₄
        exact key_eq_of_withDependencies h₁ h₂ h₃ h₄

theorem slots_makeReactive (g : Graph) {id : ObjectId} (hid : id < g.objects.length) :
    (g.makeReactive id).slots id =
      ⟨withDependencies g.nextDependency (g.slots id).entries⟩ := by
  simp [makeReactive, slots, List.getD_eq_getElem?_getD, hid]

/-- An object after it was made reactive: a data property without a
dependency has one from the new ones. -/
theorem slot?_makeReactive (g : Graph) (id other : ObjectId) (key : String) :
    (g.makeReactive id).slot? other key = g.slot? other key ∧
        (other = id → ∀ value, g.slot? other key ≠ some (.data ⟨value, none⟩)) ∨
      ∃ value, ∃ d : Nat, other = id ∧ g.slot? other key = some (.data ⟨value, none⟩) ∧
        (g.makeReactive id).slot? other key = some (.data ⟨value, some d⟩) ∧
        g.subscribers.length ≤ d ∧ d < (g.makeReactive id).subscribers.length := by
  by_cases hother : other = id
  · subst hother
    by_cases hid : other < g.objects.length
    · simp only [slot?, slots_makeReactive g hid, Keyed.find?]
      rcases findEntry_withDependencies key (g.slots other).entries g.nextDependency with
        ⟨hsame, hplain⟩ | ⟨value, d, h₁, h₂, h₃, h₄⟩
      · exact .inl ⟨hsame, fun _ => hplain⟩
      · exact .inr ⟨value, d, trivial, h₁, h₂, h₃, by simpa [makeReactive, nextDependency] using h₄⟩
    · have hslots : (g.makeReactive other).slots other = .empty :=
        slots_eq_empty (by simpa [makeReactive] using hid)
      rw [slot?, slot?, hslots, slots_eq_empty (Nat.le_of_not_lt hid)]
      exact .inl ⟨rfl, by simp⟩
  · refine .inl ⟨?_, fun h => absurd h hother⟩
    simp [slot?, slots, makeReactive, List.getD_eq_getElem?_getD, Ne.symm hother]

theorem key_eq_of_makeReactive {id : ObjectId} {key key' : String} {value value' : Value}
    {d : DependencyId} (h : g.slot? id key = some (.data ⟨value, none⟩))
    (h' : g.slot? id key' = some (.data ⟨value', none⟩))
    (hnew : (g.makeReactive id).slot? id key = some (.data ⟨value, some d⟩))
    (hnew' : (g.makeReactive id).slot? id key' = some (.data ⟨value', some d⟩)) : key = key' := by
  have hslots := slots_makeReactive g (lt_of_slot? h)
  rw [slot?, hslots] at hnew hnew'
  exact key_eq_of_withDependencies h h' hnew hnew'

/-- New dependencies have no subscribers. -/
theorem getD_append_replicate {α : Type} (lists : List (List α)) (count i : Nat) :
    (lists ++ List.replicate count []).getD i [] = lists.getD i [] := by
  simp only [List.getD_eq_getElem?_getD, List.getElem?_append]
  split
  · rfl
  · rename_i h
    rw [List.getElem?_eq_none (Nat.le_of_not_lt h)]
    rw [List.getElem?_replicate]
    split <;> rfl

@[simp] theorem subscribersOf_makeReactive (g : Graph) (id : ObjectId) (d : DependencyId) :
    (g.makeReactive id).subscribersOf d = g.subscribersOf d :=
  getD_append_replicate _ _ _

@[simp] theorem subscribersOf_addDependency (g : Graph) (d : DependencyId) :
    g.addDependency.subscribersOf d = g.subscribersOf d :=
  getD_append_replicate _ 1 _

/-! ## Dependencies belong to one property -/

/-- Every dependency of a property is there, and no two properties have
the same. -/
structure Owned (g : Graph) : Prop where
  bounded : ∀ {id key} {d : Nat}, g.dependency? id key = some d → d < g.subscribers.length
  unique : ∀ {id key id' key'} {d : DependencyId}, g.dependency? id key = some d →
    g.dependency? id' key' = some d → id = id' ∧ key = key'

namespace Owned

/-- Properties may lose dependencies, and dependencies may come in. -/
theorem mono {g' : Graph} (h : g.Owned) (hlength : g.subscribers.length ≤ g'.subscribers.length)
    (hdependency : ∀ {id key d}, g'.dependency? id key = some d → g.dependency? id key = some d) :
    g'.Owned where
  bounded hd := Nat.lt_of_lt_of_le (h.bounded (hdependency hd)) hlength
  unique hd hd' := h.unique (hdependency hd) (hdependency hd')

theorem empty : Graph.empty.Owned where
  bounded h := by simp [dependency?, slot?, slots, Graph.empty] at h
  unique h := by simp [dependency?, slot?, slots, Graph.empty] at h

theorem subscribers (h : g.Owned) {lists : List (List SubscriberId)}
    (hlength : g.subscribers.length ≤ lists.length) :
    ({ g with subscribers := lists } : Graph).Owned :=
  h.mono hlength fun hd => hd

theorem addObject (h : g.Owned) : g.addObject.Owned :=
  h.mono (Nat.le_refl _) fun {id key d} hd => by
    rwa [dependency?, slot?_addObject] at hd

theorem store (h : g.Owned) (id : ObjectId) (key : String) (value : Value) :
    (g.store id key value).Owned :=
  h.mono (by simp) fun hd => by rwa [dependency?_store] at hd

theorem fill (h : g.Owned) (id : ObjectId) (entry : String × Value) : (g.fill id entry).Owned :=
  h.mono (by simp [subscribers_fill]) fun hd => by rwa [dependency?_fill] at hd

theorem define (h : g.Owned) (id : ObjectId) (key : String) (accessor : Expr) :
    (g.define id key accessor).Owned :=
  h.mono (Nat.le_refl _) dependency?_define

theorem create (h : g.Owned) (id : ObjectId) (properties : List (String × Value)) :
    (properties.foldl (fun g entry => g.fill id entry) g.addObject).Owned := by
  suffices hfold : ∀ g : Graph, g.Owned →
      (properties.foldl (fun g entry => g.fill id entry) g).Owned from hfold _ h.addObject
  induction properties with
  | nil => exact fun _ hg => hg
  | cons entry properties ih => exact fun _ hg => ih _ (hg.fill id entry)

theorem defineAll (h : g.Owned) (id : ObjectId) (entries : List (String × Expr)) :
    (entries.foldl (fun g entry => g.define id entry.1 entry.2) g).Owned := by
  induction entries generalizing g with
  | nil => exact h
  | cons entry entries ih => exact ih (h.define id entry.1 entry.2)

theorem makeReactive (h : g.Owned) (id : ObjectId) : (g.makeReactive id).Owned := by
  have hlength : g.subscribers.length ≤ (g.makeReactive id).subscribers.length := by
    simp [Graph.makeReactive]
  constructor
  · intro other key d hd
    obtain ⟨value, hslot⟩ := dependency?_eq_some.1 hd
    rcases slot?_makeReactive g id other key with ⟨hsame, -⟩ | ⟨value', d', -, -, hnew, -, hlt⟩
    · rw [hsame] at hslot
      exact Nat.lt_of_lt_of_le (h.bounded (dependency?_eq_some.2 ⟨value, hslot⟩)) hlength
    · cases hnew.symm.trans hslot
      exact hlt
  · intro other key other' key' d hd hd'
    obtain ⟨value, hslot⟩ := dependency?_eq_some.1 hd
    obtain ⟨value', hslot'⟩ := dependency?_eq_some.1 hd'
    rcases slot?_makeReactive g id other key with
        ⟨hsame, -⟩ | ⟨v, e, heq, hplain, hnew, hle, -⟩ <;>
      rcases slot?_makeReactive g id other' key' with
        ⟨hsame', -⟩ | ⟨v', e', heq', hplain', hnew', hle', -⟩
    · rw [hsame] at hslot
      rw [hsame'] at hslot'
      exact h.unique (dependency?_eq_some.2 ⟨value, hslot⟩) (dependency?_eq_some.2 ⟨value', hslot'⟩)
    · rw [hsame] at hslot
      cases hnew'.symm.trans hslot'
      exact absurd (h.bounded (dependency?_eq_some.2 ⟨value, hslot⟩)) (Nat.not_lt.2 hle')
    · rw [hsame'] at hslot'
      cases hnew.symm.trans hslot
      exact absurd (h.bounded (dependency?_eq_some.2 ⟨value', hslot'⟩)) (Nat.not_lt.2 hle)
    · subst heq heq'
      cases hnew.symm.trans hslot
      cases hnew'.symm.trans hslot'
      exact ⟨rfl, key_eq_of_makeReactive hplain hplain' hslot hslot'⟩

end Owned

/-! ## Observing -/

/-- What observing does to a slot: at most, a data property without a
dependency gets a new one. -/
def Reacts (next : Nat) (old new : Option Slot) : Prop :=
  new = old ∨ ∃ value, ∃ d : Nat, old = some (.data ⟨value, none⟩) ∧
    new = some (.data ⟨value, some d⟩) ∧ next ≤ d

theorem Reacts.trans {next later : Nat} {a b c : Option Slot} (hle : next ≤ later)
    (h : Reacts next a b) (h' : Reacts later b c) : Reacts next a c := by
  rcases h' with rfl | ⟨value, d, hold, hnew, hd⟩
  · exact h
  · rcases h with rfl | ⟨value', d', -, hnew', -⟩
    · exact .inr ⟨value, d, hold, hnew, Nat.le_trans hle hd⟩
    · rw [hold] at hnew'
      cases hnew'

theorem Reacts.makeReactive (g : Graph) (id other : ObjectId) (key : String) :
    Reacts g.subscribers.length (g.slot? other key) ((g.makeReactive id).slot? other key) := by
  rcases slot?_makeReactive g id other key with ⟨hsame, -⟩ | ⟨v, d, -, hold, hnew, hle, -⟩
  · exact .inl hsame
  · exact .inr ⟨v, d, hold, hnew, hle⟩

/-- What making several objects reactive does. -/
structure Observed (g g' : Graph) : Prop where
  length : g.subscribers.length ≤ g'.subscribers.length
  objects : g'.objects.length = g.objects.length
  subscribersOf : ∀ d, g'.subscribersOf d = g.subscribersOf d
  slot? : ∀ id key, Reacts g.subscribers.length (g.slot? id key) (g'.slot? id key)
  owned : g.Owned → g'.Owned

namespace Observed

theorem refl (g : Graph) : Observed g g :=
  ⟨Nat.le_refl _, rfl, fun _ => rfl, fun _ _ => .inl rfl, id⟩

theorem trans {g' g'' : Graph} (h : Observed g g') (h' : Observed g' g'') : Observed g g'' where
  length := Nat.le_trans h.length h'.length
  objects := h'.objects.trans h.objects
  subscribersOf d := (h'.subscribersOf d).trans (h.subscribersOf d)
  slot? id key := (h.slot? id key).trans h.length (h'.slot? id key)
  owned hg := h'.owned (h.owned hg)

theorem makeReactive (g : Graph) (id : ObjectId) : Observed g (g.makeReactive id) where
  length := by simp [Graph.makeReactive]
  objects := by simp [Graph.makeReactive]
  subscribersOf := subscribersOf_makeReactive g id
  slot? := Reacts.makeReactive g id
  owned hg := hg.makeReactive id

theorem foldl_makeReactive (ids : List ObjectId) (g : Graph) :
    Observed g (ids.foldl Graph.makeReactive g) := by
  induction ids generalizing g with
  | nil => exact refl g
  | cons id ids ih => exact (makeReactive g id).trans (ih _)

end Observed

/-- Observing a value changes no value and no subscriber, and keeps every
dependency. -/
theorem observed_observe (g : Graph) (v : Value) : Observed g (g.observe v) :=
  .foldl_makeReactive _ _

theorem Owned.observe (h : g.Owned) (v : Value) : (g.observe v).Owned :=
  (observed_observe g v).owned h

/-! ## Building -/

/-- Every slot is as it was, or a data property where nothing was, or
holds an accessor. -/
def Extends (g g' : Graph) : Prop :=
  ∀ id key, g'.slot? id key = g.slot? id key ∨
    (g.slot? id key = none ∧ ∃ property, g'.slot? id key = some (.data property)) ∨
    ∃ accessor, g'.slot? id key = some (.computed accessor)

theorem extends_store {id : ObjectId} {key : String} (h : g.slot? id key = none) (value : Value) :
    Extends g (g.store id key value) := by
  intro other otherKey
  rw [slot?_store]
  split
  · rename_i hsame
    rw [hsame.1, hsame.2.1, h]
    exact .inr (.inl ⟨rfl, _, rfl⟩)
  · exact .inl rfl

/-- Filling an object puts data properties into it. -/
theorem slot?_fill (g : Graph) (id other : ObjectId) (entry : String × Value) (key : String) :
    (g.fill id entry).slot? other key = g.slot? other key ∨
      other = id ∧ ∃ property, (g.fill id entry).slot? other key = some (.data property) := by
  have hstore : (g.store id entry.1 entry.2).slot? other key = g.slot? other key ∨
      other = id ∧
        ∃ property, (g.store id entry.1 entry.2).slot? other key = some (.data property) := by
    rw [slot?_store]
    split
    · rename_i hsame
      rw [hsame.1, hsame.2.1]
      rcases g.slot? id entry.1 with _ | property | accessor
      · exact .inr ⟨rfl, _, rfl⟩
      · exact .inr ⟨rfl, _, rfl⟩
      · exact .inl rfl
    · exact .inl rfl
  unfold fill
  split
  · split
    · exact .inl rfl
    · exact hstore
  · exact hstore

/-- Filling installs no accessor. -/
theorem computed_of_fill {id other : ObjectId} {entry : String × Value} {key : String}
    {accessor : Expr} (h : (g.fill id entry).slot? other key = some (.computed accessor)) :
    g.slot? other key = some (.computed accessor) := by
  rcases slot?_fill g id other entry key with hsame | ⟨-, property, hdata⟩
  · exact hsame ▸ h
  · cases hdata.symm.trans h

theorem slot?_fillAll (id other : ObjectId) (key : String) (properties : List (String × Value))
    (g : Graph) :
    let g' := properties.foldl (fun g entry => g.fill id entry) g
    g'.slot? other key = g.slot? other key ∨
      other = id ∧ ∃ property, g'.slot? other key = some (.data property) := by
  induction properties generalizing g with
  | nil => exact .inl rfl
  | cons entry properties ih =>
      rcases ih (g.fill id entry) with hsame | hdata
      · rcases slot?_fill g id other entry key with hfill | ⟨hother, property, hfill⟩
        · exact .inl (hsame.trans hfill)
        · exact .inr ⟨hother, property, hsame.trans hfill⟩
      · exact .inr hdata

/-- A new object has data properties, and nothing else is different. -/
theorem extends_create (g : Graph) (properties : List (String × Value)) :
    Extends g (properties.foldl (fun h entry => h.fill g.nextObject entry) g.addObject) := by
  intro other key
  rcases slot?_fillAll g.nextObject other key properties g.addObject with hsame | ⟨rfl, hdata⟩
  · exact .inl (hsame.trans (slot?_addObject g other key))
  · refine .inr (.inl ⟨?_, hdata⟩)
    have hnew : g.slots g.nextObject = .empty := slots_eq_empty (Nat.le_refl _)
    rw [slot?, hnew]
    rfl

/-- Installing accessors. -/
theorem extends_defineAll (g : Graph) (id : ObjectId) (entries : List (String × Expr)) :
    Extends g (entries.foldl (fun g entry => g.define id entry.1 entry.2) g) := by
  induction entries generalizing g with
  | nil => exact fun _ _ => .inl rfl
  | cons entry entries ih =>
      intro other key
      have hdefine := slot?_putSlot_eq g id other entry.1 key (.computed entry.2)
      rcases ih (g.define id entry.1 entry.2) other key with hsame | ⟨hnone, hdata⟩ | haccessor
      · split at hdefine
        · exact .inr (.inr ⟨_, hsame.trans hdefine⟩)
        · exact .inl (hsame.trans hdefine)
      · split at hdefine
        · rw [define, hdefine] at hnone
          cases hnone
        · exact .inr (.inl ⟨hdefine ▸ hnone, hdata⟩)
      · exact .inr (.inr haccessor)

end DataBinding.Graph
