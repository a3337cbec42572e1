import DataBinding.Keyed
import DataBinding.Script.Syntax

/-!
# The object graph

The objects of a state tree and, for every reactive property, the list of its subscribers. An
object is a keyed collection of slots: a data property holds a value and, once it was observed, its
dependency; a computed property holds an accessor. Objects, dependencies and subscribers are known
by their places in the lists; an object that is not there has no properties.
-/

namespace DataBinding

/-- The identity of a dependency. -/
abbrev DependencyId := Nat

/-- Who is told when a property changes: a watcher, or a subscriber of client code. -/
inductive SubscriberId
  | watcher (id : Nat)
  | client (id : Nat)
deriving DecidableEq

/-- A data property. It is reactive when it has a dependency. -/
structure Property where
  value : Value
  dependency : Option DependencyId

/-- What an object holds under a key. -/
inductive Slot
  | data (property : Property)
  | computed (accessor : Expr)

/-- The objects and the subscribers of each dependency, in the order of registration. -/
structure Graph where
  objects : List (Keyed Slot)
  subscribers : List (List SubscriberId)

namespace Graph

/-- No objects. -/
def empty : Graph := ⟨[], []⟩

/-! ## Objects -/

/-- The slots of an object. -/
def slots (g : Graph) (id : ObjectId) : Keyed Slot :=
  g.objects.getD id .empty

/-- The slot of an object under a key. -/
def slot? (g : Graph) (id : ObjectId) (key : String) : Option Slot :=
  (g.slots id).find? key

/-- The keys of an object, in the order in which they came in. -/
def keys (g : Graph) (id : ObjectId) : List String :=
  (g.slots id).keys

/-- The place of the next object. -/
def nextObject (g : Graph) : ObjectId :=
  g.objects.length

/-- One more object, without properties, at the place `nextObject`. -/
def addObject (g : Graph) : Graph :=
  { g with objects := g.objects ++ [.empty] }

/-- Puts a slot under a key. -/
def putSlot (g : Graph) (id : ObjectId) (key : String) (slot : Slot) : Graph :=
  { g with objects := g.objects.modify id (·.put key slot) }

/-- Stores a value in a data property, which keeps its dependency. A missing key becomes a plain
property; a computed property stays as it is. -/
def store (g : Graph) (id : ObjectId) (key : String) (value : Value) : Graph :=
  match g.slot? id key with
  | some (.data property) => g.putSlot id key (.data { property with value })
  | some (.computed _) => g
  | none => g.putSlot id key (.data ⟨value, none⟩)

/-- Stores a value that is not the same as the one that is there. -/
def fill (g : Graph) (id : ObjectId) (entry : String × Value) : Graph :=
  match g.slot? id entry.1 with
  | some (.data property) =>
    if property.value.same entry.2 then g else g.store id entry.1 entry.2
  | _ => g.store id entry.1 entry.2

/-- Installs an accessor under a key, in place of whatever is there. -/
def define (g : Graph) (id : ObjectId) (key : String) (accessor : Expr) : Graph :=
  g.putSlot id key (.computed accessor)

/-- The dependency of a reactive data property. -/
def dependency? (g : Graph) (id : ObjectId) (key : String) : Option DependencyId :=
  match g.slot? id key with
  | some (.data property) => property.dependency
  | _ => none

/-! ## Subscribers -/

/-- The subscribers of a dependency, in the order of registration. -/
def subscribersOf (g : Graph) (d : DependencyId) : List SubscriberId :=
  g.subscribers.getD d []

/-- The place of the next dependency. -/
def nextDependency (g : Graph) : DependencyId :=
  g.subscribers.length

/-- One more dependency, without subscribers, at the place `nextDependency`. -/
def addDependency (g : Graph) : Graph :=
  { g with subscribers := g.subscribers ++ [[]] }

/-- Appends a subscriber, also one that is there already. -/
def register (g : Graph) (d : DependencyId) (s : SubscriberId) : Graph :=
  { g with subscribers := g.subscribers.modify d (· ++ [s]) }

/-- Removes every entry of a subscriber. -/
def unregister (g : Graph) (d : DependencyId) (s : SubscriberId) : Graph :=
  { g with subscribers := g.subscribers.modify d (·.filter (· ≠ s)) }

/-- Removes every entry of a subscriber from each of the dependencies. -/
def unregisterAll (g : Graph) (ds : List DependencyId) (s : SubscriberId) : Graph :=
  ds.foldl (fun g d => g.unregister d s) g

/-- Keeps only the subscribers that satisfy a test. -/
def prune (g : Graph) (d : DependencyId) (keep : SubscriberId → Bool) : Graph :=
  { g with subscribers := g.subscribers.modify d (·.filter keep) }

/-! ## What the operations do -/

theorem slots_putSlot (g : Graph) {id : ObjectId} (hid : id < g.objects.length)
    (other : ObjectId) (key : String) (slot : Slot) :
    (g.putSlot id key slot).slots other =
      if other = id then (g.slots id).put key slot else g.slots other := by
  by_cases h : other = id
  · subst h
    simp [slots, putSlot, List.getD_eq_getElem?_getD, hid]
  · simp [slots, putSlot, List.getD_eq_getElem?_getD, h, Ne.symm h]

theorem slot?_putSlot (g : Graph) {id : ObjectId} (hid : id < g.objects.length)
    (other : ObjectId) (key otherKey : String) (slot : Slot) :
    (g.putSlot id key slot).slot? other otherKey =
      if other = id ∧ otherKey = key then some slot else g.slot? other otherKey := by
  simp only [slot?, slots_putSlot g hid]
  by_cases h : other = id
  · subst h
    simp [Keyed.find?_put]
  · simp [h]

@[simp] theorem subscribers_putSlot (g : Graph) (id : ObjectId) (key : String) (slot : Slot) :
    (g.putSlot id key slot).subscribers = g.subscribers := rfl

@[simp] theorem objects_register (g : Graph) (d : DependencyId) (s : SubscriberId) :
    (g.register d s).objects = g.objects := rfl

@[simp] theorem objects_unregister (g : Graph) (d : DependencyId) (s : SubscriberId) :
    (g.unregister d s).objects = g.objects := rfl

@[simp] theorem objects_prune (g : Graph) (d : DependencyId) (keep : SubscriberId → Bool) :
    (g.prune d keep).objects = g.objects := rfl

theorem subscribersOf_register (g : Graph) {d : DependencyId} (hd : d < g.subscribers.length)
    (other : DependencyId) (s : SubscriberId) :
    (g.register d s).subscribersOf other =
      if other = d then g.subscribersOf d ++ [s] else g.subscribersOf other := by
  by_cases h : other = d
  · subst h
    simp [subscribersOf, register, List.getD_eq_getElem?_getD, hd]
  · simp [subscribersOf, register, List.getD_eq_getElem?_getD, h, Ne.symm h]

theorem subscribersOf_unregister (g : Graph) (d other : DependencyId) (s : SubscriberId) :
    (g.unregister d s).subscribersOf other =
      if other = d then (g.subscribersOf d).filter (· ≠ s) else g.subscribersOf other := by
  by_cases h : other = d
  · subst h
    cases hget : g.subscribers[other]? <;>
      simp [subscribersOf, unregister, List.getD_eq_getElem?_getD, hget]
  · simp [subscribersOf, unregister, List.getD_eq_getElem?_getD, h,
      Ne.symm h]

theorem subscribersOf_prune (g : Graph) (d other : DependencyId) (keep : SubscriberId → Bool) :
    (g.prune d keep).subscribersOf other =
      if other = d then (g.subscribersOf d).filter keep else g.subscribersOf other := by
  by_cases h : other = d
  · subst h
    cases hget : g.subscribers[other]? <;>
      simp [subscribersOf, prune, List.getD_eq_getElem?_getD, hget]
  · simp [subscribersOf, prune, List.getD_eq_getElem?_getD, h, Ne.symm h]

end Graph

end DataBinding
