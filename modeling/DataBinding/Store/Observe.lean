import DataBinding.Store.Graph

/-!
# Observation

Observing a value makes every data property reachable from it through data values reactive. A
property that has a dependency keeps it, so observing twice is observing once. Accessors are not
followed.
-/

namespace DataBinding.Graph

/-- The objects that the data properties of an object hold. -/
def neighbours (g : Graph) (id : ObjectId) : List ObjectId :=
  (g.slots id).entries.filterMap fun entry =>
    match entry.2 with
    | .data property => property.value.object?
    | .computed _ => none

/-- Visits an object and what is reachable from it, depth first and each object once, after those
in `seen`. No path without repetition is longer than there are objects, so with that many `levels`
nothing is left out. -/
def visit (g : Graph) : (levels : Nat) → (seen : List ObjectId) → ObjectId → List ObjectId
  | 0, seen, _ => seen
  | levels + 1, seen, id =>
    if id ∈ seen then seen
    else (g.neighbours id).foldl (g.visit levels) (seen ++ [id])

/-- The objects reachable from a value. -/
def reachable (g : Graph) (v : Value) : List ObjectId :=
  match v with
  | .object id => g.visit g.objects.length [] id
  | _ => []

/-- Slots in which every data property has a dependency; new ones are numbered from `next` on. -/
def withDependencies (next : DependencyId) : List (String × Slot) → List (String × Slot)
  | [] => []
  | (key, .data ⟨value, none⟩) :: entries =>
    (key, .data ⟨value, some next⟩) :: withDependencies (next + 1) entries
  | entry :: entries => entry :: withDependencies next entries

/-- The number of data properties without a dependency. -/
def plainCount (entries : List (String × Slot)) : Nat :=
  entries.countP fun entry =>
    match entry.2 with
    | .data property => property.dependency.isNone
    | .computed _ => false

/-- Makes every data property of one object reactive. -/
def makeReactive (g : Graph) (id : ObjectId) : Graph :=
  { objects := g.objects.modify id fun slots => ⟨withDependencies g.nextDependency slots.entries⟩
    subscribers := g.subscribers ++ List.replicate (plainCount (g.slots id).entries) [] }

/-- Makes every data property reachable from a value reactive. -/
def observe (g : Graph) (v : Value) : Graph :=
  (g.reachable v).foldl makeReactive g

end DataBinding.Graph
