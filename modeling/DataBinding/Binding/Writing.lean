import DataBinding.Binding.Watching

/-!
# Writing

Writing a property stores the value, if it is not the same as the current one, and tells the
subscribers of a reactive property; what is written into one becomes reactive as well. A computed
property ignores the write. Assigning to a path writes its last key on the object that the other
keys lead to, if they lead to one.
-/

namespace DataBinding

/-- A new object with some properties, set in order. -/
def createObject (properties : List (String × Value)) : Proc ObjectId := do
  let id ← Proc.ask (·.graph.nextObject)
  Proc.modify (·.onGraph fun g => properties.foldl (fun g entry => g.fill id entry) g.addObject)
  pure id

/-- Writes a property of an object. -/
def setProperty (id : ObjectId) (key : String) (value : Value) : Proc Unit := do
  match ← Proc.ask (·.graph.slot? id key) with
  | some (.computed _) => pure ()
  | none => Proc.modify (·.onGraph (·.store id key value))
  | some (.data property) =>
    if property.value.same value then pure ()
    else do
      Proc.modify (·.onGraph (·.store id key value))
      match property.dependency with
      | none => pure ()
      | some d => do
        Proc.modify (·.onGraph (·.observe value))
        notify d

/-- The object that all keys but the last lead to, untracked, and the last key. -/
def walkToLast : (id : ObjectId) → (keys : List String) → Proc (Option (ObjectId × String))
  | _, [] => pure none
  | id, [key] => pure (some (id, key))
  | id, key :: next :: keys => do
    match ← readProperty id key none with
    | .object id => walkToLast id (next :: keys)
    | _ => pure none

/-- Writes a value at the end of a path. Answers whether there is an object to write to. -/
def Path.assign (path : Path) (root : ObjectId) (value : Value) : Proc Bool := do
  match ← walkToLast root path.segments with
  | none => pure false
  | some (id, key) => do
    setProperty id key value
    pure true

end DataBinding
