import DataBinding.Script.Action
import DataBinding.Value

/-!
# Scripts

Client code (computed accessors, watcher callbacks, subscribers, methods and event handlers) is
written in a small language. An expression has a value and may run steps on the way; a step sets
the library to work, and may hand it client code to keep and run later. Code that only reads from
its own data need not be spelled out: it may be any function of what it reads (`Expr.asking`).
-/

namespace DataBinding

/-- Questions for the values at paths, each of them asked in view of the values so far, and what
they come to. -/
inductive Asking (α : Type)
  | answer (a : α)
  | get (path : String) (next : Value → Asking α)

mutual

/-- An expression of a script. -/
inductive Expr
  | const (v : Value)
  /-- The object of a name. -/
  | object (name : String)
  /-- A new object with these properties, perhaps under a name. -/
  | fresh (properties : List (String × Expr)) (name : Option String)
  /-- The value at a path from a named object, untracked. -/
  | lookup (object path : String)
  /-- The texts of the parts, one after the other. -/
  | concat (parts : List Expr)
  | sum (parts : List Expr)
  | same (a b : Expr)
  | less (a b : Expr)
  /-- The second expression if the first one is true, else the third. -/
  | choose (condition yes no : Expr)
  /-- Runs the steps, then evaluates. -/
  | after (steps : List Step) (result : Expr)
  /-- The value at a path from the data of the accessor or the method that is running. -/
  | get (path : String)
  /-- The data of the accessor or the method that is running. -/
  | data
  /-- A function of the data of the accessor or the method that is running, and of the values at
  the paths from there that it asks for. -/
  | asking (questions : ObjectId → Asking Value)
  /-- What the running client code was given: the new value of a callback, or the form value of
  an event's target. -/
  | given

/-- A step of a script. -/
inductive Step
  | note (text : String)
  | newObject (into : String) (properties : List (String × Expr))
  | set (object key : String) (value : Expr)
  | observe (value : Expr)
  | define (object key : String) (accessor : Expr)
  | assign (object path : String) (value : Expr)
  /-- Assigns from the data of the accessor or the method that is running. -/
  | assignSelf (path : String) (value : Expr)
  | subscriber (into : String) (body : List Step)
  | watch (into object path : String) (body : List Step)
  | listen (into node event : String) (body : List Step)
  | context (into object : String) (methods : List (String × List Step))
  | extend (into context method label : String) (body : List Step)
  | assignContext (context path : String) (value : Expr)
  | mount (into node object : String) (computed : List (String × Expr))
      (methods : List (String × List Step)) (convention : Convention)
  | assignModel (model path : String) (value : Expr)
  | object (action : ObjectAction)
  | tracking (action : TrackingAction)
  | watcher (action : WatcherAction)
  | node (action : NodeAction)
  | binding (action : BindingAction)

end

end DataBinding
