import DataBinding.Error
import DataBinding.Path
import DataBinding.Value

/-!
# Reports

What a run of a script shows: the reply to each step, and the log of what client code was run in
between. Everything reported is a snapshot and does not change afterwards.
-/

namespace DataBinding

/-- A value as it is shown; of an object its name, if it has one, and its keys. -/
inductive ValueView
  | undefined
  | null
  | bool (b : Bool)
  | number (n : Number)
  | string (s : String)
  | object (name : Option String) (keys : List String)

/-- A watcher as it is shown. -/
structure WatcherView where
  path : String
  value : ValueView
  dependencies : Nat
  disposed : Bool

/-- A node as it is shown: its name, if it has one, and its markup. -/
structure NodeView where
  name : Option String
  markup : String

/-- A view as it is shown. -/
structure ViewView where
  watchers : List WatcherView
  listeners : Nat

/-- What a line of a tree shows of a node. -/
inductive NodeLine
  | fragment
  | text (content : String)
  | element (tag : String) (attributes : List (String × String)) (value : String)
      (listeners : Nat)

/-- A node of a tree with its depth. -/
structure TreeLine where
  depth : Nat
  node : NodeLine

/-- The reply to a step. -/
inductive Reply
  | nothing
  | flag (b : Bool)
  | count (n : Nat)
  | text (s : String)
  | failure (e : Error)
  | value (v : ValueView)
  | keys (keys : List String)
  /-- Whether a property is reactive, and the number of its live subscribers. -/
  | reactive (live : Option Nat)
  /-- The properties of an object, each with its value and its number of live subscribers. -/
  | dump (rows : List (String × ValueView × Option Nat))
  | path (p : Path)
  /-- A number of live subscribers. -/
  | size (live : Nat)
  | watcher (w : WatcherView)
  | node (n : NodeView)
  | nodes (ns : List NodeView)
  | tree (lines : List TreeLine)
  /-- What kind of node it is: the tag of an element, or whether it is a text. -/
  | kind (tag : Option String) (isText : Bool)
  | attributes (pairs : List (String × String))
  | view (v : ViewView)
  /-- A new view and the markup of the compiled node. -/
  | compiled (v : ViewView) (markup : String)
  /-- A view model: its view, the markup of its element and its data. -/
  | model (v : ViewView) (markup : String) (data : ValueView)

/-- What happened while client code ran. -/
inductive LogEntry
  | note (text : String)
  | callback (name : String) (value : ValueView) (evaluating : Bool)
  | invalidated (subscriber : String)
  | method (label event : String) (target : Option String) (value : String)
  | handler (name event : String) (target : Option String) (value : String)
  /-- A step of client code, after it was run. -/
  | step (keyword : String) (reply : Reply)

end DataBinding
