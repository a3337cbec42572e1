import DataBinding.Text.Quoted
import DataBinding.World.Show

/-!
# Inspection

The state in words, for someone who looks for a fault: a record is written as its name and its
fields between braces.
-/

namespace DataBinding

/-- A list of texts between square brackets. -/
def inspectList (items : List String) : String :=
  "[" ++ ", ".intercalate items ++ "]"

/-- A record: its name, and its fields between braces. -/
def inspectRecord (name : String) (fields : List (String × String)) : String :=
  name ++ " \x7b " ++ ", ".intercalate (fields.map fun field => field.1 ++ ": " ++ field.2) ++ " \x7d"

def Path.inspect (path : Path) : String :=
  inspectRecord "Path" [("source", Text.quoted path.source),
    ("segments", inspectList (path.segments.map Text.quoted))]

namespace World

def inspectObject (w : World) (id : ObjectId) : String :=
  inspectRecord "Object" [("keys", inspectList ((w.graph.keys id).map Text.quoted))]

def inspectDependency (w : World) (d : DependencyId) : String :=
  inspectRecord "Dependency" [("subscribers", toString (w.liveCount d))]

def inspectValue (w : World) : Value → String
  | .undefined => "Undefined"
  | .null => "Null"
  | .bool b => if b then "Bool(true)" else "Bool(false)"
  | .number n => "Number(" ++ n.inspect ++ ")"
  | .string s => "String(" ++ Text.quoted s ++ ")"
  | .object id => "Object(" ++ w.inspectObject id ++ ")"

def inspectWatcher (w : World) (id : WatcherId) : String :=
  inspectRecord "Watcher" [("path", (w.watcher id).path.inspect),
    ("value", w.inspectValue (w.watcher id).value)]

/-- The methods of a context are listed in the order of their names. -/
def inspectContext (w : World) (context : Context) : String :=
  inspectRecord "Context" [("data", w.inspectObject context.data),
    ("methods", inspectList ((context.methods.keys.mergeSort fun a b => a ≤ b).map Text.quoted))]

def inspectView (w : World) (id : ViewId) : String :=
  inspectRecord "View" [("watchers", inspectList ((w.view id).watchers.map w.inspectWatcher)),
    ("listeners", toString (w.view id).listeners.length)]

def inspectModel (w : World) (id : ModelId) : String :=
  let model := w.model id
  inspectRecord "ViewModel" [("context", w.inspectContext model.context),
    ("el", w.document.outerMarkup model.element), ("view", w.inspectView model.view)]

end World

end DataBinding
