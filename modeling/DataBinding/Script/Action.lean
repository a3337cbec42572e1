import DataBinding.Convention

/-!
# Actions of a script

A script names what it works on. An action is a step without client code of its own: it looks
something up, changes something, or sets something off by the names given to it. Where an action
makes something, `into` is the name it is given.
-/

namespace DataBinding

/-- Actions on objects. `tracker` names an open evaluation that the reading belongs to. -/
inductive ObjectAction
  | get (object key : String) (tracker : Option String)
  | fetch (into object key : String)
  | keys (object : String)
  | has (object key : String)
  | same (object other : String)
  | reactive (object key : String)
  | dump (object : String)
  | resolve (object path : String) (tracker : Option String)
  | render (object text : String) (convention : Convention) (tracker : Option String)
  | path (source : String)

/-- Actions on dependencies, subscribers and evaluations. -/
inductive TrackingAction
  | dropSubscriber (subscriber : String)
  | newDependency (into : String)
  | dependencyOf (into object key : String)
  | register (dependency subscriber : String)
  | unregister (dependency subscriber : String)
  | notify (dependency : String)
  | count (dependency : String)
  | sameDependency (dependency other : String)
  | evaluating
  | enter (into subscriber : String) (previous : Option String)
  | finish (evaluation : String) (into : Option String)
  | abandon (evaluation : String)

/-- Actions on watchers. -/
inductive WatcherAction
  | info (watcher : String)
  | update (watcher : String)
  | dispose (watcher : String)
  | drop (watcher : String)
  | share (into watcher : String)

/-- Actions on nodes. -/
inductive NodeAction
  | element (into tag : String)
  | text (into content : String)
  | fragment (into : String)
  | parse (into markup : String)
  | child (into node : String) (indices : List Nat)
  | firstChild (into node : String)
  /-- The parent of a node, while somebody holds that parent: a node does not keep it alive, but
  the document does not forget it either. -/
  | parent (node : String)
  | tree (node : String)
  | kind (node : String)
  | same (node other : String)
  | append (node child : String)
  | remove (node child : String)
  | takeChildren (node : String)
  | getAttribute (node key : String)
  | setAttribute (node key content : String)
  | textContent (node : String)
  | innerMarkup (node : String)
  | outerMarkup (node : String)
  | value (node : String)
  | listeners (node : String)
  | setText (node content : String)
  | setMarkup (node markup : String)
  | setValue (node content : String)
  | unlisten (node listener : String)
  | dispatch (node event : String) (target : Option String)
  | input (node content : String)

/-- What can be shown for inspection. -/
inductive Inspectable
  | object
  | dependency
  | node
  | watcher
  | context
  | view
  | model

/-- Actions on contexts, views and view models. -/
inductive BindingAction
  | hasMethod (context method : String)
  | read (context path : String)
  | call (context method event target : String)
  | compile (into node context : String) (convention : Convention)
  | view (view : String)
  | viewWatcher (into view : String) (index : Nat)
  | disposeView (view : String)
  | dropView (view : String)
  | model (model : String)
  | readModel (model path : String)
  | callModel (model method event target : String)
  | unmount (model : String)
  | dropModel (model : String)
  | inspect (what : Inspectable) (name : String)

end DataBinding
