import DataBinding.Keyed
import DataBinding.Path
import DataBinding.Script.Syntax

/-!
# The document

A document holds nodes: elements, texts and fragments. The tree is kept twice, as the parent of
each node and as the children of each node; `append`, `remove` and `takeChildren` change both
together. Nodes are known by their places; a node that is not there is an empty fragment.

A node holds its children, and its children do not hold it: they have no parent when nobody holds
it any more. The document keeps every node that was ever made, and so has it as their parent even
then. Only a question for that parent can tell; an `append` elsewhere takes them away from it, but
nobody can look at the children that it is left with.
-/

namespace DataBinding

/-- The identity of a node. -/
abbrev NodeId := Nat

/-- The identity of an event listener. -/
abbrev ListenerId := Nat

/-- A method of client code, with the label under which its calls are logged. -/
structure Method where
  label : String
  body : List Step

/-- What bindings are compiled against: a data root, and methods by name. -/
structure Context where
  data : ObjectId
  methods : Keyed Method

/-- What is delivered to listeners. -/
structure Event where
  kind : String
  target : NodeId

/-- What a listener does. -/
inductive Handler
  /-- Runs client code. -/
  | client (name : String) (body : List Step)
  /-- Writes the form value of the event's target to a path. -/
  | writeBack (data : ObjectId) (path : Path)
  /-- Calls a method of a context. -/
  | method (context : Context) (method : Method)

/-- A handler for one kind of event. -/
structure Listener where
  id : ListenerId
  event : String
  handler : Handler

/-- What a node is. -/
inductive NodeKind
  | element (tag : String)
  | text
  | fragment
deriving DecidableEq

/-- A node of a document. Only a text node has text, only an element has attributes. -/
structure Node where
  kind : NodeKind
  parent : Option NodeId
  children : List NodeId
  attributes : Keyed String
  text : String
  value : String
  listeners : List Listener

/-- A new node without anything. -/
def Node.new (kind : NodeKind) : Node :=
  ⟨kind, none, [], .empty, "", "", []⟩

/-- The tag of an element. -/
def Node.tag? (n : Node) : Option String :=
  match n.kind with
  | .element tag => some tag
  | _ => none

/-- The nodes, and the identity of the next listener. -/
structure Document where
  nodes : List Node
  nextListener : ListenerId

namespace Document

/-- No nodes. -/
def empty : Document := ⟨[], 0⟩

/-- The node at a place. -/
def node (d : Document) (id : NodeId) : Node :=
  d.nodes.getD id (.new .fragment)

/-- Changes one node. -/
def modify (d : Document) (id : NodeId) (change : Node → Node) : Document :=
  { d with nodes := d.nodes.modify id change }

/-- The place of the next node. -/
def nextNode (d : Document) : NodeId :=
  d.nodes.length

/-- One more node, at the place `nextNode`. -/
def add (d : Document) (node : Node) : Document :=
  { d with nodes := d.nodes ++ [node] }

theorem node_modify (d : Document) {id : NodeId} (hid : id < d.nodes.length) (other : NodeId)
    (change : Node → Node) :
    (d.modify id change).node other = if other = id then change (d.node id) else d.node other := by
  by_cases h : other = id
  · subst h
    simp [node, modify, List.getD_eq_getElem?_getD, hid]
  · simp [node, modify, List.getD_eq_getElem?_getD, h, Ne.symm h]

theorem node_add_next (d : Document) (node : Node) : (d.add node).node d.nextNode = node := by
  simp [Document.node, add, nextNode, List.getD_eq_getElem?_getD]

theorem node_add_of_lt (d : Document) (node : Node) {id : NodeId} (hid : id < d.nodes.length) :
    (d.add node).node id = d.node id := by
  simp [Document.node, add, List.getD_eq_getElem?_getD, List.getElem?_append_left hid]

/-! ## Changing the tree -/

/-- Takes `child` out of the children of `parent`; it has no parent then. -/
def detach (d : Document) (parent child : NodeId) : Document :=
  (d.modify parent fun n => { n with children := n.children.erase child }).modify child
    fun n => { n with parent := none }

/-- Removes a child, and answers whether it was one. -/
def remove (d : Document) (parent child : NodeId) : Document × Bool :=
  if child ∈ (d.node parent).children then (d.detach parent child, true) else (d, false)

/-- Detaches every child of a node. -/
def takeChildren (d : Document) (id : NodeId) : Document :=
  (d.node id).children.foldl (fun d child => d.modify child fun n => { n with parent := none })
    (d.modify id fun n => { n with children := [] })

/-- Moves an element or a text to the end of the children of `parent`, out of the place where it
was. -/
def place (d : Document) (parent child : NodeId) : Document :=
  let d :=
    match (d.node child).parent with
    | some former => (d.remove former child).1
    | none => d
  (d.modify child fun n => { n with parent := some parent }).modify parent
    fun n => { n with children := n.children ++ [child] }

/-- Appends a node to the children of `parent`. Of a fragment the children are appended, and the
fragment is left empty. -/
def append (d : Document) (parent child : NodeId) : Document :=
  match (d.node child).kind with
  | .fragment => (d.node child).children.foldl (·.place parent ·) (d.takeChildren child)
  | _ => d.place parent child

/-- One more text node, as the last child of `parent`. -/
def addText (d : Document) (parent : NodeId) (content : String) : Document :=
  (d.add { Node.new .text with text := content }).place parent d.nextNode

/-- Makes `content` the text of a text node, or the only child of any other node. The empty text
leaves no child. -/
def setText (d : Document) (id : NodeId) (content : String) : Document :=
  match (d.node id).kind with
  | .text => d.modify id fun n => { n with text := content }
  | _ => if content = "" then d.takeChildren id else (d.takeChildren id).addText id content

/-! ## Attributes, form values and listeners -/

/-- Writes an attribute. -/
def setAttribute (d : Document) (id : NodeId) (key content : String) : Document :=
  d.modify id fun n => { n with attributes := n.attributes.put key content }

/-- Sets the form value. -/
def setValue (d : Document) (id : NodeId) (content : String) : Document :=
  d.modify id fun n => { n with value := content }

/-- Adds a listener, under the identity `nextListener`. -/
def listen (d : Document) (id : NodeId) (event : String) (handler : Handler) : Document :=
  { d.modify id fun n => { n with listeners := n.listeners ++ [⟨d.nextListener, event, handler⟩] }
    with nextListener := d.nextListener + 1 }

/-- Removes a listener from a node. -/
def unlisten (d : Document) (id : NodeId) (listener : ListenerId) : Document :=
  d.modify id fun n => { n with listeners := n.listeners.filter (·.id ≠ listener) }

/-- Whether a listener is on a node. -/
def hasListener (d : Document) (id : NodeId) (listener : ListenerId) : Bool :=
  (d.node id).listeners.any (·.id = listener)

/-- The listeners of a node for one kind of event, in the order in which they were added. -/
def listenersFor (d : Document) (id : NodeId) (event : String) : List Listener :=
  (d.node id).listeners.filter (·.event = event)

/-- The node reached from another one by child indices. -/
def descend? (d : Document) : (id : NodeId) → (indices : List Nat) → Option NodeId
  | id, [] => some id
  | id, index :: indices => (d.node id).children[index]?.bind fun child => d.descend? child indices

end Document

end DataBinding
