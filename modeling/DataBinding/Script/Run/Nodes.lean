import DataBinding.Binding.Events
import DataBinding.Script.Run.Objects

/-!
# Running actions on nodes
-/

namespace DataBinding

/-- The reply that shows a node. -/
def replyNode (id : NodeId) : Proc Reply :=
  Proc.ask fun w => .node (w.showNode id)

/-- The reply with the markup of a node. -/
def replyOuter (id : NodeId) : Proc Reply :=
  Proc.ask fun w => .text (w.document.outerMarkup id)

/-- One more node under a name. -/
def addNamedNode (into : String) (node : Node) : Proc Reply := do
  let id ← Proc.ask (·.document.nextNode)
  Proc.modify fun w => (w.onDocument (·.add node)).nameNode into id
  replyNode id

/-- Names a node, if there is one, and shows it. -/
def nameAndShow (into : String) (found : Option NodeId) : Proc Reply :=
  match found with
  | none => pure .nothing
  | some id => do
    Proc.modify (·.nameNode into id)
    replyNode id

/-- Runs an action on nodes. -/
def runNodeAction : NodeAction → Proc Reply
  | .element into tag => addNamedNode into (.new (.element tag))
  | .text into content => addNamedNode into { Node.new .text with text := content }
  | .fragment into => addNamedNode into (.new .fragment)
  | .parse into markup => do
    let w ← Proc.state
    match w.document.parse markup with
    | .error e => pure (.failure e)
    | .ok document => do
      Proc.modify fun w' => { w' with document }.nameNode into w.document.nextNode
      replyNode w.document.nextNode
  | .child into node indices => do
    let id ← named (·.nodes) node
    let found ← Proc.ask (·.document.descend? id indices)
    nameAndShow into found
  | .firstChild into node => do
    let id ← named (·.nodes) node
    let found ← Proc.ask fun w => (w.document.node id).children.head?
    nameAndShow into found
  | .parent node => do
    let id ← named (·.nodes) node
    match ← Proc.ask fun w => (w.document.node id).parent with
    | none => pure .nothing
    | some above => replyNode above
  | .tree node => do
    let id ← named (·.nodes) node
    Proc.ask fun w => .tree (w.document.lines id)
  | .kind node => do
    let id ← named (·.nodes) node
    Proc.ask fun w => .kind (w.document.node id).tag? ((w.document.node id).kind == .text)
  | .same node other => do
    let id ← named (·.nodes) node
    let otherId ← named (·.nodes) other
    pure (.flag (id == otherId))
  | .append node child => do
    let id ← named (·.nodes) node
    let childId ← named (·.nodes) child
    Proc.modify (·.onDocument (·.append id childId))
    replyOuter id
  | .remove node child => do
    let id ← named (·.nodes) node
    let childId ← named (·.nodes) child
    let removed ← Proc.ask fun w => (w.document.remove id childId).2
    Proc.modify (·.onDocument fun d => (d.remove id childId).1)
    pure (.flag removed)
  | .takeChildren node => do
    let id ← named (·.nodes) node
    let children ← Proc.ask fun w => (w.document.node id).children
    Proc.modify (·.onDocument (·.takeChildren id))
    Proc.ask fun w => .nodes (children.map w.showNode)
  | .getAttribute node key => do
    let id ← named (·.nodes) node
    match ← Proc.ask fun w => (w.document.node id).attributes.find? key with
    | none => pure .nothing
    | some content => pure (.text content)
  | .setAttribute node key content => do
    let id ← named (·.nodes) node
    Proc.modify (·.onDocument (·.setAttribute id key content))
    Proc.ask fun w => .attributes (w.document.node id).attributes.entries
  | .textContent node => do
    let id ← named (·.nodes) node
    Proc.ask fun w => .text (w.document.textContent id)
  | .innerMarkup node => do
    let id ← named (·.nodes) node
    Proc.ask fun w => .text (w.document.innerMarkup id)
  | .outerMarkup node => do
    let id ← named (·.nodes) node
    replyOuter id
  | .value node => do
    let id ← named (·.nodes) node
    Proc.ask fun w => .text (w.document.node id).value
  | .listeners node => do
    let id ← named (·.nodes) node
    Proc.ask fun w => .count (w.document.node id).listeners.length
  | .setText node content => do
    let id ← named (·.nodes) node
    Proc.modify (·.onDocument (·.setText id content))
    replyOuter id
  | .setMarkup node markup => do
    let id ← named (·.nodes) node
    let w ← Proc.state
    match w.document.setMarkup id markup with
    | .error e => pure (.failure e)
    | .ok document => do
      Proc.modify fun w => { w with document }
      replyOuter id
  | .setValue node content => do
    let id ← named (·.nodes) node
    Proc.modify (·.onDocument (·.setValue id content))
    pure .nothing
  | .unlisten node listener => do
    let id ← named (·.nodes) node
    let listenerId ← named (·.listeners) listener
    let there ← Proc.ask (·.document.hasListener id listenerId)
    Proc.modify (·.onDocument (·.unlisten id listenerId))
    pure (.flag there)
  | .dispatch node event target => do
    let id ← named (·.nodes) node
    let targetId ← named (·.nodes) (target.getD node)
    dispatch id ⟨event, targetId⟩
    pure .nothing
  | .input node content => do
    let id ← named (·.nodes) node
    input id content
    pure .nothing

end DataBinding
