import DataBinding.Document.Basic
import DataBinding.Markup.Parse
import DataBinding.Script.Report

/-!
# Markup in a document

The content of a node as a forest of markup trees, and back: `trees` reads a node, `plantAll` adds
a forest to a node. Markup, text and tree lines of a node are those of its forest. Walks go down at
most as many levels as there are nodes, which every forest stays below.
-/

namespace DataBinding.Document

/-! ## Reading -/

/-- The forest that a node stands for, at most `levels` deep: an element or a text is one tree,
a fragment is what it holds. -/
def treesWithin (d : Document) : (levels : Nat) → NodeId → List Markup.Tree
  | 0, _ => []
  | levels + 1, id =>
    let n := d.node id
    let content := n.children.flatMap (d.treesWithin levels)
    match n.kind with
    | .element tag => [.element tag n.attributes content]
    | .text => [.text n.text]
    | .fragment => content

/-- The forest that a node stands for. -/
def trees (d : Document) (id : NodeId) : List Markup.Tree :=
  d.treesWithin d.nodes.length id

/-- The markup of a node. -/
def outerMarkup (d : Document) (id : NodeId) : String :=
  String.ofList (Markup.renderAll (d.trees id))

/-- The markup of the children of a node. -/
def innerMarkup (d : Document) (id : NodeId) : String :=
  String.ofList (Markup.renderAll ((d.node id).children.flatMap d.trees))

/-- The text of a node and its descendants. -/
def textContent (d : Document) (id : NodeId) : String :=
  String.ofList (Markup.contentAll (d.trees id))

/-- A node as a line of a tree. -/
def line (d : Document) (id : NodeId) : NodeLine :=
  let n := d.node id
  match n.kind with
  | .element tag => .element tag n.attributes.entries n.value n.listeners.length
  | .text => .text n.text
  | .fragment => .fragment

/-- A node and its descendants in preorder, at most `levels` deep. -/
def linesWithin (d : Document) : (levels depth : Nat) → NodeId → List TreeLine
  | 0, _, _ => []
  | levels + 1, depth, id =>
    ⟨depth, d.line id⟩ :: (d.node id).children.flatMap (d.linesWithin levels (depth + 1))

/-- A node and its descendants in preorder. -/
def lines (d : Document) (id : NodeId) : List TreeLine :=
  d.linesWithin d.nodes.length 0 id

/-! ## Planting -/

mutual

/-- Adds a tree as the last child of `parent`. -/
def plant (parent : NodeId) : Markup.Tree → Document → Document
  | .element tag attributes children, d =>
    plantAll d.nextNode children
      ((d.add { Node.new (.element tag) with attributes }).place parent d.nextNode)
  | .text content, d => d.addText parent content

/-- Adds a forest to the end of the children of `parent`. -/
def plantAll (parent : NodeId) : List Markup.Tree → Document → Document
  | [], d => d
  | tree :: trees, d => plantAll parent trees (plant parent tree d)

end

/-- A new fragment with the forest of a markup, at the place `nextNode`. -/
def parse (d : Document) (markup : String) : Except Error Document :=
  (Markup.parse markup).map fun trees => plantAll d.nextNode trees (d.add (.new .fragment))

/-- Replaces the children of a node by the forest of a markup. Nothing changes if the markup does
not parse. -/
def setMarkup (d : Document) (id : NodeId) (markup : String) : Except Error Document :=
  (Markup.parse markup).map fun trees => plantAll id trees (d.takeChildren id)

/-- Replaces the children of a node by the forest of a markup, or by the markup as a text if it
does not parse. -/
def showMarkup (d : Document) (id : NodeId) (markup : String) : Document :=
  match d.setMarkup id markup with
  | .ok d => d
  | .error _ => d.setText id markup

end DataBinding.Document
