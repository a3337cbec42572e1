import DataBinding.Keyed
import DataBinding.Markup.Entity

/-!
# Markup trees

The content of a document as a tree: elements with attributes and children, and text. `render`
writes a forest as markup. A void element has no closing tag, and its children are not written.
-/

namespace DataBinding.Markup

/-- An element with its content, or a text. -/
inductive Tree
  | element (tag : String) (attributes : Keyed String) (children : List Tree)
  | text (content : String)

/-- The tags of elements that never have content. -/
def voidTags : List String :=
  ["area", "base", "br", "col", "embed", "hr", "img", "input", "link", "meta", "source", "track",
   "wbr"]

/-- Whether an element of this tag never has content. -/
def isVoid (tag : String) : Bool :=
  voidTags.contains tag

/-- An attribute as it is written inside a tag. -/
def renderAttribute (pair : String × String) : List Char :=
  ' ' :: pair.1.toList ++ '=' :: '\x22' :: escape true pair.2.toList ++ ['\x22']

/-- The opening tag of an element. -/
def renderOpening (tag : String) (attributes : Keyed String) : List Char :=
  '<' :: tag.toList ++ attributes.entries.flatMap renderAttribute ++ ['>']

mutual

/-- The markup of a tree. -/
def Tree.render : Tree → List Char
  | .element tag attributes children =>
    renderOpening tag attributes ++
      if isVoid tag then [] else renderAll children ++ '<' :: '/' :: tag.toList ++ ['>']
  | .text content => escape false content.toList

/-- The markup of a forest. -/
def renderAll : List Tree → List Char
  | [] => []
  | tree :: trees => tree.render ++ renderAll trees

end

mutual

/-- The text of a tree: all its text pieces in order. -/
def Tree.content : Tree → List Char
  | .element _ _ children => contentAll children
  | .text content => content.toList

/-- The text of a forest. -/
def contentAll : List Tree → List Char
  | [] => []
  | tree :: trees => tree.content ++ contentAll trees

end

end DataBinding.Markup
