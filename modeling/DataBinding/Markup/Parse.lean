import DataBinding.Markup.Token

/-!
# Parsing markup

A forest is read token by token. Tags must be balanced: a closing tag closes the innermost open
element and must name it, and nothing may be open at the end. Comments yield nothing, and a void
element or one closed in its own tag has no content.
-/

namespace DataBinding.Markup

/-- An element whose closing tag has not come yet, with the trees read before it at its level. -/
structure OpenElement where
  tag : String
  attributes : Keyed String
  before : List Tree

/-- What has been read: the trees at the innermost level, and the open elements around them from
the innermost one outwards. -/
structure Unfinished where
  current : List Tree
  enclosing : List OpenElement

namespace Unfinished

/-- Nothing has been read. -/
def start : Unfinished := ⟨[], []⟩

/-- One more tree at the innermost level. -/
def add (u : Unfinished) (tree : Tree) : Unfinished :=
  { u with current := u.current ++ [tree] }

/-- One more open element. -/
def enter (u : Unfinished) (tag : String) (attributes : Keyed String) : Unfinished :=
  ⟨[], ⟨tag, attributes, u.current⟩ :: u.enclosing⟩

/-- The innermost element is closed, if it has the given tag. -/
def leave? (u : Unfinished) (tag : String) : Option Unfinished :=
  match u.enclosing with
  | [] => none
  | element :: enclosing =>
    if element.tag = tag then
      some ⟨element.before ++ [.element tag element.attributes u.current], enclosing⟩
    else none

/-- What one token changes. Only a closing tag can be out of place. -/
def grow? (u : Unfinished) : Token → Except Malformed Unfinished
  | .comment => .ok u
  | .text content => .ok (u.add (.text content))
  | .opening tag attributes selfClosed =>
    .ok (if selfClosed || isVoid tag then u.add (.element tag attributes [])
      else u.enter tag attributes)
  | .closing tag =>
    match u.leave? tag with
    | some outer => .ok outer
    | none => .error (.unexpectedClosingTag tag)

end Unfinished

/-- Reads a source to its end after `u`. A tag that is out of place shows after its end. -/
def forestFrom (u : Unfinished) (source : List Char) : Except Failure (List Tree) :=
  if _hsource : source = [] then
    match u.enclosing with
    | [] => .ok u.current
    | element :: _ => .error ⟨[], .unclosedTag element.tag⟩
  else
    match _hnext : Token.next source with
    | .error failure => .error failure
    | .ok (token, rest) =>
      match u.grow? token with
      | .error cause => .error ⟨rest, cause⟩
      | .ok grown => forestFrom grown rest
termination_by source.length
decreasing_by exact Token.length_of_next _hsource _hnext

/-- The forest of a markup source. -/
def parse (source : String) : Except Error (List Tree) :=
  (forestFrom .start source.toList).mapError fun failure =>
    .markup (Text.byteLength source.toList - Text.byteLength failure.rest) failure.cause

end DataBinding.Markup
