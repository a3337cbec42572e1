import DataBinding.Convention
import DataBinding.Path

/-!
# Text templates

A template is text with placeholders, each a path between an opening and a closing delimiter. A
placeholder is matched lazily: it ends at the first closing delimiter after at least one
character, and its body never holds a line break. An opening delimiter that begins no placeholder
is text, and the search goes on one character further.

`Template.scan` cuts a text into pieces and loses nothing; `Template.parse` merges the literal
characters and reads the bodies as paths.
-/

namespace DataBinding

namespace Template

/-- The body of a placeholder: what lies before the first closing delimiter after the first
character, if it holds no line break. The text after the delimiter comes with it. -/
def body (closing : List Char) : List Char → Option (List Char × List Char)
  | [] => none
  | c :: text =>
    match Text.cutAt closing text with
    | none => none
    | some (middle, rest) => if '\n' ∈ c :: middle then none else some (c :: middle, rest)

/-- The placeholder at the beginning of a text, if there is one: its body and what follows. -/
def placeholder (opening closing text : List Char) : Option (List Char × List Char) :=
  (Text.afterLeading opening text).bind (body closing)

/-- The text after a placeholder is shorter than the text that begins with it. -/
theorem length_of_placeholder {opening closing text inner rest : List Char}
    (h : placeholder opening closing text = some (inner, rest)) : rest.length < text.length := by
  obtain ⟨tail, htail, hbody⟩ := Option.bind_eq_some_iff.1 h
  have htext := Text.afterLeading_eq_some_iff.1 htail
  cases tail with
  | nil => simp [body] at hbody
  | cons c tail =>
    simp only [body] at hbody
    split at hbody
    · simp at hbody
    · rename_i middle rest' hcut
      split at hbody
      · simp at hbody
      · obtain ⟨-, rfl⟩ := Prod.mk.inj (Option.some.inj hbody)
        rw [htext, Text.eq_of_cutAt_eq_some hcut]
        simp only [List.length_append, List.length_cons]
        omega

/-- A piece of a scanned text: one literal character, or the body of a placeholder. -/
inductive Piece
  | char (c : Char)
  | hole (body : List Char)
deriving DecidableEq

/-- The pieces of a text, from left to right. -/
def scan (opening closing : List Char) (text : List Char) : List Piece :=
  match _h : placeholder opening closing text with
  | some (inner, rest) => .hole inner :: scan opening closing rest
  | none =>
    match text with
    | [] => []
    | c :: text => .char c :: scan opening closing text
termination_by text.length
decreasing_by
  · exact length_of_placeholder _h
  · simp

end Template

/-- A part of a template: text to show as it is, or the path of a placeholder. -/
inductive Segment
  | literal (text : String)
  | placeholder (path : Path)
deriving DecidableEq

/-- Text with placeholders. -/
structure Template where
  segments : List Segment
deriving DecidableEq

namespace Template

/-- The segment for some literal characters, none for none. -/
def literal : List Char → List Segment
  | [] => []
  | c :: text => [.literal (String.ofList (c :: text))]

/-- The segments of some pieces, after the literal characters `before`: adjacent characters form
one literal, and no literal is empty. -/
def segmentsOf (before : List Char) : List Piece → List Segment
  | [] => literal before
  | .char c :: pieces => segmentsOf (before ++ [c]) pieces
  | .hole inner :: pieces =>
    literal before ++ .placeholder (Path.parse (String.ofList inner)) :: segmentsOf [] pieces

/-- The template of a text under two delimiters. -/
def parse (opening closing text : String) : Template :=
  ⟨segmentsOf [] (scan opening.toList closing.toList text.toList)⟩

/-- The template of a text under a convention. There is none under an empty opening delimiter,
which would have placeholders begin everywhere. -/
def parse? (convention : Convention) (text : String) : Option Template :=
  if convention.opening = "" then none else some (parse convention.opening convention.closing text)

/-- The paths of the placeholders, from left to right. -/
def placeholders (t : Template) : List Path :=
  t.segments.filterMap fun
    | .placeholder path => some path
    | .literal _ => none

/-- Whether there is any placeholder. -/
def hasPlaceholders (t : Template) : Bool :=
  !t.placeholders.isEmpty

end Template

end DataBinding
