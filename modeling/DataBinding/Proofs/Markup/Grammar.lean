import DataBinding.Markup.Parse

/-!
# The grammar of markup

What a source says, without a parser: each construct is a relation between
a text that begins with it, what it yields, and the text that follows.
`Forest` is the grammar of whole sources. A construct is as long as it can
be: a run of characters ends only where a character of another kind comes,
and a comment or a quoted value ends at the first mark that can end it.
-/

namespace DataBinding.Markup.Grammar

/-- The longest run of characters of one kind at the beginning of a text. -/
structure Run (kind : Char → Bool) (text run rest : List Char) : Prop where
  split : text = run ++ rest
  all : ∀ c ∈ run, kind c = true
  stops : ∀ c ∈ rest.head?, kind c = false

/-- The characters of a value that stands without quotes. -/
def isBare (c : Char) : Bool :=
  !(Text.isBlank c || c = '>')

/-- A comment, up to the first `-->` of the text. The dashes that begin it
may be those that end it. -/
structure Comment (text rest : List Char) : Prop where
  begins : "<!--".toList <+: text
  ends : ∃ before, text = before ++ "-->".toList ++ rest ∧
    ∀ other after, text = other ++ "-->".toList ++ after → before.length ≤ other.length

/-- The decoded value of an attribute: between two quotes of one kind, or a
run that begins with no quote. -/
inductive Value : (text : List Char) → String → (rest : List Char) → Prop
  | quoted {quote : Char} {inner rest : List Char} :
      isQuote quote = true → quote ∉ inner →
      Value (quote :: inner ++ quote :: rest) (String.ofList (decode inner)) rest
  | bare {text run rest : List Char} :
      (∀ c ∈ text.head?, isQuote c = false) → Run isBare text run rest →
      Value text (String.ofList (decode run)) rest

/-- An attribute: a name, and a value behind an equals sign if there is
one. Blanks around the sign are skipped in full. -/
inductive Attribute : (text : List Char) → String × String → (rest : List Char) → Prop
  | plain {text name behind blanks rest : List Char} :
      name ≠ [] → Run isNameChar text name behind → Run Text.isBlank behind blanks rest →
      rest.head? ≠ some '=' → Attribute text (String.ofList name, "") rest
  | valued {text name behind blanks after blanks' begin rest : List Char} {content : String} :
      name ≠ [] → Run isNameChar text name behind → Run Text.isBlank behind blanks ('=' :: after) →
      Run Text.isBlank after blanks' begin → Value begin content rest →
      Attribute text (String.ofList name, content) rest

/-- The attributes of an opening tag up to its end, with whether it closes
the element at once. -/
inductive Attributes : (text : List Char) → List (String × String) → (closed : Bool) →
    (rest : List Char) → Prop
  | ended {text blanks rest : List Char} :
      Run Text.isBlank text blanks ('>' :: rest) → Attributes text [] false rest
  | closed {text blanks rest : List Char} :
      Run Text.isBlank text blanks ('/' :: '>' :: rest) → Attributes text [] true rest
  | more {text blanks begin behind rest : List Char} {pair : String × String}
      {pairs : List (String × String)} {closed : Bool} :
      Run Text.isBlank text blanks begin → Attribute begin pair behind →
      Attributes behind pairs closed rest → Attributes text (pair :: pairs) closed rest

/-- An opening tag. Of an attribute that is repeated the last value counts,
at the first place. -/
inductive Opening : (text : List Char) → (tag : String) → Keyed String → (closed : Bool) →
    (rest : List Char) → Prop
  | intro {name after behind rest : List Char} {pairs : List (String × String)} {closed : Bool} :
      ¬ "<!--".toList <+: '<' :: after → name ≠ [] → Run isNameChar after name behind →
      Attributes behind pairs closed rest →
      Opening ('<' :: after) (tagOf name) (Keyed.ofList pairs) closed rest

/-- A closing tag; the case of ASCII letters does not count. -/
inductive Closing : (text : List Char) → (tag : String) → (rest : List Char) → Prop
  | intro {name after behind blanks rest : List Char} :
      Run isNameChar after name behind → Run Text.isBlank behind blanks ('>' :: rest) →
      Closing ('<' :: '/' :: after) (tagOf name) rest

/-- A forest: comments, texts, elements without content, and elements that
hold a forest between an opening tag and a closing tag that names it. -/
inductive Forest : (text : List Char) → List Tree → (rest : List Char) → Prop
  | nil (rest : List Char) : Forest rest [] rest
  | comment {text behind rest : List Char} {forest : List Tree} :
      Comment text behind → Forest behind forest rest → Forest text forest rest
  | text {text run behind rest : List Char} {forest : List Tree} :
      run ≠ [] → Run (· ≠ '<') text run behind → Forest behind forest rest →
      Forest text (.text (String.ofList (decode run)) :: forest) rest
  | childless {text behind rest : List Char} {tag : String} {attributes : Keyed String}
      {closed : Bool} {forest : List Tree} :
      Opening text tag attributes closed behind → (closed || isVoid tag) = true →
      Forest behind forest rest → Forest text (.element tag attributes [] :: forest) rest
  | element {text inside closing behind rest : List Char} {tag : String}
      {attributes : Keyed String} {children forest : List Tree} :
      Opening text tag attributes false inside → isVoid tag = false →
      Forest inside children closing → Closing closing tag behind →
      Forest behind forest rest → Forest text (.element tag attributes children :: forest) rest

end DataBinding.Markup.Grammar
