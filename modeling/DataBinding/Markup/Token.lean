import DataBinding.Error
import DataBinding.Markup.Tree
import DataBinding.Text.Blank

/-!
# Tokens of markup

A markup source is read as comments, closing tags, opening tags and text. `Token.next` takes one
token off the beginning; what it leaves is shorter, and a failure carries the text at which it
shows, so that its position is the length of what was read before.
-/

namespace DataBinding.Markup

/-- Why a source cannot be read, and the part of it from where that shows. -/
structure Failure where
  rest : List Char
  cause : Malformed

/-- A reading of the beginning of a text: its result with the text that follows, or a failure. -/
abbrev Reading (α : Type) := Except Failure (α × List Char)

/-- A piece of a markup source. -/
inductive Token
  | comment
  | closing (tag : String)
  | opening (tag : String) (attributes : Keyed String) (selfClosed : Bool)
  | text (content : String)

/-- The single and the double quotation mark. -/
def isQuote (c : Char) : Bool :=
  c = '\x22' || c = '\x27'

/-- The characters of tag and attribute names. -/
def isNameChar (c : Char) : Bool :=
  !(Text.isBlank c || isQuote c || c = '>' || c = '/' || c = '=' || c = '<')

/-- The name at the beginning of a text, as long as possible and perhaps empty. -/
def name (text : List Char) : List Char :=
  text.takeWhile isNameChar

/-- The text after the name at its beginning. -/
def afterName (text : List Char) : List Char :=
  text.dropWhile isNameChar

/-- A tag name is read in lower case; only ASCII letters have cases here. -/
def tagOf (name : List Char) : String :=
  String.ofList (name.map Char.toLower)

/-- The bracket that ends a tag must come now. -/
def bracket : List Char → Reading Unit
  | '>' :: rest => .ok ((), rest)
  | text => .error ⟨text, .closingBracketExpected⟩

/-- The decoded value of an attribute, after the equals sign and any blanks: up to the same quote
if it begins with one, else up to a blank or the end of the tag. -/
def value : List Char → Reading String
  | [] => .ok ("", [])
  | c :: text =>
    if isQuote c then
      match Text.cutAt [c] text with
      | some (inner, rest) => .ok (String.ofList (decode inner), rest)
      | none => .error ⟨text, .unterminatedAttributeValue⟩
    else
      let bare (c : Char) : Bool := !(Text.isBlank c || c = '>')
      .ok (String.ofList (decode ((c :: text).takeWhile bare)), (c :: text).dropWhile bare)

/-- The value of an attribute after its name and any blanks: empty without an equals sign. -/
def valueAfterName : List Char → Reading String
  | '=' :: text => value (Text.trimStart text)
  | text => .ok ("", text)

/-- One attribute: its name and its value. -/
def attributeOf (text : List Char) : Reading (String × String) :=
  if name text = [] then .error ⟨text, .attributeNameExpected⟩
  else
    match valueAfterName (Text.trimStart (afterName text)) with
    | .error failure => .error failure
    | .ok (content, rest) => .ok ((String.ofList (name text), content), rest)

/-! ## What is left is shorter -/

theorem length_dropWhile_le (p : Char → Bool) (text : List Char) :
    (text.dropWhile p).length ≤ text.length :=
  (List.dropWhile_sublist p).length_le

theorem length_trimStart_le (text : List Char) : (Text.trimStart text).length ≤ text.length :=
  length_dropWhile_le _ _

theorem length_of_value {text rest : List Char} {content : String}
    (h : value text = .ok (content, rest)) : rest.length ≤ text.length := by
  cases text with
  | nil =>
    obtain ⟨-, rfl⟩ := Prod.mk.inj (Except.ok.inj h)
    exact Nat.le_refl _
  | cons c text =>
    simp only [value] at h
    split at h
    · split at h
      · rename_i inner rest' hcut
        obtain ⟨-, rfl⟩ := Prod.mk.inj (Except.ok.inj h)
        rw [Text.eq_of_cutAt_eq_some hcut]
        simp only [List.length_cons, List.length_append]
        omega
      · cases h
    · obtain ⟨-, rfl⟩ := Prod.mk.inj (Except.ok.inj h)
      exact length_dropWhile_le _ _

theorem length_of_valueAfterName {text rest : List Char} {content : String}
    (h : valueAfterName text = .ok (content, rest)) : rest.length ≤ text.length := by
  unfold valueAfterName at h
  split at h
  · have hvalue := length_of_value h
    rename_i tail
    have htrim := length_trimStart_le tail
    simp only [List.length_cons]
    omega
  · obtain ⟨-, rfl⟩ := Prod.mk.inj (Except.ok.inj h)
    exact Nat.le_refl _

theorem length_afterName_lt {text : List Char} (h : name text ≠ []) :
    (afterName text).length < text.length := by
  have hsplit : name text ++ afterName text = text := List.takeWhile_append_dropWhile
  have hpos := List.length_pos_iff.2 h
  rw [← congrArg List.length hsplit, List.length_append]
  omega

theorem length_of_attributeOf {text rest : List Char} {pair : String × String}
    (h : attributeOf text = .ok (pair, rest)) : rest.length < text.length := by
  unfold attributeOf at h
  split at h
  · cases h
  · rename_i hname
    split at h
    · cases h
    · rename_i content rest' hvalue
      obtain ⟨-, rfl⟩ := Prod.mk.inj (Except.ok.inj h)
      have hle := length_of_valueAfterName hvalue
      have htrim := length_trimStart_le (afterName text)
      have hlt := length_afterName_lt hname
      omega

theorem length_of_bracket {text rest : List Char} {u : Unit} (h : bracket text = .ok (u, rest)) :
    rest.length < text.length := by
  unfold bracket at h
  split at h
  · obtain ⟨-, rfl⟩ := Prod.mk.inj (Except.ok.inj h)
    simp
  · cases h

/-! ## Tags -/

/-- The rest of an opening tag: attributes up to `>`, or up to `/>`, which closes the element at
once. Of an attribute that is repeated the last value counts, at the first place. -/
def attributes (found : Keyed String) (text : List Char) : Reading (Keyed String × Bool) :=
  match _h : Text.trimStart text with
  | [] => .error ⟨[], .unterminatedTag⟩
  | '>' :: rest => .ok ((found, false), rest)
  | '/' :: rest => (bracket rest).map fun reading => ((found, true), reading.2)
  | c :: more =>
    match _hattribute : attributeOf (c :: more) with
    | .error failure => .error failure
    | .ok (pair, rest) => attributes (found.put pair.1 pair.2) rest
termination_by text.length
decreasing_by
  have hlt := length_of_attributeOf _hattribute
  have hle := length_trimStart_le text
  rw [_h] at hle
  omega

theorem length_of_attributes {found : Keyed String} {text rest : List Char}
    {result : Keyed String × Bool} (h : attributes found text = .ok (result, rest)) :
    rest.length < text.length := by
  fun_induction attributes found text with
  | case1 => cases h
  | case2 found text rest' htrim =>
    obtain ⟨-, rfl⟩ := Prod.mk.inj (Except.ok.inj h)
    have hle := length_trimStart_le text
    rw [htrim, List.length_cons] at hle
    omega
  | case3 found text rest' htrim =>
    have hle := length_trimStart_le text
    rw [htrim, List.length_cons] at hle
    cases hbracket : bracket rest' with
    | error failure => rw [hbracket] at h; cases h
    | ok reading =>
      rw [hbracket] at h
      obtain ⟨-, rfl⟩ := Prod.mk.inj (Except.ok.inj h)
      have hlt := length_of_bracket hbracket
      omega
  | case4 => cases h
  | case5 found text c more _ _ htrim pair rest' hattribute ih =>
    have hle := length_trimStart_le text
    rw [htrim] at hle
    have hlt := length_of_attributeOf hattribute
    have := ih h
    omega

/-- The rest of an opening tag after its `<`. -/
def openingTag (text : List Char) : Reading Token :=
  if name text = [] then .error ⟨text, .tagNameExpected⟩
  else
    (attributes .empty (afterName text)).map fun reading =>
      (.opening (tagOf (name text)) reading.1.1 reading.1.2, reading.2)

/-- The rest of a closing tag after its `</`. -/
def closingTag (text : List Char) : Reading Token :=
  (bracket (Text.trimStart (afterName text))).map fun reading =>
    (.closing (tagOf (name text)), reading.2)

/-- The first token of a source that is not empty. The dashes that begin a comment may also be
those that end it. -/
def Token.next (source : List Char) : Reading Token :=
  if (Text.afterLeading "<!--".toList source).isSome then
    match Text.cutAt "-->".toList source with
    | some (_, rest) => .ok (.comment, rest)
    | none => .error ⟨source, .unterminatedComment⟩
  else
    match source with
    | '<' :: '/' :: rest => closingTag rest
    | '<' :: rest => openingTag rest
    | _ =>
      .ok (.text (String.ofList (decode (source.takeWhile (· ≠ '<')))), source.dropWhile (· ≠ '<'))

theorem length_afterName_le (text : List Char) : (afterName text).length ≤ text.length :=
  length_dropWhile_le _ _

theorem Token.length_of_next {source rest : List Char} {token : Token} (hsource : source ≠ [])
    (h : Token.next source = .ok (token, rest)) : rest.length < source.length := by
  unfold Token.next at h
  split at h
  · split at h
    · rename_i before rest' hcut
      obtain ⟨-, rfl⟩ := Prod.mk.inj (Except.ok.inj h)
      rw [Text.eq_of_cutAt_eq_some hcut]
      simp only [List.length_append]
      have : "-->".toList.length = 3 := by decide
      omega
    · cases h
  · split at h
    · rename_i tail _
      simp only [closingTag] at h
      cases hbracket : bracket (Text.trimStart (afterName tail)) with
      | error failure => rw [hbracket] at h; cases h
      | ok reading =>
        rw [hbracket] at h
        obtain ⟨-, rfl⟩ := Prod.mk.inj (Except.ok.inj h)
        have := length_of_bracket hbracket
        have := length_trimStart_le (afterName tail)
        have := length_afterName_le tail
        simp only [List.length_cons]
        omega
    · rename_i tail _ _
      simp only [openingTag] at h
      split at h
      · cases h
      · cases hattributes : attributes .empty (afterName tail) with
        | error failure => rw [hattributes] at h; cases h
        | ok reading =>
          rw [hattributes] at h
          obtain ⟨-, rfl⟩ := Prod.mk.inj (Except.ok.inj h)
          have := length_of_attributes hattributes
          have := length_afterName_le tail
          simp only [List.length_cons]
          omega
    · rename_i hclosing hopening
      obtain ⟨-, rfl⟩ := Prod.mk.inj (Except.ok.inj h)
      cases source with
      | nil => exact absurd rfl hsource
      | cons c tail =>
        have hc : c ≠ '<' := fun hc => hopening tail (by rw [hc])
        simp only [List.dropWhile_cons, decide_eq_true hc, if_true, List.length_cons]
        have := length_dropWhile_le (· ≠ '<') tail
        omega

end DataBinding.Markup
