import DataBinding.Text.Search

/-!
# Character entities

Five characters can be written as entities. Decoding is one pass from left to right: a decoded
character is never decoded again, and an `&` that begins no entity stands for itself. Escaping
writes what would be read as markup as an entity, so decoding an escaped text gives the text.
-/

namespace DataBinding.Markup

/-- The entities and the characters they stand for. -/
def entities : List (List Char × Char) :=
  [("&amp;".toList, '&'), ("&lt;".toList, '<'), ("&gt;".toList, '>'), ("&quot;".toList, '\x22'),
   ("&#39;".toList, '\x27')]

/-- The character of the entity at the beginning of a text, with the text after it. -/
def entityAt (text : List Char) : Option (Char × List Char) :=
  entities.findSome? fun entity => (Text.afterLeading entity.1 text).map fun rest => (entity.2, rest)

/-- The text after an entity is shorter than the text that begins with it. -/
theorem length_of_entityAt {text rest : List Char} {c : Char}
    (h : entityAt text = some (c, rest)) : rest.length < text.length := by
  obtain ⟨entity, hmem, hfound⟩ := List.exists_of_findSome?_eq_some h
  obtain ⟨after, hafter, hpair⟩ := Option.map_eq_some_iff.1 hfound
  obtain ⟨-, rfl⟩ := Prod.mk.inj hpair
  rw [Text.afterLeading_eq_some_iff.1 hafter, List.length_append]
  have hpos : 0 < entity.1.length := by
    simp only [entities, List.mem_cons, List.not_mem_nil, or_false] at hmem
    rcases hmem with rfl | rfl | rfl | rfl | rfl <;> decide
  omega

/-- The text with every entity replaced by its character. -/
def decode (text : List Char) : List Char :=
  match _h : entityAt text with
  | some (c, rest) => c :: decode rest
  | none =>
    match text with
    | [] => []
    | c :: text => c :: decode text
termination_by text.length
decreasing_by
  · exact length_of_entityAt _h
  · simp

/-- How a character is written in text, or between double quotes. -/
def escapeChar (quoted : Bool) (c : Char) : List Char :=
  if c = '&' then "&amp;".toList
  else if c = '<' then "&lt;".toList
  else if c = '>' then "&gt;".toList
  else if c = '\x22' && quoted then "&quot;".toList
  else [c]

/-- A text as it is written in markup: as text, or between double quotes. -/
def escape (quoted : Bool) (text : List Char) : List Char :=
  text.flatMap (escapeChar quoted)

end DataBinding.Markup
