import DataBinding.Markup.Entity

/-!
# Decoding and escaping

Decoding goes from left to right: an entity at the beginning is its
character, any other character is itself, and what follows is decoded on
its own. What escaping writes for a character is decoded to it whatever
follows, so that decoding undoes escaping (`decode_escape`).
-/

namespace DataBinding.Markup

variable {text rest : List Char} {c : Char}

theorem entityAt_nil : entityAt [] = none := by decide

/-- Every entity begins with an ampersand. -/
theorem entityAt_of_ne (h : c ≠ '&') (text : List Char) : entityAt (c :: text) = none := by
  simp [entityAt, entities, Text.afterLeading, Ne.symm h]

@[simp] theorem decode_nil : decode [] = [] := by
  rw [decode]
  split
  · rename_i c rest h
    rw [entityAt_nil] at h
    cases h
  · rfl

theorem decode_of_entityAt (h : entityAt text = some (c, rest)) :
    decode text = c :: decode rest := by
  rw [decode]
  split
  · rename_i c' rest' h'
    obtain ⟨rfl, rfl⟩ := Prod.mk.inj (Option.some.inj (h'.symm.trans h))
    rfl
  · rename_i h'
    rw [h] at h'
    cases h'

theorem decode_cons_of_entityAt (h : entityAt (c :: text) = none) :
    decode (c :: text) = c :: decode text := by
  rw [decode]
  split
  · rename_i c' rest' h'
    rw [h] at h'
    cases h'
  · rfl

/-- What is written for a character is decoded to it. -/
theorem decode_escapeChar (quoted : Bool) (c : Char) (rest : List Char) :
    decode (escapeChar quoted c ++ rest) = c :: decode rest := by
  unfold escapeChar
  split
  · rename_i hc
    exact decode_of_entityAt (by rw [hc]; rfl)
  split
  · rename_i hc
    exact decode_of_entityAt (by rw [hc]; rfl)
  split
  · rename_i hc
    exact decode_of_entityAt (by rw [hc]; rfl)
  split
  · rename_i hc
    rw [Bool.and_eq_true, decide_eq_true_eq] at hc
    exact decode_of_entityAt (by rw [hc.1]; rfl)
  · rename_i hc _ _ _
    exact decode_cons_of_entityAt (entityAt_of_ne hc rest)

theorem decode_escape_append (quoted : Bool) (text rest : List Char) :
    decode (escape quoted text ++ rest) = text ++ decode rest := by
  induction text with
  | nil => rfl
  | cons c text ih =>
      rw [escape, List.flatMap_cons, List.append_assoc, decode_escapeChar]
      exact congrArg (c :: ·) ih

theorem decode_escape (quoted : Bool) (text : List Char) : decode (escape quoted text) = text := by
  have h := decode_escape_append quoted text []
  rwa [List.append_nil, decode_nil, List.append_nil] at h

/-! ## What is not in an escaped text -/

theorem lt_not_mem_escapeChar (quoted : Bool) (c : Char) : '<' ∉ escapeChar quoted c := by
  unfold escapeChar
  repeat' split
  · decide
  · decide
  · decide
  · decide
  · rename_i hlt _ _
    simpa using Ne.symm hlt

/-- An escaped text holds no markup. -/
theorem lt_not_mem_escape (quoted : Bool) (text : List Char) : '<' ∉ escape quoted text := by
  intro h
  obtain ⟨c, -, hc⟩ := List.mem_flatMap.1 h
  exact lt_not_mem_escapeChar quoted c hc

/-- A text that is escaped for quotes does not end them. -/
theorem quote_not_mem_escape (text : List Char) : '\x22' ∉ escape true text := by
  intro h
  obtain ⟨c, -, hc⟩ := List.mem_flatMap.1 h
  unfold escapeChar at hc
  split at hc
  · exact absurd hc (by decide)
  split at hc
  · exact absurd hc (by decide)
  split at hc
  · exact absurd hc (by decide)
  split at hc
  · exact absurd hc (by decide)
  · rename_i hquote
    obtain rfl := List.mem_singleton.1 hc
    exact hquote rfl

theorem escape_ne_nil (quoted : Bool) {text : List Char} (h : text ≠ []) :
    escape quoted text ≠ [] := by
  intro hnil
  have hdecode := decode_escape quoted text
  rw [hnil, decode_nil] at hdecode
  exact h hdecode.symm

end DataBinding.Markup
