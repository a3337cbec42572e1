import DataBinding.Proofs.Markup.Suffix

/-!
# Cutting a text at its bytes

A text may be cut at a byte only where a character begins or the text ends
(`splitAt?_eq_some_iff`). Decoding, done with such cuts at the bytes where
a search has found something, never cuts elsewhere (`decodeBytes_eq`): an
entity and a lone `&` are as long as they are taken to be.
-/

namespace DataBinding

namespace Text

/-- The parts of a text before and after a byte; there are none if the byte
lies inside a character or behind the end. -/
def splitAt? : (text : List Char) → Nat → Option (List Char × List Char)
  | text, 0 => some ([], text)
  | [], _ + 1 => none
  | c :: text, n + 1 =>
    if c.utf8Size ≤ n + 1 then
      (splitAt? text (n + 1 - c.utf8Size)).map fun parts => (c :: parts.1, parts.2)
    else none

/-- The byte at which a mark occurs first. -/
def find? (mark text : List Char) : Option Nat :=
  (cutAt mark text).map fun parts => byteLength parts.1

/-- The byte of the first character that is not of the kind; that of the end
if there is none. -/
def endOf (kind : Char → Bool) (text : List Char) : Nat :=
  byteLength (text.takeWhile kind)

variable {text before after : List Char} {n : Nat}

theorem splitAt?_append (before after : List Char) :
    splitAt? (before ++ after) (byteLength before) = some (before, after) := by
  induction before with
  | nil =>
      cases after with
      | nil => rfl
      | cons c after => rfl
  | cons c before ih =>
      have hpos := Char.utf8Size_pos c
      obtain ⟨n, hn⟩ : ∃ n, byteLength (c :: before) = n + 1 :=
        ⟨c.utf8Size - 1 + byteLength before, by rw [byteLength_cons]; omega⟩
      have hrest : n + 1 - c.utf8Size = byteLength before := by
        rw [← hn, byteLength_cons, Nat.add_sub_cancel_left]
      have hle : c.utf8Size ≤ n + 1 := by
        rw [← hn, byteLength_cons]
        exact Nat.le_add_right _ _
      rw [hn, List.cons_append, splitAt?, if_pos hle, hrest, ih]
      rfl

/-- A text is cut exactly where a beginning of it ends. -/
theorem splitAt?_eq_some_iff :
    splitAt? text n = some (before, after) ↔ text = before ++ after ∧ byteLength before = n := by
  constructor
  · intro h
    fun_induction splitAt? text n generalizing before after with
    | case1 text =>
        obtain ⟨rfl, rfl⟩ := Prod.mk.inj (Option.some.inj h)
        exact ⟨rfl, rfl⟩
    | case2 => cases h
    | case3 c text n hle ih =>
        obtain ⟨parts, hparts, hpair⟩ := Option.map_eq_some_iff.1 h
        obtain ⟨rfl, rfl⟩ := Prod.mk.inj hpair
        obtain ⟨rfl, hlength⟩ := ih hparts
        exact ⟨rfl, by rw [byteLength_cons, hlength]; omega⟩
    | case4 => cases h
  · rintro ⟨rfl, rfl⟩
    exact splitAt?_append before after

theorem byteLength_le_of_infix (h : after <:+: text) : byteLength after ≤ byteLength text := by
  obtain ⟨first, last, rfl⟩ := h
  simp only [byteLength_append]
  omega

/-- A shorter end of a text has less bytes. -/
theorem byteLength_lt_of_suffix (h : after <:+ text) (hlength : after.length < text.length) :
    byteLength after < byteLength text := by
  obtain ⟨before, rfl⟩ := h
  cases before with
  | nil => exact absurd hlength (Nat.lt_irrefl _)
  | cons c before =>
      have hpos := Char.utf8Size_pos c
      rw [byteLength_append, byteLength_cons]
      omega

theorem not_mem_of_cutAt {c : Char} (h : cutAt [c] text = none) : c ∉ text := by
  intro hmem
  obtain ⟨before, after, rfl, hbefore⟩ := List.eq_append_cons_of_mem hmem
  rw [cutAt_singleton_iff.2 ⟨rfl, hbefore⟩] at h
  cases h

end Text

namespace Markup

variable {text : List Char}

/-- Decoding by bytes, in as many rounds as are given: each round searches
the next `&`, keeps the text up to there, and goes on behind the entity or
behind the `&`. There is no result when a cut falls inside a character or
behind the end, or when the rounds are used up. -/
def decodeBytes : (rounds : Nat) → (text : List Char) → Option (List Char)
  | 0, _ => none
  | rounds + 1, text =>
    match Text.find? ['&'] text with
    | none => some text
    | some index => do
      let (before, rest) ← Text.splitAt? text index
      match entities.find? fun entity => (Text.afterLeading entity.1 rest).isSome with
      | some (entity, c) =>
        let (_, rest) ← Text.splitAt? rest (Text.byteLength entity)
        return before ++ c :: (← decodeBytes rounds rest)
      | none =>
        let (_, rest) ← Text.splitAt? rest 1
        return before ++ '&' :: (← decodeBytes rounds rest)

/-- The entity at the beginning is the first one that the text begins with. -/
theorem entityAt_eq (text : List Char) :
    entityAt text =
      (entities.find? fun entity => (Text.afterLeading entity.1 text).isSome).bind fun entity =>
        (Text.afterLeading entity.1 text).map fun rest => (entity.2, rest) := by
  unfold entityAt
  induction entities with
  | nil => rfl
  | cons entity others ih =>
      rw [List.findSome?_cons, List.find?_cons, ih]
      cases h : Text.afterLeading entity.1 text with
      | none => rfl
      | some rest => simp [h]

/-- Decoding changes nothing before the first `&`. -/
theorem decode_append (before : List Char) (hbefore : '&' ∉ before) (rest : List Char) :
    decode (before ++ rest) = before ++ decode rest := by
  induction before with
  | nil => rfl
  | cons c before ih =>
      obtain ⟨hc, hmore⟩ := not_or.1 (mt List.mem_cons.2 hbefore)
      rw [List.cons_append, decode_cons_of_entityAt (entityAt_of_ne (Ne.symm hc) _), ih hmore]
      rfl

/-- Decoding by bytes is decoding, and no text needs more rounds than it has
bytes. -/
theorem decodeBytes_eq {rounds : Nat} (h : Text.byteLength text < rounds) :
    decodeBytes rounds text = some (decode text) := by
  induction rounds generalizing text with
  | zero => exact absurd h (Nat.not_lt_zero _)
  | succ rounds ih =>
      cases hcut : Text.cutAt ['&'] text with
      | none =>
          have hdecode : decode text = text := by
            simpa using decode_append text (Text.not_mem_of_cutAt hcut) []
          simp only [decodeBytes, Text.find?, hcut, Option.map_none, hdecode]
      | some parts =>
          obtain ⟨before, after⟩ := parts
          obtain ⟨rfl, hbefore⟩ := Text.cutAt_singleton_iff.1 hcut
          rw [Text.byteLength_append] at h
          have hentity := entityAt_eq ('&' :: after)
          rw [decode_append before hbefore]
          simp only [decodeBytes, Text.find?, hcut, Option.map_some, Text.splitAt?_append,
            Option.bind_eq_bind, Option.bind_some]
          cases hfind : entities.find? fun entity =>
              (Text.afterLeading entity.1 ('&' :: after)).isSome with
          | none =>
              rw [hfind] at hentity
              have hcut' : Text.splitAt? ('&' :: after) 1 = some (['&'], after) :=
                Text.splitAt?_append ['&'] after
              have hround : Text.byteLength after < rounds := by
                rw [Text.byteLength_cons] at h
                have hsize : '&'.utf8Size = 1 := rfl
                omega
              rw [decode_cons_of_entityAt hentity]
              simp only [hcut', Option.bind_some, ih hround]
              rfl
          | some found =>
              obtain ⟨entity, c⟩ := found
              obtain ⟨rest, hrest⟩ :=
                Option.isSome_iff_exists.1 (List.find?_eq_some_iff_append.1 hfind).1
              have htext := Text.afterLeading_eq_some_iff.1 hrest
              rw [hfind, Option.bind_some, hrest] at hentity
              have hround : Text.byteLength rest < rounds := by
                have hlt := Text.byteLength_lt_of_suffix ⟨entity, htext.symm⟩
                  (length_of_entityAt hentity)
                omega
              rw [decode_of_entityAt hentity]
              simp only [htext, Text.splitAt?_append, Option.bind_some, ih hround]
              rfl

end Markup

end DataBinding
