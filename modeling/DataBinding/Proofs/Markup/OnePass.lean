import DataBinding.Proofs.Markup.Slicing

/-!
# Decoding is one pass

At each place of a text an entity gives its character, and a character that
begins no entity gives itself; what follows is a text of its own. Every text
has exactly one such pass, and decoding makes it (`onePass_iff`).

An entity has an `&` at its beginning only, so none goes across an `&`: the
pass over a text is the pass up to any `&` and the one from there
(`OnePass.append_ampersand`).
-/

namespace DataBinding.Markup

variable {text rest out : List Char} {c : Char}

/-- Some entity is at the beginning of the text. -/
def BeginsEntity (text : List Char) : Prop :=
  ∃ entity ∈ entities, entity.1 <+: text

instance (text : List Char) : Decidable (BeginsEntity text) :=
  inferInstanceAs (Decidable (∃ entity ∈ entities, entity.1 <+: text))

/-- One pass over a text, from left to right, with what it gives. -/
inductive OnePass : (text out : List Char) → Prop
  | done : OnePass [] []
  | entity {entity : List Char × Char} {rest out : List Char} (hentity : entity ∈ entities)
      (hrest : OnePass rest out) : OnePass (entity.1 ++ rest) (entity.2 :: out)
  | character {c : Char} {rest out : List Char} (hc : ¬ BeginsEntity (c :: rest))
      (hrest : OnePass rest out) : OnePass (c :: rest) (c :: out)

/-! ## The entities -/

/-- An entity is found where it is written, as none is a beginning of another. -/
theorem entityAt_append {entity : List Char × Char} (h : entity ∈ entities) (rest : List Char) :
    entityAt (entity.1 ++ rest) = some (entity.2, rest) := by
  simp only [entities, List.mem_cons, List.not_mem_nil, or_false] at h
  rcases h with rfl | rfl | rfl | rfl | rfl <;> rfl

theorem entityAt_eq_none_iff : entityAt text = none ↔ ¬ BeginsEntity text := by
  have hleading : ∀ mark, Text.afterLeading mark text = none ↔ ¬ mark <+: text := by
    intro mark
    constructor
    · rintro hnone ⟨rest, hrest⟩
      rw [Text.afterLeading_eq_some_iff.2 hrest.symm] at hnone
      cases hnone
    · intro hmark
      refine Option.eq_none_iff_forall_ne_some.2 fun rest hrest => hmark ?_
      exact ⟨rest, (Text.afterLeading_eq_some_iff.1 hrest).symm⟩
  simp [entityAt, BeginsEntity, List.findSome?_eq_none_iff, hleading]

theorem exists_of_entityAt (h : entityAt text = some (c, rest)) :
    ∃ entity ∈ entities, text = entity.1 ++ rest ∧ entity.2 = c := by
  obtain ⟨entity, hentity, hfound⟩ := List.exists_of_findSome?_eq_some h
  obtain ⟨after, hafter, hpair⟩ := Option.map_eq_some_iff.1 hfound
  obtain ⟨rfl, rfl⟩ := Prod.mk.inj hpair
  exact ⟨entity, hentity, Text.afterLeading_eq_some_iff.1 hafter, rfl⟩

theorem ampersand_not_mem_tail : ∀ entity ∈ entities, '&' ∉ entity.1.tail := by decide

/-- An entity at the beginning ends before the next `&`. -/
theorem beginsEntity_of_append {after : List Char}
    (h : BeginsEntity (c :: rest ++ '&' :: after)) : BeginsEntity (c :: rest) := by
  obtain ⟨entity, hentity, hprefix⟩ := h
  refine ⟨entity, hentity, ?_⟩
  by_cases hlength : entity.1.length ≤ (c :: rest).length
  · exact List.prefix_of_prefix_length_le hprefix (List.prefix_append _ _) hlength
  · have hcross : c :: rest ++ ['&'] <+: entity.1 := by
      refine List.prefix_of_prefix_length_le ⟨after, ?_⟩ hprefix ?_
      · rw [List.append_assoc]
        rfl
      · rw [List.length_append, List.length_singleton]
        omega
    obtain ⟨more, hmore⟩ := hcross
    refine absurd ?_ (ampersand_not_mem_tail entity hentity)
    rw [← hmore]
    simp

/-! ## The pass -/

/-- Decoding makes the pass. -/
theorem onePass_decode (text : List Char) : OnePass text (decode text) := by
  fun_induction decode text with
  | case1 text c rest hentity ih =>
      obtain ⟨entity, hmem, rfl, rfl⟩ := exists_of_entityAt hentity
      exact .entity hmem ih
  | case2 => exact .done
  | case3 c text hnone ih => exact .character (entityAt_eq_none_iff.1 hnone) ih

/-- There is one pass over a text, and decoding gives what it gives. -/
theorem onePass_iff : OnePass text out ↔ decode text = out := by
  constructor
  · intro h
    induction h with
    | done => exact decode_nil
    | entity hentity hrest ih => rw [decode_of_entityAt (entityAt_append hentity _), ih]
    | character hc hrest ih => rw [decode_cons_of_entityAt (entityAt_eq_none_iff.2 hc), ih]
  · rintro rfl
    exact onePass_decode text

/-- A pass may be cut at any `&`. -/
theorem OnePass.append_ampersand (h : OnePass text out) (after : List Char) :
    OnePass (text ++ '&' :: after) (out ++ decode ('&' :: after)) := by
  induction h with
  | done => exact onePass_decode _
  | entity hentity hrest ih =>
      rw [List.append_assoc]
      exact .entity hentity ih
  | character hc hrest ih => exact .character (mt beginsEntity_of_append hc) ih

/-- Decoding is one pass from left to right. A text may be cut at any `&`; an
entity gives its character and what follows is decoded on its own, so that
nothing is decoded twice; an `&` without entity stands for itself; all other
characters are kept in order. This is the only such pass, the search for
each next `&` makes it too, and it takes back what either way of escaping
writes. -/
theorem decoding_is_one_pass :
    (∀ before after, after.head? = some '&' →
      decode (before ++ after) = decode before ++ decode after) ∧
    (∀ entity ∈ entities, ∀ rest, decode (entity.1 ++ rest) = entity.2 :: decode rest) ∧
    (∀ rest, ¬ BeginsEntity ('&' :: rest) → decode ('&' :: rest) = '&' :: decode rest) ∧
    (∀ kept, '&' ∉ kept → ∀ rest, decode (kept ++ rest) = kept ++ decode rest) ∧
    (∀ text out, OnePass text out ↔ decode text = out) ∧
    (∀ text rounds, Text.byteLength text < rounds →
      decodeBytes rounds text = some (decode text)) ∧
    ∀ quoted text, decode (escape quoted text) = text := by
  refine ⟨?_, ?_, ?_, decode_append, fun _ _ => onePass_iff, fun _ _ => decodeBytes_eq,
    decode_escape⟩
  · intro before after hafter
    obtain ⟨rest, rfl⟩ := List.head?_eq_some_iff.1 hafter
    exact onePass_iff.1 ((onePass_decode before).append_ampersand rest)
  · intro entity hentity rest
    exact decode_of_entityAt (entityAt_append hentity rest)
  · intro rest hrest
    exact decode_cons_of_entityAt (entityAt_eq_none_iff.2 hrest)

/-- An entity that is not finished, before an entity whose character begins
what looks like another one. -/
theorem decoding_is_one_pass_of_ampersands :
    ("&amp;lt;".toList.head? = some '&' ∧ ¬ BeginsEntity "&am".toList ∧ '&' ∉ "lt;".toList ∧
      ("&amp;".toList, '&') ∈ entities ∧ Text.byteLength "&am&amp;lt;".toList < 12) ∧
    decode "&am&amp;lt;".toList = "&am&lt;".toList ∧
    decodeBytes 12 "&am&amp;lt;".toList = some "&am&lt;".toList ∧
    decode (escape false "&am&lt;".toList) = "&am&lt;".toList := by
  obtain ⟨hcut, hentity, hlone, hkept, -, hbytes, hescape⟩ := decoding_is_one_pass
  have hunfinished : decode "&am".toList = "&am".toList := by
    have ham := hlone "am".toList (by decide)
    have hend := hkept "am".toList (by decide) []
    rw [List.append_nil, decode_nil] at hend
    exact ham.trans (congrArg ('&' :: ·) hend)
  have hnested : decode "&amp;lt;".toList = "&lt;".toList := by
    have hrest := hkept "lt;".toList (by decide) []
    rw [List.append_nil, decode_nil] at hrest
    exact (hentity ("&amp;".toList, '&') (by decide) "lt;".toList).trans
      (congrArg ('&' :: ·) hrest)
  have hdecode : decode "&am&amp;lt;".toList = "&am&lt;".toList := by
    have h := hcut "&am".toList "&amp;lt;".toList (by decide)
    rw [hunfinished, hnested] at h
    exact h
  refine ⟨by decide, hdecode, ?_, hescape false _⟩
  rw [hbytes _ 12 (by decide), hdecode]

end DataBinding.Markup
