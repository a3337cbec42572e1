import DataBinding.Proofs.Markup.Cursor

/-!
# The parser never leaves the text

Each round of the two loops of the parser, over the tokens of a source and
over the attributes of a tag, ends at a boundary of the characters of the
source if it begins at one, and goes on only further ahead (`Turn`). Hence
the rounds come to an end, the cursor finds what the parser finds, and a
failure shows at a boundary (`parser_stays_in_text`).
-/

namespace DataBinding.Markup

variable {β σ : Type} {source text : List Char} {rounds : Nat}

namespace Cursor

/-! ## Loops -/

/-- What a round may come to that is made at the beginning of a text, if the
reading is what a run of the loop finds there: it goes on with a shorter end
of the text, where a run finds the same, or it ends with what a run finds. -/
inductive Turn (source : List Char) (run : σ → List Char → Reading β) (text : List Char) :
    Reading β → Except (Nat × Malformed) ((σ ⊕ β) × Nat) → Prop
  | goesOn {state : σ} {rest : List Char} (hrest : rest <:+ text)
      (hlength : rest.length < text.length) :
      Turn source run text (run state rest) (.ok (.inl state, place source rest))
  | ends (reading : Reading β) (hwithin : Within text reading) :
      Turn source run text reading
        (located source (reading.map fun result => (.inr result.1, result.2)))

/-- A loop whose rounds come to what a run may come to does what the run
does, in no more rounds than there are bytes. -/
theorem loop_at {round : σ → Cursor (σ ⊕ β)} {run : σ → List Char → Reading β}
    (hround : ∀ state text, text <:+ source → ∃ result,
      round state (place source text) = some result ∧
        Turn source run text (run state text) result)
    (hrounds : Text.byteLength text < rounds) (h : text <:+ source) (state : σ) :
    loop round rounds state (place source text) = some (located source (run state text)) := by
  induction rounds generalizing state text with
  | zero => exact absurd hrounds (Nat.not_lt_zero _)
  | succ rounds ih =>
      obtain ⟨result, hresult, hturn⟩ := hround state text h
      generalize run state text = reading at hturn
      cases hturn with
      | goesOn hrest hlength =>
          have hshorter := Text.byteLength_lt_of_suffix hrest hlength
          rw [loop, bind_ok hresult]
          exact ih (by omega) (hrest.trans h) _
      | ends _ hwithin =>
          cases reading with
          | error failure => exact bind_error hresult
          | ok result => exact bind_ok hresult

theorem attributeRound_of_attribute {c : Char} {more : List Char}
    (hrounds : Text.byteLength source < rounds) (found : Keyed String) (h : text <:+ source)
    (htrim : Text.trimStart text = c :: more) (hbracket : c ≠ '>') (hslash : c ≠ '/') :
    attributeRound source rounds found (place source text) =
      some (located source ((Markup.attributeOf (c :: more)).map fun result =>
        (.inl (found.put result.1.1 result.1.2), result.2))) := by
  have htrimmed := (trimStart_suffix text).trans h
  rw [attributeRound, bind_ok (skipBlanks_at h), bind_ok (peek_at htrimmed)]
  rw [htrim] at htrimmed ⊢
  generalize hhead : (c :: more).head? = head
  split
  · cases hhead
  · exact absurd (Option.some.inj hhead) hbracket
  · exact absurd (Option.some.inj hhead) hslash
  · exact map_located (attributeOf_at hrounds htrimmed) _

theorem attributeRound_turn (hrounds : Text.byteLength source < rounds) (found : Keyed String)
    (h : text <:+ source) : ∃ result,
      attributeRound source rounds found (place source text) = some result ∧
        Turn source Markup.attributes text (Markup.attributes found text) result := by
  have htrimmed := (trimStart_suffix text).trans h
  have hwithin := within_attributes found text
  revert hwithin
  fun_cases Markup.attributes found text with
  | case1 htrim =>
      intro hwithin
      refine ⟨_, ?_, .ends _ hwithin⟩
      rw [attributeRound, bind_ok (skipBlanks_at h), bind_ok (peek_at htrimmed), htrim]
      rfl
  | case2 rest htrim =>
      intro hwithin
      refine ⟨_, ?_, .ends _ hwithin⟩
      rw [attributeRound, bind_ok (skipBlanks_at h), bind_ok (peek_at htrimmed)]
      rw [htrim] at htrimmed ⊢
      exact bind_ok (skip_one rfl htrimmed)
  | case3 rest htrim =>
      intro hwithin
      refine ⟨_, ?_, .ends _ hwithin⟩
      rw [attributeRound, bind_ok (skipBlanks_at h), bind_ok (peek_at htrimmed)]
      rw [htrim] at htrimmed ⊢
      have hclosed := bracket_at ((List.suffix_cons '/' rest).trans htrimmed)
      refine (bind_ok (skip_one rfl htrimmed)).trans ((map_located hclosed _).trans ?_)
      cases Markup.bracket rest <;> rfl
  | case4 c more hbracket hslash htrim failure hfailure =>
      intro hwithin
      have hround := attributeRound_of_attribute hrounds found h htrim hbracket hslash
      rw [hfailure] at hround
      exact ⟨_, hround, .ends _ hwithin⟩
  | case5 c more hbracket hslash htrim pair rest hok =>
      intro _
      have hround := attributeRound_of_attribute hrounds found h htrim hbracket hslash
      have hshorter := length_of_attributeOf hok
      have hleft := within_attributeOf (c :: more)
      rw [hok] at hround hleft
      rw [← htrim] at hshorter hleft
      exact ⟨_, hround, .goesOn (hleft.trans (trimStart_suffix text))
        (Nat.lt_of_lt_of_le hshorter (length_trimStart_le text))⟩

theorem openingTag_at (hrounds : Text.byteLength source < rounds) (h : text <:+ source) :
    openingTag source rounds (place source text) =
      some (located source (Markup.openingTag text)) := by
  have hname := (afterName_suffix text).trans h
  rw [openingTag, bind_ok (name_at h)]
  unfold Markup.openingTag
  split
  · rename_i hnil
    rw [afterName_of_nil hnil]
    rfl
  · have hlength : Text.byteLength (afterName text) < rounds :=
      Nat.lt_of_le_of_lt (Text.byteLength_le_of_infix hname.isInfix) hrounds
    have hfound := loop_at (fun found text => attributeRound_turn hrounds found) hlength hname
      Keyed.empty
    exact map_located hfound _

theorem closingTag_at (h : text <:+ source) :
    closingTag source (place source text) = some (located source (Markup.closingTag text)) := by
  have hname := (afterName_suffix text).trans h
  have hbracket := bracket_at ((trimStart_suffix _).trans hname)
  rw [closingTag, bind_ok (name_at h), bind_ok (skipBlanks_at hname)]
  exact map_located hbracket _

theorem token_at (hrounds : Text.byteLength source < rounds) (h : text <:+ source) :
    token source rounds (place source text) = some (located source (Token.next text)) := by
  rw [token, bind_ok (ahead_at h)]
  unfold Token.next
  split
  · cases hcut : Text.cutAt "-->".toList text with
    | none =>
        rw [Text.find?, hcut]
        rfl
    | some parts =>
        obtain ⟨inner, rest⟩ := parts
        obtain rfl := Text.eq_of_cutAt_eq_some hcut
        have hwidth : Text.byteLength (inner ++ "-->".toList) = Text.byteLength inner + 3 :=
          Text.byteLength_append _ _
        have hskip := skip_at (inner ++ "-->".toList) h
        rw [hwidth] at hskip
        rw [Text.find?, hcut]
        exact bind_ok hskip
  · split
    · rename_i hclosing
      obtain ⟨rest, hrest⟩ := Option.isSome_iff_exists.1 hclosing
      obtain rfl := Text.afterLeading_eq_some_iff.1 hrest
      exact (bind_ok (skip_at "</".toList h)).trans
        (closingTag_at ((List.suffix_append _ rest).trans h))
    split
    · rename_i hclosing hopening
      obtain ⟨rest, hrest⟩ := Option.isSome_iff_exists.1 hopening
      obtain rfl := Text.afterLeading_eq_some_iff.1 hrest
      have hopened := openingTag_at hrounds ((List.suffix_append _ rest).trans h)
      refine (bind_ok (skip_at "<".toList h)).trans (hopened.trans ?_)
      split
      · rename_i more hhead
        obtain rfl := (List.cons.inj hhead).2
        exact absurd rfl hclosing
      · rename_i more _ hhead
        obtain rfl := (List.cons.inj hhead).2
        rfl
      · rename_i hother
        exact absurd rfl (hother rest)
    · rename_i hclosing hopening
      have hsplit : text.takeWhile (· ≠ '<') ++ text.dropWhile (· ≠ '<') = text :=
        List.takeWhile_append_dropWhile
      have hinner : text.takeWhile (· ≠ '<') <:+: source :=
        List.IsInfix.trans ⟨[], _, hsplit⟩ h.isInfix
      have hskip := skip_at (text.takeWhile (· ≠ '<')) (hsplit.symm ▸ h)
      have hcontent := upTo_append (p := place source text) (text.takeWhile (· ≠ '<'))
        (text.dropWhile (· ≠ '<'))
      rw [hsplit] at hskip hcontent
      refine (bind_ok hcontent).trans ((bind_ok (decoded_apply hrounds hinner)).trans
        ((bind_ok hskip).trans ?_))
      split
      · exact absurd rfl hclosing
      · exact absurd rfl hopening
      · rfl

/-! ## The whole source -/

theorem place_lt_iff (h : text <:+ source) :
    place source text < Text.byteLength source ↔ text ≠ [] := by
  obtain ⟨before, rfl⟩ := h
  cases text with
  | nil => simp [place]
  | cons c text =>
      have hpos := Char.utf8Size_pos c
      simp only [place, Text.byteLength_append, Text.byteLength_cons, ne_eq, reduceCtorEq,
        not_false_eq_true, iff_true]
      omega

/-- What is left of a source when its forest has been read. -/
def forestAtEnd (u : Unfinished) (text : List Char) : Reading (List Tree) :=
  (forestFrom u text).map (·, [])

theorem tokenRound_turn (hrounds : Text.byteLength source < rounds) (u : Unfinished)
    (h : text <:+ source) : ∃ result,
      tokenRound source rounds u (place source text) = some result ∧
        Turn source forestAtEnd text (forestAtEnd u text) result := by
  have hplace := place_lt_iff h
  have htoken := token_at hrounds h
  have hleft := within_next text
  have hget : (get : Cursor Nat) (place source text) =
    some (.ok (place source text, place source text)) := rfl
  rw [tokenRound, bind_ok hget]
  unfold forestAtEnd
  fun_cases forestFrom u text with
  | case1 hsource henclosing =>
      subst hsource
      rw [if_neg fun hlt => hplace.1 hlt rfl, henclosing]
      refine ⟨_, rfl, ?_⟩
      exact .ends (.ok (u.current, [])) List.suffix_rfl
  | case2 hsource element enclosing henclosing =>
      subst hsource
      rw [if_neg fun hlt => hplace.1 hlt rfl, henclosing]
      refine ⟨_, rfl, ?_⟩
      exact .ends (.error ⟨[], _⟩) List.suffix_rfl
  | case3 hsource failure hnext =>
      rw [hnext] at htoken hleft
      rw [if_pos (hplace.2 hsource), bind_error htoken]
      exact ⟨_, rfl, .ends _ hleft⟩
  | case4 hsource token rest hnext cause hcause =>
      rw [hnext] at htoken hleft
      rw [if_pos (hplace.2 hsource), bind_ok htoken, hcause]
      exact ⟨_, rfl, .ends _ hleft⟩
  | case5 hsource token rest hnext grown hgrown =>
      have hshorter := Token.length_of_next hsource hnext
      rw [hnext] at htoken hleft
      rw [if_pos (hplace.2 hsource), bind_ok htoken, hgrown]
      exact ⟨_, rfl, .goesOn hleft hshorter⟩

/-- The cursor reads a source like the parser. -/
theorem parse_eq {source : String} (hrounds : source.utf8ByteSize < rounds) :
    parse source rounds = some (Markup.parse source) := by
  rw [← Text.byteLength_toList] at hrounds
  have hloop := loop_at (fun u text => tokenRound_turn hrounds u) hrounds List.suffix_rfl .start
  rw [place, Nat.sub_self] at hloop
  rw [parse, hloop, Markup.parse]
  unfold forestAtEnd
  cases forestFrom .start source.toList with
  | ok forest => rfl
  | error failure => rfl

/-! ## Boundaries -/

/-- A byte where a beginning of the source ends. -/
def Boundary (source : String) (p : Nat) : Prop :=
  ∃ before after, source = before ++ after ∧ before.utf8ByteSize = p

theorem boundary_iff {source : String} {p : Nat} :
    Boundary source p ↔ ∃ text, text <:+ source.toList ∧ place source.toList text = p := by
  constructor
  · rintro ⟨before, after, rfl, rfl⟩
    refine ⟨after.toList, ⟨before.toList, String.toList_append.symm⟩, ?_⟩
    rw [place, String.toList_append, Text.byteLength_append, Nat.add_sub_cancel,
      Text.byteLength_toList]
  · rintro ⟨text, ⟨before, hsource⟩, rfl⟩
    refine ⟨String.ofList before, String.ofList text, ?_, ?_⟩
    · rw [← String.ofList_append, hsource, String.ofList_toList]
    · rw [← Text.byteLength_toList, String.toList_ofList, place, ← hsource,
        Text.byteLength_append, Nat.add_sub_cancel]

/-- From every boundary of the source, a round comes to a result at a
boundary, and to one further ahead if it does not return. -/
def StaysIn (source : String) (round : Cursor (σ ⊕ β)) : Prop :=
  ∀ p, Boundary source p → ∃ result, round p = some result ∧
    match result with
    | .ok (.inl _, q) => p < q ∧ Boundary source q
    | .ok (.inr _, q) => Boundary source q
    | .error (q, _) => Boundary source q

theorem staysIn_of_turn {source : String} {round : Cursor (σ ⊕ β)}
    {run : List Char → Reading β} {again : σ → List Char → Reading β}
    (hround : ∀ text, text <:+ source.toList → ∃ result,
      round (place source.toList text) = some result ∧
        Turn source.toList again text (run text) result) : StaysIn source round := by
  intro p hp
  obtain ⟨text, h, rfl⟩ := boundary_iff.1 hp
  obtain ⟨result, hresult, hturn⟩ := hround text h
  refine ⟨result, hresult, ?_⟩
  have hboundary {rest : List Char} (hrest : rest <:+ text) :
      Boundary source (place source.toList rest) := boundary_iff.2 ⟨rest, hrest.trans h, rfl⟩
  generalize run text = reading at hturn
  cases hturn with
  | goesOn hrest hlength =>
      have hshorter := Text.byteLength_lt_of_suffix hrest hlength
      have hle := Text.byteLength_le_of_infix h.isInfix
      refine ⟨?_, hboundary hrest⟩
      unfold place
      omega
  | ends _ hwithin =>
      cases reading with
      | error failure => exact hboundary hwithin
      | ok result => exact hboundary hwithin

end Cursor

open Cursor

/-- With more rounds than the source has bytes, the cursor comes to the
result of the parser, so that it never looks at a place where the source
cannot be cut. Every round of its loops ends at a boundary, further ahead if
another one follows, and the position of a failure is the length of a
beginning of the source. -/
theorem parser_stays_in_text (source : String) :
    (∀ rounds, source.utf8ByteSize < rounds →
      Cursor.parse source rounds = some (parse source) ∧
      (∀ u, StaysIn source (tokenRound source.toList rounds u)) ∧
      ∀ found, StaysIn source (attributeRound source.toList rounds found)) ∧
    ∀ e, parse source = .error e → ∃ position cause, e = .markup position cause ∧
      Boundary source position := by
  constructor
  · intro rounds hrounds
    have hbytes : Text.byteLength source.toList < rounds := by rwa [Text.byteLength_toList]
    exact ⟨parse_eq hrounds,
      fun u => staysIn_of_turn fun _ h => tokenRound_turn hbytes u h,
      fun found => staysIn_of_turn fun _ h => attributeRound_turn hbytes found h⟩
  · intro e he
    obtain ⟨before, failure, -, hsource, rfl⟩ := parse_eq_error he
    refine ⟨_, _, rfl, boundary_iff.2 ⟨failure.rest, ⟨before, hsource.symm⟩, ?_⟩⟩
    rw [place, hsource, Text.byteLength_append, Nat.add_sub_cancel]

/-- A tag that does not end, behind a character of two bytes, with a blank of
two bytes before an attribute of two bytes. -/
theorem parser_stays_in_text_of_blank :
    "é<b\u00a0ü".utf8ByteSize < 9 ∧
    Cursor.parse "é<b\u00a0ü" 9 = some (.error (.markup 8 .unterminatedTag)) ∧
    parse "é<b\u00a0ü" = .error (.markup 8 .unterminatedTag) ∧
    Boundary "é<b\u00a0ü" 8 ∧
    ∃ found q, attributeRound "é<b\u00a0ü".toList 9 .empty 4 = some (.ok (.inl found, q)) ∧
      4 < q ∧ Boundary "é<b\u00a0ü" q := by
  obtain ⟨hrounds, herror⟩ := parser_stays_in_text "é<b\u00a0ü"
  obtain ⟨hparse, -, hattribute⟩ := hrounds 9 (by decide)
  have hcursor : Cursor.parse "é<b\u00a0ü" 9 = some (.error (.markup 8 .unterminatedTag)) := rfl
  have hfailure := Option.some.inj (hparse.symm.trans hcursor)
  obtain ⟨position, cause, hposition, hboundary⟩ := herror _ hfailure
  obtain ⟨rfl, -⟩ := Error.markup.inj hposition
  obtain ⟨result, hresult, hstays⟩ := hattribute .empty 4 ⟨"é<b", "\u00a0ü", rfl, rfl⟩
  have hround : attributeRound "é<b\u00a0ü".toList 9 .empty 4 =
      some (.ok (.inl (Keyed.empty.put "ü" ""), 8)) := rfl
  obtain rfl := Option.some.inj (hresult.symm.trans hround)
  exact ⟨by decide, hcursor, hfailure, hboundary, _, _, hround, hstays⟩

end DataBinding.Markup
