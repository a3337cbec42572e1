import DataBinding.Proofs.Markup.Slicing

/-!
# Parsing by byte positions

The parser as a cursor that stands at a byte of the source, looks at the
source from there, and moves by numbers of bytes: the length of what a
search has passed, one for a quote, a bracket or an equals sign, three for
the end of a comment. A cursor that looks at a place where the source cannot
be cut has left the source, and has no result.

Each step of the cursor, made where an end of the source begins, does what
the scanner of the same name does to that end (`located`), so it never
leaves the source.
-/

namespace DataBinding.Markup

variable {α β σ : Type} {source text : List Char} {rounds : Nat}

/-- A reader that stands at a byte of a text. It has no result if it leaves
the text or uses up its rounds. -/
abbrev Cursor := StateT Nat (ExceptT (Nat × Malformed) Option)

namespace Cursor

/-! ## Steps -/

/-- What has left the text. -/
def outside : Cursor α := fun _ => none

/-- The result of cutting, if the place is one where the text can be cut. -/
def ofCut (cut : Option α) : Cursor α :=
  match cut with
  | some parts => return parts
  | none => outside

/-- The text from here on. -/
def ahead (source : List Char) : Cursor (List Char) := do
  let (_, text) ← ofCut (Text.splitAt? source (← get))
  return text

/-- The character here. -/
def peek (source : List Char) : Cursor (Option Char) := do
  return (← ahead source).head?

/-- So many bytes further. -/
def skip (n : Nat) : Cursor Unit := modify (· + n)

/-- What is wrong shows here. -/
def refuse (cause : Malformed) : Cursor α := do
  throw (← get, cause)

/-- The first bytes of a text. -/
def upTo (n : Nat) (text : List Char) : Cursor (List Char) := do
  let (before, _) ← ofCut (Text.splitAt? text n)
  return before

/-- Rounds of a loop, each of which goes on or returns. -/
def loop (round : σ → Cursor (σ ⊕ β)) : (rounds : Nat) → σ → Cursor β
  | 0, _ => outside
  | rounds + 1, state => do
    match ← round state with
    | .inl state => loop round rounds state
    | .inr result => return result

/-! ## Scanners -/

/-- The bracket that ends a tag must come now. -/
def bracket (source : List Char) : Cursor Unit := do
  if (← peek source) = some '>' then skip '>'.utf8Size
  else refuse .closingBracketExpected

/-- Past the blanks that begin here. -/
def skipBlanks (source : List Char) : Cursor Unit := do
  let text ← ahead source
  skip (Text.byteLength text - Text.byteLength (Text.trimStart text))

/-- The characters of a kind that begin here. -/
def run (source : List Char) (kind : Char → Bool) : Cursor (List Char) := do
  let text ← ahead source
  let stop := Text.endOf kind text
  skip stop
  upTo stop text

/-- The name that begins here. -/
def name (source : List Char) : Cursor (List Char) :=
  run source isNameChar

/-- The value in quotes that begins here. -/
def quoted (source : List Char) (quote : Char) : Cursor (List Char) := do
  skip 1
  let text ← ahead source
  match Text.find? [quote] text with
  | none => refuse .unterminatedAttributeValue
  | some stop =>
    skip (stop + 1)
    upTo stop text

/-- The value that begins here, as it is written. -/
def written (source : List Char) : Cursor (List Char) := do
  match (← peek source).filter isQuote with
  | some quote => quoted source quote
  | none => run source fun c => !(Text.isBlank c || c = '>')

/-- The text for which some bytes of the source stand. -/
def decoded (rounds : Nat) (text : List Char) : Cursor String := do
  return String.ofList (← ofCut (decodeBytes rounds text))

/-- The value that begins here. -/
def value (source : List Char) (rounds : Nat) : Cursor String := do
  decoded rounds (← written source)

/-- The value after a name. -/
def valueAfterName (source : List Char) (rounds : Nat) : Cursor String := do
  if (← peek source) = some '=' then
    skip 1
    skipBlanks source
    value source rounds
  else return ""

/-- The attribute that begins here. -/
def attributeOf (source : List Char) (rounds : Nat) : Cursor (String × String) := do
  let name ← name source
  if name = [] then refuse .attributeNameExpected
  else
    skipBlanks source
    let content ← valueAfterName source rounds
    return (String.ofList name, content)

/-- A round of the loop over the attributes of a tag. -/
def attributeRound (source : List Char) (rounds : Nat) (found : Keyed String) :
    Cursor (Keyed String ⊕ Keyed String × Bool) := do
  skipBlanks source
  match ← peek source with
  | none => refuse .unterminatedTag
  | some '>' =>
    skip 1
    return .inr (found, false)
  | some '/' =>
    skip 1
    bracket source
    return .inr (found, true)
  | some _ =>
    let pair ← attributeOf source rounds
    return .inl (found.put pair.1 pair.2)

/-- The rest of an opening tag. -/
def openingTag (source : List Char) (rounds : Nat) : Cursor Token := do
  let name ← name source
  if name = [] then refuse .tagNameExpected
  else
    let (found, closed) ← loop (attributeRound source rounds) rounds .empty
    return .opening (tagOf name) found closed

/-- The rest of a closing tag. -/
def closingTag (source : List Char) : Cursor Token := do
  let name ← name source
  skipBlanks source
  bracket source
  return .closing (tagOf name)

/-- The token that begins here. -/
def token (source : List Char) (rounds : Nat) : Cursor Token := do
  let text ← ahead source
  if (Text.afterLeading "<!--".toList text).isSome then
    match Text.find? "-->".toList text with
    | none => refuse .unterminatedComment
    | some stop =>
      skip (stop + 3)
      return .comment
  else if (Text.afterLeading "</".toList text).isSome then
    skip 2
    closingTag source
  else if (Text.afterLeading "<".toList text).isSome then
    skip 1
    openingTag source rounds
  else
    let stop := Text.endOf (· ≠ '<') text
    let content ← decoded rounds (← upTo stop text)
    skip stop
    return .text content

/-- A round of the loop over the tokens of a source. -/
def tokenRound (source : List Char) (rounds : Nat) (u : Unfinished) :
    Cursor (Unfinished ⊕ List Tree) := do
  if (← get) < Text.byteLength source then
    match u.grow? (← token source rounds) with
    | .ok grown => return .inl grown
    | .error cause => refuse cause
  else
    match u.enclosing with
    | [] => return .inr u.current
    | element :: _ => refuse (.unclosedTag element.tag)

/-- The forest of a source, read in as many rounds as are given. -/
def parse (source : String) (rounds : Nat) : Option (Except Error (List Tree)) :=
  match loop (tokenRound source.toList rounds) rounds .start 0 with
  | none => none
  | some (.ok (forest, _)) => some (.ok forest)
  | some (.error (position, cause)) => some (.error (.markup position cause))

end Cursor

/-! ## Where the cursor stands -/

/-- The byte at which an end of the source begins. -/
def place (source text : List Char) : Nat :=
  Text.byteLength source - Text.byteLength text

/-- What a reading leaves, or the place of its failure, by its byte. -/
def located (source : List Char) : Reading α → Except (Nat × Malformed) (α × Nat)
  | .ok (result, rest) => .ok (result, place source rest)
  | .error failure => .error (place source failure.rest, failure.cause)

theorem place_append {before : List Char} (h : before ++ text <:+ source) :
    place source text = place source (before ++ text) + Text.byteLength before := by
  obtain ⟨first, rfl⟩ := h
  simp only [place, Text.byteLength_append]
  omega

theorem splitAt?_place (h : text <:+ source) :
    ∃ before, Text.splitAt? source (place source text) = some (before, text) := by
  obtain ⟨before, rfl⟩ := h
  refine ⟨before, Text.splitAt?_eq_some_iff.2 ⟨rfl, ?_⟩⟩
  rw [place, Text.byteLength_append, Nat.add_sub_cancel]

namespace Cursor

variable {c : Cursor α} {k : α → Cursor β} {p q : Nat}

theorem bind_ok {a : α} (h : c p = some (.ok (a, q))) : (c >>= k) p = k a q := by
  show Option.bind (c p) (ExceptT.bindCont fun result : α × Nat => k result.1 result.2) = k a q
  rw [h]
  rfl

theorem bind_error {e : Nat × Malformed} (h : c p = some (.error e)) :
    (c >>= k) p = some (.error e) := by
  show Option.bind (c p) (ExceptT.bindCont fun result : α × Nat => k result.1 result.2) = _
  rw [h]
  rfl

/-- A step that only changes the result. -/
theorem map_located {reading : Reading α} (h : c p = some (located source reading)) (f : α → β) :
    (c >>= fun a => pure (f a)) p =
      some (located source (reading.map fun result => (f result.1, result.2))) := by
  cases reading with
  | error failure => exact bind_error h
  | ok result => exact bind_ok h

theorem ahead_at (h : text <:+ source) :
    ahead source (place source text) = some (.ok (text, place source text)) := by
  obtain ⟨before, hcut⟩ := splitAt?_place h
  rw [ahead, bind_ok (a := place source text) rfl, hcut]
  rfl

theorem peek_at (h : text <:+ source) :
    peek source (place source text) = some (.ok (text.head?, place source text)) := by
  rw [peek, bind_ok (ahead_at h)]
  rfl

theorem skip_at (before : List Char) (h : before ++ text <:+ source) :
    skip (Text.byteLength before) (place source (before ++ text)) =
      some (.ok ((), place source text)) := by
  rw [place_append h]
  rfl

/-- Over a character of one byte. -/
theorem skip_one {c : Char} (hc : c.utf8Size = 1) (h : c :: text <:+ source) :
    skip 1 (place source (c :: text)) = some (.ok ((), place source text)) := by
  have hwidth : Text.byteLength [c] = 1 := by rw [Text.byteLength_cons, hc]; rfl
  have hskip := skip_at [c] h
  rwa [hwidth] at hskip

theorem upTo_append (before text : List Char) :
    upTo (Text.byteLength before) (before ++ text) p = some (.ok (before, p)) := by
  rw [upTo, Text.splitAt?_append]
  rfl

/-! ## Scanners -/

theorem bracket_at (h : text <:+ source) :
    bracket source (place source text) = some (located source (Markup.bracket text)) := by
  rw [bracket, bind_ok (peek_at h)]
  split
  · rename_i hhead
    obtain ⟨more, rfl⟩ := List.head?_eq_some_iff.1 hhead
    exact skip_at ['>'] h
  · rename_i hhead
    unfold Markup.bracket
    split
    · exact absurd rfl hhead
    · rfl

theorem skipBlanks_at (h : text <:+ source) :
    skipBlanks source (place source text) =
      some (.ok ((), place source (Text.trimStart text))) := by
  have hsplit : text.takeWhile Text.isBlank ++ Text.trimStart text = text :=
    List.takeWhile_append_dropWhile
  have hwidth : Text.byteLength text - Text.byteLength (Text.trimStart text) =
      Text.byteLength (text.takeWhile Text.isBlank) := by
    rw [← hsplit, Text.byteLength_append, hsplit, Nat.add_sub_cancel]
  have hskip := skip_at _ (hsplit.symm ▸ h)
  rw [skipBlanks, bind_ok (ahead_at h), hwidth]
  rwa [hsplit] at hskip

theorem run_at (kind : Char → Bool) (h : text <:+ source) :
    run source kind (place source text) =
      some (.ok (text.takeWhile kind, place source (text.dropWhile kind))) := by
  have hsplit : text.takeWhile kind ++ text.dropWhile kind = text :=
    List.takeWhile_append_dropWhile
  have hskip := skip_at (text.takeWhile kind) (hsplit.symm ▸ h)
  have hrun := upTo_append (p := place source (text.dropWhile kind)) (text.takeWhile kind)
    (text.dropWhile kind)
  rw [hsplit] at hskip hrun
  rw [run, bind_ok (ahead_at h)]
  exact (bind_ok hskip).trans hrun

theorem name_at (h : text <:+ source) :
    name source (place source text) =
      some (.ok (Markup.name text, place source (afterName text))) :=
  run_at isNameChar h

theorem afterName_of_nil (h : Markup.name text = []) : afterName text = text := by
  have hsplit : Markup.name text ++ afterName text = text := List.takeWhile_append_dropWhile
  rwa [h, List.nil_append] at hsplit

theorem utf8Size_of_isQuote {c : Char} (h : isQuote c = true) : c.utf8Size = 1 := by
  simp only [isQuote, Bool.or_eq_true, decide_eq_true_eq] at h
  rcases h with rfl | rfl <;> rfl

/-- No part of the source needs more rounds than the source. -/
theorem decoded_apply (hrounds : Text.byteLength source < rounds) (h : text <:+: source) :
    decoded rounds text p = some (.ok (String.ofList (decode text), p)) := by
  rw [decoded, decodeBytes_eq (Nat.lt_of_le_of_lt (Text.byteLength_le_of_infix h) hrounds)]
  rfl

theorem quoted_at {quote : Char} (hquote : quote.utf8Size = 1) (h : quote :: text <:+ source) :
    quoted source quote (place source (quote :: text)) =
      some (located source (match Text.cutAt [quote] text with
        | some (inner, rest) => .ok (inner, rest)
        | none => .error ⟨text, .unterminatedAttributeValue⟩)) := by
  have hopened := (List.suffix_cons quote text).trans h
  rw [quoted, bind_ok (skip_one hquote h), bind_ok (ahead_at hopened)]
  cases hcut : Text.cutAt [quote] text with
  | none =>
      rw [Text.find?, hcut]
      rfl
  | some parts =>
      obtain ⟨inner, rest⟩ := parts
      obtain rfl := Text.eq_of_cutAt_eq_some hcut
      have hwidth : Text.byteLength (inner ++ [quote]) = Text.byteLength inner + 1 := by
        rw [Text.byteLength_append, Text.byteLength_cons, hquote, Text.byteLength_nil]
      have hskip := skip_at (inner ++ [quote]) hopened
      rw [hwidth] at hskip
      have hinner := upTo_append (p := place source rest) inner ([quote] ++ rest)
      rw [← List.append_assoc] at hinner
      rw [Text.find?, hcut]
      exact (bind_ok hskip).trans hinner

theorem value_at (hrounds : Text.byteLength source < rounds) (h : text <:+ source) :
    value source rounds (place source text) = some (located source (Markup.value text)) := by
  have hdecoded {inner : List Char} (hinner : inner <:+: text) (p : Nat) :=
    decoded_apply (p := p) hrounds (hinner.trans h.isInfix)
  cases text with
  | nil =>
      have hwritten : written source (place source []) = some (.ok ([], place source [])) := by
        rw [written, bind_ok (peek_at h)]
        exact run_at _ h
      rw [value, bind_ok hwritten, hdecoded List.infix_rfl, decode_nil]
      rfl
  | cons c text =>
      simp only [Markup.value]
      split
      · rename_i hquote
        have hpeek : (c :: text).head?.filter isQuote = some c := by simp [hquote]
        have hwritten := quoted_at (utf8Size_of_isQuote hquote) h
        have hvalue : written source (place source (c :: text)) =
            quoted source c (place source (c :: text)) := by
          rw [written, bind_ok (peek_at h), hpeek]
        cases hcut : Text.cutAt [c] text with
        | none =>
            rw [hcut] at hwritten
            exact bind_error (hvalue.trans hwritten)
        | some parts =>
            obtain ⟨inner, rest⟩ := parts
            rw [hcut] at hwritten
            obtain rfl := Text.eq_of_cutAt_eq_some hcut
            rw [value, bind_ok (hvalue.trans hwritten)]
            exact hdecoded ⟨[c], [c] ++ rest, by simp⟩ _
      · rename_i hquote
        have hpeek : (c :: text).head?.filter isQuote = none := by simp [hquote]
        have hrun := run_at (fun c => !(Text.isBlank c || c = '>')) h
        rw [value, written, bind_ok ((bind_ok (peek_at h)).trans (by rw [hpeek]; exact hrun))]
        exact hdecoded ⟨[], _, List.takeWhile_append_dropWhile⟩ _

theorem valueAfterName_at (hrounds : Text.byteLength source < rounds) (h : text <:+ source) :
    valueAfterName source rounds (place source text) =
      some (located source (Markup.valueAfterName text)) := by
  rw [valueAfterName, bind_ok (peek_at h)]
  split
  · rename_i hhead
    obtain ⟨more, rfl⟩ := List.head?_eq_some_iff.1 hhead
    have hmore := (List.suffix_cons '=' more).trans h
    rw [bind_ok (skip_one rfl h), bind_ok (skipBlanks_at hmore)]
    exact value_at hrounds ((trimStart_suffix more).trans hmore)
  · rename_i hhead
    unfold Markup.valueAfterName
    split
    · exact absurd rfl hhead
    · rfl

theorem attributeOf_at (hrounds : Text.byteLength source < rounds) (h : text <:+ source) :
    attributeOf source rounds (place source text) =
      some (located source (Markup.attributeOf text)) := by
  have hname := (afterName_suffix text).trans h
  have hvalue := valueAfterName_at hrounds ((trimStart_suffix _).trans hname)
  rw [attributeOf, bind_ok (name_at h)]
  unfold Markup.attributeOf
  split
  · rename_i hnil
    rw [afterName_of_nil hnil]
    rfl
  · rw [bind_ok (skipBlanks_at hname)]
    refine (map_located hvalue _).trans ?_
    cases Markup.valueAfterName (Text.trimStart (afterName text)) <;> rfl

end Cursor

end DataBinding.Markup
