import DataBinding.Proofs.Markup.Scanning
import DataBinding.Proofs.Run.Returning

/-!
# Placeholders are matched leftmost and lazily

`Scans` says how a text is cut into literals and placeholders without
saying how they are found: the next placeholder is at the first place where
there is any, and has the shortest body there. There is exactly one way to
do so, and it is that of `Template.parse` (`parse_is_leftmost_lazy`), which
tries one character after the other and searches for the closing delimiter
apart from the line break. Nothing is lost on the way, and rendering puts
the texts of the values in the places of the placeholders, whatever client
code does meanwhile (`Shows`).
-/

namespace DataBinding

theorem Text.cutAt_ne_none {mark before after : List Char} :
    Text.cutAt mark (before ++ mark ++ after) ≠ none := by
  generalize htext : before ++ mark ++ after = text
  fun_induction Text.cutAt mark text generalizing before with
  | case1 =>
      obtain ⟨hbefore, -⟩ := List.append_eq_nil_iff.1 htext
      obtain ⟨-, rfl⟩ := List.append_eq_nil_iff.1 hbefore
      simp [Text.afterLeading]
  | case2 => simp
  | case3 c text hnone ih =>
      cases before with
      | nil => exact absurd ⟨after, htext⟩ (Text.afterLeading_eq_none.1 hnone)
      | cons x before => simpa using ih (List.cons.inj htext).2

namespace Template

variable {opening closing text before inner rest : List Char}

/-! ## The reference -/

/-- A text begins with a placeholder: a body of at least one character and
without a line break stands between the delimiters. -/
structure Encloses (opening closing text inner rest : List Char) : Prop where
  split : text = opening ++ inner ++ closing ++ rest
  nonempty : inner ≠ []
  line : '\n' ∉ inner

/-- The first place with a placeholder, and the shortest body there. -/
structure Leftmost (opening closing text before inner rest : List Char) : Prop where
  here : ∃ behind, text = before ++ behind ∧ Encloses opening closing behind inner rest
  first : ∀ other behind inner' rest', text = other ++ behind →
    Encloses opening closing behind inner' rest' → before.length ≤ other.length
  shortest : ∀ behind inner' rest', text = before ++ behind →
    Encloses opening closing behind inner' rest' → inner.length ≤ inner'.length

/-- A part of a text. -/
inductive Span
  | literal (text : List Char)
  | hole (body : List Char)

/-- The part for some literal characters, none for none. -/
def Span.literals : List Char → List Span
  | [] => []
  | c :: text => [.literal (c :: text)]

/-- A text from left to right: placeholder after placeholder, each leftmost
in what the one before has left. -/
inductive Scans (opening closing : List Char) : (text : List Char) → List Span → Prop
  | rest {text : List Char} :
      (∀ before behind inner rest, text = before ++ behind →
        ¬ Encloses opening closing behind inner rest) →
      Scans opening closing text (Span.literals text)
  | found {text before inner rest : List Char} {spans : List Span} :
      Leftmost opening closing text before inner rest → Scans opening closing rest spans →
      Scans opening closing text (Span.literals before ++ .hole inner :: spans)

/-- What a part stands for in a template. -/
def Span.segment : Span → Segment
  | .literal text => .literal (String.ofList text)
  | .hole body => .placeholder (Path.parse (String.ofList body))

/-- What a part is in the text. -/
def Span.source (opening closing : List Char) : Span → List Char
  | .literal text => text
  | .hole body => opening ++ body ++ closing

def Span.isLiteral : Span → Bool
  | .literal _ => true
  | .hole _ => false

/-! ## One placeholder -/

theorem Encloses.congr {inner' rest' : List Char} (h : Encloses opening closing text inner rest)
    (h' : Encloses opening closing text inner' rest') (hlength : inner.length = inner'.length) :
    inner = inner' ∧ rest = rest' := by
  have hsplit := h.split.symm.trans h'.split
  simp only [List.append_assoc] at hsplit
  obtain ⟨rfl, htail⟩ := List.append_inj (List.append_cancel_left hsplit) hlength
  exact ⟨rfl, List.append_cancel_left htail⟩

/-- A placeholder is found where there is one, with its shortest body. -/
theorem placeholder_of_encloses (h : Encloses opening closing text inner rest) :
    ∃ inner' rest', placeholder opening closing text = some (inner', rest') ∧
      Encloses opening closing text inner' rest' ∧ inner'.length ≤ inner.length := by
  obtain ⟨rfl, hne, hline⟩ := h
  obtain ⟨c, middle, rfl⟩ := List.exists_cons_of_ne_nil hne
  cases hcut : Text.cutAt closing (middle ++ closing ++ rest) with
  | none => exact absurd hcut Text.cutAt_ne_none
  | some parts =>
      obtain ⟨first, rest'⟩ := parts
      obtain ⟨hsplit, hfirst⟩ := Text.cutAt_eq_some_iff.1 hcut
      have hle : first.length ≤ middle.length := hfirst middle rest rfl
      have hbegins : first <+: middle := by
        have hfound : first <+: middle ++ closing ++ rest := ⟨closing ++ rest', by simp [hsplit]⟩
        have hgiven : middle <+: middle ++ closing ++ rest := ⟨closing ++ rest, by simp⟩
        exact List.prefix_of_prefix_length_le hfound hgiven hle
      have hline' : '\n' ∉ c :: first := fun hmem => hline
        (List.mem_cons.2 ((List.mem_cons.1 hmem).imp_right fun h => hbegins.subset h))
      refine ⟨c :: first, rest', ?_, ⟨?_, by simp, hline'⟩, Nat.succ_le_succ hle⟩
      · have hopens : Text.afterLeading opening (opening ++ c :: middle ++ closing ++ rest) =
            some (c :: (middle ++ closing ++ rest)) :=
          Text.afterLeading_eq_some_iff.2 (by simp)
        rw [placeholder, hopens, Option.bind_some, body, hcut]
        exact if_neg hline'
      · simp only [List.append_assoc] at hsplit ⊢
        rw [List.cons_append, List.cons_append, hsplit]

theorem encloses_of_placeholder (h : placeholder opening closing text = some (inner, rest)) :
    Encloses opening closing text inner rest ∧ ∀ inner' rest',
      Encloses opening closing text inner' rest' → inner.length ≤ inner'.length := by
  have hencloses : Encloses opening closing text inner rest := by
    obtain ⟨tail, htail, hbody⟩ := Option.bind_eq_some_iff.1 h
    cases tail with
    | nil => simp [body] at hbody
    | cons c tail =>
        simp only [body] at hbody
        split at hbody
        · cases hbody
        · rename_i middle rest' hcut
          split at hbody
          · cases hbody
          · rename_i hline
            obtain ⟨rfl, rfl⟩ := Prod.mk.inj (Option.some.inj hbody)
            refine ⟨?_, List.cons_ne_nil _ _, hline⟩
            rw [Text.afterLeading_eq_some_iff.1 htail, Text.eq_of_cutAt_eq_some hcut]
            simp
  refine ⟨hencloses, fun inner' rest' hother => ?_⟩
  obtain ⟨found, after, hfound, -, hle⟩ := placeholder_of_encloses hother
  obtain ⟨rfl, -⟩ := Prod.mk.inj (Option.some.inj (h.symm.trans hfound))
  exact hle

theorem placeholder_eq_none (h : placeholder opening closing text = none) :
    ¬ Encloses opening closing text inner rest := by
  intro hencloses
  obtain ⟨_, _, hfound, -⟩ := placeholder_of_encloses hencloses
  rw [h] at hfound
  cases hfound

/-! ## The scan -/

/-- The parts for some pieces, after the literal characters `before`. -/
def spansOf (before : List Char) : List Piece → List Span
  | [] => Span.literals before
  | .char c :: pieces => spansOf (before ++ [c]) pieces
  | .hole inner :: pieces => Span.literals before ++ .hole inner :: spansOf [] pieces

theorem map_literals (before : List Char) :
    (Span.literals before).map Span.segment = literal before := by
  cases before with
  | nil => rfl
  | cons c before => rfl

theorem segmentsOf_eq (before : List Char) (pieces : List Piece) :
    segmentsOf before pieces = (spansOf before pieces).map Span.segment := by
  induction pieces generalizing before with
  | nil => exact (map_literals before).symm
  | cons piece pieces ih =>
      cases piece with
      | char c => exact ih _
      | hole inner =>
          rw [segmentsOf, spansOf, List.map_append, List.map_cons, map_literals, ih]
          rfl

/-- A scan goes on where no placeholder begins before. -/
theorem scans_spansOf (hclear : ∀ other behind inner rest, before ++ text = other ++ behind →
      other.length < before.length → ¬ Encloses opening closing behind inner rest) :
    Scans opening closing (before ++ text) (spansOf before (scan opening closing text)) := by
  fun_induction scan opening closing text generalizing before with
  | case1 text inner rest hfound ih =>
      obtain ⟨hencloses, hshortest⟩ := encloses_of_placeholder hfound
      have hhere : ∀ behind, before ++ text = before ++ behind → text = behind :=
        fun _ => List.append_cancel_left
      refine .found ⟨⟨text, rfl, hencloses⟩, fun other behind inner' rest' hsplit hother => ?_,
        fun behind inner' rest' hsplit hother => ?_⟩ ?_
      · exact Nat.le_of_not_lt fun hlt => hclear other behind inner' rest' hsplit hlt hother
      · exact hshortest inner' rest' (hhere behind hsplit ▸ hother)
      · have hstart : Scans opening closing ([] ++ rest) (spansOf [] (scan opening closing rest)) :=
          ih fun other _ _ _ _ hlt => absurd hlt (Nat.not_lt_zero other.length)
        exact hstart
  | case2 hnone =>
      rw [List.append_nil] at hclear ⊢
      refine .rest fun other behind inner rest hsplit hencloses => ?_
      by_cases hlt : other.length < before.length
      · exact hclear other behind inner rest hsplit hlt hencloses
      · have hnil : behind = [] := by
          have hlength := congrArg List.length hsplit
          rw [List.length_append] at hlength
          exact List.eq_nil_of_length_eq_zero (by omega)
        exact placeholder_eq_none hnone (hnil ▸ hencloses)
  | case3 c text hnone ih =>
      have hstep : before ++ c :: text = (before ++ [c]) ++ text := by simp
      rw [hstep] at hclear ⊢
      refine ih fun other behind inner rest hsplit hlt hencloses => ?_
      by_cases hearlier : other.length < before.length
      · exact hclear other behind inner rest hsplit hearlier hencloses
      · -- the place that was tried last
        rw [← hstep] at hsplit
        have hlength : before.length = other.length := by
          rw [List.length_append, List.length_singleton] at hlt
          omega
        obtain ⟨-, rfl⟩ := List.append_inj hsplit hlength
        exact placeholder_eq_none hnone hencloses

theorem Leftmost.unique {before' inner' rest' : List Char}
    (h : Leftmost opening closing text before inner rest)
    (h' : Leftmost opening closing text before' inner' rest') :
    before = before' ∧ inner = inner' ∧ rest = rest' := by
  obtain ⟨behind, htext, hencloses⟩ := h.here
  obtain ⟨behind', htext', hencloses'⟩ := h'.here
  have hplace : before.length = before'.length :=
    Nat.le_antisymm (h.first _ _ _ _ htext' hencloses') (h'.first _ _ _ _ htext hencloses)
  obtain ⟨rfl, rfl⟩ := List.append_inj (htext.symm.trans htext') hplace
  exact ⟨rfl, hencloses.congr hencloses' (Nat.le_antisymm
    (h.shortest _ _ _ htext hencloses') (h'.shortest _ _ _ htext hencloses))⟩

/-- A text is scanned in one way. -/
theorem Scans.unique {spans other : List Span} (h : Scans opening closing text spans)
    (h' : Scans opening closing text other) : spans = other := by
  induction h generalizing other with
  | rest hnone =>
      cases h' with
      | rest => rfl
      | found hfound =>
          obtain ⟨behind, htext, hencloses⟩ := hfound.here
          exact absurd hencloses (hnone _ _ _ _ htext)
  | found hfound _ ih =>
      cases h' with
      | rest hnone =>
          obtain ⟨behind, htext, hencloses⟩ := hfound.here
          exact absurd hencloses (hnone _ _ _ _ htext)
      | found hfound' hrest =>
          obtain ⟨rfl, rfl, rfl⟩ := hfound.unique hfound'
          rw [ih hrest]

/-! ## Nothing is lost -/

theorem source_literals (before : List Char) :
    (Span.literals before).flatMap (Span.source opening closing) = before := by
  cases before with
  | nil => rfl
  | cons c before => simp [Span.literals, Span.source]

theorem Scans.source {spans : List Span} (h : Scans opening closing text spans) :
    text = spans.flatMap (Span.source opening closing) := by
  induction h with
  | rest => exact (source_literals _).symm
  | found hfound _ ih =>
      obtain ⟨behind, rfl, hencloses⟩ := hfound.here
      rw [List.flatMap_append, List.flatMap_cons, source_literals, ← ih, hencloses.split]
      simp [Span.source]

/-- No literal is empty, and no two literals are neighbours. -/
def Parted : List Span → Prop
  | [] => True
  | span :: spans => span ≠ .literal [] ∧
      (span.isLiteral = true → ∀ next ∈ spans.head?, next.isLiteral = false) ∧ Parted spans

theorem Scans.parted {spans : List Span} (h : Scans opening closing text spans) :
    Parted spans := by
  induction h with
  | @rest text =>
      cases text with
      | nil => trivial
      | cons c text => exact ⟨by simp, by simp, trivial⟩
  | @found _ before _ _ _ _ _ ih =>
      cases before with
      | nil => exact ⟨by simp, by simp [Span.isLiteral], ih⟩
      | cons c before =>
          exact ⟨by simp, by simp [Span.isLiteral], by simp, by simp [Span.isLiteral], ih⟩

/-! ## Rendering -/

/-- The text that parts show one after the other: literals as they are, and
in the place of a body the text of what its path resolves to. -/
inductive Shows (root : ObjectId) (tracker : Option EvaluationId) :
    World → List Span → String → World → Prop
  | nil (w : World) : Shows root tracker w [] "" w
  | literal {w w' : World} {spans : List Span} {content : String} (text : List Char) :
      Shows root tracker w spans content w' →
      Shows root tracker w (.literal text :: spans) (String.ofList text ++ content) w'
  | hole {w u w' : World} {body : List Char} {v : Value} {spans : List Span} {content : String} :
      Reaches ⟨w, (Path.parse (String.ofList body)).resolve root tracker⟩ ⟨u, .done v⟩ →
      Shows root tracker u spans content w' →
      Shows root tracker w (.hole body :: spans) (v.text ++ content) w'

variable {root : ObjectId} {tracker : Option EvaluationId} {spans : List Span}
  {content : String} {w w' : World}

theorem Shows.reaches (h : Shows root tracker w spans content w') :
    Reaches ⟨w, renderSegments root tracker (spans.map Span.segment)⟩ ⟨w', .done content⟩ := by
  induction h with
  | nil => exact .here _
  | literal text _ ih => exact ih.bind_left fun rest => pure (String.ofList text ++ rest)
  | @hole _ _ _ _ v _ _ hresolve _ ih =>
      exact (hresolve.bind_left _).trans (ih.bind_left fun rest => pure (v.text ++ rest))

theorem shows_of_reaches (h : Reaches ⟨w, renderSegments root tracker (spans.map Span.segment)⟩
    ⟨w', .done content⟩) : Shows root tracker w spans content w' := by
  induction spans generalizing w content with
  | nil =>
      obtain ⟨rfl, rfl⟩ := Reaches.done_inj h
      exact .nil _
  | cons span spans ih =>
      cases span with
      | literal text =>
          obtain ⟨rest, u, hrest, hdone⟩ := Reaches.of_bind h
          obtain ⟨rfl, rfl⟩ := Reaches.done_inj hdone
          exact .literal text (ih hrest)
      | hole body =>
          obtain ⟨v, u, hresolve, hlater⟩ := Reaches.of_bind h
          obtain ⟨rest, u', hrest, hdone⟩ := Reaches.of_bind hlater
          obtain ⟨rfl, rfl⟩ := Reaches.done_inj hdone
          exact .hole hresolve (ih hrest)

/-! ## Templates -/

/-- A template that is read from a text between delimiters. -/
structure ReadFrom (t : Template) (opening closing text : List Char) (spans : List Span) :
    Prop where
  scans : Scans opening closing text spans
  only : ∀ other, Scans opening closing text other → other = spans
  segments : t.segments = spans.map Span.segment
  source : text = spans.flatMap (Span.source opening closing)
  parted : Parted spans
  renders : ∀ {root tracker w w' content},
    Reaches ⟨w, t.render root tracker⟩ ⟨w', .done content⟩ ↔
      Shows root tracker w spans content w'
  plain : t.hasPlaceholders = false → ∀ root tracker w,
    Reaches ⟨w, t.render root tracker⟩ ⟨w, .done (String.ofList text)⟩

/-- A text without a placeholder is its only literal. -/
theorem Scans.plain (h : Scans opening closing text spans)
    (hnone : hasPlaceholders ⟨spans.map Span.segment⟩ = false) :
    Shows root tracker w spans (String.ofList text) w := by
  cases h with
  | rest =>
      cases text with
      | nil => exact .nil w
      | cons c text =>
          have hend : Shows root tracker w [] "" w := .nil w
          have hshows := hend.literal (c :: text)
          rwa [String.append_empty] at hshows
  | found => simp [hasPlaceholders, placeholders, Span.segment] at hnone

/-- Under an opening delimiter that is not empty, every text is read as a
template, whose segments are those of the only leftmost and lazy scan of
the text. -/
theorem parse_is_leftmost_lazy {convention : Convention} (h : convention.opening ≠ "")
    (text : String) : ∃ t spans, parse? convention text = some t ∧
      t.ReadFrom convention.opening.toList convention.closing.toList text.toList spans := by
  let opening := convention.opening.toList
  let closing := convention.closing.toList
  let spans := spansOf [] (scan opening closing text.toList)
  have hscans : Scans opening closing ([] ++ text.toList) spans :=
    scans_spansOf fun other _ _ _ _ hlt => absurd hlt (Nat.not_lt_zero other.length)
  have hsegments : (parse convention.opening convention.closing text).segments =
      spans.map Span.segment := segmentsOf_eq [] _
  have hrender : ∀ {root tracker},
      (parse convention.opening convention.closing text).render root tracker =
        renderSegments root tracker (spans.map Span.segment) := by
    intro root tracker
    rw [render, hsegments]
  refine ⟨_, spans, if_neg h, hscans, fun other hother => hother.unique hscans, hsegments,
    hscans.source, hscans.parted, ?_, fun hnone root tracker w => ?_⟩
  · intro root tracker w w' content
    rw [hrender]
    exact ⟨shows_of_reaches, Shows.reaches⟩
  · rw [hrender]
    refine (hscans.plain ?_).reaches
    rw [← hsegments]
    exact hnone

/-- Braces that overlap, and a line break between delimiters. -/
theorem parse_is_leftmost_lazy_of_braces :
    let text := "a\x7b\x7b\x7bb\x7d\x7d\x7d\x7b\x7b\n\x7d\x7d"
    let t : Template := ⟨[.literal "a", .placeholder ⟨"\x7bb", ["\x7bb"]⟩,
      .literal "\x7d\x7b\x7b\n\x7d\x7d"]⟩
    parse? .standard text = some t ∧
      ∃ spans, t.ReadFrom "\x7b\x7b".toList "\x7d\x7d".toList text.toList spans := by
  intro text t
  have hopening : Convention.standard.opening ≠ "" := by decide
  obtain ⟨found, spans, hfound, hread⟩ := parse_is_leftmost_lazy hopening text
  have hparse : parse? .standard text = some t := by decide +kernel +zetaReduce
  obtain rfl := Option.some.inj (hfound.symm.trans hparse)
  exact ⟨hparse, spans, hread⟩

end Template

end DataBinding
