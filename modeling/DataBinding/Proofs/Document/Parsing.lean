import DataBinding.Proofs.Document.Forest
import DataBinding.Proofs.Markup.Normal

/-!
# Parsing into a document

A markup is parsed into a new fragment, and nothing else in the document
changes (`parse_spec`). The fragment holds the forest that the grammar
derives from the source, and a source without a derivation is refused.
Whatever a node holds is held by the fragment that its markup is parsed
into, if it can be written at all. What was parsed can be, but for
neighbouring texts: these are joined, and nothing else changes when the
markup of the fragment is parsed again (`parsed_markup_is_stable`).
-/

namespace DataBinding.Document

variable {d d' : Document} {n : NodeId} {source : String} {forest : List Markup.Tree}

mutual

/-- What a node stands for stays when no content is changed. -/
theorem Holds.frame {value : NodeId → Prop} : ∀ {tree : Markup.Tree} {n : NodeId}, d.Holds n tree →
    Alters (fun _ => False) value d d' → d'.Holds n tree
  | .element tag attributes children, n, hn, h => by
      have hlt := hn.lt
      obtain ⟨hkind, hattributes, hchildren⟩ := hn
      refine ⟨(h.kind n hlt).trans hkind, (h.attributes n hlt).trans hattributes, ?_⟩
      rw [h.children n hlt id]
      exact HoldAll.frame hchildren h
  | .text content, n, hn, h => by
      have hlt := hn.lt
      obtain ⟨hkind, hchildren, htext⟩ := hn
      exact ⟨(h.kind n hlt).trans hkind, (h.children n hlt id).trans hchildren,
        (h.text n hlt id).trans htext⟩

theorem HoldAll.frame {value : NodeId → Prop} : ∀ {trees : List Markup.Tree} {nodes : List NodeId},
    d.HoldAll nodes trees → Alters (fun _ => False) value d d' → d'.HoldAll nodes trees
  | [], _, hnodes, _ => hnodes
  | tree :: trees, _, hnodes, h => by
      obtain ⟨n, rest, rfl, hn, hrest⟩ := hnodes
      exact ⟨n, rest, rfl, Holds.frame hn h, HoldAll.frame hrest h⟩

end

/-- The fragment that a forest is parsed into. -/
theorem parse_spec (h : Markup.parse source = .ok forest) : ∃ d', d.parse source = .ok d' ∧
    Alters (fun _ => False) (fun _ => False) d d' ∧ (d'.node d.nextNode).kind = .fragment ∧
      d'.HoldAll (d'.node d.nextNode).children forest := by
  have hnew : (d.add (.new .fragment)).node d.nextNode = .new .fragment := node_add_next d _
  have hlt : d.nextNode < (d.add (.new .fragment)).nodes.length := by
    rw [length_add]
    exact Nat.lt_succ_self _
  obtain ⟨nodes, halters, hchildren, -, hstand⟩ := plantAll_spec forest hlt
  refine ⟨plantAll d.nextNode forest (d.add (.new .fragment)), by rw [parse, h]; rfl, ?_, ?_, ?_⟩
  · exact (Alters.add d _).andThen halters (fun m hm heq => Nat.ne_of_lt hm heq) fun _ _ h => h
  · rw [(@halters fun _ => False).kind _ hlt, hnew]
    rfl
  · rw [hnew] at hchildren
    exact hchildren ▸ hstand.holdAll

theorem parse_ok_iff :
    (∃ d', d.parse source = .ok d') ↔ ∃ forest, Markup.parse source = .ok forest := by
  rw [parse]
  cases Markup.parse source with
  | error e => simp [Except.map]
  | ok forest => simp [Except.map]

/-- A source is accepted if and only if it is a forest of the grammar, and
the fragment then holds that forest. -/
theorem parse_iff_forest (d : Document) (source : String) :
    ((∃ d', d.parse source = .ok d') ↔ ∃ forest, Markup.Grammar.Forest source.toList forest []) ∧
      ∀ forest, Markup.Grammar.Forest source.toList forest [] ↔ ∃ d', d.parse source = .ok d' ∧
        (d'.node d.nextNode).kind = .fragment ∧
          d'.HoldAll (d'.node d.nextNode).children forest := by
  have haccepted : (∃ d', d.parse source = .ok d') ↔
      ∃ forest, Markup.Grammar.Forest source.toList forest [] :=
    parse_ok_iff.trans (exists_congr fun _ => Markup.parse_eq_ok_iff)
  refine ⟨haccepted, fun forest => ⟨fun h => ?_, fun ⟨d', hparse, _, hholds⟩ => ?_⟩⟩
  · obtain ⟨d', hparse, -, hkind, hholds⟩ := parse_spec (Markup.parse_eq_ok_iff.2 h)
    exact ⟨d', hparse, hkind, hholds⟩
  · obtain ⟨found, hfound⟩ := haccepted.1 ⟨d', hparse⟩
    obtain ⟨d'', hparse', -, -, hholds'⟩ := parse_spec (Markup.parse_eq_ok_iff.2 hfound)
    obtain rfl := Except.ok.inj (hparse.symm.trans hparse')
    rwa [hholds.unique hholds']

/-- Markup that was written for a forest is shown as that forest. -/
theorem markupForest_renderAll (hwritable : Markup.WritableAll forest) :
    markupForest (String.ofList (Markup.renderAll forest)) = forest := by
  have hwritten : Markup.Grammar.Forest (Markup.renderAll forest) forest [] := by
    simpa using Markup.forest_renderAll hwritable Markup.breaks_nil
  have hparsed : Markup.parse (String.ofList (Markup.renderAll forest)) = .ok forest := by
    rwa [Markup.parse_eq_ok_iff, String.toList_ofList]
  rw [markupForest, hparsed]

/-- The markup inside of a node is parsed into a fragment that holds the
same forest as the node, whose children are as they were. -/
theorem parse_innerMarkup (hholds : d.HoldAll (d.node n).children forest)
    (hwritable : Markup.WritableAll forest) : ∃ d', d.parse (d.innerMarkup n) = .ok d' ∧
      (d'.node d.nextNode).kind = .fragment ∧ d'.HoldAll (d'.node d.nextNode).children forest ∧
        d'.HoldAll (d.node n).children forest := by
  have hwritten : Markup.Grammar.Forest (Markup.renderAll forest) forest [] := by
    simpa using Markup.forest_renderAll hwritable Markup.breaks_nil
  have hparsed : Markup.parse (d.innerMarkup n) = .ok forest := by
    rw [Markup.parse_eq_ok_iff, hholds.innerMarkup, String.toList_ofList]
    exact hwritten
  obtain ⟨d', hparse, halters, hkind, hnew⟩ := parse_spec hparsed
  exact ⟨d', hparse, hkind, hnew, hholds.frame halters⟩

/-- A fragment with an element, an attribute that needs both kinds of care,
an element without content and texts that look like markup. -/
theorem parse_innerMarkup_of_quotes :
    let content : List Markup.Tree :=
      [.element "p" ⟨[("title", "a \x22b\x22 &lt; c")]⟩
        [.text "1 < 2 &amp; {{x}}", .element "br" .empty [], .text " "],
       .text "-->"]
    let d := plantAll 0 content (empty.add (.new .fragment))
    d.HoldAll (d.node 0).children content ∧ Markup.WritableAll content ∧
      ∃ d', d.parse (d.innerMarkup 0) = .ok d' ∧ (d'.node d.nextNode).kind = .fragment ∧
        d'.HoldAll (d'.node d.nextNode).children content ∧
          d'.HoldAll (d.node 0).children content := by
  intro content d
  have hholds : d.HoldAll (d.node 0).children content := by
    obtain ⟨nodes, -, hchildren, -, hstand⟩ :=
      plantAll_spec content (show 0 < (empty.add (.new .fragment)).nodes.length by decide)
    exact hchildren ▸ hstand.holdAll
  have hparagraph : Markup.IsTag "p" :=
    ⟨⟨by decide, List.all_eq_true.1 (by decide)⟩, by simp, by decide⟩
  have hbreak : Markup.IsTag "br" :=
    ⟨⟨by decide, List.all_eq_true.1 (by decide)⟩, by simp, by decide⟩
  have htitle : Markup.IsName "title" := ⟨by decide, List.all_eq_true.1 (by decide)⟩
  have hwritable : Markup.WritableAll content := by
    simp [content, Markup.WritableAll, Markup.Tree.Writable, Markup.Tree.isText, Keyed.keys,
      Keyed.empty, hparagraph, hbreak, htitle, show Markup.isVoid "p" = false by decide]
  exact ⟨hholds, hwritable, parse_innerMarkup hholds hwritable⟩

/-! ## Parsing what was parsed -/

/-- What a source is parsed into is in normal form. Its markup parses, and
gives the same forest with neighbouring texts joined, of which the markup
is the same. -/
theorem parsed_markup_is_stable (h : d.parse source = .ok d') : ∃ forest,
    d'.HoldAll (d'.node d.nextNode).children forest ∧ Markup.NormalAll forest ∧
      ∃ d'', d'.parse (d'.innerMarkup d.nextNode) = .ok d'' ∧
        (d''.node d'.nextNode).kind = .fragment ∧
        d''.HoldAll (d''.node d'.nextNode).children (Markup.joinAll forest) ∧
        d''.innerMarkup d'.nextNode = d'.innerMarkup d.nextNode := by
  obtain ⟨forest, hforest⟩ := parse_ok_iff.1 ⟨d', h⟩
  obtain ⟨first, hfirst, -, -, hholds⟩ := parse_spec hforest
  obtain rfl := Except.ok.inj (h.symm.trans hfirst)
  have hnormal : Markup.NormalAll forest :=
    Markup.normal_of_forest (Markup.parse_eq_ok_iff.1 hforest)
  have hagain : Markup.parse (d'.innerMarkup d.nextNode) = .ok (Markup.joinAll forest) := by
    rw [hholds.innerMarkup]
    exact Markup.parse_renderAll hnormal
  obtain ⟨d'', hparse, -, hkind, hjoined⟩ := parse_spec hagain
  refine ⟨forest, hholds, hnormal, d'', hparse, hkind, hjoined, ?_⟩
  rw [hjoined.innerMarkup, Markup.renderAll_joinAll, hholds.innerMarkup]

open Markup Markup.Grammar in
/-- A comment between two texts that look like an entity when they are
joined, and a tag in upper case that closes itself. -/
theorem parsed_markup_is_stable_of_comment : ∃ d' forest,
    empty.parse "&amp;am<!-- -->p;<P/>" = .ok d' ∧
    d'.HoldAll (d'.node 0).children forest ∧ NormalAll forest ∧
      ∃ d'', d'.parse (d'.innerMarkup 0) = .ok d'' ∧
        d''.HoldAll (d''.node d'.nextNode).children (joinAll forest) := by
  have hblank : Run Text.isBlank ['/', '>'] [] ['/', '>'] := run_blank_nil (by decide)
  have hname : Run isNameChar ['P', '/', '>'] ['P'] ['/', '>'] :=
    ⟨rfl, List.all_eq_true.1 (by decide), fun _ hc => Option.some.inj hc ▸ by decide⟩
  have hopening : Opening "<P/>".toList (tagOf ['P']) (Keyed.ofList []) true [] :=
    .intro (by decide) (by decide) hname (.closed hblank)
  have htag : Forest "<P/>".toList [.element "p" .empty []] [] := .childless hopening rfl (.nil [])
  have htext : ∀ (content behind : String) {forest : List Tree}, content ≠ "" →
      behind.toList.head? = some '<' → Forest behind.toList forest [] →
      Forest ((Tree.text content).render ++ behind.toList) (.text content :: forest) [] :=
    fun _ _ _ hne hhead => forest_render hne fun _ c hc =>
      (Option.some.inj (hhead.symm.trans hc)).symm
  have hlast := htext "p;" "<P/>" (by decide) (by decide) htag
  rw [show (Tree.text "p;").render ++ "<P/>".toList = "p;<P/>".toList by decide] at hlast
  have hcomment : Comment "<!-- -->p;<P/>".toList "p;<P/>".toList :=
    comment_iff.2 ⟨by decide, _, rfl⟩
  have hforest := htext "&am" "<!-- -->p;<P/>" (by decide) (by decide) (.comment hcomment hlast)
  rw [show (Tree.text "&am").render ++ "<!-- -->p;<P/>".toList =
    "&amp;am<!-- -->p;<P/>".toList by decide] at hforest
  obtain ⟨d', hparse, -⟩ := parse_spec (parse_eq_ok_iff.2 hforest)
  obtain ⟨forest, hholds, hnormal, d'', hagain, -, hjoined, -⟩ := parsed_markup_is_stable hparse
  exact ⟨d', forest, hparse, hholds, hnormal, d'', hagain, hjoined⟩

end DataBinding.Document
