import DataBinding.Proofs.Document.Parsing
import DataBinding.Proofs.Markup.Appending

/-!
# Parsing composes

Two sources that are written one behind the other are parsed like each of
them on its own, if the first one parses and its last text ends there: the
fragment holds the children of both, and a failure of the second one is
the same failure, later by the length of the first (`parsing_composes`).
-/

namespace DataBinding.Document

variable {first second : Document} {a b : String}

/-- What is empty or begins with a bracket continues no text. -/
theorem breaks_of_begins (h : b = "" ∨ ∃ more, b = "<" ++ more) : Markup.Breaks b.toList := by
  rcases h with rfl | ⟨more, rfl⟩
  · exact Markup.breaks_nil
  · rw [String.toList_append]
    exact fun c hc => (Option.some.inj hc).symm

theorem parse_eq_error_iff {d : Document} {e : Error} :
    d.parse a = .error e ↔ Markup.parse a = .error e := by
  rw [parse]
  cases Markup.parse a with
  | ok forest => simp [Except.map]
  | error e => simp [Except.map]

/-- What is parsed behind a source that parses: the children of both follow
one another, or the failure is that of the second source, at its place
there. -/
theorem parsing_composes (d : Document) {da db : Document} (ha : da.parse a = .ok first)
    (hb : b = "" ∨ ∃ more, b = "<" ++ more) :
    (∀ second, db.parse b = .ok second → ∃ both forest forest', d.parse (a ++ b) = .ok both ∧
      (both.node d.nextNode).kind = .fragment ∧
      first.HoldAll (first.node da.nextNode).children forest ∧
      second.HoldAll (second.node db.nextNode).children forest' ∧
      both.HoldAll (both.node d.nextNode).children (forest ++ forest')) ∧
    ∀ e, db.parse b = .error e → ∃ position cause, e = .markup position cause ∧
      d.parse (a ++ b) = .error (.markup (a.utf8ByteSize + position) cause) := by
  obtain ⟨forest, hforest⟩ := parse_ok_iff.1 ⟨first, ha⟩
  obtain ⟨first', hfirst, -, -, hholds⟩ := parse_spec hforest
  obtain rfl := Except.ok.inj (ha.symm.trans hfirst)
  have hbreaks := breaks_of_begins hb
  refine ⟨fun second hsecond => ?_, fun e he => ?_⟩
  · obtain ⟨forest', hforest'⟩ := parse_ok_iff.1 ⟨second, hsecond⟩
    obtain ⟨second', hsecond', -, -, hholds'⟩ := parse_spec hforest'
    obtain rfl := Except.ok.inj (hsecond.symm.trans hsecond')
    obtain ⟨both, hboth, -, hkind, hall⟩ :=
      parse_spec (Markup.parse_append hforest hbreaks hforest')
    exact ⟨both, forest, forest', hboth, hkind, hholds, hholds', hall⟩
  · obtain ⟨position, cause, hcause, hboth⟩ :=
      Markup.parse_append_error hforest hbreaks (parse_eq_error_iff.1 he)
    rw [Text.byteLength_toList] at hboth
    exact ⟨position, cause, hcause, parse_eq_error_iff.2 hboth⟩

open Markup Markup.Grammar in
/-- A text of two bytes and an element, before one more element, and before
a tag without a name. -/
theorem parsing_composes_of_break : ∃ first second both,
    empty.parse "é<br>" = .ok first ∧ first.parse "<br>" = .ok second ∧
    second.parse ("é<br>" ++ "<br>") = .ok both ∧
    both.HoldAll (both.node second.nextNode).children
      [.text "é", .element "br" .empty [], .element "br" .empty []] ∧
    first.parse "<>" = .error (.markup 1 .tagNameExpected) ∧
    second.parse ("é<br>" ++ "<>") = .error (.markup 7 .tagNameExpected) := by
  have hopening : Opening "<br>".toList (tagOf ['b', 'r']) (Keyed.ofList []) false [] :=
    .intro (by decide) (by decide)
      ⟨rfl, List.all_eq_true.1 (by decide), fun _ hc => Option.some.inj hc ▸ by decide⟩
      (.ended (run_blank_nil (by decide)))
  have hbreak : Forest "<br>".toList [.element "br" .empty []] [] :=
    .childless hopening (by decide) (.nil [])
  have htext : Forest ((Tree.text "é").render ++ "<br>".toList)
      [.text "é", .element "br" .empty []] [] := by
    refine forest_render ?_ (fun _ c hc => (Option.some.inj hc).symm) hbreak
    exact show "é" ≠ "" by decide
  have hsource : Markup.parse "é<br>" = .ok [.text "é", .element "br" .empty []] :=
    parse_eq_ok_iff.2 htext
  have hmore : Markup.parse "<br>" = .ok [.element "br" .empty []] := parse_eq_ok_iff.2 hbreak
  have hfailure : Markup.parse "<>" = .error (.markup 1 .tagNameExpected) := by
    rw [Markup.parse, forestFrom_of_failure (by decide) rfl]
    rfl
  obtain ⟨first, hfirst, -, -, hholds⟩ := parse_spec (d := empty) hsource
  obtain ⟨second, hsecond, -, -, hholds'⟩ := parse_spec (d := first) hmore
  obtain ⟨both, forest, forest', hboth, -, hforest, hforest', hall⟩ :=
    (parsing_composes second hfirst (.inr ⟨"br>", rfl⟩)).1 second hsecond
  have hrefused : first.parse "<>" = .error (.markup 1 .tagNameExpected) :=
    parse_eq_error_iff.2 hfailure
  obtain ⟨position, cause, hcause, herror⟩ :=
    (parsing_composes second hfirst (.inr ⟨">", rfl⟩)).2 _ hrefused
  obtain ⟨rfl, rfl⟩ := Error.markup.inj hcause
  obtain rfl := hholds.unique hforest
  obtain rfl := hholds'.unique hforest'
  exact ⟨first, second, both, hfirst, hsecond, hboth, hall, hrefused, herror⟩

end DataBinding.Document
