import DataBinding.Proofs.Compiling.Undoing
import DataBinding.Proofs.Compiling.Views

/-!
# What a failed compilation has shown

What a binding shows is shown as soon as it is installed, and a failure
that comes later does not take it back. So a failed compilation keeps the
markup if nothing was shown before the failure: while an evaluation is
going on nothing can be, and otherwise the outline says which bindings
come before its error (`failed_compile_keeps_markup`). Without that
condition a text may have lost its placeholder to the data
(`failed_compile_shows_data`).
-/

namespace DataBinding

open World

variable {context : Context} {convention : Convention} {site : Nat → NodeId} {root : NodeId}
  {trees : List Markup.Tree} {w w' u : World} {walk : Except Error Unit}

/-- Whether a value is shown in the markup: in place of the children of the
node, or in its text. -/
def Binding.shows : Binding → Bool
  | .placeholder _ _ _ => true
  | b => b.displaces

theorem Binding.not_displaces_of_unshown {b : Binding} (h : b.shows = false) :
    b.displaces = false := by
  cases b with
  | placeholder place template path => cases h
  | directive place directive => exact h

/-- Without a binding that shows, no content is kept. -/
theorem Outline.not_keeps_of_unshown {o : Outline} (h : ∀ b ∈ o.bindings, b.shows = false)
    {data : ObjectId} (n : NodeId) : ¬ Keeps (o.watches site data) (n, false) := by
  rintro ⟨p, hp, htarget⟩
  obtain ⟨b, hb, hwatch⟩ := List.mem_filterMap.1 hp
  have hunshown := h b hb
  cases b with
  | placeholder place template path => cases hunshown
  | directive place directive =>
      cases directive with
      | text path => cases hunshown
      | html path => cases hunshown
      | model path =>
          cases hwatch
          cases htarget
      | on event method => cases hwatch

/-! ## Where nothing is shown -/

/-- A walk that shows nothing leaves all content as it was. -/
theorem alters_of_unshown (hopening : convention.opening ≠ "") (hasks : w.OnlyAsks)
    (hrooted : w.document.Rooted site root trees)
    (hunshown : w.slot = none →
      ∀ b ∈ (Outline.ofForest convention context.methods 0 trees).bindings, b.shows = false)
    (hwalk : Reaches ⟨w.openCompilation root,
      compileChildren w.document.nextNode context convention w.nextView⟩ ⟨u, .done walk⟩) :
    (w.openCompilation root).document.Alters (fun _ => False) (fun _ => True) u.document := by
  by_cases hslot : w.slot = none
  · have hwalkable : Walkable convention context site root trees w :=
      ⟨hslot, hasks, hrooted.there, hrooted.bears, hrooted.distinct, hrooted.below,
        fun b hb => .of_not_displaces (Binding.not_displaces_of_unshown (hunshown hslot b hb))⟩
    obtain ⟨-, xs, es, hinstalls⟩ := hwalkable.carries hopening hwalk
    exact hinstalls.alters.mono
      (fun n _ hkeeps => Outline.not_keeps_of_unshown (hunshown hslot) n hkeeps)
      fun _ _ _ => trivial
  · obtain ⟨xs, es, hgathers⟩ := hasks.gathers hwalk
    exact (hgathers.busy hslot).2.mono (fun _ _ => id) fun _ _ _ => trivial

/-- After a walk that has changed no children, every node has the children
that it had, the root among them. -/
theorem Document.Rooted.reopened {inner value : NodeId → Prop}
    (hrooted : w.document.Rooted site root trees)
    (hwalked : (w.openCompilation root).document.Alters inner value u.document)
    (hchildren : ∀ n < (w.openCompilation root).document.nodes.length,
      (u.document.node n).children = ((w.openCompilation root).document.node n).children) :
    w.document.Alters (fun n => (n = root ∨ n = w.document.nextNode) ∨ inner n) value
        (u.document.append root w.document.nextNode) ∧
      ∀ n < w.document.nodes.length,
        ((u.document.append root w.document.nextNode).node n).children =
          (w.document.node n).children := by
  let fragment := w.document.nextNode
  obtain ⟨hopened, hthere, hkind, hgathered, hemptied⟩ := Document.gathered_frame hrooted.there
    (fun c hc => (hrooted.bears.mem c hc).1) hrooted.nodup
  have hroot := Nat.lt_of_lt_of_le hrooted.there hopened.length
  obtain ⟨happend, hback⟩ := Document.append_fragment_spec
    (Nat.lt_of_lt_of_le hroot hwalked.length) (Nat.lt_of_lt_of_le hthere hwalked.length)
    ((hwalked.kind fragment hthere).trans hkind)
    ((hchildren fragment hthere).trans hgathered ▸ hrooted.nodup)
  refine ⟨?_, fun n hn => ?_⟩
  · exact ((hopened.mono (fun _ _ => .inl) fun _ _ => False.elim).trans
      (hwalked.mono (fun _ _ => .inr) fun _ _ h => h)).trans
        (happend.mono (fun _ _ => .inl) fun _ _ => False.elim)
  · have hopen := Nat.lt_of_lt_of_le hn hopened.length
    by_cases hself : n = root
    · subst hself
      refine (hback (Nat.ne_of_lt hn)).trans ?_
      rw [hchildren n hroot, hchildren fragment hthere]
      exact congrArg₂ (· ++ ·) hemptied hgathered
    · have hother : ¬ (n = root ∨ n = fragment) := not_or.2 ⟨hself, Nat.ne_of_lt hn⟩
      exact (happend.children n (Nat.lt_of_lt_of_le hopen hwalked.length) hother).trans
        ((hchildren n hopen).trans (hopened.children n hn hother))

/-- After a walk that has changed no content, the forest stands below the
root again. -/
theorem Document.Rooted.closed (hrooted : w.document.Rooted site root trees)
    (hwalked : (w.openCompilation root).document.Alters (fun _ => False) (fun _ => True)
      u.document) :
    (u.document.append root w.document.nextNode).Rooted site root trees ∧
      w.document.Alters (fun n => n = root ∨ n = w.document.nextNode) (fun _ => True)
        (u.document.append root w.document.nextNode) := by
  obtain ⟨halters, hchildren⟩ := hrooted.reopened hwalked fun n hn => hwalked.children n hn id
  refine ⟨⟨Nat.lt_of_lt_of_le hrooted.there halters.length, ?_, hrooted.distinct, hrooted.below⟩,
    halters.mono (fun _ _ h => h.resolve_right id) fun _ _ h => h⟩
  rw [hchildren root hrooted.there]
  refine hrooted.bears.frame halters fun i _ hi hor => ?_
  rw [Nat.zero_add] at hi
  exact (hor.resolve_right id).elim (hrooted.below i hi) (Nat.ne_of_lt (hrooted.site_lt hi))

/-- Listeners are not written. -/
theorem outerMarkup_dropListeners (d : Document) (es : List (NodeId × ListenerId)) (n : NodeId) :
    (dropListeners d es).outerMarkup n = d.outerMarkup n := by
  have hlength : (dropListeners d es).nodes.length = d.nodes.length := by
    induction es generalizing d with
    | nil => rfl
    | cons e es ih => exact (ih _).trans (Document.length_modify ..)
  have htrees : ∀ levels m, (dropListeners d es).treesWithin levels m = d.treesWithin levels m := by
    intro levels
    induction levels with
    | zero => exact fun _ => rfl
    | succ levels ih =>
        intro m
        have hsame : ∀ {β : Type} (field : Node → β),
            (∀ (node : Node) (listeners : List Listener),
              field { node with listeners } = field node) →
            field ((dropListeners d es).node m) = field (d.node m) :=
          fun _ h => field_dropListeners d es m h
        rw [Document.treesWithin, Document.treesWithin]
        simp only [funext ih, hsame Node.kind fun _ _ => rfl,
          hsame Node.attributes fun _ _ => rfl,
          hsame Node.children fun _ _ => rfl, hsame Node.text fun _ _ => rfl]
  rw [Document.outerMarkup, Document.outerMarkup, Document.trees, Document.trees, hlength, htrees]

/-- A failed compilation keeps the markup if an evaluation is going on, or
if nothing that comes before the failure shows a value in the markup. -/
theorem failed_compile_keeps_markup {e : Error} (hopening : convention.opening ≠ "")
    (hasks : w.OnlyAsks) (hrooted : w.document.Rooted site root trees)
    (hunshown : w.slot = none →
      ∀ b ∈ (Outline.ofForest convention context.methods 0 trees).bindings, b.shows = false)
    (h : Reaches ⟨w, compile root context convention⟩ ⟨w', .done (.error e)⟩) :
    w'.document.outerMarkup root = w.document.outerMarkup root := by
  by_cases hkind : (w.document.node root).kind = .text
  · obtain ⟨rfl, -⟩ := Reaches.of_compile_text hkind h
    rfl
  · obtain ⟨walk, u, hwalk, ⟨-, hok, -⟩ | ⟨e, -, -, rfl⟩⟩ := Reaches.of_compile hkind h
    · cases hok
    · obtain ⟨hback, halters⟩ :=
        hrooted.closed (alters_of_unshown hopening hasks hrooted hunshown hwalk)
      have hundone : (u.onDocument (·.append root w.document.nextNode)).Discards w.nextView _ :=
        .disposeView _ _
      rw [hundone.document, outerMarkup_dropListeners]
      exact hrooted.outerMarkup_eq hback (halters.kind root hrooted.there)
        (halters.attributes root hrooted.there) hkind

/-! ## Before and after a text -/

/-- A paragraph with a directive that there is not, and a text that shows
the property `a`. -/
def misspeltFirstTrees : List Markup.Tree :=
  [.element "p" ⟨[("v-bogus", "x")]⟩ [], .text "\x7b\x7ba\x7d\x7d"]

/-- The two of them, next to observed data. -/
def misspeltFirstWorld : World :=
  { misspeltWorld with
    document := Document.plantAll 0 misspeltFirstTrees (Document.empty.add (.new .fragment)) }

/-- A failure that comes before the text keeps its placeholder. -/
theorem failed_compile_keeps_markup_of_misspelt : ∃ w' : World,
    Reaches ⟨misspeltFirstWorld, compile 0 ⟨0, .empty⟩ .standard⟩
      ⟨w', .done (.error (.unknownDirective "v-bogus"))⟩ ∧
    w'.document.outerMarkup 0 = misspeltFirstWorld.document.outerMarkup 0 ∧
    misspeltFirstWorld.document.outerMarkup 0 = "<p v-bogus=\"x\"></p>\x7b\x7ba\x7d\x7d" := by
  have hrun := @Config.reaches_of_error? 300
    ⟨misspeltFirstWorld, compile 0 ⟨0, .empty⟩ .standard⟩ (.unknownDirective "v-bogus")
    (by decide +kernel)
  have hnone : (Outline.ofForest .standard .empty 0 misspeltFirstTrees).bindings = [] := by
    decide +kernel
  have hkept := failed_compile_keeps_markup (by decide) (Pure.onlyAsks (.of_allReactive rfl))
    (Document.rooted_planted misspeltFirstTrees)
    (fun _ b hb => absurd (hnone ▸ hb) List.not_mem_nil) hrun
  exact ⟨_, hrun, hkept, by decide +kernel⟩

/-- A failure that comes after a text does not give the text its
placeholder back, and a second attempt finds none. -/
theorem failed_compile_shows_data : ∃ w' : World, misspeltWorld.Reachable ∧ misspeltWorld.Pure ∧
    misspeltWorld.document.Rooted (1 + ·) 0 misspeltTrees ∧ misspeltWorld.slot = none ∧
    Reaches ⟨misspeltWorld, compile 0 ⟨0, .empty⟩ .standard⟩
      ⟨w', .done (.error (.unknownDirective "v-bogus"))⟩ ∧
    misspeltWorld.document.outerMarkup 0 = "\x7b\x7ba\x7d\x7d<p v-bogus=\"x\"></p>" ∧
    w'.document.outerMarkup 0 = "1<p v-bogus=\"x\"></p>" := by
  have hrun := @Config.reaches_of_error? 300
    ⟨misspeltWorld, compile 0 ⟨0, .empty⟩ .standard⟩ (.unknownDirective "v-bogus")
    (by decide +kernel)
  exact ⟨_, reachable_misspeltWorld, .of_allReactive rfl, Document.rooted_planted _, rfl, hrun,
    by decide +kernel, by decide +kernel⟩

end DataBinding
