import DataBinding.Proofs.Document.Content
import DataBinding.Proofs.Rendering.Renders

/-!
# What a reaction shows

The reactions that compiling installs each keep one part of the document:
the content of a node, or its form value (`target?`). `Shown` says that
the part shows a value: as text, as markup, or as a form value; a
template shows what it renders to, whatever the value. Running a reaction
comes to such a document and alters nothing but that part
(`reaches_run`), and a part stays shown when another one is altered.

The nodes that reactions are for stand before `lo`, those that they plant
from `lo` on, so that none is planted for one to change.
-/

namespace DataBinding

namespace Reaction

variable {d d' : Document} {g g' : Graph} {lo : NodeId} {v : Value}

/-- The part of the document that a reaction keeps: a node, and whether it
is the form value or the content. -/
def target? : Reaction → Option (NodeId × Bool)
  | .client _ _ => none
  | .text node | .markup node | .template node _ _ => some (node, false)
  | .formValue node => some (node, true)

/-- Whether a reaction renders a template. -/
def isTemplate : Reaction → Bool
  | .template _ _ _ => true
  | _ => false

/-- The node of the reaction is one that it can be for. -/
def Fits (d : Document) (lo : NodeId) : Reaction → Prop
  | .client _ _ => False
  | .text node | .markup node => node < lo ∧ ∃ tag, (d.node node).kind = .element tag
  | .template node _ _ => node < lo ∧ (d.node node).kind = .text
  | .formValue node => node < lo

/-- The part of the document shows a value. -/
def Shown (d : Document) (g : Graph) (lo : NodeId) (v : Value) : Reaction → Prop
  | .client _ _ => True
  | .text node => d.StandAll lo (d.node node).children (Document.textForest v.text)
  | .markup node => d.StandAll lo (d.node node).children (Document.markupForest v.text)
  | .formValue node => (d.node node).value = v.text
  | .template node parsed data => g.Renders data parsed.segments (d.node node).text

theorem ne_text_of_element {n : NodeId} (h : ∃ tag, (d.node n).kind = .element tag) :
    (d.node n).kind ≠ .text := by
  obtain ⟨tag, htag⟩ := h
  exact fun heq => NodeKind.noConfusion (htag.symm.trans heq)

theorem Fits.lt {r : Reaction} {n : NodeId} {form : Bool} (h : r.Fits d lo)
    (htarget : r.target? = some (n, form)) : n < lo := by
  cases r with
  | client name body => cases htarget
  | text node => cases htarget; exact h.1
  | markup node => cases htarget; exact h.1
  | template node parsed data => cases htarget; exact h.1
  | formValue node => cases htarget; exact h

theorem Fits.target?_ne_none {r : Reaction} (h : r.Fits d lo) : r.target? ≠ none := by
  intro hnone
  cases r with
  | client name body => exact h
  | _ => cases hnone

theorem Fits.frame {inner value : NodeId → Prop} {r : Reaction} (h : r.Fits d lo)
    (halters : d.Alters inner value d') (hlo : lo ≤ d.nodes.length) : r.Fits d' lo := by
  cases r with
  | client name body => exact h
  | text node => exact ⟨h.1, (halters.kind node (Nat.lt_of_lt_of_le h.1 hlo)).symm ▸ h.2⟩
  | markup node => exact ⟨h.1, (halters.kind node (Nat.lt_of_lt_of_le h.1 hlo)).symm ▸ h.2⟩
  | template node parsed data =>
      exact ⟨h.1, (halters.kind node (Nat.lt_of_lt_of_le h.1 hlo)).trans h.2⟩
  | formValue node => exact h

/-- What is shown in one part stays when others are altered. -/
theorem Shown.frame {inner value : NodeId → Prop} {r : Reaction} (h : r.Shown d g lo v)
    (hfits : r.Fits d lo) (hlo : lo ≤ d.nodes.length) (halters : d.Alters inner value d')
    (hinner : ∀ n, r.target? = some (n, false) → ¬ inner n)
    (hvalue : ∀ n, r.target? = some (n, true) → ¬ value n) (hbehind : ∀ n, lo ≤ n → ¬ inner n) :
    r.Shown d' g lo v := by
  cases r with
  | client name body => trivial
  | text node =>
      have hsame := halters.children node (Nat.lt_of_lt_of_le hfits.1 hlo) (hinner node rfl)
      rw [Shown, hsame]
      exact Document.StandAll.frame h halters hbehind (Nat.le_refl _)
  | markup node =>
      have hsame := halters.children node (Nat.lt_of_lt_of_le hfits.1 hlo) (hinner node rfl)
      rw [Shown, hsame]
      exact Document.StandAll.frame h halters hbehind (Nat.le_refl _)
  | template node parsed data =>
      have hsame := halters.text node (Nat.lt_of_lt_of_le hfits.1 hlo) (hinner node rfl)
      rw [Shown, hsame]
      exact h
  | formValue node =>
      exact (halters.value node (Nat.lt_of_lt_of_le hfits hlo) (hvalue node rfl)).trans h

/-- For a template, what is shown is about the graph; for all else about
the value. -/
theorem Shown.of_graph {r : Reaction} {u : Value} (h : r.Shown d g lo v) (htext : u.text = v.text)
    (htemplate : ∀ node parsed data, r = .template node parsed data →
      g.Renders data parsed.segments (d.node node).text →
      g'.Renders data parsed.segments (d.node node).text) : r.Shown d g' lo u := by
  cases r with
  | client name body => trivial
  | text node =>
      rw [Shown, htext]
      exact h
  | markup node =>
      rw [Shown, htext]
      exact h
  | template node parsed data => exact htemplate node parsed data rfl h
  | formValue node => exact Eq.trans h htext.symm

end Reaction

/-- Running a reaction shows the value in its part of the document and
does nothing else. What a template renders to is known of accessors that
are functions of what they read. -/
theorem reaches_run {w w' : World} {r : Reaction} {v : Value} {lo : NodeId} (hw : w.OnlyAsks)
    (hfits : r.Fits w.document lo) (hlo : lo ≤ w.document.nodes.length)
    (h : Reaches ⟨w, r.run v⟩ ⟨w', .done ()⟩) :
    ∃ d, w' = { w with document := d } ∧
      ((r.isTemplate = true → w.Pure) → r.Shown d w.graph lo v) ∧
      w.document.Alters (fun n => r.target? = some (n, false))
        (fun n => r.target? = some (n, true)) d := by
  cases r with
  | client name body => exact hfits.elim
  | text node =>
      obtain ⟨rfl, -⟩ := Reaches.result (.modify _) h
      obtain ⟨halters, hstand⟩ := Document.replace_spec (Document.textForest v.text)
        (Nat.lt_of_lt_of_le hfits.1 hlo)
      rw [← Document.setText_eq (Reaction.ne_text_of_element hfits.2)] at halters hstand
      exact ⟨_, rfl, fun _ => hstand.mono hlo,
        halters.mono (fun n _ heq => heq ▸ rfl) fun _ _ h => h⟩
  | markup node =>
      obtain ⟨rfl, -⟩ := Reaches.result (.modify _) h
      obtain ⟨halters, hstand⟩ := Document.replace_spec (Document.markupForest v.text)
        (Nat.lt_of_lt_of_le hfits.1 hlo)
      rw [← Document.showMarkup_eq (Reaction.ne_text_of_element hfits.2)] at halters hstand
      exact ⟨_, rfl, fun _ => hstand.mono hlo,
        halters.mono (fun n _ heq => heq ▸ rfl) fun _ _ h => h⟩
  | formValue node =>
      obtain ⟨rfl, -⟩ := Reaches.result (.modify _) h
      refine ⟨w.document.setValue node v.text, rfl, fun _ => ?_, .modify _ (fun _ => rfl)
        (fun _ => rfl) (fun _ _ h => h) (.inr fun _ => ⟨rfl, rfl⟩) (.inl rfl)⟩
      rw [Reaction.Shown, Document.setValue,
        Document.node_modify_self (Nat.lt_of_lt_of_le hfits hlo)]
  | template node parsed data =>
      obtain ⟨content, u, hrender, hset⟩ := Reaches.of_bind h
      obtain ⟨hsame, hrenders⟩ := World.reaches_renderSegments hw hrender
      rw [hsame] at hset
      obtain ⟨rfl, -⟩ := Reaches.result (.modify _) hset
      have htext := Document.setText_of_text hfits.2 content
      refine ⟨w.document.modify node fun n => { n with text := content }, ?_, fun hpure => ?_,
        .modify _ (fun _ => rfl) (fun _ => rfl) (fun _ _ h => h) (.inl rfl) (.inr fun _ => rfl)⟩
      · rw [← htext]
        rfl
      · rw [Reaction.Shown, Document.node_modify_self (Nat.lt_of_lt_of_le hfits.1 hlo)]
        exact hrenders (hpure rfl)

end DataBinding
