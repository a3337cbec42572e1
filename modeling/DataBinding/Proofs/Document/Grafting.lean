import DataBinding.Proofs.Document.Evolving
import Mathlib.Logic.Relation

/-!
# A document is a forest

What an operation does to the tree is a move: some nodes leave the places
where they were and become, in order, the last children of a target, or
nobody's children (`Regrafts`). A document is a forest when its two
records of the tree say the same (`Paired`) and no node is below itself.
A move keeps the records together whatever is moved, and the document a
forest if nothing is moved to itself or below itself (`Fits`); new nodes
always fit, and an append keeps a forest only if what it moves fits
(`IsForest.append_iff`).
-/

namespace DataBinding.Document

variable {d d' d'' : Document} {moved others : List NodeId} {target : Option NodeId}
  {n m p c root : NodeId}

/-! ## Forests -/

/-- A node is reached from another one by going down. -/
def Below (d : Document) : NodeId → NodeId → Prop :=
  Relation.TransGen fun p c => c ∈ (d.node p).children

/-- The parent of a node has it among its children. -/
structure Paired (d : Document) : Prop extends Linked d where
  child : ∀ {p c}, (d.node c).parent = some p → c ∈ (d.node p).children

/-- Parents and children agree, and no node is below itself. -/
structure IsForest (d : Document) : Prop extends Paired d where
  acyclic : ∀ n, ¬ d.Below n n

/-- None of the nodes is another one or above it. -/
def Fits (d : Document) (moved : List NodeId) (p : NodeId) : Prop :=
  ∀ n ∈ moved, n ≠ p ∧ ¬ d.Below n p

theorem IsForest.empty : IsForest .empty where
  toLinked := .empty
  child := nofun
  acyclic _ h := by
    obtain ⟨_, _, hc⟩ := Relation.TransGen.tail'_iff.1 h
    exact List.not_mem_nil hc

namespace Paired

theorem single (h : d.Paired) (hp : c ∈ (d.node p).children) (hn : c ∈ (d.node n).children) :
    p = n :=
  Option.some.inj ((h.parent hp).symm.trans (h.parent hn))

theorem not_mem (h : d.Paired) (hc : (d.node c).parent ≠ some p) : c ∉ (d.node p).children :=
  fun hmem => hc (h.parent hmem)

/-- A fragment is nobody's child. -/
theorem fragment (h : d.Paired) (hn : (d.node n).kind = .fragment) :
    (d.node n).parent = none ∧ ∀ p, n ∉ (d.node p).children := by
  have hout : ∀ p, n ∉ (d.node p).children := fun p hmem => h.kind hmem hn
  refine ⟨Option.eq_none_iff_forall_ne_some.2 fun p hp => hout p (h.child hp), hout⟩

/-- A node occurs once among the children of its parent, and nowhere else. -/
theorem count (h : d.Paired) (p n : NodeId) :
    (d.node p).children.count n = if (d.node n).parent = some p then 1 else 0 := by
  rw [(h.nodup p).count]
  by_cases hn : (d.node n).parent = some p
  · rw [if_pos hn, if_pos (h.child hn)]
  · rw [if_neg hn, if_neg (h.not_mem hn)]

/-- Nothing is above a fragment. -/
theorem fits_fragment (h : d.Paired) (hp : (d.node p).kind = .fragment)
    (hmoved : ∀ n ∈ moved, (d.node n).kind ≠ .fragment) : d.Fits moved p := by
  refine fun n hn => ⟨fun heq => hmoved n hn (heq ▸ hp), fun hbelow => ?_⟩
  obtain ⟨q, _, hc⟩ := Relation.TransGen.tail'_iff.1 hbelow
  exact h.kind hc hp

/-- Without one node, the children of any are what they were or one less. -/
theorem filter_eq_erase (h : d.Paired) (p n : NodeId) :
    (d.node p).children.filter (· ∉ [n]) = (d.node p).children.erase n := by
  rw [(h.nodup p).erase_eq_filter]
  exact List.filter_congr fun m _ => by
    simp [bne, Bool.beq_eq_decide_eq]

end Paired

/-! ## Moves -/

/-- Some nodes leave their places and become the last children of a
target, or nobody's children. -/
structure Regrafts (moved : List NodeId) (target : Option NodeId) (d d' : Document) : Prop where
  length : d.nodes.length ≤ d'.nodes.length
  kind : ∀ n < d.nodes.length, (d'.node n).kind = (d.node n).kind
  children : ∀ p, (d'.node p).children =
    (d.node p).children.filter (· ∉ moved) ++ if target = some p then moved else []
  parent : ∀ n, (d'.node n).parent = if n ∈ moved then target else (d.node n).parent

namespace Regrafts

/-- Nothing is moved. -/
theorem of_same (hlength : d.nodes.length ≤ d'.nodes.length)
    (hkind : ∀ n < d.nodes.length, (d'.node n).kind = (d.node n).kind)
    (hchildren : ∀ p, (d'.node p).children = (d.node p).children)
    (hparent : ∀ n, (d'.node n).parent = (d.node n).parent) : Regrafts [] target d d' where
  length := hlength
  kind := hkind
  children p := by
    rw [hchildren, ite_self, List.append_nil]
    exact (List.filter_eq_self.2 fun _ _ => by simp).symm
  parent n := by
    rw [hparent, if_neg List.not_mem_nil]

/-- What was taken away is put somewhere. -/
theorem trans (h : Regrafts moved none d d') (h' : Regrafts moved target d' d'') :
    Regrafts moved target d d'' where
  length := Nat.le_trans h.length h'.length
  kind n hn := (h'.kind n (Nat.lt_of_lt_of_le hn h.length)).trans (h.kind n hn)
  children p := by
    rw [h'.children, h.children]
    simp
  parent n := by
    rw [h'.parent, h.parent]
    split <;> rfl

/-- First some nodes are moved, and then others. -/
theorem append (h : Regrafts moved target d d') (h' : Regrafts others target d' d'')
    (hdisjoint : ∀ n ∈ moved, n ∉ others) : Regrafts (moved ++ others) target d d'' where
  length := Nat.le_trans h.length h'.length
  kind n hn := (h'.kind n (Nat.lt_of_lt_of_le hn h.length)).trans (h.kind n hn)
  children p := by
    have hkept : moved.filter (· ∉ others) = moved :=
      List.filter_eq_self.2 fun n hn => by simpa using hdisjoint n hn
    have hleft : ((d.node p).children.filter (· ∉ moved)).filter (· ∉ others) =
        (d.node p).children.filter (· ∉ moved ++ others) := by
      rw [List.filter_filter]
      exact List.filter_congr fun n _ => by simp [Bool.and_comm]
    rw [h'.children, h.children, List.filter_append, hleft]
    split
    · rw [hkept, List.append_assoc]
    · simp
  parent n := by
    rw [h'.parent, h.parent]
    by_cases hn : n ∈ others
    · rw [if_pos hn, if_pos (List.mem_append_right _ hn)]
    · simp [hn]

theorem mem_children (h : Regrafts moved target d d') :
    c ∈ (d'.node p).children ↔
      c ∈ (d.node p).children ∧ c ∉ moved ∨ target = some p ∧ c ∈ moved := by
  rw [h.children, List.mem_append, List.mem_filter, decide_eq_true_eq]
  refine or_congr_right ?_
  split
  · rename_i htarget
    exact (and_iff_right htarget).symm
  · rename_i htarget
    exact ⟨fun hc => absurd hc List.not_mem_nil, fun hc => absurd hc.1 htarget⟩

/-- The records of the tree stay together. -/
theorem paired (hd : Regrafts moved target d d') (h : d.Paired) (hnodup : moved.Nodup)
    (hmoved : ∀ n ∈ moved, (d.node n).kind ≠ .fragment) : d'.Paired where
  nodup p := by
    rw [hd.children, List.nodup_append]
    refine ⟨(h.nodup p).filter _, ?_, fun n hn m hm heq => ?_⟩
    · split
      · exact hnodup
      · exact List.nodup_nil
    · subst heq
      split at hm
      · exact of_decide_eq_true (List.mem_filter.1 hn).2 hm
      · exact List.not_mem_nil hm
  kind {p c} hc := by
    have hkind : (d.node c).kind ≠ .fragment := by
      rcases hd.mem_children.1 hc with hold | hnew
      · exact h.kind hold.1
      · exact hmoved c hnew.2
    rwa [hd.kind c (lt_of_no_fragment hkind)]
  parent {p c} hc := by
    rw [hd.parent]
    rcases hd.mem_children.1 hc with hold | hnew
    · rw [if_neg hold.2, h.parent hold.1]
    · rw [if_pos hnew.2, hnew.1]
  child {p c} hc := by
    rw [hd.parent] at hc
    rw [hd.mem_children]
    split at hc
    · rename_i hmem
      exact .inr ⟨hc, hmem⟩
    · rename_i hmem
      exact .inl ⟨h.child hc, hmem⟩

/-- A way down is an old one, or comes to the target and goes on from what
was moved there. -/
theorem below (hd : Regrafts moved target d d') (h : d'.Below n m) : d.Below n m ∨
    ∃ p, target = some p ∧ (n = p ∨ d.Below n p) ∧ ∃ c ∈ moved, c = m ∨ d.Below c m := by
  induction h with
  | single hc =>
      rcases hd.mem_children.1 hc with hold | ⟨htarget, hmem⟩
      · exact .inl (.single hold.1)
      · exact .inr ⟨_, htarget, .inl rfl, _, hmem, .inl rfl⟩
  | tail _ hc ih =>
      rcases hd.mem_children.1 hc with hold | ⟨htarget, hmem⟩
      · rcases ih with hbelow | ⟨p, htarget, hn, c, hmem, hc⟩
        · exact .inl (hbelow.tail hold.1)
        · refine .inr ⟨p, htarget, hn, c, hmem, .inr ?_⟩
          rcases hc with rfl | hc
          · exact .single hold.1
          · exact hc.tail hold.1
      · refine .inr ⟨_, htarget, ?_, _, hmem, .inl rfl⟩
        rcases ih with hbelow | ⟨p, htarget', hn, -⟩
        · exact .inr hbelow
        · obtain rfl := Option.some.inj (htarget.symm.trans htarget')
          exact hn

/-- A forest stays one if what is moved fits. -/
theorem isForest (hd : Regrafts moved target d d') (h : d.IsForest) (hnodup : moved.Nodup)
    (hmoved : ∀ n ∈ moved, (d.node n).kind ≠ .fragment)
    (hfits : ∀ p, target = some p → d.Fits moved p) : d'.IsForest where
  toPaired := hd.paired h.toPaired hnodup hmoved
  acyclic n hn := by
    rcases hd.below hn with hold | ⟨p, htarget, hp, c, hmem, hc⟩
    · exact h.acyclic n hold
    · obtain ⟨hne, hbelow⟩ := hfits p htarget c hmem
      rcases hc with rfl | hc <;> rcases hp with rfl | hp
      · exact hne rfl
      · exact hbelow hp
      · exact hbelow hc
      · exact hbelow (hc.trans hp)

/-- Nothing is moved. -/
theorem isForest_of_same (hd : Regrafts [] none d d') (h : d.IsForest) : d'.IsForest :=
  hd.isForest h List.nodup_nil (fun _ hn => absurd hn List.not_mem_nil) nofun

/-! ### The operations -/

/-- A change that is not about the tree. -/
theorem modify (d : Document) (id : NodeId) {change : Node → Node}
    (hkind : ∀ n, (change n).kind = n.kind) (hparent : ∀ n, (change n).parent = n.parent)
    (hchildren : ∀ n, (change n).children = n.children) :
    Regrafts [] none d (d.modify id change) :=
  of_same (Nat.le_of_eq (length_modify ..).symm)
    (fun n _ => field_modify d id n Node.kind hkind)
    (fun n => field_modify d id n Node.children hchildren)
    fun n => field_modify d id n Node.parent hparent

theorem listen (d : Document) (n : NodeId) (event : String) (handler : Handler) :
    Regrafts [] none d (d.listen n event handler) := by
  have hmodified : Regrafts [] none d (d.modify n fun node => { node with
      listeners := node.listeners ++ [⟨d.nextListener, event, handler⟩] }) :=
    modify d n (fun _ => rfl) (fun _ => rfl) fun _ => rfl
  exact ⟨hmodified.length, hmodified.kind, hmodified.children, hmodified.parent⟩

theorem add (d : Document) {node : Node} (hparent : node.parent = none)
    (hchildren : node.children = []) : Regrafts [] none d (d.add node) := by
  refine of_same (by rw [length_add]; exact Nat.le_succ _)
    (fun n hn => by rw [node_add_of_lt d node hn]) (fun p => ?_) fun n => ?_
  all_goals
    rw [node_add_ite]
    split
    · rename_i hnew
      rw [node_of_le (Nat.le_of_eq hnew.symm)]
      assumption
    · rfl

theorem detach (h : d.Paired) (hc : c ∈ (d.node p).children) :
    Regrafts [c] none d (d.detach p c) := by
  let fewer := d.modify p fun n => { n with children := n.children.erase c }
  have hreshapes := Reshapes.detach d p c
  refine ⟨hreshapes.length, hreshapes.kind, fun q => ?_, fun n => ?_⟩
  · have hsame : ((d.detach p c).node q).children = (fewer.node q).children :=
      field_modify fewer c q Node.children fun _ => rfl
    rw [h.filter_eq_erase, hsame, node_modify_ite]
    split
    · simp
    · rename_i hq
      have hout : c ∉ (d.node q).children := fun hmem => hq
        ⟨h.single hmem hc, Nat.lt_of_not_le fun hle => by
          rw [node_of_le hle] at hmem
          exact List.not_mem_nil hmem⟩
      simp [List.erase_of_not_mem hout]
  · have hlt : c < fewer.nodes.length := (length_modify ..).symm ▸ h.lt hc
    by_cases hn : n = c
    · subst hn
      rw [if_pos List.mem_cons_self, Document.detach, node_modify_self hlt]
    · rw [if_neg (by simpa using hn), Document.detach, node_modify_of_ne hn]
      exact field_modify d p n Node.parent fun _ => rfl

/-- A node that is nobody's child is put under another one. -/
theorem attach (hp : p < d.nodes.length) (hc : c < d.nodes.length)
    (hout : ∀ q, c ∉ (d.node q).children) : Regrafts [c] (some p) d
      ((d.modify c fun n => { n with parent := some p }).modify p
        fun n => { n with children := n.children ++ [c] }) := by
  let moved := d.modify c fun n => { n with parent := some p }
  have hreshapes := Reshapes.attach d p c
  refine ⟨hreshapes.length, hreshapes.kind, fun q => ?_, fun n => ?_⟩
  · have hkept : (d.node q).children.filter (· ∉ [c]) = (d.node q).children :=
      List.filter_eq_self.2 fun m hm => by
        simpa using fun (heq : m = c) => hout q (heq ▸ hm)
    have hsame : (moved.node q).children = (d.node q).children :=
      field_modify d c q Node.children fun _ => rfl
    rw [hkept]
    by_cases hq : q = p
    · subst hq
      rw [node_modify_self ((length_modify ..).symm ▸ hp), if_pos rfl]
      exact congrArg (· ++ [c]) hsame
    · rw [node_modify_of_ne hq, if_neg fun heq => hq (Option.some.inj heq).symm, List.append_nil]
      exact hsame
  · have hsame : ((moved.modify p fun n => { n with children := n.children ++ [c] }).node n).parent =
        (moved.node n).parent := field_modify moved p n Node.parent fun _ => rfl
    rw [hsame]
    by_cases hn : n = c
    · subst hn
      rw [if_pos List.mem_cons_self, node_modify_self hc]
    · rw [if_neg (by simpa using hn), node_modify_of_ne hn]

theorem place (h : d.Paired) (hp : p < d.nodes.length) (hc : (d.node c).kind ≠ .fragment) :
    Regrafts [c] (some p) d (d.place p c) := by
  have hlt := lt_of_no_fragment hc
  unfold Document.place
  split
  · rename_i former hformer
    have hmem := h.child hformer
    have hdetach := detach h hmem
    rw [Document.remove, if_pos hmem]
    exact hdetach.trans (attach (Nat.lt_of_lt_of_le hp hdetach.length)
      (Nat.lt_of_lt_of_le hlt hdetach.length) (h.toLinked.detach hmem).2)
  · rename_i hfree
    exact attach hp hlt fun q => h.not_mem (by simp [hfree])

theorem takeChildren (h : d.Paired) (n : NodeId) :
    Regrafts (d.node n).children none d (d.takeChildren n) := by
  let emptied := d.modify n fun n => { n with children := [] }
  obtain ⟨-, hkept, hfreed⟩ :=
    @releaseAll (fun _ => False) (fun _ => False) (d.node n).children emptied
  have hreshapes := Reshapes.takeChildren d n
  refine ⟨hreshapes.length, hreshapes.kind, fun p => ?_, fun c => ?_⟩
  · have hsame : ((d.takeChildren n).node p).children = (emptied.node p).children := hkept p
    rw [hsame, node_modify_ite, if_neg (Option.some_ne_none p).symm, List.append_nil]
    split
    · rename_i hp
      rw [hp.1]
      exact (List.filter_eq_nil_iff.2 fun m hm => by simpa using hm).symm
    · rename_i hp
      refine (List.filter_eq_self.2 fun m hm => ?_).symm
      refine decide_eq_true fun hm' => hp ⟨h.single hm hm', Nat.lt_of_not_le fun hle => ?_⟩
      rw [node_of_le hle] at hm
      exact List.not_mem_nil hm
  · split
    · rename_i hc
      exact hfreed c (.inl hc)
    · rename_i hc
      exact (parent_releaseAll hc emptied).trans (field_modify d n c Node.parent fun _ => rfl)

/-- Several nodes, one after the other. -/
theorem placeAll : ∀ {moved : List NodeId} {d : Document}, d.Paired → p < d.nodes.length →
    moved.Nodup → (∀ n ∈ moved, (d.node n).kind ≠ .fragment) →
    Regrafts moved (some p) d (moved.foldl (·.place p ·) d)
  | [], d, _, _, _, _ => of_same (Nat.le_refl _) (fun _ _ => rfl) (fun _ => rfl) fun _ => rfl
  | c :: moved, d, h, hp, hnodup, hmoved => by
      obtain ⟨hout, hrest⟩ := List.nodup_cons.1 hnodup
      have hc := hmoved c List.mem_cons_self
      have hfirst : Regrafts [c] (some p) d (d.place p c) := place h hp hc
      have hsingle : ∀ n ∈ [c], (d.node n).kind ≠ .fragment := fun n hn =>
        List.mem_singleton.1 hn ▸ hc
      have hothers : Regrafts moved (some p) (d.place p c)
          (moved.foldl (·.place p ·) (d.place p c)) := by
        refine placeAll (hfirst.paired h (by simp) hsingle)
          (Nat.lt_of_lt_of_le hp hfirst.length) hrest fun n hn => ?_
        have hn' := hmoved n (List.mem_cons_of_mem _ hn)
        rwa [hfirst.kind n (lt_of_no_fragment hn')]
      exact hfirst.append hothers fun n hn => List.mem_singleton.1 hn ▸ hout

end Regrafts

/-! ## Appending -/

/-- The nodes that are moved when a node is appended. -/
def carried (d : Document) (c : NodeId) : List NodeId :=
  if (d.node c).kind = .fragment then (d.node c).children else [c]

theorem carried_fragment (h : (d.node c).kind = .fragment) : d.carried c = (d.node c).children :=
  if_pos h

theorem carried_of_ne (h : (d.node c).kind ≠ .fragment) : d.carried c = [c] :=
  if_neg h

namespace Paired

theorem nodup_carried (h : d.Paired) (c : NodeId) : (d.carried c).Nodup := by
  unfold carried
  split
  · exact h.nodup c
  · exact List.nodup_cons.2 ⟨List.not_mem_nil, List.nodup_nil⟩

theorem kind_carried (h : d.Paired) : ∀ n ∈ d.carried c, (d.node n).kind ≠ .fragment := by
  intro n hn
  unfold carried at hn
  split at hn
  · exact h.kind hn
  · rename_i hkind
    exact List.mem_singleton.1 hn ▸ hkind

/-- What is appended leaves its place and comes last among the children of
the other node. -/
theorem append (h : d.Paired) (hp : p < d.nodes.length) (c : NodeId) :
    Regrafts (d.carried c) (some p) d (d.append p c) := by
  unfold Document.append
  split
  · rename_i hkind
    have htaken := Regrafts.takeChildren h c
    rw [carried_fragment hkind]
    refine htaken.trans (.placeAll (htaken.paired h (h.nodup c) fun n hn => h.kind hn)
      (Nat.lt_of_lt_of_le hp htaken.length) (h.nodup c) fun n hn => ?_)
    rw [htaken.kind n (h.lt hn)]
    exact h.kind hn
  · rename_i hkind
    rw [carried_of_ne hkind]
    exact .place h hp hkind

/-- The records of the tree stay together, whatever is appended. -/
theorem paired_append (h : d.Paired) (hp : p < d.nodes.length) (c : NodeId) :
    (d.append p c).Paired :=
  (h.append hp c).paired h (h.nodup_carried c) h.kind_carried

end Paired

namespace IsForest

theorem append (h : d.IsForest) (hp : p < d.nodes.length) (hfits : d.Fits (d.carried c) p) :
    (d.append p c).IsForest :=
  (h.toPaired.append hp c).isForest h (h.nodup_carried c) h.kind_carried
    fun _ htarget => Option.some.inj htarget ▸ hfits

/-- What does not fit makes a node its own descendant. -/
theorem append_iff (h : d.IsForest) (hp : p < d.nodes.length) :
    (d.append p c).IsForest ↔ d.Fits (d.carried c) p := by
  have hmoves := h.toPaired.append hp c
  refine ⟨fun happended n hn => ?_, h.append hp⟩
  -- nothing on a way down from a node that is moved is moved itself
  have hstill : ∀ {m}, d.Below n m → m ∉ d.carried c := by
    intro m hbelow hm
    unfold carried at hn hm
    split at hn
    · rename_i hkind
      rw [if_pos hkind] at hm
      obtain ⟨q, hq, hmem⟩ := Relation.TransGen.tail'_iff.1 hbelow
      obtain rfl := h.single hmem hm
      rcases Relation.reflTransGen_iff_eq_or_transGen.1 hq with rfl | hq
      · exact h.kind hn hkind
      · obtain ⟨_, _, hmem'⟩ := Relation.TransGen.tail'_iff.1 hq
        exact h.kind hmem' hkind
    · rename_i hkind
      rw [if_neg hkind] at hm
      rw [List.mem_singleton.1 hn, List.mem_singleton.1 hm] at hbelow
      exact h.acyclic c hbelow
  have hkept : ∀ {m}, d.Below n m → (d.append p c).Below n m := by
    intro m hbelow
    induction hbelow with
    | single hc => exact .single (hmoves.mem_children.2 (.inl ⟨hc, hstill (.single hc)⟩))
    | tail hq hc ih =>
        exact ih.tail (hmoves.mem_children.2 (.inl ⟨hc, hstill (Relation.TransGen.tail hq hc)⟩))
  have hchild : n ∈ ((d.append p c).node p).children := hmoves.mem_children.2 (.inr ⟨rfl, hn⟩)
  exact ⟨fun heq => happended.acyclic p (.single (heq ▸ hchild)),
    fun hbelow => happended.acyclic n ((hkept hbelow).tail hchild)⟩

/-! ### The other operations -/

theorem add (h : d.IsForest) {node : Node} (hparent : node.parent = none)
    (hchildren : node.children = []) : (d.add node).IsForest :=
  (Regrafts.add d hparent hchildren).isForest_of_same h

theorem listen (h : d.IsForest) (n : NodeId) (event : String) (handler : Handler) :
    (d.listen n event handler).IsForest :=
  (Regrafts.listen d n event handler).isForest_of_same h

theorem setValue (h : d.IsForest) (n : NodeId) (content : String) :
    (d.setValue n content).IsForest :=
  Regrafts.isForest_of_same (.modify d n (fun _ => rfl) (fun _ => rfl) fun _ => rfl) h

theorem remove (h : d.IsForest) (p c : NodeId) : (d.remove p c).1.IsForest := by
  unfold Document.remove
  split
  · rename_i hc
    refine (Regrafts.detach h.toPaired hc).isForest h ?_ (fun n hn => ?_) nofun
    · exact List.nodup_cons.2 ⟨List.not_mem_nil, List.nodup_nil⟩
    · exact List.mem_singleton.1 hn ▸ h.kind hc
  · exact h

theorem takeChildren (h : d.IsForest) (n : NodeId) : (d.takeChildren n).IsForest :=
  (Regrafts.takeChildren h.toPaired n).isForest h (h.nodup n) (fun _ => h.kind) nofun

/-- What is appended to a fragment fits. -/
theorem appendAll (hp : p < d.nodes.length) (hkind : (d.node p).kind = .fragment) :
    ∀ {nodes : List NodeId}, d.IsForest → (nodes.foldl (·.append p ·) d).IsForest := by
  intro nodes h
  induction nodes generalizing d with
  | nil => exact h
  | cons c nodes ih =>
      have hmoves := h.toPaired.append hp c
      exact ih (Nat.lt_of_lt_of_le hp hmoves.length) ((hmoves.kind p hp).trans hkind)
        (h.append hp (h.fits_fragment hkind h.kind_carried))

theorem gathered (h : d.IsForest) (root : NodeId) : (d.gathered root).IsForest := by
  have hadded : (d.add (.new .fragment)).IsForest := h.add rfl rfl
  have htaken := Regrafts.takeChildren hadded.toPaired root
  have hnext : d.nextNode < (d.add (.new .fragment)).nodes.length := by
    rw [length_add]
    exact Nat.lt_succ_self _
  refine appendAll (Nat.lt_of_lt_of_le hnext htaken.length) ?_ (hadded.takeChildren root)
  rw [htaken.kind _ hnext, node_add_next]
  rfl

/-! ### New nodes -/

/-- A new element or text is put under a node. -/
theorem grow (h : d.IsForest) (hp : p < d.nodes.length) {node : Node}
    (hkind : node.kind ≠ .fragment) (hparent : node.parent = none)
    (hchildren : node.children = []) : ((d.add node).place p d.nextNode).IsForest := by
  have hadded := h.add hparent hchildren
  have hnew : (d.add node).node d.nextNode = node := node_add_next d node
  have hsingle : ∀ n ∈ [d.nextNode], ((d.add node).node n).kind ≠ .fragment := by
    intro n hn
    rwa [List.mem_singleton.1 hn, hnew]
  refine (Regrafts.place hadded.toPaired ?_ (by rwa [hnew])).isForest hadded (by simp) hsingle ?_
  · rw [length_add]
    exact Nat.lt_succ_of_lt hp
  · intro q htarget n hn
    obtain rfl := Option.some.inj htarget
    rw [List.mem_singleton.1 hn]
    refine ⟨Nat.ne_of_gt hp, fun hbelow => ?_⟩
    obtain ⟨_, hc, _⟩ := Relation.TransGen.head'_iff.1 hbelow
    rw [hnew, hchildren] at hc
    exact List.not_mem_nil hc

/-- A text is the tree's business only where it replaces children. -/
theorem setText (h : d.IsForest) (hn : n < d.nodes.length) (content : String) :
    (d.setText n content).IsForest := by
  have htaken := Regrafts.takeChildren h.toPaired n
  unfold Document.setText
  split
  · refine Regrafts.isForest_of_same ?_ h
    exact .modify d n (fun _ => rfl) (fun _ => rfl) fun _ => rfl
  · split
    · exact h.takeChildren n
    · exact (h.takeChildren n).grow (Nat.lt_of_lt_of_le hn htaken.length) (by simp [Node.new])
        rfl rfl

mutual

theorem plant : ∀ (tree : Markup.Tree) {d : Document} {p : NodeId}, d.IsForest →
    p < d.nodes.length → (Document.plant p tree d).IsForest
  | .element _ _ children, d, p, h, hp => by
      refine plantAll children (h.grow hp (by simp [Node.new]) rfl rfl) (Nat.lt_of_lt_of_le ?_
        (Reshapes.place _ p d.nextNode).length)
      rw [length_add]
      exact Nat.lt_succ_self _
  | .text _, _, _, h, hp => h.grow hp (by simp [Node.new]) rfl rfl

theorem plantAll : ∀ (trees : List Markup.Tree) {d : Document} {p : NodeId}, d.IsForest →
    p < d.nodes.length → (Document.plantAll p trees d).IsForest
  | [], _, _, h, _ => h
  | tree :: trees, d, p, h, hp => plantAll trees (plant tree h hp)
      (Nat.lt_of_lt_of_le hp (Reshapes.plant tree p d).length)

end

/-- Trees below a fragment, and nothing else. -/
theorem planted (trees : List Markup.Tree) :
    (Document.plantAll 0 trees (Document.empty.add (.new .fragment))).IsForest :=
  .plantAll trees (IsForest.empty.add rfl rfl) Nat.zero_lt_one

theorem setMarkup (h : d.IsForest) (hn : n < d.nodes.length) {markup : String}
    (hmarkup : d.setMarkup n markup = .ok d') : d'.IsForest := by
  obtain ⟨trees, rfl⟩ := eq_replace_of_setMarkup hmarkup
  exact (h.takeChildren n).plantAll trees
    (Nat.lt_of_lt_of_le hn (Reshapes.takeChildren d n).length)

theorem showMarkup (h : d.IsForest) (hn : n < d.nodes.length) (markup : String) :
    (d.showMarkup n markup).IsForest := by
  unfold Document.showMarkup
  split
  · rename_i hmarkup
    exact h.setMarkup hn hmarkup
  · exact h.setText hn markup

theorem parse (h : d.IsForest) {markup : String} (hmarkup : d.parse markup = .ok d') :
    d'.IsForest := by
  obtain ⟨trees, rfl⟩ := eq_planted_of_parse hmarkup
  refine (h.add rfl rfl).plantAll trees ?_
  rw [length_add]
  exact Nat.lt_succ_self _

end IsForest

end DataBinding.Document
