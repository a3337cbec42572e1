import DataBinding.Proofs.Subscription.Moves

/-!
# Handles that are taken and given up

`Kept a b` relates a state to a later one in which nobody was deprived:
there are at least as many handles left over on every watcher as before,
and `a` more, and likewise `b` more on every evaluation; whoever was being
evaluated still is. A credit that is negative is what the step itself has
used up. With no credit this is what a piece of client code may do.

Every operation on watchers and views keeps the ledger, one lemma for
each, with the credit that it leaves; those on evaluations are in
`Subscription.Evaluations`.
-/

namespace DataBinding.World

variable {w w' w'' : World} {id : WatcherId} {e : EvaluationId}

/-! ## Credits -/

/-- One handle on `id`. -/
def owing (id : Nat) : Nat → Int :=
  fun other => if other = id then 1 else 0

theorem owing_self (id : Nat) : owing id id = 1 := if_pos rfl

theorem owing_of_ne {id other : Nat} (h : other ≠ id) : owing id other = 0 := if_neg h

theorem owing_nonneg (id other : Nat) : 0 ≤ owing id other := by
  unfold owing
  split <;> decide

/-- A handle that is left over may go. -/
theorem Covered.spare (h : Covered w) (hid : w.pinned id < w.surplus id) (other : WatcherId) :
    w.pinned other ≤ w.surplus other - owing id other := by
  by_cases hother : other = id
  · rw [hother, owing_self]
    omega
  · rw [owing_of_ne hother]
    have := h.covered other
    omega

/-- Nobody is deprived of a handle or of an evaluation. -/
structure Kept (a : WatcherId → Int) (b : EvaluationId → Int) (w w' : World) : Prop where
  surplus : ∀ id, w.surplus id + a id ≤ w'.surplus id
  slot : ∀ id, w.slot = some (.watcher id) ↔ w'.slot = some (.watcher id)
  length : w.evaluations.length ≤ w'.evaluations.length
  parent : ∀ {e}, e < w.evaluations.length →
    (w'.evaluation e).parent = (w.evaluation e).parent
  alive : ∀ {e id}, (w.evaluation e).parent = .watcher id →
    (w'.evaluation e).alive = (w.evaluation e).alive
  evaluationSurplus : ∀ e, w.evaluationSurplus e + b e ≤ w'.evaluationSurplus e

/-- No credit. -/
def noCredit : Nat → Int := fun _ => 0

namespace Kept

variable {a a' b b' : Nat → Int}

theorem trans (h : Kept a b w w') (h' : Kept a' b' w' w'') :
    Kept (fun i => a i + a' i) (fun i => b i + b' i) w w'' where
  surplus id := by
    have := h.surplus id
    have := h'.surplus id
    omega
  slot id := (h.slot id).trans (h'.slot id)
  length := Nat.le_trans h.length h'.length
  parent he := (h'.parent (Nat.lt_of_lt_of_le he h.length)).trans (h.parent he)
  alive {e id} hparent := by
    have he : e < w.evaluations.length := by
      refine Nat.lt_of_not_le fun hle => ?_
      rw [evaluation_eq_default hle] at hparent
      cases hparent
    exact (h'.alive ((h.parent he).trans hparent)).trans (h.alive hparent)
  evaluationSurplus e := by
    have := h.evaluationSurplus e
    have := h'.evaluationSurplus e
    omega

/-- A credit need not be used. -/
theorem weaken (h : Kept a b w w') (ha : ∀ i, a' i ≤ a i) (hb : ∀ i, b' i ≤ b i) :
    Kept a' b' w w' where
  surplus id := by
    have := h.surplus id
    have := ha id
    omega
  slot := h.slot
  length := h.length
  parent := h.parent
  alive := h.alive
  evaluationSurplus e := by
    have := h.evaluationSurplus e
    have := hb e
    omega

/-- What is done about watchers alone. -/
theorem watchers (hsurplus : ∀ id, w.surplus id + a id ≤ w'.surplus id)
    (hslot : w'.slot = w.slot) (hevaluations : w'.evaluations = w.evaluations)
    (hnames : w'.names.evaluations = w.names.evaluations) : Kept a noCredit w w' where
  surplus := hsurplus
  slot id := by rw [hslot]
  length := Nat.le_of_eq (by rw [hevaluations])
  parent _ := by rw [evaluation, evaluation, hevaluations]
  alive _ := by rw [evaluation, evaluation, hevaluations]
  evaluationSurplus e := by
    simp only [World.evaluationSurplus, evaluation, evaluationNamings, hevaluations, hnames,
      noCredit]
    omega

/-- What is done about neither watchers nor evaluations. -/
theorem of_eq (hsurplus : ∀ id, w'.surplus id = w.surplus id)
    (hslot : w'.slot = w.slot) (hevaluations : w'.evaluations = w.evaluations)
    (hnames : w'.names.evaluations = w.names.evaluations) : Kept noCredit noCredit w w' :=
  .watchers (fun id => by simp [hsurplus, noCredit]) hslot hevaluations hnames

theorem refl (w : World) : Kept noCredit noCredit w w :=
  .of_eq (fun _ => rfl) rfl rfl rfl

/-- What changes no credit may follow. -/
theorem andThen (h : Kept a b w w') (h' : Kept noCredit noCredit w' w'') : Kept a b w w'' :=
  (h.trans h').weaken (fun _ => by simp [noCredit]) (fun _ => by simp [noCredit])

/-- A credit that is used up at once. -/
theorem settle (h : Kept a b w w') (h' : Kept a' b' w' w'') (ha : ∀ i, 0 ≤ a i + a' i)
    (hb : ∀ i, 0 ≤ b i + b' i) : Kept noCredit noCredit w w'' :=
  (h.trans h').weaken ha hb

end Kept

/-- What a step does to the ledger, and what it leaves. -/
structure Moves (a : WatcherId → Int) (b : EvaluationId → Int) (w w' : World) : Prop where
  ledger : Ledger w'
  kept : Kept a b w w'

/-! ## Frame -/

theorem Entitled.of_eq (h : Entitled w) (hevaluations : w'.evaluations = w.evaluations)
    (hnames : w'.names.evaluations = w.names.evaluations) : Entitled w' where
  entitled {e} he := by
    rw [evaluationNamings, hnames] at he
    rw [evaluation, hevaluations]
    exact h.entitled he
  evaluationCovered e := by
    rw [evaluationSurplus, evaluation, evaluationNamings, hevaluations, hnames]
    exact h.evaluationCovered e
  evaluationKeys := by
    rw [hnames]
    exact h.evaluationKeys

theorem Covered.of_eq (h : Covered w) (hslot : w'.slot = w.slot)
    (hsurplus : ∀ id, w'.surplus id = w.surplus id)
    (hdead : ∀ {id}, (w'.watcher id).handles = 0 → (w'.watcher id).dependencies = [])
    (hnames : w'.names.watchers = w.names.watchers) : Covered w' where
  covered id := by
    rw [pinned, hslot, hsurplus]
    exact h.covered id
  dead := hdead
  watcherKeys := by
    rw [hnames]
    exact h.watcherKeys

theorem Ledger.frame (h : Ledger w) (hw : SameTracking w w') : Moves noCredit noCredit w w' := by
  have hsurplus : ∀ id, w'.surplus id = w.surplus id := fun id => by
    rw [surplus, surplus, hw.watcher, hw.held]
  refine ⟨⟨h.unmoved (.of_sameTracking hw) (hw.graph ▸ h.owned),
    h.toCovered.of_eq hw.slot hsurplus (fun {id} hid => ?_) hw.watcherNames,
    h.toEntitled.of_eq hw.evaluations hw.evaluationNames⟩,
    .of_eq hsurplus hw.slot hw.evaluations hw.evaluationNames⟩
  rw [hw.watcher] at hid ⊢
  exact h.dead hid

/-- A change of the graph that keeps the places of watchers. -/
theorem Ledger.onGraph (h : Ledger w) {change : Graph → Graph} (howned : (change w.graph).Owned)
    (hentries : ∀ id d,
      ((change w.graph).subscribersOf d).count (.watcher id) = w.entries id d) :
    Moves noCredit noCredit w (w.onGraph change) :=
  ⟨⟨h.unmoved (.onGraph w hentries) howned, h.toCovered.of_eq rfl (fun _ => rfl) h.dead rfl,
    h.toEntitled.of_eq rfl rfl⟩, .of_eq (fun _ => rfl) rfl rfl rfl⟩

/-- A change of a watcher other than of its handles and its dependency
set. -/
theorem Ledger.onWatcher (h : Ledger w) (id : WatcherId) {change : Watcher → Watcher}
    (hdependencies : (change (w.watcher id)).dependencies = (w.watcher id).dependencies)
    (hhandles : (change (w.watcher id)).handles = (w.watcher id).handles) :
    Moves noCredit noCredit w (w.onWatcher id change) := by
  have hsurplus : ∀ other, (w.onWatcher id change).surplus other = w.surplus other :=
    fun other => congrArg (fun n : Nat => (n : Int) - w.held other)
      (field_onWatcher w id other Watcher.handles hhandles)
  refine ⟨⟨h.unmoved (.onWatcher w id hdependencies) h.owned,
    h.toCovered.of_eq rfl hsurplus (fun {other} hother => ?_) rfl, h.toEntitled.of_eq rfl rfl⟩,
    .of_eq hsurplus rfl rfl rfl⟩
  rw [field_onWatcher w id other Watcher.handles hhandles] at hother
  rw [field_onWatcher w id other Watcher.dependencies hdependencies]
  exact h.dead hother

/-- Whether what is read may be tracked in an evaluation: it is one of
client code, or alive. -/
def MayTrack (w : World) : Option EvaluationId → Prop
  | none => True
  | some e => e < w.evaluations.length ∧
      ((∃ client, (w.evaluation e).parent = .client client) ∨ (w.evaluation e).alive = true)

theorem Kept.mayTrack {a b : Nat → Int} (h : Kept a b w w') {tracker : Option EvaluationId}
    (htracker : w.MayTrack tracker) : w'.MayTrack tracker := by
  cases tracker with
  | none => trivial
  | some e =>
      obtain ⟨hlt, hparent⟩ := htracker
      refine ⟨Nat.lt_of_lt_of_le hlt h.length, ?_⟩
      cases hs : (w.evaluation e).parent with
      | client client => exact .inl ⟨client, (h.parent hlt).trans hs⟩
      | watcher id =>
          refine .inr ((h.alive hs).trans (hparent.resolve_left ?_))
          rintro ⟨client, hclient⟩
          rw [hs] at hclient
          cases hclient

/-- What tracking leaves as it is. -/
theorem track_frame (w : World) (e : EvaluationId) (d : DependencyId) :
    (w.track e d).slot = w.slot ∧ (w.track e d).watchers = w.watchers ∧
      (w.track e d).names = w.names ∧ (w.track e d).views = w.views ∧
      (w.track e d).evaluations.length = w.evaluations.length := by
  have hread : (w.onEvaluation e (·.read d)).evaluations.length = w.evaluations.length := by
    simp [World.onEvaluation]
  by_cases hcurrent : d ∈ (w.evaluation e).current
  · rw [track_of_read hcurrent]
    exact ⟨rfl, rfl, rfl, rfl, rfl⟩
  · by_cases hprevious : d ∈ (w.evaluation e).previous
    · rw [track_of_previous hcurrent hprevious]
      exact ⟨rfl, rfl, rfl, rfl, hread⟩
    · rw [track_of_new hcurrent hprevious]
      exact ⟨rfl, rfl, rfl, rfl, hread⟩

theorem field_track {β : Type} (w : World) (e other : EvaluationId) (d : DependencyId)
    (field : Evaluation → β)
    (h : ∀ evaluation : Evaluation, field (evaluation.read d) = field evaluation) :
    field ((w.track e d).evaluation other) = field (w.evaluation other) := by
  have hread : field ((w.onEvaluation e (·.read d)).evaluation other) =
      field (w.evaluation other) := field_onEvaluation w e other field (h (w.evaluation e))
  by_cases hcurrent : d ∈ (w.evaluation e).current
  · rw [track_of_read hcurrent]
  · by_cases hprevious : d ∈ (w.evaluation e).previous
    · rwa [track_of_previous hcurrent hprevious]
    · rw [track_of_new hcurrent hprevious]
      exact hread

theorem Ledger.track (h : Ledger w) {d : Nat} (hd : d < w.graph.subscribers.length)
    (htracks : w.MayTrack (some e)) : Moves noCredit noCredit w (w.track e d) := by
  obtain ⟨hslot, hwatchers, hnames, hviews, hlength⟩ := track_frame w e d
  have halive := fun other => field_track w e other d Evaluation.alive fun _ => rfl
  have hparent := fun other => field_track w e other d Evaluation.parent fun _ => rfl
  have hhandles := fun other => field_track w e other d Evaluation.handles fun _ => rfl
  have hwatcher : ∀ id, (w.track e d).watcher id = w.watcher id := fun id => by
    rw [watcher, watcher, hwatchers]
  have hsurplus : ∀ id, (w.track e d).surplus id = w.surplus id := fun id => by
    rw [surplus, surplus, hwatcher, held, held, namings, namings, viewings, viewings, hnames,
      hviews]
  have hnamings : ∀ other, (w.track e d).evaluationNamings other = w.evaluationNamings other :=
    fun other => by rw [evaluationNamings, evaluationNamings, hnames]
  have hevaluationSurplus : ∀ other,
      (w.track e d).evaluationSurplus other = w.evaluationSurplus other := fun other => by
    rw [evaluationSurplus, evaluationSurplus, hhandles, hnamings]
  refine ⟨⟨h.toTracked.track hd htracks.2, h.toCovered.of_eq hslot hsurplus
      (fun {id} hid => ?_) (by rw [hnames]), ⟨fun {other} hother => ?_, fun other => ?_, ?_⟩⟩,
    fun id => by simp [hsurplus, noCredit], fun id => by rw [hslot], Nat.le_of_eq hlength.symm,
    fun _ => hparent _, fun _ => halive _, fun other => by simp [hevaluationSurplus, noCredit]⟩
  · rw [hwatcher] at hid ⊢
    exact h.dead hid
  · rw [hnamings] at hother
    rw [halive, hparent]
    exact h.entitled hother
  · rw [hevaluationSurplus]
    exact h.evaluationCovered other
  · rw [hnames]
    exact h.evaluationKeys

/-! ## Handles on watchers -/

/-- One more handle on a watcher that has one. -/
theorem Ledger.retain (h : Ledger w) (hid : 0 < (w.watcher id).handles) :
    Moves (owing id) noCredit w (w.retain (.watcher id)) := by
  have hhandles : ∀ other, ((w.retain (.watcher id)).watcher other).handles =
      (w.watcher other).handles + if other = id then 1 else 0 := by
    intro other
    refine (congrArg Watcher.handles (watcher_onWatcher w id other _)).trans ?_
    by_cases hother : other = id
    · rw [if_pos ⟨hother, lt_of_handles hid⟩, if_pos hother, hother]
    · rw [if_neg fun hall => hother hall.1, if_neg hother]
      rfl
  have hsurplus : ∀ other,
      (w.retain (.watcher id)).surplus other = w.surplus other + owing id other := by
    intro other
    have hheld : (w.retain (.watcher id)).held other = w.held other := rfl
    rw [surplus, surplus, hhandles, hheld, owing]
    split
    · simp only [Int.natCast_add, Int.cast_ofNat_Int]
      omega
    · simp only [Int.natCast_add, Int.cast_ofNat_Int]
      omega
  have hmoved : Unmoved w (w.retain (.watcher id)) := .onWatcher w id rfl
  refine ⟨⟨h.unmoved hmoved h.owned, ⟨fun other => ?_, fun {other} hother => ?_, h.watcherKeys⟩,
    h.toEntitled.of_eq rfl rfl⟩, .watchers (fun other => Int.le_of_eq (hsurplus other).symm) rfl rfl rfl⟩
  · have := owing_nonneg id other
    have := h.covered other
    rw [hsurplus]
    show w.pinned other ≤ _
    omega
  · rw [hhandles] at hother
    rw [hmoved.dependencies]
    exact h.dead (by omega)

/-- Unsubscribing makes up for a watcher that has died with a dependency
set. -/
theorem Tracked.unsubscribed (h : Tracked w) (hcovered : ∀ other, w.pinned other ≤ w.surplus other)
    (hdead : ∀ {other}, other ≠ id → (w.watcher other).handles = 0 →
      (w.watcher other).dependencies = [])
    (hkeys : w.names.watchers.keys.Nodup) (hentitled : Entitled w) :
    Moves noCredit noCredit w (w.unsubscribe id) := by
  have hhandles : ∀ other, ((w.unsubscribe id).watcher other).handles =
      (w.watcher other).handles := fun other => by
    rw [watcher_unsubscribe]
    split
    · rename_i hother
      rw [hother]
    · rfl
  have hsurplus : ∀ other, (w.unsubscribe id).surplus other = w.surplus other := fun other =>
    congrArg (fun n : Nat => (n : Int) - w.held other) (hhandles other)
  refine ⟨⟨h.unsubscribe id, ⟨fun other => ?_, fun {other} hother => ?_, hkeys⟩,
    hentitled.of_eq rfl rfl⟩, .of_eq hsurplus rfl rfl rfl⟩
  · rw [hsurplus]
    exact hcovered other
  · rw [hhandles] at hother
    rw [watcher_unsubscribe]
    split
    · rfl
    · rename_i hne
      exact hdead hne hother

theorem Ledger.unsubscribe (h : Ledger w) (id : WatcherId) :
    Moves noCredit noCredit w (w.unsubscribe id) :=
  h.toTracked.unsubscribed h.covered (fun _ => h.dead) h.watcherKeys h.toEntitled

theorem Ledger.dispose (h : Ledger w) (id : WatcherId) :
    Moves noCredit noCredit w (w.dispose id) := by
  have hstep := h.unsubscribe id
  have hlast : Moves noCredit noCredit (w.unsubscribe id) (w.dispose id) :=
    hstep.ledger.onWatcher id rfl rfl
  exact ⟨hlast.ledger, hstep.kept.andThen hlast.kept⟩

/-- A handle that is given up by whoever does not need it. The last one
takes the watcher out of every list. -/
theorem Ledger.release (h : Ledger w) (hid : w.pinned id < w.surplus id) :
    Moves (fun other => - owing id other) noCredit w (w.release (.watcher id)) := by
  have hpos := handles_pos hid
  have hsurplus : ∀ other, (w.lessen id).surplus other = w.surplus other - owing id other := by
    intro other
    have hheld : (w.lessen id).held other = w.held other := rfl
    rw [surplus, surplus, handles_lessen, hheld, owing]
    split
    · rename_i hother
      rw [hother]
      omega
    · simp
  have hkept : Kept (fun other => - owing id other) noCredit w (w.lessen id) :=
    .watchers (fun other => by rw [hsurplus]; omega) rfl rfl rfl
  have hcovered : ∀ other, (w.lessen id).pinned other ≤ (w.lessen id).surplus other := by
    intro other
    rw [hsurplus]
    exact h.toCovered.spare hid other
  have hentitled : Entitled (w.lessen id) := h.toEntitled.of_eq rfl rfl
  have htracked : Tracked (w.lessen id) := h.unmoved (.onWatcher w id rfl) h.owned
  have hdead : ∀ {other}, other ≠ id → ((w.lessen id).watcher other).handles = 0 →
      ((w.lessen id).watcher other).dependencies = [] := by
    intro other hother hnone
    rw [handles_lessen, if_neg hother] at hnone
    rw [watcher_lessen]
    exact h.dead hnone
  rw [release_watcher]
  split
  · have hlast := htracked.unsubscribed hcovered hdead h.watcherKeys hentitled
    exact ⟨hlast.ledger, hkept.andThen hlast.kept⟩
  · rename_i hmore
    refine ⟨⟨htracked, ⟨hcovered, fun {other} hnone => ?_, h.watcherKeys⟩, hentitled⟩, hkept⟩
    by_cases hother : other = id
    · rw [hother, handles_lessen, if_pos rfl] at hnone
      omega
    · exact hdead hother hnone

/-- A new watcher comes with a handle for whoever makes it. -/
theorem Ledger.addWatcher (h : Ledger w) (data : ObjectId) (path : Path) (reaction : Reaction) :
    Moves (owing w.nextWatcher) noCredit w (w.addWatcher data path reaction) := by
  have hnone : w.watcher w.nextWatcher = _ := watcher_eq_default (Nat.le_refl _)
  have hsurplus : ∀ other, (w.addWatcher data path reaction).surplus other =
      w.surplus other + owing w.nextWatcher other := by
    intro other
    have hheld : (w.addWatcher data path reaction).held other = w.held other := rfl
    rw [surplus, surplus, watcher_addWatcher, hheld]
    by_cases hother : other = w.nextWatcher
    · rw [if_pos hother, hother, owing_self, hnone]
      simp
      omega
    · rw [if_neg hother, owing_of_ne hother]
      simp
  refine ⟨⟨h.unmoved (.addWatcher h.toCovered _ _ _) h.owned,
    ⟨fun other => ?_, fun {other} hother => ?_, h.watcherKeys⟩, h.toEntitled.of_eq rfl rfl⟩,
    .watchers (fun other => Int.le_of_eq (hsurplus other).symm) rfl rfl rfl⟩
  · have := owing_nonneg w.nextWatcher other
    have := h.covered other
    rw [hsurplus]
    show w.pinned other ≤ _
    omega
  · rw [watcher_addWatcher] at hother ⊢
    split at hother
    · simp at hother
    · rename_i hne
      rw [if_neg hne]
      exact h.dead hother

/-! ## Names of watchers -/

/-- Names and views may change hands as long as no more handles are
accounted for than there are. -/
theorem Ledger.rename {a : WatcherId → Int} (h : Ledger w) (hgraph : w'.graph = w.graph)
    (hslot : w'.slot = w.slot) (hevaluations : w'.evaluations = w.evaluations)
    (hwatchers : w'.watchers = w.watchers)
    (hnames : w'.names.evaluations = w.names.evaluations)
    (hkeys : w'.names.watchers.keys.Nodup)
    (hheld : ∀ id, (w'.held id : Int) + a id ≤ w.held id)
    (hcovered : ∀ id, w.pinned id ≤ w.surplus id + a id) : Moves a noCredit w w' := by
  have hwatcher : ∀ id, w'.watcher id = w.watcher id := fun id => by
    rw [watcher, watcher, hwatchers]
  have hevaluation : ∀ e, w'.evaluation e = w.evaluation e := fun e => by
    rw [evaluation, evaluation, hevaluations]
  have hsurplus : ∀ id, w.surplus id + a id ≤ w'.surplus id := fun id => by
    have := hheld id
    rw [surplus, surplus, hwatcher]
    omega
  have hmoved : Unmoved w w' :=
    { slot := hslot
      alive := fun e => by rw [hevaluation]
      parent := fun e => by rw [hevaluation]
      previous := fun e => by rw [hevaluation]
      current := fun e => by rw [hevaluation]
      dependencies := fun id => by rw [hwatcher]
      entries := fun id d => by rw [entries, entries, hgraph] }
  refine ⟨⟨h.unmoved hmoved (hgraph ▸ h.owned), ⟨fun id => ?_, fun {id} hid => ?_, hkeys⟩,
    h.toEntitled.of_eq hevaluations hnames⟩, .watchers hsurplus hslot hevaluations hnames⟩
  · rw [pinned, hslot]
    exact Int.le_trans (hcovered id) (hsurplus id)
  · rw [hwatcher] at hid ⊢
    exact h.dead hid

/-- Giving up what a name stood for uses up the handles of the name. -/
theorem Ledger.giveUpWatcher (h : Ledger w) (former : Option WatcherId)
    (hformer : ∀ id, former = some id → w.pinned id < w.surplus id) :
    Moves (fun other => - (former.toList.count other : Int)) noCredit w
      (w.giveUp former fun w id => w.release (.watcher id)) := by
  cases former with
  | none => exact ⟨h, (Kept.refl w).weaken (fun _ => by simp [noCredit]) (fun _ => Int.le_refl _)⟩
  | some id =>
      have hstep := h.release (hformer id rfl)
      refine ⟨hstep.ledger, hstep.kept.weaken (fun other => ?_) (fun _ => Int.le_refl _)⟩
      by_cases hother : other = id
      · simp [hother, owing_self]
      · simp [owing_of_ne hother, Ne.symm hother]

theorem held_put (w : World) (name : String) (id other : WatcherId) :
    ((w.onNames fun names => { names with watchers := names.watchers.put name id }).held other : Int)
      = w.held other + [id].count other - (w.names.watchers.find? name).toList.count other := by
  have hput := w.names.watchers.naming_put name id other
  show (((w.names.watchers.put name id).naming other + w.viewings other : Nat) : Int)
    = ((w.names.watchers.naming other + w.viewings other : Nat) : Int) + _ - _
  omega

theorem held_erase (h : w.names.watchers.keys.Nodup) (name : String) (other : WatcherId) :
    ((w.onNames fun names => { names with watchers := names.watchers.erase name }).held other : Int)
      = w.held other - (w.names.watchers.find? name).toList.count other := by
  have herase := Keyed.naming_erase h name other
  show (((w.names.watchers.erase name).naming other + w.viewings other : Nat) : Int)
    = ((w.names.watchers.naming other + w.viewings other : Nat) : Int) - _
  omega

theorem count_singleton_eq_owing (id other : WatcherId) :
    (([id].count other : Nat) : Int) = owing id other := by
  by_cases hother : other = id
  · simp [hother, owing_self]
  · simp [owing_of_ne hother, Ne.symm hother]

/-- Naming a watcher uses up a handle on it. -/
theorem Ledger.nameWatcher (h : Ledger w) (name : String) (hid : w.pinned id < w.surplus id) :
    Moves (fun other => - owing id other) noCredit w (w.nameWatcher name id) := by
  have hfirst : Moves (fun other =>
      (w.names.watchers.find? name).toList.count other - owing id other) noCredit w
      (w.onNames fun names => { names with watchers := names.watchers.put name id }) := by
    refine h.rename rfl rfl rfl rfl rfl (Keyed.keys_put_nodup h.watcherKeys name id)
      (fun other => ?_) (fun other => ?_)
    · rw [held_put, count_singleton_eq_owing]
      omega
    · have := h.toCovered.spare hid other
      omega
  have hlast := hfirst.ledger.giveUpWatcher (w.names.watchers.find? name) fun former hformer => by
    have hcredit := hfirst.kept.surplus former
    rw [hformer, Option.toList_some, count_singleton_eq_owing, owing_self] at hcredit
    have := h.toCovered.spare hid former
    show w.pinned former < _
    omega
  exact ⟨hlast.ledger, (hfirst.kept.trans hlast.kept).weaken (fun _ => by omega)
    (fun _ => by simp [noCredit])⟩

theorem Ledger.dropWatcher (h : Ledger w) (name : String) :
    Moves noCredit noCredit w (w.dropWatcher name) := by
  have hfirst : Moves (fun other => (w.names.watchers.find? name).toList.count other) noCredit w
      (w.onNames fun names => { names with watchers := names.watchers.erase name }) := by
    refine h.rename rfl rfl rfl rfl rfl (Keyed.keys_erase_nodup h.watcherKeys name)
      (fun other => ?_) (fun other => ?_)
    · rw [held_erase h.watcherKeys]
      omega
    · have := h.covered other
      omega
  have hlast := hfirst.ledger.giveUpWatcher (w.names.watchers.find? name) fun former hformer => by
    have hcredit := hfirst.kept.surplus former
    rw [hformer, Option.toList_some, count_singleton_eq_owing, owing_self] at hcredit
    show w.pinned former < _
    have := h.covered former
    omega
  exact ⟨hlast.ledger, hfirst.kept.settle hlast.kept (fun _ => by omega) (fun _ => by simp [noCredit])⟩

/-! ## Views -/

/-- What the views hold when one of them is changed. -/
theorem viewings_onView (w : World) (view : ViewId) (change : View → View) (id : WatcherId) :
    (w.onView view change).viewings id + (w.view view).watchers.count id =
        w.viewings id + (change (w.view view)).watchers.count id ∨
      (w.onView view change).viewings id = w.viewings id ∧ w.views.length ≤ view := by
  simp only [viewings, World.view, onView]
  generalize w.views = views
  induction views generalizing view with
  | nil => exact .inr ⟨by simp, Nat.zero_le _⟩
  | cons first views ih =>
      cases view with
      | zero =>
          refine .inl ?_
          simp only [List.modify_zero_cons, List.flatMap_cons, List.count_append,
            List.getD_cons_zero]
          omega
      | succ view =>
          simp only [List.modify_succ_cons, List.flatMap_cons, List.count_append,
            List.getD_cons_succ, List.length_cons]
          rcases ih view with h | h
          · exact .inl (by omega)
          · exact .inr ⟨by omega, by omega⟩

theorem view_eq_default {view : ViewId} (h : w.views.length ≤ view) : w.view view = ⟨[], []⟩ := by
  simp [World.view, List.getD_eq_getElem?_getD, List.getElem?_eq_none h]

/-- A view that takes over a watcher uses up a handle on it. -/
theorem Ledger.viewWatches (h : Ledger w) (view : ViewId) (hid : w.pinned id < w.surplus id) :
    Moves (fun other => - owing id other) noCredit w (w.viewWatches view id) := by
  refine h.rename rfl rfl rfl rfl rfl h.watcherKeys (fun other => ?_) (fun other => ?_)
  · have hview := viewings_onView w view (fun v => { v with watchers := v.watchers ++ [id] }) other
    rw [List.count_append] at hview
    have hcount := count_singleton_eq_owing id other
    have := owing_nonneg id other
    show (((w.namings other + (w.onView view _).viewings other : Nat) : Int)) + _ ≤
      ((w.namings other + w.viewings other : Nat) : Int)
    omega
  · exact h.toCovered.spare hid other

/-- Watchers that are disposed of and given up, each as often as it is in
the list. -/
theorem Ledger.dropWatchers (ids : List WatcherId) (h : Ledger w)
    (hids : ∀ id, w.pinned id + ids.count id ≤ w.surplus id) :
    Moves (fun id => - (ids.count id : Int)) noCredit w (w.dropWatchers ids) := by
  induction ids generalizing w with
  | nil => exact ⟨h, (Kept.refl w).weaken (fun _ => by simp [noCredit]) (fun _ => Int.le_refl _)⟩
  | cons id ids ih =>
      have hdispose := h.dispose id
      have hpinned : ∀ other, (w.dispose id).pinned other = w.pinned other := fun _ => rfl
      have hone : (w.dispose id).pinned id < (w.dispose id).surplus id := by
        have := hdispose.kept.surplus id
        have := hids id
        simp only [List.count_cons_self, noCredit] at *
        rw [hpinned]
        omega
      have hrelease := hdispose.ledger.release hone
      have hstep := hdispose.kept.trans hrelease.kept
      have hsum : ∀ other, ((id :: ids).count other : Int) = ids.count other + owing id other := by
        intro other
        rw [← count_singleton_eq_owing, ← List.singleton_append, List.count_append]
        omega
      have hslot : ∀ other, ((w.dispose id).release (.watcher id)).pinned other = w.pinned other := by
        intro other
        simp only [pinned]
        simp only [← hstep.slot]
      have hlast := ih hrelease.ledger fun other => by
        have := hstep.surplus other
        have := hids other
        have := hsum other
        simp only [noCredit] at *
        rw [hslot]
        omega
      refine ⟨hlast.ledger, (hstep.trans hlast.kept).weaken (fun other => ?_) (fun _ => ?_)⟩
      · have := hsum other
        simp only [noCredit]
        omega
      · simp [noCredit]

/-- Disposing of a view gives up the handles that it has. -/
theorem Ledger.disposeView (h : Ledger w) (view : ViewId) :
    Moves noCredit noCredit w (w.disposeView view) := by
  have hheld : ∀ id, ((w.onView view fun _ => ⟨[], []⟩).held id : Int) +
      (w.view view).watchers.count id = w.held id := by
    intro id
    have hview := viewings_onView w view (fun _ => ⟨[], []⟩) id
    show (((w.namings id + (w.onView view _).viewings id : Nat) : Int)) + _ =
      ((w.namings id + w.viewings id : Nat) : Int)
    rcases hview with hview | ⟨hview, hnone⟩
    · simp only [List.count_nil] at hview
      omega
    · simp [view_eq_default hnone, hview]
  have hempty : Moves (fun id => ((w.view view).watchers.count id : Int)) noCredit w
      (w.onView view fun _ => ⟨[], []⟩) :=
    h.rename rfl rfl rfl rfl rfl h.watcherKeys (fun id => Int.le_of_eq (hheld id))
      (fun id => by have := h.covered id; omega)
  have hdrop := hempty.ledger.dropWatchers (w.view view).watchers fun id => by
    have := hempty.kept.surplus id
    have := h.covered id
    show w.pinned id + _ ≤ _
    omega
  have hlast := hdrop.ledger.frame (.onDocument _ (dropListeners · (w.view view).listeners))
  refine ⟨hlast.ledger, Kept.andThen ?_ hlast.kept⟩
  exact hempty.kept.settle hdrop.kept (fun _ => by omega) (fun _ => by simp [noCredit])

theorem Ledger.tearDown (h : Ledger w) (hw : TornDown w w') : Moves noCredit noCredit w w' := by
  rcases hw with hsame | ⟨view, hsame⟩
  · exact h.frame hsame
  · have hstep := h.disposeView view
    have hlast := hstep.ledger.frame hsame
    exact ⟨hlast.ledger, hstep.kept.andThen hlast.kept⟩

end DataBinding.World
