import DataBinding.Proofs.Subscription.Handles

/-!
# Handles on evaluations

What is done about evaluations keeps the ledger too: handles that are
taken and given up, names, and the beginning and the end. A name accounts
for a handle of an evaluation of client code. An evaluation of a watcher
has no name, and needs a handle on the watcher from its beginning to its
end; when it is over it has deprived nobody, if what was done meanwhile
has not (`Ledger.endWatcher`).
-/

namespace DataBinding.World

variable {w w' : World} {id : WatcherId} {e : EvaluationId}

/-! ## Handles on evaluations -/

/-- What is done about evaluations alone. -/
theorem Kept.evaluations {b : EvaluationId → Int} (hsurplus : ∀ id, w'.surplus id = w.surplus id)
    (hslot : ∀ id, w.slot = some (.watcher id) ↔ w'.slot = some (.watcher id))
    (hlength : w.evaluations.length ≤ w'.evaluations.length)
    (hparent : ∀ {e}, e < w.evaluations.length →
      (w'.evaluation e).parent = (w.evaluation e).parent)
    (halive : ∀ {e id}, (w.evaluation e).parent = .watcher id →
      (w'.evaluation e).alive = (w.evaluation e).alive)
    (hb : ∀ e, w.evaluationSurplus e + b e ≤ w'.evaluationSurplus e) : Kept noCredit b w w' :=
  ⟨fun id => by simp [hsurplus, noCredit], hslot, hlength, hparent, halive, hb⟩

/-- The handles on evaluations may change as long as none of those that
names account for goes. -/
theorem Ledger.onEvaluation (h : Ledger w) (e : EvaluationId) (handles : Evaluation → Nat)
    (b : EvaluationId → Int)
    (hb : ∀ other, w.evaluationSurplus other + b other = (w.onEvaluation e fun evaluation =>
      { evaluation with handles := handles evaluation }).evaluationSurplus other)
    (hcovered : ∀ other, 0 ≤ w.evaluationSurplus other + b other) :
    Moves noCredit b w (w.onEvaluation e fun evaluation =>
      { evaluation with handles := handles evaluation }) := by
  have hmoved := Unmoved.onEvaluation w e handles
  refine ⟨⟨h.unmoved hmoved h.owned, h.toCovered.of_eq rfl (fun _ => rfl) h.dead rfl,
    ⟨fun {other} hother => ?_, fun other => hb other ▸ hcovered other, h.evaluationKeys⟩⟩,
    .evaluations (fun _ => rfl) (fun _ => .rfl) ?_ (fun _ => hmoved.parent _)
      (fun _ => hmoved.alive _) (fun other => Int.le_of_eq (hb other))⟩
  · rw [hmoved.alive, hmoved.parent]
    exact h.entitled hother
  · simp [World.onEvaluation]

theorem Ledger.retainEvaluation (h : Ledger w) (he : e < w.evaluations.length) :
    Moves noCredit (owing e) w (w.retainEvaluation e) := by
  have hb : ∀ other, w.evaluationSurplus other + owing e other =
      (w.retainEvaluation e).evaluationSurplus other := by
    intro other
    show _ = ((((w.onEvaluation e _).evaluation other).handles : Nat) : Int)
      - w.evaluationNamings other
    rw [evaluation_onEvaluation, evaluationSurplus]
    by_cases hother : other = e
    · rw [if_pos ⟨hother, he⟩, hother, owing_self]
      simp
      omega
    · rw [if_neg fun hall => hother hall.1, owing_of_ne hother]
      simp
  refine h.onEvaluation e _ (owing e) hb fun other => ?_
  have := owing_nonneg e other
  have := h.evaluationCovered other
  omega

theorem Ledger.coveredClose (h : Ledger w) (halive : (w.evaluation e).alive = true) {client : Nat}
    (hclient : (w.evaluation e).parent = .client client) (ds : List DependencyId) :
    Covered ((w.onGraph (·.unregisterAll ds (.client client))).close e) ∧
      Kept noCredit noCredit w ((w.onGraph (·.unregisterAll ds (.client client))).close e) := by
  have hslot : ∀ id, w.slot ≠ some (.watcher id) := fun id hid => by
    have := h.slot_of_alive halive
    rw [hid, hclient] at this
    cases this
  refine ⟨⟨fun id => ?_, h.dead, h.watcherKeys⟩, .evaluations (fun _ => rfl) (fun id => ?_) ?_ ?_ ?_ ?_⟩
  · have hcovered := h.covered id
    rw [pinned_of_ne (hslot id)] at hcovered
    rw [pinned_of_ne (by simp [close])]
    exact hcovered
  · simp [hslot id, close]
  · simp [close, World.onEvaluation, World.onGraph]
  · exact fun {other} _ => field_onEvaluation _ e other Evaluation.parent rfl
  · intro other id hother
    refine (congrArg Evaluation.alive (evaluation_onEvaluation _ e other _)).trans ?_
    rw [if_neg fun hall => ?_]
    · rfl
    · rw [hall.1, hclient] at hother
      cases hother
  · intro other
    have hhandles : (((w.onGraph (·.unregisterAll ds (.client client))).close e).evaluation
        other).handles = (w.evaluation other).handles :=
      field_onEvaluation _ e other Evaluation.handles rfl
    rw [evaluationSurplus, evaluationSurplus, hhandles]
    simp [noCredit, evaluationNamings, close, World.onEvaluation, World.onGraph]

/-- An evaluation that is closed must have lost its names. -/
theorem Entitled.close (h : Entitled w) (hnone : w'.evaluationNamings e = 0)
    (hfewer : ∀ other, w'.evaluationNamings other ≤ w.evaluationNamings other)
    (hevaluation : ∀ other, w'.evaluation other = (w.close e).evaluation other)
    (hkeys : w'.names.evaluations.keys.Nodup) : Entitled w' where
  entitled {other} hother := by
    have hne : other ≠ e := by
      rintro rfl
      omega
    have hsame : w'.evaluation other = w.evaluation other := by
      rw [hevaluation]
      refine (evaluation_onEvaluation w e other _).trans ?_
      rw [if_neg fun hall => hne hall.1]
    rw [hsame]
    exact h.entitled (Nat.lt_of_lt_of_le hother (hfewer other))
  evaluationCovered other := by
    have hhandles : (w'.evaluation other).handles = (w.evaluation other).handles := by
      rw [hevaluation]
      exact field_onEvaluation w e other Evaluation.handles rfl
    have := h.evaluationCovered other
    have := hfewer other
    simp only [evaluationSurplus, hhandles] at *
    omega
  evaluationKeys := hkeys

/-- A handle on an evaluation of client code that is given up. The last
one abandons the evaluation. -/
theorem Ledger.releaseEvaluation (h : Ledger w) (he : 0 < w.evaluationSurplus e)
    (hclient : ∃ client, (w.evaluation e).parent = .client client) :
    Moves noCredit (fun other => - owing e other) w (w.releaseEvaluation e) := by
  let fewer := w.lessenEvaluation e
  have hhandles : ∀ other, (fewer.evaluation other).handles =
      (w.evaluation other).handles - if other = e then 1 else 0 := fun other => by
    rw [evaluation_lessenEvaluation]
  have hsurplus : ∀ other, w.evaluationSurplus other + - owing e other =
      fewer.evaluationSurplus other := fun other => by
    have hnamings : fewer.evaluationNamings other = w.evaluationNamings other := rfl
    rw [evaluationSurplus] at he
    rw [evaluationSurplus, evaluationSurplus, hhandles, hnamings, owing]
    split
    · rename_i hother
      rw [hother]
      omega
    · simp
  have hcovered : ∀ other, 0 ≤ w.evaluationSurplus other + - owing e other := fun other => by
    by_cases hother : other = e
    · rw [hother, owing_self]
      omega
    · rw [owing_of_ne hother]
      have := h.evaluationCovered other
      omega
  have hfirst : Moves noCredit (fun other => - owing e other) w fewer :=
    h.onEvaluation e _ _ hsurplus hcovered
  refine releaseEvaluation_of_lessen hfirst fun halive hlast => ?_
  obtain ⟨client, hclient⟩ := hclient
  have halive' : (fewer.evaluation e).alive = true := by
    rw [evaluation_lessenEvaluation]
    exact halive
  have hparent : (fewer.evaluation e).parent = .client client := by
    rw [evaluation_lessenEvaluation]
    exact hclient
  have hnone : fewer.evaluationNamings e = 0 := by
    have := hfirst.ledger.evaluationCovered e
    rw [evaluationSurplus, hhandles, if_pos rfl] at this
    omega
  obtain ⟨hclosed, hkept⟩ := hfirst.ledger.coveredClose halive' hparent []
  exact ⟨⟨hfirst.ledger.toTracked.closeClient halive' hparent [], hclosed,
    hfirst.ledger.toEntitled.close hnone (fun _ => Nat.le_refl _) (fun _ => rfl)
      hfirst.ledger.evaluationKeys⟩, hfirst.kept.andThen hkept⟩

/-! ## Names of evaluations -/

theorem evaluationNamings_erase {name : String} (h : w.names.evaluations.keys.Nodup)
    (he : w.names.evaluations.find? name = some e) (other : EvaluationId) :
    (w.onNames fun names =>
        { names with evaluations := names.evaluations.erase name }).evaluationNamings other +
      [e].count other = w.evaluationNamings other := by
  have herase := Keyed.naming_erase h name other
  rwa [he, Option.toList_some] at herase

theorem dropEvaluation_eq {name : String} (he : w.names.evaluations.find? name = some e) :
    w.dropEvaluation name = (w.onNames fun names =>
      { names with evaluations := names.evaluations.erase name }).releaseEvaluation e := by
  simp only [World.dropEvaluation, giveUp, he]

/-- A handle that no name accounts for any more may be given up. -/
theorem Moves.releaseEvaluation (h : Moves noCredit (owing e) w w')
    (hcovered : 0 ≤ w.evaluationSurplus e)
    (hclient : ∃ client, (w'.evaluation e).parent = .client client) :
    Moves noCredit noCredit w (w'.releaseEvaluation e) := by
  have hcredit := h.kept.evaluationSurplus e
  rw [owing_self] at hcredit
  have hlast := h.ledger.releaseEvaluation (by omega) hclient
  exact ⟨hlast.ledger, h.kept.settle hlast.kept (fun _ => by simp [noCredit]) fun _ => by omega⟩

/-- A name that is dropped uses up its handle on the evaluation. -/
theorem Ledger.dropEvaluation (h : Ledger w) (name : String)
    (he : w.names.evaluations.find? name = some e) :
    Moves noCredit noCredit w (w.dropEvaluation name) := by
  let fewer := w.onNames fun names => { names with evaluations := names.evaluations.erase name }
  have herase : ∀ other, fewer.evaluationNamings other + [e].count other =
      w.evaluationNamings other := evaluationNamings_erase h.evaluationKeys he
  have hb : ∀ other, w.evaluationSurplus other + owing e other = fewer.evaluationSurplus other := by
    intro other
    have := herase other
    show _ = ((w.evaluation other).handles : Int) - fewer.evaluationNamings other
    rw [evaluationSurplus, ← count_singleton_eq_owing]
    omega
  have hentitled : Entitled fewer := by
    refine ⟨fun {other} hother => ?_, fun other => ?_,
      Keyed.keys_erase_nodup h.evaluationKeys name⟩
    · exact h.entitled (Nat.lt_of_lt_of_le hother (Nat.le.intro (herase other)))
    · have := h.evaluationCovered other
      have := owing_nonneg e other
      rw [← hb]
      omega
  have hfewer : Moves noCredit (owing e) w fewer :=
    ⟨⟨h.unmoved (.onNames w _) h.owned, h.toCovered.of_eq rfl (fun _ => rfl) h.dead rfl, hentitled⟩,
      .evaluations (fun _ => rfl) (fun _ => .rfl) (Nat.le_refl _) (fun _ => rfl) (fun _ => rfl)
        fun other => Int.le_of_eq (hb other)⟩
  rw [dropEvaluation_eq he]
  exact hfewer.releaseEvaluation (h.evaluationCovered e) (h.entitled (Keyed.naming_pos he)).2

/-- Finishing a named evaluation that no reading belongs to. -/
theorem Ledger.finishNamed (h : Ledger w) (name : String)
    (he : w.names.evaluations.find? name = some e) (hunused : (w.evaluation e).handles ≤ 1) :
    Moves noCredit noCredit w ((w.finish e).dropEvaluation name) := by
  obtain ⟨halive, client, hclient⟩ := h.entitled (Keyed.naming_pos he)
  have hfinish : w.finish e =
      (w.onGraph (·.unregisterAll (w.stale e) (.client client))).close e := by
    rw [World.finish, hclient]
  have hclosed : Tracked (w.finish e) := hfinish ▸ h.toTracked.closeClient halive hclient (w.stale e)
  obtain ⟨hcovered, hkept⟩ : Covered (w.finish e) ∧ Kept noCredit noCredit w (w.finish e) :=
    hfinish ▸ h.coveredClose halive hclient (w.stale e)
  let fewer := (w.finish e).onNames fun names =>
    { names with evaluations := names.evaluations.erase name }
  have herase : ∀ other, fewer.evaluationNamings other + [e].count other =
      w.evaluationNamings other := evaluationNamings_erase h.evaluationKeys he
  -- the name had the only handle
  have hnone : fewer.evaluationNamings e = 0 := by
    have hself := herase e
    have hnamings := h.evaluationCovered e
    rw [List.count_singleton_self] at hself
    rw [evaluationSurplus] at hnamings
    omega
  have hentitled : Entitled fewer := h.toEntitled.close hnone
    (fun other => Nat.le.intro (herase other)) (fun _ => rfl)
    (Keyed.keys_erase_nodup h.evaluationKeys name)
  have hcredit : Kept noCredit (owing e) w fewer := by
    refine ⟨hkept.surplus, hkept.slot, hkept.length, hkept.parent, hkept.alive, fun other => ?_⟩
    have := herase other
    have hhandles : (fewer.evaluation other).handles = (w.evaluation other).handles :=
      field_onEvaluation _ e other Evaluation.handles rfl
    rw [evaluationSurplus, evaluationSurplus, hhandles, ← count_singleton_eq_owing]
    omega
  have hfewer : Moves noCredit (owing e) w fewer :=
    ⟨⟨hclosed.unmoved (.onNames _ _) hclosed.owned,
      hcovered.of_eq rfl (fun _ => rfl) hcovered.dead rfl, hentitled⟩, hcredit⟩
  rw [dropEvaluation_eq (show (w.finish e).names.evaluations.find? name = some e from he)]
  refine hfewer.releaseEvaluation (h.evaluationCovered e) ⟨client, ?_⟩
  exact (field_onEvaluation _ e e Evaluation.parent rfl).trans hclient

/-! ## Beginning and ending -/

/-- Where the slot is free no evaluation has a name. -/
theorem Ledger.evaluationNamings_eq_zero (h : Ledger w) (hslot : w.slot = none)
    (e : EvaluationId) : w.evaluationNamings e = 0 := by
  refine Nat.eq_zero_of_not_pos fun hpos => ?_
  exact h.not_alive hslot e (h.entitled hpos).1

theorem Ledger.entitled_of_free (h : Ledger w) (hslot : w.slot = none)
    (hnames : w'.names = w.names) : Entitled w' := by
  have hnone : ∀ e, w'.evaluationNamings e = 0 := fun e => by
    rw [evaluationNamings, hnames]
    exact h.evaluationNamings_eq_zero hslot e
  refine ⟨fun {e} he => absurd (hnone e) (Nat.ne_of_gt he), fun e => ?_, hnames ▸ h.evaluationKeys⟩
  rw [evaluationSurplus, hnone]
  omega

/-- An evaluation of client code that begins under a name. -/
theorem Ledger.entered (h : Ledger w) (hslot : w.slot = none) {client : Nat}
    {previous : List DependencyId} (htracked : Tracked w')
    (hslot' : w'.slot = some (.client client)) (hwatchers : w'.watchers = w.watchers)
    (hheld : ∀ id, w'.held id = w.held id) (hkeys : w'.names.watchers = w.names.watchers)
    (hevaluation : ∀ e, w'.evaluation e =
      if e = w.nextEvaluation then ⟨.client client, previous, [], true, 1⟩ else w.evaluation e)
    (hlength : w.evaluations.length ≤ w'.evaluations.length)
    (hnamings : ∀ e, w'.evaluationNamings e = [w.nextEvaluation].count e)
    (hkeys' : w'.names.evaluations.keys.Nodup) : Moves noCredit noCredit w w' := by
  have hfree : ∀ id, w.slot ≠ some (.watcher id) := by simp [hslot]
  have hfree' : ∀ id, w'.slot ≠ some (.watcher id) := by simp [hslot']
  have hwatcher : ∀ id, w'.watcher id = w.watcher id := fun id => by
    rw [watcher, watcher, hwatchers]
  have hsurplus : ∀ id, w'.surplus id = w.surplus id := fun id => by
    rw [surplus, surplus, hwatcher, hheld]
  have hnone := h.evaluationNamings_eq_zero hslot
  have hlast : w.evaluation w.nextEvaluation = _ := evaluation_eq_default (Nat.le_refl _)
  have hcredit : ∀ e, w'.evaluationSurplus e = w.evaluationSurplus e := by
    intro e
    rw [evaluationSurplus, evaluationSurplus, hevaluation, hnamings, hnone]
    by_cases he : e = w.nextEvaluation
    · rw [if_pos he, he, hlast]
      simp
    · rw [if_neg he]
      simp [Ne.symm he]
  have hold : ∀ {e}, e < w.evaluations.length → w'.evaluation e = w.evaluation e :=
    fun {e} he => (hevaluation e).trans (if_neg (Nat.ne_of_lt he))
  refine ⟨⟨htracked, ⟨fun id => ?_, fun {id} hid => ?_, hkeys ▸ h.watcherKeys⟩,
      ⟨fun {e} he => ?_, fun e => hcredit e ▸ h.evaluationCovered e, hkeys'⟩⟩,
    .evaluations hsurplus (fun id => ?_) hlength (fun he => by rw [hold he]) (fun {e id} he => ?_)
      (fun e => by simp [hcredit, noCredit])⟩
  · rw [pinned_of_ne (hfree' id), hsurplus, ← pinned_of_ne (hfree id)]
    exact h.covered id
  · rw [hwatcher] at hid ⊢
    exact h.dead hid
  · have hnext : e = w.nextEvaluation := by
      rw [hnamings] at he
      simpa using List.count_pos_iff.1 he
    rw [hevaluation, if_pos hnext]
    exact ⟨rfl, client, rfl⟩
  · simp [hfree id, hfree' id]
  · refine congrArg Evaluation.alive (hold (Nat.lt_of_not_le fun hle => ?_))
    rw [evaluation_eq_default hle] at he
    cases he

theorem Ledger.enterNamed (h : Ledger w) {client : Nat} {previous : List DependencyId}
    (hw : w.enter (.client client) previous = .ok w') (name : String) :
    Moves noCredit noCredit w (w'.nameEvaluation name w.nextEvaluation) := by
  have htracked := h.toTracked.enterClient hw
  obtain ⟨hslot, rfl⟩ := enter_eq_ok hw
  have hfind : w.names.evaluations.find? name = none := by
    cases hfind : w.names.evaluations.find? name with
    | none => rfl
    | some e =>
        have hpos : 0 < w.evaluationNamings e := Keyed.naming_pos hfind
        rw [h.evaluationNamings_eq_zero hslot e] at hpos
        cases hpos
  simp only [World.nameEvaluation, giveUp, hfind]
  refine h.entered hslot (htracked.unmoved (.onNames _ _) htracked.owned) rfl rfl (fun _ => rfl) rfl
    (evaluation_append w _ (some (.client client))) (by simp [onNames]) (fun e => ?_)
    (Keyed.keys_put_nodup h.evaluationKeys _ _)
  have hput := w.names.evaluations.naming_put name w.nextEvaluation e
  have hzero : w.names.evaluations.naming e = 0 := h.evaluationNamings_eq_zero hslot e
  rw [hfind, hzero] at hput
  exact hput.trans (Nat.zero_add _)

namespace Begun

variable {begun : World}

theorem surplus (h : Begun w id begun) (other : WatcherId) :
    begun.surplus other = w.surplus other := by
  have hhandles : (begun.watcher other).handles = (w.watcher other).handles := by
    by_cases hother : other = id
    · rw [hother, h.watcher]
    · rw [h.others hother]
  rw [World.surplus, World.surplus, hhandles, held, held, namings, namings, viewings, viewings,
    h.names, h.views]

/-- The evaluation that begins comes with a handle of its own. -/
theorem evaluationSurplus (h : Begun w id begun) (e : EvaluationId) :
    w.evaluationSurplus e ≤ begun.evaluationSurplus e := by
  have hnamings : begun.evaluationNamings e = w.evaluationNamings e := by
    rw [evaluationNamings, evaluationNamings, h.names]
  rw [World.evaluationSurplus, World.evaluationSurplus, hnamings]
  by_cases he : e = w.nextEvaluation
  · have hnone : (w.evaluation e).handles = 0 := by
      rw [evaluation_eq_default (Nat.le_of_eq he.symm)]
    omega
  · exact Int.le_of_eq (by rw [h.older he])

theorem lt (h : Begun w id begun) : w.nextEvaluation < begun.evaluations.length :=
  h.length ▸ Nat.lt_succ_self _

/-- What the watcher reads is tracked in its evaluation. -/
theorem mayTrack (h : Begun w id begun) : begun.MayTrack (some w.nextEvaluation) :=
  ⟨h.lt, .inr (by rw [h.evaluation])⟩

end Begun

namespace Ended

theorem surplus (h : Ended w id e w') (other : WatcherId) : w'.surplus other = w.surplus other := by
  rw [World.surplus, World.surplus, h.handles, held, held, namings, namings, viewings, viewings,
    h.names, h.views]

theorem evaluationSurplus (h : Ended w id e w') (other : EvaluationId) :
    w'.evaluationSurplus other = w.evaluationSurplus other := by
  rw [World.evaluationSurplus, World.evaluationSurplus, h.evaluationHandles, evaluationNamings,
    evaluationNamings, h.names]

end Ended

/-- A watcher that begins its evaluation needs a handle for it. -/
theorem Ledger.beginWatcher (h : Ledger w) (hid : w.pinned id < w.surplus id)
    (hw : w.beginWatcher id = .ok w') : Ledger w' := by
  have hbegun := begun_of_beginWatcher hw
  refine ⟨h.toTracked.beginWatcher hw, ⟨fun other => ?_, fun {other} hother => ?_, ?_⟩,
    h.entitled_of_free hbegun.free hbegun.names⟩
  · rw [hbegun.surplus]
    by_cases hother : other = id
    · have := pinned_nonneg w id
      rw [hother, pinned_self hbegun.slot]
      omega
    · rw [pinned_of_ne (by simp [hbegun.slot, Ne.symm hother])]
      exact Int.le_trans (pinned_nonneg w other) (h.covered other)
  · by_cases hsame : other = id
    · rw [hsame, hbegun.watcher]
    · rw [hbegun.others hsame] at hother ⊢
      exact h.dead hother
  · rw [hbegun.names]
    exact h.watcherKeys

/-- The end of an evaluation of a watcher frees the handle that it needed. -/
theorem Ledger.ended (h : Ledger w) (halive : (w.evaluation e).alive = true)
    (hparent : (w.evaluation e).parent = .watcher id) : Ledger (w.endWatcher id e) := by
  have hended := ended_endWatcher w id e
  have hslot : w.slot = some (.watcher id) := hparent ▸ h.slot_of_alive halive
  have hunnamed : w.evaluationNamings e = 0 := by
    refine Nat.eq_zero_of_not_pos fun hpos => ?_
    obtain ⟨client, hclient⟩ := (h.entitled hpos).2
    rw [hparent] at hclient
    cases hclient
  refine ⟨h.toTracked.endWatcher (h.lt_of_slot hslot) halive hparent,
    ⟨fun other => ?_, fun {other} hother => ?_, h.watcherKeys⟩,
    h.toEntitled.close hunnamed (fun _ => Nat.le_refl _) (fun _ => rfl) h.evaluationKeys⟩
  · rw [pinned_of_ne (by simp [hended.slot]), hended.surplus]
    exact Int.le_trans (pinned_nonneg w other) (h.covered other)
  · rw [hended.handles] at hother
    -- the watcher itself is not dead, as its evaluation has needed a handle
    have hne : other ≠ id := by
      rintro rfl
      have hcovered := h.covered other
      rw [pinned_self hslot, World.surplus, hother] at hcovered
      omega
    rw [hended.others hne]
    exact h.dead hother

/-- An evaluation that is over has deprived nobody, if what was done between
its beginning and its end has not. -/
theorem Kept.evaluated {begun last : World} (hbegun : Begun w id begun)
    (hkept : Kept noCredit noCredit begun last) (hended : Ended last id w.nextEvaluation w') :
    Kept noCredit noCredit w w' := by
  have hold : ∀ {e}, e < w.evaluations.length → e ≠ w.nextEvaluation := Nat.ne_of_lt
  have hlength := hkept.length
  rw [hbegun.length] at hlength
  refine ⟨fun other => ?_, fun other => ?_, ?_, fun {e} he => ?_, fun {e other} he => ?_,
    fun e => ?_⟩
  · rw [hended.surplus, ← hbegun.surplus]
    exact hkept.surplus other
  · simp [hbegun.free, hended.slot]
  · rw [hended.length]
    omega
  · rw [hended.parent, hkept.parent (by rw [hbegun.length]; omega), hbegun.older (hold he)]
  · have hlt : e < w.evaluations.length := by
      refine Nat.lt_of_not_le fun hle => ?_
      rw [evaluation_eq_default hle] at he
      cases he
    rw [← hbegun.older (hold hlt)] at he ⊢
    rw [hended.older (hold hlt), hkept.alive he]
  · rw [hended.evaluationSurplus]
    exact Int.le_trans (Int.add_le_add_right (hbegun.evaluationSurplus e) _)
      (hkept.evaluationSurplus e)

/-- From its beginning to its end an evaluation of a watcher moves nothing
but subscriptions. -/
theorem Ledger.endWatcher {begun last : World} (hlast : Ledger last)
    (hw : w.beginWatcher id = .ok begun) (hkept : Kept noCredit noCredit begun last) :
    Moves noCredit noCredit w (last.endWatcher id w.nextEvaluation) := by
  have hbegun := begun_of_beginWatcher hw
  have hown := hbegun.evaluation
  have hparent : (last.evaluation w.nextEvaluation).parent = .watcher id := by
    rw [hkept.parent hbegun.lt, hown]
  have halive : (last.evaluation w.nextEvaluation).alive = true := by
    rw [hkept.alive (by rw [hown]), hown]
  exact ⟨hlast.ended halive hparent, hkept.evaluated hbegun (ended_endWatcher last id _)⟩

end DataBinding.World
