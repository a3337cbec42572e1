import DataBinding.Proofs.Run.Outcome

/-!
# Runs that return

What can be read off a run that has come to its end: it went through
every state that a run from its beginning comes to (`Reaches.through`),
and the run of a `bind` is a run of the first part followed by a run of
the rest (`Reaches.of_bind`). `Along` is about the calls that are made on
the way. That there is such a run at all is `Proc.Returns`.
-/

namespace DataBinding

variable {α β : Type} {w w' : World}

/-- The calls of a run that has ended are those that its beginning makes, and
then the rest. -/
theorem Passes.rest {a c d : Config α} {calls calls' : List Call} (hc : Passes a calls c)
    (hd : Passes a calls' d) (hend : d.tick = none) :
    ∃ rest, calls' = calls ++ rest ∧ Passes c rest d := by
  induction hc generalizing calls' with
  | here => exact ⟨calls', rfl, hd⟩
  | step htick _ ih =>
      cases hd with
      | here =>
          rw [hend] at htick
          cases htick
      | step htick' hrest =>
          rw [htick] at htick'
          cases htick'
          obtain ⟨rest, rfl, hpasses⟩ := ih hrest
          exact ⟨rest, (List.append_assoc ..).symm, hpasses⟩

/-- A process that has returned has done its first part, and then the
rest, each with its calls. -/
theorem Passes.of_bind {p : Proc α} {f : α → Proc β} {b : β} {calls : List Call}
    (h : Passes ⟨w, p >>= f⟩ calls ⟨w', .done b⟩) :
    ∃ a u first rest, calls = first ++ rest ∧ Passes ⟨w, p⟩ first ⟨u, .done a⟩ ∧
      Passes ⟨u, f a⟩ rest ⟨w', .done b⟩ := by
  generalize hc : (⟨w, p >>= f⟩ : Config β) = c at h
  generalize hd : (⟨w', .done b⟩ : Config β) = d at h
  induction h generalizing w p with
  | here =>
      cases p with
      | done a => exact ⟨a, w, [], [], rfl, .here _, hc ▸ .here _⟩
      | _ => cases hc.trans hd.symm
  | @step c next _ _ htick hrest ih =>
      subst hc
      cases hfirst : (⟨w, p⟩ : Config α).tick with
      | none =>
          cases p with
          | done a => exact ⟨a, w, [], _, rfl, .here _, .step htick hrest⟩
          | halt fault => cases htick
          | _ => cases hfirst
      | some second =>
          obtain ⟨u, q⟩ := second
          obtain ⟨hbind, hcalls⟩ := Passes.tick_bind f hfirst
          obtain rfl := Option.some.inj (hbind.symm.trans htick)
          obtain ⟨a, v, first, rest, rfl, hp, hf⟩ := ih rfl hd
          refine ⟨a, v, _, rest, ?_, .step hfirst hp, hf⟩
          rw [← hcalls, List.append_assoc]
          rfl

/-- A call that has come back was made. -/
theorem Passes.mem_perform {c : Call} {answer : c.Answer} {calls : List Call}
    (h : Passes ⟨w, Proc.perform c⟩ calls ⟨w', .done answer⟩) : c ∈ calls := by
  obtain ⟨rest, rfl, -⟩ := (Passes.call (.here _) : Passes ⟨w, Proc.perform c⟩ [c] _).rest h rfl
  exact List.mem_cons_self

/-- What leads to its like with a call on the way does not come to an end. -/
theorem Passes.endless {I : Config α → Prop}
    (h : ∀ c, I c → ∃ calls next, calls ≠ [] ∧ Passes c calls next ∧ I next)
    {c d : Config α} (hc : I c) (hrun : Reaches c d) : d.tick ≠ none := by
  intro hend
  obtain ⟨total, hpasses⟩ := hrun.passes
  clear hrun
  -- a run that has ended has made all the calls that it makes
  induction hlength : total.length using Nat.strongRecOn generalizing c total with
  | ind length ih =>
      obtain ⟨calls, next, hcalls, hround, hnext⟩ := h c hc
      obtain ⟨rest, rfl, hrest⟩ := hround.rest hpasses hend
      refine ih rest.length ?_ hnext rest hrest rfl
      have hpos := List.length_pos_iff.2 hcalls
      rw [List.length_append] at hlength
      omega

/-- Items after items. -/
theorem Proc.each_append (f : α → Proc Unit) (items items' : List α) :
    Proc.each f (items ++ items') = (Proc.each f items >>= fun _ => Proc.each f items') := by
  induction items with
  | nil => rfl
  | cons item items ih =>
      simp only [List.cons_append, Proc.each, ih, Proc.bind_eq]
      exact (Proc.bind_assoc ..).symm

namespace Reaches

/-- A run that has ended went through what its beginning comes to. -/
theorem through {a c d : Config α} {calls : List Call} (hc : Passes a calls c)
    (hd : Reaches a d) (hend : d.tick = none) : Reaches c d := by
  obtain ⟨calls', hpasses⟩ := hd.passes
  obtain ⟨rest, -, hrest⟩ := hc.rest hpasses hend
  exact hrest.reaches

theorem done_inj {a b : α} (h : Reaches (⟨w, .done a⟩ : Config α) ⟨w', .done b⟩) :
    w' = w ∧ b = a := by
  obtain ⟨calls, hpasses⟩ := h.passes
  cases hpasses with
  | here => exact ⟨rfl, rfl⟩
  | step htick => cases htick

/-- What a process comes to without a choice is what it has come to. -/
theorem result {p : Proc α} {u : World} {a b : α} {calls : List Call}
    (hp : Passes ⟨w, p⟩ calls ⟨u, .done a⟩) (h : Reaches ⟨w, p⟩ ⟨w', .done b⟩) :
    w' = u ∧ b = a :=
  done_inj (through hp h rfl)

theorem bind_left {p : Proc α} {q : Proc α} (f : α → Proc β) (h : Reaches ⟨w, p⟩ ⟨w', q⟩) :
    Reaches ⟨w, p >>= f⟩ ⟨w', q >>= f⟩ := by
  obtain ⟨calls, hpasses⟩ := h.passes
  exact (hpasses.bind_left f).reaches

/-- A process that has returned has done its first part, and then the
rest. -/
theorem of_bind {p : Proc α} {f : α → Proc β} {b : β}
    (h : Reaches ⟨w, p >>= f⟩ ⟨w', .done b⟩) :
    ∃ a u, Reaches ⟨w, p⟩ ⟨u, .done a⟩ ∧ Reaches ⟨u, f a⟩ ⟨w', .done b⟩ := by
  obtain ⟨calls, hpasses⟩ := h.passes
  obtain ⟨a, u, calls, calls', -, hp, hf⟩ := hpasses.of_bind
  exact ⟨a, u, hp.reaches, hf.reaches⟩

/-- A call that has come back has run what it stands for. -/
theorem of_perform {c : Call} {answer : c.Answer}
    (h : Reaches ⟨w, Proc.perform c⟩ ⟨w', .done answer⟩) :
    Reaches ⟨w, c.body⟩ ⟨w', .done answer⟩ := by
  have hcall : Passes ⟨w, Proc.perform c⟩ [c] ⟨w, c.body.bind .done⟩ := .call (.here _)
  have hbody := through hcall h rfl
  rwa [Proc.bind_done] at hbody

end Reaches

/-- The result of a run that has come to its end. -/
def Config.returned? (c : Config α) : Option α :=
  match c.proc with
  | .done a => some a
  | _ => none

/-- A run that was gone through has returned what it has for a result. -/
theorem Config.reaches_of_returned (fuel : Nat) {c : Config α} {a : α}
    (h : (c.advance fuel).returned? = some a) :
    Reaches c ⟨(c.advance fuel).world, .done a⟩ := by
  have hrun := reaches_advance fuel c
  revert h hrun
  generalize c.advance fuel = last
  obtain ⟨w, p⟩ := last
  intro h hrun
  unfold Config.returned? at h
  split at h
  · rename_i returned hproc
    obtain rfl := Option.some.inj h
    cases hproc
    exact hrun
  · cases h

/-- The view that a run has returned. -/
def Config.view? (c : Config (Except Error ViewId)) : Option ViewId :=
  c.returned?.bind (·.toOption)

theorem Config.reaches_of_view? (fuel : Nat) {c : Config (Except Error ViewId)} {view : ViewId}
    (h : (c.advance fuel).view? = some view) :
    Reaches c ⟨(c.advance fuel).world, .done (.ok view)⟩ := by
  obtain ⟨result, hresult, hview⟩ := Option.bind_eq_some_iff.1 h
  cases result with
  | error e => cases hview
  | ok _ =>
      cases hview
      exact reaches_of_returned fuel hresult

/-- The error that a run has returned. -/
def Config.error? (c : Config (Except Error ViewId)) : Option Error :=
  c.returned?.bind fun
    | .error e => some e
    | .ok _ => none

theorem Config.reaches_of_error? (fuel : Nat) {c : Config (Except Error ViewId)} {e : Error}
    (h : (c.advance fuel).error? = some e) :
    Reaches c ⟨(c.advance fuel).world, .done (.error e)⟩ := by
  obtain ⟨result, hresult, herror⟩ := Option.bind_eq_some_iff.1 h
  cases result with
  | ok _ => cases herror
  | error _ =>
      cases herror
      exact reaches_of_returned fuel hresult

/-! ## That there is such a run -/

/-- A process comes to its end, with a result and in a state that satisfy a
condition. -/
def Proc.Returns (p : Proc α) (w : World) (Q : α → World → Prop) : Prop :=
  ∃ a w', Reaches ⟨w, p⟩ ⟨w', .done a⟩ ∧ Q a w'

namespace Proc.Returns

variable {ι : Type} {p : Proc α} {Q R : α → World → Prop}

theorem of_passes {calls : List Call} {a : α} (h : Passes ⟨w, p⟩ calls ⟨w', .done a⟩)
    (hQ : Q a w') : p.Returns w Q :=
  ⟨a, w', h.reaches, hQ⟩

/-- What every run comes to holds of the one that there is. -/
theorem of_reaches (h : p.Returns w Q)
    (hR : ∀ a w', Reaches ⟨w, p⟩ ⟨w', .done a⟩ → Q a w' → R a w') : p.Returns w R :=
  let ⟨a, w', hrun, hQ⟩ := h
  ⟨a, w', hrun, hR a w' hrun hQ⟩

theorem mono (h : p.Returns w Q) (hQ : ∀ a w', Q a w' → R a w') : p.Returns w R :=
  h.of_reaches fun a w' _ => hQ a w'

theorem pure {a : α} (h : Q a w) : (Pure.pure a : Proc α).Returns w Q :=
  ⟨a, w, .here _, h⟩

/-- What is asked of success is not asked of a failure. -/
theorem failed {e : Error} {P : World → Prop} :
    (Pure.pure (.error e) : Proc (Except Error Unit)).Returns w
      fun result w' => result = .ok () → P w' :=
  pure nofun

theorem bind {f : α → Proc β} {R : β → World → Prop} (h : p.Returns w Q)
    (hf : ∀ a w', Q a w' → (f a).Returns w' R) : (p >>= f).Returns w R := by
  obtain ⟨a, u, hp, hQ⟩ := h
  obtain ⟨b, w', hrest, hR⟩ := hf a u hQ
  exact ⟨b, w', (hp.bind_left f).trans hrest, hR⟩

/-- A write and what follows it. -/
theorem modify {f : World → World} {k : Unit → Proc α} (h : (k ()).Returns (f w) Q) :
    (Proc.modify f >>= k).Returns w Q :=
  bind (of_passes (Q := fun _ u => u = f w) (.modify f) rfl) fun _ _ hu => hu ▸ h

/-- A question and what follows it. -/
theorem ask {f : World → β} {k : β → Proc α} (h : (k (f w)).Returns w Q) :
    (Proc.ask f >>= k).Returns w Q :=
  bind (of_passes (Q := fun b u => b = f w ∧ u = w) (.ask f) ⟨rfl, rfl⟩) fun _ _ hu =>
    hu.1 ▸ hu.2 ▸ h

theorem perform {c : Call} {Q : c.Answer → World → Prop} (h : c.body.Returns w Q) :
    (Proc.perform c).Returns w Q := by
  obtain ⟨a, w', hrun, hQ⟩ := h
  obtain ⟨calls, hpasses⟩ := hrun.passes
  exact of_passes (.perform hpasses) hQ

/-- What holds before each of several items, as long as none has failed. -/
theorem tryEach {f : ι → Proc (Except Error Unit)} {items : List ι} (I : List ι → World → Prop)
    (hI : I items w) (h : ∀ item rest t, I (item :: rest) t →
      (f item).Returns t fun result u => result = .ok () → I rest u) :
    (Proc.tryEach f items).Returns w fun result u => result = .ok () → I [] u := by
  induction items generalizing w with
  | nil => exact pure fun _ => hI
  | cons item items ih =>
      refine (h item items w hI).bind fun result u hu => ?_
      cases result with
      | error e => exact pure nofun
      | ok _ => exact ih (hu rfl)

end Proc.Returns

/-! ## Calls on the way -/

/-- Something holds of every call that a run makes, however deep. -/
def Along (holds : World → Call → Prop) (c : Config α) : Prop :=
  ∀ w call next, Reaches c ⟨w, .call call next⟩ → holds w call

namespace Along

variable {holds : World → Call → Prop} {p : Proc α} {f : α → Proc β}

theorem of_reaches {c d : Config α} (h : Along holds c) (hd : Reaches c d) : Along holds d :=
  fun w call next hreaches => h w call next (hd.trans hreaches)

/-- The first part of a process. -/
theorem left (h : Along holds ⟨w, p >>= f⟩) : Along holds ⟨w, p⟩ :=
  fun u call _ hreaches => h u call _ (hreaches.bind_left f)

/-- What follows its first part. -/
theorem right {a : α} (h : Along holds ⟨w, p >>= f⟩) (hp : Reaches ⟨w, p⟩ ⟨w', .done a⟩) :
    Along holds ⟨w', f a⟩ :=
  h.of_reaches (hp.bind_left f)

theorem perform {c : Call} (h : Along holds ⟨w, Proc.perform c⟩) : holds w c :=
  h w c .done (.here _)

/-- The body of a call that is made. -/
theorem body {c : Call} (h : Along holds ⟨w, Proc.perform c⟩) : Along holds ⟨w, c.body⟩ := by
  have hcall : Reaches ⟨w, Proc.perform c⟩ ⟨w, c.body.bind .done⟩ := .step (.here _) rfl
  rw [Proc.bind_done] at hcall
  exact h.of_reaches hcall

/-- A run that comes to an end can be gone through tick by tick. -/
theorem of_run (fuel : Nat) {c : Config α} (hend : (c.advance fuel).tick = none)
    (h : ∀ n < fuel, ∀ call ∈ (c.advance n).calls, holds (c.advance n).world call) :
    Along holds c := by
  induction fuel generalizing c with
  | zero =>
      intro w call next hreaches
      obtain ⟨calls, hpasses⟩ := hreaches.passes
      cases hpasses with
      | here => cases hend
      | step htick =>
          rw [show c.advance 0 = c from rfl, htick] at hend
          cases hend
  | succ fuel ih =>
      intro w call next hreaches
      obtain ⟨calls, hpasses⟩ := hreaches.passes
      cases hpasses with
      | here => exact h 0 (Nat.succ_pos _) call List.mem_cons_self
      | @step _ d _ _ htick hrest =>
          have hadvance : ∀ n, c.advance (n + 1) = d.advance n := fun n => by
            simp only [Config.advance, htick]
          refine ih (hadvance fuel ▸ hend) (fun n hn call hcall => ?_) w call next hrest.reaches
          rw [← hadvance] at hcall ⊢
          exact h (n + 1) (Nat.succ_lt_succ hn) call hcall

end Along

end DataBinding
