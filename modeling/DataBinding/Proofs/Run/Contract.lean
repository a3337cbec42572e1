import DataBinding.Machine

/-!
# Contracts

Reasoning about a run by contracts for its calls. A *monitor* follows a
run with a state of its own: it shows the state of the run, and says
which monitor states may follow when the run writes. A *contract* gives
a precondition and a postcondition for every call, and what must hold
after every write, and where the process looks at the state or stops. A
process is `Safe` when it keeps to a contract up to its end; since a call
appears in a process as a node, this is a recursion on the process and
asks nothing of the bodies of calls.

The headline theorems `Proc.Safe.run` and `Monitor.Run.always` say that a
safe process stays safe along every run, however deep its calls nest, if
the body of every call meets the contract of the call.
-/

namespace DataBinding

/-! ## Monitors -/

/-- What is followed along a run. `next s w t` allows the state `t` after
`s` when the run writes `w`. -/
structure Monitor where
  State : Type
  world : State → World
  next : State → World → State → Prop
  world_next : ∀ {s w t}, next s w t → world t = w

/-- The states that a run comes through in its first ticks. -/
def Config.worlds {α : Type} : (fuel : Nat) → Config α → List World
  | 0, c => [c.world]
  | fuel + 1, c =>
    match c.tick with
    | none => [c.world]
    | some next => c.world :: next.worlds fuel

namespace Monitor

/-- The configurations that a run comes through, with the states of a
monitor. -/
inductive Run (M : Monitor) {α : Type} (s : M.State) (p : Proc α) : M.State → Proc α → Prop
  | here : Run M s p s p
  | read {t : M.State} {k : World → Proc α} :
      Run M s p t (.read k) → Run M s p t (k (M.world t))
  | write {t u : M.State} {w : World} {k : Proc α} :
      Run M s p t (.write w k) → M.next t w u → Run M s p u k
  | call {t : M.State} {c : Call} {k : c.Answer → Proc α} :
      Run M s p t (.call c k) → Run M s p t (c.body.bind k)

/-- The monitor that shows the state of the run and allows everything. -/
@[reducible] def plain : Monitor where
  State := World
  world := id
  next _ w t := t = w
  world_next h := h

/-- A monitor that allows only some writes. -/
@[reducible] def restrict (M : Monitor) (allowed : M.State → M.State → Prop) : Monitor where
  State := M.State
  world := M.world
  next s w t := M.next s w t ∧ allowed s t
  world_next h := M.world_next h.1

variable {M : Monitor} {α : Type}

/-- A run of the machine can be followed by a monitor that allows every
state that the run comes to. -/
theorem run_of_reaches {s : M.State} {p : Proc α} {c : Config α}
    (hnext : ∀ (t : M.State) {d : Config α}, Reaches ⟨M.world s, p⟩ d → ∃ u, M.next t d.world u)
    (h : Reaches ⟨M.world s, p⟩ c) : ∃ t, M.world t = c.world ∧ M.Run s p t c.proc := by
  induction h with
  | here => exact ⟨s, rfl, .here⟩
  | @step b c hrun htick ih =>
      obtain ⟨t, ht, hfollowed⟩ := ih
      obtain ⟨w, p⟩ := b
      obtain rfl : M.world t = w := ht
      cases p with
      | done result => cases htick
      | halt fault => cases htick
      | read k =>
          obtain rfl := Option.some.inj htick
          exact ⟨t, rfl, .read hfollowed⟩
      | write w' k =>
          obtain rfl := Option.some.inj htick
          obtain ⟨u, hu⟩ := hnext t (.step hrun htick)
          exact ⟨u, M.world_next hu, .write hfollowed hu⟩
      | call c k =>
          obtain rfl := Option.some.inj htick
          exact ⟨t, rfl, .call hfollowed⟩

/-- A run of the machine is a run of the plain monitor. -/
theorem plain_run {a b : Config α} (h : Reaches a b) :
    plain.Run a.world a.proc b.world b.proc := by
  obtain ⟨t, rfl, hrun⟩ := run_of_reaches (M := plain) (fun _ _ _ => ⟨_, rfl⟩) h
  exact hrun

/-- A run under a monitor is a run of the machine. -/
theorem Run.reaches {s t : M.State} {p q : Proc α} (h : M.Run s p t q) :
    Reaches ⟨M.world s, p⟩ ⟨M.world t, q⟩ := by
  induction h with
  | here => exact .here _
  | read _ ih => exact .step ih rfl
  | write _ hnext ih =>
      rw [M.world_next hnext]
      exact .step ih rfl
  | call _ ih => exact .step ih rfl

theorem Run.trans {s t u : M.State} {p q r : Proc α} (h : M.Run s p t q) (h' : M.Run t q u r) :
    M.Run s p u r := by
  induction h' with
  | here => exact h
  | read _ ih => exact .read ih
  | write _ hnext ih => exact .write ih hnext
  | call _ ih => exact .call ih

/-- One tick of the machine under a monitor. -/
theorem run_tick {f : World → M.State} (hf : ∀ w, M.world (f w) = w) {c d : Config α}
    (htick : c.tick = some d) (hnext : M.next (f c.world) d.world (f d.world)) :
    M.Run (f c.world) c.proc (f d.world) d.proc := by
  obtain ⟨w, p⟩ := c
  cases p with
  | done result => simp [Config.tick] at htick
  | halt fault => simp [Config.tick] at htick
  | read k =>
      obtain rfl := Option.some.inj htick
      have hread : M.Run (f w) (.read k) (f w) (k (M.world (f w))) := .read .here
      rwa [hf] at hread
  | write w' k =>
      obtain rfl := Option.some.inj htick
      exact .write .here hnext
  | call call k =>
      obtain rfl := Option.some.inj htick
      exact .call .here

theorem good_of_worlds {good : World → Bool} {fuel : Nat} {c : Config α}
    (h : (c.worlds fuel).all good = true) : good c.world = true := by
  cases fuel with
  | zero => simpa [Config.worlds] using h
  | succ fuel =>
      unfold Config.worlds at h
      split at h
      · simpa using h
      · exact (Bool.and_eq_true_iff.1 h).1

/-- A run all of whose states pass a check is a run under a monitor that
allows writes between such states. -/
theorem run_of_worlds {f : World → M.State} (hf : ∀ w, M.world (f w) = w) {good : World → Bool}
    (hgood : ∀ w w', good w = true → good w' = true → M.next (f w) w' (f w')) (fuel : Nat)
    (c : Config α) (h : (c.worlds fuel).all good = true) :
    M.Run (f c.world) c.proc (f (c.advance fuel).world) (c.advance fuel).proc := by
  induction fuel generalizing c with
  | zero => exact .here
  | succ fuel ih =>
      cases htick : c.tick with
      | none =>
          have hlast : c.advance (fuel + 1) = c := by simp only [Config.advance, htick]
          rw [hlast]
          exact .here
      | some d =>
          have hnext : c.advance (fuel + 1) = d.advance fuel := by
            simp only [Config.advance, htick]
          have hworlds : c.worlds (fuel + 1) = c.world :: d.worlds fuel := by
            simp only [Config.worlds, htick]
          rw [hworlds] at h
          obtain ⟨hfirst, hrest⟩ := Bool.and_eq_true_iff.1 h
          rw [hnext]
          exact (run_tick hf htick (hgood _ _ hfirst (good_of_worlds hrest))).trans (ih d hrest)

/-- What holds wherever the run may come to can be assumed of it. -/
theorem Run.assume {holds : M.State → Prop} {s t : M.State} {p q : Proc α}
    (h : M.Run s p t q) (hholds : ∀ u r, M.Run s p u r → holds u) :
    (M.restrict fun _ u => holds u).Run s p t q := by
  induction h with
  | here => exact .here
  | read _ ih => exact .read ih
  | write hrun hnext ih => exact .write ih ⟨hnext, hholds _ _ (.write hrun hnext)⟩
  | call _ ih => exact .call ih

end Monitor

/-! ## Contracts -/

/-- What the calls of a run need and what they give, what holds after every
write, and what holds where the process looks at the state or halts. -/
structure Contract (M : Monitor) where
  always : M.State → Prop
  looks : M.State → Prop := fun _ => True
  halts : M.State → Prop := looks
  pre : Call → M.State → Prop
  post : (c : Call) → M.State → c.Answer → M.State → Prop

variable {M : Monitor} {α β : Type}

/-- A process keeps to a contract from a state, and ends only as `Q`
says. -/
def Proc.Safe (C : Contract M) (Q : α → M.State → Prop) : Proc α → M.State → Prop
  | .done a, s => Q a s
  | .read k, s => C.looks s ∧ (k (M.world s)).Safe C Q s
  | .write w k, s => ∀ t, M.next s w t → C.always t ∧ k.Safe C Q t
  | .call c k, s => C.pre c s ∧ ∀ a t, C.post c s a t → (k a).Safe C Q t
  | .halt _, s => C.halts s

/-- The body of every call meets its contract, from the state that `hear`
makes of the one in which the call starts. -/
def Contract.MetBy (C : Contract M) (hear : M.State → Call → M.State) : Prop :=
  ∀ c s, C.pre c s → c.body.Safe C (C.post c s) (hear s c)

/-- The body of every call meets its contract. -/
def Contract.Met (C : Contract M) : Prop :=
  C.MetBy fun s _ => s

namespace Proc.Safe

variable {C : Contract M} {Q : α → M.State → Prop} {R : β → M.State → Prop} {s : M.State}

theorem mono {Q' : α → M.State → Prop} {p : Proc α} (h : p.Safe C Q s)
    (hQ : ∀ a t, Q a t → Q' a t) : p.Safe C Q' s := by
  induction p generalizing s with
  | done a => exact hQ a s h
  | read k ih => exact ⟨h.1, ih _ h.2⟩
  | write w k ih => exact fun t ht => ⟨(h t ht).1, ih (h t ht).2⟩
  | call c k ih => exact ⟨h.1, fun a t ht => ih a (h.2 a t ht)⟩
  | halt fault => exact h

theorem bind {p : Proc α} {f : α → Proc β} (h : p.Safe C Q s)
    (hf : ∀ a t, Q a t → (f a).Safe C R t) : (p >>= f).Safe C R s := by
  show (p.bind f).Safe C R s
  induction p generalizing s with
  | done a => exact hf a s h
  | read k ih => exact ⟨h.1, ih _ h.2⟩
  | write w k ih => exact fun t ht => ⟨(h t ht).1, ih (h t ht).2⟩
  | call c k ih => exact ⟨h.1, fun a t ht => ih a (h.2 a t ht)⟩
  | halt fault => exact h

theorem pure {a : α} (h : Q a s) : (Pure.pure a : Proc α).Safe C Q s := h

theorem ask {f : World → α} (h : Q (f (M.world s)) s) (hlooks : C.looks s) :
    (Proc.ask f).Safe C Q s :=
  ⟨hlooks, h⟩

theorem state {Q : World → M.State → Prop} (h : Q (M.world s) s)
    (hlooks : C.looks s) : Proc.state.Safe C Q s :=
  ⟨hlooks, h⟩

theorem modify {f : World → World} {Q : Unit → M.State → Prop}
    (h : ∀ t, M.next s (f (M.world s)) t → C.always t ∧ Q () t)
    (hlooks : C.looks s) : (Proc.modify f).Safe C Q s :=
  ⟨hlooks, h⟩

theorem perform {c : Call} {Q : c.Answer → M.State → Prop} (hpre : C.pre c s)
    (hpost : ∀ a t, C.post c s a t → Q a t) : (Proc.perform c).Safe C Q s :=
  ⟨hpre, hpost⟩

theorem need {fault : Fault} {o : Option α} (h : ∀ a, o = some a → Q a s)
    (hhalts : C.halts s) : (Proc.need fault o).Safe C Q s := by
  cases o with
  | none => exact hhalts
  | some a => exact h a rfl

/-- An invariant of the items that are left carries a process over a
list. -/
theorem each {f : α → Proc Unit} (I : List α → M.State → Prop) :
    ∀ {items : List α} {s : M.State}, I items s →
      (∀ item rest t, I (item :: rest) t → (f item).Safe C (fun _ u => I rest u) t) →
      (Proc.each f items).Safe C (fun _ t => I [] t) s
  | [], _, h, _ => h
  | item :: rest, s, h, hstep =>
      bind (hstep item rest s h) fun _ _ ht => each I ht hstep

/-- The same for a process that stops at the first error. -/
theorem tryEach {f : α → Proc (Except Error Unit)} (I : List α → M.State → Prop)
    (E : Error → M.State → Prop) :
    ∀ {items : List α} {s : M.State}, I items s →
      (∀ item rest t, I (item :: rest) t →
        (f item).Safe C (fun
          | .ok _, u => I rest u
          | .error e, u => E e u) t) →
      (Proc.tryEach f items).Safe C (fun
        | .ok _, t => I [] t
        | .error e, t => E e t) s
  | [], _, h, _ => h
  | item :: rest, s, h, hstep =>
      bind (hstep item rest s h) fun a t ht => by
        cases a with
        | ok _ => exact tryEach I E ht hstep
        | error e => exact ht

/-- The bodies of calls may be any that meet the contract: a safe process
stays safe along every run. -/
theorem run (hC : C.Met) {t : M.State} {p q : Proc α} (h : p.Safe C Q s)
    (hrun : M.Run s p t q) : q.Safe C Q t := by
  induction hrun with
  | here => exact h
  | read _ ih => exact ih.2
  | write _ hnext ih => exact (ih _ hnext).2
  | call _ ih => exact bind (hC _ _ ih.1) ih.2

end Proc.Safe

/-- What a contract promises after every write holds along every run of a
safe process. -/
theorem Monitor.Run.always {C : Contract M} (hC : C.Met) {Q : α → M.State → Prop}
    {s t : M.State} {p q : Proc α} (hrun : M.Run s p t q) (hs : C.always s)
    (h : p.Safe C Q s) : C.always t := by
  induction hrun with
  | here => exact hs
  | read _ ih => exact ih
  | write hpre hnext _ => exact ((h.run hC hpre) _ hnext).1
  | call _ ih => exact ih

end DataBinding
