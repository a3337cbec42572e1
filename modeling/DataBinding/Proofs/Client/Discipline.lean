import DataBinding.Proofs.Client.Growing
import DataBinding.Proofs.Run.Contract

/-!
# Disciplines of client code

Client code is arbitrary, and so are the depth at which it calls the
library and the library calls it. A *discipline* says what holds whenever
client code is running (`rest`), and what a piece of it has done when it
is over, as a relation between the states before and after (`rel`); a
process `Keeps` a discipline when it leads from rest to rest along that
relation.

`Sound` and `Lawful` list what has to be known of a discipline: one
obligation for each thing that the library does about objects, watchers
and evaluations. `Client.Script` proves from it that every script keeps
the discipline.

A discipline may also say which nodes are its `sites`. Every node that a
write is about comes from a name, from the children of another one or from
a reaction; where these are sites (`Surveys`), writes are at sites only,
and what is done at a node is kept where the node is a site (`KeepsAt`).
-/

namespace DataBinding

/-- The node that a reaction is for. -/
def Reaction.node? : Reaction → Option NodeId
  | .client _ _ => none
  | .text node | .markup node | .formValue node | .template node _ _ => some node

/-- What holds while client code runs, and what a piece of it may have
done at its end. `tracks` are the evaluations that a reading may belong
to, `sites` are the nodes that something may be put under, `reacts` is
what holds when a watcher starts to react to a value, `delivers` are the
listeners that may be run; reading a computed property has a contract of
its own. -/
structure Discipline (M : Monitor) where
  always : M.State → Prop
  looks : M.State → Prop := fun _ => True
  rest : M.State → Prop
  rel : M.State → M.State → Prop
  tracks : Option EvaluationId → M.State → Prop
  sites : NodeId → M.State → Prop := fun _ _ => True
  reacts : WatcherId → Value → M.State → Prop := fun _ _ => rest
  delivers : Listener → Prop := fun _ => True
  accessorPre : ObjectId → Option EvaluationId → Expr → M.State → Prop
  accessorPost : ObjectId → Option EvaluationId → Expr → M.State → Value → M.State → Prop

namespace Discipline

variable {M : Monitor} {α β : Type}

/-- Every call but the one of an accessor leads from rest to rest, and a
process halts at rest. -/
@[reducible] def contract (D : Discipline M) : Contract M where
  always := D.always
  looks := D.looks
  halts := D.rest
  pre c s := match c with
    | .accessor data tracker body => D.accessorPre data tracker body s
    | .react x v => D.reacts x v s
    | .deliver listener _ => D.rest s ∧ D.delivers listener
    | _ => D.rest s
  post c s a t := match c, a with
    | .accessor data tracker body, v => D.accessorPost data tracker body s v t
    | _, _ => D.rest t ∧ D.rel s t

/-- A process leads from rest to rest, with `e` as an evaluation that its
readings may belong to. -/
def Keeps (D : Discipline M) (e : Option EvaluationId) (p : Proc α) : Prop :=
  ∀ s, D.rest s → D.tracks e s → p.Safe D.contract (fun _ t => D.rest t ∧ D.rel s t) s

/-- A process leads from rest to rest where a node, if there is one, is a
site. -/
def KeepsAt (D : Discipline M) (site : Option NodeId) (p : Proc α) : Prop :=
  ∀ s, D.rest s → (∀ n, site = some n → D.sites n s) →
    p.Safe D.contract (fun _ t => D.rest t ∧ D.rel s t) s

/-- Wherever nodes come from, they are sites. -/
structure Surveys (D : Discipline M) : Prop where
  kept : ∀ {n s t}, D.rel s t → D.sites n s → D.sites n t
  named : ∀ {name n s}, D.rest s → (M.world s).names.nodes.find? name = some n → D.sites n s
  child : ∀ {p n s}, D.rest s → n ∈ ((M.world s).document.node p).children → D.sites n s
  reacts : ∀ {x n s}, D.rest s → ((M.world s).watcher x).reaction.node? = some n → D.sites n s

/-- What holds of a discipline before anything is said about writing. -/
structure Sound (D : Discipline M) : Prop where
  looks : ∀ {s}, D.rest s → D.looks s := by
    intros; trivial
  refl : ∀ {s}, D.rest s → D.rel s s
  trans : ∀ {s t u}, D.rel s t → D.rel t u → D.rel s u
  tracks_none : ∀ {s}, D.rest s → D.tracks none s
  tracks_rel : ∀ {e s t}, D.rel s t → D.tracks e s → D.tracks e t
  surveys : D.Surveys := by
    constructor <;> intros <;> trivial
  frame : ∀ {s w t}, D.rest s → M.next s w t → (M.world s).Untracked (D.sites · s) w →
    D.always t ∧ D.rest t ∧ D.rel s t
  listens : ∀ {s n l}, D.rest s → l ∈ ((M.world s).document.node n).listeners → D.delivers l := by
    intros; trivial
  read : ∀ e id key, D.Keeps e (readProperty id key e)

/-- What the library does keeps the discipline. -/
structure Lawful (D : Discipline M) : Prop extends Sound D where
  create : ∀ properties, D.Keeps none (createObject properties)
  write : ∀ id key v, D.Keeps none (setProperty id key v)
  observe : ∀ v, D.Keeps none (Proc.modify (·.onGraph (·.observe v)))
  define : ∀ id (entries : List (String × Expr)), D.Keeps none (Proc.modify (·.onGraph fun g =>
    entries.foldl (fun g entry => g.define id entry.1 entry.2) g))
  newDependency : ∀ into, D.Keeps none (runTrackingAction (.newDependency into))
  register : ∀ d s, D.Keeps none (runTrackingAction (.register d s))
  unregister : ∀ d s, D.Keeps none (runTrackingAction (.unregister d s))
  notify : ∀ d, D.Keeps none (notify d)
  tracked : ∀ {α : Type} name (body : Option EvaluationId → Proc α),
    (∀ e, D.Keeps e (body e)) → D.Keeps none (withTracker name body)
  enter : ∀ into s previous, D.Keeps none (runTrackingAction (.enter into s previous))
  finish : ∀ e into, D.Keeps none (runTrackingAction (.finish e into))
  abandon : ∀ e, D.Keeps none (runTrackingAction (.abandon e))
  watch : ∀ into object path body, D.Keeps none (watchNamed into object path body)
  update : ∀ x, D.Keeps none (runWatcherAction (.update x))
  dispose : ∀ x, D.Keeps none (runWatcherAction (.dispose x))
  drop : ∀ x, D.Keeps none (runWatcherAction (.drop x))
  share : ∀ into x, D.Keeps none (runWatcherAction (.share into x))
  viewWatcher : ∀ into view i, D.Keeps none (runBindingAction (.viewWatcher into view i))
  bind : ∀ data path (reaction : Reaction) view,
    D.KeepsAt reaction.node? (bindWatcher data path reaction view)
  placeholder : ∀ node template data view path,
    D.KeepsAt (some node) (bindPlaceholder node template data view path)
  tearDown : ∀ {s w t}, D.rest s → M.next s w t → (M.world s).GivesUp w →
    D.always t ∧ D.rest t ∧ D.rel s t

namespace Keeps

variable {D : Discipline M} {e : Option EvaluationId}

/-- What needs no evaluation can be done in one. -/
theorem untracked (hD : D.Sound) {p : Proc α} (h : D.Keeps none p) : D.Keeps e p :=
  fun s hs _ => h s hs (hD.tracks_none hs)

theorem bind (hD : D.Sound) {p : Proc α} {f : α → Proc β} (h : D.Keeps e p)
    (hf : ∀ a, D.Keeps e (f a)) : D.Keeps e (p >>= f) := fun s hs he =>
  (h s hs he).bind fun a t ht =>
    (hf a t ht.1 (hD.tracks_rel ht.2 he)).mono fun _ _ hu => ⟨hu.1, hD.trans ht.2 hu.2⟩

theorem pure (hD : D.Sound) (a : α) : D.Keeps e (Pure.pure a : Proc α) :=
  fun _ hs _ => ⟨hs, hD.refl hs⟩

theorem halt (fault : Fault) : D.Keeps e (Proc.halt fault : Proc α) :=
  fun _ hs _ => hs

theorem ask (hD : D.Sound) (f : World → α) : D.Keeps e (Proc.ask f) :=
  fun _ hs _ => Proc.Safe.ask ⟨hs, hD.refl hs⟩ (hD.looks hs)

theorem state (hD : D.Sound) : D.Keeps e Proc.state :=
  fun _ hs _ => Proc.Safe.state ⟨hs, hD.refl hs⟩ (hD.looks hs)

theorem need (hD : D.Sound) (fault : Fault) (o : Option α) : D.Keeps e (Proc.need fault o) :=
  fun _ hs _ => Proc.Safe.need (fun _ _ => ⟨hs, hD.refl hs⟩) hs

theorem named (hD : D.Sound) (kind : Names → Keyed α) (name : String) :
    D.Keeps e (DataBinding.named kind name) :=
  bind hD (state hD) fun _ => need hD _ _

/-- A process that begins with a look-up. -/
theorem named_bind (hD : D.Sound) {κ : Type} {kind : Names → Keyed κ} {name : String} {f : κ → Proc α}
    (hf : ∀ s a, D.rest s → (kind (M.world s).names).find? name = some a →
      (f a).Safe D.contract (fun _ t => D.rest t ∧ D.rel s t) s) :
    D.Keeps e (DataBinding.named kind name >>= f) := by
  intro s hs _
  refine Proc.Safe.bind (Q := fun found t =>
    (kind (M.world s).names).find? name = some found ∧ t = s)
    (Proc.Safe.bind (Q := fun found t => found = M.world s ∧ t = s)
      (Proc.Safe.state ⟨rfl, rfl⟩ (hD.looks hs)) ?_) ?_
  · rintro found t ⟨rfl, rfl⟩
    exact Proc.Safe.need (fun a ha => ⟨ha, rfl⟩) hs
  · rintro found t ⟨hfound, rfl⟩
    exact hf t found hs hfound

/-- A write outside the tracking part that is about no site. -/
theorem frame (hD : D.Sound) {f : World → World}
    (hf : ∀ w : World, w.Untracked (fun _ => False) (f w)) : D.Keeps e (Proc.modify f) :=
  fun _ hs _ => Proc.Safe.modify
    (fun _ ht => hD.frame hs ht ((hf _).mono fun _ => False.elim)) (hD.looks hs)

/-- A process that begins by looking at the state. -/
theorem state_bind (hD : D.Sound) {f : World → Proc α} (hf : ∀ s, D.rest s →
      (f (M.world s)).Safe D.contract (fun _ t => D.rest t ∧ D.rel s t) s) :
    D.Keeps e (Proc.state >>= f) := by
  intro s hs _
  refine Proc.Safe.bind (Q := fun w t => w = M.world s ∧ t = s)
    (Proc.Safe.state ⟨rfl, rfl⟩ (hD.looks hs)) ?_
  rintro w t ⟨rfl, rfl⟩
  exact hf t hs

/-- A write outside the tracking part, from a state that is known. -/
theorem frame_bind (hD : D.Sound) {s : M.State} {f : World → World} (hs : D.rest s)
    (hf : (M.world s).Untracked (D.sites · s) (f (M.world s))) {p : Unit → Proc α}
    (hp : ∀ u, D.Keeps none (p u)) :
    (Proc.modify f >>= p).Safe D.contract (fun _ t => D.rest t ∧ D.rel s t) s := by
  refine Proc.Safe.bind (Q := fun _ t => D.rest t ∧ D.rel s t)
    (Proc.Safe.modify (fun t ht => hD.frame hs ht hf) (hD.looks hs)) fun u t ht => ?_
  exact (hp u t ht.1 (hD.tracks_none ht.1)).mono fun _ _ hlast => ⟨hlast.1, hD.trans ht.2 hlast.2⟩

/-- A write that at most disposes of a view. -/
theorem tearDown (hD : D.Lawful) {f : World → World} (hf : ∀ w : World, w.GivesUp (f w)) :
    D.Keeps e (Proc.modify f) :=
  fun _ hs _ => Proc.Safe.modify (fun _ ht => hD.tearDown hs ht (hf _)) (hD.looks hs)

theorem eachOf (hD : D.Sound) {f : α → Proc Unit} :
    ∀ items, (∀ a ∈ items, D.Keeps e (f a)) → D.Keeps e (Proc.each f items)
  | [], _ => pure hD ()
  | item :: items, hf => bind hD (hf item List.mem_cons_self) fun _ =>
      eachOf hD items fun a ha => hf a (List.mem_cons_of_mem _ ha)

theorem each (hD : D.Sound) {f : α → Proc Unit} (hf : ∀ a, D.Keeps e (f a)) (items : List α) :
    D.Keeps e (Proc.each f items) :=
  eachOf hD items fun a _ => hf a

theorem tryEach (hD : D.Sound) {f : α → Proc (Except Error Unit)} (hf : ∀ a, D.Keeps e (f a)) :
    ∀ items, D.Keeps e (Proc.tryEach f items)
  | [] => pure hD _
  | item :: items => bind hD (hf item) fun
      | .ok _ => tryEach hD hf items
      | .error _ => pure hD _

/-! ### Calls -/

theorem react (x : WatcherId) (v : Value) (hx : ∀ s, D.rest s → D.reacts x v s) :
    D.Keeps e (Proc.perform (.react x v)) :=
  fun s hs _ => Proc.Safe.perform (hx s hs) fun _ _ ht => ht

theorem deliver {listener : Listener} (event : Event) (h : D.delivers listener) :
    D.Keeps e (Proc.perform (.deliver listener event)) :=
  fun _ hs _ => Proc.Safe.perform ⟨hs, h⟩ fun _ _ ht => ht

theorem callback (name : String) (v : Value) (body : List Step) :
    D.Keeps e (Proc.perform (.callback name v body)) :=
  fun _ hs _ => Proc.Safe.perform hs fun _ _ ht => ht

theorem invalidated (name : String) (body : List Step) :
    D.Keeps e (Proc.perform (.invalidated name body)) :=
  fun _ hs _ => Proc.Safe.perform hs fun _ _ ht => ht

theorem method (context : Context) (called : Method) (event : Event) :
    D.Keeps e (Proc.perform (.method context called event)) :=
  fun _ hs _ => Proc.Safe.perform hs fun _ _ ht => ht

theorem handler (name : String) (event : Event) (body : List Step) :
    D.Keeps e (Proc.perform (.handler name event body)) :=
  fun _ hs _ => Proc.Safe.perform hs fun _ _ ht => ht

theorem descend (node : NodeId) (context : Context) (convention : Convention)
    (view : ViewId) : D.Keeps e (Proc.perform (.descend node context convention view)) :=
  fun _ hs _ => Proc.Safe.perform hs fun _ _ ht => ht

/-! ### Reading -/

theorem walk (hD : D.Sound) : ∀ (keys : List String) (v : Value), D.Keeps e (walk e v keys)
  | [], _ => pure hD _
  | _ :: keys, .object _ => bind hD (hD.read e _ _) fun u => walk hD keys u
  | _ :: _, .undefined | _ :: _, .null | _ :: _, .bool _ | _ :: _, .number _ | _ :: _, .string _ =>
      pure hD _

theorem resolve (hD : D.Sound) (path : Path) (root : ObjectId) :
    D.Keeps e (path.resolve root e) :=
  walk hD _ _

theorem asking (hD : D.Sound) (data : ObjectId) (a : Asking α) : D.Keeps e (a.run data e) := by
  induction a with
  | answer a => exact pure hD a
  | get path next ih => exact bind hD (resolve hD (Path.parse path) data) ih

theorem renderSegments (hD : D.Sound) (root : ObjectId) :
    ∀ segments, D.Keeps e (renderSegments root e segments)
  | [] => pure hD _
  | .literal _ :: segments => bind hD (renderSegments hD root segments) fun _ => pure hD _
  | .placeholder path :: segments =>
      bind hD (resolve hD path root) fun _ =>
        bind hD (renderSegments hD root segments) fun _ => pure hD _

theorem render (hD : D.Sound) (t : Template) (root : ObjectId) : D.Keeps e (t.render root e) :=
  renderSegments hD root _

theorem walkToLast (hD : D.Sound) :
    ∀ (keys : List String) (id : ObjectId), D.Keeps none (walkToLast id keys)
  | [], _ => pure hD _
  | [_], _ => pure hD _
  | _ :: next :: keys, _ => bind hD (hD.read none _ _) fun u => by
      cases u with
      | object id => exact walkToLast hD (next :: keys) id
      | _ => exact pure hD _

end Keeps

/-! ## At a site -/

namespace KeepsAt

variable {D : Discipline M} {site : Option NodeId}

theorem of_keeps (hD : D.Sound) {p : Proc α} (h : D.Keeps none p) : D.KeepsAt site p :=
  fun s hs _ => h s hs (hD.tracks_none hs)

/-- What needs no site, or has one wherever it is done. -/
theorem keeps {p : Proc α} (h : D.KeepsAt site p)
    (hsite : ∀ n s, D.rest s → site = some n → D.sites n s) : D.Keeps none p :=
  fun s hs _ => h s hs fun n => hsite n s hs

theorem bind (hD : D.Sound) {p : Proc α} {f : α → Proc β} (h : D.KeepsAt site p)
    (hf : ∀ a, D.KeepsAt site (f a)) : D.KeepsAt site (p >>= f) := fun s hs hsite =>
  (h s hs hsite).bind fun a t ht =>
    (hf a t ht.1 fun n hn => hD.surveys.kept ht.2 (hsite n hn)).mono
      fun _ _ hu => ⟨hu.1, hD.trans ht.2 hu.2⟩

/-- A write outside the tracking part that is about the site. -/
theorem frame (hD : D.Sound) {f : World → World}
    (hf : ∀ w : World, w.Untracked (site = some ·) (f w)) : D.KeepsAt site (Proc.modify f) :=
  fun _ hs hsite => Proc.Safe.modify (fun _ ht => hD.frame hs ht ((hf _).mono hsite)) (hD.looks hs)

theorem tryEach (hD : D.Sound) {f : α → Proc (Except Error Unit)}
    (hf : ∀ a, D.KeepsAt site (f a)) : ∀ items, D.KeepsAt site (Proc.tryEach f items)
  | [] => of_keeps hD (.pure hD _)
  | item :: items => bind hD (hf item) fun
      | .ok _ => tryEach hD hf items
      | .error _ => of_keeps hD (.pure hD _)

/-- The same for several sites. -/
theorem tryEach_sites (hD : D.Sound) {f : NodeId → Proc (Except Error Unit)}
    (hf : ∀ n, D.KeepsAt (some n) (f n)) : ∀ {nodes : List NodeId} (s : M.State), D.rest s →
      (∀ n ∈ nodes, D.sites n s) →
      (Proc.tryEach f nodes).Safe D.contract (fun _ t => D.rest t ∧ D.rel s t) s
  | [], _, hs, _ => Proc.Safe.pure ⟨hs, hD.refl hs⟩
  | n :: nodes, s, hs, hsites => by
      have hfirst := hf n s hs fun m hm => Option.some.inj hm ▸ hsites n List.mem_cons_self
      refine hfirst.bind fun result t ht => ?_
      cases result with
      | error error => exact Proc.Safe.pure ht
      | ok _ =>
          have hrest := tryEach_sites hD hf t ht.1 fun m hm =>
            hD.surveys.kept ht.2 (hsites m (List.mem_cons_of_mem _ hm))
          exact hrest.mono fun _ _ hu => ⟨hu.1, hD.trans ht.2 hu.2⟩

/-- A name for a node stands for a site. -/
theorem named_bind (hD : D.Sound) {name : String} {f : NodeId → Proc α}
    (hf : ∀ n, D.KeepsAt (some n) (f n)) :
    D.Keeps none (named (·.nodes) name >>= f) :=
  .named_bind hD fun s n hs hn => hf n s hs fun _ heq =>
    Option.some.inj heq ▸ hD.surveys.named hs hn

/-! ### Reactions -/

theorem reaction (hD : D.Sound) (r : Reaction) (v : Value) : D.KeepsAt r.node? (r.run v) := by
  cases r with
  | client name body => exact of_keeps hD (.callback name v body)
  | text node => exact frame hD fun w => .onDocument (.setText _ rfl)
  | markup node => exact frame hD fun w => .onDocument (.showMarkup _ rfl)
  | formValue node => exact frame hD fun w => .onDocument (.setValue _ node _)
  | template node parsed data =>
      exact bind hD (of_keeps hD (.render hD parsed data)) fun _ =>
        frame hD fun w => .onDocument (.setText _ rfl)

end KeepsAt

/-- A watcher reacts at a site. -/
theorem Sound.reacts {D : Discipline M} (hD : D.Sound) (x : WatcherId) (v : Value) :
    D.Keeps none (Proc.ask (fun w => (w.watcher x).reaction) >>= fun r => r.run v) := by
  intro s hs _
  refine Proc.Safe.bind (Q := fun r t => r = ((M.world s).watcher x).reaction ∧ t = s)
    (Proc.Safe.ask ⟨rfl, rfl⟩ (hD.looks hs)) ?_
  rintro r t ⟨rfl, rfl⟩
  exact KeepsAt.reaction hD _ v t hs fun n hn => hD.surveys.reacts hs hn

end Discipline

end DataBinding
