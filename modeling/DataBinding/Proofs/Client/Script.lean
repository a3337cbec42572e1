import DataBinding.Proofs.Client.Discipline

/-!
# Every script keeps a lawful discipline

From what `Lawful` lists, by the shape of the processes: writing at the
end of a path, handlers, compilations, the actions, and then expressions
and steps by one induction. Whatever a process does that is not listed
leaves the tracking part alone.

The headline theorem `met` says that the body of every call meets the
contract of a lawful discipline, with accessors left open: what is
promised about them differs from one discipline to another.
-/

namespace DataBinding

/-- The evaluation that the readings of client code belong to. -/
def Scope.tracker (scope : Scope) : Option EvaluationId :=
  scope.data?.bind (·.2)

namespace Discipline

variable {M : Monitor} {α β : Type} {D : Discipline M} {e : Option EvaluationId}

/-! ## Writing, events and compilations -/

theorem Lawful.assign (hD : D.Lawful) (path : Path) (root : ObjectId) (v : Value) :
    D.Keeps none (path.assign root v) :=
  .bind hD.toSound (.walkToLast hD.toSound _ _) fun
    | none => .pure hD.toSound _
    | some (id, key) => .bind hD.toSound (hD.write id key v) fun _ => .pure hD.toSound _

theorem Lawful.runHandler (hD : D.Lawful) (handler : Handler) (event : Event) :
    D.Keeps none (handler.run event) := by
  cases handler with
  | client name body => exact .handler name event body
  | writeBack data path =>
      exact .bind hD.toSound (.ask hD.toSound _) fun _ =>
        .bind hD.toSound (hD.assign path data _) fun _ => .pure hD.toSound _
  | method context called => exact .method context called event

theorem Lawful.dispatch (hD : D.Lawful) (node : NodeId) (event : Event) :
    D.Keeps none (dispatch node event) := by
  intro s hs _
  refine Proc.Safe.bind (Q := fun listeners t =>
    listeners = (M.world s).document.listenersFor node event.kind ∧ t = s)
    (Proc.Safe.ask ⟨rfl, rfl⟩ (hD.looks hs)) ?_
  rintro listeners t ⟨rfl, rfl⟩
  refine Keeps.eachOf hD.toSound _ (fun listener hlistener => ?_) t hs (hD.tracks_none hs)
  exact .deliver event (hD.listens hs (List.mem_filter.1 hlistener).1)

theorem Lawful.input (hD : D.Lawful) (node : NodeId) (content : String) :
    D.Keeps none (input node content) :=
  .bind hD.toSound (.frame hD.toSound fun _ => .onDocument (.setValue _ node content)) fun _ =>
    hD.dispatch node _

theorem Lawful.callMethod (hD : D.Lawful) (context : Context) (name : String) (event : Event) :
    D.Keeps none (context.call name event) := by
  unfold Context.call
  split
  · exact .pure hD.toSound _
  · exact .bind hD.toSound (.method context _ event) fun _ => .pure hD.toSound _

theorem Lawful.bindDirective (hD : D.Lawful) (directive : Directive) (node : NodeId)
    (context : Context) (view : ViewId) :
    D.KeepsAt (some node) (directive.bind node context view) := by
  cases directive with
  | text path => exact hD.bind _ _ (.text node) _
  | html path => exact hD.bind _ _ (.markup node) _
  | model path =>
      exact .bind hD.toSound (.frame hD.toSound fun w => .viewListens w _ _ _ _) fun _ =>
        hD.bind _ _ (.formValue node) _
  | on event method =>
      simp only [Directive.bind]
      refine .of_keeps hD.toSound ?_
      split
      · exact .pure hD.toSound _
      · exact .bind hD.toSound (.frame hD.toSound fun w => .viewListens w _ _ _ _) fun _ =>
          .pure hD.toSound _

theorem Lawful.bindAttribute (hD : D.Lawful) (node : NodeId) (context : Context)
    (convention : Convention) (view : ViewId) (pair : String × String) :
    D.KeepsAt (some node) (bindAttribute node context convention view pair) := by
  unfold DataBinding.bindAttribute
  split
  · exact .of_keeps hD.toSound (.pure hD.toSound _)
  · exact .of_keeps hD.toSound (.pure hD.toSound _)
  · exact hD.bindDirective _ _ _ _

theorem Lawful.bindText (hD : D.Lawful) (node : NodeId) (context : Context)
    (convention : Convention) (view : ViewId) :
    D.KeepsAt (some node) (bindText node context convention view) := by
  refine .bind hD.toSound (.of_keeps hD.toSound (.ask hD.toSound _)) fun _ =>
    .bind hD.toSound (.of_keeps hD.toSound (.need hD.toSound _ _)) fun template => ?_
  split
  · refine .bind hD.toSound (.tryEach hD.toSound
      (fun path => hD.placeholder node template context.data view path) _) fun result => ?_
    cases result with
    | error error => exact .of_keeps hD.toSound (.pure hD.toSound _)
    | ok _ =>
        exact .bind hD.toSound (.of_keeps hD.toSound (.render hD.toSound _ _)) fun _ =>
          .bind hD.toSound (.frame hD.toSound fun _ => .onDocument (.setText _ rfl)) fun _ =>
            .of_keeps hD.toSound (.pure hD.toSound _)
  · exact .of_keeps hD.toSound (.pure hD.toSound _)

theorem Lawful.compileChild (hD : D.Lawful) (context : Context) (convention : Convention)
    (view : ViewId) (node : NodeId) :
    D.KeepsAt (some node) (compileChild context convention view node) := by
  refine .bind hD.toSound (.of_keeps hD.toSound (.ask hD.toSound _)) fun n => ?_
  split
  · exact .of_keeps hD.toSound (.pure hD.toSound _)
  · exact hD.bindText _ _ _ _
  · refine .bind hD.toSound (.tryEach hD.toSound
      (fun pair => hD.bindAttribute node context convention view pair) _) fun result => ?_
    cases result with
    | error error => exact .of_keeps hD.toSound (.pure hD.toSound _)
    | ok _ => exact .of_keeps hD.toSound (.descend node context convention view)

/-- The children of a node are sites, and stay ones while each is
compiled. -/
theorem Lawful.compileChildren (hD : D.Lawful) (node : NodeId) (context : Context)
    (convention : Convention) (view : ViewId) :
    D.Keeps none (compileChildren node context convention view) := by
  intro s hs _
  refine Proc.Safe.bind (Q := fun n t => n = (M.world s).document.node node ∧ t = s)
    (Proc.Safe.ask ⟨rfl, rfl⟩ (hD.looks hs)) ?_
  rintro n t ⟨rfl, rfl⟩
  exact KeepsAt.tryEach_sites hD.toSound (fun child => hD.compileChild context convention view child)
    t hs fun child hchild => hD.surveys.child hs hchild

theorem Lawful.disposeView (hD : D.Lawful) (view : ViewId) :
    D.Keeps e (Proc.modify (·.disposeView view)) :=
  .tearDown hD fun w => .disposeView w view

theorem Lawful.compile (hD : D.Lawful) (root : NodeId) (context : Context)
    (convention : Convention) : D.KeepsAt (some root) (compile root context convention) := by
  refine .bind hD.toSound (.of_keeps hD.toSound (.state hD.toSound)) fun w => ?_
  split
  · exact .of_keeps hD.toSound (.pure hD.toSound _)
  · refine .bind hD.toSound (.frame hD.toSound fun w => .openCompilation w _) fun _ =>
      .bind hD.toSound (.of_keeps hD.toSound (hD.compileChildren _ _ _ _)) fun result =>
        .bind hD.toSound (.frame hD.toSound fun _ => .onDocument (.append _ rfl)) fun _ =>
          .of_keeps hD.toSound ?_
    cases result with
    | ok _ => exact .pure hD.toSound _
    | error error =>
        exact .bind hD.toSound (hD.disposeView _) fun _ => .pure hD.toSound _

theorem Lawful.mount (hD : D.Lawful) (element : NodeId) (data : ObjectId)
    (computed : List (String × Expr)) (methods : List (String × Method))
    (convention : Convention) :
    D.KeepsAt (some element) (mount element data computed methods convention) := by
  refine .bind hD.toSound (.of_keeps hD.toSound (hD.observe _)) fun _ =>
    .bind hD.toSound (.of_keeps hD.toSound (hD.define data computed)) fun _ =>
      .bind hD.toSound (hD.compile _ _ _) fun result => .of_keeps hD.toSound ?_
  cases result with
  | error error => exact .pure hD.toSound _
  | ok view =>
      exact .bind hD.toSound (.ask hD.toSound _) fun _ =>
        .bind hD.toSound (.frame hD.toSound fun w => .addModel w _ _ _) fun _ =>
          .pure hD.toSound _

/-! ## Actions -/

theorem Lawful.dumpRows (hD : D.Lawful) (id : ObjectId) :
    ∀ keys, D.Keeps none (dumpRows id keys)
  | [] => .pure hD.toSound _
  | _ :: keys =>
      .bind hD.toSound (hD.read none _ _) fun _ =>
        .bind hD.toSound (.ask hD.toSound _) fun _ =>
          .bind hD.toSound (Lawful.dumpRows hD id keys) fun _ => .pure hD.toSound _

theorem Lawful.objectAction (hD : D.Lawful) (action : ObjectAction) :
    D.Keeps none (runObjectAction action) := by
  cases action with
  | get object key tracker =>
      exact .bind hD.toSound (.named hD.toSound _ _) fun id => hD.tracked tracker _ fun e =>
        .bind hD.toSound (hD.read e _ _) fun _ => .ask hD.toSound _
  | fetch into object key =>
      refine .bind hD.toSound (.named hD.toSound _ _) fun id =>
        .bind hD.toSound (hD.read none _ _) fun v => ?_
      split
      · exact .bind hD.toSound (.frame hD.toSound fun w => .onNames w rfl rfl rfl) fun _ =>
          .pure hD.toSound _
      · exact .pure hD.toSound _
  | keys object => exact .bind hD.toSound (.named hD.toSound _ _) fun _ => .ask hD.toSound _
  | has object key => exact .bind hD.toSound (.named hD.toSound _ _) fun _ => .ask hD.toSound _
  | same object other =>
      exact .bind hD.toSound (.named hD.toSound _ _) fun _ =>
        .bind hD.toSound (.named hD.toSound _ _) fun _ => .pure hD.toSound _
  | reactive object key =>
      exact .bind hD.toSound (.named hD.toSound _ _) fun _ => .ask hD.toSound _
  | dump object =>
      exact .bind hD.toSound (.named hD.toSound _ _) fun _ =>
        .bind hD.toSound (.ask hD.toSound _) fun _ =>
          .bind hD.toSound (hD.dumpRows _ _) fun _ => .pure hD.toSound _
  | resolve object path tracker =>
      exact .bind hD.toSound (.named hD.toSound _ _) fun id => hD.tracked tracker _ fun e =>
        .bind hD.toSound (.resolve hD.toSound _ _) fun _ => .ask hD.toSound _
  | render object text convention tracker =>
      exact .bind hD.toSound (.named hD.toSound _ _) fun id =>
        .bind hD.toSound (.need hD.toSound _ _) fun template => hD.tracked tracker _ fun e =>
          .bind hD.toSound (.render hD.toSound _ _) fun _ => .pure hD.toSound _
  | path source => exact .pure hD.toSound _

theorem Lawful.trackingAction (hD : D.Lawful) (action : TrackingAction) :
    D.Keeps none (runTrackingAction action) := by
  cases action with
  | dropSubscriber subscriber =>
      exact .bind hD.toSound (.named hD.toSound _ _) fun _ =>
        .bind hD.toSound (.frame hD.toSound fun w => .dropClient w _) fun _ => .pure hD.toSound _
  | newDependency into => exact hD.newDependency into
  | dependencyOf into object key =>
      refine .bind hD.toSound (.named hD.toSound _ _) fun _ =>
        .bind hD.toSound (.ask hD.toSound _) fun found => ?_
      cases found with
      | none => exact .pure hD.toSound _
      | some d =>
          exact .bind hD.toSound (.frame hD.toSound fun w => .onNames w rfl rfl rfl) fun _ =>
            .ask hD.toSound _
  | register dependency subscriber => exact hD.register dependency subscriber
  | unregister dependency subscriber => exact hD.unregister dependency subscriber
  | notify dependency =>
      exact .bind hD.toSound (.named hD.toSound _ _) fun d =>
        .bind hD.toSound (hD.notify d) fun _ => .ask hD.toSound _
  | count dependency => exact .bind hD.toSound (.named hD.toSound _ _) fun _ => .ask hD.toSound _
  | sameDependency dependency other =>
      exact .bind hD.toSound (.named hD.toSound _ _) fun _ =>
        .bind hD.toSound (.named hD.toSound _ _) fun _ => .pure hD.toSound _
  | evaluating => exact .ask hD.toSound _
  | enter into subscriber previous => exact hD.enter into subscriber previous
  | finish evaluation into => exact hD.finish evaluation into
  | abandon evaluation => exact hD.abandon evaluation

theorem Lawful.watcherAction (hD : D.Lawful) (action : WatcherAction) :
    D.Keeps none (runWatcherAction action) := by
  cases action with
  | info watcher => exact .bind hD.toSound (.named hD.toSound _ _) fun _ => .ask hD.toSound _
  | update watcher => exact hD.update watcher
  | dispose watcher => exact hD.dispose watcher
  | drop watcher => exact hD.drop watcher
  | share into watcher => exact hD.share into watcher

theorem Sound.addNamedNode (hD : D.Sound) (into : String) {node : Node}
    (hparent : node.parent = none) (hchildren : node.children = [])
    (hlisteners : node.listeners = []) : D.Keeps none (addNamedNode into node) := by
  intro s hs _
  refine Proc.Safe.bind (Q := fun n t => n = (M.world s).document.nextNode ∧ t = s)
    (Proc.Safe.ask ⟨rfl, rfl⟩ (hD.looks hs)) ?_
  rintro n t ⟨rfl, rfl⟩
  have hadded : (M.world t).Untracked (D.sites · t) ((M.world t).onDocument (·.add node)) :=
    .onDocument (.add _ hparent hchildren hlisteners)
  have hlt : (M.world t).document.nextNode < ((M.world t).document.add node).nodes.length := by
    rw [Document.length_add]
    exact Nat.lt_succ_self _
  exact Keeps.frame_bind hD hs (hadded.nameNext into hlt) fun _ => .ask hD _

theorem Sound.nameAndShow (hD : D.Sound) (into : String) (found : Option NodeId) :
    D.KeepsAt found (nameAndShow into found) := by
  cases found with
  | none => exact .of_keeps hD (.pure hD _)
  | some n =>
      exact .bind hD (.frame hD fun w => .nameNode w _ rfl) fun _ => .of_keeps hD (.ask hD _)

/-- A node that is found from another one is a site. -/
theorem Sound.nameFound (hD : D.Sound) (into : String) {n : NodeId}
    {find : Document → Option NodeId}
    (hfind : ∀ d m, find d = some m → m = n ∨ ∃ p, m ∈ (d.node p).children) :
    D.KeepsAt (some n) (Proc.ask (fun w => find w.document) >>= DataBinding.nameAndShow into) := by
  intro s hs hsite
  refine Proc.Safe.bind (Q := fun found t => found = find (M.world s).document ∧ t = s)
    (Proc.Safe.ask ⟨rfl, rfl⟩ (hD.looks hs)) ?_
  rintro found t ⟨rfl, rfl⟩
  refine hD.nameAndShow into _ t hs fun m hm => ?_
  rcases hfind _ m hm with rfl | ⟨p, hchild⟩
  · exact hsite m rfl
  · exact hD.surveys.child hs hchild

/-- Changing the document at no site and then asking about it. -/
theorem Sound.changeDocument (hD : D.Sound) {change : Document → Document}
    (hchange : ∀ d, Document.Edits (fun _ => False) d (change d)) {p : Proc α}
    (hp : D.Keeps e p) : D.Keeps e (Proc.modify (·.onDocument change) >>= fun _ => p) :=
  .bind hD (.frame hD fun w => .onDocument (hchange w.document)) fun _ => hp

/-- The same at a site. -/
theorem Sound.changeAt (hD : D.Sound) {site : Option NodeId} {change : Document → Document}
    (hchange : ∀ d, Document.Edits (site = some ·) d (change d)) {p : Proc α}
    (hp : D.Keeps none p) : D.KeepsAt site (Proc.modify (·.onDocument change) >>= fun _ => p) :=
  .bind hD (.frame hD fun w => .onDocument (hchange w.document)) fun _ => .of_keeps hD hp

/-- Asking about a named node. -/
theorem Sound.askNamed (hD : D.Sound) (kind : Names → Keyed β) (name : String)
    (f : β → World → α) : D.Keeps e (named kind name >>= fun id => Proc.ask (f id)) :=
  .bind hD (.named hD _ _) fun _ => .ask hD _

theorem Lawful.nodeAction (hD : D.Lawful) (action : NodeAction) :
    D.Keeps none (runNodeAction action) := by
  cases action with
  | element into tag => exact hD.addNamedNode _ rfl rfl rfl
  | text into content => exact hD.addNamedNode _ rfl rfl rfl
  | fragment into => exact hD.addNamedNode _ rfl rfl rfl
  | parse into markup =>
      refine .state_bind hD.toSound fun s hs => ?_
      split
      · exact ⟨hs, hD.refl hs⟩
      · rename_i document hparse
        have hparsed : (M.world s).Untracked (D.sites · s)
            ((M.world s).onDocument fun _ => document) := .onDocument (.parse hparse)
        exact Keeps.frame_bind hD.toSound hs
          (hparsed.nameNext into (Document.lt_of_parse hparse)) fun _ => .ask hD.toSound _
  | child into node indices =>
      exact KeepsAt.named_bind hD.toSound fun n =>
        hD.nameFound into fun _ _ => Document.child_of_descend?
  | firstChild into node =>
      exact KeepsAt.named_bind hD.toSound fun n =>
        hD.nameFound into fun _ _ hm => .inr ⟨n, List.mem_of_mem_head? hm⟩
  | parent node =>
      refine .bind hD.toSound (.named hD.toSound _ _) fun _ =>
        .bind hD.toSound (.ask hD.toSound _) fun above => ?_
      cases above with
      | none => exact .pure hD.toSound _
      | some id => exact .ask hD.toSound _
  | tree node => exact hD.askNamed _ _ _
  | kind node => exact hD.askNamed _ _ _
  | same node other =>
      exact .bind hD.toSound (.named hD.toSound _ _) fun _ =>
        .bind hD.toSound (.named hD.toSound _ _) fun _ => .pure hD.toSound _
  | append node child =>
      exact KeepsAt.named_bind hD.toSound fun _ =>
        .bind hD.toSound (.of_keeps hD.toSound (.named hD.toSound _ _)) fun _ =>
          hD.changeAt (fun _ => .append _ rfl) (.ask hD.toSound _)
  | remove node child =>
      exact .bind hD.toSound (.named hD.toSound _ _) fun _ =>
        .bind hD.toSound (.named hD.toSound _ _) fun _ =>
          .bind hD.toSound (.ask hD.toSound _) fun _ =>
            hD.changeDocument (fun _ => .remove _ _) (.pure hD.toSound _)
  | takeChildren node =>
      exact .bind hD.toSound (.named hD.toSound _ _) fun _ =>
        .bind hD.toSound (.ask hD.toSound _) fun _ =>
          hD.changeDocument (fun _ => .takeChildren _) (.ask hD.toSound _)
  | getAttribute node key =>
      refine .bind hD.toSound (.named hD.toSound _ _) fun _ =>
        .bind hD.toSound (.ask hD.toSound _) fun content => ?_
      cases content with
      | none => exact .pure hD.toSound _
      | some content => exact .pure hD.toSound _
  | setAttribute node key content =>
      exact .bind hD.toSound (.named hD.toSound _ _) fun _ =>
        hD.changeDocument (fun _ => .setAttribute _ _ key content) (.ask hD.toSound _)
  | textContent node => exact hD.askNamed _ _ _
  | innerMarkup node => exact hD.askNamed _ _ _
  | outerMarkup node => exact hD.askNamed _ _ _
  | value node => exact hD.askNamed _ _ _
  | listeners node => exact hD.askNamed _ _ _
  | setText node content =>
      exact KeepsAt.named_bind hD.toSound fun _ =>
        hD.changeAt (fun _ => .setText content rfl) (.ask hD.toSound _)
  | setMarkup node markup =>
      refine KeepsAt.named_bind hD.toSound fun n s hs hsite => ?_
      refine Proc.Safe.bind (Q := fun w t => w = M.world s ∧ t = s)
        (Proc.Safe.state ⟨rfl, rfl⟩ (hD.looks hs)) ?_
      rintro w t ⟨rfl, rfl⟩
      split
      · exact ⟨hs, hD.refl hs⟩
      · rename_i document hmarkup
        have hset : (M.world t).Untracked (D.sites · t)
            ((M.world t).onDocument fun _ => document) :=
          .onDocument (.setMarkup (hsite n rfl) hmarkup)
        exact Keeps.frame_bind hD.toSound hs hset fun _ => .ask hD.toSound _
  | setValue node content =>
      exact .bind hD.toSound (.named hD.toSound _ _) fun _ =>
        hD.changeDocument (fun _ => .setValue _ _ content) (.pure hD.toSound _)
  | unlisten node listener =>
      exact .bind hD.toSound (.named hD.toSound _ _) fun _ =>
        .bind hD.toSound (.named hD.toSound _ _) fun _ =>
          .bind hD.toSound (.ask hD.toSound _) fun _ =>
            hD.changeDocument (fun _ => .unlisten _ _ _) (.pure hD.toSound _)
  | dispatch node event target =>
      exact .bind hD.toSound (.named hD.toSound _ _) fun _ =>
        .bind hD.toSound (.named hD.toSound _ _) fun _ =>
          .bind hD.toSound (hD.dispatch _ _) fun _ => .pure hD.toSound _
  | input node content =>
      exact .bind hD.toSound (.named hD.toSound _ _) fun _ =>
        .bind hD.toSound (hD.input _ _) fun _ => .pure hD.toSound _

theorem Lawful.withModel (hD : D.Lawful) (name : String) {body : Context → Proc α}
    (hbody : ∀ context, D.Keeps e (body context)) : D.Keeps e (withModel name body) :=
  .bind hD.toSound (.named hD.toSound _ _) fun _ =>
    .bind hD.toSound (.ask hD.toSound _) fun _ =>
      .bind hD.toSound (.frame hD.toSound fun w => .onModel w _ _) fun _ =>
        .bind hD.toSound (hbody _) fun _ =>
          .bind hD.toSound (.tearDown hD fun w => .releaseModel w _) fun _ =>
            .pure hD.toSound _

theorem Sound.replyCall (hD : D.Sound) (result : Except Error Unit) :
    D.Keeps e (replyCall result) := by
  cases result with
  | ok _ => exact .pure hD _
  | error error => exact .pure hD _

theorem Sound.inspectNamed (hD : D.Sound) (what : Inspectable) (name : String) :
    D.Keeps e (inspectNamed what name) := by
  cases what <;> exact hD.askNamed _ _ _

theorem Lawful.bindingAction (hD : D.Lawful) (action : BindingAction) :
    D.Keeps none (runBindingAction action) := by
  cases action with
  | hasMethod context method =>
      exact .bind hD.toSound (.named hD.toSound _ _) fun _ => .pure hD.toSound _
  | read context path =>
      exact .bind hD.toSound (.named hD.toSound _ _) fun _ =>
        .bind hD.toSound (.resolve hD.toSound _ _) fun _ => .ask hD.toSound _
  | call context method event target =>
      exact .bind hD.toSound (.named hD.toSound _ _) fun _ =>
        .bind hD.toSound (.named hD.toSound _ _) fun _ =>
          .bind hD.toSound (hD.callMethod _ _ _) fun _ => hD.replyCall _
  | compile into node context convention =>
      refine KeepsAt.named_bind hD.toSound fun _ =>
        .bind hD.toSound (.of_keeps hD.toSound (.named hD.toSound _ _)) fun _ =>
          .bind hD.toSound (hD.compile _ _ _) fun result => .of_keeps hD.toSound ?_
      cases result with
      | error error => exact .pure hD.toSound _
      | ok view =>
          exact .bind hD.toSound (.tearDown hD fun w => .nameView w _ _) fun _ =>
            .ask hD.toSound _
  | view view => exact hD.askNamed _ _ _
  | viewWatcher into view index => exact hD.viewWatcher into view index
  | disposeView view =>
      exact .bind hD.toSound (.named hD.toSound _ _) fun _ =>
        .bind hD.toSound (hD.disposeView _) fun _ => .pure hD.toSound _
  | dropView view =>
      exact .bind hD.toSound (.named hD.toSound _ _) fun _ =>
        .bind hD.toSound (.tearDown hD fun w => .dropView w _) fun _ => .pure hD.toSound _
  | model model => exact hD.askNamed _ _ _
  | readModel model path =>
      unfold runBindingAction
      exact hD.withModel model fun _ =>
        .bind hD.toSound (.resolve hD.toSound _ _) fun _ => .ask hD.toSound _
  | callModel model method event target =>
      exact .bind hD.toSound (.named hD.toSound _ _) fun _ => hD.withModel model fun _ =>
        .bind hD.toSound (hD.callMethod _ _ _) fun _ => hD.replyCall _
  | unmount model =>
      exact .bind hD.toSound (.named hD.toSound _ _) fun _ =>
        .bind hD.toSound (.tearDown hD fun w => .dropModel w _) fun _ => .pure hD.toSound _
  | dropModel model =>
      exact .bind hD.toSound (.named hD.toSound _ _) fun _ =>
        .bind hD.toSound (.tearDown hD fun w => .dropModel w _) fun _ => .pure hD.toSound _
  | inspect what name =>
      exact .bind hD.toSound (hD.inspectNamed _ _) fun _ => .pure hD.toSound _

/-! ## Expressions and steps -/

theorem Lawful.listenNamed (hD : D.Lawful) (into node event : String) (body : List Step) :
    D.Keeps none (listenNamed into node event body) :=
  .bind hD.toSound (.named hD.toSound _ _) fun _ =>
    .bind hD.toSound (.ask hD.toSound _) fun _ =>
      .bind hD.toSound (.frame hD.toSound fun w =>
        (World.Untracked.onDocument (w := w) (.listen _ _ event _)).trans
          (.onNames _ rfl rfl rfl) rfl) fun _ => .ask hD.toSound _

theorem Lawful.mountNamed (hD : D.Lawful) (into node object : String)
    (computed : List (String × Expr)) (methods : List (String × Method))
    (convention : Convention) :
    D.Keeps none (mountNamed into node object computed methods convention) := by
  refine KeepsAt.named_bind hD.toSound fun _ =>
    .bind hD.toSound (.of_keeps hD.toSound (.named hD.toSound _ _)) fun _ =>
      .bind hD.toSound (hD.mount _ _ _ _ _) fun result => .of_keeps hD.toSound ?_
  cases result with
  | error error => exact .pure hD.toSound _
  | ok id =>
      exact .bind hD.toSound (.tearDown hD fun w => .nameModel w _ _) fun _ =>
        .bind hD.toSound (.ask hD.toSound _) fun _ => .ask hD.toSound _

theorem Sound.given (hD : D.Sound) (scope : Scope) : D.Keeps e scope.given := by
  cases scope with
  | outside => exact .halt _
  | accessor data tracker => exact .halt _
  | callback v => exact .pure hD v
  | method context event => exact .ask hD _
  | handler event => exact .ask hD _

theorem Sound.logStep (hD : D.Sound) (step : Step) (reply : Reply) :
    D.Keeps e (logStep step reply) := by
  unfold DataBinding.logStep
  split
  · exact .pure hD _
  · exact .frame hD fun w => .note w _

/-- The data of a scope, with the evaluation that readings from it belong to. -/
theorem Keeps.data (scope : Scope) {f : ObjectId × Option EvaluationId → Proc α}
    (hf : ∀ source, source.2 = scope.tracker → D.Keeps scope.tracker (f source)) :
    D.Keeps scope.tracker (Proc.need .misplaced scope.data? >>= f) := by
  cases hdata : scope.data? with
  | none => exact .halt _
  | some source => exact hf source (by simp [Scope.tracker, hdata])

mutual

theorem Lawful.eval (hD : D.Lawful) (scope : Scope) :
    ∀ expr, D.Keeps scope.tracker (Expr.eval scope expr)
  | .const v => .pure hD.toSound v
  | .object name => .bind hD.toSound (.named hD.toSound _ _) fun _ => .pure hD.toSound _
  | .fresh properties name =>
      .bind hD.toSound (Lawful.evalProperties hD scope properties) fun values =>
        .bind hD.toSound (.untracked hD.toSound (hD.create values)) fun id =>
          match name with
          | none => .pure hD.toSound _
          | some name =>
              .bind hD.toSound (.frame hD.toSound fun w => .onNames w rfl rfl rfl) fun _ => .pure hD.toSound _
  | .lookup object path =>
      .bind hD.toSound (.named hD.toSound _ _) fun _ =>
        .untracked hD.toSound (.resolve hD.toSound _ _)
  | .concat parts =>
      .bind hD.toSound (Lawful.evalAll hD scope parts) fun _ => .pure hD.toSound _
  | .sum parts =>
      .bind hD.toSound (Lawful.evalAll hD scope parts) fun _ => .pure hD.toSound _
  | .same a b =>
      .bind hD.toSound (Lawful.eval hD scope a) fun _ =>
        .bind hD.toSound (Lawful.eval hD scope b) fun _ => .pure hD.toSound _
  | .less a b =>
      .bind hD.toSound (Lawful.eval hD scope a) fun _ =>
        .bind hD.toSound (Lawful.eval hD scope b) fun _ => .pure hD.toSound _
  | .choose condition yes no =>
      .bind hD.toSound (Lawful.eval hD scope condition) fun c => by
        split
        · exact Lawful.eval hD scope yes
        · exact Lawful.eval hD scope no
  | .after steps result =>
      .bind hD.toSound (Lawful.runAll hD scope steps) fun _ => Lawful.eval hD scope result
  | .get path => Keeps.data scope fun source hsource => by
      rw [← hsource]
      exact .resolve hD.toSound _ _
  | .data => Keeps.data scope fun _ _ => .pure hD.toSound _
  | .asking questions => Keeps.data scope fun source hsource => by
      rw [← hsource]
      exact .asking hD.toSound _ _
  | .given => hD.given scope
termination_by structural expr => expr

theorem Lawful.evalAll (hD : D.Lawful) (scope : Scope) :
    ∀ exprs, D.Keeps scope.tracker (Expr.evalAll scope exprs)
  | [] => .pure hD.toSound _
  | expr :: exprs =>
      .bind hD.toSound (Lawful.eval hD scope expr) fun _ =>
        .bind hD.toSound (Lawful.evalAll hD scope exprs) fun _ => .pure hD.toSound _
termination_by structural exprs => exprs

theorem Lawful.evalProperties (hD : D.Lawful) (scope : Scope) :
    ∀ entries, D.Keeps scope.tracker (Expr.evalProperties scope entries)
  | [] => .pure hD.toSound _
  | (_, expr) :: entries =>
      .bind hD.toSound (Lawful.eval hD scope expr) fun _ =>
        .bind hD.toSound (Lawful.evalProperties hD scope entries) fun _ => .pure hD.toSound _
termination_by structural entries => entries

theorem Lawful.step (hD : D.Lawful) (scope : Scope) :
    ∀ step, D.Keeps scope.tracker (Step.run scope step)
  | .note text => .bind hD.toSound (.frame hD.toSound fun w => .note w _) fun _ =>
      .pure hD.toSound _
  | .newObject into properties =>
      .bind hD.toSound (Lawful.evalProperties hD scope properties) fun values =>
        .bind hD.toSound (.untracked hD.toSound (hD.create values)) fun _ =>
          .bind hD.toSound (.frame hD.toSound fun w => .onNames w rfl rfl rfl) fun _ =>
            .ask hD.toSound _
  | .set object key value =>
      .bind hD.toSound (.named hD.toSound _ _) fun id =>
        .bind hD.toSound (Lawful.eval hD scope value) fun v =>
          .bind hD.toSound (.untracked hD.toSound (hD.write id key v)) fun _ =>
            .pure hD.toSound _
  | .observe value =>
      .bind hD.toSound (Lawful.eval hD scope value) fun v =>
        .bind hD.toSound (.untracked hD.toSound (hD.observe v)) fun _ => .pure hD.toSound _
  | .define object key accessor =>
      .bind hD.toSound (.named hD.toSound _ _) fun id =>
        .bind hD.toSound (.untracked hD.toSound (hD.define id [(key, accessor)])) fun _ =>
          .pure hD.toSound _
  | .assign object path value =>
      .bind hD.toSound (.named hD.toSound _ _) fun id =>
        .bind hD.toSound (Lawful.eval hD scope value) fun v =>
          .bind hD.toSound (.untracked hD.toSound (hD.assign _ id v)) fun _ =>
            .pure hD.toSound _
  | .assignSelf path value => Keeps.data scope fun _ _ =>
      .bind hD.toSound (Lawful.eval hD scope value) fun v =>
        .bind hD.toSound (.untracked hD.toSound (hD.assign _ _ v)) fun _ => .pure hD.toSound _
  | .subscriber into body =>
      .bind hD.toSound (.ask hD.toSound _) fun _ =>
        .bind hD.toSound (.frame hD.toSound fun w => .newClient w _ _ _) fun _ =>
          .pure hD.toSound _
  | .watch into object path body => .untracked hD.toSound (hD.watch into object path body)
  | .listen into node event body =>
      .untracked hD.toSound (hD.listenNamed into node event body)
  | .context into object methods =>
      .bind hD.toSound (.named hD.toSound _ _) fun _ =>
        .bind hD.toSound (.frame hD.toSound fun w => .onNames w rfl rfl rfl) fun _ =>
          .pure hD.toSound _
  | .extend into context method label body =>
      .bind hD.toSound (.named hD.toSound _ _) fun _ =>
        .bind hD.toSound (.frame hD.toSound fun w => .onNames w rfl rfl rfl) fun _ =>
          .pure hD.toSound _
  | .assignContext context path value =>
      .bind hD.toSound (.named hD.toSound _ _) fun _ =>
        .bind hD.toSound (Lawful.eval hD scope value) fun v =>
          .bind hD.toSound (.untracked hD.toSound (hD.assign _ _ v)) fun _ =>
            .pure hD.toSound _
  | .mount into node object computed methods convention =>
      .untracked hD.toSound (hD.mountNamed into node object computed _ convention)
  | .assignModel model path value => by
      unfold Step.run
      exact hD.withModel model fun _ =>
        .bind hD.toSound (Lawful.eval hD scope value) fun v =>
          .bind hD.toSound (.untracked hD.toSound (hD.assign _ _ v)) fun _ => .pure hD.toSound _
  | .object action => .untracked hD.toSound (hD.objectAction action)
  | .tracking action => .untracked hD.toSound (hD.trackingAction action)
  | .watcher action => .untracked hD.toSound (hD.watcherAction action)
  | .node action => .untracked hD.toSound (hD.nodeAction action)
  | .binding action => .untracked hD.toSound (hD.bindingAction action)
termination_by structural step => step

theorem Lawful.runAll (hD : D.Lawful) (scope : Scope) :
    ∀ steps, D.Keeps scope.tracker (Step.runAll scope steps)
  | [] => .pure hD.toSound _
  | step :: steps =>
      .bind hD.toSound (Lawful.step hD scope step) fun reply =>
        .bind hD.toSound (hD.logStep step reply) fun _ => Lawful.runAll hD scope steps
termination_by structural steps => steps

end

/-! ## Calls -/

/-- Client code that is told something, after an entry in the log. -/
theorem Lawful.logged (hD : D.Lawful) {f : World → World}
    (hf : ∀ w : World, w.Untracked (fun _ => False) (f w)) (scope : Scope) (hscope : scope.tracker = none)
    (body : List Step) :
    D.Keeps none (Proc.modify f >>= fun _ => Step.runAll scope body) :=
  .bind hD.toSound (.frame hD.toSound hf) fun _ => hscope ▸ hD.runAll scope body

/-- Client code can go on from the state that `hear` makes of one in which
a call starts. -/
structure Hears (D : Discipline M) (hear : M.State → Call → M.State) : Prop where
  rest : ∀ {s c}, (∀ x v, c ≠ .react x v) → D.rest s →
    D.rest (hear s c) ∧ ∀ t, D.rel (hear s c) t → D.rel s t
  reacts : ∀ {s x v}, D.reacts x v s →
    D.rest (hear s (.react x v)) ∧ ∀ t, D.rel (hear s (.react x v)) t → D.rel s t

/-- The bodies of all calls meet the contract of a lawful discipline, if
those of accessors do. -/
theorem metBy (hD : D.Lawful) {hear : M.State → Call → M.State} (hhear : D.Hears hear)
    (haccessor : ∀ data tracker body s, D.accessorPre data tracker body s →
      (body.eval (.accessor data tracker)).Safe D.contract
        (D.accessorPost data tracker body s) (hear s (.accessor data tracker body))) :
    D.contract.MetBy hear := by
  -- what is kept from the state that is heard of is kept from the one before
  have hkept : ∀ {α : Type} {c : Call} {p : Proc α} {s : M.State}, D.Keeps none p →
      (D.rest (hear s c) ∧ ∀ t, D.rel (hear s c) t → D.rel s t) →
      p.Safe D.contract (fun _ t => D.rest t ∧ D.rel s t) (hear s c) := fun hp hc =>
    (hp _ hc.1 (hD.tracks_none hc.1)).mono fun _ t ht => ⟨ht.1, hc.2 t ht.2⟩
  intro c s hs
  cases c with
  | accessor data tracker body => exact haccessor data tracker body s hs
  | react watcher v =>
      exact hkept (hD.reacts watcher v) (hhear.reacts hs)
  | deliver listener event => exact hkept (hD.runHandler _ _) (hhear.rest nofun hs.1)
  | callback name v body =>
      exact hkept (hD.logged (fun w => .note w _) (.callback v) rfl body) (hhear.rest nofun hs)
  | invalidated name body =>
      exact hkept (hD.logged (fun w => .note w _) .outside rfl body) (hhear.rest nofun hs)
  | method context called event =>
      exact hkept (hD.logged (fun w => .noteEvent w _ _) (.method context event) rfl called.body)
        (hhear.rest nofun hs)
  | handler name event body =>
      exact hkept (hD.logged (fun w => .noteEvent w _ _) (.handler event) rfl body)
        (hhear.rest nofun hs)
  | descend node context convention view =>
      exact hkept (hD.compileChildren _ _ _ _) (hhear.rest nofun hs)

/-- The same for runs in which nothing is made of a call. -/
theorem met (hD : D.Lawful) (haccessor : ∀ data tracker body s,
      D.accessorPre data tracker body s →
      (body.eval (.accessor data tracker)).Safe D.contract
        (D.accessorPost data tracker body s) s)
    (hreacts : ∀ {x v s}, D.reacts x v s → D.rest s := by exact fun h => h) : D.contract.Met :=
  metBy hD ⟨fun _ hs => ⟨hs, fun _ ht => ht⟩, fun hs => ⟨hreacts hs, fun _ ht => ht⟩⟩ haccessor

end Discipline

end DataBinding
