import DataBinding.Path
import DataBinding.Proofs.Store.Properties

/-!
# What a reading yields

Reading a property, walking a path and evaluating an accessor, as one
relation over the object graph: `Yields` gives the value and the cells
that were looked at on the way, in order. It is about graphs alone, so
that a resolution can be compared before and after a write.

Accessors are pure here: they compute with constants that are no objects,
with their own data and with values at paths from there. Three facts carry
the rest:
what a reading yields is determined (`Yields.unique`), it depends only on
the cells that were looked at (`Yields.congr`), and it stays among the
objects that the data properties lead to (`Yields.within`).
-/

namespace DataBinding

/-- Questions that come to no object but one of those that are known by
then: the answers to the questions are. -/
inductive Asking.Faithful : List Value → Asking Value → Prop
  | answer {known : List Value} {v : Value} :
      (∀ j, v = .object j → v ∈ known) → Faithful known (.answer v)
  | get {known : List Value} {path : String} {next : Value → Asking Value} :
      (∀ u, Faithful (u :: known) (next u)) → Faithful known (.get path next)

/-- Accessors that are functions of their data and of the values at paths
from there. They make up no objects. -/
inductive Expr.Pure : Expr → Prop
  | const {v : Value} : v.object? = none → Pure (.const v)
  | data : Pure .data
  | get (path : String) : Pure (.get path)
  | asking {questions : ObjectId → Asking Value} :
      (∀ data, (questions data).Faithful [.object data]) → Pure (.asking questions)
  | concat {parts : List Expr} : (∀ e ∈ parts, Pure e) → Pure (.concat parts)
  | sum {parts : List Expr} : (∀ e ∈ parts, Pure e) → Pure (.sum parts)
  | same {a b : Expr} : Pure a → Pure b → Pure (.same a b)
  | less {a b : Expr} : Pure a → Pure b → Pure (.less a b)
  | choose {condition yes no : Expr} :
      Pure condition → Pure yes → Pure no → Pure (.choose condition yes no)

/-- The place of a property: its object and its key. -/
abbrev Cell := ObjectId × String

/-- What can be asked of a graph. -/
inductive Query
  | property (id : ObjectId) (key : String)
  | walk (from_ : Value) (keys : List String)
  | value (data : ObjectId) (e : Expr)
  | values (data : ObjectId) (es : List Expr)
  | asking (data : ObjectId) (known : List Value) (a : Asking Value)

namespace Graph

/-- What a cell holds: a value, or an accessor. -/
def content (g : Graph) (c : Cell) : Option (Value ⊕ Expr) :=
  (g.slot? c.1 c.2).map fun
    | .data property => .inl property.value
    | .computed accessor => .inr accessor

theorem slot?_of_content {g : Graph} {c : Cell} {v : Value}
    (h : g.content c = some (.inl v)) :
    ∃ property, g.slot? c.1 c.2 = some (.data property) ∧ property.value = v := by
  unfold content at h
  rcases hslot : g.slot? c.1 c.2 with _ | property | accessor
  · simp [hslot] at h
  · simp [hslot] at h
    exact ⟨property, rfl, h⟩
  · simp [hslot] at h

theorem slot?_of_content_inr {g : Graph} {c : Cell} {accessor : Expr}
    (h : g.content c = some (.inr accessor)) :
    g.slot? c.1 c.2 = some (.computed accessor) := by
  unfold content at h
  rcases hslot : g.slot? c.1 c.2 with _ | property | accessor'
  · simp [hslot] at h
  · simp [hslot] at h
  · simp [hslot] at h
    rw [h]

theorem slot?_of_content_none {g : Graph} {c : Cell} (h : g.content c = none) :
    g.slot? c.1 c.2 = none := by
  simpa [content] using h

/-- The answers to a query, and the cells that were looked at. -/
inductive Yields (g : Graph) : Query → List Value → List Cell → Prop
  | missing {id : ObjectId} {key : String} :
      g.content (id, key) = none → Yields g (.property id key) [.undefined] [(id, key)]
  | data {id : ObjectId} {key : String} {v : Value} :
      g.content (id, key) = some (.inl v) → Yields g (.property id key) [v] [(id, key)]
  | computed {id : ObjectId} {key : String} {accessor : Expr} {v : Value} {cells : List Cell} :
      g.content (id, key) = some (.inr accessor) → Yields g (.value id accessor) [v] cells →
      Yields g (.property id key) [v] ((id, key) :: cells)
  | stop {v : Value} : Yields g (.walk v []) [v] []
  | step {id : ObjectId} {key : String} {keys : List String} {u v : Value}
      {cells cells' : List Cell} :
      Yields g (.property id key) [u] cells → Yields g (.walk u keys) [v] cells' →
      Yields g (.walk (.object id) (key :: keys)) [v] (cells ++ cells')
  | leave {v : Value} {key : String} {keys : List String} :
      v.object? = none → Yields g (.walk v (key :: keys)) [.undefined] []
  | const {data : ObjectId} {v : Value} : v.object? = none → Yields g (.value data (.const v)) [v] []
  | self {data : ObjectId} : Yields g (.value data .data) [.object data] []
  | get {data : ObjectId} {path : String} {v : Value} {cells : List Cell} :
      Yields g (.walk (.object data) (Path.parse path).segments) [v] cells →
      Yields g (.value data (.get path)) [v] cells
  | asking {data : ObjectId} {questions : ObjectId → Asking Value} {v : Value}
      {cells : List Cell} :
      Yields g (.asking data [.object data] (questions data)) [v] cells →
      Yields g (.value data (.asking questions)) [v] cells
  | concat {data : ObjectId} {parts : List Expr} {vs : List Value} {cells : List Cell} :
      Yields g (.values data parts) vs cells →
      Yields g (.value data (.concat parts)) [.string (String.join (vs.map (·.text)))] cells
  | sum {data : ObjectId} {parts : List Expr} {vs : List Value} {cells : List Cell} :
      Yields g (.values data parts) vs cells →
      Yields g (.value data (.sum parts))
        [.number (vs.foldl (fun total v => total.add v.toNumber) .zero)] cells
  | same {data : ObjectId} {a b : Expr} {x y : Value} {cells cells' : List Cell} :
      Yields g (.value data a) [x] cells → Yields g (.value data b) [y] cells' →
      Yields g (.value data (.same a b)) [.bool (x.same y)] (cells ++ cells')
  | less {data : ObjectId} {a b : Expr} {x y : Value} {cells cells' : List Cell} :
      Yields g (.value data a) [x] cells → Yields g (.value data b) [y] cells' →
      Yields g (.value data (.less a b)) [.bool (x.toNumber.less y.toNumber)] (cells ++ cells')
  | choose {data : ObjectId} {condition yes no : Expr} {c v : Value} {cells cells' : List Cell} :
      Yields g (.value data condition) [c] cells →
      Yields g (.value data (if c = .bool true then yes else no)) [v] cells' →
      Yields g (.value data (.choose condition yes no)) [v] (cells ++ cells')
  | nil {data : ObjectId} : Yields g (.values data []) [] []
  | cons {data : ObjectId} {e : Expr} {es : List Expr} {v : Value} {vs : List Value}
      {cells cells' : List Cell} :
      Yields g (.value data e) [v] cells → Yields g (.values data es) vs cells' →
      Yields g (.values data (e :: es)) (v :: vs) (cells ++ cells')
  | answer {data : ObjectId} {known : List Value} {v : Value} :
      (∀ j, v = .object j → v ∈ known) → Yields g (.asking data known (.answer v)) [v] []
  | question {data : ObjectId} {known : List Value} {path : String}
      {next : Value → Asking Value} {u v : Value} {cells cells' : List Cell} :
      Yields g (.walk (.object data) (Path.parse path).segments) [u] cells →
      Yields g (.asking data (u :: known) (next u)) [v] cells' →
      Yields g (.asking data known (.get path next)) [v] (cells ++ cells')

namespace Yields

variable {g g' : Graph} {q : Query} {vs vs' : List Value} {cells cells' : List Cell}

/-- A query has one answer. -/
theorem unique (h : g.Yields q vs cells) (h' : g.Yields q vs' cells') :
    vs = vs' ∧ cells = cells' := by
  induction h generalizing vs' cells' with
  | missing hc =>
      cases h' with
      | missing => exact ⟨rfl, rfl⟩
      | data hc' => rw [hc] at hc'; cases hc'
      | computed hc' => rw [hc] at hc'; cases hc'
  | data hc =>
      cases h' with
      | missing hc' => rw [hc] at hc'; cases hc'
      | data hc' => rw [hc] at hc'; cases hc'; exact ⟨rfl, rfl⟩
      | computed hc' => rw [hc] at hc'; cases hc'
  | computed hc _ ih =>
      cases h' with
      | missing hc' => rw [hc] at hc'; cases hc'
      | data hc' => rw [hc] at hc'; cases hc'
      | computed hc' hv =>
          rw [hc] at hc'
          cases hc'
          obtain ⟨hvs, rfl⟩ := ih hv
          exact ⟨hvs, rfl⟩
  | stop =>
      cases h'
      exact ⟨rfl, rfl⟩
  | step _ _ ihp ihw =>
      cases h' with
      | step hp hw =>
          obtain ⟨hu, rfl⟩ := ihp hp
          cases hu
          obtain ⟨hvs, rfl⟩ := ihw hw
          exact ⟨hvs, rfl⟩
      | leave hv => simp [Value.object?] at hv
  | leave hv =>
      cases h' with
      | step => simp [Value.object?] at hv
      | leave => exact ⟨rfl, rfl⟩
  | const =>
      cases h'
      exact ⟨rfl, rfl⟩
  | self =>
      cases h'
      exact ⟨rfl, rfl⟩
  | get _ ih =>
      cases h' with
      | get hw => exact ih hw
  | asking _ ih =>
      cases h' with
      | asking ha => exact ih ha
  | concat _ ih =>
      cases h' with
      | concat hs =>
          obtain ⟨rfl, rfl⟩ := ih hs
          exact ⟨rfl, rfl⟩
  | sum _ ih =>
      cases h' with
      | sum hs =>
          obtain ⟨rfl, rfl⟩ := ih hs
          exact ⟨rfl, rfl⟩
  | same _ _ iha ihb =>
      cases h' with
      | same ha hb =>
          obtain ⟨hx, rfl⟩ := iha ha
          obtain ⟨hy, rfl⟩ := ihb hb
          cases hx
          cases hy
          exact ⟨rfl, rfl⟩
  | less _ _ iha ihb =>
      cases h' with
      | less ha hb =>
          obtain ⟨hx, rfl⟩ := iha ha
          obtain ⟨hy, rfl⟩ := ihb hb
          cases hx
          cases hy
          exact ⟨rfl, rfl⟩
  | choose _ _ ihc ihv =>
      cases h' with
      | choose hc hv =>
          obtain ⟨hcond, rfl⟩ := ihc hc
          cases hcond
          obtain ⟨hvs, rfl⟩ := ihv hv
          exact ⟨hvs, rfl⟩
  | nil =>
      cases h'
      exact ⟨rfl, rfl⟩
  | cons _ _ ihv ihs =>
      cases h' with
      | cons hv hs =>
          obtain ⟨hx, rfl⟩ := ihv hv
          obtain ⟨rfl, rfl⟩ := ihs hs
          cases hx
          exact ⟨rfl, rfl⟩
  | answer =>
      cases h'
      exact ⟨rfl, rfl⟩
  | question _ _ ihw iha =>
      cases h' with
      | question hw ha =>
          obtain ⟨hu, rfl⟩ := ihw hw
          cases hu
          obtain ⟨hvs, rfl⟩ := iha ha
          exact ⟨hvs, rfl⟩

/-- Only the cells that were looked at matter. -/
theorem congr (h : g.Yields q vs cells) (hsame : ∀ c ∈ cells, g'.content c = g.content c) :
    g'.Yields q vs cells := by
  induction h with
  | missing hc => exact .missing ((hsame _ List.mem_cons_self).trans hc)
  | data hc => exact .data ((hsame _ List.mem_cons_self).trans hc)
  | computed hc _ ih =>
      obtain ⟨hfirst, hrest⟩ := List.forall_mem_cons.1 hsame
      exact .computed (hfirst.trans hc) (ih hrest)
  | stop => exact .stop
  | step _ _ ihp ihw =>
      obtain ⟨hproperty, hwalk⟩ := List.forall_mem_append.1 hsame
      exact .step (ihp hproperty) (ihw hwalk)
  | leave hv => exact .leave hv
  | const hv => exact .const hv
  | self => exact .self
  | get _ ih => exact .get (ih hsame)
  | asking _ ih => exact .asking (ih hsame)
  | concat _ ih => exact .concat (ih hsame)
  | sum _ ih => exact .sum (ih hsame)
  | same _ _ iha ihb =>
      obtain ⟨ha, hb⟩ := List.forall_mem_append.1 hsame
      exact .same (iha ha) (ihb hb)
  | less _ _ iha ihb =>
      obtain ⟨ha, hb⟩ := List.forall_mem_append.1 hsame
      exact .less (iha ha) (ihb hb)
  | choose _ _ ihc ihv =>
      obtain ⟨hcondition, hchosen⟩ := List.forall_mem_append.1 hsame
      exact .choose (ihc hcondition) (ihv hchosen)
  | nil => exact .nil
  | cons _ _ ihv ihs =>
      obtain ⟨hfirst, hrest⟩ := List.forall_mem_append.1 hsame
      exact .cons (ihv hfirst) (ihs hrest)
  | answer hv => exact .answer hv
  | question _ _ ihw iha =>
      obtain ⟨hwalk, hrest⟩ := List.forall_mem_append.1 hsame
      exact .question (ihw hwalk) (iha hrest)

end Yields

/-! ## Where a reading stays -/

/-- What the data properties of some objects hold is among them. -/
def Closed (g : Graph) (among : ObjectId → Prop) : Prop :=
  ∀ id key j, among id → g.content (id, key) = some (.inl (.object j)) → among j

/-- The objects that a query begins with, or knows from its answers, are
among these. -/
def Query.begins (among : ObjectId → Prop) : Query → Prop
  | .property id _ => among id
  | .walk v _ => ∀ j, v = .object j → among j
  | .value data _ => among data
  | .values data _ => among data
  | .asking data known _ => among data ∧ ∀ j, .object j ∈ known → among j

/-- A reading that begins among some objects looks at no others, and
yields no others. -/
theorem Yields.within {g : Graph} {among : ObjectId → Prop} (hclosed : g.Closed among) {q : Query}
    {vs : List Value} {cells : List Cell} (h : g.Yields q vs cells) (hq : Query.begins among q) :
    (∀ c ∈ cells, among c.1) ∧ ∀ j, .object j ∈ vs → among j := by
  induction h with
  | missing => simpa [Query.begins] using hq
  | @data id key v hc =>
      refine ⟨by simpa [Query.begins] using hq, fun j hj => ?_⟩
      rw [List.mem_singleton] at hj
      exact hclosed id key j hq (hj ▸ hc)
  | computed hc _ ih =>
      obtain ⟨hcells, hvalues⟩ := ih hq
      exact ⟨List.forall_mem_cons.2 ⟨hq, hcells⟩, hvalues⟩
  | stop => exact ⟨by simp, fun j hj => hq j (List.mem_singleton.1 hj).symm⟩
  | step _ _ ihp ihw =>
      obtain ⟨hcells, hvalues⟩ := ihp (hq _ rfl)
      obtain ⟨hcells', hvalues'⟩ := ihw fun j hj => hvalues j (List.mem_singleton.2 hj.symm)
      exact ⟨List.forall_mem_append.2 ⟨hcells, hcells'⟩, hvalues'⟩
  | leave => simp
  | const hv =>
      refine ⟨by simp, fun j hj => ?_⟩
      rw [← List.mem_singleton.1 hj] at hv
      simp [Value.object?] at hv
  | @self data =>
      refine ⟨by simp, fun j hj => ?_⟩
      cases List.mem_singleton.1 hj
      exact hq
  | get _ ih => exact ih fun j hj => by cases hj; exact hq
  | @asking data _ _ _ _ ih =>
      refine ih ⟨hq, fun j hj => ?_⟩
      cases List.mem_singleton.1 hj
      exact hq
  | concat _ ih => exact ⟨(ih hq).1, by simp⟩
  | sum _ ih => exact ⟨(ih hq).1, by simp⟩
  | same _ _ iha ihb => exact ⟨List.forall_mem_append.2 ⟨(iha hq).1, (ihb hq).1⟩, by simp⟩
  | less _ _ iha ihb => exact ⟨List.forall_mem_append.2 ⟨(iha hq).1, (ihb hq).1⟩, by simp⟩
  | choose _ _ ihc ihv =>
      obtain ⟨hcells, hvalues⟩ := ihv hq
      exact ⟨List.forall_mem_append.2 ⟨(ihc hq).1, hcells⟩, hvalues⟩
  | nil => simp
  | cons _ _ ihv ihs =>
      obtain ⟨hcells, hfirst⟩ := ihv hq
      obtain ⟨hcells', hrest⟩ := ihs hq
      refine ⟨List.forall_mem_append.2 ⟨hcells, hcells'⟩, fun j hj => ?_⟩
      rcases List.mem_cons.1 hj with hj | hj
      · exact hfirst j (List.mem_singleton.2 hj)
      · exact hrest j hj
  | answer hv =>
      refine ⟨by simp, fun j hj => ?_⟩
      have hj := List.mem_singleton.1 hj
      exact hq.2 j (hj ▸ hv j hj.symm)
  | @question data known _ _ u _ _ _ _ _ ihw iha =>
      obtain ⟨hdata, hknown⟩ := hq
      obtain ⟨hcells, hvalues⟩ := ihw fun j hj => by cases hj; exact hdata
      -- the answer is one more that is known
      have hknown' : ∀ j, .object j ∈ u :: known → among j := by
        intro j hj
        rcases List.mem_cons.1 hj with hj | hj
        · exact hvalues j (List.mem_singleton.2 hj)
        · exact hknown j hj
      obtain ⟨hcells', hvalues'⟩ := iha ⟨hdata, hknown'⟩
      exact ⟨List.forall_mem_append.2 ⟨hcells, hcells'⟩, hvalues'⟩

end Graph

end DataBinding
