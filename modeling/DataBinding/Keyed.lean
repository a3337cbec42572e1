/-!
# Keyed collections

Values under text keys, in the order in which the keys first came in. Writing under a key that is
there replaces its value in place; a new key goes to the end. Properties of an object, attributes
of an element and methods of a context are kept this way.
-/

namespace DataBinding

/-- Values under text keys, in order of insertion. -/
structure Keyed (β : Type) where
  entries : List (String × β)
deriving DecidableEq

namespace Keyed

variable {β : Type}

/-- No key at all. -/
def empty : Keyed β := ⟨[]⟩

instance : Inhabited (Keyed β) := ⟨empty⟩

/-- The keys in order. -/
def keys (c : Keyed β) : List String :=
  c.entries.map (·.1)

/-- The value of the first entry under `key`. -/
def findEntry (key : String) : List (String × β) → Option β
  | [] => none
  | entry :: entries => if entry.1 = key then some entry.2 else findEntry key entries

/-- The value under a key. -/
def find? (c : Keyed β) (key : String) : Option β :=
  findEntry key c.entries

/-- Whether the key is there. -/
def contains (c : Keyed β) (key : String) : Bool :=
  (c.find? key).isSome

/-- Entries with `value` under `key`, in place if the key is there, else at the end. -/
def putEntry (key : String) (value : β) : List (String × β) → List (String × β)
  | [] => [(key, value)]
  | entry :: entries =>
    if entry.1 = key then (key, value) :: entries else entry :: putEntry key value entries

/-- Writes `value` under `key`. -/
def put (c : Keyed β) (key : String) (value : β) : Keyed β :=
  ⟨putEntry key value c.entries⟩

/-- Removes a key. -/
def erase (c : Keyed β) (key : String) : Keyed β :=
  ⟨c.entries.filter (·.1 ≠ key)⟩

/-- The first key whose value satisfies a test. -/
def keyOf? (c : Keyed β) (test : β → Bool) : Option String :=
  (c.entries.find? (test ·.2)).map (·.1)

/-- The keyed values of a list of pairs; the last value of a repeated key counts. -/
def ofList (pairs : List (String × β)) : Keyed β :=
  pairs.foldl (fun c pair => c.put pair.1 pair.2) empty

@[simp] theorem keys_empty : (empty : Keyed β).keys = [] := rfl

@[simp] theorem find?_empty (key : String) : (empty : Keyed β).find? key = none := rfl

theorem find?_put (c : Keyed β) (key other : String) (value : β) :
    (c.put key value).find? other = if other = key then some value else c.find? other := by
  obtain ⟨entries⟩ := c
  simp only [put, find?]
  induction entries with
  | nil => simp [putEntry, findEntry, eq_comm]
  | cons entry entries ih => grind [putEntry, findEntry]

theorem find?_eq_none {c : Keyed β} {key : String} : c.find? key = none ↔ key ∉ c.keys := by
  obtain ⟨entries⟩ := c
  simp only [find?, keys]
  induction entries with
  | nil => simp [findEntry]
  | cons entry entries ih =>
      by_cases hkey : entry.1 = key
      · simp [findEntry, hkey]
      · simp [findEntry, hkey, ih, Ne.symm hkey]

theorem keys_put (c : Keyed β) (key : String) (value : β) :
    (c.put key value).keys = if key ∈ c.keys then c.keys else c.keys ++ [key] := by
  obtain ⟨entries⟩ := c
  simp only [put, keys]
  induction entries with
  | nil => simp [putEntry]
  | cons entry entries ih =>
    obtain ⟨name, current⟩ := entry
    by_cases hname : name = key
    · subst hname
      simp [putEntry]
    · by_cases hmem : key ∈ entries.map (·.1) <;>
        simp_all [putEntry, Ne.symm hname]

theorem keys_put_nodup {c : Keyed β} (h : c.keys.Nodup) (key : String) (value : β) :
    (c.put key value).keys.Nodup := by
  rw [keys_put]
  split
  · exact h
  · rename_i hkey
    refine List.nodup_append.2 ⟨h, List.nodup_cons.2 ⟨by simp, List.nodup_nil⟩, ?_⟩
    intro a ha b hb hab
    rw [List.mem_singleton.1 hb] at hab
    exact hkey (hab ▸ ha)

end Keyed

end DataBinding
