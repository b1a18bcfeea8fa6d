/-!
# Maps in key order

A small finite map, kept as a list in increasing order of its keys. Where a later entry has
the key of an earlier one, the later one stays.

## Main definitions

* `Keyed` — the map.
* `Keyed.find?`, `Keyed.insert`, `Keyed.modify` — look-up and update.

## Main results

* `Keyed.find?_insert`, `Keyed.find?_modify` — what an update does to each key.
-/

namespace Chiptune

/-- A finite map, its entries in increasing order of their keys. -/
structure Keyed (κ : Type) (α : Type) where
  /-- The entries. -/
  toList : List (κ × α)
  deriving Repr, DecidableEq

namespace Keyed

variable {κ α : Type}

/-- The map with no entry. -/
def empty : Keyed κ α := ⟨[]⟩

instance : Inhabited (Keyed κ α) := ⟨empty⟩

/-- The keys in increasing order. -/
def keys (m : Keyed κ α) : List κ := m.toList.map (·.1)

/-- The values in the order of their keys. -/
def values (m : Keyed κ α) : List α := m.toList.map (·.2)

/-- The number of entries. -/
def size (m : Keyed κ α) : Nat := m.toList.length

/-- Whether there is no entry. -/
def isEmpty (m : Keyed κ α) : Bool := m.toList.isEmpty

section Lookup

variable [DecidableEq κ]

/-- The value under a key. -/
def find? (m : Keyed κ α) (k : κ) : Option α :=
  (m.toList.find? (·.1 = k)).map (·.2)

/-- Whether there is an entry under a key. -/
def contains (m : Keyed κ α) (k : κ) : Bool := (m.find? k).isSome

/-- The map with the value under one key changed. -/
def modify (m : Keyed κ α) (k : κ) (f : α → α) : Keyed κ α :=
  ⟨m.toList.map fun e => if e.1 = k then (e.1, f e.2) else e⟩

/-- The place of a key in the order of the keys. -/
def position? (m : Keyed κ α) (k : κ) : Option Nat := m.keys.idxOf? k

@[simp] theorem find?_empty (k : κ) : (empty : Keyed κ α).find? k = none := rfl

theorem find?_modify (m : Keyed κ α) (k k' : κ) (f : α → α) :
    (m.modify k f).find? k' = if k = k' then (m.find? k').map f else m.find? k' := by
  obtain ⟨es⟩ := m
  simp only [find?, modify]
  induction es with
  | nil => simp
  | cons e es ih =>
    by_cases h : e.1 = k'
    · by_cases hk : k = k' <;> grind
    · by_cases hk : k = k' <;> grind

@[simp] theorem contains_modify (m : Keyed κ α) (k k' : κ) (f : α → α) :
    (m.modify k f).contains k' = m.contains k' := by
  simp only [contains, find?_modify]
  by_cases h : k = k' <;> simp [h]

@[simp] theorem keys_modify (m : Keyed κ α) (k : κ) (f : α → α) : (m.modify k f).keys = m.keys := by
  simp only [keys, modify, List.map_map]
  refine List.map_congr_left fun e _ => ?_
  by_cases h : e.1 = k <;> simp [h]

theorem contains_iff_mem_keys (m : Keyed κ α) (k : κ) : m.contains k = true ↔ k ∈ m.keys := by
  simp [contains, find?, keys]

end Lookup

section Order

variable [DecidableEq κ] [LT κ] [DecidableLT κ]

/-- Puts an entry in front of the first one with a key that is not smaller, and in place of it
if the keys agree. -/
def insertInto (k : κ) (v : α) : List (κ × α) → List (κ × α)
  | [] => [(k, v)]
  | e :: es =>
    if k = e.1 then (k, v) :: es
    else if k < e.1 then (k, v) :: e :: es
    else e :: insertInto k v es

/-- The map with a value under a key. -/
def insert (m : Keyed κ α) (k : κ) (v : α) : Keyed κ α := ⟨insertInto k v m.toList⟩

/-- The map of some entries, of which the last one under each key stays. -/
def ofList (es : List (κ × α)) : Keyed κ α := es.foldl (fun m e => m.insert e.1 e.2) empty

theorem find?_insert (m : Keyed κ α) (k k' : κ) (v : α) :
    (m.insert k v).find? k' = if k = k' then some v else m.find? k' := by
  obtain ⟨es⟩ := m
  simp only [find?, insert]
  induction es with
  | nil => by_cases h : k = k' <;> simp [insertInto, h]
  | cons e es ih =>
    by_cases h : k = k' <;> by_cases h' : e.1 = k' <;> grind [insertInto]

end Order

end Keyed

end Chiptune
