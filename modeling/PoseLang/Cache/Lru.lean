/-!
# Tables with little room

A table that keeps the entries that were used last. Reading an entry and writing one both use it.
If there is no room for a new entry, the one that was used least recently is dropped.
-/

namespace PoseLang

/-- A table with room for some entries, no two of which have one key. -/
structure Lru (κ ν : Type) where
  /-- How many entries there is room for. -/
  capacity : Nat
  /-- The entries by key, the one that was used last in front. -/
  entries : List (κ × ν)
  capacity_pos : 0 < capacity
  length_le : entries.length ≤ capacity
  nodup_keys : (entries.map Prod.fst).Nodup

namespace Lru

variable {κ ν : Type}

/-- A table without entries. -/
def empty (capacity : Nat) (h : 0 < capacity) : Lru κ ν := ⟨capacity, [], h, Nat.zero_le _, .nil⟩

/-- Drops all entries. -/
def clear (t : Lru κ ν) : Lru κ ν := empty t.capacity t.capacity_pos

/-- How many entries there are. -/
def size (t : Lru κ ν) : Nat := t.entries.length

variable [DecidableEq κ]

/-- The entries with one more in front, which takes the place of an entry with its key. What there is no room for
is dropped. -/
def putEntries (capacity : Nat) (l : List (κ × ν)) (k : κ) (v : ν) : List (κ × ν) :=
  ((k, v) :: l.filter (·.1 ≠ k)).take capacity

theorem length_putEntries_le (capacity : Nat) (l : List (κ × ν)) (k : κ) (v : ν) :
    (putEntries capacity l k v).length ≤ capacity := List.length_take_le ..

theorem nodup_keys_putEntries {l : List (κ × ν)} (h : (l.map Prod.fst).Nodup) (capacity : Nat) (k : κ) (v : ν) :
    ((putEntries capacity l k v).map Prod.fst).Nodup := by
  refine List.Pairwise.sublist ((List.take_sublist ..).map _) ?_
  rw [List.map_cons]
  refine List.Pairwise.cons ?_ (List.Pairwise.sublist (List.filter_sublist.map _) h)
  intro k' hk' heq
  obtain ⟨p, hp, rfl⟩ := List.mem_map.mp hk'
  exact of_decide_eq_true (List.mem_filter.mp hp).2 heq.symm

/-- Writes an entry. -/
def put (t : Lru κ ν) (k : κ) (v : ν) : Lru κ ν where
  capacity := t.capacity
  entries := putEntries t.capacity t.entries k v
  capacity_pos := t.capacity_pos
  length_le := length_putEntries_le t.capacity t.entries k v
  nodup_keys := nodup_keys_putEntries t.nodup_keys t.capacity k v

/-- Reads the entry with a key, which comes to the front. -/
def get? (t : Lru κ ν) (k : κ) : Option (ν × Lru κ ν) :=
  (t.entries.lookup k).map fun v => (v, t.put k v)

end Lru

end PoseLang
