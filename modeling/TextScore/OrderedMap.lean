/-!
# Maps that keep the order of insertion

A map from names to values whose entries stand in the order in which their names first came; a new
value for a known name keeps its place.  Everything that a score names goes through such maps
(instruments, staves, fragments, the places of the staves in a block), and the order shows: groups
list their instruments in it, and a MIDI file has its tracks in it.

The entries are a list, and that no name stands in it twice is part of the type.  So a map is known
by its keys in order and by the value of each; the lemmas say what `put` does to both, and nothing
else about a map is used.

* `OrderedMap.get?`, `put` — look up, and insert or replace.
* `keys_put` — what a `put` does to the names in order.
* `get?_put_self`, `get?_put_of_ne` — what it does to the values.
* `put_put` — of two values for one name, the second one counts.
-/

namespace TextScore

variable {β : Type}

/-- Entries with a new value for `k`, in its place or at the end. -/
def putEntry (k : String) (v : β) : List (String × β) → List (String × β)
  | [] => [(k, v)]
  | e :: es => if e.1 = k then (k, v) :: es else e :: putEntry k v es

theorem map_fst_putEntry (k : String) (v : β) (es : List (String × β)) :
    (putEntry k v es).map Prod.fst =
      if k ∈ es.map Prod.fst then es.map Prod.fst else es.map Prod.fst ++ [k] := by
  induction es with
  | nil => simp [putEntry]
  | cons e es ih =>
    by_cases h : e.1 = k
    · simp [putEntry, h]
    · have h' : k ≠ e.1 := Ne.symm h
      simp only [putEntry, h, if_false, List.map_cons, ih, List.mem_cons, h', false_or]
      split <;> simp

/-- A map from names to values with its entries in order of insertion. -/
structure OrderedMap (β : Type) where
  /-- The names and their values, in order. -/
  entries : List (String × β)
  /-- Every name has one value. -/
  nodup_keys : (entries.map Prod.fst).Nodup

namespace OrderedMap

/-- The map without entries. -/
def empty : OrderedMap β := ⟨[], List.nodup_nil⟩

instance : EmptyCollection (OrderedMap β) := ⟨empty⟩

instance : Inhabited (OrderedMap β) := ⟨empty⟩

/-- The names in order. -/
def keys (m : OrderedMap β) : List String := m.entries.map Prod.fst

/-- The values in order. -/
def values (m : OrderedMap β) : List β := m.entries.map Prod.snd

/-- The value of a name. -/
def get? (m : OrderedMap β) (k : String) : Option β := m.entries.lookup k

/-- Whether a name has a value. -/
def contains (m : OrderedMap β) (k : String) : Bool := (m.get? k).isSome

/-- The map with the value `v` for `k`. -/
def put (m : OrderedMap β) (k : String) (v : β) : OrderedMap β where
  entries := putEntry k v m.entries
  nodup_keys := by
    rw [map_fst_putEntry]
    split
    case isTrue => exact m.nodup_keys
    case isFalse h =>
      rw [List.nodup_append]
      refine ⟨m.nodup_keys, List.pairwise_singleton .., fun a ha b hb ↦ ?_⟩
      rw [List.mem_singleton] at hb
      exact fun hab ↦ h (hb ▸ hab ▸ ha)

/-! ## Small lemmas -/

@[simp] theorem keys_empty : (empty : OrderedMap β).keys = [] := rfl

@[simp] theorem get?_empty (k : String) : (empty : OrderedMap β).get? k = none := rfl

@[simp] theorem get?_emptyCollection (k : String) : (∅ : OrderedMap β).get? k = none := rfl

/-- A new name goes to the end, a known one keeps its place. -/
theorem keys_put (m : OrderedMap β) (k : String) (v : β) :
    (m.put k v).keys = if k ∈ m.keys then m.keys else m.keys ++ [k] :=
  map_fst_putEntry k v m.entries

theorem lookup_putEntry_self (k : String) (v : β) (es : List (String × β)) :
    (putEntry k v es).lookup k = some v := by
  induction es with
  | nil => simp [putEntry]
  | cons e es ih =>
    by_cases h : e.1 = k
    · simp [putEntry, h]
    · have h' : (k == e.1) = false := by simpa using Ne.symm h
      rw [putEntry, if_neg h, List.lookup_cons, h', ih]

theorem lookup_putEntry_of_ne {k k' : String} (h : k' ≠ k) (v : β) (es : List (String × β)) :
    (putEntry k v es).lookup k' = es.lookup k' := by
  induction es with
  | nil =>
    have h' : (k' == k) = false := by simpa using h
    simp [putEntry, List.lookup_cons, h']
  | cons e es ih =>
    by_cases he : e.1 = k
    · have h' : (k' == e.1) = false := by simpa [he] using h
      have h'' : (k' == k) = false := by simpa using h
      rw [putEntry, if_pos he, List.lookup_cons, List.lookup_cons, h', h'']
    · rw [putEntry, if_neg he, List.lookup_cons, List.lookup_cons, ih]

theorem putEntry_putEntry (k : String) (v w : β) (es : List (String × β)) :
    putEntry k w (putEntry k v es) = putEntry k w es := by
  induction es with
  | nil => simp [putEntry]
  | cons e es ih =>
    by_cases h : e.1 = k
    · simp [putEntry, h]
    · simp [putEntry, h, ih]

/-- Of two values for a name the second one counts. -/
@[simp] theorem put_put (m : OrderedMap β) (k : String) (v w : β) :
    (m.put k v).put k w = m.put k w := by
  rw [put, put, mk.injEq]
  exact putEntry_putEntry k v w m.entries

@[simp] theorem get?_put_self (m : OrderedMap β) (k : String) (v : β) :
    (m.put k v).get? k = some v :=
  lookup_putEntry_self k v m.entries

theorem get?_put_of_ne {k k' : String} (h : k' ≠ k) (m : OrderedMap β) (v : β) :
    (m.put k v).get? k' = m.get? k' :=
  lookup_putEntry_of_ne h v m.entries

theorem isSome_get?_put {m : OrderedMap β} {k id : String} {v : β}
    (h : id ≠ k → (m.get? id).isSome = true) : ((m.put k v).get? id).isSome = true := by
  by_cases hid : id = k
  · rw [hid, get?_put_self, Option.isSome_some]
  · rw [get?_put_of_ne hid]
    exact h hid

end OrderedMap

end TextScore
