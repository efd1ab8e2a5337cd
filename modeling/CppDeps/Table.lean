/-!
# Tables in insertion order

A table maps keys to values and remembers the order in which its keys first came in.  Giving a key
a new value leaves the key at its place; only erasing the key and adding it again moves it to the
end.
-/

namespace CppDeps

universe u

/-- A finite map from strings, in the order in which the keys were first added. -/
structure Table (α : Type u) where
  /-- The keys with their values, in order. -/
  entries : List (String × α)
  /-- No key occurs twice. -/
  nodup : (entries.map Prod.fst).Nodup

namespace Table

variable {α : Type u}

/-- The table without entries. -/
def empty : Table α where
  entries := []
  nodup := List.nodup_nil

instance : Inhabited (Table α) := ⟨empty⟩

/-- The keys in order. -/
def keys (t : Table α) : List String :=
  t.entries.map Prod.fst

/-- The number of keys. -/
def size (t : Table α) : Nat :=
  t.entries.length

/-- The value of a key. -/
def get? (t : Table α) (key : String) : Option α :=
  t.entries.lookup key

/-- Is there a value for the key? -/
def contains (t : Table α) (key : String) : Bool :=
  t.keys.contains key

/-! ## Insertion -/

/-- Gives `key` a value: at its place if the list has it, at the end otherwise. -/
def put (key : String) (value : α) : List (String × α) → List (String × α)
  | [] => [(key, value)]
  | entry :: rest =>
    if entry.1 = key then (key, value) :: rest else entry :: put key value rest

theorem map_fst_put (key : String) (value : α) (entries : List (String × α)) :
    (put key value entries).map Prod.fst =
      if key ∈ entries.map Prod.fst then entries.map Prod.fst
      else entries.map Prod.fst ++ [key] := by
  induction entries with
  | nil => simp [put]
  | cons entry rest ih =>
    by_cases h : entry.1 = key
    · simp [put, h]
    · have h' : ¬ key = entry.1 := fun e => h e.symm
      simp only [put, h, if_false, List.map_cons, ih, List.mem_cons, h', false_or]
      split <;> simp

theorem nodup_put (key : String) (value : α) {entries : List (String × α)}
    (h : (entries.map Prod.fst).Nodup) : ((put key value entries).map Prod.fst).Nodup := by
  rw [map_fst_put]
  split
  · exact h
  · rename_i hkey
    refine List.nodup_append.2 ⟨h, List.nodup_cons.2 ⟨by simp, List.nodup_nil⟩, ?_⟩
    rintro a ha b hb rfl
    exact hkey (List.mem_singleton.1 hb ▸ ha)

/-- The table in which `key` has the value. -/
def insert (t : Table α) (key : String) (value : α) : Table α where
  entries := put key value t.entries
  nodup := nodup_put key value t.nodup

/-- The table without `key`. -/
def erase (t : Table α) (key : String) : Table α where
  entries := t.entries.filter fun entry => entry.1 != key
  nodup := t.nodup.sublist (List.filter_sublist.map Prod.fst)

theorem lookup_put (key key' : String) (value : α) (entries : List (String × α)) :
    (put key value entries).lookup key' =
      if key' = key then some value else entries.lookup key' := by
  have hbeq {k : String} (h : ¬ key' = k) : (key' == k) = false := beq_false_of_ne h
  induction entries with
  | nil => by_cases h : key' = key <;> simp [put, List.lookup_cons, h, hbeq]
  | cons entry rest ih =>
    obtain ⟨first, old⟩ := entry
    by_cases h : first = key
    · subst h
      by_cases h' : key' = first <;> simp [put, List.lookup_cons, h', hbeq]
    · by_cases h' : key' = first
      · have hne : ¬ key' = key := fun e => h (h'.symm.trans e)
        simp [put, h, h']
      · simp [put, List.lookup_cons, h, h', hbeq, ih]

@[simp] theorem get?_empty (key : String) : (empty : Table α).get? key = none :=
  rfl

theorem get?_insert (t : Table α) (key key' : String) (value : α) :
    (t.insert key value).get? key' = if key' = key then some value else t.get? key' :=
  lookup_put key key' value t.entries

theorem keys_insert (t : Table α) (key : String) (value : α) :
    (t.insert key value).keys = if key ∈ t.keys then t.keys else t.keys ++ [key] :=
  map_fst_put key value t.entries

end Table

end CppDeps
