/-!
# Tables in order of insertion

Environments, locator tables, caches and pools are small tables whose order is seen in answers: a
key keeps the place at which it was first entered, also when its value is replaced.

## Results

* Every table has distinct keys; that is part of the type.
* `get?_put`, `get?_erase` — what an entry and a removal do to every look-up.
* `keys_put` — the keys after an entry: the same, or the new one last.
* `sum_put` — what the values add up to after an entry.
-/

set_option autoImplicit false

namespace SourceTrees

variable {κ ν : Type} [DecidableEq κ]

/-- A table from keys to values, in order of insertion. -/
structure Keyed (κ ν : Type) where
  entries : List (κ × ν)
  distinct : (entries.map Prod.fst).Nodup := by decide

namespace Keyed

/-- The table without entries. -/
def empty : Keyed κ ν := ⟨[], List.nodup_nil⟩

instance : Inhabited (Keyed κ ν) := ⟨empty⟩

/-- The keys in order. -/
def keys (t : Keyed κ ν) : List κ := t.entries.map Prod.fst

/-- The number of entries. -/
def size (t : Keyed κ ν) : Nat := t.entries.length

/-- The value in a list of entries. -/
def lookIn (k : κ) : List (κ × ν) → Option ν
  | [] => none
  | e :: rest => if e.1 = k then some e.2 else lookIn k rest

/-- The value under a key. -/
def get? (t : Keyed κ ν) (k : κ) : Option ν := lookIn k t.entries

/-- Is there a value under the key? -/
def contains (t : Keyed κ ν) (k : κ) : Bool := (t.get? k).isSome

/-- Enters a value into a list of entries. -/
def putIn (k : κ) (v : ν) : List (κ × ν) → List (κ × ν)
  | [] => [(k, v)]
  | e :: rest => if e.1 = k then (k, v) :: rest else e :: putIn k v rest

theorem map_fst_putIn (k : κ) (v : ν) (es : List (κ × ν)) :
    (putIn k v es).map Prod.fst =
      if k ∈ es.map Prod.fst then es.map Prod.fst else es.map Prod.fst ++ [k] := by
  induction es with
  | nil => simp [putIn]
  | cons e rest ih =>
    by_cases h : e.1 = k
    · simp [putIn, h]
    · have h' : ¬ k = e.1 := fun hk => h hk.symm
      simp only [putIn, h, if_false, List.map_cons, ih, List.mem_cons, h', false_or]
      split <;> simp

theorem nodup_putIn {k : κ} {v : ν} {es : List (κ × ν)} (h : (es.map Prod.fst).Nodup) :
    ((putIn k v es).map Prod.fst).Nodup := by
  rw [map_fst_putIn]
  split
  · exact h
  · rename_i hk
    rw [List.nodup_append]
    refine ⟨h, by simp, fun a ha b hb hab => hk ?_⟩
    rw [List.mem_singleton] at hb
    exact hb ▸ hab ▸ ha

/-- Enters a value under a key: in place of the one there, else last. -/
def put (t : Keyed κ ν) (k : κ) (v : ν) : Keyed κ ν :=
  ⟨putIn k v t.entries, nodup_putIn t.distinct⟩

/-- Removes the entry under a key. -/
def erase (t : Keyed κ ν) (k : κ) : Keyed κ ν :=
  ⟨t.entries.filter fun e => e.1 ≠ k,
    t.distinct.sublist (List.filter_sublist.map _)⟩

/-- Applies a function to the value under a key, if there is one. -/
def adjust (t : Keyed κ ν) (k : κ) (f : ν → ν) : Keyed κ ν :=
  match t.get? k with
  | some v => t.put k (f v)
  | none => t

/-- The table with the given entries, a later one of a key in place of the earlier. -/
def ofList (es : List (κ × ν)) : Keyed κ ν := es.foldl (fun t e => t.put e.1 e.2) empty

/-- Enters all entries of a list into a table. -/
def putAll (t : Keyed κ ν) (es : List (κ × ν)) : Keyed κ ν :=
  es.foldl (fun t e => t.put e.1 e.2) t

theorem mem_of_lookIn {k : κ} {v : ν} {es : List (κ × ν)} (h : lookIn k es = some v) : (k, v) ∈ es := by
  induction es with
  | nil => cases h
  | cons e rest ih =>
    unfold lookIn at h
    split at h
    · rename_i he
      cases h
      exact he ▸ List.mem_cons_self
    · exact List.mem_cons_of_mem _ (ih h)

/-- A value is found under the key that it was entered with. -/
theorem get?_of_mem {t : Keyed κ ν} {k : κ} {v : ν} (h : (k, v) ∈ t.entries) : t.get? k = some v := by
  obtain ⟨es, hd⟩ := t
  replace h : (k, v) ∈ es := h
  show lookIn k es = some v
  induction es with
  | nil => cases h
  | cons e rest ih =>
    rw [List.map_cons, List.nodup_cons] at hd
    unfold lookIn
    rcases List.mem_cons.1 h with rfl | h
    · exact if_pos rfl
    · have hne : e.1 ≠ k := fun he => hd.1 (List.mem_map.2 ⟨_, h, he.symm⟩)
      rw [if_neg hne]
      exact ih hd.2 h

/-! ## Look-ups after a change -/

theorem lookIn_putIn (k k' : κ) (v : ν) (es : List (κ × ν)) :
    lookIn k' (putIn k v es) = if k' = k then some v else lookIn k' es := by
  induction es with
  | nil => simp only [putIn, lookIn, eq_comm]
  | cons e rest ih =>
    simp only [putIn]
    split
    · rename_i h
      by_cases hk : k' = k
      · simp [lookIn, hk]
      · simp [lookIn, h, hk, Ne.symm hk]
    · rename_i h
      simp only [lookIn, ih]
      by_cases hk : k' = k
      · subst hk; simp [h]
      · simp [hk]

@[simp] theorem get?_put (t : Keyed κ ν) (k k' : κ) (v : ν) :
    (t.put k v).get? k' = if k' = k then some v else t.get? k' :=
  lookIn_putIn k k' v t.entries

theorem lookIn_filter_ne (k k' : κ) (es : List (κ × ν)) :
    lookIn k' (es.filter fun e => e.1 ≠ k) = if k' = k then none else lookIn k' es := by
  induction es with
  | nil => simp [lookIn]
  | cons e rest ih =>
    by_cases h : e.1 = k
    · rw [List.filter_cons_of_neg (by simpa using h), ih]
      by_cases hk : k' = k
      · simp [hk]
      · simp [lookIn, h, hk, Ne.symm hk]
    · rw [List.filter_cons_of_pos (by simpa using h)]
      simp only [lookIn, ih]
      by_cases hk : k' = k
      · subst hk; simp [h]
      · simp [hk]

@[simp] theorem get?_erase (t : Keyed κ ν) (k k' : κ) :
    (t.erase k).get? k' = if k' = k then none else t.get? k' :=
  lookIn_filter_ne k k' t.entries

@[simp] theorem get?_empty (k : κ) : (empty : Keyed κ ν).get? k = none := rfl

theorem lookIn_isSome_iff (k : κ) (es : List (κ × ν)) :
    (lookIn k es).isSome = true ↔ k ∈ es.map Prod.fst := by
  induction es with
  | nil => simp [lookIn]
  | cons e rest ih =>
    by_cases h : e.1 = k
    · simp [lookIn, h]
    · simp [lookIn, h, ih, Ne.symm h]

theorem contains_iff (t : Keyed κ ν) (k : κ) : t.contains k = true ↔ k ∈ t.keys :=
  lookIn_isSome_iff k t.entries

/-- The keys after an entry. -/
theorem keys_put (t : Keyed κ ν) (k : κ) (v : ν) :
    (t.put k v).keys = if k ∈ t.keys then t.keys else t.keys ++ [k] :=
  map_fst_putIn k v t.entries

/-- The number of entries after another one. -/
theorem size_put (t : Keyed κ ν) (k : κ) (v : ν) :
    (t.put k v).size = if (t.get? k).isSome then t.size else t.size + 1 := by
  have hkeys : ∀ t : Keyed κ ν, t.size = t.keys.length := fun _ => (List.length_map ..).symm
  have hmem : (t.get? k).isSome = true ↔ k ∈ t.keys := t.contains_iff k
  rw [hkeys, hkeys, keys_put]
  by_cases hk : k ∈ t.keys
  · rw [if_pos hk, if_pos (hmem.2 hk)]
  · rw [if_neg hk, if_neg (mt hmem.1 hk), List.length_append, List.length_singleton]

/-! ## Sums -/

/-- What a number of the values adds up to. -/
def sum (t : Keyed κ ν) (f : ν → Nat) : Nat := t.entries.foldr (fun e n => f e.2 + n) 0

theorem sum_putIn (k : κ) (v : ν) (f : ν → Nat) (es : List (κ × ν)) :
    (putIn k v es).foldr (fun e n => f e.2 + n) 0 + ((lookIn k es).map f).getD 0 =
      es.foldr (fun e n => f e.2 + n) 0 + f v := by
  induction es with
  | nil => simp [putIn, lookIn]
  | cons e rest ih =>
    by_cases h : e.1 = k
    · simp [putIn, lookIn, h]
      omega
    · simp only [putIn, lookIn, h, if_false, List.foldr_cons]
      omega

/-- An entry brings its own number, and takes that of the value in whose place it comes. -/
theorem sum_put (t : Keyed κ ν) (k : κ) (v : ν) (f : ν → Nat) :
    (t.put k v).sum f + ((t.get? k).map f).getD 0 = t.sum f + f v :=
  sum_putIn k v f t.entries

end Keyed

end SourceTrees
