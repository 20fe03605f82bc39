import Mathlib.Data.List.DropRight

/-!
# Python dictionaries

A `dict` keeps its keys in insertion order, and assigning to a key that is present keeps its
place. `Dict κ α` is the list of items in that order.
-/

namespace Py

/-- The items of a `dict`, in insertion order. -/
abbrev Dict (κ α : Type) := List (κ × α)

namespace Dict

variable {κ α : Type} [DecidableEq κ]

/-- `d.get(k)`. -/
def get? : Dict κ α → κ → Option α
  | [], _ => none
  | (k', v) :: d, k => if k' = k then some v else get? d k

/-- `d[k] = v`. -/
def set : Dict κ α → κ → α → Dict κ α
  | [], k, v => [(k, v)]
  | (k', v') :: d, k, v => if k' = k then (k', v) :: d else (k', v') :: set d k v

/-- `d.setdefault(k, v)`: the dictionary after it. The value returned is `get?` of it. -/
def setDefault (d : Dict κ α) (k : κ) (v : α) : Dict κ α :=
  match get? d k with
  | some _ => d
  | none => d ++ [(k, v)]

@[simp] theorem get?_nil (k : κ) : get? ([] : Dict κ α) k = none := rfl

theorem get?_set_self (d : Dict κ α) (k : κ) (v : α) : get? (set d k v) k = some v := by
  induction d with
  | nil => simp [set, get?]
  | cons p d ih =>
    obtain ⟨k', v'⟩ := p
    by_cases h : k' = k
    · simp [set, get?, h]
    · simp [set, get?, h, ih]

theorem get?_set_ne (d : Dict κ α) {k k₂ : κ} (v : α) (h : k₂ ≠ k) :
    get? (set d k v) k₂ = get? d k₂ := by
  induction d with
  | nil => simp [set, get?, Ne.symm h]
  | cons p d ih =>
    obtain ⟨k', v'⟩ := p
    by_cases hk : k' = k
    · subst hk; simp [set, get?, Ne.symm h]
    · by_cases hk₂ : k' = k₂
      · subst hk₂; simp [set, get?, hk]
      · simp [set, get?, hk, hk₂, ih]

theorem get?_append (d : Dict κ α) (k k₂ : κ) (v : α) :
    get? (d ++ [(k, v)]) k₂ = (get? d k₂).or (if k = k₂ then some v else none) := by
  induction d with
  | nil => simp [get?]
  | cons p d ih =>
    obtain ⟨k', v'⟩ := p
    by_cases h : k' = k₂
    · simp [get?, h]
    · simp [get?, h, ih]

/-- `setdefault` only adds the default, and only at an absent key. -/
theorem get?_setDefault (d : Dict κ α) (k k₂ : κ) (v : α) :
    get? (setDefault d k v) k₂ = (get? d k₂).or (if k = k₂ then some v else none) := by
  unfold setDefault
  split
  · rename_i x hx
    by_cases h : k = k₂
    · subst h; simp [hx]
    · simp [h]
  · exact get?_append d k k₂ v

theorem set_set (d : Dict κ α) (k : κ) (v w : α) : set (set d k v) k w = set d k w := by
  induction d with
  | nil => simp [set]
  | cons p d ih =>
    obtain ⟨k', v'⟩ := p
    by_cases hk : k' = k
    · simp [set, hk]
    · simp [set, hk, ih]

/-- An assignment to a key that is not there appends. -/
theorem set_of_get?_none {d : Dict κ α} {k : κ} (v : α) (h : get? d k = none) :
    set d k v = d ++ [(k, v)] := by
  induction d with
  | nil => rfl
  | cons p d ih =>
    obtain ⟨k', v'⟩ := p
    by_cases hk : k' = k
    · simp [get?, hk] at h
    · simp only [get?, hk, ↓reduceIte] at h
      simp [set, hk, ih h]

/-- No key occurs twice. -/
def KeysNodup (d : Dict κ α) : Prop := (d.map Prod.fst).Nodup

theorem get?_eq_none {d : Dict κ α} {k : κ} : get? d k = none ↔ k ∉ d.map Prod.fst := by
  induction d with
  | nil => simp
  | cons p d ih =>
    obtain ⟨k', v'⟩ := p
    by_cases hk : k' = k
    · simp [get?, hk]
    · simp [get?, hk, ih, Ne.symm hk]

theorem keys_set (d : Dict κ α) (k : κ) (v : α) :
    (set d k v).map Prod.fst =
      if k ∈ d.map Prod.fst then d.map Prod.fst else d.map Prod.fst ++ [k] := by
  induction d with
  | nil => rfl
  | cons p d ih =>
    obtain ⟨k', v'⟩ := p
    by_cases hk : k' = k
    · simp [set, hk]
    · simp only [set, hk, ↓reduceIte, List.map_cons, ih, List.mem_cons, Ne.symm hk, false_or]
      split <;> rfl

theorem KeysNodup.set {d : Dict κ α} (h : KeysNodup d) (k : κ) (v : α) :
    KeysNodup (Dict.set d k v) := by
  unfold KeysNodup
  rw [keys_set]
  split
  · exact h
  · rename_i hk
    refine List.nodup_append.mpr ⟨h, List.pairwise_singleton _ k, fun a ha b hb hab => hk ?_⟩
    rw [← List.mem_singleton.mp hb, ← hab]
    exact ha

theorem mem_keys_set {d : Dict κ α} {k k' : κ} {v : α} (h : k' ∈ (set d k v).map Prod.fst) :
    k' ∈ d.map Prod.fst ∨ k' = k := by
  rw [keys_set] at h
  split at h
  · exact .inl h
  · simpa using h

/-- `setdefault` is an assignment where the key is absent, and nothing where it is present. -/
theorem setDefault_cases (d : Dict κ α) (k : κ) (v : α) :
    setDefault d k v = d ∨ setDefault d k v = set d k v := by
  unfold setDefault
  split
  · exact .inl rfl
  · rename_i hk
    exact .inr (set_of_get?_none v hk).symm

/-- A key that only comes later is not in the dictionary yet. -/
theorem set_fresh {acc d : Dict κ α} {k : κ} {v : α} (h : KeysNodup (acc ++ (k, v) :: d)) :
    set acc k v = acc ++ [(k, v)] := by
  apply set_of_get?_none
  rw [get?_eq_none]
  intro hk
  simp only [KeysNodup, List.map_append, List.map_cons] at h
  exact (List.nodup_append.mp h).2.2 k hk k (by simp) rfl

/-- The assignments of a dictionary's items, one by one. -/
theorem foldl_set {acc d : Dict κ α} (h : KeysNodup (acc ++ d)) :
    d.foldl (fun acc entry => set acc entry.1 entry.2) acc = acc ++ d := by
  induction d generalizing acc with
  | nil => exact (List.append_nil acc).symm
  | cons p d ih =>
    obtain ⟨k, v⟩ := p
    rw [List.foldl_cons, set_fresh h, ih (by simpa using h), List.append_assoc]
    rfl

theorem get?_map {β : Type} (f : α → β) (d : Dict κ α) (k : κ) :
    get? (d.map fun entry => (entry.1, f entry.2)) k = (get? d k).map f := by
  induction d with
  | nil => rfl
  | cons p d ih =>
    obtain ⟨k', v⟩ := p
    by_cases hk : k' = k
    · simp [get?, hk]
    · simp [get?, hk, ih]

end Dict

end Py
