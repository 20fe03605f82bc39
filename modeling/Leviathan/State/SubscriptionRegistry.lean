import Leviathan.Journal.Runtime
import Mathlib.Data.Finset.Insert
import Mathlib.Data.Finset.Lattice.Lemmas
import Mathlib.Data.Finset.SDiff
import Mathlib.Data.List.Dedup

/-!
# The subscription registry

`SubscriptionRegistry` is the set of the symbols that are to be subscribed. A registry holds them as
a list without duplicates, and `getAll` gives them in its order, where Python's order is its own.

`addAll` and `removeAll` are the loops of `subscribe_symbols` and `unsubscribe_symbols` over `add`
and `remove`.
-/

namespace Leviathan

open Py

structure SubscriptionRegistry where
  symbols : List Str
  nodup : symbols.Nodup
  /-- the set contains only non-empty strings -/
  nonempty : [] ∉ symbols

namespace SubscriptionRegistry

def emptySymbol : PyError := .valueError "symbol must be a non-empty string".toList

/-- The registry after it, and `True` when the symbol was added. -/
def add (registry : SubscriptionRegistry) (symbol : Str) :
    Except PyError (SubscriptionRegistry × Bool) :=
  if hempty : symbol = [] then .error emptySymbol
  else if hmem : symbol ∈ registry.symbols then .ok (registry, false)
  else
    .ok (⟨registry.symbols ++ [symbol],
      List.nodup_append.mpr ⟨registry.nodup, List.nodup_singleton _, by
        rintro a ha b hb rfl
        exact hmem (List.mem_singleton.mp hb ▸ ha)⟩,
      by simpa [Ne.symm hempty] using registry.nonempty⟩, true)

/-- The registry after it, and `True` when the symbol was removed. -/
def remove (registry : SubscriptionRegistry) (symbol : Str) :
    Except PyError (SubscriptionRegistry × Bool) :=
  if symbol = [] then .error emptySymbol
  else if symbol ∈ registry.symbols then
    .ok (⟨registry.symbols.erase symbol, registry.nodup.erase symbol,
      fun h => registry.nonempty (List.mem_of_mem_erase h)⟩, true)
  else .ok (registry, false)

def getAll (registry : SubscriptionRegistry) : List Str := registry.symbols

/-- The symbols as a set. -/
def toFinset (registry : SubscriptionRegistry) : Finset Str := registry.symbols.toFinset

/-- `[symbol for symbol in symbols if self.__registry.add(symbol)]`, or the same with `remove`: the
registry after it, and the symbols that it did change. An exception ends it. -/
def filterBy (change : SubscriptionRegistry → Str → Except PyError (SubscriptionRegistry × Bool))
    (registry : SubscriptionRegistry) :
    List Str → Except PyError (SubscriptionRegistry × List Str)
  | [] => .ok (registry, [])
  | symbol :: symbols =>
    match change registry symbol with
    | .error e => .error e
    | .ok (registry, changed) =>
      match filterBy change registry symbols with
      | .error e => .error e
      | .ok (registry, others) => .ok (registry, if changed then symbol :: others else others)

def addAll : SubscriptionRegistry → List Str → Except PyError (SubscriptionRegistry × List Str) :=
  filterBy add

def removeAll :
    SubscriptionRegistry → List Str → Except PyError (SubscriptionRegistry × List Str) :=
  filterBy remove

/-! ## What the operations do -/

variable {registry registry' : SubscriptionRegistry} {symbol : Str} {symbols changes : List Str}

/-- What is added was not there, and is no blank; a symbol that is there leaves the registry as it
is. -/
theorem add_ok {added : Bool} (h : registry.add symbol = .ok (registry', added)) :
    symbol ≠ [] ∧ registry'.toFinset =
      registry.toFinset ∪ (if added then {symbol} else ∅) := by
  unfold add at h
  split at h
  · cases h
  · rename_i hempty
    refine ⟨hempty, ?_⟩
    split at h
    · cases h
      simp only [Bool.false_eq_true, ↓reduceIte, Finset.union_empty]
    · cases h
      simp only [toFinset, List.toFinset_append, List.toFinset_cons, List.toFinset_nil,
        insert_empty_eq, ↓reduceIte]

theorem remove_ok {removed : Bool} (h : registry.remove symbol = .ok (registry', removed)) :
    symbol ≠ [] ∧ registry'.toFinset =
      registry.toFinset \ (if removed then {symbol} else ∅) := by
  unfold remove at h
  split at h
  · cases h
  · rename_i hempty
    refine ⟨hempty, ?_⟩
    split at h
    · cases h
      simp only [toFinset, ↓reduceIte]
      ext other
      simp only [List.mem_toFinset, registry.nodup.mem_erase_iff, Finset.mem_sdiff,
        Finset.mem_singleton]
      exact and_comm
    · cases h
      simp only [Bool.false_eq_true, ↓reduceIte, Finset.sdiff_empty]

/-- The loops do to the set what their calls do, with the symbols that they give. -/
theorem filterBy_ok {act : Finset Str → Finset Str → Finset Str}
    {change : SubscriptionRegistry → Str → Except PyError (SubscriptionRegistry × Bool)}
    (hchange : ∀ {registry registry' symbol changed},
      change registry symbol = .ok (registry', changed) →
        symbol ≠ [] ∧ registry'.toFinset = act registry.toFinset (if changed then {symbol} else ∅))
    (act_empty : ∀ s, act s ∅ = s) (act_union : ∀ s t u, act (act s t) u = act s (t ∪ u))
    (h : filterBy change registry symbols = .ok (registry', changes)) :
    [] ∉ changes ∧ registry'.toFinset = act registry.toFinset changes.toFinset := by
  induction symbols generalizing registry changes with
  | nil =>
    cases h
    exact ⟨List.not_mem_nil, (act_empty _).symm⟩
  | cons symbol symbols ih =>
    simp only [filterBy] at h
    split at h
    · cases h
    · rename_i next changed hnext
      split at h
      · cases h
      · rename_i last others hrest
        cases h
        obtain ⟨hempty, hset⟩ := hchange hnext
        obtain ⟨hothers, hlast⟩ := ih hrest
        rw [hlast, hset, act_union]
        split
        · refine ⟨by simp [Ne.symm hempty, hothers], ?_⟩
          rw [List.toFinset_cons, Finset.singleton_union]
        · refine ⟨hothers, ?_⟩
          rw [Finset.empty_union]

theorem addAll_ok (h : registry.addAll symbols = .ok (registry', changes)) :
    [] ∉ changes ∧ registry'.toFinset = registry.toFinset ∪ changes.toFinset :=
  filterBy_ok add_ok Finset.union_empty Finset.union_assoc h

theorem removeAll_ok (h : registry.removeAll symbols = .ok (registry', changes)) :
    [] ∉ changes ∧ registry'.toFinset = registry.toFinset \ changes.toFinset :=
  filterBy_ok remove_ok (fun _ => Finset.sdiff_empty) (fun _ _ _ => sdiff_sdiff_left) h

end SubscriptionRegistry

end Leviathan
