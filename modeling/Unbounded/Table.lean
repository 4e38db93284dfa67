/-
This file is the library of hash tables. A table is an association list without
repeated keys; a result that reads a table only through its lookups holds for
every order its entries may be visited in. Mathlib has lookups, insertion and
removal; changing a value in place, changing every value, keeping some of the
entries and counting them are added here.
-/

import Mathlib

namespace Unbounded

/-- A table from keys to values. -/
abbrev Table (Key Value : Type*) := AList fun _ : Key => Value

namespace Table

variable {Key Value : Type*}

/-- The values of a table. -/
def values (table : Table Key Value) : List Value := table.entries.map (·.2)

/-- The number of entries. -/
def size (table : Table Key Value) : Nat := table.entries.length

/-- Change every value. -/
def mapValues (change : Value → Value) (table : Table Key Value) : Table Key Value where
  entries := table.entries.map fun entry => ⟨entry.1, change entry.2⟩
  nodupKeys := by
    rw [List.NodupKeys, List.keys, List.map_map]
    exact table.nodupKeys

/-- Keep the entries that pass a test. -/
def retain (test : Key → Value → Bool) (table : Table Key Value) : Table Key Value where
  entries := table.entries.filter fun entry => test entry.1 entry.2
  nodupKeys := table.nodupKeys.sublist List.filter_sublist

variable [DecidableEq Key]

/-- Change the value of one key, if the table has it. -/
def modify (key : Key) (change : Value → Value) (table : Table Key Value) : Table Key Value :=
  match table.lookup key with
  | some value => table.insert key (change value)
  | none => table

variable {table : Table Key Value} {key : Key} {found value : Value}

theorem mem_entries : ⟨key, value⟩ ∈ table.entries ↔ table.lookup key = some value :=
  AList.mem_lookup_iff.symm

theorem lookup_insert_eq (table : Table Key Value) (key other : Key) (value : Value) :
    (table.insert key value).lookup other =
      if other = key then some value else table.lookup other := by
  split
  · rename_i same
    rw [same, AList.lookup_insert]
  · rename_i differs
    rw [AList.lookup_insert_ne differs]

theorem lookup_erase_eq (table : Table Key Value) (key other : Key) :
    (table.erase key).lookup other = if other = key then none else table.lookup other := by
  split
  · rename_i same
    rw [same, AList.lookup_erase]
  · rename_i differs
    rw [AList.lookup_erase_ne differs]

theorem lookup_insert_some {other : Key} : (table.insert key value).lookup other = some found ↔
      other = key ∧ value = found ∨ other ≠ key ∧ table.lookup other = some found := by
  rw [lookup_insert_eq]
  split
  · rename_i same
    simp [same]
  · rename_i differs
    simp [differs]

theorem lookup_erase_some {other : Key} : (table.erase key).lookup other = some found ↔
      other ≠ key ∧ table.lookup other = some found := by
  rw [lookup_erase_eq]
  split
  · rename_i same
    simp [same]
  · rename_i differs
    simp [differs]

variable {property : Key → Value → Prop}

theorem forall_insert (old : ∀ other found, table.lookup other = some found → property other found)
    (new : property key value) :
    ∀ other found, (table.insert key value).lookup other = some found → property other found := by
  intro other found looked
  rcases lookup_insert_some.mp looked with ⟨rfl, rfl⟩ | ⟨-, looked⟩
  · exact new
  · exact old other found looked

theorem forall_erase (all : ∀ other found, table.lookup other = some found → property other found) :
    ∀ other found, (table.erase key).lookup other = some found → property other found :=
  fun other found looked => all other found (lookup_erase_some.mp looked).2

theorem lookup_modify (table : Table Key Value) (key other : Key) (change : Value → Value) :
    (table.modify key change).lookup other =
      if other = key then (table.lookup key).map change else table.lookup other := by
  unfold modify
  cases found : table.lookup key with
  | none =>
    show table.lookup other = if other = key then none else table.lookup other
    split
    · rename_i same
      rw [same, found]
    · rfl
  | some value => exact lookup_insert_eq table key other (change value)

theorem lookup_mapValues (table : Table Key Value) (change : Value → Value) (key : Key) :
    (table.mapValues change).lookup key = (table.lookup key).map change := by
  ext value
  rw [Option.map_eq_some_iff, ← mem_entries]
  show _ ∈ table.entries.map _ ↔ _
  rw [List.mem_map]
  constructor
  · rintro ⟨⟨_, old⟩, member, same⟩
    obtain ⟨rfl, changed⟩ := Sigma.mk.inj same
    exact ⟨old, mem_entries.mp member, eq_of_heq changed⟩
  · rintro ⟨old, found, rfl⟩
    exact ⟨⟨key, old⟩, mem_entries.mpr found, rfl⟩

theorem lookup_retain (table : Table Key Value) (test : Key → Value → Bool) (key : Key) :
    (table.retain test).lookup key = (table.lookup key).filter (test key) := by
  ext value
  rw [Option.filter_eq_some_iff, ← mem_entries, ← mem_entries]
  exact List.mem_filter

/-- The entries of a table, with one of them in front. -/
theorem entries_perm_erase (found : table.lookup key = some value) :
    table.entries.Perm (⟨key, value⟩ :: (table.erase key).entries) := by
  refine List.lookup_ext table.nodupKeys (table.insert key value).nodupKeys fun other read => ?_
  show table.lookup other = some read ↔ (table.insert key value).lookup other = some read
  rw [lookup_insert_eq]
  by_cases same : other = key
  · rw [if_pos same, same, found]
  · rw [if_neg same]

/-- Two tables with the same entries in any order. -/
def Reordered (first second : Table Key Value) : Prop := first.entries.Perm second.entries

theorem Reordered.lookup {first second : Table Key Value} (same : Reordered first second)
    (key : Key) : first.lookup key = second.lookup key :=
  AList.perm_lookup same

section

variable {Old New : Type*} {related : Old → New → Prop} {old : Option Old} {new : Option New}

theorem exists_of_rel_some {value : New} (pairs : Option.Rel related old new)
    (found : new = some value) : ∃ before, old = some before ∧ related before value := by
  cases pairs with
  | some holds =>
    cases found
    exact ⟨_, rfl, holds⟩
  | none => cases found

theorem exists_of_some_rel {value : Old} (pairs : Option.Rel related old new)
    (found : old = some value) : ∃ later, new = some later ∧ related value later := by
  cases pairs with
  | some holds =>
    cases found
    exact ⟨_, rfl, holds⟩
  | none => cases found

end

theorem erase_eq_self (fresh : table.lookup key = none) : table.erase key = table :=
  AList.ext (List.kerase_of_notMem_keys
    (show key ∉ table.entries.keys from AList.lookup_eq_none.mp fresh))

end Table

end Unbounded
