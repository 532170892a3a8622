import Mathlib.Algebra.GroupWithZero.Nat
import Mathlib.Data.List.AList

/-! # Tables

A finite map that can be swept: entries are counted, and those that do not pass a test
are dropped. -/

namespace EclipseOS.Foundation

abbrev Table (κ ν : Type) := AList fun _ : κ => ν

namespace Table

variable {κ ν : Type} {key other : κ} {value : ν}

/-- `HashMap::retain`. -/
def retain (keep : κ → ν → Bool) (table : Table κ ν) : Table κ ν where
  entries := table.entries.filter fun entry => keep entry.1 entry.2
  nodupKeys := table.nodupKeys.sublist List.filter_sublist

def count (test : κ → ν → Bool) (table : Table κ ν) : Nat :=
  table.entries.countP fun entry => test entry.1 entry.2

variable [DecidableEq κ] {table : Table κ ν} {keep test : κ → ν → Bool}

theorem lookup_eq_some : table.lookup key = some value ↔ ⟨key, value⟩ ∈ table.entries :=
  AList.mem_lookup_iff

@[simp] theorem lookup_retain :
    (retain keep table).lookup key = some value ↔
      table.lookup key = some value ∧ keep key value = true := by
  rw [lookup_eq_some, lookup_eq_some, retain, List.mem_filter]

theorem lookup_erase_eq_some :
    (table.erase key).lookup other = some value ↔
      other ≠ key ∧ table.lookup other = some value := by
  by_cases same : other = key
  · subst same
    simp
  · rw [AList.lookup_erase_ne same]
    simp [same]

theorem lookup_insert_eq_some {inserted : ν} :
    (table.insert key inserted).lookup other = some value ↔
      other = key ∧ inserted = value ∨ other ≠ key ∧ table.lookup other = some value := by
  by_cases same : other = key
  · subst same
    simp
  · rw [AList.lookup_insert_ne same]
    simp [same]

theorem count_insert (test : κ → ν → Bool) (value : ν) (fresh : table.lookup key = none) :
    count test (table.insert key value) =
      count test table + if test key value then 1 else 0 := by
  rw [count, AList.entries_insert_of_notMem (AList.lookup_eq_none.mp fresh), List.countP_cons,
    count]

theorem count_erase (test : κ → ν → Bool) (found : table.lookup key = some value) :
    count test table = count test (table.erase key) + if test key value then 1 else 0 := by
  have member : key ∈ table.entries.keys :=
    List.mem_keys_of_mem (lookup_eq_some.mp found)
  rcases List.exists_of_kerase member with ⟨here, before, after, fresh, split, erased⟩
  have same : here = value := by
    have held : (⟨key, here⟩ : Sigma fun _ : κ => ν) ∈ table.entries := by
      rw [split]
      exact List.mem_append_right before (List.mem_cons_self ..)
    have looked := lookup_eq_some.mpr held
    rw [found] at looked
    exact (Option.some.inj looked).symm
  subst same
  have rest : (table.erase key).entries = before ++ after := erased
  rw [count, count, rest, split, List.countP_append, List.countP_cons, List.countP_append,
    Nat.add_assoc]

/-- What the entries come to, each by its measure. -/
def total (measure : κ → ν → Nat) (table : Table κ ν) : Nat :=
  (table.entries.map fun entry => measure entry.1 entry.2).sum

theorem total_erase (measure : κ → ν → Nat) (found : table.lookup key = some value) :
    total measure table = total measure (table.erase key) + measure key value := by
  have member : key ∈ table.entries.keys :=
    List.mem_keys_of_mem (lookup_eq_some.mp found)
  rcases List.exists_of_kerase member with ⟨here, before, after, fresh, split, erased⟩
  have same : here = value := by
    have held : (⟨key, here⟩ : Sigma fun _ : κ => ν) ∈ table.entries := by
      rw [split]
      exact List.mem_append_right before (List.mem_cons_self ..)
    have looked := lookup_eq_some.mpr held
    rw [found] at looked
    exact (Option.some.inj looked).symm
  subst same
  have rest : (table.erase key).entries = before ++ after := erased
  rw [total, total, rest, split]
  simp only [List.map_append, List.map_cons, List.sum_append, List.sum_cons]
  omega

theorem total_erase_of_none (measure : κ → ν → Nat) (missing : table.lookup key = none) :
    total measure (table.erase key) = total measure table := by
  have same : (table.erase key).entries = table.entries :=
    List.kerase_of_notMem_keys (AList.lookup_eq_none.mp missing)
  rw [total, same, total]

theorem total_insert (measure : κ → ν → Nat) (value : ν) :
    total measure (table.insert key value) =
      total measure (table.erase key) + measure key value := by
  rw [total, AList.entries_insert, List.map_cons, List.sum_cons, total]
  exact Nat.add_comm _ _

theorem insert_erase (value : ν) : (table.erase key).insert key value = table.insert key value := by
  apply AList.ext
  rw [AList.entries_insert, AList.entries_insert]
  have gone : key ∉ (table.erase key).entries.keys :=
    AList.lookup_eq_none.mp (AList.lookup_erase key table)
  rw [List.kerase_of_notMem_keys gone]
  rfl

theorem count_retain
    (kept : ∀ key value, table.lookup key = some value → test key value = true →
      keep key value = true) :
    count test (retain keep table) = count test table := by
  rw [count, retain, List.countP_filter, count]
  apply List.countP_congr
  rintro ⟨key, value⟩ member
  have passes := kept key value (lookup_eq_some.mpr member)
  simp only [Bool.and_eq_true]
  exact ⟨fun both => both.1, fun counted => ⟨counted, passes counted⟩⟩

theorem count_retain_le : count test (retain keep table) ≤ count test table :=
  List.Sublist.countP_le List.filter_sublist

theorem count_eq_zero :
    count test table = 0 ↔
      ∀ key value, table.lookup key = some value → test key value = false := by
  rw [count, List.countP_eq_zero]
  constructor
  · intro none key value found
    simpa using none _ (lookup_eq_some.mp found)
  · rintro none ⟨key, value⟩ member
    simpa using none key value (lookup_eq_some.mpr member)

end Table

end EclipseOS.Foundation
