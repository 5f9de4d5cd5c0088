import Mathlib.Data.List.Nodup

/-!
# A table of cells that are created on first use

A `Registry` gives every key a cell of its own, and never a second one. A cell is
known by its number, which stays what it is while keys are added, so that a party
can keep the number and come back to the cell.
-/

namespace Gurted.Lib

/-- What stands in a list after an element was replaced. -/
theorem getElem?_set_cases {α : Type*} {l : List α} {i j : Nat} {a b : α}
    (h : (l.set i a)[j]? = some b) : (j = i ∧ b = a) ∨ (j ≠ i ∧ l[j]? = some b) := by
  rw [List.getElem?_set] at h
  split at h
  · next heq =>
    split at h
    · exact .inl ⟨heq.symm, (Option.some.inj h).symm⟩
    · cases h
  · next hne => exact .inr ⟨Ne.symm hne, h⟩

/-- What stands in a list after an element was added. -/
theorem getElem?_concat_cases {α : Type*} {l : List α} {j : Nat} {a b : α}
    (h : (l ++ [a])[j]? = some b) : l[j]? = some b ∨ (j = l.length ∧ b = a) := by
  rw [List.getElem?_append] at h
  split at h
  · exact .inl h
  · rw [List.getElem?_singleton] at h
    split at h
    · exact .inr ⟨by omega, (Option.some.inj h).symm⟩
    · cases h

/-- Keys, and the cell of each. -/
structure Registry (κ ρ : Type*) where
  keys : List κ
  cells : List ρ
  nodup : keys.Nodup
  length_eq : cells.length = keys.length

namespace Registry

variable {κ ρ : Type*}

def empty : Registry κ ρ := ⟨[], [], List.nodup_nil, rfl⟩

/-- A cell is written. -/
def set (r : Registry κ ρ) (m : Nat) (c : ρ) : Registry κ ρ :=
  ⟨r.keys, r.cells.set m c, r.nodup, by rw [List.length_set, r.length_eq]⟩

@[simp] theorem set_cells (r : Registry κ ρ) (m : Nat) (c : ρ) :
    (r.set m c).cells = r.cells.set m c := rfl

/-- The cell that was written, and every other. -/
theorem cells_set {r : Registry κ ρ} {m m' : Nat} {c c' : ρ}
    (h : (r.set m c).cells[m']? = some c') :
    (m' = m ∧ c' = c) ∨ (m' ≠ m ∧ r.cells[m']? = some c') :=
  getElem?_set_cases h

theorem cells_set_self {r : Registry κ ρ} {m : Nat} {c : ρ} (h : r.cells[m]? = some c) (c' : ρ) :
    (r.set m c').cells[m]? = some c' := by
  obtain ⟨hlt, -⟩ := List.getElem?_eq_some_iff.mp h
  rw [set_cells, List.getElem?_set_self hlt]

theorem cells_set_ne {r : Registry κ ρ} {m m' : Nat} (h : m' ≠ m) (c : ρ) :
    (r.set m c).cells[m']? = r.cells[m']? := by
  rw [set_cells, List.getElem?_set_ne (Ne.symm h)]

/-- Every key has a cell. -/
theorem exists_cell (r : Registry κ ρ) {m : Nat} {k : κ} (h : r.keys[m]? = some k) :
    ∃ c, r.cells[m]? = some c := by
  obtain ⟨hlt, -⟩ := List.getElem?_eq_some_iff.mp h
  exact ⟨_, List.getElem?_eq_getElem (by rw [r.length_eq]; exact hlt)⟩

/-- **One cell for each key.** -/
theorem eq_of_key (r : Registry κ ρ) {m m' : Nat} {k : κ} (h : r.keys[m]? = some k)
    (h' : r.keys[m']? = some k) : m = m' := by
  obtain ⟨hlt, -⟩ := List.getElem?_eq_some_iff.mp h
  exact (List.getElem?_inj hlt r.nodup).mp (h.trans h'.symm)

variable [DecidableEq κ]

/-- The number of the cell of a key, which is created with `new` on first use. -/
def getOrInsert (r : Registry κ ρ) (k : κ) (new : ρ) : Nat × Registry κ ρ :=
  if h : k ∈ r.keys then (r.keys.idxOf k, r)
  else (r.keys.length, ⟨r.keys ++ [k], r.cells ++ [new],
    List.nodup_append.mpr ⟨r.nodup, List.nodup_singleton k, by
      intro a ha b hb hab
      rw [List.mem_singleton.mp hb] at hab
      exact h (hab ▸ ha)⟩,
    by simp [r.length_eq]⟩)

/-- The key gets its cell. -/
theorem keys_getOrInsert_self (r : Registry κ ρ) (k : κ) (new : ρ) :
    (r.getOrInsert k new).2.keys[(r.getOrInsert k new).1]? = some k := by
  rw [getOrInsert]
  split
  · next h => rw [List.getElem?_eq_getElem (List.idxOf_lt_length_of_mem h), List.getElem_idxOf]
  · simp

/-- Every other key keeps its own. -/
theorem keys_getOrInsert {r : Registry κ ρ} {m : Nat} {k' : κ} (h : r.keys[m]? = some k') (k : κ)
    (new : ρ) : (r.getOrInsert k new).2.keys[m]? = some k' := by
  obtain ⟨hlt, -⟩ := List.getElem?_eq_some_iff.mp h
  rw [getOrInsert]
  split
  · exact h
  · rw [List.getElem?_append_left hlt, h]

/-- The keys are the old ones and the one that was asked for. -/
theorem mem_keys_getOrInsert {r : Registry κ ρ} {k k' : κ} {new : ρ} :
    k' ∈ (r.getOrInsert k new).2.keys ↔ k' ∈ r.keys ∨ k' = k := by
  rw [getOrInsert]
  split
  · next h =>
    constructor
    · exact .inl
    · rintro (hold | rfl)
      · exact hold
      · exact h
  · rw [List.mem_append, List.mem_singleton]

/-- The cells are the old ones, and at most one new. -/
theorem cells_getOrInsert {r : Registry κ ρ} {k : κ} {new : ρ} {m : Nat} {c : ρ}
    (h : (r.getOrInsert k new).2.cells[m]? = some c) :
    r.cells[m]? = some c ∨ (m = r.cells.length ∧ c = new) := by
  rw [getOrInsert] at h
  split at h
  · exact .inl h
  · exact getElem?_concat_cases h

theorem cells_getOrInsert_of_some {r : Registry κ ρ} {m : Nat} {c : ρ} (h : r.cells[m]? = some c)
    (k : κ) (new : ρ) : (r.getOrInsert k new).2.cells[m]? = some c := by
  obtain ⟨hlt, -⟩ := List.getElem?_eq_some_iff.mp h
  rw [getOrInsert]
  split
  · exact h
  · rw [List.getElem?_append_left hlt, h]

end Registry

end Gurted.Lib
