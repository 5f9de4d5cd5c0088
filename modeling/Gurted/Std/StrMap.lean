import Mathlib.Data.List.AList
import Gurted.Std.Str

/-!
# Hash maps with strings as keys

A `HashMap` is an association list without a repeated key, in the order in which it
iterates. What is proved of `lookup` holds for every order.
-/

namespace Gurted

/-- `HashMap<String, α>`. -/
abbrev StrMap (α : Type) := AList fun _ : Str => α

namespace StrMap

variable {ι α : Type} {p : ι → Str} {f : ι → α} {F : Str → α}

/-- A map that is filled key by key keeps what it had for the others. -/
theorem lookup_foldl_insert_of_notMem {l : List ι} {k : Str} (hk : k ∉ l.map p) (m : StrMap α) :
    (l.foldl (fun m x => m.insert (p x) (f x)) m).lookup k = m.lookup k := by
  induction l generalizing m with
  | nil => rfl
  | cons x l ih =>
    rw [List.map_cons, List.mem_cons, not_or] at hk
    rw [List.foldl_cons, ih hk.2, AList.lookup_insert_ne hk.1]

theorem lookup_foldl_insert {l : List ι} (h : ∀ x ∈ l, f x = F (p x)) {k : Str}
    (hk : k ∈ l.map p) (m : StrMap α) :
    (l.foldl (fun m x => m.insert (p x) (f x)) m).lookup k = some (F k) := by
  induction l generalizing m with
  | nil => cases hk
  | cons x l ih =>
    rw [List.foldl_cons]
    by_cases hl : k ∈ l.map p
    · exact ih (fun y hy => h y (by simp [hy])) hl _
    · have hx : k = p x := by
        rw [List.map_cons, List.mem_cons] at hk
        exact hk.resolve_right hl
      rw [lookup_foldl_insert_of_notMem hl, h x (by simp), hx, AList.lookup_insert]

/-- A map that is filled with the entries of another one, in any order, is that one. -/
theorem lookup_foldl_entries {m : StrMap α} {items : List ((_ : Str) × α)}
    (h : items.Perm m.entries) (k : Str) :
    (items.foldl (fun (m : StrMap α) item => m.insert item.1 item.2) ∅).lookup k
      = m.lookup k := by
  have hkeys : k ∈ items.map Sigma.fst ↔ k ∈ m := (h.map Sigma.fst).mem_iff
  by_cases hk : k ∈ m
  · obtain ⟨x, hx⟩ := Option.isSome_iff_exists.mp (AList.lookup_isSome.mpr hk)
    have hvalues : ∀ item ∈ items, item.2 = (m.lookup item.1).getD x := by
      intro item hitem
      rw [AList.mem_lookup_iff.mpr (h.mem_iff.mp hitem), Option.getD_some]
    rw [lookup_foldl_insert (F := fun k => (m.lookup k).getD x) hvalues (hkeys.mpr hk), hx,
      Option.getD_some]
  · rw [lookup_foldl_insert_of_notMem (fun hmem => hk (hkeys.mp hmem))]
    exact (AList.lookup_eq_none.mpr hk).symm

/-- The map that has one value for every node. -/
theorem lookup_fill (ks : List Str) (x : α) (k : Str) :
    (ks.foldl (fun (m : StrMap α) k => m.insert k x) ∅).lookup k
      = if k ∈ ks then some x else none := by
  by_cases hk : k ∈ ks
  · rw [if_pos hk]
    exact lookup_foldl_insert (p := id) (F := fun _ => x) (fun _ _ => rfl)
      (by rw [List.map_id]; exact hk) ∅
  · rw [if_neg hk]
    exact lookup_foldl_insert_of_notMem (p := id) (by rw [List.map_id]; exact hk) ∅

end StrMap

end Gurted
