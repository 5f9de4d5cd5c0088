import Mathlib.Data.List.Sort
import Mathlib.Order.Basic

/-!
# Stable sorts

`SortsStably key l l'` says that `l'` is `l` by descending keys, with equal keys in the
order they have in `l`. There is one such list (`SortsStably.unique`), and `stableSort`
finds it; `stableSort_append_cons` takes the first of the greatest elements out of a list
before the rest is sorted.
-/

namespace Gurted.Lib

variable {α S : Type*} [LinearOrder S] (key : α → S)

/-- `l'` is `l` sorted by descending keys, and equal keys stay in order. -/
structure SortsStably (l l' : List α) : Prop where
  perm : l'.Perm l
  sorted : l'.Pairwise fun a b => key b ≤ key a
  stable : ∀ s, l'.filter (key · = s) = l.filter (key · = s)

/-- The stable sort. -/
def stableSort (l : List α) : List α := l.insertionSort fun a b => key b ≤ key a

variable {key}

/-- What is in one list is in the other, if both have the same elements of each key. -/
theorem mem_of_forall_filter {l l' : List α}
    (h : ∀ s, l.filter (key · = s) = l'.filter (key · = s)) {a : α} (ha : a ∈ l) : a ∈ l' := by
  have hmem : a ∈ l.filter (key · = key a) := List.mem_filter.mpr ⟨ha, by simp⟩
  rw [h] at hmem
  exact (List.mem_filter.mp hmem).1

/-- A sorted list is determined by the order of its equal keys. -/
theorem eq_of_forall_filter {l l' : List α} (hl : l.Pairwise fun a b => key b ≤ key a)
    (hl' : l'.Pairwise fun a b => key b ≤ key a)
    (h : ∀ s, l.filter (key · = s) = l'.filter (key · = s)) : l = l' := by
  induction l generalizing l' with
  | nil =>
    refine (List.eq_nil_iff_forall_not_mem.mpr fun a ha => ?_).symm
    cases mem_of_forall_filter (fun s => (h s).symm) ha
  | cons a l ih =>
    cases l' with
    | nil => cases mem_of_forall_filter h (List.mem_cons_self ..)
    | cons b l' =>
      rw [List.pairwise_cons] at hl hl'
      -- both heads have the greatest key
      have hba : key b ≤ key a := by
        rcases List.mem_cons.mp (mem_of_forall_filter (fun s => (h s).symm)
          (List.mem_cons_self ..)) with rfl | hb
        · exact le_refl _
        · exact hl.1 b hb
      have hab : key a ≤ key b := by
        rcases List.mem_cons.mp (mem_of_forall_filter h (List.mem_cons_self ..)) with rfl | ha
        · exact le_refl _
        · exact hl'.1 a ha
      have hkey : key b = key a := le_antisymm hba hab
      have hhead := h (key a)
      rw [List.filter_cons_of_pos (by simp), List.filter_cons_of_pos (by simp [hkey])] at hhead
      obtain ⟨rfl, -⟩ := List.cons.inj hhead
      refine congrArg (a :: ·) (ih hl.2 hl'.2 fun s => ?_)
      have hs := h s
      rw [List.filter_cons, List.filter_cons] at hs
      split at hs
      · exact (List.cons.inj hs).2
      · exact hs

/-- **One stable sort.** -/
theorem SortsStably.unique {l l₁ l₂ : List α} (h₁ : SortsStably key l l₁)
    (h₂ : SortsStably key l l₂) : l₁ = l₂ :=
  eq_of_forall_filter h₁.sorted h₂.sorted fun s => (h₁.stable s).trans (h₂.stable s).symm

theorem filter_orderedInsert (a : α) (l : List α) (s : S) :
    (l.orderedInsert (fun a b => key b ≤ key a) a).filter (key · = s)
      = (a :: l).filter (key · = s) := by
  induction l with
  | nil => rfl
  | cons b l ih =>
    rw [List.orderedInsert_cons]
    split
    · rfl
    · next hlt =>
      -- `a` goes behind `b`, whose key is another one
      have hne : key a ≠ key b := fun heq => hlt heq.ge
      rw [List.filter_cons, ih]
      simp only [List.filter_cons, decide_eq_true_eq]
      split
      · next hb =>
        have ha : ¬ key a = s := fun ha => hne (ha.trans hb.symm)
        rw [if_neg ha, if_neg ha]
      · rfl

theorem stableSort_cons (a : α) (l : List α) :
    stableSort key (a :: l) = (stableSort key l).orderedInsert (fun a b => key b ≤ key a) a := rfl

/-- **It sorts.** -/
theorem sortsStably_stableSort (l : List α) : SortsStably key l (stableSort key l) where
  perm := List.perm_insertionSort _ l
  sorted := by
    have : Std.Total fun a b : α => key b ≤ key a := ⟨fun a b => le_total (key b) (key a)⟩
    have : IsTrans α fun a b : α => key b ≤ key a := ⟨fun _ _ _ hab hbc => hbc.trans hab⟩
    exact List.pairwise_insertionSort _ l
  stable s := by
    induction l with
    | nil => rfl
    | cons a l ih =>
      rw [stableSort_cons, filter_orderedInsert, List.filter_cons, ih, List.filter_cons]

/-- **The first of the greatest elements** comes first, and the others are sorted without
it. -/
theorem stableSort_append_cons {l r : List α} {a : α} (hl : ∀ b ∈ l, key b < key a)
    (hr : ∀ b ∈ r, key b ≤ key a) :
    stableSort key (l ++ a :: r) = a :: stableSort key (l ++ r) := by
  have hrest : SortsStably key (l ++ r) (stableSort key (l ++ r)) := sortsStably_stableSort _
  refine (sortsStably_stableSort _).unique
    ⟨?_, List.pairwise_cons.mpr ⟨fun b hb => ?_, hrest.sorted⟩, fun s => ?_⟩
  · exact (hrest.perm.cons a).trans List.perm_middle.symm
  · rcases List.mem_append.mp (hrest.perm.mem_iff.mp hb) with hb | hb
    · exact (hl b hb).le
    · exact hr b hb
  · rw [List.filter_cons, hrest.stable, List.filter_append, List.filter_append, List.filter_cons]
    split
    · next ha =>
      have hnone : l.filter (key · = s) = [] := by
        refine List.filter_eq_nil_iff.mpr fun b hb hs => ?_
        rw [decide_eq_true_eq] at ha hs
        exact (hl b hb).ne (hs.trans ha.symm)
      rw [hnone]
      rfl
    · rfl

end Gurted.Lib
