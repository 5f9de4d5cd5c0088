import Gurted.Lib.StableSort
import Gurted.Search.HotCache

/-!
# Merging shards (`merge_topk` of `gurtd/src/search/mod.rs`)

`merge_topk` takes the best head of the shards again and again. `mergeTopk_isTopK` says
that this is the beginning of the stable sort of all shards together.
-/

namespace Gurted.Search

open Gurted Gurted.Lib

variable {S : Type*} [LinearOrder S]

/-! ## `merge_topk` -/

/-- One turn of the inner loop, over the shard `si`; a better head has to be strictly
better. -/
def bestStep (best : Option (Nat × S)) (shard : List (SearchResultItem S) × Nat) :
    Option (Nat × S) :=
  match shard.1.head? with
  | none => best
  | some it =>
      match best with
      | none => some (shard.2, it.score)
      | some (bsi, bscore) =>
          if bscore < it.score then some (shard.2, it.score) else some (bsi, bscore)

/-- `best_idx` after the inner loop, without the index 0 of the head. -/
def bestIdx (shards : List (List (SearchResultItem S))) : Option (Nat × S) :=
  shards.zipIdx.foldl bestStep none

/-- `shards[si].remove(0)`; `none` is its panic. -/
def removeHead (shards : List (List (SearchResultItem S))) (si : Nat) :
    Option (SearchResultItem S × List (List (SearchResultItem S))) :=
  match shards[si]? with
  | some (it :: items) => some (it, shards.set si items)
  | _ => none

/-- The outer loop, with `left` more items to come. -/
def mergeLoop : Nat → List (List (SearchResultItem S)) → Option (List (SearchResultItem S))
  | 0, _ => some []
  | left + 1, shards =>
      match bestIdx shards with
      | none => some []
      | some (si, _) => do
          let (it, shards) ← removeHead shards si
          let out ← mergeLoop left shards
          return it :: out

/-- `merge_topk`; `none` is a panic. -/
def mergeTopk (shards : List (List (SearchResultItem S))) (k : Nat) :
    Option (List (SearchResultItem S)) :=
  mergeLoop k shards

/-! ## The best head -/

/-- A shard in descending order of score. -/
def Descending (shard : List (SearchResultItem S)) : Prop :=
  shard.Pairwise fun a b => b.score ≤ a.score

/-- The best head: it is better than every head before it, and no worse than one behind. -/
structure BestHead (pre : List (List (SearchResultItem S))) (it : SearchResultItem S)
    (post : List (List (SearchResultItem S))) : Prop where
  before : ∀ shard ∈ pre, ∀ head ∈ shard.head?, head.score < it.score
  behind : ∀ shard ∈ post, ∀ head ∈ shard.head?, head.score ≤ it.score

section BestHead
variable {pre post : List (List (SearchResultItem S))} {it : SearchResultItem S}

/-- Behind empty shards every head is the best. -/
theorem BestHead.of_empty (h : ∀ shard ∈ pre, shard = []) : BestHead pre it [] := by
  refine ⟨fun shard hshard head hhead => ?_, nofun⟩
  rw [h shard hshard] at hhead
  cases hhead

/-- A head that is no better does not change the best. -/
theorem BestHead.keep (h : BestHead pre it post) {shard : List (SearchResultItem S)}
    (hle : ∀ head ∈ shard.head?, head.score ≤ it.score) : BestHead pre it (post ++ [shard]) := by
  refine ⟨h.before, fun s hs => ?_⟩
  rcases List.mem_append.mp hs with hs | hs
  · exact h.behind s hs
  · rw [List.mem_singleton.mp hs]
    exact hle

/-- A head that is better than the best is better than all before it. -/
theorem BestHead.replace (h : BestHead pre it post) {it' : SearchResultItem S}
    (hlt : it.score < it'.score) (items : List (SearchResultItem S)) :
    BestHead (pre ++ (it :: items) :: post) it' [] := by
  refine ⟨fun s hs head hhead => ?_, nofun⟩
  rcases List.mem_append.mp hs with hs | hs
  · exact (h.before s hs head hhead).trans hlt
  · rcases List.mem_cons.mp hs with rfl | hs
    · cases hhead
      exact hlt
    · exact (h.behind s hs head hhead).trans_lt hlt

end BestHead

theorem bestIdx_concat (shards : List (List (SearchResultItem S)))
    (shard : List (SearchResultItem S)) :
    bestIdx (shards ++ [shard]) = bestStep (bestIdx shards) (shard, shards.length) := by
  rw [bestIdx, List.zipIdx_append, List.foldl_append, Nat.zero_add]
  rfl

/-- **The inner loop** finds nothing in empty shards, and otherwise the best head. -/
theorem bestIdx_cases (shards : List (List (SearchResultItem S))) :
    (bestIdx shards = none ∧ ∀ shard ∈ shards, shard = []) ∨
      ∃ pre it items post, shards = pre ++ (it :: items) :: post ∧ BestHead pre it post ∧
        bestIdx shards = some (pre.length, it.score) := by
  induction shards using List.reverseRecOn with
  | nil => exact .inl ⟨rfl, nofun⟩
  | append_singleton shards shard ih =>
    rw [bestIdx_concat]
    rcases ih with ⟨hnone, hempty⟩ | ⟨pre, it, items, post, rfl, hbest, hsome⟩
    · rw [hnone]
      cases shard with
      | nil =>
        refine .inl ⟨rfl, fun s hs => ?_⟩
        rcases List.mem_append.mp hs with hs | hs
        · exact hempty s hs
        · exact List.mem_singleton.mp hs
      | cons it items => exact .inr ⟨shards, it, items, [], rfl, .of_empty hempty, rfl⟩
    · rw [hsome]
      cases shard with
      | nil => exact .inr ⟨pre, it, items, post ++ [[]], by simp, hbest.keep nofun, rfl⟩
      | cons it' items' =>
        by_cases hlt : it.score < it'.score
        · exact .inr ⟨pre ++ (it :: items) :: post, it', items', [], rfl,
            hbest.replace hlt items, if_pos hlt⟩
        · have hle : ∀ head ∈ (it' :: items').head?, head.score ≤ it.score := by
            intro head hhead
            cases hhead
            exact not_lt.mp hlt
          exact .inr ⟨pre, it, items, post ++ [it' :: items'], by simp, hbest.keep hle, if_neg hlt⟩

/-! ## The top of all shards -/

/-- No item of a shard is better than its head. -/
theorem Descending.exists_head {shard : List (SearchResultItem S)} (h : Descending shard)
    {item : SearchResultItem S} (hitem : item ∈ shard) :
    ∃ head ∈ shard.head?, item.score ≤ head.score := by
  cases shard with
  | nil => cases hitem
  | cons head items =>
    refine ⟨head, rfl, ?_⟩
    rcases List.mem_cons.mp hitem with rfl | hitem
    · exact le_refl _
    · exact (List.pairwise_cons.mp h).1 item hitem

section Best
variable {pre post : List (List (SearchResultItem S))} {it : SearchResultItem S}
  {items : List (SearchResultItem S)}

omit [LinearOrder S] in
theorem removeHead_append :
    removeHead (pre ++ (it :: items) :: post) pre.length = some (it, pre ++ items :: post) := by
  rw [removeHead, List.getElem?_append_right (le_refl _), Nat.sub_self, List.getElem?_cons_zero]
  simp

/-- **The best head is the first of the best items**: all shards sorted together start with
it, and go on as they do without it. -/
theorem BestHead.stableSort (h : BestHead pre it post)
    (hsorted : ∀ shard ∈ pre ++ (it :: items) :: post, Descending shard) :
    Lib.stableSort SearchResultItem.score (pre ++ (it :: items) :: post).flatten
      = it :: Lib.stableSort SearchResultItem.score (pre ++ items :: post).flatten := by
  have hcut : (pre ++ (it :: items) :: post).flatten
      = pre.flatten ++ it :: (items ++ post.flatten) := by simp
  have hrest : (pre ++ items :: post).flatten = pre.flatten ++ (items ++ post.flatten) := by simp
  rw [hcut, hrest]
  refine stableSort_append_cons (fun item hitem => ?_) fun item hitem => ?_
  · obtain ⟨shard, hshard, hitem⟩ := List.mem_flatten.mp hitem
    obtain ⟨head, hhead, hle⟩ := (hsorted shard (List.mem_append_left _ hshard)).exists_head hitem
    exact hle.trans_lt (h.before shard hshard head hhead)
  · rcases List.mem_append.mp hitem with hitem | hitem
    · have hown := hsorted (it :: items) (List.mem_append_right _ (List.mem_cons_self ..))
      exact (List.pairwise_cons.mp hown).1 item hitem
    · obtain ⟨shard, hshard, hitem⟩ := List.mem_flatten.mp hitem
      obtain ⟨head, hhead, hle⟩ := (hsorted shard
        (List.mem_append_right _ (List.mem_cons_of_mem _ hshard))).exists_head hitem
      exact hle.trans (h.behind shard hshard head hhead)

end Best

/-- **The loop** takes the items off the sorted list, one a turn. -/
theorem mergeLoop_eq (left : Nat) {shards : List (List (SearchResultItem S))}
    (hsorted : ∀ shard ∈ shards, Descending shard) :
    mergeLoop left shards
      = some ((stableSort SearchResultItem.score shards.flatten).take left) := by
  induction left generalizing shards with
  | zero => rfl
  | succ left ih =>
    rw [mergeLoop]
    rcases bestIdx_cases shards with ⟨hnone, hempty⟩ | ⟨pre, it, items, post, rfl, hbest, hsome⟩
    · have hflat : shards.flatten = [] := List.flatten_eq_nil_iff.mpr hempty
      rw [hnone, hflat]
      rfl
    · have hrest : ∀ shard ∈ pre ++ items :: post, Descending shard := by
        intro shard hshard
        rcases List.mem_append.mp hshard with hshard | hshard
        · exact hsorted shard (List.mem_append_left _ hshard)
        · rcases List.mem_cons.mp hshard with rfl | hshard
          · have hown := hsorted (it :: shard) (List.mem_append_right _ (List.mem_cons_self ..))
            exact (List.pairwise_cons.mp hown).2
          · exact hsorted shard (List.mem_append_right _ (List.mem_cons_of_mem _ hshard))
      rw [hsome, hbest.stableSort hsorted]
      simp only [removeHead_append, ih hrest, Option.bind_eq_bind, Option.bind_some,
        List.take_succ_cons]
      rfl

/-- The first `k` of the stable sort of all shards together: it is itself sorted, loses
nothing above the cut, and of equal scores it has the first in the order of the shards. -/
structure IsTopK (shards : List (List (SearchResultItem S))) (k : Nat)
    (out : List (SearchResultItem S)) : Prop where
  sort : ∃ sorted, SortsStably SearchResultItem.score shards.flatten sorted ∧ out = sorted.take k
  length : out.length = min k shards.flatten.length
  nothingLost : ∃ rest, (out ++ rest).Perm shards.flatten ∧
    ∀ item ∈ out, ∀ left ∈ rest, left.score ≤ item.score
  descending : Descending out
  ties : ∀ score, out.filter (·.score = score) <+: shards.flatten.filter (·.score = score)

theorem isTopK_take {shards : List (List (SearchResultItem S))}
    {sorted : List (SearchResultItem S)}
    (h : SortsStably SearchResultItem.score shards.flatten sorted) (k : Nat) :
    IsTopK shards k (sorted.take k) := by
  have hcut := h.sorted
  rw [← List.take_append_drop k sorted, List.pairwise_append] at hcut
  refine ⟨⟨sorted, h, rfl⟩, ?_, ⟨sorted.drop k, ?_, hcut.2.2⟩, hcut.1, fun score => ?_⟩
  · rw [List.length_take, h.perm.length_eq]
  · rw [List.take_append_drop]
    exact h.perm
  · rw [← h.stable score]
    exact (List.take_prefix k sorted).filter _

/-- **`merge_topk` is a stable top-k**, and never panics, on shards in descending order. -/
theorem mergeTopk_isTopK {shards : List (List (SearchResultItem S))}
    (hsorted : ∀ shard ∈ shards, shard.Pairwise fun a b => b.score ≤ a.score) (k : Nat) :
    ∃ out, mergeTopk shards k = some out ∧ IsTopK shards k out :=
  ⟨_, mergeLoop_eq k hsorted, isTopK_take (sortsStably_stableSort _) k⟩

/-- A tie between two shards, and more asked for than there is. -/
theorem mergeTopk_isTopK_tie :
    ∃ out, mergeTopk [[⟨['a'], ['a'], 5⟩, ⟨['b'], ['b'], 2⟩], [], [⟨['c'], ['c'], (5 : Nat)⟩]] 4
        = some out ∧
      IsTopK [[⟨['a'], ['a'], 5⟩, ⟨['b'], ['b'], 2⟩], [], [⟨['c'], ['c'], 5⟩]] 4 out :=
  mergeTopk_isTopK (by simp) 4

end Gurted.Search
