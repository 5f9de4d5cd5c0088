import Gurted.Search.Gather
import Gurted.Search.Merge

/-!
# Searching in shards (`gurtd/src/search/mod.rs`)

`gather_with_timeout` and `merge_topk` together. A shard can leave out what is behind its
`k` best items: `merge_topk` takes one head at a time, so it does not see them.
-/

namespace Gurted.Search

open Gurted Gurted.Lib

/-! ## Shards that are cut off -/

section Cut
variable {S : Type*} [LinearOrder S] {left : Nat} {cut shards : List (List (SearchResultItem S))}

/-- Each shard is cut off, with at least `left` items kept. -/
abbrev CutOff (left : Nat) (cut shards : List (List (SearchResultItem S))) : Prop :=
  List.Forall₂ (fun c shard => ∃ n, left ≤ n ∧ c = shard.take n) cut shards

omit [LinearOrder S] in
theorem CutOff.mono {fewer : Nat} (h : CutOff left cut shards) (hle : fewer ≤ left) :
    CutOff fewer cut shards :=
  h.imp fun _ _ ⟨n, hn, htake⟩ => ⟨n, hle.trans hn, htake⟩

/-- The inner loop sees the heads only. -/
theorem CutOff.bestIdx_eq (h : CutOff (left + 1) cut shards) : bestIdx cut = bestIdx shards := by
  have hloop : ∀ (best : Option (Nat × S)) (i : Nat),
      (cut.zipIdx i).foldl bestStep best = (shards.zipIdx i).foldl bestStep best := by
    induction h with
    | nil => exact fun _ _ => rfl
    | @cons c shard cut shards hc _ ih =>
      intro best i
      obtain ⟨n, hn, rfl⟩ := hc
      obtain ⟨m, rfl⟩ := Nat.exists_eq_add_one_of_ne_zero (Nat.ne_of_gt (Nat.zero_lt_of_lt hn))
      have hstep : bestStep best (shard.take (m + 1), i) = bestStep best (shard, i) := by
        cases shard <;> rfl
      rw [List.zipIdx_cons, List.zipIdx_cons, List.foldl_cons, List.foldl_cons, hstep]
      exact ih _ _
  exact hloop none 0

omit [LinearOrder S] in
theorem removeHead_cons_succ (shard : List (SearchResultItem S))
    (shards : List (List (SearchResultItem S))) (si : Nat) :
    removeHead (shard :: shards) (si + 1)
      = (removeHead shards si).map fun p => (p.1, shard :: p.2) := by
  simp only [removeHead, List.getElem?_cons_succ, List.set_cons_succ]
  cases shards[si]? with
  | none => rfl
  | some items => cases items <;> rfl

omit [LinearOrder S] in
/-- A head that is taken off leaves a place for one less. -/
theorem CutOff.removeHead (h : CutOff (left + 1) cut shards) {si : Nat} {it : SearchResultItem S}
    {rest : List (List (SearchResultItem S))} (hremove : removeHead shards si = some (it, rest)) :
    ∃ restCut, Search.removeHead cut si = some (it, restCut) ∧ CutOff left restCut rest := by
  induction h generalizing si rest with
  | nil => cases hremove
  | @cons c shard cut shards hc htail ih =>
    obtain ⟨n, hn, rfl⟩ := hc
    cases si with
    | zero =>
      cases shard with
      | nil => cases hremove
      | cons head items =>
        cases hremove
        obtain ⟨m, rfl⟩ := Nat.exists_eq_add_one_of_ne_zero (Nat.ne_of_gt (Nat.zero_lt_of_lt hn))
        have htail' : CutOff left cut shards := CutOff.mono htail (Nat.le_succ left)
        exact ⟨items.take m :: cut, rfl, .cons ⟨m, Nat.le_of_succ_le_succ hn, rfl⟩ htail'⟩
    | succ si =>
      rw [removeHead_cons_succ] at hremove
      obtain ⟨⟨it', rest'⟩, hremove', heq⟩ := Option.map_eq_some_iff.mp hremove
      cases heq
      obtain ⟨restCut, hcut, hrest⟩ := ih hremove'
      refine ⟨shard.take n :: restCut, ?_, .cons ⟨n, Nat.le_of_succ_le hn, rfl⟩ hrest⟩
      rw [removeHead_cons_succ, hcut]
      rfl

/-- **The loop** with `left` items to come does not see what is cut off behind as many. -/
theorem CutOff.mergeLoop_eq (h : CutOff left cut shards) :
    mergeLoop left cut = mergeLoop left shards := by
  induction left generalizing cut shards with
  | zero => rfl
  | succ left ih =>
    rw [mergeLoop, mergeLoop, h.bestIdx_eq]
    rcases bestIdx_cases shards with ⟨hnone, -⟩ | ⟨pre, it, items, post, rfl, -, hsome⟩
    · rw [hnone]
    · obtain ⟨restCut, hcut, hrest⟩ := h.removeHead removeHead_append
      rw [hsome]
      simp only [hcut, removeHead_append, Option.bind_eq_bind, Option.bind_some, ih hrest]

end Cut

/-! ## What is gathered -/

section Gathered
variable {S : Type*} {timeout : Nat} {tasks : List (ShardTask S)}

/-- The shard returns its first `n` items. -/
def ShardTask.first (n : Nat) (task : ShardTask S) : ShardTask S :=
  { task with result := task.result.map (List.take n) }

/-- Each task returns its first items, at least `k` of them. -/
abbrev FirstOf (k : Nat) (firsts tasks : List (ShardTask S)) : Prop :=
  List.Forall₂ (fun first task => ∃ n, k ≤ n ∧ first = task.first n) firsts tasks

theorem cutOff_first {k n : Nat} (hn : k ≤ n) (task : ShardTask S) :
    CutOff k (task.first n).result.toList task.result.toList := by
  rw [ShardTask.first]
  cases task.result with
  | none => exact .nil
  | some items => exact .cons ⟨n, hn, rfl⟩ .nil

/-- What is gathered of the first items is what is gathered, cut off. -/
theorem FirstOf.gatherLoop {k now : Nat} {firsts : List (ShardTask S)}
    (h : FirstOf k firsts tasks) :
    CutOff k (Search.gatherLoop timeout now firsts) (Search.gatherLoop timeout now tasks) := by
  induction h generalizing now with
  | nil => exact .nil
  | @cons first task firsts tasks hfirst _ ih =>
    obtain ⟨n, hn, rfl⟩ := hfirst
    have hfinish : (task.first n).finish = task.finish := rfl
    rw [Search.gatherLoop, Search.gatherLoop, hfinish]
    split
    · exact List.rel_append (cutOff_first hn task) ih
    · exact ih

/-- What is gathered was returned by a task. -/
theorem exists_of_mem_gatherLoop {now : Nat} {items : List (SearchResultItem S)}
    (h : items ∈ gatherLoop timeout now tasks) : ∃ task ∈ tasks, task.result = some items := by
  induction tasks generalizing now with
  | nil => cases h
  | cons task tasks ih =>
    rw [gatherLoop] at h
    split at h
    · rcases List.mem_append.mp h with h | h
      · exact ⟨task, List.mem_cons_self .., Option.mem_toList.mp h⟩
      · obtain ⟨task', htask', hresult⟩ := ih h
        exact ⟨task', List.mem_cons_of_mem _ htask', hresult⟩
    · obtain ⟨task', htask', hresult⟩ := ih h
      exact ⟨task', List.mem_cons_of_mem _ htask', hresult⟩

/-- What is returned in time is gathered. -/
theorem mem_gatherLoop {now : Nat} {task : ShardTask S} (htask : task ∈ tasks)
    (htime : task.finish ≤ timeout) {items : List (SearchResultItem S)}
    (hresult : task.result = some items) : items ∈ gatherLoop timeout now tasks := by
  induction tasks generalizing now with
  | nil => cases htask
  | cons other tasks ih =>
    rw [gatherLoop]
    rcases List.mem_cons.mp htask with rfl | htask
    · rw [if_pos (by omega)]
      exact List.mem_append_left _ (Option.mem_toList.mpr hresult)
    · split
      · exact List.mem_append_right _ (ih htask)
      · exact ih htask

end Gathered

/-! ## A sharded search -/

variable {S : Type*} [LinearOrder S]

/-- What does not get into the top is no better than what is there, and the top is full. -/
theorem IsTopK.full_of_not_mem {shards : List (List (SearchResultItem S))} {k : Nat}
    {out : List (SearchResultItem S)} (h : IsTopK shards k out) {item : SearchResultItem S}
    (hitem : item ∈ shards.flatten) (hout : item ∉ out) :
    out.length = k ∧ ∀ other ∈ out, item.score ≤ other.score := by
  obtain ⟨rest, hperm, hle⟩ := h.nothingLost
  have hrest : item ∈ rest :=
    (List.mem_append.mp (hperm.mem_iff.mpr hitem)).resolve_left hout
  refine ⟨?_, fun other hother => hle other hother item hrest⟩
  have hlength := hperm.length_eq
  rw [List.length_append] at hlength
  have hpos := List.length_pos_of_mem hrest
  have htop := h.length
  omega

/-- **A sharded search.** For every list of shards, whenever they complete or panic, each with its
items in descending order: if each returns its `k` best items or more, then what is
gathered and merged is the stable top of all items of the shards that are gathered, as
if none had left any out; and each item of a shard that completes in time is there, or
there are `k` others as good. -/
theorem sharded_topK {tasks firsts : List (ShardTask S)} {timeout k : Nat}
    (hfirst : FirstOf k firsts tasks)
    (hsorted : ∀ task ∈ tasks, ∀ items, task.result = some items → Descending items) :
    ∃ out, mergeTopk (gatherWithTimeout firsts timeout) k = some out ∧
      IsTopK (gatherWithTimeout tasks timeout) k out ∧
      ∀ task ∈ tasks, task.finish ≤ timeout → ∀ items, task.result = some items →
        ∀ item ∈ items, item ∈ out ∨
          out.length = k ∧ ∀ other ∈ out, item.score ≤ other.score := by
  have hdescending : ∀ shard ∈ gatherWithTimeout tasks timeout, Descending shard := by
    intro shard hshard
    obtain ⟨task, htask, hresult⟩ := exists_of_mem_gatherLoop hshard
    exact hsorted task htask shard hresult
  obtain ⟨out, hmerge, htop⟩ : ∃ out, mergeTopk (gatherWithTimeout tasks timeout) k = some out ∧
      IsTopK (gatherWithTimeout tasks timeout) k out :=
    ⟨_, mergeLoop_eq k hdescending, isTopK_take (sortsStably_stableSort _) k⟩
  have hcut : mergeTopk (gatherWithTimeout firsts timeout) k
      = mergeTopk (gatherWithTimeout tasks timeout) k := CutOff.mergeLoop_eq hfirst.gatherLoop
  refine ⟨out, hcut.trans hmerge, htop, fun task htask htime items hresult item hitem => ?_⟩
  by_cases hout : item ∈ out
  · exact .inl hout
  · have hgathered : item ∈ (gatherWithTimeout tasks timeout).flatten :=
      List.mem_flatten.mpr ⟨items, mem_gatherLoop htask htime hresult, hitem⟩
    exact .inr (htop.full_of_not_mem hgathered hout)

/-- Two shards with three items, one that panics, and one that is late. -/
def fourShards : List (ShardTask Nat) :=
  [⟨3, some [⟨['a'], ['a'], 5⟩, ⟨['b'], ['b'], 4⟩, ⟨['c'], ['c'], 1⟩]⟩, ⟨6, none⟩,
    ⟨9, some [⟨['d'], ['d'], 7⟩, ⟨['e'], ['e'], 4⟩, ⟨['f'], ['f'], 4⟩]⟩,
    ⟨25, some [⟨['g'], ['g'], 9⟩]⟩]

/-- The first shard returns two items, the third all it has. -/
def fourFirsts : List (ShardTask Nat) :=
  [⟨3, some [⟨['a'], ['a'], 5⟩, ⟨['b'], ['b'], 4⟩]⟩, ⟨6, none⟩,
    ⟨9, some [⟨['d'], ['d'], 7⟩, ⟨['e'], ['e'], 4⟩, ⟨['f'], ['f'], 4⟩]⟩,
    ⟨25, some [⟨['g'], ['g'], 9⟩]⟩]

theorem sharded_topK_fourShards :
    ∃ out, mergeTopk (gatherWithTimeout fourFirsts 10) 2 = some out ∧
      IsTopK (gatherWithTimeout fourShards 10) 2 out ∧
      ∀ task ∈ fourShards, task.finish ≤ 10 → ∀ items, task.result = some items →
        ∀ item ∈ items, item ∈ out ∨
          out.length = 2 ∧ ∀ other ∈ out, item.score ≤ other.score := by
  refine sharded_topK ?_ fun task htask items hresult => ?_
  · refine .cons ⟨2, Nat.le_refl 2, rfl⟩ (.cons ⟨2, Nat.le_refl 2, rfl⟩ ?_)
    exact .cons ⟨3, Nat.le_succ 2, rfl⟩ (.cons ⟨2, Nat.le_refl 2, rfl⟩ .nil)
  · simp only [fourShards, List.mem_cons, List.not_mem_nil, or_false] at htask
    rcases htask with rfl | rfl | rfl | rfl
    · cases hresult
      simp [Descending]
    · cases hresult
    · cases hresult
      simp [Descending]
    · cases hresult
      simp [Descending]

end Gurted.Search
