import Gurted.Lib.Stationary
import Gurted.Link.Graph

/-!
# What PageRank computes

`pagerank_relabel`: the scores depend on the edges alone, not on the order in which they
were added nor on the text of the URLs. `pagerank_converges`: with more iterations they
approach the one assignment of scores that another iteration would not change.
-/

namespace Gurted.Link.LinkGraph

open Gurted Gurted.Lib

/-! ## The graph of some edges -/

theorem mem_ofEdges {calls : List (Str × Str)} {u : Str} :
    u ∈ (ofEdges calls).edges ↔ ∃ call ∈ calls, u = call.1 ∨ u = call.2 := by
  induction calls using List.reverseRecOn with
  | nil =>
    constructor
    · intro h
      exact absurd h (AList.notMem_empty u)
    · rintro ⟨call, hcall, -⟩
      cases hcall
  | append_singleton calls call ih =>
    have hlast : ofEdges (calls ++ [call]) = (ofEdges calls).addEdge call.1 call.2 := by
      rw [ofEdges, List.foldl_append]
      rfl
    rw [hlast, mem_addEdge, ih]
    simp only [List.mem_append, List.mem_singleton, or_and_right, exists_or, exists_eq_left]
    exact or_left_comm

/-- The targets of a node are those of its edges, in the order of the calls. -/
theorem targets_ofEdges (calls : List (Str × Str)) (u : Str) :
    (ofEdges calls).targets u = (calls.filter fun call => call.1 = u).map Prod.snd := by
  induction calls using List.reverseRecOn with
  | nil => rfl
  | append_singleton calls call ih =>
    have hlast : ofEdges (calls ++ [call]) = (ofEdges calls).addEdge call.1 call.2 := by
      rw [ofEdges, List.foldl_append]
      rfl
    rw [hlast, targets_addEdge, List.filter_append, List.map_append, ← ih]
    by_cases hu : u = call.1
    · rw [if_pos hu, ← hu, List.filter_cons_of_pos (by simp [hu])]
      rfl
    · rw [if_neg hu, List.filter_cons_of_neg (by simpa using Ne.symm hu)]
      simp

/-! ## Edges in another order, under other names -/

section Relabel
variable {ρ : Str → Str} {calls calls' : List (Str × Str)}

theorem targets_relabel (hρ : Function.Injective ρ)
    (h : calls'.Perm (calls.map fun call => (ρ call.1, ρ call.2))) (u : Str) :
    ((ofEdges calls').targets (ρ u)).Perm (((ofEdges calls).targets u).map ρ) := by
  have hsame : ((calls.map fun call => (ρ call.1, ρ call.2)).filter
        fun call => call.1 = ρ u).map Prod.snd
      = ((calls.filter fun call => call.1 = u).map Prod.snd).map ρ := by
    rw [List.filter_map, List.map_map, List.map_map]
    have hfilter : ((fun call : Str × Str => decide (call.1 = ρ u))
        ∘ fun call : Str × Str => (ρ call.1, ρ call.2)) = fun call => decide (call.1 = u) := by
      funext call
      simp [hρ.eq_iff]
    rw [hfilter]
    rfl
  rw [targets_ofEdges, targets_ofEdges, ← hsame]
  exact (h.filter _).map _

theorem mem_relabel (h : calls'.Perm (calls.map fun call => (ρ call.1, ρ call.2))) {v : Str} :
    v ∈ (ofEdges calls').edges ↔ ∃ u ∈ (ofEdges calls).edges, ρ u = v := by
  rw [mem_ofEdges]
  constructor
  · rintro ⟨call', hcall', hv⟩
    obtain ⟨call, hcall, rfl⟩ := List.mem_map.mp (h.mem_iff.mp hcall')
    rcases hv with hv | hv
    · exact ⟨call.1, mem_ofEdges.mpr ⟨call, hcall, .inl rfl⟩, hv.symm⟩
    · exact ⟨call.2, mem_ofEdges.mpr ⟨call, hcall, .inr rfl⟩, hv.symm⟩
  · rintro ⟨u, hu, rfl⟩
    obtain ⟨call, hcall, hu⟩ := mem_ofEdges.mp hu
    refine ⟨_, h.mem_iff.mpr (List.mem_map_of_mem hcall), ?_⟩
    rcases hu with rfl | rfl
    · exact .inl rfl
    · exact .inr rfl

/-- **Only the edges count.** Two graphs that were built from the same edges, with their
repetitions, but in any order and with other URLs for the nodes: each node has the same
score in both, after every number of iterations, in whatever order the maps iterate. -/
theorem pagerank_relabel (hρ : Function.Injective ρ)
    (h : calls'.Perm (calls.map fun call => (ρ call.1, ρ call.2))) {g g' : LinkGraph}
    (horder : g.edges.entries.Perm (ofEdges calls).edges.entries)
    (horder' : g'.edges.entries.Perm (ofEdges calls').edges.entries) (d : ℚ) (iters : ℕ) (u : Str) :
    (g'.pagerank d iters).lookup (ρ u) = (g.pagerank d iters).lookup u := by
  rw [lookup_pagerank_perm (closed_ofEdges calls) horder,
    lookup_pagerank_perm (closed_ofEdges calls') horder']
  have hg := closed_ofEdges calls
  have hg' := closed_ofEdges calls'
  have hmem : ρ u ∈ (ofEdges calls').edges ↔ u ∈ (ofEdges calls).edges := by
    rw [mem_relabel h]
    constructor
    · rintro ⟨w, hw, hsame⟩
      exact hρ hsame ▸ hw
    · exact fun hu => ⟨u, hu, rfl⟩
  have hnodes : ((ofEdges calls').links hg').nodes = ((ofEdges calls).links hg).nodes.image ρ := by
    ext v
    show v ∈ (ofEdges calls').edges.keys.toFinset ↔
      v ∈ (ofEdges calls).edges.keys.toFinset.image ρ
    simp only [Finset.mem_image, List.mem_toFinset]
    exact mem_relabel h
  have hpower : ((ofEdges calls').links hg').power d iters (ρ u)
      = ((ofEdges calls).links hg).power d iters u := by
    refine ((ofEdges calls).links hg).power_relabel hρ hnodes (fun u _ => ?_) (fun u _ v => ?_) d
      iters u
    · exact (targets_relabel hρ h u).length_eq.trans (List.length_map ρ)
    · show @List.count Str instBEqOfDecidableEq (ρ v) ((ofEdges calls').targets (ρ u))
        = @List.count Str instBEqOfDecidableEq v ((ofEdges calls).targets u)
      rw [count_eq, count_eq, (targets_relabel hρ h u).count_eq,
        List.count_map_of_injective _ ρ hρ]
  rw [lookup_pagerank hg' d iters, lookup_pagerank hg d iters, hpower]
  by_cases hu : u ∈ (ofEdges calls).edges
  · rw [if_pos hu, if_pos (hmem.mpr hu)]
  · rw [if_neg hu, if_neg fun hu' => hu (hmem.mp hu')]

/-- A link to itself, a repeated link and a sink: built backwards, with longer URLs. -/
theorem pagerank_relabel_loopAndSink :
    ((ofEdges (loopAndSink.reverse.map fun call => ('x' :: call.1, 'x' :: call.2))).pagerank
        (1 / 2) 20).lookup "xA".toList
      = ((ofEdges loopAndSink).pagerank (1 / 2) 20).lookup "A".toList :=
  pagerank_relabel (List.cons_injective) (List.Perm.map _ (List.reverse_perm _)) (.refl _) (.refl _)
    (1 / 2) 20 "A".toList

end Relabel

/-! ## More iterations -/

variable {g : LinkGraph} {d : ℚ} {f : Str → ℚ}

/-- Another iteration leaves the scores as they are. -/
def Stationary (g : LinkGraph) (d : ℚ) (f : Str → ℚ) : Prop :=
  ∀ rank, g.Scores rank f →
    g.Scores (g.iteration d ((1 - d) / (max g.edges.keys.length 1 : ℕ)) g.outDegrees rank) f

/-- There is a map for all scores. -/
theorem exists_scores (g : LinkGraph) (f : Str → ℚ) : ∃ rank, g.Scores rank f := by
  refine ⟨g.edges.keys.foldl (fun rank k => rank.insert k (f k)) ∅, fun u => ?_⟩
  by_cases hu : u ∈ g.edges
  · rw [if_pos hu]
    exact StrMap.lookup_foldl_insert (p := id) (F := f) (fun _ _ => rfl)
      (by rw [List.map_id]; exact AList.mem_keys.mp hu) ∅
  · rw [if_neg hu]
    exact StrMap.lookup_foldl_insert_of_notMem (p := id)
      (by rw [List.map_id]; exact fun hk => hu (AList.mem_keys.mpr hk)) ∅

theorem stationary_iff (hg : g.Closed) : g.Stationary d f ↔ (g.links hg).Stationary d f := by
  have hnodes : ∀ v, v ∈ (g.links hg).nodes ↔ v ∈ g.edges := fun v =>
    List.mem_toFinset.trans AList.mem_keys.symm
  constructor
  · intro h v hv
    obtain ⟨rank, hrank⟩ := g.exists_scores f
    have hsame := (hrank.iteration hg v).symm.trans (h rank hrank v)
    rw [if_pos ((hnodes v).mp hv), if_pos ((hnodes v).mp hv)] at hsame
    exact Option.some.inj hsame
  · intro h rank hrank u
    rw [hrank.iteration hg u]
    by_cases hu : u ∈ g.edges
    · rw [if_pos hu, if_pos hu, h u ((hnodes u).mpr hu)]
    · rw [if_neg hu, if_neg hu]

/-- A sum over the keys is one over the nodes. -/
theorem sum_keys (hg : g.Closed) (a : Str → ℚ) :
    (g.edges.keys.map a).sum = ∑ u ∈ (g.links hg).nodes, a u :=
  (List.sum_toFinset a g.edges.keys_nodup).symm

/-- **What the scores approach.** For a graph built by `add_edge`, in whatever order its map
iterates, and a damping below one: there is exactly one assignment of scores that another
iteration would not change; none of its scores is below the base and they sum to at most
one; and after any number of iterations, all scores together are off by at most twice that
power of the damping. -/
theorem pagerank_converges {calls : List (Str × Str)} (hcalls : calls ≠ [])
    (horder : g.edges.entries.Perm (ofEdges calls).edges.entries) (h0 : 0 ≤ d) (h1 : d < 1) :
    ∃ f : Str → ℚ, g.Stationary d f ∧
      (∀ f', g.Stationary d f' → ∀ u ∈ g.edges, f' u = f u) ∧
      (∀ u ∈ g.edges, (1 - d) / g.edges.keys.length ≤ f u) ∧ (g.edges.keys.map f).sum ≤ 1 ∧
      ∀ iters, (g.edges.keys.map fun u =>
        |((g.pagerank d iters).lookup u).getD 0 - f u|).sum ≤ 2 * d ^ iters := by
  have hg : g.Closed := (closed_ofEdges calls).perm horder
  have hnodes : ∀ {v}, v ∈ g.edges → v ∈ (g.links hg).nodes := fun hv =>
    List.mem_toFinset.mpr (AList.mem_keys.mp hv)
  obtain ⟨w, hw⟩ := exists_mem_ofEdges hcalls
  have hnonempty : (g.links hg).nodes.Nonempty :=
    ⟨w, hnodes ((AList.mem_of_perm horder).mpr hw)⟩
  obtain ⟨f, hf⟩ := (g.links hg).exists_stationary h0 h1
  refine ⟨f, (stationary_iff hg).mpr hf, fun f' hf' u hu => ?_, fun u hu => ?_, ?_, fun iters => ?_⟩
  · exact ((stationary_iff hg).mp hf').unique h0 h1 hf u (hnodes hu)
  · have hcard : (g.links hg).nodes.card = g.edges.keys.length :=
      List.toFinset_card_of_nodup g.edges.keys_nodup
    rw [← hcard]
    exact hf.base_le h0 h1 u (hnodes hu)
  · rw [sum_keys hg]
    exact hf.sum_le h0 h1 hnonempty
  · rw [sum_keys hg]
    refine le_trans (le_of_eq (Finset.sum_congr rfl fun u hu => ?_))
      (hf.sum_abs_power_sub_le_two h0 h1 hnonempty iters)
    have hu : u ∈ g.edges := AList.mem_keys.mpr (List.mem_toFinset.mp hu)
    rw [lookup_pagerank hg d iters u, if_pos hu, Option.getD_some]

theorem pagerank_converges_loopAndSink :
    ∃ f : Str → ℚ, (ofEdges loopAndSink).Stationary (1 / 2) f ∧
      (∀ f', (ofEdges loopAndSink).Stationary (1 / 2) f' →
        ∀ u ∈ (ofEdges loopAndSink).edges, f' u = f u) ∧
      (∀ u ∈ (ofEdges loopAndSink).edges,
        (1 - 1 / 2) / (ofEdges loopAndSink).edges.keys.length ≤ f u) ∧
      ((ofEdges loopAndSink).edges.keys.map f).sum ≤ 1 ∧
      ∀ iters, ((ofEdges loopAndSink).edges.keys.map fun u =>
        |(((ofEdges loopAndSink).pagerank (1 / 2) iters).lookup u).getD 0 - f u|).sum
          ≤ 2 * (1 / 2) ^ iters :=
  pagerank_converges (by decide) (.refl _) (by norm_num) (by norm_num)

end Gurted.Link.LinkGraph
