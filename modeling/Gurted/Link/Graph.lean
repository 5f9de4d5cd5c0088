import Mathlib.Algebra.Order.Field.Rat
import Gurted.Lib.PowerIteration
import Gurted.Std.StrMap

/-!
# The link graph and its PageRank (`gurtd/src/link/mod.rs`)

The scores are rational numbers. `lookup_pagerank` says that the loop over the maps
computes the power iteration of `Gurted.Lib.PowerIteration`, whatever the order is in
which the maps iterate.
-/

namespace Gurted.Link

open Gurted Gurted.Lib

structure LinkGraph where
  edges : StrMap (List Str)

namespace LinkGraph

def new : LinkGraph := ⟨∅⟩

/-- `add_edge`. -/
def addEdge (g : LinkGraph) (source target : Str) : LinkGraph :=
  let edges := g.edges.insert source ((g.edges.lookup source).getD [] ++ [target])
  -- sinks are keys as well
  ⟨if target ∈ edges then edges else edges.insert target []⟩

/-- One turn of the loop over the targets of a node. -/
def addShare (base share : ℚ) (next : StrMap ℚ) (v : Str) : StrMap ℚ :=
  next.insert v ((next.lookup v).getD base + share)

/-- One turn of the loop over the nodes with their targets. -/
def spread (damping base : ℚ) (outDeg : StrMap ℕ) (rank next : StrMap ℚ)
    (edge : (_ : Str) × List Str) : StrMap ℚ :=
  let ru := (rank.lookup edge.1).getD 0
  let share := damping * (ru / ((outDeg.lookup edge.1).getD 1 : ℕ))
  edge.2.foldl (addShare base share) next

/-- One iteration. -/
def iteration (g : LinkGraph) (damping base : ℚ) (outDeg : StrMap ℕ) (rank : StrMap ℚ) :
    StrMap ℚ :=
  let next : StrMap ℚ := g.edges.keys.foldl (fun next k => next.insert k base) ∅
  g.edges.entries.foldl (spread damping base outDeg rank) next

def outDegrees (g : LinkGraph) : StrMap ℕ :=
  g.edges.entries.foldl (fun deg edge => deg.insert edge.1 (max edge.2.length 1)) ∅

/-- `pagerank`. -/
def pagerank (g : LinkGraph) (damping : ℚ) (iters : ℕ) : StrMap ℚ :=
  let nodes := g.edges.keys
  let n := max nodes.length 1
  let base := (1 - damping) / n
  let rank : StrMap ℚ := nodes.foldl (fun rank k => rank.insert k (1 / n)) ∅
  (g.iteration damping base g.outDegrees)^[iters] rank

/-! ## The maps -/

/-- What a map has for a key, the base where it has none. -/
def scoreOr (base : ℚ) (next : StrMap ℚ) (u : Str) : ℚ := (next.lookup u).getD base

theorem scoreOr_addShare (base share : ℚ) (next : StrMap ℚ) (v u : Str) :
    scoreOr base (addShare base share next v) u
      = scoreOr base next u + if u = v then share else 0 := by
  rw [scoreOr, addShare]
  by_cases h : u = v
  · rw [if_pos h, h, AList.lookup_insert, Option.getD_some, scoreOr]
  · rw [if_neg h, AList.lookup_insert_ne h, add_zero, scoreOr]

/-- A target gets a share for every time it stands in the list. -/
theorem scoreOr_foldl_addShare (base share : ℚ) (vs : List Str) (next : StrMap ℚ) (u : Str) :
    scoreOr base (vs.foldl (addShare base share) next) u
      = scoreOr base next u + vs.count u * share := by
  induction vs generalizing next with
  | nil => simp
  | cons v vs ih =>
    rw [List.foldl_cons, ih, scoreOr_addShare, List.count_cons]
    by_cases h : u = v
    · rw [if_pos h, if_pos (by simp [h])]
      push_cast
      ring
    · rw [if_neg h, if_neg (by simpa using Ne.symm h), add_zero, Nat.add_zero]

theorem mem_foldl_addShare (base share : ℚ) (vs : List Str) (next : StrMap ℚ) (u : Str) :
    u ∈ vs.foldl (addShare base share) next ↔ u ∈ next ∨ u ∈ vs := by
  induction vs generalizing next with
  | nil => simp
  | cons v vs ih =>
    rw [List.foldl_cons, ih, addShare, AList.mem_insert, List.mem_cons]
    tauto

/-- The share of a node. -/
def shareOf (damping : ℚ) (outDeg : StrMap ℕ) (rank : StrMap ℚ) (u : Str) : ℚ :=
  damping * ((rank.lookup u).getD 0 / ((outDeg.lookup u).getD 1 : ℕ))

theorem scoreOr_foldl_spread (damping base : ℚ) (outDeg : StrMap ℕ) (rank : StrMap ℚ)
    (edges : List ((_ : Str) × List Str)) (next : StrMap ℚ) (u : Str) :
    scoreOr base (edges.foldl (spread damping base outDeg rank) next) u
      = scoreOr base next u
        + (edges.map fun e => e.2.count u * shareOf damping outDeg rank e.1).sum := by
  induction edges generalizing next with
  | nil => simp
  | cons edge edges ih =>
    rw [List.foldl_cons, ih, spread, scoreOr_foldl_addShare, List.map_cons, List.sum_cons,
      ← add_assoc, shareOf]

theorem mem_foldl_spread (damping base : ℚ) (outDeg : StrMap ℕ) (rank : StrMap ℚ)
    (edges : List ((_ : Str) × List Str)) (next : StrMap ℚ) (u : Str) :
    u ∈ edges.foldl (spread damping base outDeg rank) next
      ↔ u ∈ next ∨ ∃ e ∈ edges, u ∈ e.2 := by
  induction edges generalizing next with
  | nil => simp
  | cons edge edges ih =>
    rw [List.foldl_cons, ih, spread, mem_foldl_addShare, List.exists_mem_cons_iff]
    tauto

/-! ## Graphs that were built edge by edge -/

/-- The targets of a node. -/
def targets (g : LinkGraph) (u : Str) : List Str := (g.edges.lookup u).getD []

/-- Every target is a node. -/
def Closed (g : LinkGraph) : Prop := ∀ u, ∀ v ∈ g.targets u, v ∈ g.edges

theorem closed_new : new.Closed := by
  intro u v hv
  cases hv

theorem mem_addEdge (g : LinkGraph) (source target v : Str) :
    v ∈ (g.addEdge source target).edges ↔ v = source ∨ v ∈ g.edges ∨ v = target := by
  let edges := g.edges.insert source (g.targets source ++ [target])
  show v ∈ (if target ∈ edges then edges else edges.insert target []) ↔ _
  by_cases ht : target ∈ edges
  · have htarget : v = target → v = source ∨ v ∈ g.edges := by
      intro hv
      rw [hv]
      exact (AList.mem_insert _).mp ht
    rw [if_pos ht, AList.mem_insert, ← or_assoc]
    exact (or_iff_left_of_imp htarget).symm
  · rw [if_neg ht, AList.mem_insert, AList.mem_insert, or_comm, or_assoc]

/-- The edge goes behind those of its source; a sink gets no targets. -/
theorem targets_addEdge (g : LinkGraph) (source target u : Str) :
    (g.addEdge source target).targets u
      = if u = source then g.targets source ++ [target] else g.targets u := by
  let edges := g.edges.insert source (g.targets source ++ [target])
  have hlookup : (edges.lookup u).getD []
      = if u = source then g.targets source ++ [target] else g.targets u := by
    by_cases hu : u = source
    · rw [if_pos hu, hu, AList.lookup_insert, Option.getD_some]
    · rw [if_neg hu, AList.lookup_insert_ne hu, targets]
  rw [← hlookup]
  show ((if target ∈ edges then edges else edges.insert target []).lookup u).getD [] = _
  by_cases ht : target ∈ edges
  · rw [if_pos ht]
  · rw [if_neg ht]
    by_cases hu : u = target
    · rw [hu, AList.lookup_insert, AList.lookup_eq_none.mpr ht]
      rfl
    · rw [AList.lookup_insert_ne hu]

theorem Closed.addEdge {g : LinkGraph} (h : g.Closed) (source target : Str) :
    (g.addEdge source target).Closed := by
  intro u v hv
  rw [targets_addEdge] at hv
  rw [mem_addEdge]
  by_cases hu : u = source
  · rw [if_pos hu] at hv
    rcases List.mem_append.mp hv with hv | hv
    · exact .inr (.inl (h source v hv))
    · exact .inr (.inr (List.mem_singleton.mp hv))
  · rw [if_neg hu] at hv
    exact .inr (.inl (h u v hv))

/-- The graph of a sequence of `add_edge` calls. -/
def ofEdges (calls : List (Str × Str)) : LinkGraph :=
  calls.foldl (fun g call => g.addEdge call.1 call.2) new

theorem closed_ofEdges (calls : List (Str × Str)) : (ofEdges calls).Closed := by
  rw [ofEdges]
  induction calls using List.reverseRecOn with
  | nil => exact closed_new
  | append_singleton calls call ih =>
    rw [List.foldl_append, List.foldl_cons, List.foldl_nil]
    exact ih.addEdge call.1 call.2

/-! ## Refinement of the power iteration -/

/-- The graph as lists of links. -/
def links (g : LinkGraph) (h : g.Closed) : Links Str where
  nodes := g.edges.keys.toFinset
  out := g.targets
  closed := by
    intro u _ v hv
    exact List.mem_toFinset.mpr (h u v hv)

theorem targets_of_mem_entries {g : LinkGraph} {e : (_ : Str) × List Str}
    (h : e ∈ g.edges.entries) : e.2 = g.targets e.1 := by
  have hlookup : g.edges.lookup e.1 = some e.2 := AList.mem_lookup_iff.mpr h
  rw [targets, hlookup, Option.getD_some]

theorem lookup_outDegrees {g : LinkGraph} {u : Str} (h : u ∈ g.edges) :
    g.outDegrees.lookup u = some (max (g.targets u).length 1) := by
  have hlength : ∀ e ∈ g.edges.entries, max e.2.length 1 = max (g.targets e.1).length 1 := by
    intro e he
    rw [targets_of_mem_entries he]
  exact StrMap.lookup_foldl_insert (F := fun u => max (g.targets u).length 1) hlength h ∅

/-- The map holds a score for each node, and no other. -/
def Scores (g : LinkGraph) (rank : StrMap ℚ) (f : Str → ℚ) : Prop :=
  ∀ u, rank.lookup u = if u ∈ g.edges then some (f u) else none

variable {g : LinkGraph} {rank : StrMap ℚ} {f : Str → ℚ} {d : ℚ}

theorem shareOf_eq (hg : g.Closed) (hrank : g.Scores rank f) {u : Str} (hu : u ∈ g.edges) :
    shareOf d g.outDegrees rank u = (g.links hg).share d f u := by
  rw [shareOf, hrank u, if_pos hu, lookup_outDegrees hu, Option.getD_some, Option.getD_some]
  rfl

/-- Both ways to compare strings count alike. -/
theorem count_eq (u : Str) (l : List Str) :
    @List.count Str instBEqOfDecidableEq u l = l.count u := by
  rw [lawful_beq_subsingleton (instBEqOfDecidableEq : BEq Str) List.instBEq]

/-- The sum over the entries is one over the nodes. -/
theorem sum_entries (hg : g.Closed) (hrank : g.Scores rank f) (u : Str) :
    (g.edges.entries.map fun e => e.2.count u * shareOf d g.outDegrees rank e.1).sum
      = ∑ v ∈ (g.links hg).nodes, (g.targets v).count u * (g.links hg).share d f v := by
  have hmap : (g.edges.entries.map fun e => e.2.count u * shareOf d g.outDegrees rank e.1)
      = g.edges.keys.map fun v => ((g.targets v).count u : ℚ) * (g.links hg).share d f v := by
    rw [AList.keys, List.keys, List.map_map]
    apply List.map_congr_left
    intro e he
    have hu : e.1 ∈ g.edges := List.mem_map.mpr ⟨e, he, rfl⟩
    rw [shareOf_eq hg hrank hu, targets_of_mem_entries he]
    rfl
  rw [hmap]
  exact (List.sum_toFinset _ g.edges.keys_nodup).symm

theorem card_nodes (hg : g.Closed) {u : Str} (hu : u ∈ g.edges) :
    max g.edges.keys.length 1 = (g.links hg).nodes.card := by
  have hcard : (g.links hg).nodes.card = g.edges.keys.length :=
    List.toFinset_card_of_nodup g.edges.keys_nodup
  rw [hcard]
  exact Nat.max_eq_left (List.length_pos_of_mem hu)

/-- **One iteration is one round.** -/
theorem Scores.iteration (hg : g.Closed) (hrank : g.Scores rank f) :
    g.Scores (g.iteration d ((1 - d) / (max g.edges.keys.length 1 : ℕ)) g.outDegrees rank)
      ((g.links hg).round d f) := by
  intro u
  generalize hbase : (1 - d) / ((max g.edges.keys.length 1 : ℕ) : ℚ) = base
  let next : StrMap ℚ := g.edges.keys.foldl (fun next k => next.insert k base) ∅
  have hnext : next.lookup u = if u ∈ g.edges.keys then some base else none :=
    StrMap.lookup_fill g.edges.keys base u
  have hmem := mem_foldl_spread d base g.outDegrees rank g.edges.entries next u
  have hscore := scoreOr_foldl_spread d base g.outDegrees rank g.edges.entries next u
  rw [sum_entries hg hrank] at hscore
  change (List.foldl (spread d base g.outDegrees rank) next g.edges.entries).lookup u = _
  by_cases hu : u ∈ g.edges
  · rw [if_pos (AList.mem_keys.mp hu)] at hnext
    rw [if_pos hu]
    have hin : u ∈ next := AList.lookup_isSome.mp (by rw [hnext]; rfl)
    obtain ⟨x, hx⟩ := Option.isSome_iff_exists.mp (AList.lookup_isSome.mpr (hmem.mpr (.inl hin)))
    rw [scoreOr, scoreOr, hnext, hx, Option.getD_some, Option.getD_some] at hscore
    rw [hx, hscore, Links.round, ← card_nodes hg hu, hbase]
    simp only [count_eq]
    rfl
  · rw [if_neg (fun hk => hu (AList.mem_keys.mpr hk))] at hnext
    rw [if_neg hu, AList.lookup_eq_none, hmem]
    intro hor
    rcases hor with hin | ⟨e, he, hv⟩
    · exact AList.lookup_eq_none.mp hnext hin
    · rw [targets_of_mem_entries he] at hv
      exact hu (hg e.1 u hv)

theorem scores_start (hg : g.Closed) :
    g.Scores (g.edges.keys.foldl (fun rank k =>
        rank.insert k (1 / ((max g.edges.keys.length 1 : ℕ) : ℚ))) ∅)
      ((g.links hg).power d 0) := by
  intro u
  rw [StrMap.lookup_fill]
  by_cases hu : u ∈ g.edges
  · rw [if_pos hu, if_pos (AList.mem_keys.mp hu), card_nodes hg hu]
    rfl
  · rw [if_neg hu, if_neg fun hk => hu (AList.mem_keys.mpr hk)]

/-- **PageRank is the power iteration** on the nodes of the graph. -/
theorem lookup_pagerank (hg : g.Closed) (d : ℚ) (iters : ℕ) :
    g.Scores (g.pagerank d iters) ((g.links hg).power d iters) := by
  rw [pagerank]
  induction iters with
  | zero => exact scores_start hg
  | succ i ih =>
    simp only [Function.iterate_succ_apply']
    exact ih.iteration hg

theorem Scores.mem_iff (hrank : g.Scores rank f) (u : Str) : u ∈ rank ↔ u ∈ g.edges := by
  rw [← AList.lookup_isSome, hrank u]
  by_cases hu : u ∈ g.edges
  · simp [hu]
  · simp [hu]

/-- The scores add up to those of the nodes. -/
theorem Scores.sum (hg : g.Closed) (hrank : g.Scores rank f) :
    (rank.entries.map fun e => e.2).sum = ∑ u ∈ (g.links hg).nodes, f u := by
  have hkeys : rank.keys.toFinset = (g.links hg).nodes := by
    ext u
    show _ ↔ u ∈ g.edges.keys.toFinset
    rw [List.mem_toFinset, List.mem_toFinset, ← AList.mem_keys, ← AList.mem_keys]
    exact hrank.mem_iff u
  have hmap : (rank.entries.map fun e => e.2) = rank.keys.map f := by
    rw [AList.keys, List.keys, List.map_map]
    apply List.map_congr_left
    intro e he
    have hlookup : rank.lookup e.1 = some e.2 := AList.mem_lookup_iff.mpr he
    rw [hrank e.1] at hlookup
    split at hlookup
    · exact (Option.some.inj hlookup).symm
    · cases hlookup
  rw [hmap, ← hkeys]
  exact (List.sum_toFinset f rank.keys_nodup).symm

/-! ## Mass -/

/-- The same map in another order of iteration. -/
theorem Closed.perm {g' : LinkGraph} (h : g.Closed)
    (horder : g'.edges.entries.Perm g.edges.entries) : g'.Closed := by
  intro u v hv
  rw [targets, AList.perm_lookup horder] at hv
  exact (AList.mem_of_perm horder).mpr (h u v hv)

theorem exists_mem_ofEdges {calls : List (Str × Str)} (h : calls ≠ []) :
    ∃ u, u ∈ (ofEdges calls).edges := by
  induction calls using List.reverseRecOn with
  | nil => exact absurd rfl h
  | append_singleton calls call _ =>
    refine ⟨call.2, ?_⟩
    rw [ofEdges, List.foldl_append, List.foldl_cons, List.foldl_nil]
    exact (mem_addEdge _ call.1 call.2 _).mpr (.inr (.inr rfl))

theorem links_perm {g' : LinkGraph} (hg' : g'.Closed) (hg : g.Closed)
    (horder : g'.edges.entries.Perm g.edges.entries) : g'.links hg' = g.links hg := by
  have hnodes : g'.edges.keys.toFinset = g.edges.keys.toFinset :=
    List.toFinset_eq_of_perm _ _ (horder.map _)
  have hout : g'.targets = g.targets := by
    funext v
    rw [targets, targets, AList.perm_lookup horder]
  simp only [links, hnodes, hout]

/-- **The order of iteration does not matter.** -/
theorem lookup_pagerank_perm {g' : LinkGraph} (hg : g.Closed)
    (horder : g'.edges.entries.Perm g.edges.entries) (d : ℚ) (iters : ℕ) (u : Str) :
    (g'.pagerank d iters).lookup u = (g.pagerank d iters).lookup u := by
  have hg' : g'.Closed := hg.perm horder
  rw [lookup_pagerank hg' d iters u, lookup_pagerank hg d iters u, links_perm hg' hg horder]
  by_cases hu : u ∈ g.edges
  · rw [if_pos hu, if_pos ((AList.mem_of_perm horder).mpr hu)]
  · rw [if_neg hu, if_neg fun h => hu ((AList.mem_of_perm horder).mp h)]

theorem base_le_pagerank (hg : g.Closed) (h0 : 0 ≤ d) (h1 : d ≤ 1) {iters : ℕ} {u : Str} {x : ℚ}
    (hx : (g.pagerank d iters).lookup u = some x) : (1 - d) / g.edges.keys.length ≤ x := by
  rw [lookup_pagerank hg d iters u] at hx
  split at hx
  · cases hx
    have hcard : (g.links hg).nodes.card = g.edges.keys.length :=
      List.toFinset_card_of_nodup g.edges.keys_nodup
    rw [← hcard]
    exact (g.links hg).base_le_power h0 h1 iters u
  · cases hx

/-- **Mass.** For a graph built by `add_edge`, in whatever order its map iterates:
one score for each node, the same in every order, none below the base; they sum to
at most one, and to one where every node has a target. -/
theorem pagerank_mass {calls : List (Str × Str)} (hcalls : calls ≠ []) {g : LinkGraph}
    (horder : g.edges.entries.Perm (ofEdges calls).edges.entries) {d : ℚ} (h0 : 0 ≤ d)
    (h1 : d ≤ 1) (iters : ℕ) :
    ((g.pagerank d iters).keys.Nodup ∧ ∀ u, u ∈ g.pagerank d iters ↔ u ∈ g.edges)
      ∧ (∀ u, (g.pagerank d iters).lookup u = ((ofEdges calls).pagerank d iters).lookup u)
      ∧ (∀ u x, (g.pagerank d iters).lookup u = some x → (1 - d) / g.edges.keys.length ≤ x)
      ∧ ((g.pagerank d iters).entries.map fun e => e.2).sum ≤ 1
      ∧ ((∀ u ∈ g.edges, g.targets u ≠ []) →
          ((g.pagerank d iters).entries.map fun e => e.2).sum = 1) := by
  have hg : g.Closed := (closed_ofEdges calls).perm horder
  have hscores := lookup_pagerank hg d iters
  obtain ⟨w, hw⟩ := exists_mem_ofEdges hcalls
  have hnonempty : (g.links hg).nodes.Nonempty :=
    ⟨w, List.mem_toFinset.mpr ((AList.mem_of_perm horder).mpr hw)⟩
  refine ⟨⟨(g.pagerank d iters).keys_nodup, hscores.mem_iff⟩,
    lookup_pagerank_perm (closed_ofEdges calls) horder d iters,
    fun u x hx => base_le_pagerank hg h0 h1 hx, ?_, ?_⟩
  · rw [hscores.sum hg]
    exact (g.links hg).sum_power_le h0 h1 hnonempty iters
  · intro hout
    rw [hscores.sum hg]
    refine (g.links hg).sum_power_eq ?_ hnonempty iters
    intro u hu
    exact hout u (AList.mem_keys.mpr (List.mem_toFinset.mp hu))

/-- A link to itself, a link that is repeated, and a sink. -/
def loopAndSink : List (Str × Str) :=
  [("A".toList, "A".toList), ("A".toList, "B".toList), ("A".toList, "B".toList)]

theorem pagerank_mass_loopAndSink :
    (((ofEdges loopAndSink).pagerank (1 / 2) 20).entries.map fun e => e.2).sum ≤ 1 :=
  (pagerank_mass (by decide) (List.Perm.refl _) (by norm_num)
    (by norm_num) 20).2.2.2.1

end LinkGraph

end Gurted.Link
