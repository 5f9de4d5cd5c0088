import Gurted.Crawler.Robots

/-!
# Blocks of a robots.txt file

A file read as its format intends: blocks of consecutive `User-agent` lines and
the rule lines that follow them (`blocks`). `groupsByBlock_iff` compares the
groups of `RobotsTxt::parse` with them and says for which files they agree.
-/

namespace Gurted.Crawler

open Gurted

/-! ## Blocks -/

/-- A run of `User-agent` lines with the rule lines up to the next one. Only the
block that starts a file can be without agents. -/
structure Block where
  agents : List Str
  rules : List (RuleKind × Str)
  deriving DecidableEq, Repr

/-- The agents a block names; rules before any `User-agent` line are for `*`. -/
def Block.named (b : Block) : List Str := ruleAgents b.agents

/-- The values of the block's lines of one kind. -/
def Block.values (b : Block) (kind : RuleKind) : List Str :=
  b.rules.flatMap fun r => if r.1 = kind then [r.2] else []

/-- The lines a block is made of. -/
def Block.directives (b : Block) : List Directive :=
  b.agents.map .userAgent ++ b.rules.map fun r => .rule r.1 r.2

/-- A line put in front of the blocks of what follows it: an agent joins the
block that starts there, a rule joins it only if no agent line comes first. -/
def Directive.prepend : Directive → List Block → List Block
  | .userAgent agent, [] => [⟨[agent], []⟩]
  | .userAgent agent, b :: bs => ⟨agent :: b.agents, b.rules⟩ :: bs
  | .rule kind val, [] => [⟨[], [(kind, val)]⟩]
  | .rule kind val, b :: bs =>
      if b.agents = [] then ⟨[], (kind, val) :: b.rules⟩ :: bs else ⟨[], [(kind, val)]⟩ :: b :: bs

/-- The blocks of a file. -/
def blocks (ds : List Directive) : List Block := ds.foldr Directive.prepend []

/-- No block is empty, and only the first can lack agents. -/
structure Shaped (bs : List Block) : Prop where
  first : ∀ b ∈ bs, b.agents = [] → b.rules ≠ []
  later : ∀ b ∈ bs.tail, b.agents ≠ []

theorem prepend_directives (d : Directive) (bs : List Block) :
    (d.prepend bs).flatMap Block.directives = d :: bs.flatMap Block.directives := by
  cases d with
  | userAgent agent => cases bs <;> rfl
  | rule kind val =>
    cases bs with
    | nil => rfl
    | cons b bs =>
      rw [Directive.prepend]
      split
      · next h => simp [List.flatMap_cons, Block.directives, h]
      · rfl

theorem Shaped.prepend {bs : List Block} (h : Shaped bs) (d : Directive) :
    Shaped (d.prepend bs) := by
  cases bs with
  | nil => cases d <;> exact ⟨by simp [Directive.prepend], by simp [Directive.prepend]⟩
  | cons b bs =>
    have hfirst : ∀ c ∈ bs, c.agents = [] → c.rules ≠ [] := fun c hc =>
      h.first c (List.mem_cons_of_mem _ hc)
    have hlater : ∀ c ∈ bs, c.agents ≠ [] := h.later
    cases d with
    | userAgent agent => exact ⟨by simpa [Directive.prepend] using hfirst, hlater⟩
    | rule kind val =>
      rw [Directive.prepend]
      split
      · exact ⟨by simpa using hfirst, hlater⟩
      · next hb =>
        refine ⟨?_, ?_⟩
        · simpa [hb] using hfirst
        · simpa [hb] using hlater

/-- **The blocks are the file, cut.** -/
theorem blocks_directives (ds : List Directive) :
    (blocks ds).flatMap Block.directives = ds := by
  induction ds with
  | nil => rfl
  | cons d ds ih =>
    rw [blocks, List.foldr_cons, prepend_directives, ← blocks, ih]

theorem blocks_shaped (ds : List Directive) : Shaped (blocks ds) := by
  induction ds with
  | nil => exact ⟨by simp [blocks], by simp [blocks]⟩
  | cons d ds ih => exact ih.prepend d

/-- The values of one kind in the blocks that name an agent. -/
def valuesFor (kind : RuleKind) (agent : Str) (bs : List Block) : List Str :=
  bs.flatMap fun b => if agent ∈ b.named then b.values kind else []

/-- The delay of the last `Crawl-delay` line in the blocks that name an agent. -/
def delayFor (agent : Str) (bs : List Block) : Option Duration :=
  (valuesFor .crawlDelay agent bs).getLast?.bind crawlDelayOf

/-- The file parses, and every agent's group holds the rules of the blocks that
name it. -/
def GroupsByBlock (input : Str) : Prop :=
  ∃ r, RobotsTxt.parse input = some r ∧ ∀ agent,
    (r.group agent).allow = valuesFor .allow agent (blocks (directives input)) ∧
    (r.group agent).disallow = valuesFor .disallow agent (blocks (directives input)) ∧
    (r.group agent).crawlDelay = delayFor agent (blocks (directives input))

/-! ## What the parser attributes, block by block -/

/-- Each block with all agents named up to its rules. -/
def seenBlocks (seen : List Str) : List Block → List (List Str × Block)
  | [] => []
  | b :: bs => (seen ++ b.named, b) :: seenBlocks (seen ++ b.named) bs

theorem seenBlocks_append (seen : List Str) (bs cs : List Block) :
    seenBlocks seen (bs ++ cs)
      = seenBlocks seen bs ++ seenBlocks (seen ++ bs.flatMap Block.named) cs := by
  induction bs generalizing seen with
  | nil => simp [seenBlocks]
  | cons b bs ih => simp [seenBlocks, ih]

theorem attributed_agents (current agents : List Str) (ds : List Directive) :
    attributed current (agents.map .userAgent ++ ds) = attributed (current ++ agents) ds := by
  induction agents generalizing current with
  | nil => simp
  | cons a as ih => simp [attributed, ih]

theorem attributed_rules {current : List Str} (h : current ≠ []) (rules : List (RuleKind × Str))
    (ds : List Directive) :
    attributed current (rules.map (fun r => .rule r.1 r.2) ++ ds)
      = rules.map (fun r => ⟨current, r.1, r.2⟩) ++ attributed current ds := by
  have hagents : ruleAgents current = current := by simp [ruleAgents, h]
  induction rules with
  | nil => rfl
  | cons r rules ih => simp [attributed, hagents, ih]

/-- The lines of a block go to all agents seen so far. -/
theorem attributed_block {b : Block} {current : List Str}
    (h : b.agents = [] → current = [] ∧ b.rules ≠ []) (ds : List Directive) :
    attributed current (b.directives ++ ds)
      = b.rules.map (fun r => ⟨current ++ b.named, r.1, r.2⟩)
        ++ attributed (current ++ b.named) ds := by
  rw [Block.directives, List.append_assoc, attributed_agents]
  by_cases hb : b.agents = []
  · obtain ⟨hcurrent, hrules⟩ := h hb
    have hnamed : b.named = [['*']] := by simp [Block.named, ruleAgents, hb]
    rw [hb, hcurrent, hnamed]
    -- the first rule line makes `*` the current agent
    cases hr : b.rules with
    | nil => exact absurd hr hrules
    | cons r rules =>
      have hrest := attributed_rules (show [['*']] ≠ [] by simp) rules ds
      simp only [List.map_cons, List.cons_append, List.nil_append, attributed]
      exact congrArg _ hrest
  · have hnamed : b.named = b.agents := by simp [Block.named, ruleAgents, hb]
    rw [hnamed, attributed_rules (by simp [hb])]

theorem attributed_blocks {bs : List Block} {current : List Str}
    (h : ∀ b ∈ bs.head?, b.agents = [] → current = [] ∧ b.rules ≠ [])
    (hlater : ∀ b ∈ bs.tail, b.agents ≠ []) :
    attributed current (bs.flatMap Block.directives)
      = (seenBlocks current bs).flatMap fun p => p.2.rules.map fun r => ⟨p.1, r.1, r.2⟩ := by
  induction bs generalizing current with
  | nil => rfl
  | cons b bs ih =>
    have hhead : ∀ c ∈ bs.head?, c.agents = [] → current ++ b.named = [] ∧ c.rules ≠ [] :=
      fun c hc hempty => absurd hempty (hlater c (List.mem_of_mem_head? hc))
    rw [List.flatMap_cons, attributed_block (h b rfl),
      ih hhead fun c hc => hlater c (List.mem_of_mem_tail hc)]
    rfl

/-- What an agent is given by a block whose rules reach `seen`. -/
def blockGiven (kind : RuleKind) (agent : Str) (p : List Str × Block) : List Str :=
  (p.2.values kind).flatMap (List.replicate (p.1.count agent))

/-- What an agent is given by a file. -/
theorem given_attributed (kind : RuleKind) (agent : Str) (ds : List Directive) :
    given kind agent (attributed [] ds)
      = (seenBlocks [] (blocks ds)).flatMap (blockGiven kind agent) := by
  have hshaped := blocks_shaped ds
  conv_lhs => rw [← blocks_directives ds]
  rw [attributed_blocks (fun b hb hempty =>
    ⟨rfl, hshaped.first b (List.mem_of_mem_head? hb) hempty⟩) hshaped.later]
  rw [given, List.flatMap_assoc]
  congr 1
  funext p
  rw [blockGiven, Block.values, List.flatMap_map, List.flatMap_assoc]
  congr 1
  funext r
  split <;> simp

/-! ## Allow and Disallow lists -/

theorem Block.named_ne_nil (b : Block) : b.named ≠ [] := by
  rw [Block.named, ruleAgents]
  split
  · simp
  · next h => simpa using h

theorem length_blockGiven (kind : RuleKind) (agent : Str) (p : List Str × Block) :
    (blockGiven kind agent p).length = (p.2.values kind).length * p.1.count agent := by
  simp [blockGiven, List.length_flatMap, List.map_const']

/-- An agent named before gets every later line, on top of those meant for it. -/
theorem valuesFor_length_add_le (kind : RuleKind) {agent : Str} {seen : List Str}
    (h : agent ∈ seen) (bs : List Block) :
    (valuesFor kind agent bs).length + (bs.flatMap fun b => b.values kind).length
      ≤ ((seenBlocks seen bs).flatMap (blockGiven kind agent)).length := by
  induction bs generalizing seen with
  | nil => simp [valuesFor]
  | cons b bs ih =>
    have hrest := ih (List.mem_append_left b.named h)
    have hseen : 1 ≤ seen.count agent := List.count_pos_iff.mpr h
    have hown : (if agent ∈ b.named then b.values kind else []).length
        ≤ (b.values kind).length * b.named.count agent := by
      split
      · next hmem => exact Nat.le_mul_of_pos_right _ (List.count_pos_iff.mpr hmem)
      · simp
    have hall : (b.values kind).length ≤ (b.values kind).length * seen.count agent :=
      Nat.le_mul_of_pos_right _ hseen
    simp only [valuesFor, seenBlocks, List.flatMap_cons, List.length_append, length_blockGiven,
      List.count_append, Nat.mul_add] at hrest ⊢
    omega

theorem blockGiven_of_no_values {kind : RuleKind} {bs : List Block} (agent : Str)
    (seen : List Str) (h : ∀ b ∈ bs, b.values kind = []) :
    (seenBlocks seen bs).flatMap (blockGiven kind agent) = [] := by
  induction bs generalizing seen with
  | nil => rfl
  | cons b bs ih =>
    have hb : blockGiven kind agent (seen ++ b.named, b) = [] := by
      rw [blockGiven, h b (by simp)]
      rfl
    rw [seenBlocks, List.flatMap_cons, hb, ih _ fun c hc => h c (by simp [hc]), List.append_nil]

theorem valuesFor_of_no_values {kind : RuleKind} {bs : List Block} (agent : Str)
    (h : ∀ b ∈ bs, b.values kind = []) : valuesFor kind agent bs = [] := by
  apply List.flatMap_eq_nil_iff.mpr
  intro b hb
  rw [h b hb]
  split <;> rfl

/-- An agent of the first block gets at least what it should, so if it gets no more,
it is named once and there is nothing after the block. -/
theorem bounds_of_agree {kind : RuleKind} {agent : Str} {b : Block} {bs : List Block}
    (hmem : agent ∈ b.named)
    (h : blockGiven kind agent (b.named, b)
        ++ (seenBlocks b.named bs).flatMap (blockGiven kind agent)
      = b.values kind ++ valuesFor kind agent bs) :
    (b.values kind).length * b.named.count agent ≤ (b.values kind).length ∧
      (bs.flatMap fun c => c.values kind) = [] := by
  have hlen := congrArg List.length h
  have hlater := valuesFor_length_add_le kind hmem bs
  have hown : (b.values kind).length ≤ (b.values kind).length * b.named.count agent :=
    Nat.le_mul_of_pos_right _ (List.count_pos_iff.mpr hmem)
  rw [List.length_append, List.length_append, length_blockGiven] at hlen
  simp only at hlen
  exact ⟨by omega, List.eq_nil_of_length_eq_zero (by omega)⟩

/-- The lists of one kind agree for every agent exactly when the lines of that
kind are in the first block and that block names no agent twice. -/
theorem lists_agree_iff (kind : RuleKind) (bs : List Block) :
    (∀ agent, (seenBlocks [] bs).flatMap (blockGiven kind agent) = valuesFor kind agent bs) ↔
      (∀ b ∈ bs.tail, b.values kind = []) ∧
        ∀ b ∈ bs.head?, b.values kind ≠ [] → b.named.Nodup := by
  cases bs with
  | nil => simp [seenBlocks, valuesFor]
  | cons b bs =>
    have hlist : ∀ agent, (seenBlocks [] (b :: bs)).flatMap (blockGiven kind agent)
        = blockGiven kind agent (b.named, b)
          ++ (seenBlocks b.named bs).flatMap (blockGiven kind agent) := fun agent => rfl
    have hfor : ∀ agent, valuesFor kind agent (b :: bs)
        = (if agent ∈ b.named then b.values kind else []) ++ valuesFor kind agent bs :=
      fun agent => rfl
    simp only [hlist, hfor, List.tail_cons, List.head?_cons, Option.mem_some_iff, forall_eq']
    constructor
    · intro h
      have hbounds : ∀ agent ∈ b.named,
          (b.values kind).length * b.named.count agent ≤ (b.values kind).length ∧
            (bs.flatMap fun c => c.values kind) = [] := by
        intro agent hmem
        have hagent := h agent
        rw [if_pos hmem] at hagent
        exact bounds_of_agree hmem hagent
      obtain ⟨agent, hagent⟩ := List.exists_mem_of_ne_nil _ b.named_ne_nil
      refine ⟨List.flatMap_eq_nil_iff.mp (hbounds agent hagent).2, fun hvalues => ?_⟩
      refine List.nodup_iff_count.mpr fun a => ?_
      by_cases ha : a ∈ b.named
      · have hpos : 0 < (b.values kind).length := List.length_pos_iff.mpr hvalues
        exact Nat.le_of_mul_le_mul_left (by simpa using (hbounds a ha).1) hpos
      · simp [List.count_eq_zero_of_not_mem ha]
    · rintro ⟨htail, hhead⟩ agent
      rw [valuesFor_of_no_values agent htail, blockGiven_of_no_values agent b.named htail,
        List.append_nil, List.append_nil, blockGiven]
      by_cases hvalues : b.values kind = []
      · simp [hvalues]
      · rw [List.Nodup.count (hhead hvalues)]
        split
        · exact List.flatMap_singleton' _
        · simp

/-! ## Crawl delays -/

theorem blockGiven_of_not_named {kind : RuleKind} {agent : Str} {seen : List Str}
    {bs : List Block} (hseen : agent ∉ seen) (h : agent ∉ bs.flatMap Block.named) :
    (seenBlocks seen bs).flatMap (blockGiven kind agent) = [] := by
  induction bs generalizing seen with
  | nil => rfl
  | cons b bs ih =>
    rw [List.flatMap_cons, List.mem_append, not_or] at h
    have hall : agent ∉ seen ++ b.named := by simp [hseen, h.1]
    rw [seenBlocks, List.flatMap_cons, ih hall h.2, blockGiven]
    simp [List.count_eq_zero.mpr hall]

theorem exists_last_block {p : Block → Prop} [DecidablePred p] {bs : List Block}
    (h : ∃ b ∈ bs, p b) :
    ∃ pre b post, bs = pre ++ b :: post ∧ p b ∧ ∀ c ∈ post, ¬ p c := by
  induction bs with
  | nil => simp at h
  | cons b bs ih =>
    by_cases hlater : ∃ c ∈ bs, p c
    · obtain ⟨pre, c, post, rfl, hc, hpost⟩ := ih hlater
      exact ⟨b :: pre, c, post, rfl, hc, hpost⟩
    · obtain ⟨c, hc, hpc⟩ := h
      rcases List.mem_cons.mp hc with rfl | hmem
      · exact ⟨[], c, bs, rfl, hpc, fun x hx hpx => hlater ⟨x, hx, hpx⟩⟩
      · exact absurd ⟨c, hmem, hpc⟩ hlater

/-- The last delay line an agent is given is the last one of the file, once the
agent has been named. -/
theorem getLast?_given {agent val : Str} {pre post : List Block} {b : Block}
    (hlast : (b.values .crawlDelay).getLast? = some val)
    (hpost : ∀ c ∈ post, c.values .crawlDelay = []) :
    ((seenBlocks [] (pre ++ b :: post)).flatMap (blockGiven .crawlDelay agent)).getLast?
      = if agent ∈ pre.flatMap Block.named ++ b.named then some val else none := by
  obtain ⟨vals, hvals⟩ := List.getLast?_eq_some_iff.mp hlast
  rw [seenBlocks_append, List.flatMap_append, seenBlocks, List.flatMap_cons,
    blockGiven_of_no_values agent _ hpost, List.append_nil, List.nil_append]
  generalize hseen : pre.flatMap Block.named ++ b.named = seen
  by_cases hmem : agent ∈ seen
  · have hpos : seen.count agent ≠ 0 := Nat.pos_iff_ne_zero.mp (List.count_pos_iff.mpr hmem)
    rw [if_pos hmem, List.getLast?_append, blockGiven, hvals, List.flatMap_append,
      List.getLast?_append, List.flatMap_singleton, List.getLast?_replicate, if_neg hpos]
    rfl
  · -- an agent that is not named up to here is given nothing
    have hcount : seen.count agent = 0 := List.count_eq_zero.mpr hmem
    have hpre : (seenBlocks [] pre).flatMap (blockGiven .crawlDelay agent) = [] := by
      have hnot : agent ∉ pre.flatMap Block.named := fun h =>
        hmem (hseen ▸ List.mem_append_left _ h)
      exact blockGiven_of_not_named (by simp) hnot
    rw [if_neg hmem, hpre, List.nil_append, blockGiven]
    simp [hcount]

/-- The last delay line meant for an agent. -/
theorem delayFor_append {agent val : Str} {pre post : List Block} {b : Block}
    (hlast : (b.values .crawlDelay).getLast? = some val)
    (hpost : ∀ c ∈ post, c.values .crawlDelay = []) :
    delayFor agent (pre ++ b :: post)
      = if agent ∈ b.named then crawlDelayOf val else delayFor agent pre := by
  have hsplit : valuesFor .crawlDelay agent (pre ++ b :: post)
      = valuesFor .crawlDelay agent pre
        ++ (if agent ∈ b.named then b.values .crawlDelay else []) := by
    rw [valuesFor, List.flatMap_append, List.flatMap_cons, ← valuesFor, ← valuesFor,
      valuesFor_of_no_values agent hpost, List.append_nil]
  rw [delayFor, hsplit]
  split
  · rw [List.getLast?_append, hlast]
    rfl
  · rw [List.append_nil, ← delayFor]

/-- After the last `Crawl-delay` line of the file, every agent named so far has
its value. This is right for the agents of the line's block; the condition is
that it is what the others have from their own blocks. -/
def LastDelayShared (bs : List Block) : Prop :=
  ∀ pre b post val, bs = pre ++ b :: post → (b.values .crawlDelay).getLast? = some val →
    (∀ c ∈ post, c.values .crawlDelay = []) →
    ∀ agent ∈ pre.flatMap Block.named, agent ∉ b.named → delayFor agent pre = crawlDelayOf val

theorem delays_agree_iff (bs : List Block) :
    (∀ agent, ((seenBlocks [] bs).flatMap (blockGiven .crawlDelay agent)).getLast?.bind
        crawlDelayOf = delayFor agent bs) ↔ LastDelayShared bs := by
  constructor
  · rintro h pre b post val rfl hlast hpost agent hpre hb
    have hagent := h agent
    rw [getLast?_given hlast hpost, delayFor_append hlast hpost, if_neg hb,
      if_pos (List.mem_append_left _ hpre)] at hagent
    exact hagent.symm
  · intro h agent
    by_cases hsome : ∃ b ∈ bs, b.values .crawlDelay ≠ []
    · obtain ⟨pre, b, post, rfl, hb, hpost⟩ := exists_last_block hsome
      have hpost' : ∀ c ∈ post, c.values .crawlDelay = [] := fun c hc =>
        not_not.mp (hpost c hc)
      have hlast := List.getLast?_eq_some_getLast hb
      generalize (b.values .crawlDelay).getLast hb = val at hlast
      rw [getLast?_given hlast hpost', delayFor_append hlast hpost']
      by_cases hown : agent ∈ b.named
      · rw [if_pos hown, if_pos (List.mem_append_right _ hown)]
        rfl
      · rw [if_neg hown]
        by_cases hpre : agent ∈ pre.flatMap Block.named
        · rw [if_pos (List.mem_append_left _ hpre)]
          exact (h pre b post val rfl hlast hpost' agent hpre hown).symm
        · rw [if_neg (by simp [hpre, hown])]
          have hnone : valuesFor .crawlDelay agent pre = [] :=
            List.flatMap_eq_nil_iff.mpr fun c hc =>
              if_neg fun hm => hpre (List.mem_flatMap.mpr ⟨c, hc, hm⟩)
          rw [delayFor, hnone]
          rfl
    · have hno : ∀ b ∈ bs, b.values .crawlDelay = [] := fun b hb =>
        not_not.mp fun hne => hsome ⟨b, hb, hne⟩
      rw [blockGiven_of_no_values agent [] hno, delayFor, valuesFor_of_no_values agent hno]

/-! ## The files that come out right -/

/-- No delay value panics, all `Allow` and `Disallow` lines are in the first
block, which then names no agent twice, and the last delay is shared. -/
structure BlocksKept (bs : List Block) : Prop where
  delaysParse : ∀ b ∈ bs, ∀ val ∈ b.values .crawlDelay, (parseCrawlDelay val).isSome
  rulesFirst : ∀ b ∈ bs.tail, b.values .allow = [] ∧ b.values .disallow = []
  namedOnce : ∀ b ∈ bs.head?, ¬ (b.values .allow = [] ∧ b.values .disallow = []) →
    b.named.Nodup
  lastDelay : LastDelayShared bs

theorem mem_values_iff {kind : RuleKind} {val : Str} {ds : List Directive} :
    (∃ b ∈ blocks ds, val ∈ b.values kind) ↔ Directive.rule kind val ∈ ds := by
  conv_rhs => rw [← blocks_directives ds]
  simp only [List.mem_flatMap, Block.directives, Block.values, List.mem_append, List.mem_map]
  constructor
  · intro h
    obtain ⟨b, hb, r, hr, hval⟩ := h
    split at hval
    · next hkind =>
      rw [List.mem_singleton] at hval
      exact ⟨b, hb, .inr ⟨r, hr, by rw [hkind, hval]⟩⟩
    · cases hval
  · rintro ⟨b, hb, ⟨a, -, ha⟩ | ⟨r, hr, heq⟩⟩
    · cases ha
    · cases heq
      exact ⟨b, hb, r, hr, by simp⟩

/-- The delay lines that can panic are those of the blocks. -/
theorem parse_isSome_iff_blocks (input : Str) :
    (RobotsTxt.parse input).isSome ↔
      ∀ b ∈ blocks (directives input), ∀ val ∈ b.values .crawlDelay,
        (parseCrawlDelay val).isSome := by
  rw [parse_isSome_iff]
  constructor
  · intro h b hb val hval
    exact h val (mem_values_iff.mp ⟨b, hb, hval⟩)
  · intro h val hval
    obtain ⟨b, hb, hmem⟩ := mem_values_iff.mpr hval
    exact h b hb val hmem

/-- What `parse` gives an agent, by blocks. -/
theorem parse_group_blocks {input : Str} {r : RobotsTxt} (hr : RobotsTxt.parse input = some r)
    (agent : Str) :
    let given kind := (seenBlocks [] (blocks (directives input))).flatMap (blockGiven kind agent)
    (r.group agent).allow = given .allow ∧ (r.group agent).disallow = given .disallow ∧
      (r.group agent).crawlDelay = (given .crawlDelay).getLast?.bind crawlDelayOf := by
  simp only [← given_attributed]
  rw [parse_group hr]
  refine ⟨rfl, rfl, ?_⟩
  simp only [AgentGroup.addAll, AgentGroup.new]
  cases (given .crawlDelay agent (attributed [] (directives input))).getLast? <;> rfl

/-- **When the groups are the blocks'.** -/
theorem groupsByBlock_iff (input : Str) :
    GroupsByBlock input ↔ BlocksKept (blocks (directives input)) := by
  have hallow := lists_agree_iff .allow (blocks (directives input))
  have hdisallow := lists_agree_iff .disallow (blocks (directives input))
  have hdelay := delays_agree_iff (blocks (directives input))
  have hpanic := parse_isSome_iff_blocks input
  constructor
  · intro hgroups
    obtain ⟨r, hr, h⟩ := hgroups
    have hgroup := parse_group_blocks hr
    have ha := hallow.mp fun agent => (hgroup agent).1.symm.trans (h agent).1
    have hd := hdisallow.mp fun agent => (hgroup agent).2.1.symm.trans (h agent).2.1
    refine ⟨hpanic.mp (by rw [hr]; rfl), fun b hb => ⟨ha.1 b hb, hd.1 b hb⟩, fun b hb hrules => ?_,
      hdelay.mp fun agent => (hgroup agent).2.2.symm.trans (h agent).2.2⟩
    by_cases hb' : b.values .allow = []
    · exact hd.2 b hb fun hdis => hrules ⟨hb', hdis⟩
    · exact ha.2 b hb hb'
  · intro h
    obtain ⟨r, hr⟩ := Option.isSome_iff_exists.mp (hpanic.mpr h.delaysParse)
    have ha := hallow.mpr ⟨fun b hb => (h.rulesFirst b hb).1,
      fun b hb hne => h.namedOnce b hb fun hnone => hne hnone.1⟩
    have hd := hdisallow.mpr ⟨fun b hb => (h.rulesFirst b hb).2,
      fun b hb hne => h.namedOnce b hb fun hnone => hne hnone.2⟩
    refine ⟨r, hr, fun agent => ?_⟩
    obtain ⟨h₁, h₂, h₃⟩ := parse_group_blocks hr agent
    exact ⟨h₁.trans (ha agent), h₂.trans (hd agent), h₃.trans (hdelay.mpr h.lastDelay agent)⟩

/-- A robot that is shut out, and the rest of the world that is not. -/
def shutOutOne : Str := "User-agent: evil\nDisallow: /\n\nUser-agent: *\nAllow: /\n".toList

/-- `Allow: /` of the `*` block also goes to the robot the file shuts out. -/
theorem not_groupsByBlock_shutOutOne : ¬ GroupsByBlock shutOutOne := by
  intro hgroups
  obtain ⟨r, hr, h⟩ := hgroups
  have hparse : RobotsTxt.parse shutOutOne
      = some ⟨[⟨"evil".toList, [['/']], [['/']], none⟩, ⟨['*'], [['/']], [], none⟩]⟩ := by decide
  rw [hparse, Option.some.injEq] at hr
  have hallow := (h "evil".toList).1
  rw [← hr] at hallow
  revert hallow
  decide

end Gurted.Crawler
