import Mathlib.Data.List.Nodup
import Gurted.Crawler.RobotsRules
import Gurted.Std.Slice

/-!
# The group of a user agent (`gurtd/src/crawler/robots.rs`)

`is_allowed` and `crawl_delay` pick a group with the same loop, and go on differently
when it finds none. `selectsGroup_iff` compares what they use with the group that the
longest token of the user agent names, or `*`, and says when it is that one whatever
the order of the groups.
-/

namespace Gurted.Crawler

open Gurted

/-! ## The two methods -/

/-- The test of the loop; `ua` is in lower case. -/
def AgentGroup.matches (ua : Str) (g : AgentGroup) : Bool :=
  g.agent == ['*'] || ua.contains g.agent

/-- The loop of both methods: the first of the longest agents that match. -/
def RobotsTxt.best (r : RobotsTxt) (userAgent : Str) : Option AgentGroup :=
  let ua := userAgent.toAsciiLowercase
  r.groups.foldl (fun best g =>
    if g.matches ua then
      match best with
      | none => some g
      | some prev => if prev.agent.byteLen < g.agent.byteLen then some g else some prev
    else best) none

/-- The group of `is_allowed`; `none` is the panic of `groups[0]`. -/
def RobotsTxt.groupForPaths (r : RobotsTxt) (userAgent : Str) : Option AgentGroup :=
  -- any group will do when none matches
  (r.best userAgent).or r.groups[0]?

/-- `is_allowed`. -/
def RobotsTxt.isAllowed (r : RobotsTxt) (userAgent path : Str) : Option Bool :=
  (r.groupForPaths userAgent).map (·.allows path)

/-- `crawl_delay`. -/
def RobotsTxt.crawlDelay (r : RobotsTxt) (userAgent : Str) : Option Duration :=
  (r.best userAgent).bind (·.crawlDelay)

/-- `is_allowed_with_robots`. -/
def isAllowedWithRobots (robots : Option RobotsTxt) (userAgent path : Str) : Option Bool :=
  match robots with
  | some r => r.isAllowed userAgent path
  | none => some true

/-! ## Groups that `parse` makes -/

theorem agents_updateGroup {f : AgentGroup → AgentGroup} (hf : ∀ g, (f g).agent = g.agent)
    (gs : List AgentGroup) (a : Str) :
    (updateGroup f gs a).map (·.agent)
      = if a ∈ gs.map (·.agent) then gs.map (·.agent) else gs.map (·.agent) ++ [a] := by
  induction gs with
  | nil => simp [updateGroup_nil, hf, AgentGroup.new]
  | cons g gs ih =>
    rw [updateGroup_cons]
    by_cases h : g.agent = a
    · simp [h, hf]
    · rw [if_neg h, List.map_cons, ih]
      by_cases hmem : a ∈ gs.map (·.agent)
      · have hcons : a ∈ (g :: gs).map (·.agent) := List.mem_cons_of_mem _ hmem
        rw [if_pos hmem, if_pos hcons, List.map_cons]
      · have hnot : a ∉ (g :: gs).map (·.agent) := by
          rw [List.map_cons, List.mem_cons, not_or]
          exact ⟨Ne.symm h, hmem⟩
        rw [if_neg hmem, if_neg hnot, List.map_cons, List.cons_append]

/-- Every agent has one group. -/
def OneGroupEach (gs : List AgentGroup) : Prop := (gs.map (·.agent)).Nodup

theorem OneGroupEach.updateGroup {gs : List AgentGroup} (h : OneGroupEach gs)
    {f : AgentGroup → AgentGroup} (hf : ∀ g, (f g).agent = g.agent) (a : Str) :
    OneGroupEach (updateGroup f gs a) := by
  rw [OneGroupEach, agents_updateGroup hf]
  split
  · exact h
  · next hmem => exact List.nodup_append.mpr ⟨h, List.nodup_singleton a, by
      intro x hx y hy hxy
      rw [List.mem_singleton.mp hy] at hxy
      exact hmem (hxy ▸ hx)⟩

theorem OneGroupEach.foldl {gs : List AgentGroup} (h : OneGroupEach gs)
    {f : AgentGroup → AgentGroup} (hf : ∀ g, (f g).agent = g.agent) (as : List Str) :
    OneGroupEach (as.foldl (Crawler.updateGroup f) gs) := by
  induction as generalizing gs with
  | nil => exact h
  | cons a as ih => exact ih (h.updateGroup hf a)

theorem OneGroupEach.step {st st' : ParseState} (h : OneGroupEach st.groups) {d : Directive}
    (hstep : st.step d = some st') : OneGroupEach st'.groups := by
  cases d with
  | userAgent agent =>
    cases hstep
    simp only [getOrCreateGroupIndex_eq]
    exact h.foldl (f := id) (fun _ => rfl) _
  | rule kind val =>
    obtain ⟨f, hf, rfl⟩ := Option.map_eq_some_iff.mp hstep
    exact h.foldl (agent_ruleUpdate hf) _

theorem OneGroupEach.foldlM {ds : List Directive} {st st' : ParseState}
    (h : OneGroupEach st.groups) (hfold : ds.foldlM ParseState.step st = some st') :
    OneGroupEach st'.groups := by
  induction ds generalizing st with
  | nil =>
    cases hfold
    exact h
  | cons d ds ih =>
    rw [List.foldlM_cons] at hfold
    obtain ⟨st₁, hstep, hrest⟩ := Option.bind_eq_some_iff.mp hfold
    exact ih (h.step hstep) hrest

/-- **What `parse` makes**: one group for each agent, and at least one group. -/
theorem parse_groups {input : Str} {r : RobotsTxt} (h : RobotsTxt.parse input = some r) :
    OneGroupEach r.groups ∧ r.groups ≠ [] := by
  obtain ⟨st, hst, rfl⟩ := Option.map_eq_some_iff.mp h
  have hempty : OneGroupEach [] := List.nodup_nil
  have hone : OneGroupEach st.groups := OneGroupEach.foldlM hempty hst
  simp only
  split
  · exact ⟨List.nodup_singleton _, by simp⟩
  · next hne => exact ⟨hone, by simpa using hne⟩

theorem OneGroupEach.perm {gs gs' : List AgentGroup} (h : OneGroupEach gs) (hperm : gs'.Perm gs) :
    OneGroupEach gs' :=
  (hperm.map _).nodup_iff.mpr h

theorem OneGroupEach.eq {gs : List AgentGroup} (h : OneGroupEach gs) {g g' : AgentGroup}
    (hg : g ∈ gs) (hg' : g' ∈ gs) (heq : g.agent = g'.agent) : g = g' :=
  List.inj_on_of_nodup_map h hg hg' heq

/-! ## What the loop finds -/

theorem best_eq_argmax (r : RobotsTxt) (userAgent : Str) :
    r.best userAgent
      = (r.groups.filter (·.matches userAgent.toAsciiLowercase)).argmax (·.agent.byteLen) := by
  rw [RobotsTxt.best, List.argmax, List.foldl_filter]
  congr 1
  funext best g
  split
  · cases best <;> rfl
  · rfl

section Best
variable {r : RobotsTxt} {userAgent : Str} {g g' : AgentGroup}

theorem best_spec (h : r.best userAgent = some g) :
    g ∈ r.groups ∧ g.matches userAgent.toAsciiLowercase = true ∧
      ∀ g' ∈ r.groups, g'.matches userAgent.toAsciiLowercase = true →
        g'.agent.byteLen ≤ g.agent.byteLen := by
  rw [best_eq_argmax] at h
  obtain ⟨hmem, hmatch⟩ := List.mem_filter.mp (List.argmax_mem h)
  refine ⟨hmem, hmatch, ?_⟩
  intro g' hg' hm
  exact List.le_of_mem_argmax (f := fun g : AgentGroup => g.agent.byteLen)
    (List.mem_filter.mpr ⟨hg', hm⟩) h

theorem best_eq_none_iff :
    r.best userAgent = none ↔ ∀ g ∈ r.groups, g.matches userAgent.toAsciiLowercase = false := by
  rw [best_eq_argmax, List.argmax_eq_none, List.filter_eq_nil_iff]
  simp

/-- The longest, if no other is as long. -/
theorem best_eq_of_forall_lt (hg : g ∈ r.groups)
    (hmatch : g.matches userAgent.toAsciiLowercase = true)
    (h : ∀ g' ∈ r.groups, g'.matches userAgent.toAsciiLowercase = true → g' ≠ g →
      g'.agent.byteLen < g.agent.byteLen) : r.best userAgent = some g := by
  cases hbest : r.best userAgent with
  | none =>
    rw [best_eq_none_iff] at hbest
    rw [hbest g hg] at hmatch
    cases hmatch
  | some m =>
    obtain ⟨hm, hmm, hmax⟩ := best_spec hbest
    by_cases heq : m = g
    · rw [heq]
    · have hlt := h m hm hmm heq
      have hle := hmax g hg hmatch
      omega

/-- Among the longest, the first. -/
theorem best_cons {gs : List AgentGroup} (hmatch : g'.matches userAgent.toAsciiLowercase = true)
    (h : RobotsTxt.best ⟨g' :: gs⟩ userAgent = some g) (hle : g.agent.byteLen ≤ g'.agent.byteLen) :
    g = g' := by
  rw [best_eq_argmax, List.filter_cons_of_pos hmatch, List.argmax_cons] at h
  generalize (gs.filter (·.matches userAgent.toAsciiLowercase)).argmax (·.agent.byteLen) = o at h
  cases o with
  | none => exact (Option.some.inj h).symm
  | some c =>
    simp only at h
    split at h
    · cases h
      omega
    · exact (Option.some.inj h).symm

end Best

/-! ## The group that should be used -/

/-- The group carries a token of the user agent. -/
def AgentGroup.Names (g : AgentGroup) (userAgent : Str) : Prop :=
  g.agent ≠ [] ∧ g.agent ≠ ['*'] ∧ userAgent.toAsciiLowercase.contains g.agent = true

/-- The choice for a user agent: a group with one of its longest tokens, or else the group
of `*`, or else none. -/
inductive Choice (groups : List AgentGroup) (userAgent : Str) : Option AgentGroup → Prop
  | token {g : AgentGroup} : g ∈ groups → g.Names userAgent →
      (∀ g' ∈ groups, g'.Names userAgent → g'.agent.byteLen ≤ g.agent.byteLen) →
      Choice groups userAgent (some g)
  | star {g : AgentGroup} : (∀ g' ∈ groups, ¬ g'.Names userAgent) → g ∈ groups →
      g.agent = ['*'] → Choice groups userAgent (some g)
  | none : (∀ g ∈ groups, ¬ g.Names userAgent ∧ g.agent ≠ ['*']) →
      Choice groups userAgent none

/-- Both methods use the group; without one, every path is allowed and there is no
delay. -/
def RobotsTxt.Follows (r : RobotsTxt) (userAgent : Str) : Option AgentGroup → Prop
  | some g => r.groupForPaths userAgent = some g ∧ r.best userAgent = some g
  | none => (∀ path, r.isAllowed userAgent path = some true) ∧ r.crawlDelay userAgent = none

/-- Both methods follow the choice, in whatever order the groups stand. -/
def SelectsGroup (r : RobotsTxt) (userAgent : Str) : Prop :=
  ∃ choice, Choice r.groups userAgent choice ∧
    ∀ gs, gs.Perm r.groups → RobotsTxt.Follows ⟨gs⟩ userAgent choice

/-- A group that disallows nothing: what it disallows it also allows. -/
def AgentGroup.AllowsAll (g : AgentGroup) : Prop := ∀ p ∈ g.disallow, p ≠ [] → p ∈ g.allow

/-- The groups leave no doubt: one token is longer than all others (and than a `*`), or
there is a `*` and no token, or neither and no rule that the loop or its fallback could
come upon. -/
def ClearGroups (groups : List AgentGroup) (userAgent : Str) : Prop :=
  (∃ g ∈ groups, g.Names userAgent ∧
    (∀ g' ∈ groups, g'.Names userAgent → g' ≠ g → g'.agent.byteLen < g.agent.byteLen) ∧
    (g.agent.byteLen = 1 → ∀ g' ∈ groups, g'.agent ≠ ['*'])) ∨
  ((∀ g ∈ groups, ¬ g.Names userAgent) ∧ ∃ g ∈ groups, g.agent = ['*']) ∨
  ((∀ g ∈ groups, ¬ g.Names userAgent ∧ g.agent ≠ ['*']) ∧
    (∀ g ∈ groups, g.agent = [] → g.AllowsAll ∧ g.crawlDelay = none) ∧
    ((∀ g ∈ groups, g.agent ≠ []) → ∀ g ∈ groups, g.AllowsAll))

theorem contains_nil (s : Str) : s.contains [] = true := by
  cases s <;> rfl

theorem byteLen_pos {s : Str} (h : s ≠ []) : 1 ≤ s.byteLen := by
  obtain ⟨c, t, rfl⟩ := List.exists_cons_of_ne_nil h
  have hc := c.utf8Size_pos
  rw [Str.byteLen_cons]
  omega

/-- A start of a string that is as long is the string. -/
theorem eq_of_startsWith {s pat : Str} (h : s.startsWith pat = true)
    (hle : s.byteLen ≤ pat.byteLen) : pat = s := by
  obtain ⟨t, rfl⟩ := List.isPrefixOf_iff_prefix.mp h
  rw [Str.byteLen_append] at hle
  have hnil : t = [] := by
    by_contra hne
    have := byteLen_pos hne
    omega
  rw [hnil, List.append_nil]

section Choosing
variable {r : RobotsTxt} {userAgent : Str} {g : AgentGroup}

/-- What the loop takes for a match. -/
theorem matches_iff :
    g.matches userAgent.toAsciiLowercase = true ↔
      g.Names userAgent ∨ g.agent = ['*'] ∨ g.agent = [] := by
  rw [AgentGroup.matches, Bool.or_eq_true, beq_iff_eq, AgentGroup.Names]
  constructor
  · rintro (hstar | hcontains)
    · exact .inr (.inl hstar)
    · by_cases hnil : g.agent = []
      · exact .inr (.inr hnil)
      · by_cases hstar : g.agent = ['*']
        · exact .inr (.inl hstar)
        · exact .inl ⟨hnil, hstar, hcontains⟩
  · rintro (hnames | hstar | hnil)
    · exact .inr hnames.2.2
    · exact .inl hstar
    · exact .inr (hnil ▸ contains_nil _)

/-- A group that allows everything, by its patterns. -/
theorem allowsAll_iff : (∀ path, g.allows path = true) ↔ g.AllowsAll := by
  constructor
  · intro h p hp hne
    -- the pattern itself is a path
    have hnot : ¬ longest p g.allow < longest p g.disallow := by
      rw [← allows_eq_false_iff, h p]
      simp
    have happ : applies p p = true := by
      simp [applies, hne, Str.startsWith]
    have hself : WithBot.some p.byteLen ≤ longest p g.disallow :=
      List.le_maximum_of_mem' (List.mem_map_of_mem (List.mem_filter.mpr ⟨hp, happ⟩))
    obtain ⟨n, hn, hle⟩ := List.coe_le_maximum_iff.mp (hself.trans (not_lt.mp hnot))
    obtain ⟨q, hq, rfl⟩ := List.mem_map.mp hn
    obtain ⟨hqa, hqapp⟩ := List.mem_filter.mp hq
    rw [applies, Bool.and_eq_true] at hqapp
    exact eq_of_startsWith hqapp.2 hle ▸ hqa
  · intro h path
    rw [← Bool.not_eq_false, allows_eq_false_iff, not_lt]
    refine List.maximum_le_of_forall_le fun n hn => ?_
    obtain ⟨p, hp, rfl⟩ := List.mem_map.mp hn
    obtain ⟨hmem, happ⟩ := List.mem_filter.mp hp
    have hne : p ≠ [] := by
      rintro rfl
      cases happ
    exact List.le_maximum_of_mem' (List.mem_map_of_mem (List.mem_filter.mpr ⟨h p hmem hne, happ⟩))

theorem RobotsTxt.Follows.of_best (h : r.best userAgent = some g) :
    r.Follows userAgent (some g) := by
  refine ⟨?_, h⟩
  rw [RobotsTxt.groupForPaths, h]
  rfl

/-- A match that comes first has to be shorter than the choice. -/
theorem lt_of_follows {g' : AgentGroup}
    (h : ∀ gs, gs.Perm r.groups → RobotsTxt.Follows ⟨gs⟩ userAgent (some g))
    (hg' : g' ∈ r.groups) (hmatch : g'.matches userAgent.toAsciiLowercase = true)
    (hne : g' ≠ g) : g'.agent.byteLen < g.agent.byteLen := by
  by_contra hle
  have hfirst := (h (g' :: r.groups.erase g') (List.perm_cons_erase hg').symm).2
  exact hne (best_cons hmatch hfirst (by omega)).symm

/-- Without a token or a `*`, the loop finds a group without a name, or none. -/
theorem best_of_unnamed (hone : OneGroupEach r.groups)
    (h : ∀ g ∈ r.groups, ¬ g.Names userAgent ∧ g.agent ≠ ['*']) :
    (∃ g ∈ r.groups, g.agent = [] ∧ r.best userAgent = some g) ∨
      ((∀ g ∈ r.groups, g.agent ≠ []) ∧ r.best userAgent = none) := by
  by_cases hnil : ∃ g ∈ r.groups, g.agent = []
  · obtain ⟨g, hg, hempty⟩ := hnil
    refine .inl ⟨g, hg, hempty, best_eq_of_forall_lt hg (matches_iff.mpr (.inr (.inr hempty))) ?_⟩
    intro g' hg' hmatch hne
    rcases matches_iff.mp hmatch with hnames | hstar | hempty'
    · exact absurd hnames (h g' hg').1
    · exact absurd hstar (h g' hg').2
    · exact absurd (hone.eq hg' hg (hempty'.trans hempty.symm)) hne
  · have hne : ∀ g ∈ r.groups, g.agent ≠ [] := fun g hg hempty => hnil ⟨g, hg, hempty⟩
    refine .inr ⟨hne, best_eq_none_iff.mpr fun g hg => ?_⟩
    rw [← Bool.not_eq_true, matches_iff, not_or, not_or]
    exact ⟨(h g hg).1, (h g hg).2, hne g hg⟩

/-- What follows from no choice. -/
theorem follows_none_iff (hne : r.groups ≠ []) (hone : OneGroupEach r.groups)
    (h : ∀ g ∈ r.groups, ¬ g.Names userAgent ∧ g.agent ≠ ['*']) :
    r.Follows userAgent none ↔
      (∀ g ∈ r.groups, g.agent = [] → g.AllowsAll ∧ g.crawlDelay = none) ∧
        ((∀ g ∈ r.groups, g.agent ≠ []) → ∀ g ∈ r.groups.head?, g.AllowsAll) := by
  rw [RobotsTxt.Follows, RobotsTxt.crawlDelay]
  simp only [RobotsTxt.isAllowed, RobotsTxt.groupForPaths]
  rcases best_of_unnamed hone h with ⟨g, hg, hempty, hbest⟩ | ⟨hnamed, hbest⟩
  · rw [hbest]
    simp only [Option.some_or, Option.map_some, Option.some.injEq, Option.bind_some, allowsAll_iff]
    constructor
    · intro hfollows
      refine ⟨fun g' hg' hempty' => ?_, fun hnamed => absurd hempty (hnamed g hg)⟩
      rw [hone.eq hg' hg (hempty'.trans hempty.symm)]
      exact hfollows
    · intro hclear
      exact hclear.1 g hg hempty
  · obtain ⟨g, gs, hgroups⟩ := List.exists_cons_of_ne_nil hne
    rw [hbest]
    simp only [hgroups, List.getElem?_cons_zero, Option.none_or, Option.map_some, Option.some.injEq,
      Option.bind_none, allowsAll_iff, List.head?_cons, Option.mem_some_iff, forall_eq', and_true]
    rw [hgroups] at hnamed
    constructor
    · exact fun hall => ⟨fun g' hg' hempty => absurd hempty (hnamed g' hg'), fun _ => hall⟩
    · exact fun hclear => hclear.2 hnamed

/-- The longest token is the best, and not for the place it stands at. -/
theorem best_of_token (hg : g ∈ r.groups) (hnames : g.Names userAgent)
    (hlt : ∀ g' ∈ r.groups, g'.Names userAgent → g' ≠ g → g'.agent.byteLen < g.agent.byteLen)
    (hstar : g.agent.byteLen = 1 → ∀ g' ∈ r.groups, g'.agent ≠ ['*']) :
    r.best userAgent = some g := by
  refine best_eq_of_forall_lt hg (matches_iff.mpr (.inl hnames)) fun g' hg' hmatch hother => ?_
  have hpos := byteLen_pos hnames.1
  rcases matches_iff.mp hmatch with hnames' | hstar' | hempty
  · exact hlt g' hg' hnames' hother
  · have hlong : g.agent.byteLen ≠ 1 := fun hone => hstar hone g' hg' hstar'
    have hlen : g'.agent.byteLen = 1 := by rw [hstar']; rfl
    omega
  · have hlen : g'.agent.byteLen = 0 := by rw [hempty]; rfl
    omega

/-- Without a token the group of `*` is the best. -/
theorem best_of_star (hone : OneGroupEach r.groups) (hnone : ∀ g ∈ r.groups, ¬ g.Names userAgent)
    (hg : g ∈ r.groups) (hstar : g.agent = ['*']) : r.best userAgent = some g := by
  refine best_eq_of_forall_lt hg (matches_iff.mpr (.inr (.inl hstar)))
    fun g' hg' hmatch hother => ?_
  rcases matches_iff.mp hmatch with hnames' | hstar' | hempty
  · exact absurd hnames' (hnone g' hg')
  · exact absurd (hone.eq hg' hg (hstar'.trans hstar.symm)) hother
  · rw [hempty, hstar]
    decide

/-- Every group can come first, and is the one of the fallback then. -/
theorem allowsAll_of_follows_none (hone : OneGroupEach r.groups)
    (h : ∀ g ∈ r.groups, ¬ g.Names userAgent ∧ g.agent ≠ ['*'])
    (hfollows : ∀ gs, gs.Perm r.groups → RobotsTxt.Follows ⟨gs⟩ userAgent none)
    (hnamed : ∀ g ∈ r.groups, g.agent ≠ []) (hg : g ∈ r.groups) : g.AllowsAll := by
  have hperm := (List.perm_cons_erase hg).symm
  have hfirst := hfollows (g :: r.groups.erase g) hperm
  rw [follows_none_iff (by simp) (hone.perm hperm) fun g' hg' => h g' (hperm.mem_iff.mp hg')]
    at hfirst
  exact hfirst.2 (fun g' hg' => hnamed g' (hperm.mem_iff.mp hg')) g rfl

end Choosing

/-- **When the right group is used.** For every parsed file and every user agent: both
methods use the group of the longest token, or else that of `*`, or else none, whatever
the order of the groups, exactly if the groups leave no doubt. -/
theorem selectsGroup_iff {input : Str} {r : RobotsTxt} (hr : RobotsTxt.parse input = some r)
    (userAgent : Str) : SelectsGroup r userAgent ↔ ClearGroups r.groups userAgent := by
  obtain ⟨hone, hne⟩ := parse_groups hr
  constructor
  · rintro ⟨choice, hchoice, hfollows⟩
    cases hchoice with
    | @token g hg hnames hmax =>
      have hlt : ∀ g' ∈ r.groups, g'.matches userAgent.toAsciiLowercase = true → g' ≠ g →
          g'.agent.byteLen < g.agent.byteLen :=
        fun _ hg' hmatch hne => lt_of_follows hfollows hg' hmatch hne
      refine .inl ⟨g, hg, hnames, fun g' hg' hnames' hne => ?_, fun hone g' hg' hstar => ?_⟩
      · exact hlt g' hg' (matches_iff.mpr (.inl hnames')) hne
      · have hother : g' ≠ g := fun heq => hnames.2.1 (heq ▸ hstar)
        have hshort := hlt g' hg' (matches_iff.mpr (.inr (.inl hstar))) hother
        rw [hone, hstar] at hshort
        exact absurd hshort (by decide)
    | @star g hnone hg hstar => exact .inr (.inl ⟨hnone, g, hg, hstar⟩)
    | none hnone =>
      have hself := (follows_none_iff hne hone hnone).mp (hfollows r.groups (.refl _))
      exact .inr (.inr ⟨hnone, hself.1, fun hnamed g hg =>
        allowsAll_of_follows_none hone hnone hfollows hnamed hg⟩)
  · rintro (⟨g, hg, hnames, hlt, hstar⟩ | ⟨hnone, g, hg, hstar⟩ | ⟨hnone, hempty, hall⟩)
    · refine ⟨some g, .token hg hnames fun g' hg' hnames' => ?_, fun gs hperm => .of_best ?_⟩
      · by_cases heq : g' = g
        · rw [heq]
        · exact (hlt g' hg' hnames' heq).le
      · exact best_of_token (hperm.mem_iff.mpr hg) hnames
          (fun g' hg' => hlt g' (hperm.mem_iff.mp hg'))
          fun hone g' hg' => hstar hone g' (hperm.mem_iff.mp hg')
    · refine ⟨some g, .star hnone hg hstar, fun gs hperm => .of_best ?_⟩
      exact best_of_star (hone.perm hperm) (fun g' hg' => hnone g' (hperm.mem_iff.mp hg'))
        (hperm.mem_iff.mpr hg) hstar
    · refine ⟨none, .none hnone, fun gs hperm => ?_⟩
      have hgs : gs ≠ [] := by
        rintro rfl
        exact hne hperm.symm.eq_nil
      have hmem : ∀ g ∈ gs, g ∈ r.groups := fun g hg => hperm.mem_iff.mp hg
      rw [follows_none_iff (r := ⟨gs⟩) hgs (hone.perm hperm) fun g hg => hnone g (hmem g hg)]
      refine ⟨fun g hg => hempty g (hmem g hg), fun hnamed g hg => ?_⟩
      have hg' : g ∈ gs := List.mem_of_mem_head? hg
      exact hall (fun g' hg'' => hnamed g' (hperm.mem_iff.mpr hg'')) g (hmem g hg')

/-- A token next to `*`. -/
def tokenAndStar : Str := "User-agent: *\nDisallow: /\nUser-agent: gurt\nAllow: /a\n".toList

theorem selectsGroup_iff_tokenAndStar :
    ∃ r, RobotsTxt.parse tokenAndStar = some r ∧
      (SelectsGroup r "GurtBot".toList ↔ ClearGroups r.groups "GurtBot".toList) :=
  have hparse : RobotsTxt.parse tokenAndStar
      = some ⟨[⟨['*'], [['/', 'a']], [['/']], none⟩, ⟨"gurt".toList, [['/', 'a']], [], none⟩]⟩ := by
    decide
  ⟨_, hparse, selectsGroup_iff hparse _⟩

/-- A file for another robot. -/
def otherRobot : Str := "User-agent: evil\nDisallow: /\n".toList

/-- `is_allowed` goes by the group of the other robot: all paths are shut. -/
theorem not_selectsGroup_otherRobot :
    ∃ r, RobotsTxt.parse otherRobot = some r ∧ r.isAllowed "gurtbot".toList ['/'] = some false ∧
      ¬ SelectsGroup r "gurtbot".toList := by
  have hparse :
      RobotsTxt.parse otherRobot = some ⟨[⟨"evil".toList, [], [['/']], none⟩]⟩ := by decide
  have hshut : RobotsTxt.isAllowed ⟨[⟨"evil".toList, [], [['/']], none⟩]⟩ "gurtbot".toList ['/']
      = some false := by decide
  refine ⟨_, hparse, hshut, fun hselects => ?_⟩
  obtain ⟨choice, hchoice, hfollows⟩ := hselects
  have hself := hfollows _ (.refl _)
  cases hchoice with
  | token hg hnames =>
    rw [List.mem_singleton.mp hg] at hnames
    exact absurd hnames.2.2 (by decide)
  | star hnone hg hstar =>
    rw [List.mem_singleton.mp hg] at hstar
    exact absurd hstar (by decide)
  | none =>
    rw [hself.1] at hshut
    cases hshut

end Gurted.Crawler
