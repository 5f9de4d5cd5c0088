import Gurted.Std.Float
import Gurted.Std.Utf8

/-!
# Parsing robots.txt (`gurtd/src/crawler/robots.rs`)

`RobotsTxt::parse` is one pass over the lines with two pieces of state: the
groups made so far and the agents the next rule goes to. `parse_group` says what
a group of the result holds: every rule line after the first `User-agent` line
that names the agent, as often as these lines name it.
-/

namespace Gurted.Crawler

open Gurted

/-! ## The parser -/

structure AgentGroup where
  agent : Str
  allow : List Str
  disallow : List Str
  crawlDelay : Option Duration
  deriving DecidableEq, Repr

/-- A group without rules. -/
def AgentGroup.new (agent : Str) : AgentGroup := ⟨agent, [], [], none⟩

structure RobotsTxt where
  groups : List AgentGroup
  deriving DecidableEq, Repr

/-- The keys of the lines that carry a rule. -/
inductive RuleKind where
  | allow
  | disallow
  | crawlDelay
  deriving DecidableEq, Repr

/-- A line the parser recognises. -/
inductive Directive where
  | userAgent (agent : Str)
  | rule (kind : RuleKind) (value : Str)
  deriving DecidableEq, Repr

/-- The first half of the loop body: what a line says, if anything. -/
def directive (rawLine : Str) : Option Directive :=
  let line := Str.trim rawLine
  if line.isEmpty then none
  else if Str.startsWith line ['#'] then none
  else match Str.splitOnce ':' line with
    | none => none
    | some (k, v) =>
        let key := (Str.trim k).toAsciiLowercase
        let val := Str.trim v
        if key = "user-agent".toList then some (.userAgent val.toAsciiLowercase)
        else if key = "allow".toList then some (.rule .allow val)
        else if key = "disallow".toList then some (.rule .disallow val)
        else if key = "crawl-delay".toList then some (.rule .crawlDelay val)
        else none

/-- `parse_crawl_delay`; the outer `none` is a panic of `Duration::from_secs_f64`. -/
def parseCrawlDelay (s : Str) : Option (Option Duration) :=
  let sv := Str.trim s
  if sv.isEmpty then some none
  else match Str.parseU64 sv with
    | some n => some (some (Duration.fromSecs n))
    | none =>
        match Str.parseF64 sv with
        | some f => (Duration.fromSecsF64 (f64MaxZero f)).map some
        | none => some none

/-- What a rule line does to one group. -/
def ruleUpdate : RuleKind → Str → Option (AgentGroup → AgentGroup)
  | .allow, val => some fun g => { g with allow := g.allow ++ [val] }
  | .disallow, val => some fun g => { g with disallow := g.disallow ++ [val] }
  | .crawlDelay, val => (parseCrawlDelay val).map fun delay g => { g with crawlDelay := delay }

/-- `get_or_create_group_index`, with the groups as it leaves them. -/
def getOrCreateGroupIndex (groups : List AgentGroup) (agent : Str) : List AgentGroup × Nat :=
  match groups.findIdx? (·.agent == agent) with
  | some i => (groups, i)
  | none => (groups ++ [AgentGroup.new agent], groups.length)

/-- `groups[idx]` of an agent, updated in place. -/
def updateGroup (f : AgentGroup → AgentGroup) (groups : List AgentGroup) (agent : Str) :
    List AgentGroup :=
  let p := getOrCreateGroupIndex groups agent
  p.1.modify p.2 f

/-- The variables of the loop. -/
structure ParseState where
  groups : List AgentGroup
  currentAgents : List Str
  deriving DecidableEq, Repr

/-- The agents a rule line goes to: `*` when no agent was named yet. -/
def ruleAgents (currentAgents : List Str) : List Str :=
  if currentAgents.isEmpty then [['*']] else currentAgents

/-- The second half of the loop body. A `User-agent` line extends the current
agents, whatever came between it and the one before. -/
def ParseState.step (st : ParseState) : Directive → Option ParseState
  | .userAgent agent =>
      -- the agents of an earlier block stay
      let current := st.currentAgents ++ [agent]
      some ⟨current.foldl (fun gs a => (getOrCreateGroupIndex gs a).1) st.groups, current⟩
  | .rule kind val =>
      (ruleUpdate kind val).map fun update =>
        let current := ruleAgents st.currentAgents
        ⟨current.foldl (updateGroup update) st.groups, current⟩

/-- The recognised lines of a file, in order. -/
def directives (input : Str) : List Directive := (Str.lines input).filterMap directive

/-- `RobotsTxt::parse`; `none` is a panic. -/
def RobotsTxt.parse (input : Str) : Option RobotsTxt :=
  ((directives input).foldlM ParseState.step ⟨[], []⟩).map fun st =>
    ⟨if st.groups.isEmpty then [AgentGroup.new ['*']] else st.groups⟩

/-- The text of a robots.txt that was served; one that is no text has none. -/
def robotsText (body : Bytes) : Str := (fromUtf8 body).getD []

/-! ## Groups by agent -/

/-- The first group of an agent; one without rules when it has none. -/
def groupOf (groups : List AgentGroup) (agent : Str) : AgentGroup :=
  (groups.find? (·.agent == agent)).getD (AgentGroup.new agent)

def RobotsTxt.group (r : RobotsTxt) (agent : Str) : AgentGroup := groupOf r.groups agent

@[simp] theorem groupOf_nil (a : Str) : groupOf [] a = AgentGroup.new a := rfl

theorem groupOf_cons (g : AgentGroup) (gs : List AgentGroup) (a : Str) :
    groupOf (g :: gs) a = if g.agent = a then g else groupOf gs a := by
  by_cases h : g.agent = a
  · simp [groupOf, h]
  · have hb : (g.agent == a) = false := by simpa using h
    simp [groupOf, h, hb]

theorem updateGroup_nil (f : AgentGroup → AgentGroup) (a : Str) :
    updateGroup f [] a = [f (AgentGroup.new a)] := rfl

theorem updateGroup_cons (f : AgentGroup → AgentGroup) (g : AgentGroup) (gs : List AgentGroup)
    (a : Str) :
    updateGroup f (g :: gs) a = if g.agent = a then f g :: gs else g :: updateGroup f gs a := by
  by_cases h : g.agent = a
  · simp [updateGroup, getOrCreateGroupIndex, List.findIdx?_cons, h]
  · have hb : (g.agent == a) = false := by simpa using h
    rw [if_neg h]
    simp only [updateGroup, getOrCreateGroupIndex, List.findIdx?_cons, hb]
    cases gs.findIdx? (·.agent == a) <;> simp

/-- Looking an agent up is updating its group with nothing. -/
theorem getOrCreateGroupIndex_eq (gs : List AgentGroup) (a : Str) :
    (getOrCreateGroupIndex gs a).1 = updateGroup id gs a := by
  rw [updateGroup, List.modify_id]

/-- An update of one agent's group is seen by that agent alone. -/
theorem groupOf_updateGroup {f : AgentGroup → AgentGroup} (hf : ∀ g, (f g).agent = g.agent)
    (gs : List AgentGroup) (b a : Str) :
    groupOf (updateGroup f gs b) a = if b = a then f (groupOf gs a) else groupOf gs a := by
  induction gs with
  | nil =>
    rw [updateGroup_nil, groupOf_cons, hf]
    by_cases h : b = a <;> simp [AgentGroup.new, h]
  | cons g gs ih =>
    rw [updateGroup_cons]
    by_cases hg : g.agent = b
    · rw [if_pos hg, groupOf_cons, groupOf_cons, hf, hg]
      by_cases h : b = a <;> simp [h]
    · rw [if_neg hg, groupOf_cons, groupOf_cons, ih]
      by_cases h : b = a
      · have hga : g.agent ≠ a := fun he => hg (he.trans h.symm)
        rw [if_neg hga, if_neg hga]
      · simp only [if_neg h]

/-- Updating the group of each listed agent updates an agent's group once per
occurrence. -/
theorem groupOf_foldl_updateGroup {f : AgentGroup → AgentGroup}
    (hf : ∀ g, (f g).agent = g.agent) (as : List Str) (gs : List AgentGroup) (a : Str) :
    groupOf (as.foldl (updateGroup f) gs) a = f^[as.count a] (groupOf gs a) := by
  induction as generalizing gs with
  | nil => rfl
  | cons b as ih =>
    rw [List.foldl_cons, ih, groupOf_updateGroup hf, List.count_cons]
    by_cases h : b = a
    · simp [h]
    · simp [h]

theorem agent_ruleUpdate {kind : RuleKind} {val : Str} {f : AgentGroup → AgentGroup}
    (h : ruleUpdate kind val = some f) (g : AgentGroup) : (f g).agent = g.agent := by
  cases kind with
  | allow => cases h; rfl
  | disallow => cases h; rfl
  | crawlDelay =>
    obtain ⟨delay, -, rfl⟩ := Option.map_eq_some_iff.mp h
    rfl

/-! ## What a group holds -/

/-- One rule line with the agents the loop gives it to. -/
structure Attribution where
  agents : List Str
  kind : RuleKind
  value : Str
  deriving DecidableEq, Repr

/-- The rule lines with the agents the loop gives them to, from the current
agents on. -/
def attributed (current : List Str) : List Directive → List Attribution
  | [] => []
  | .userAgent agent :: ds => attributed (current ++ [agent]) ds
  | .rule kind val :: ds =>
      ⟨ruleAgents current, kind, val⟩ :: attributed (ruleAgents current) ds

/-- The values of one kind that an agent is given, with repetitions. -/
def given (kind : RuleKind) (agent : Str) (ats : List Attribution) : List Str :=
  ats.flatMap fun at' =>
    if at'.kind = kind then List.replicate (at'.agents.count agent) at'.value else []

/-- The delay a `Crawl-delay` value stands for. -/
def crawlDelayOf (val : Str) : Option Duration := (parseCrawlDelay val).join

/-- A group with the given lines added to it. -/
def AgentGroup.addAll (g : AgentGroup) (ats : List Attribution) : AgentGroup where
  agent := g.agent
  allow := g.allow ++ given .allow g.agent ats
  disallow := g.disallow ++ given .disallow g.agent ats
  crawlDelay :=
    match (given .crawlDelay g.agent ats).getLast? with
    | none => g.crawlDelay
    | some val => crawlDelayOf val

theorem given_append (kind : RuleKind) (agent : Str) (as bs : List Attribution) :
    given kind agent (as ++ bs) = given kind agent as ++ given kind agent bs :=
  List.flatMap_append

theorem iterate_ruleUpdate {kind : RuleKind} {val : Str} {f : AgentGroup → AgentGroup}
    (h : ruleUpdate kind val = some f) (g : AgentGroup) (agents : List Str) :
    f^[agents.count g.agent] g = g.addAll [⟨agents, kind, val⟩] := by
  simp only [AgentGroup.addAll, given, List.flatMap_cons, List.flatMap_nil, List.append_nil]
  generalize agents.count g.agent = n
  induction n with
  | zero => cases kind <;> simp
  | succ n ih =>
    rw [Function.iterate_succ_apply', ih]
    cases kind with
    | allow => cases h; simp [List.replicate_succ']
    | disallow => cases h; simp [List.replicate_succ']
    | crawlDelay =>
      obtain ⟨delay, hd, rfl⟩ := Option.map_eq_some_iff.mp h
      simp [List.replicate_succ', crawlDelayOf, hd]

theorem AgentGroup.addAll_nil (g : AgentGroup) : g.addAll [] = g := by
  simp [AgentGroup.addAll, given]

theorem AgentGroup.addAll_append (g : AgentGroup) (as bs : List Attribution) :
    (g.addAll as).addAll bs = g.addAll (as ++ bs) := by
  simp only [AgentGroup.addAll, given_append, List.append_assoc, List.getLast?_append]
  cases (given .crawlDelay g.agent bs).getLast? <;> rfl

@[simp] theorem agent_groupOf (gs : List AgentGroup) (a : Str) : (groupOf gs a).agent = a := by
  induction gs with
  | nil => rfl
  | cons g gs ih =>
    rw [groupOf_cons]
    split
    · assumption
    · exact ih

/-- **One line.** A step adds to each group what the line gives its agent. -/
theorem groupOf_step {st st' : ParseState} {d : Directive} (h : st.step d = some st') (a : Str) :
    groupOf st'.groups a = (groupOf st.groups a).addAll (attributed st.currentAgents [d]) := by
  cases d with
  | userAgent agent =>
    cases h
    simp only [attributed, AgentGroup.addAll_nil, getOrCreateGroupIndex_eq]
    have hstep := groupOf_foldl_updateGroup (f := id) (fun _ => rfl) (st.currentAgents ++ [agent])
      st.groups a
    rw [Function.iterate_id] at hstep
    exact hstep
  | rule kind val =>
    obtain ⟨f, hf, rfl⟩ := Option.map_eq_some_iff.mp h
    have hstep := groupOf_foldl_updateGroup (agent_ruleUpdate hf) (ruleAgents st.currentAgents)
      st.groups a
    have hiter := iterate_ruleUpdate hf (groupOf st.groups a) (ruleAgents st.currentAgents)
    rw [agent_groupOf] at hiter
    simp only [attributed]
    rw [hstep, hiter]

/-- The whole pass, from any state. -/
theorem groupOf_foldlM {ds : List Directive} {st st' : ParseState}
    (h : ds.foldlM ParseState.step st = some st') (a : Str) :
    groupOf st'.groups a = (groupOf st.groups a).addAll (attributed st.currentAgents ds) := by
  induction ds generalizing st with
  | nil =>
    cases h
    exact (AgentGroup.addAll_nil _).symm
  | cons d ds ih =>
    rw [List.foldlM_cons] at h
    obtain ⟨st₁, hstep, hrest⟩ := Option.bind_eq_some_iff.mp h
    rw [ih hrest, groupOf_step hstep, AgentGroup.addAll_append]
    cases d with
    | userAgent agent =>
      cases hstep
      rfl
    | rule kind val =>
      obtain ⟨f, -, rfl⟩ := Option.map_eq_some_iff.mp hstep
      rfl

/-- **What a group holds.** -/
theorem parse_group {input : Str} {r : RobotsTxt} (h : RobotsTxt.parse input = some r) (a : Str) :
    r.group a = (AgentGroup.new a).addAll (attributed [] (directives input)) := by
  obtain ⟨st, hst, rfl⟩ := Option.map_eq_some_iff.mp h
  have hgroup : groupOf (if st.groups.isEmpty then [AgentGroup.new ['*']] else st.groups) a
      = groupOf st.groups a := by
    split
    · next hempty =>
      rw [List.isEmpty_iff.mp hempty, groupOf_cons]
      by_cases ha : ['*'] = a <;> simp [AgentGroup.new, ha]
    · rfl
  rw [RobotsTxt.group, hgroup, groupOf_foldlM hst]
  rfl

/-- **When parsing panics**: on a `Crawl-delay` value that does. -/
theorem parse_isSome_iff {input : Str} :
    (RobotsTxt.parse input).isSome ↔
      ∀ val, Directive.rule .crawlDelay val ∈ directives input →
        (parseCrawlDelay val).isSome := by
  rw [RobotsTxt.parse, Option.isSome_map]
  generalize directives input = ds
  generalize (⟨[], []⟩ : ParseState) = st
  induction ds generalizing st with
  | nil => simp
  | cons d ds ih =>
    rw [List.foldlM_cons]
    cases d with
    | userAgent agent =>
      simpa [ParseState.step] using ih _
    | rule kind val =>
      cases kind with
      | allow => simpa [ParseState.step, ruleUpdate] using ih _
      | disallow => simpa [ParseState.step, ruleUpdate] using ih _
      | crawlDelay =>
        cases hdelay : parseCrawlDelay val with
        | none =>
          simp only [ParseState.step, ruleUpdate, hdelay]
          refine ⟨fun h => (Bool.false_ne_true h).elim, fun h => ?_⟩
          simpa [hdelay] using h val (by simp)
        | some delay =>
          simp only [ParseState.step, ruleUpdate, hdelay, Option.map_some]
          refine (ih _).trans ⟨fun h v hv => ?_, fun h v hv => h v (List.mem_cons_of_mem _ hv)⟩
          rcases List.mem_cons.mp hv with heq | hmem
          · cases heq
            rw [hdelay]
            rfl
          · exact h v hmem

end Gurted.Crawler
