import Gurted.Indexing.Resolve
import Gurted.Lib.Lts

/-!
# Resolutions beside each other (`gurtd/src/indexing/dns.rs`)

Any number of calls of `resolve_via_gurt_dns` run beside each other, while the zone changes
and the DNS server answers from it or fails. Each call takes the lock of the cache for its
look-up and for each of its insertions. `effect_of_step` says what a step does, and
`runs_resolveViaGurtDns` that a call by itself is the function.
-/

namespace Gurted.Indexing

open Gurted Gurted.Lib

/-! ## State and steps -/

/-- The step a call does next: its look-up, the first or the second query of a turn with
`left` turns to follow, or the insertions that are left. -/
inductive DnsPhase where
  | get
  | ask (left : Nat) (current : Str)
  | askCname (left : Nat) (current : Str)
  | put (ip : IpAddr) (names : List Str)

structure DnsTask where
  original : Str
  phase : DnsPhase

structure DnsNode where
  now : Nat
  /-- The records the DNS server has. -/
  zone : Zone
  cache : DnsCache
  tasks : List DnsTask

inductive DnsEvent where
  | tick (n : Nat)
  | change (zone : Zone)
  | resolve (domain : Str)
  | get (i : Nat)
  /-- The query of a call comes to an answer. -/
  | answer (i : Nat) (answer : Answer)
  | put (i : Nat)
  /-- The fetch that waits for the call has timed out. -/
  | drop (i : Nat)

/-- The name a query asks for. -/
def DnsPhase.asked : DnsPhase → Option Str
  | .ask _ current => some current
  | .askCname _ current => some current
  | _ => none

section Steps
variable (fromSlice : Bytes → Option Json)

/-- What follows an answer; `none` is the end of the call, without an address. -/
def DnsTask.hear (task : DnsTask) (answer : Answer) : Option DnsPhase :=
  match task.phase with
  | .ask left current =>
      match answer with
      | .timeout => none
      | answer =>
          match answerIp fromSlice answer with
          | some ip => some (.put ip [current, current, task.original])
          | none => some (.askCname left current)
  | .askCname left _ =>
      match answerCname fromSlice answer with
      | some next =>
          match left with
          | left + 1 => some (.ask left next)
          | 0 => none
      | none => none
  | _ => none

/-- The call goes on, or has ended. -/
def DnsNode.goOn (s : DnsNode) (i : Nat) (task : DnsTask) : Option DnsPhase → DnsNode
  | some phase => { s with tasks := s.tasks.set i { task with phase := phase } }
  | none => { s with tasks := s.tasks.eraseIdx i }

def DnsNode.step (s : DnsNode) : DnsEvent → Option DnsNode
  | .tick n => some { s with now := s.now + n }
  | .change zone => some { s with zone := zone }
  | .resolve domain => some { s with tasks := ⟨domain, .get⟩ :: s.tasks }
  | .get i =>
      match s.tasks[i]? with
      | some ⟨original, .get⟩ =>
          match dnsCacheGet s.cache original s.now with
          | (some _, cache) => some ({ s with cache := cache }.goOn i ⟨original, .get⟩ none)
          | (none, cache) =>
              some ({ s with cache := cache }.goOn i ⟨original, .get⟩
                (some (.ask (maxCnameDepth - 1) original)))
      | _ => none
  | .answer i answer =>
      match s.tasks[i]? with
      | some task =>
          if task.phase.asked.isSome then some (s.goOn i task (task.hear fromSlice answer))
          else none
      | none => none
  | .put i =>
      match s.tasks[i]? with
      | some ⟨original, .put ip (name :: names)⟩ =>
          some ({ s with cache := dnsCachePut s.cache name ip s.now }.goOn i
            ⟨original, .put ip (name :: names)⟩
            (if names.isEmpty then none else some (.put ip names)))
      | _ => none
  | .drop i =>
      match s.tasks[i]? with
      | some task => if task.phase.asked.isSome then some (s.goOn i task none) else none
      | none => none

/-- A response has the records of the name asked for, or no records. -/
def Told (s : DnsNode) (e : DnsEvent) : Prop :=
  ∀ i resp, e = .answer i (.response resp) → ∀ task, s.tasks[i]? = some task →
    ∀ name, task.phase.asked = some name → ∀ records, recordsOf fromSlice resp.body = some records →
      records = s.zone name

/-- The calls of a process that starts with an empty cache. -/
def resolutions : Lts DnsNode DnsEvent where
  init s := s.cache = .empty ∧ s.tasks = []
  step s e s' := s.step fromSlice e = some s' ∧ Told fromSlice s e

/-- The steps by which a call returns. -/
inductive DnsReturns (s : DnsNode) : DnsEvent → Str → Option IpAddr → Prop
  | hit {i : Nat} {original : Str} {ip : IpAddr} (htask : s.tasks[i]? = some ⟨original, .get⟩)
      (hget : (dnsCacheGet s.cache original s.now).1 = some ip) :
      DnsReturns s (.get i) original (some ip)
  | found {i : Nat} {original name : Str} {ip : IpAddr}
      (htask : s.tasks[i]? = some ⟨original, .put ip [name]⟩) :
      DnsReturns s (.put i) original (some ip)
  | ended {i : Nat} {task : DnsTask} {name : Str} {answer : Answer}
      (htask : s.tasks[i]? = some task) (hasked : task.phase.asked = some name)
      (hhear : task.hear fromSlice answer = none) :
      DnsReturns s (.answer i answer) task.original none

end Steps

/-! ## A call by itself -/

section OneCall
variable {fromSlice : Bytes → Option Json} {original : Str} {rest : List DnsTask}

/-- From its state, without another call between, the call returns the address and leaves
the cache. -/
def Alone (fromSlice : Bytes → Option Json) (s : DnsNode) (original : Str) (rest : List DnsTask)
    (result : Option IpAddr) (cache : DnsCache) : Prop :=
  ∃ (es : List DnsEvent) (s₁ : DnsNode) (e : DnsEvent) (s₂ : DnsNode),
    es.foldlM (DnsNode.step fromSlice) s = some s₁ ∧ DnsReturns fromSlice s₁ e original result ∧
      s₁.step fromSlice e = some s₂ ∧ s₂.cache = cache ∧ s₂.tasks = rest

theorem Alone.cons {s s' : DnsNode} {e : DnsEvent} {result : Option IpAddr} {cache : DnsCache}
    (hstep : s.step fromSlice e = some s') (h : Alone fromSlice s' original rest result cache) :
    Alone fromSlice s original rest result cache := by
  obtain ⟨es, s₁, e', s₂, hes, hlast⟩ := h
  exact ⟨e :: es, s₁, e', s₂, Lts.foldlM_of_step hstep hes, hlast⟩

/-- Time passes up to an instant. -/
theorem Alone.tick {now t : Nat} {zone : Zone} {cache : DnsCache} {tasks : List DnsTask}
    {result : Option IpAddr} {cache' : DnsCache} (hle : now ≤ t)
    (h : Alone fromSlice ⟨t, zone, cache, tasks⟩ original rest result cache') :
    Alone fromSlice ⟨now, zone, cache, tasks⟩ original rest result cache' := by
  refine h.cons (e := .tick (t - now)) ?_
  have hnow : now + (t - now) = t := by omega
  simp only [DnsNode.step, hnow]

theorem Alone.ended {now : Nat} {zone : Zone} {cache : DnsCache} {phase : DnsPhase} {name : Str}
    (answer : Answer) (hasked : phase.asked = some name)
    (hhear : DnsTask.hear fromSlice ⟨original, phase⟩ answer = none) :
    Alone fromSlice ⟨now, zone, cache, ⟨original, phase⟩ :: rest⟩ original rest none cache := by
  refine ⟨[], _, .answer 0 answer, ⟨now, zone, cache, rest⟩, List.foldlM_nil,
    .ended rfl hasked hhear, ?_, rfl, rfl⟩
  simp [DnsNode.step, hasked, hhear, DnsNode.goOn]

theorem Alone.heard {now : Nat} {zone : Zone} {cache : DnsCache} {phase next : DnsPhase}
    {name : Str} {answer : Answer} {result : Option IpAddr} {cache' : DnsCache}
    (hasked : phase.asked = some name)
    (hhear : DnsTask.hear fromSlice ⟨original, phase⟩ answer = some next)
    (h : Alone fromSlice ⟨now, zone, cache, ⟨original, next⟩ :: rest⟩ original rest result cache') :
    Alone fromSlice ⟨now, zone, cache, ⟨original, phase⟩ :: rest⟩ original rest result cache' := by
  refine h.cons (e := .answer 0 answer) ?_
  simp [DnsNode.step, hasked, hhear, DnsNode.goOn]

theorem DnsTask.hear_ask {left : Nat} {current : Str} {answer : Answer} (h : answer ≠ .timeout) :
    DnsTask.hear fromSlice ⟨original, .ask left current⟩ answer
      = match answerIp fromSlice answer with
        | some ip => some (.put ip [current, current, original])
        | none => some (.askCname left current) := by
  cases answer with
  | timeout => exact absurd rfl h
  | failed => rfl
  | response resp => rfl

theorem resolveLoop_of_ne_timeout {dns : Nat → Str → Answer} {left n : Nat} {current : Str}
    (h : dns n current ≠ .timeout) :
    resolveLoop fromSlice dns original (left + 1) n current
      = match answerIp fromSlice (dns n current) with
        | some ip => ⟨some ip, [(current, ip), (current, ip), (original, ip)]⟩
        | none =>
            match answerCname fromSlice (dns (n + 1) current) with
            | some next => resolveLoop fromSlice dns original left (n + 2) next
            | none => ⟨none, []⟩ := by
  rw [resolveLoop]
  split
  · next htimeout => exact absurd htimeout h
  · rfl

section Loop
variable {dns : Nat → Str → Answer} {putAt : Nat → Nat} {now : Nat} {zone : Zone} {cache : DnsCache}

/-- The three insertions, and the return. -/
theorem runs_puts (hfirst : now ≤ putAt 0) (hlater : ∀ i, putAt i ≤ putAt (i + 1)) (ip : IpAddr)
    (current : Str) :
    Alone fromSlice ⟨now, zone, cache, ⟨original, .put ip [current, current, original]⟩ :: rest⟩
      original rest (some ip)
      (dnsCachePuts cache putAt [(current, ip), (current, ip), (original, ip)]) := by
  refine .tick hfirst (.cons (e := .put 0) rfl ?_)
  refine .tick (hlater 0) (.cons (e := .put 0) rfl ?_)
  refine .tick (hlater 1) ?_
  exact ⟨[], _, .put 0, _, List.foldlM_nil, .found rfl, rfl, rfl, rfl⟩

/-- One turn of the loop. -/
theorem runs_turn (hfirst : now ≤ putAt 0) (hlater : ∀ i, putAt i ≤ putAt (i + 1))
    (left n : Nat) (current : Str)
    (hturns : ∀ fewer next, left = fewer + 1 →
      Alone fromSlice ⟨now, zone, cache, ⟨original, .ask fewer next⟩ :: rest⟩ original rest
        (resolveLoop fromSlice dns original left (n + 2) next).ip
        (dnsCachePuts cache putAt (resolveLoop fromSlice dns original left (n + 2) next).puts)) :
    Alone fromSlice ⟨now, zone, cache, ⟨original, .ask left current⟩ :: rest⟩ original rest
      (resolveLoop fromSlice dns original (left + 1) n current).ip
      (dnsCachePuts cache putAt
        (resolveLoop fromSlice dns original (left + 1) n current).puts) := by
  by_cases htimeout : dns n current = .timeout
  · have hloop : resolveLoop fromSlice dns original (left + 1) n current = ⟨none, []⟩ := by
      rw [resolveLoop, htimeout]
    rw [hloop]
    exact .ended .timeout rfl rfl
  · rw [resolveLoop_of_ne_timeout htimeout]
    have hhear : DnsTask.hear fromSlice ⟨original, .ask left current⟩ (dns n current) = _ :=
      DnsTask.hear_ask htimeout
    cases hip : answerIp fromSlice (dns n current) with
    | some ip =>
      rw [hip] at hhear
      exact .heard rfl hhear (runs_puts hfirst hlater ip current)
    | none =>
      rw [hip] at hhear
      refine .heard rfl hhear ?_
      cases hcname : answerCname fromSlice (dns (n + 1) current) with
      | none => exact .ended (dns (n + 1) current) rfl (by simp only [DnsTask.hear, hcname])
      | some next =>
        cases left with
        | zero => exact .ended (dns (n + 1) current) rfl (by simp only [DnsTask.hear, hcname])
        | succ fewer =>
          have hnext : DnsTask.hear fromSlice ⟨original, .askCname (fewer + 1) current⟩
              (dns (n + 1) current) = some (.ask fewer next) := by
            simp only [DnsTask.hear, hcname]
          exact .heard rfl hnext (hturns fewer next rfl)

theorem runs_resolveLoop (hfirst : now ≤ putAt 0) (hlater : ∀ i, putAt i ≤ putAt (i + 1))
    (left n : Nat) (current : Str) :
    Alone fromSlice ⟨now, zone, cache, ⟨original, .ask left current⟩ :: rest⟩ original rest
      (resolveLoop fromSlice dns original (left + 1) n current).ip
      (dnsCachePuts cache putAt
        (resolveLoop fromSlice dns original (left + 1) n current).puts) := by
  induction left generalizing n current with
  | zero => exact runs_turn hfirst hlater 0 n current fun _ _ h => nomatch h
  | succ left ih =>
    refine runs_turn hfirst hlater (left + 1) n current fun fewer next h => ?_
    cases h
    exact ih (n + 2) next

end Loop

/-- **The function.** A call whose steps no other comes between returns what
`resolve_via_gurt_dns` returns, and leaves its cache. -/
theorem runs_resolveViaGurtDns (s : DnsNode) (call : DnsCall) (hget : call.getAt = s.now)
    (hfirst : call.getAt ≤ call.putAt 0) (hlater : ∀ i, call.putAt i ≤ call.putAt (i + 1)) :
    Alone fromSlice s call.domain s.tasks (resolveViaGurtDns fromSlice s.cache call).1
      (resolveViaGurtDns fromSlice s.cache call).2 := by
  refine .cons (e := .resolve call.domain) rfl ?_
  rw [resolveViaGurtDns, hget]
  cases hcache : dnsCacheGet s.cache call.domain s.now with
  | mk hit cache =>
    cases hit with
    | some ip =>
      refine ⟨[], _, .get 0, ⟨s.now, s.zone, cache, s.tasks⟩, List.foldlM_nil,
        .hit rfl (by rw [hcache]), ?_, rfl, rfl⟩
      simp [DnsNode.step, hcache, DnsNode.goOn]
    | none =>
      have hmiss :
          DnsNode.step fromSlice { s with tasks := ⟨call.domain, .get⟩ :: s.tasks } (.get 0)
          = some ⟨s.now, s.zone, cache,
              ⟨call.domain, .ask (maxCnameDepth - 1) call.domain⟩ :: s.tasks⟩ := by
        simp [DnsNode.step, hcache, DnsNode.goOn]
      exact .cons hmiss (runs_resolveLoop (hget ▸ hfirst) hlater (maxCnameDepth - 1) 0 call.domain)

end OneCall

/-! ## What a step does -/

/-- A call holds the address for the name: it will put it into the cache or return it. -/
def DnsNode.Holds (s : DnsNode) (name : Str) (ip : IpAddr) : Prop :=
  ∃ task ∈ s.tasks, ∃ names, task.phase = .put ip names ∧ name ∈ task.original :: names

/-- What can follow a phase of a call. If the server is `sure` to answer, the second query is
only for a name without an address. -/
inductive DnsPhase.Next (zone : Zone) (sure : Prop) (original : Str) : DnsPhase → DnsPhase → Prop
  | start : Next zone sure original .get (.ask (maxCnameDepth - 1) original)
  | found {left : Nat} {current : Str} {ip : IpAddr} (h : zone.address current = some ip) :
      Next zone sure original (.ask left current) (.put ip [current, current, original])
  | turn {left : Nat} {current : Str} (h : sure → zone.address current = none) :
      Next zone sure original (.ask left current) (.askCname left current)
  | link {left : Nat} {current next : Str} (h : zone.cname current = some next) :
      Next zone sure original (.askCname (left + 1) current) (.ask left next)
  | put {ip : IpAddr} {name : Str} {names : List Str} :
      Next zone sure original (.put ip (name :: names)) (.put ip names)

/-- A query comes to a response of success with records. -/
def Answered (fromSlice : Bytes → Option Json) (e : DnsEvent) : Prop :=
  ∀ i answer, e = .answer i answer → ∃ resp : ClientResponse, answer = .response resp ∧
    resp.success = true ∧ (recordsOf fromSlice resp.body).isSome = true

structure DnsNode.Effect (fromSlice : Bytes → Option Json) (s : DnsNode) (e : DnsEvent)
    (s' : DnsNode) : Prop where
  now : s.now ≤ s'.now
  zone : s'.zone = s.zone ∨ e = .change s'.zone
  cache : ∀ name ip t, s'.cache name = some (ip, t) →
    s.cache name = some (ip, t) ∨ t = s.now ∧ s.Holds name ip
  tasks : ∀ task ∈ s'.tasks, task ∈ s.tasks ∨ task.phase = .get ∨
    ∃ old ∈ s.tasks, task.original = old.original ∧
      DnsPhase.Next s.zone (Answered fromSlice e) task.original old.phase task.phase

variable {fromSlice : Bytes → Option Json} {s s' : DnsNode} {e : DnsEvent}

/-- A step that leaves the cache and the calls alone. -/
theorem DnsNode.Effect.frame (hcache : s'.cache = s.cache) (htasks : s'.tasks = s.tasks)
    (hnow : s.now ≤ s'.now) (hzone : s'.zone = s.zone ∨ e = .change s'.zone) :
    s.Effect fromSlice e s' where
  now := hnow
  zone := hzone
  cache := by
    rw [hcache]
    exact fun name ip t hentry => .inl hentry
  tasks := by
    rw [htasks]
    exact fun task htask => .inl htask

/-- The calls after one of them has gone on. -/
theorem DnsNode.mem_goOn {i : Nat} {task : DnsTask} {phase : Option DnsPhase} {c : DnsTask}
    (h : c ∈ (s.goOn i task phase).tasks) :
    c ∈ s.tasks ∨ ∃ next, phase = some next ∧ c = { task with phase := next } := by
  cases phase with
  | none => exact .inl (List.mem_of_mem_eraseIdx h)
  | some next => exact (List.mem_or_eq_of_mem_set h).imp_right fun hc => ⟨next, rfl, hc⟩

@[simp] theorem DnsNode.goOn_now (s : DnsNode) (i : Nat) (task : DnsTask)
    (phase : Option DnsPhase) : (s.goOn i task phase).now = s.now := by
  cases phase <;> rfl

@[simp] theorem DnsNode.goOn_zone (s : DnsNode) (i : Nat) (task : DnsTask)
    (phase : Option DnsPhase) : (s.goOn i task phase).zone = s.zone := by
  cases phase <;> rfl

@[simp] theorem DnsNode.goOn_cache (s : DnsNode) (i : Nat) (task : DnsTask)
    (phase : Option DnsPhase) : (s.goOn i task phase).cache = s.cache := by
  cases phase <;> rfl

/-- A step in which one call goes on, with a cache of its own. -/
theorem DnsNode.Effect.goOn {i : Nat} {task : DnsTask} {phase : Option DnsPhase} {cache : DnsCache}
    (htask : s.tasks[i]? = some task)
    (hphase : ∀ next, phase = some next →
      DnsPhase.Next s.zone (Answered fromSlice e) task.original task.phase next)
    (hcache : ∀ name ip t, cache name = some (ip, t) →
      s.cache name = some (ip, t) ∨ t = s.now ∧ s.Holds name ip) :
    s.Effect fromSlice e ({ s with cache := cache }.goOn i task phase) where
  now := by rw [goOn_now]
  zone := .inl (by rw [goOn_zone])
  cache := by
    rw [goOn_cache]
    exact hcache
  tasks := by
    intro c hc
    rcases mem_goOn hc with hc | ⟨next, hnext, rfl⟩
    · exact .inl hc
    · exact .inr (.inr ⟨task, List.mem_of_getElem? htask, rfl, hphase next hnext⟩)

/-- A look-up finds an entry, or leaves at most what was there. -/
theorem dnsCacheGet_cases (cache : DnsCache) (domain : Str) (now : Nat) :
    (∃ ip t, cache domain = some (ip, t) ∧ now - t ≤ dnsCacheTtl ∧
      dnsCacheGet cache domain now = (some ip, cache)) ∨
    dnsCacheGet cache domain now = (none, Function.update cache domain none) := by
  rw [dnsCacheGet]
  cases hentry : cache domain with
  | none => exact .inr rfl
  | some entry =>
    obtain ⟨ip, t⟩ := entry
    by_cases hyoung : now - t ≤ dnsCacheTtl
    · exact .inl ⟨ip, t, rfl, hyoung, if_pos hyoung⟩
    · exact .inr (if_neg hyoung)

theorem DnsNode.effect_get {i : Nat} (h : s.step fromSlice (.get i) = some s') :
    s.Effect fromSlice (.get i) s' := by
  simp only [step] at h
  split at h
  · next original htask =>
    rcases dnsCacheGet_cases s.cache original s.now with ⟨ip, t, -, -, hget⟩ | hget
    · rw [hget] at h
      cases h
      exact .goOn htask nofun fun name ip t hentry => .inl hentry
    · rw [hget] at h
      cases h
      refine .goOn htask ?_ fun name ip t hentry => .inl ?_
      · rintro next ⟨⟩
        exact .start
      · rw [Function.update_apply] at hentry
        split at hentry
        · cases hentry
        · exact hentry
  · cases h

/-- What a call makes of an answer. -/
theorem DnsTask.next_of_hear {i : Nat} {task : DnsTask} {answer : Answer} {phase : DnsPhase}
    (htask : s.tasks[i]? = some task) (htold : Told fromSlice s (.answer i answer))
    (h : task.hear fromSlice answer = some phase) :
    DnsPhase.Next s.zone (Answered fromSlice (.answer i answer)) task.original task.phase
      phase := by
  obtain ⟨original, old⟩ := task
  have hrecords : ∀ resp name records, answer = .response resp → old.asked = some name →
      recordsOf fromSlice resp.body = some records → records = s.zone name :=
    fun resp name records hresp hasked => htold i resp (hresp ▸ rfl) _ htask name hasked records
  cases old with
  | get => cases h
  | put ip names => cases h
  | ask left current =>
    cases answer with
    | timeout => cases h
    | failed =>
      cases h
      refine .turn fun hanswered => ?_
      obtain ⟨resp, hresp, -⟩ := hanswered i _ rfl
      cases hresp
    | response resp =>
      simp only [hear] at h
      split at h
      · next ip hip =>
        cases h
        refine .found ?_
        simp only [answerIp] at hip
        split at hip
        · obtain ⟨records, hbody, hpick⟩ := Option.bind_eq_some_iff.mp hip
          rw [Zone.address, ← hrecords resp current records rfl rfl hbody]
          exact hpick
        · cases hip
      · next hnone =>
        cases h
        refine .turn fun hanswered => ?_
        obtain ⟨resp', hresp, hsuccess, hsome⟩ := hanswered i _ rfl
        cases hresp
        obtain ⟨records, hbody⟩ := Option.isSome_iff_exists.mp hsome
        rw [answerIp, if_pos hsuccess, pickIpFromDnsResponse, hbody] at hnone
        rw [Zone.address, ← hrecords resp current records rfl rfl hbody]
        exact hnone
  | askCname left current =>
    simp only [hear] at h
    split at h
    · next next hcname =>
      cases left with
      | zero => cases h
      | succ left =>
        cases h
        refine .link ?_
        cases answer with
        | timeout => cases hcname
        | failed => cases hcname
        | response resp =>
          obtain ⟨records, hbody, hpick⟩ := Option.bind_eq_some_iff.mp hcname
          rw [Zone.cname, ← hrecords resp current records rfl rfl hbody]
          exact hpick
    · cases h

theorem DnsNode.effect_answer {i : Nat} {answer : Answer}
    (h : s.step fromSlice (.answer i answer) = some s')
    (htold : Told fromSlice s (.answer i answer)) : s.Effect fromSlice (.answer i answer) s' := by
  simp only [step] at h
  split at h
  · next task htask =>
    split at h
    · cases h
      exact .goOn htask (fun next hnext => DnsTask.next_of_hear htask htold hnext)
        fun name ip t hentry => .inl hentry
    · cases h
  · cases h

theorem DnsNode.effect_put {i : Nat} (h : s.step fromSlice (.put i) = some s') :
    s.Effect fromSlice (.put i) s' := by
  simp only [step] at h
  split at h
  · next original ip name names htask =>
    cases h
    refine .goOn htask (fun next hnext => ?_) fun name' ip' t hentry => ?_
    · split at hnext
      · cases hnext
      · cases hnext
        exact .put
    · rw [dnsCachePut, Function.update_apply] at hentry
      split at hentry
      · next heq =>
        cases hentry
        exact .inr ⟨rfl, _, List.mem_of_getElem? htask, _, rfl, by simp [heq]⟩
      · exact .inl hentry
  · cases h

theorem DnsNode.effect_drop {i : Nat} (h : s.step fromSlice (.drop i) = some s') :
    s.Effect fromSlice (.drop i) s' := by
  simp only [step] at h
  split at h
  · next task htask =>
    split at h
    · cases h
      exact .goOn htask nofun fun name ip t hentry => .inl hentry
    · cases h
  · cases h

/-- **Every step.** -/
theorem DnsNode.effect_of_step (h : (resolutions fromSlice).step s e s') :
    s.Effect fromSlice e s' := by
  obtain ⟨h, htold⟩ := h
  cases e with
  | tick n =>
    cases h
    exact .frame rfl rfl (Nat.le_add_right _ _) (.inl rfl)
  | change zone =>
    cases h
    exact .frame rfl rfl (Nat.le_refl _) (.inr rfl)
  | resolve domain =>
    cases h
    refine ⟨Nat.le_refl _, .inl rfl, fun name ip t hentry => .inl hentry, fun task htask => ?_⟩
    rcases List.mem_cons.mp htask with rfl | htask
    · exact .inr (.inl rfl)
    · exact .inl htask
  | get i => exact effect_get h
  | answer i answer => exact effect_answer h htold
  | put i => exact effect_put h
  | drop i => exact effect_drop h

end Gurted.Indexing
