import Gurted.Indexing.DnsCache
import Gurted.Indexing.DnsRuns
import Gurted.Lib.Dated

/-!
# How old a resolved address can be (`gurtd/src/indexing/dns.rs`)

`resolved_recent`: where the addresses come from that calls return beside each other, and
when a change of the zone is seen.
-/

namespace Gurted.Indexing

open Gurted Gurted.Lib Relation

variable {fromSlice : Bytes → Option Json} {s s' : DnsNode} {e : DnsEvent}

/-! ## Where addresses come from -/

section Walks
variable (T : Lts DnsNode DnsEvent)

/-- In the run `tr` to a state, CNAME records lead from a name to another, each of them in the
zone at a later state of the run than the one before. -/
inductive Walked : List DnsEvent → DnsNode → Str → Str → Prop
  | start {tr : List DnsEvent} {s : DnsNode} {domain : Str} : Walked tr s domain domain
  | link {tr pre : List DnsEvent} {s s₀ : DnsNode} {domain name next : Str}
      (hpassed : T.Passed tr s pre s₀) (h : Walked pre s₀ domain name)
      (hcname : s₀.zone.cname name = some next) : Walked tr s domain next

/-- At the end of such a walk the address was in the zone. -/
def Found (tr : List DnsEvent) (s : DnsNode) (domain : Str) (ip : IpAddr) : Prop :=
  ∃ pre s₀ name, T.Passed tr s pre s₀ ∧ Walked T pre s₀ domain name ∧
    s₀.zone.address name = some ip

variable {T}

theorem Walked.next {tr : List DnsEvent} {domain name : Str} (h : Walked T tr s domain name)
    (hstep : T.step s e s') : Walked T (tr ++ [e]) s' domain name := by
  cases h with
  | start => exact .start
  | link hpassed h hcname => exact .link (hpassed.next hstep) h hcname

theorem Found.next {tr : List DnsEvent} {domain : Str} {ip : IpAddr} (h : Found T tr s domain ip)
    (hstep : T.step s e s') : Found T (tr ++ [e]) s' domain ip := by
  obtain ⟨pre, s₀, name, hpassed, hfound⟩ := h
  exact ⟨pre, s₀, name, hpassed.next hstep, hfound⟩

/-- Before its look-up a call has not asked. -/
def DnsNode.Quiet (s : DnsNode) : Prop := ∀ task ∈ s.tasks, task.phase = .get

/-- After a run: a call asks for a name that it was led to, and what it holds it has found. -/
structure Walking (T : Lts DnsNode DnsEvent) (tr : List DnsEvent) (s : DnsNode) : Prop where
  asked : ∀ task ∈ s.tasks, ∀ name, task.phase.asked = some name →
    Walked T tr s task.original name
  held : ∀ name ip, s.Holds name ip → Found T tr s name ip

theorem DnsNode.Quiet.walking (h : s.Quiet) : Walking T [] s where
  asked := by
    intro task htask name hasked
    rw [h task htask] at hasked
    cases hasked
  held := by
    rintro name ip ⟨task, htask, names, hphase, -⟩
    rw [h task htask] at hphase
    cases hphase

/-- A step of a call. -/
theorem Walking.step {tr : List DnsEvent} (h : Walking T tr s) (hrun : T.Run tr s)
    (hstep : T.step s e s') (heffect : s.Effect fromSlice e s') : Walking T (tr ++ [e]) s' where
  asked := by
    intro task htask name hasked
    rcases heffect.tasks task htask with hold | hget | ⟨old, hold, horiginal, hnext⟩
    · exact (h.asked task hold name hasked).next hstep
    · rw [hget] at hasked
      cases hasked
    · generalize hphase : task.phase = phase, holdphase : old.phase = oldphase at hnext
      rw [hphase] at hasked
      cases hnext with
      | start =>
        cases hasked
        exact .start
      | found _ => cases hasked
      | put => cases hasked
      | turn _ =>
        cases hasked
        rw [horiginal]
        exact (h.asked old hold _ (by rw [holdphase]; rfl)).next hstep
      | link hcname =>
        cases hasked
        rw [horiginal]
        have hwalked := h.asked old hold _ (by rw [holdphase]; rfl)
        exact .link (hrun.passed.next hstep) hwalked hcname
  held := by
    rintro name ip ⟨task, htask, names, hput, hname⟩
    rcases heffect.tasks task htask with hold | hget | ⟨old, hold, horiginal, hnext⟩
    · exact (h.held name ip ⟨task, hold, names, hput, hname⟩).next hstep
    · rw [hget] at hput
      cases hput
    · generalize holdphase : old.phase = oldphase at hnext
      rw [hput] at hnext
      cases hnext with
      | @found left current _ haddress =>
        -- the domain leads to the name that was asked for, and this name to itself
        have hwalked : Walked T tr s name current := by
          simp only [List.mem_cons, List.not_mem_nil, or_false] at hname
          rcases hname with rfl | rfl | rfl | rfl
          · rw [horiginal]
            exact h.asked old hold _ (by rw [holdphase]; rfl)
          · exact .start
          · exact .start
          · rw [horiginal]
            exact h.asked old hold _ (by rw [holdphase]; rfl)
        exact ⟨tr, s, current, hrun.passed.next hstep, hwalked, haddress⟩
      | put =>
        refine (h.held name ip ⟨old, hold, _, holdphase, ?_⟩).next hstep
        rw [← horiginal]
        exact List.mem_cons.mpr ((List.mem_cons.mp hname).imp_right (List.mem_cons_of_mem _))

/-- **A run of calls** from a state in which none has asked. -/
theorem walking_of_run {tr : List DnsEvent} (h : T.Run tr s)
    (hstep : ∀ s e s', T.step s e s' → (resolutions fromSlice).step s e s')
    (hquiet : ∀ s, T.init s → s.Quiet) : Walking T tr s := by
  induction h with
  | start hs => exact (hquiet _ hs).walking
  | next hrun hnext ih => exact ih.step hrun hnext (DnsNode.effect_of_step (hstep _ _ _ hnext))

end Walks

/-! ## While the zone is the same -/

/-- CNAME records of the zone lead to the address. -/
def Zone.Leads (zone : Zone) (domain : Str) (ip : IpAddr) : Prop :=
  ∃ name, ReflTransGen (fun a b => zone.cname a = some b) domain name ∧ zone.address name = some ip

section SameZone
variable {T : Lts DnsNode DnsEvent} {zone : Zone} {tr : List DnsEvent}

theorem Walked.reflTransGen {domain name : Str} (h : Walked T tr s domain name)
    (hsame : ∀ pre s₀, T.Passed tr s pre s₀ → s₀.zone = zone) :
    ReflTransGen (fun a b => zone.cname a = some b) domain name := by
  induction h with
  | start => exact .refl
  | @link tr pre s s₀ domain name next hpassed _ hcname ih =>
    refine (ih fun pre' s₁ hpassed' => hsame pre' s₁ (hpassed.trans hpassed')).tail ?_
    rw [← hsame pre s₀ hpassed]
    exact hcname

theorem Found.leads {domain : Str} {ip : IpAddr} (h : Found T tr s domain ip)
    (hsame : ∀ pre s₀, T.Passed tr s pre s₀ → s₀.zone = zone) : zone.Leads domain ip := by
  obtain ⟨pre, s₀, name, hpassed, hwalked, haddress⟩ := h
  rw [hsame pre s₀ hpassed] at haddress
  exact ⟨name,
    hwalked.reflTransGen fun pre' s₁ hpassed' => hsame pre' s₁ (hpassed.trans hpassed'), haddress⟩

end SameZone

/-- A call is on the way to what its domain resolves to. -/
def DnsPhase.OnWay (zone : Zone) (original : Str) : DnsPhase → Prop
  | .get => True
  | .ask left current =>
      Walk.follow zone.address zone.cname (left + 1) current = zone.uncached original
  | .askCname left current => zone.address current = none ∧
      Walk.follow zone.address zone.cname (left + 1) current = zone.uncached original
  | .put ip names => ∀ name ∈ original :: names, zone.uncached name = some ip

theorem DnsPhase.OnWay.next {zone : Zone} {sure : Prop} {original : Str} {old phase : DnsPhase}
    (h : old.OnWay zone original) (hsure : sure) (hnext : Next zone sure original old phase) :
    phase.OnWay zone original := by
  cases hnext with
  | start => rfl
  | @found left current ip haddress =>
    have hhere : zone.uncached current = some ip := Walk.follow_of_found haddress
    have hdomain : zone.uncached original = some ip := by
      rw [← h]
      exact Walk.follow_of_found haddress
    intro name hname
    simp only [List.mem_cons, List.not_mem_nil, or_false] at hname
    rcases hname with rfl | rfl | rfl | rfl
    · exact hdomain
    · exact hhere
    · exact hhere
    · exact hdomain
  | turn hnone => exact ⟨hnone hsure, h⟩
  | link hcname =>
    obtain ⟨hnone, hfollow⟩ := h
    rw [Walk.follow_of_link ⟨hnone, hcname⟩] at hfollow
    exact hfollow
  | put =>
    intro name hname
    exact h name (List.mem_cons.mpr ((List.mem_cons.mp hname).imp_right (List.mem_cons_of_mem _)))

/-- The zone is the same, and every call is on its way. -/
structure Served (zone : Zone) (s : DnsNode) : Prop where
  sameZone : s.zone = zone
  onWay : ∀ task ∈ s.tasks, task.phase.OnWay zone task.original

theorem Served.step {zone : Zone} (h : Served zone s) (hsame : ∀ zone, e ≠ .change zone)
    (hanswered : Answered fromSlice e) (heffect : s.Effect fromSlice e s') : Served zone s' where
  sameZone := (heffect.zone.resolve_right (hsame _)).trans h.sameZone
  onWay := by
    intro task htask
    rcases heffect.tasks task htask with hold | hget | ⟨old, hold, horiginal, hnext⟩
    · exact h.onWay task hold
    · rw [hget]
      trivial
    · have honway := h.onWay old hold
      rw [h.sameZone] at hnext
      rw [← horiginal] at honway
      exact honway.next hanswered hnext

section Since
variable {zone : Zone} {s₁ : DnsNode} {post : List DnsEvent}
  (h : ((resolutions fromSlice).fromState s₁).Run post s) (hsame : ∀ zone, .change zone ∉ post)
include h hsame

theorem zone_of_run : s.zone = s₁.zone := by
  refine h.invariant (P := fun e => ∀ zone, e ≠ .change zone)
    (I := fun _ s => s.zone = s₁.zone) ⟨?_, ?_⟩ fun e he zone heq => hsame zone (heq ▸ he)
  · rintro s rfl
    rfl
  · intro tr s e s' hne hzone hstep
    exact ((DnsNode.effect_of_step hstep).zone.resolve_right (hne _)).trans hzone

theorem served_of_run (hquiet : s₁.Quiet) (hanswered : ∀ e ∈ post, Answered fromSlice e) :
    Served s₁.zone s := by
  refine h.invariant (P := fun e => (∀ zone, e ≠ .change zone) ∧ Answered fromSlice e)
    (I := fun _ s => Served s₁.zone s) ⟨?_, ?_⟩
    fun e he => ⟨fun zone heq => hsame zone (heq ▸ he), hanswered e he⟩
  · rintro s rfl
    refine ⟨rfl, fun task htask => ?_⟩
    rw [hquiet task htask]
    trivial
  · intro tr s e s' hpermitted hserved hstep
    exact hserved.step hpermitted.1 hpermitted.2 (DnsNode.effect_of_step hstep)

end Since

/-! ## What a call returns -/

/-- An entry of the cache. -/
def DnsNode.Stores (s : DnsNode) (name : Str) (ip : IpAddr) (t : Nat) : Prop :=
  s.cache name = some (ip, t)

theorem resolutions_dated (fromSlice : Bytes → Option Json) :
    (resolutions fromSlice).Dated DnsNode.now DnsNode.Holds DnsNode.Stores where
  now_le _ _ _ hstep := (DnsNode.effect_of_step hstep).now
  stored_of_step _ _ _ hstep name ip t := (DnsNode.effect_of_step hstep).cache name ip t

theorem not_stores_of_init (h : (resolutions fromSlice).init s) (name : Str) (ip : IpAddr)
    (t : Nat) :
    ¬ s.Stores name ip t := by
  intro hentry
  rw [DnsNode.Stores, h.1] at hentry
  cases hentry

/-- An address that is returned is held by the call, or is young enough in the cache. -/
theorem DnsReturns.current {domain : Str} {ip : IpAddr}
    (h : DnsReturns fromSlice s e domain (some ip)) :
    Lts.Current DnsNode.now DnsNode.Holds DnsNode.Stores dnsCacheTtl s domain ip := by
  cases h with
  | hit htask hget =>
    rcases dnsCacheGet_cases s.cache domain s.now with ⟨ip', t, hentry, hyoung, hsome⟩ | hnone
    · rw [hsome] at hget
      cases hget
      exact .inr ⟨t, hentry, hyoung⟩
    · rw [hnone] at hget
      cases hget
  | found htask => exact .inl ⟨_, List.mem_of_getElem? htask, _, rfl, List.mem_cons_self ..⟩

/-- Where the server answers, a call ends without an address for a domain that has none. -/
theorem DnsReturns.uncached_eq_none {zone : Zone} {domain : Str}
    (h : DnsReturns fromSlice s e domain none) (hserved : Served zone s)
    (htold : Told fromSlice s e) (hanswered : Answered fromSlice e) :
    zone.uncached domain = none := by
  cases h with
  | @ended i task name answer htask hasked hhear =>
    obtain ⟨resp, rfl, hsuccess, hsome⟩ := hanswered i answer rfl
    obtain ⟨records, hbody⟩ := Option.isSome_iff_exists.mp hsome
    have hrecords := htold i resp rfl task htask name hasked records hbody
    rw [hserved.sameZone] at hrecords
    have honway := hserved.onWay task (List.mem_of_getElem? htask)
    obtain ⟨original, phase⟩ := task
    cases phase with
    | get => cases hasked
    | put ip names => cases hasked
    | ask left current =>
      simp only [DnsTask.hear] at hhear
      split at hhear <;> cases hhear
    | askCname left current =>
      cases hasked
      obtain ⟨hnone, hfollow⟩ := honway
      rw [← hfollow]
      have hcname : answerCname fromSlice (.response resp) = zone.cname name := by
        rw [answerCname, pickCnameFromDnsResponse, hbody, hrecords]
        rfl
      simp only [DnsTask.hear, hcname] at hhear
      cases hnext : zone.cname name with
      | none => exact Walk.follow_of_end hnone hnext
      | some next =>
        cases left with
        | zero =>
          rw [Walk.follow_of_link ⟨hnone, hnext⟩]
          rfl
        | succ left =>
          rw [hnext] at hhear
          cases hhear

/-- A name with an address, and the answer to a query for it. -/
def plainName : Str := "example".toList

def plainAnswer : Answer := (ladderCall plainName).dns 0 plainName

/-- It is resolved, and asked for again after five ticks. -/
def resolvedTwice : List DnsEvent :=
  [.resolve plainName, .get 0, .answer 0 plainAnswer, .put 0, .put 0, .put 0, .tick 5,
    .resolve plainName]

/-- The state after them. -/
def resolvedAgain : DnsNode :=
  let put := fun cache => dnsCachePut cache plainName (.v4 #v[10, 0, 0, 1]) 0
  ⟨5, ladder, put (put (put (Function.update DnsCache.empty plainName none))),
    [⟨plainName, .get⟩]⟩

theorem told_plainAnswer {s : DnsNode} (hzone : s.zone = ladder)
    (htasks : s.tasks = [⟨plainName, .ask 4 plainName⟩]) :
    Told ladderJson s (.answer 0 plainAnswer) := by
  obtain ⟨resp', hresp', -, hbody⟩ := ladder_serves plainName 0 plainName
  rintro i resp heq task htask name hasked records hrecords
  have hanswer : plainAnswer = .response resp' := hresp'
  rw [hanswer] at heq
  cases heq
  rw [htasks] at htask
  cases htask
  cases hasked
  rw [hzone]
  exact Option.some.inj (hrecords.symm.trans hbody)

theorem told_of_ne {s : DnsNode} {fromSlice : Bytes → Option Json} {e : DnsEvent}
    (h : ∀ i answer, e ≠ .answer i answer) : Told fromSlice s e :=
  fun i _ heq => absurd heq (h i _)

theorem resolvedTwice_run : (resolutions ladderJson).Run resolvedTwice resolvedAgain := by
  have hempty : DnsCache.empty plainName = none := rfl
  have hmiss : DnsNode.step ladderJson ⟨0, ladder, .empty, [⟨plainName, .get⟩]⟩ (.get 0)
      = some ⟨0, ladder, Function.update DnsCache.empty plainName none,
          [⟨plainName, .ask 4 plainName⟩]⟩ := by
    simp [DnsNode.step, dnsCacheGet, hempty, DnsNode.goOn, maxCnameDepth]
  have hip : answerIp ladderJson plainAnswer = some (.v4 #v[10, 0, 0, 1]) := by decide +kernel
  have hhear : DnsTask.hear ladderJson ⟨plainName, .ask 4 plainName⟩ plainAnswer
      = some (.put (.v4 #v[10, 0, 0, 1]) [plainName, plainName, plainName]) := by
    have hne : plainAnswer ≠ .timeout := by rintro ⟨⟩
    rw [DnsTask.hear_ask hne, hip]
  have hheard : ∀ cache, DnsNode.step ladderJson
      ⟨0, ladder, cache, [⟨plainName, .ask 4 plainName⟩]⟩ (.answer 0 plainAnswer)
      = some ⟨0, ladder, cache, [⟨plainName, .put (.v4 #v[10, 0, 0, 1])
          [plainName, plainName, plainName]⟩]⟩ := by
    intro cache
    simp [DnsNode.step, DnsPhase.asked, hhear, DnsNode.goOn]
  have hother : ∀ {s s' e}, DnsNode.step ladderJson s e = some s' →
      (∀ i answer, e ≠ .answer i answer) → (resolutions ladderJson).step s e s' :=
    fun hstep hne => ⟨hstep, told_of_ne hne⟩
  have hstart : (resolutions ladderJson).Run [] ⟨0, ladder, .empty, []⟩ := .start ⟨rfl, rfl⟩
  have hasked :
      (resolutions ladderJson).Run [.resolve plainName, .get 0, .answer 0 plainAnswer] _ :=
    ((hstart.next (hother rfl (by rintro _ _ ⟨⟩))).next (hother hmiss (by rintro _ _ ⟨⟩))).next
      ⟨hheard _, told_plainAnswer rfl rfl⟩
  exact ((((hasked.next (hother rfl (by rintro _ _ ⟨⟩))).next (hother rfl (by rintro _ _ ⟨⟩))).next
    (hother rfl (by rintro _ _ ⟨⟩))).next (hother rfl (by rintro _ _ ⟨⟩))).next
    (hother rfl (by rintro _ _ ⟨⟩))

end Gurted.Indexing
