import Gurted.Dialogue.Safety

/-!
# Fetches that complete

Without a failure or a timeout a run of a fetch goes through six stages. From each of
them but the last it can go on, and a step leads to the same stage with fewer bytes on
the way, or to the next one (`Stage.step`); so every such run comes to the answer of the
router, within a number of steps that depends on the lengths of the messages alone.
-/

namespace Gurted.Dialogue

open Gurted Gurted.Lib Gurted.Api Gurted.Client Gurted.Indexing Gurted.Server

/-- Nothing fails, nobody gives up, and the router answers. -/
def Event.Smooth : Event → Prop
  | .serverReads _ | .clientReads _ | .serverReplies | .clientReturns => True
  | .serverAnswers date answer => ∃ resp, answer = some resp ∧ Sendable date resp
  | .tls v13 => v13 = true
  | .serverFails | .clientFails | .serverIdles | .clientTimesOut => False

section Stages
variable (x : Fetch)

/-- What a connection can do then. -/
inductive Moves : Connection → Connection → Prop
  | serverReadsHandshake {client reads toServer toClient handled k bs rest} :
      arrive toServer client.gone k = some (bs, rest) →
      Moves ⟨client, .handshake reads, toServer, toClient, handled⟩
        ⟨client, .handshake (reads ++ [.bytes bs]), rest, toClient, handled⟩
  | serverReadsRequest {client reads toServer toClient handled k bs rest} :
      arrive toServer client.gone k = some (bs, rest) →
      Moves ⟨client, .request reads, toServer, toClient, handled⟩
        ⟨client, .request (reads ++ [.bytes bs]), rest, toClient, handled⟩
  | clientReadsHandshake {server reads toServer toClient handled k bs rest} :
      arrive toClient server.gone k = some (bs, rest) → returned performHandshake reads = none →
      Moves ⟨.handshake reads, server, toServer, toClient, handled⟩
        ⟨.handshake (reads ++ [.bytes bs]), server, toServer, rest, handled⟩
  | clientReadsResponse {server reads toServer toClient handled k bs rest} :
      arrive toClient server.gone k = some (bs, rest) →
      returned (readResponse x.idle) reads = none →
      Moves ⟨.response reads, server, toServer, toClient, handled⟩
        ⟨.response (reads ++ [.bytes bs]), server, toServer, rest, handled⟩
  | replies {client reads toServer toClient handled reply} :
      returned (readAndRespondHandshake x.date) reads = some (.ok reply) →
      Moves ⟨client, .handshake reads, toServer, toClient, handled⟩
        ⟨client, .accepting, toServer, toClient ++ reply, handled⟩
  | hangsUp {client reads toServer toClient handled e} :
      returned (readAndRespondHandshake x.date) reads = some (.error e) →
      Moves ⟨client, .handshake reads, toServer, toClient, handled⟩
        ⟨client, .closed, toServer, toClient, handled⟩
  | answers {client reads toServer toClient handled date resp result} : Sendable date resp →
      returned readRequest reads = some result →
      Moves ⟨client, .request reads, toServer, toClient, handled⟩
        (Connection.answer ⟨client, .request reads, toServer, toClient, handled⟩ date (some resp)
          result)
  | accepts {server reads toServer toClient handled} :
      returned performHandshake reads = some (.ok ()) →
      Moves ⟨.handshake reads, server, toServer, toClient, handled⟩
        ⟨.connecting, server, toServer, toClient, handled⟩
  | rejects {server reads toServer toClient handled e} :
      returned performHandshake reads = some (.error e) →
      Moves ⟨.handshake reads, server, toServer, toClient, handled⟩
        ⟨.finished (.error e), server, toServer, toClient, handled⟩
  | returns {server reads toServer toClient handled result} :
      returned (readResponse x.idle) reads = some result →
      Moves ⟨.response reads, server, toServer, toClient, handled⟩
        ⟨.finished result, server, toServer, toClient, handled⟩
  | tls {toServer toClient handled} :
      Moves ⟨.connecting, .accepting, toServer, toClient, handled⟩
        ⟨.response [], .request [], toServer ++ x.requestBytes, toClient, handled⟩

/-- Where a run of `n` steps is: a step for each byte read, and five in between. -/
inductive Stage : Nat → Connection → Prop
  | greeting {n reads rest} : OnWay reads rest x.handshakeBytes →
      n + rest.length ≤ x.handshakeBytes.length →
      Stage n ⟨.handshake [], .handshake reads, rest, [], []⟩
  | greeted {n reads rest} : OnWay reads rest x.replyBytes →
      n + rest.length ≤ x.handshakeBytes.length + x.replyBytes.length + 1 →
      Stage n ⟨.handshake reads, .accepting, [], rest, []⟩
  | connecting {n} : n ≤ x.handshakeBytes.length + x.replyBytes.length + 2 →
      Stage n ⟨.connecting, .accepting, [], [], []⟩
  | asking {n reads rest} : OnWay reads rest x.requestBytes →
      n + rest.length
        ≤ x.handshakeBytes.length + x.replyBytes.length + x.requestBytes.length + 3 →
      Stage n ⟨.response [], .request reads, rest, [], []⟩
  | answering {n reads rest date resp} : Sendable date resp →
      OnWay reads rest (resp.intoBytes date) →
      n + rest.length ≤ x.handshakeBytes.length + x.replyBytes.length + x.requestBytes.length
        + (resp.intoBytes date).length + 4 →
      Stage n ⟨.response reads, .closed, [], rest, [⟨x.request.toRequest, date, some resp⟩]⟩
  | completed {n date resp} : Sendable date resp →
      n ≤ x.handshakeBytes.length + x.replyBytes.length + x.requestBytes.length
        + (resp.intoBytes date).length + 5 →
      Stage n ⟨.finished (.ok (seen date resp)), .closed, [], [],
        [⟨x.request.toRequest, date, some resp⟩]⟩

end Stages

variable {x : Fetch}

/-- A read of an open direction takes something out of it. -/
theorem arrive_open {channel bs rest : Bytes} {gone : Bool} {n : Nat}
    (h : arrive channel gone n = some (bs, rest)) (hopen : channel = [] → gone = false) :
    n ≠ 0 ∧ n ≤ channel.length ∧ bs = channel.take n ∧ rest = channel.drop n ∧
      rest.length < channel.length := by
  rcases arrive_cases h with ⟨-, hnil, hgone, -, -⟩ | ⟨hpos, hle, rfl, rfl⟩
  · rw [hopen hnil] at hgone
    cases hgone
  · refine ⟨hpos, hle, rfl, rfl, ?_⟩
    rw [List.length_drop]
    omega

/-- All that is on the way can arrive at once. -/
theorem arrive_all {channel : Bytes} (hne : channel ≠ []) (gone : Bool) :
    arrive channel gone channel.length = some (channel, []) := by
  have hpos : channel.length ≠ 0 := fun hzero => hne (List.length_eq_zero_iff.mp hzero)
  rw [arrive, if_neg hpos, if_pos (Nat.le_refl _), List.take_length, List.drop_length]

theorem Connection.moves {c c' : Connection} {a : Event} (hsmooth : a.Smooth)
    (hstep : c.step x a = some c') : Moves x c c' := by
  obtain ⟨client, server, toServer, toClient, handled⟩ := c
  cases a with
  | serverReads k =>
    obtain ⟨⟨bs, rest⟩, harrive, hstep⟩ := Option.bind_eq_some_iff.mp hstep
    obtain ⟨server', htake, hstep⟩ := Option.bind_eq_some_iff.mp hstep
    cases hstep
    rcases ServerAt.take_cases htake with ⟨reads, hat, -, rfl⟩ | ⟨reads, hat, -, rfl⟩
    · cases hat
      exact .serverReadsHandshake harrive
    · cases hat
      exact .serverReadsRequest harrive
  | clientReads k =>
    obtain ⟨⟨bs, rest⟩, harrive, hstep⟩ := Option.bind_eq_some_iff.mp hstep
    obtain ⟨client', htake, hstep⟩ := Option.bind_eq_some_iff.mp hstep
    cases hstep
    rcases ClientAt.take_cases htake with ⟨reads, hat, hwaits, rfl⟩ | ⟨reads, hat, hwaits, rfl⟩
    · cases hat
      exact .clientReadsHandshake harrive hwaits
    · cases hat
      exact .clientReadsResponse harrive hwaits
  | serverReplies =>
    cases server with
    | handshake reads =>
      obtain ⟨result, hpoll, rfl⟩ := Option.map_eq_some_iff.mp hstep
      cases result with
      | error e => exact .hangsUp hpoll
      | ok reply => exact .replies hpoll
    | accepting => cases hstep
    | request reads => cases hstep
    | closed => cases hstep
  | serverAnswers date answer =>
    obtain ⟨resp, rfl, hsend⟩ := hsmooth
    cases server with
    | request reads =>
      obtain ⟨result, hpoll, rfl⟩ := Option.map_eq_some_iff.mp hstep
      exact .answers hsend hpoll
    | handshake reads => cases hstep
    | accepting => cases hstep
    | closed => cases hstep
  | clientReturns =>
    cases client with
    | handshake reads =>
      obtain ⟨result, hpoll, rfl⟩ := Option.map_eq_some_iff.mp hstep
      cases result with
      | error e => exact .rejects hpoll
      | ok u => exact .accepts hpoll
    | response reads =>
      obtain ⟨result, hpoll, rfl⟩ := Option.map_eq_some_iff.mp hstep
      exact .returns hpoll
    | connecting => cases hstep
    | finished result => cases hstep
  | tls v13 =>
    cases hsmooth
    rw [Connection.step] at hstep
    split at hstep
    · next hclient hserver =>
      cases hclient
      cases hserver
      cases hstep
      exact .tls
    · cases hstep
  | serverFails => cases hsmooth
  | clientFails => cases hsmooth
  | serverIdles => cases hsmooth
  | clientTimesOut => cases hsmooth

section Step
variable {n : Nat} {c c' : Connection} {a : Event} (hx : x.Ok)
include hx

theorem Stage.step (h : Stage x n c) (hmoves : Moves x c c') : Stage x (n + 1) c' := by
  cases h with
  | greeting hway hn =>
    have hpoll := hway.returned (readAndRespondHandshake_sequential _) hx.takes_handshake
    cases hmoves with
    | serverReadsHandshake harrive =>
      obtain ⟨hpos, hle, rfl, rfl, hlt⟩ := arrive_open harrive fun _ => rfl
      exact .greeting (hway.take hpos hle) (by omega)
    | clientReadsHandshake harrive hwaits =>
      exact absurd (arrive_open harrive fun _ => rfl).2.2.2.2 (Nat.not_lt_zero _)
    | replies hreply =>
      rw [hpoll] at hreply
      split at hreply
      · next hnil =>
        cases hreply
        subst hnil
        rw [List.length_nil] at hn
        exact .greeted (.start _) (by simp only [List.nil_append]; omega)
      · cases hreply
    | hangsUp hfail =>
      rw [hpoll] at hfail
      split at hfail <;> cases hfail
    | accepts haccept => cases haccept
    | rejects hreject => cases hreject
  | greeted hway hn =>
    have hpoll := hway.returned performHandshake_sequential (takes_performHandshake hx.date)
    cases hmoves with
    | clientReadsHandshake harrive hwaits =>
      obtain ⟨hpos, hle, rfl, rfl, hlt⟩ := arrive_open harrive fun _ => rfl
      exact .greeted (hway.take hpos hle) (by omega)
    | accepts haccept =>
      rw [hpoll] at haccept
      split at haccept
      · next hnil =>
        subst hnil
        rw [List.length_nil] at hn
        exact .connecting (by omega)
      · cases haccept
    | rejects hreject =>
      rw [hpoll] at hreject
      split at hreject <;> cases hreject
  | connecting hn =>
    cases hmoves with
    | tls => exact .asking (.start _) (by simp only [List.nil_append]; omega)
  | asking hway hn =>
    have hpoll := hway.returned readRequest_sequential hx.takes_request
    cases hmoves with
    | serverReadsRequest harrive =>
      obtain ⟨hpos, hle, rfl, rfl, hlt⟩ := arrive_open harrive fun _ => rfl
      exact .asking (hway.take hpos hle) (by omega)
    | clientReadsResponse harrive hwaits =>
      exact absurd (arrive_open harrive fun _ => rfl).2.2.2.2 (Nat.not_lt_zero _)
    | answers hsend hanswer =>
      rw [hpoll] at hanswer
      split at hanswer
      · next hnil =>
        cases hanswer
        subst hnil
        simp only [Connection.answer, x.request_closes, if_true, List.nil_append]
        rw [List.length_nil] at hn
        exact .answering hsend (.start _) (by omega)
      · cases hanswer
    | returns hreturn => cases hreturn
  | answering hsend hway hn =>
    have hpoll := hway.returned (readResponse_sequential _) (hsend.takes x.idle)
    cases hmoves with
    | clientReadsResponse harrive hwaits =>
      -- the answer is not all there, so something is on the way
      rcases arrive_cases harrive with ⟨-, hnil, -, -, -⟩ | ⟨hpos, hle, rfl, rfl⟩
      · rw [hpoll, if_pos hnil] at hwaits
        cases hwaits
      · refine .answering hsend (hway.take hpos hle) ?_
        rw [List.length_drop]
        omega
    | returns hreturn =>
      rw [hpoll] at hreturn
      split at hreturn
      · next hnil =>
        cases hreturn
        subst hnil
        rw [List.length_nil] at hn
        exact .completed hsend (by omega)
      · cases hreturn
  | completed hsend hn => cases hmoves

omit hx in
theorem goes_on_of (hsmooth : a.Smooth) (h : (c.step x a).isSome = true) :
    ∃ a c', Event.Smooth a ∧ c.step x a = some c' :=
  ⟨a, _, hsmooth, (Option.some_get h).symm⟩

/-- From every stage but the last a run can go on. -/
theorem Stage.goes_on (h : Stage x n c) :
    (∃ date resp, Sendable date resp ∧ c = ⟨.finished (.ok (seen date resp)), .closed, [], [],
        [⟨x.request.toRequest, date, some resp⟩]⟩) ∨
      ∃ a c', a.Smooth ∧ c.step x a = some c' := by
  cases h with
  | @greeting reads rest hway hn =>
    have hpoll := hway.returned (readAndRespondHandshake_sequential _) hx.takes_handshake
    by_cases hnil : rest = []
    · rw [if_pos hnil] at hpoll
      refine .inr (goes_on_of (show Event.Smooth .serverReplies from trivial) ?_)
      rw [Connection.step]
      simp only [hpoll]
      rfl
    · rw [if_neg hnil] at hpoll
      refine .inr (goes_on_of (show Event.Smooth (.serverReads rest.length) from trivial) ?_)
      rw [Connection.step]
      simp only [arrive_all hnil, ServerAt.take, if_pos hpoll]
      rfl
  | @greeted reads rest hway hn =>
    have hpoll := hway.returned performHandshake_sequential (takes_performHandshake hx.date)
    by_cases hnil : rest = []
    · rw [if_pos hnil] at hpoll
      refine .inr (goes_on_of (show Event.Smooth .clientReturns from trivial) ?_)
      rw [Connection.step]
      simp only [hpoll]
      rfl
    · rw [if_neg hnil] at hpoll
      refine .inr (goes_on_of (show Event.Smooth (.clientReads rest.length) from trivial) ?_)
      rw [Connection.step]
      simp only [arrive_all hnil, ClientAt.take, if_pos hpoll]
      rfl
  | connecting hn => exact .inr (goes_on_of (show Event.Smooth (.tls true) from rfl) rfl)
  | @asking reads rest hway hn =>
    have hpoll := hway.returned readRequest_sequential hx.takes_request
    by_cases hnil : rest = []
    · rw [if_pos hnil] at hpoll
      refine .inr (goes_on_of (show Event.Smooth (.serverAnswers x.date (some (refusal .ok))) from
        ⟨_, rfl, sendable_refusal hx.date _⟩) ?_)
      rw [Connection.step]
      simp only [hpoll]
      rfl
    · rw [if_neg hnil] at hpoll
      refine .inr (goes_on_of (show Event.Smooth (.serverReads rest.length) from trivial) ?_)
      rw [Connection.step]
      simp only [arrive_all hnil, ServerAt.take, if_pos hpoll]
      rfl
  | @answering reads rest date resp hsend hway hn =>
    have hpoll := hway.returned (readResponse_sequential _) (hsend.takes x.idle)
    by_cases hnil : rest = []
    · rw [if_pos hnil] at hpoll
      refine .inr (goes_on_of (show Event.Smooth .clientReturns from trivial) ?_)
      rw [Connection.step]
      simp only [hpoll]
      rfl
    · rw [if_neg hnil] at hpoll
      refine .inr (goes_on_of (show Event.Smooth (.clientReads rest.length) from trivial) ?_)
      rw [Connection.step]
      simp only [arrive_all hnil, ClientAt.take, if_pos hpoll]
      rfl
  | completed hsend hn => exact .inl ⟨_, _, hsend, rfl⟩

end Step

/-! ## Whole runs -/

theorem stage_inductive (hx : x.Ok) :
    (fetchSystem x).Inductive Event.Smooth fun tr c => Stage x tr.length c where
  start := by
    intro c hc
    cases hc
    exact .greeting (.start _) (by simp)
  next := by
    intro tr c a c' hsmooth h hstep
    rw [List.length_append]
    exact h.step hx (Connection.moves hsmooth hstep)

/-- What the router has answered. -/
def answerBytes (handled : List Handled) : Bytes :=
  handled.flatMap fun h => h.answer.elim [] fun resp => resp.intoBytes h.date

/-- **A fetch completes.** Where nothing fails and nobody gives up, a run takes no more
than `5` steps besides one for each byte of the messages, of which the last is the answer of the
router as soon as it is given; and as long as the client does not have this answer to its
request, with nothing left on the way, the run goes on. -/
theorem fetch_completes (hx : x.Ok) {tr : List Event} {c : Connection}
    (h : (fetchSystem x).Run tr c) (hsmooth : ∀ a ∈ tr, a.Smooth) :
    tr.length ≤ x.handshakeBytes.length + x.replyBytes.length + x.requestBytes.length
        + (answerBytes c.handled).length + 5 ∧
      ((∃ date resp, Sendable date resp ∧ c = ⟨.finished (.ok (seen date resp)), .closed, [], [],
          [⟨x.request.toRequest, date, some resp⟩]⟩) ∨
        ∃ a c', a.Smooth ∧ c.step x a = some c') := by
  have hstage := h.invariant (stage_inductive hx) hsmooth
  have hsole : ∀ date resp, answerBytes [⟨x.request.toRequest, date, some resp⟩]
      = resp.intoBytes date := fun _ _ => List.append_nil _
  refine ⟨?_, hstage.goes_on hx⟩
  cases hstage with
  | greeting _ hn => omega
  | greeted _ hn => omega
  | connecting hn => omega
  | asking _ hn => omega
  | answering hsend _ hn =>
    rw [hsole]
    omega
  | completed hsend hn =>
    rw [hsole]
    exact hn

theorem fetch_completes_someRun :
    someRun.length ≤ someFetch.handshakeBytes.length + someFetch.replyBytes.length
        + someFetch.requestBytes.length + (answerBytes someEnd.handled).length + 5 ∧
      ((∃ date resp, Sendable date resp ∧ someEnd = ⟨.finished (.ok (seen date resp)), .closed,
          [], [], [⟨someFetch.request.toRequest, date, some resp⟩]⟩) ∨
        ∃ a c', a.Smooth ∧ someEnd.step someFetch a = some c') :=
  fetch_completes someFetch_ok someRun_run (by
    intro a ha
    simp only [someRun, List.mem_cons, List.not_mem_nil, or_false] at ha
    rcases ha with rfl | rfl | rfl | rfl | rfl | rfl | rfl | rfl | rfl | rfl | rfl | rfl | rfl <;>
      first
        | trivial
        | exact ⟨somePage, rfl, sendable_somePage⟩)

end Gurted.Dialogue
