import Gurted.Dialogue.Messages

/-!
# What a fetch can come to

`fetch_received`: in every run, with every failure and timeout, the router gets at most
the one request of the client, and a client that returns a response returns the router's
answer to it; only where a read of the server has failed it may be the refusal of the
server. The invariant follows the two sides: a call in progress has read a part of the
message it waits for, or is bound to fail.
-/

namespace Gurted.Dialogue

open Gurted Gurted.Lib Gurted.Api Gurted.Client Gurted.Indexing Gurted.Server

/-! ## The invariant -/

section Invariant
variable (x : Fetch) (failed : Prop)

/-- What the server has written for the handshake, where it is. -/
inductive Replied : ServerAt → Bytes → Prop
  | notYet (reads : Stream) : Replied (.handshake reads) []
  | reply : Replied .accepting x.replyBytes
  | silent : Replied .closed []
  | gone : Replied .closed x.replyBytes

/-- What it has written for the request, and what the router did before; it refuses only when
a read has `failed`. -/
inductive Answered : ServerAt → List Handled → Bytes → Prop
  | notYet (reads : Stream) : Answered (.request reads) [] []
  | silent (handled : List Handled) : Answered .closed handled []
  | refused {date : Str} : failed → HttpDate date →
      Answered .closed [] ((refusal .internalServerError).intoBytes date)
  | answered {date : Str} {resp : Response} : Sendable date resp →
      Answered .closed [⟨x.request.toRequest, date, some resp⟩] (resp.intoBytes date)

/-- The router got the request of the client, once. -/
def Once (handled : List Handled) : Prop :=
  handled = [] ∨ ∃ date answer, handled = [⟨x.request.toRequest, date, answer⟩]

/-- The response of the client is the router's answer to its request. -/
def Received (handled : List Handled) (got : ClientResponse) : Prop :=
  ∃ date resp, handled = [⟨x.request.toRequest, date, some resp⟩] ∧ got = seen date resp

/-- The router got nothing, and the response is the `500` of the server itself. -/
def Refused (handled : List Handled) (got : ClientResponse) : Prop :=
  handled = [] ∧ ∃ date, got = seen date (refusal .internalServerError)

def ServerInv (toServer : Bytes) (handled : List Handled) : ServerAt → Prop
  | .handshake reads => handled = [] ∧
      Call (readAndRespondHandshake x.date) (· = x.handshakeBytes) (fun _ => True) reads toServer
  | .accepting => handled = [] ∧ toServer = []
  | .request reads => handled = [] ∧
      Call readRequest (· = x.requestBytes) (fun code => code = .internalServerError ∧ failed)
        reads toServer
  | .closed => Once x handled

def ClientInv (server : ServerAt) (toClient : Bytes) (handled : List Handled) : ClientAt → Prop
  | .handshake reads => Call performHandshake (Replied x server) (fun _ => True) reads toClient
  | .connecting => toClient = [] ∧ (server = .accepting ∨ server = .closed)
  | .response reads =>
      Call (readResponse x.idle) (Answered x failed server handled) (fun _ => True) reads toClient
  | .finished (.ok got) =>
      server = .closed ∧ (Received x handled got ∨ failed ∧ Refused handled got)
  | .finished (.error _) => True

structure Inv (c : Connection) : Prop where
  server : ServerInv x failed c.toServer c.handled c.server
  client : ClientInv x failed c.server c.toClient c.handled c.client

end Invariant

/-- The router answers with what can be sent. -/
def Event.Sends : Event → Prop
  | .serverAnswers date answer => HttpDate date ∧ ∀ resp ∈ answer, Sendable date resp
  | _ => True

variable {x : Fetch} {failed : Prop}

/-- More may have failed. -/
theorem Inv.mono {c : Connection} (h : Inv x failed c) {failed' : Prop} (hmore : failed → failed') :
    Inv x failed' c := by
  obtain ⟨client, server, toServer, toClient, handled⟩ := c
  obtain ⟨hserver, hclient⟩ := h
  constructor
  · cases server with
    | handshake reads => exact hserver
    | accepting => exact hserver
    | request reads =>
      exact ⟨hserver.1, hserver.2.mono (fun _ => id) fun _ he => ⟨he.1, hmore he.2⟩⟩
    | closed => exact hserver
  · cases client with
    | handshake reads => exact hclient
    | connecting => exact hclient
    | response reads =>
      refine Call.mono hclient (fun m hm => ?_) fun _ => id
      cases hm with
      | notYet reads => exact .notYet reads
      | silent handled => exact .silent handled
      | refused hfailed hdate => exact .refused (hmore hfailed) hdate
      | answered hsend => exact .answered hsend
    | finished result =>
      cases result with
      | error e => trivial
      | ok got => exact ⟨hclient.1, hclient.2.imp_right (And.imp_left hmore)⟩

theorem inv_start : Inv x failed (Connection.start x) where
  server := ⟨rfl, .inl ⟨_, rfl, .start _⟩⟩
  client := .inl ⟨[], .notYet [], .start _⟩

/-- A step of the server, seen from the client. -/
theorem ClientInv.serverMoves {server : ServerAt} {toClient : Bytes} {handled : List Handled}
    {client : ClientAt} (server' : ServerAt) (handled' : List Handled) (more : Bytes)
    (h : ClientInv x failed server toClient handled client) (hopen : server ≠ .closed)
    (hreplied : ∀ m, Replied x server m → Replied x server' (m ++ more))
    (hanswered : ∀ m, Answered x failed server handled m →
      Answered x failed server' handled' (m ++ more))
    (hconnecting : server = .accepting → more = [] ∧ (server' = .accepting ∨ server' = .closed)) :
    ClientInv x failed server' (toClient ++ more) handled' client := by
  cases client with
  | handshake reads =>
    rcases h with ⟨m, hm, hway⟩ | hfails
    · exact .inl ⟨m ++ more, hreplied m hm, hway.append more⟩
    · exact .inr hfails
  | connecting =>
    obtain ⟨hnil, hserver⟩ := h
    obtain ⟨hmore, hserver'⟩ := hconnecting (hserver.resolve_right hopen)
    exact ⟨by rw [hnil, hmore]; rfl, hserver'⟩
  | response reads =>
    rcases h with ⟨m, hm, hway⟩ | hfails
    · exact .inl ⟨m ++ more, hanswered m hm, hway.append more⟩
    · exact .inr hfails
  | finished result =>
    cases result with
    | error e => trivial
    | ok got => exact absurd h.1 hopen

/-! ## Steps of the server -/

theorem ServerAt.take_cases {a : Arrival} {server server' : ServerAt}
    (h : server.take x a = some server') :
    (∃ reads, server = .handshake reads ∧ returned (readAndRespondHandshake x.date) reads = none ∧
        server' = .handshake (reads ++ [a])) ∨
      ∃ reads, server = .request reads ∧ returned readRequest reads = none ∧
        server' = .request (reads ++ [a]) := by
  cases server with
  | handshake reads =>
    rw [ServerAt.take] at h
    split at h
    · next hwaits => exact .inl ⟨reads, rfl, hwaits, (Option.some.inj h).symm⟩
    · cases h
  | request reads =>
    rw [ServerAt.take] at h
    split at h
    · next hwaits => exact .inr ⟨reads, rfl, hwaits, (Option.some.inj h).symm⟩
    · cases h
  | accepting => cases h
  | closed => cases h

/-- The client does not see that the server has read something. -/
theorem ClientInv.serverTakes {server server' : ServerAt} {toClient : Bytes}
    {handled : List Handled} {client : ClientAt} {a : Arrival}
    (h : ClientInv x failed server toClient handled client)
    (htake : server.take x a = some server') :
    ClientInv x failed server' toClient handled client := by
  rcases ServerAt.take_cases htake with ⟨reads, rfl, -, rfl⟩ | ⟨reads, rfl, -, rfl⟩
  · have hmoved := h.serverMoves (.handshake (reads ++ [a])) handled []
      nofun (fun m hm => by cases hm; exact .notYet _) nofun nofun
    rwa [List.append_nil] at hmoved
  · have hmoved := h.serverMoves (.request (reads ++ [a])) handled []
      nofun nofun (fun m hm => by cases hm; exact .notYet _) nofun
    rwa [List.append_nil] at hmoved

theorem ClientAt.take_cases {a : Arrival} {client client' : ClientAt}
    (h : client.take x a = some client') :
    (∃ reads, client = .handshake reads ∧ returned performHandshake reads = none ∧
        client' = .handshake (reads ++ [a])) ∨
      ∃ reads, client = .response reads ∧ returned (readResponse x.idle) reads = none ∧
        client' = .response (reads ++ [a]) := by
  cases client with
  | handshake reads =>
    rw [ClientAt.take] at h
    split at h
    · next hwaits => exact .inl ⟨reads, rfl, hwaits, (Option.some.inj h).symm⟩
    · cases h
  | response reads =>
    rw [ClientAt.take] at h
    split at h
    · next hwaits => exact .inr ⟨reads, rfl, hwaits, (Option.some.inj h).symm⟩
    · cases h
  | connecting => cases h
  | finished result => cases h

/-! ## The four calls -/

section Calls
variable (hx : x.Ok)
include hx

theorem Fetch.Ok.serves_handshake :
    Serves (readAndRespondHandshake x.date) (· = x.handshakeBytes) fun _ => True where
  sequential := readAndRespondHandshake_sequential _
  first := rfl
  takes := by
    intro m hm _
    rw [hm]
    exact ⟨_, hx.takes_handshake⟩
  breaks := by
    intro m hm _
    rw [hm]
    exact ⟨_, trivial, hx.breaks_handshake⟩
  ends := fun _ => ⟨_, trivial, rfl⟩
  broken := fun _ => ⟨_, trivial, rfl⟩

theorem Fetch.Ok.awaits_request (fails : StatusCode → Prop) :
    Awaits readRequest (· = x.requestBytes) fails where
  sequential := readRequest_sequential
  first := rfl
  takes := by
    intro m hm _
    rw [hm]
    exact ⟨_, hx.takes_request⟩
  ends := fun hnil => absurd hnil.symm x.requestBytes_ne_nil

theorem Fetch.Ok.serves_request (hfailed : failed) :
    Serves readRequest (· = x.requestBytes) fun code => code = .internalServerError ∧ failed where
  toAwaits := hx.awaits_request _
  breaks := by
    intro m hm _
    rw [hm]
    exact ⟨_, ⟨rfl, hfailed⟩, hx.breaks_request⟩
  broken := fun _ => ⟨_, ⟨rfl, hfailed⟩, rfl⟩

theorem Fetch.Ok.serves_performHandshake (server : ServerAt) :
    Serves performHandshake (Replied x server) fun _ => True where
  sequential := performHandshake_sequential
  first := rfl
  takes := by
    intro m hm hne
    cases hm with
    | notYet reads => exact absurd rfl hne
    | silent => exact absurd rfl hne
    | reply => exact ⟨_, takes_performHandshake hx.date⟩
    | gone => exact ⟨_, takes_performHandshake hx.date⟩
  breaks := by
    intro m hm hne
    cases hm with
    | notYet reads => exact absurd rfl hne
    | silent => exact absurd rfl hne
    | reply => exact ⟨_, trivial, breaks_performHandshake hx.date⟩
    | gone => exact ⟨_, trivial, breaks_performHandshake hx.date⟩
  ends := fun _ => ⟨_, trivial, rfl⟩
  broken := fun _ => ⟨_, trivial, rfl⟩

omit hx in
/-- What a client that waits for a response can be sent. -/
theorem Answered.sendable {server : ServerAt} {handled : List Handled} {m : Bytes}
    (h : Answered x failed server handled m) (hne : m ≠ []) :
    ∃ date resp, Sendable date resp ∧ m = resp.intoBytes date ∧ server = .closed ∧
      (Received x handled (seen date resp) ∨ failed ∧ Refused handled (seen date resp)) := by
  cases h with
  | notYet reads => exact absurd rfl hne
  | silent handled => exact absurd rfl hne
  | refused hfailed hdate =>
    exact ⟨_, _, sendable_refusal hdate _, rfl, rfl, .inr ⟨hfailed, rfl, _, rfl⟩⟩
  | answered hsend => exact ⟨_, _, hsend, rfl, rfl, .inl ⟨_, _, rfl, rfl⟩⟩

omit hx in
theorem serves_readResponse (server : ServerAt) (handled : List Handled) :
    Serves (readResponse x.idle) (Answered x failed server handled) fun _ => True where
  sequential := readResponse_sequential _
  first := rfl
  takes := by
    intro m hm hne
    obtain ⟨date, resp, hsend, rfl, -, -⟩ := hm.sendable hne
    exact ⟨_, hsend.takes _⟩
  breaks := by
    intro m hm hne
    obtain ⟨date, resp, hsend, rfl, -, -⟩ := hm.sendable hne
    exact ⟨_, trivial, hsend.breaks _⟩
  ends := fun _ => ⟨_, trivial, rfl⟩
  broken := fun _ => ⟨_, trivial, rfl⟩

end Calls

section Steps
variable {c c' : Connection} (hx : x.Ok) (h : Inv x failed c)
include hx h

theorem Inv.serverReads {n : Nat} (hstep : c.step x (.serverReads n) = some c') :
    Inv x failed c' := by
  obtain ⟨⟨bs, rest⟩, harrive, hstep⟩ := Option.bind_eq_some_iff.mp hstep
  obtain ⟨server', htake, hstep⟩ := Option.bind_eq_some_iff.mp hstep
  cases hstep
  refine ⟨?_, h.client.serverTakes htake⟩
  have hserver := h.server
  rcases ServerAt.take_cases htake with ⟨reads, hat, hwaits, rfl⟩ | ⟨reads, hat, hwaits, rfl⟩
  · rw [hat] at hserver
    exact ⟨hserver.1, hserver.2.arrive hx.serves_handshake.toAwaits hwaits harrive⟩
  · rw [hat] at hserver
    exact ⟨hserver.1, hserver.2.arrive (hx.awaits_request _) hwaits harrive⟩

theorem Inv.serverFails (hfailed : failed) (hstep : c.step x .serverFails = some c') :
    Inv x failed c' := by
  have hserver := h.server
  by_cases hat : c.server = .accepting
  · rw [Connection.step, hat] at hstep
    cases hstep
    rw [hat] at hserver
    have hclient := h.client
    rw [hat] at hclient
    have hmoved := hclient.serverMoves .closed c.handled [] nofun
      (fun m hm => by
        cases hm
        rw [List.append_nil]
        exact .gone) nofun (fun _ => ⟨rfl, .inr rfl⟩)
    rw [List.append_nil] at hmoved
    exact ⟨.inl hserver.1, hmoved⟩
  · obtain ⟨server', htake, rfl⟩ : ∃ server', c.server.take x .ioError = some server' ∧
        { c with server := server' } = c' := by
      rw [Connection.step] at hstep
      split at hstep
      · next hat' => exact absurd hat' hat
      · exact Option.map_eq_some_iff.mp hstep
    refine ⟨?_, h.client.serverTakes htake⟩
    rcases ServerAt.take_cases htake with ⟨reads, hat, hwaits, rfl⟩ | ⟨reads, hat, hwaits, rfl⟩
    · rw [hat] at hserver
      exact ⟨hserver.1, hserver.2.ioError hx.serves_handshake hwaits⟩
    · rw [hat] at hserver
      exact ⟨hserver.1, hserver.2.ioError (hx.serves_request hfailed) hwaits⟩

theorem Inv.serverReplies (hstep : c.step x .serverReplies = some c') : Inv x failed c' := by
  have hserver := h.server
  have hclient := h.client
  rw [Connection.step] at hstep
  split at hstep
  · next reads hat =>
    rw [hat] at hserver hclient
    obtain ⟨result, hpoll, rfl⟩ := Option.map_eq_some_iff.mp hstep
    rcases hserver.2.returned hx.serves_handshake.toAwaits hpoll with
      ⟨m, rfl, -, hchannel, htaken⟩ | ⟨e, -, rfl⟩
    · rw [htaken _ hx.takes_handshake]
      refine ⟨⟨hserver.1, hchannel⟩, ?_⟩
      exact hclient.serverMoves _ _ _ nofun (fun m hm => by cases hm; exact .reply) nofun nofun
    · refine ⟨.inl hserver.1, ?_⟩
      have hmoved := hclient.serverMoves .closed c.handled [] nofun
        (fun m hm => by cases hm; exact .silent) nofun nofun
      rwa [List.append_nil] at hmoved
  · cases hstep

omit hx in
theorem Inv.serverIdles (hstep : c.step x .serverIdles = some c') : Inv x failed c' := by
  obtain ⟨client, server, toServer, toClient, handled⟩ := c
  obtain ⟨hserver, hclient⟩ := h
  rw [Connection.step] at hstep
  split at hstep
  · next reads hat =>
    cases hat
    obtain ⟨rfl, -⟩ := hserver
    split at hstep
    · cases hstep
      have hmoved := hclient.serverMoves .closed [] [] nofun
        nofun (fun m hm => by cases hm; exact .silent _) nofun
      rw [List.append_nil] at hmoved
      exact ⟨.inl rfl, hmoved⟩
    · cases hstep
  · cases hstep

theorem Inv.serverAnswers {date : Str} {answer : Option Response} (hdate : HttpDate date)
    (hsend : ∀ resp ∈ answer, Sendable date resp)
    (hstep : c.step x (.serverAnswers date answer) = some c') : Inv x failed c' := by
  obtain ⟨client, server, toServer, toClient, handled⟩ := c
  obtain ⟨hserver, hclient⟩ := h
  rw [Connection.step] at hstep
  split at hstep
  · next reads hat =>
    cases hat
    obtain ⟨rfl, hcall⟩ := hserver
    obtain ⟨result, hpoll, rfl⟩ := Option.map_eq_some_iff.mp hstep
    rcases hcall.returned (hx.awaits_request _) hpoll with
      ⟨m, rfl, -, -, htaken⟩ | ⟨e, ⟨rfl, hfailed⟩, rfl⟩
    · rw [htaken _ hx.takes_request]
      cases answer with
      | none =>
        have hmoved := hclient.serverMoves .closed [⟨x.request.toRequest, date, none⟩] [] nofun
          nofun (fun m hm => by cases hm; exact .silent _) nofun
        rw [List.append_nil] at hmoved
        exact ⟨.inr ⟨_, _, rfl⟩, hmoved⟩
      | some resp =>
        simp only [Connection.answer, x.request_closes, if_true]
        refine ⟨.inr ⟨_, _, rfl⟩, ?_⟩
        exact hclient.serverMoves _ _ _ nofun nofun
          (fun m hm => by cases hm; exact .answered (hsend _ rfl)) nofun
    · simp only [Connection.answer, utf8_makeEmptyResponse]
      refine ⟨.inl rfl, ?_⟩
      exact hclient.serverMoves _ _ _ nofun nofun
        (fun m hm => by cases hm; exact .refused hfailed hdate) nofun
  · cases hstep

/-! ## Steps of the client -/

theorem Inv.clientReads {n : Nat} (hstep : c.step x (.clientReads n) = some c') :
    Inv x failed c' := by
  obtain ⟨⟨bs, rest⟩, harrive, hstep⟩ := Option.bind_eq_some_iff.mp hstep
  obtain ⟨client', htake, hstep⟩ := Option.bind_eq_some_iff.mp hstep
  cases hstep
  refine ⟨h.server, ?_⟩
  have hclient := h.client
  rcases ClientAt.take_cases htake with ⟨reads, hat, hwaits, rfl⟩ | ⟨reads, hat, hwaits, rfl⟩
  · rw [hat] at hclient
    exact hclient.arrive (hx.serves_performHandshake _).toAwaits hwaits harrive
  · rw [hat] at hclient
    exact hclient.arrive (serves_readResponse _ _).toAwaits hwaits harrive

theorem Inv.clientFails (hstep : c.step x .clientFails = some c') : Inv x failed c' := by
  have hclient := h.client
  rw [Connection.step] at hstep
  split at hstep
  · cases hstep
    exact ⟨h.server, trivial⟩
  · obtain ⟨client', htake, rfl⟩ := Option.map_eq_some_iff.mp hstep
    refine ⟨h.server, ?_⟩
    rcases ClientAt.take_cases htake with ⟨reads, hat, hwaits, rfl⟩ | ⟨reads, hat, hwaits, rfl⟩
    · rw [hat] at hclient
      exact hclient.ioError (hx.serves_performHandshake _) hwaits
    · rw [hat] at hclient
      exact hclient.ioError (serves_readResponse _ _) hwaits

theorem Inv.clientReturns (hstep : c.step x .clientReturns = some c') : Inv x failed c' := by
  have hclient := h.client
  rw [Connection.step] at hstep
  split at hstep
  · next reads hat =>
    rw [hat] at hclient
    obtain ⟨result, hpoll, rfl⟩ := Option.map_eq_some_iff.mp hstep
    cases result with
    | error e => exact ⟨h.server, trivial⟩
    | ok u =>
      refine ⟨h.server, ?_⟩
      rcases hclient.returned (hx.serves_performHandshake _).toAwaits hpoll with
        ⟨m, hm, hne, hchannel, -⟩ | ⟨e, -, he⟩
      · refine ⟨hchannel, ?_⟩
        generalize c.server = server at hm ⊢
        cases hm with
        | notYet reads => exact absurd rfl hne
        | silent => exact absurd rfl hne
        | reply => exact .inl rfl
        | gone => exact .inr rfl
      · cases he
  · next reads hat =>
    rw [hat] at hclient
    obtain ⟨result, hpoll, rfl⟩ := Option.map_eq_some_iff.mp hstep
    refine ⟨h.server, ?_⟩
    rcases hclient.returned (serves_readResponse _ _).toAwaits hpoll with
      ⟨m, hm, hne, -, htaken⟩ | ⟨e, -, rfl⟩
    · obtain ⟨date, resp, hsend, rfl, hclosed, hreceived⟩ := hm.sendable hne
      rw [htaken _ (hsend.takes _)]
      exact ⟨hclosed, hreceived⟩
    · trivial
  · cases hstep

omit hx in
theorem Inv.clientTimesOut (hstep : c.step x .clientTimesOut = some c') : Inv x failed c' := by
  rw [Connection.step] at hstep
  split at hstep
  · cases hstep
  · cases hstep
    exact ⟨h.server, trivial⟩

omit hx in
theorem Inv.tls {v13 : Bool} (hstep : c.step x (.tls v13) = some c') : Inv x failed c' := by
  have hserver := h.server
  have hclient := h.client
  rw [Connection.step] at hstep
  split at hstep
  · next hatClient hatServer =>
    cases hstep
    rw [hatServer] at hserver hclient
    rw [hatClient] at hclient
    obtain ⟨hhandled, hnil⟩ := hserver
    cases v13 with
    | true =>
      refine ⟨⟨hhandled, .inl ⟨_, rfl, ?_⟩⟩, .inl ⟨[], ?_, ?_⟩⟩
      · rw [hnil]
        exact .start _
      · rw [hhandled]
        exact .notYet []
      · rw [hclient.1]
        exact .start _
    | false =>
      refine ⟨.inl hhandled, .inl ⟨[], .silent _, ?_⟩⟩
      rw [hclient.1]
      exact .start _
  · cases hstep

theorem Inv.step {a : Event} (hsends : a.Sends) (hfailed : a = .serverFails → failed)
    (hstep : c.step x a = some c') : Inv x failed c' := by
  cases a with
  | serverReads n => exact h.serverReads hx hstep
  | clientReads n => exact h.clientReads hx hstep
  | serverFails => exact h.serverFails hx (hfailed rfl) hstep
  | clientFails => exact h.clientFails hx hstep
  | serverReplies => exact h.serverReplies hx hstep
  | serverAnswers date answer => exact h.serverAnswers hx hsends.1 hsends.2 hstep
  | serverIdles => exact h.serverIdles hstep
  | clientReturns => exact h.clientReturns hx hstep
  | clientTimesOut => exact h.clientTimesOut hstep
  | tls v13 => exact h.tls hstep

end Steps

/-! ## Whole runs -/

theorem inv_inductive (hx : x.Ok) :
    (fetchSystem x).Inductive Event.Sends fun tr c => Inv x (.serverFails ∈ tr) c where
  start := by
    intro c hc
    cases hc
    exact inv_start
  next := by
    intro tr c a c' hsends h hstep
    refine (h.mono fun hfailed => List.mem_append_left _ hfailed).step hx hsends ?_ hstep
    rintro rfl
    exact List.mem_append_right _ (List.mem_singleton_self _)

/-- **A fetch**, whatever fails and whoever gives up: the router gets the request of the
client at most once, and no other; a response the client returns is the answer to it, or, where
a read of the server has failed, the refusal of the server. -/
theorem fetch_received (hx : x.Ok) {tr : List Event} {c : Connection}
    (h : (fetchSystem x).Run tr c) (hsends : ∀ a ∈ tr, a.Sends) :
    Once x c.handled ∧ ∀ got, c.client = .finished (.ok got) →
      Received x c.handled got ∨ .serverFails ∈ tr ∧ Refused c.handled got := by
  obtain ⟨hserver, hclient⟩ := h.invariant (inv_inductive hx) hsends
  constructor
  · generalize c.server = server at hserver
    cases server with
    | handshake reads => exact .inl hserver.1
    | accepting => exact .inl hserver.1
    | request reads => exact .inl hserver.1
    | closed => exact hserver
  · intro got hat
    rw [hat] at hclient
    exact hclient.2

def someFetch : Fetch where
  host := "a.web".toList
  port := 4879
  path := "/x?q=1".toList
  ua := "gurtd/0.1".toList
  date := someDate
  idle := fun _ => false

theorem someFetch_ok : someFetch.Ok where
  host := ⟨by decide, Str.noWs_of_all (by decide)⟩
  path := ⟨by decide, Str.noWs_of_all (by decide)⟩
  ua := by decide
  date := httpDate_someDate
  handshake_fits := by decide +kernel
  request_fits := by decide +kernel

/-- A page with a CRLFCRLF in it. -/
def somePage : Response :=
  ⟨.ok, [("content-type".toList, "text/html".toList)], utf8 "<p>\r\n\r\n".toList⟩

theorem sendable_somePage : Sendable someDate somePage where
  httpDate := httpDate_someDate
  headers := by
    intro h hh
    rw [List.mem_singleton.mp hh]
    exact ⟨⟨by decide, by decide, by decide, by decide, by decide⟩, by decide⟩
  length := by decide
  fits := by decide +kernel

/-- Everything arrives in two pieces, cut inside a CRLFCRLF. -/
def someRun : List Event :=
  [.serverReads 60, .serverReads 2, .serverReplies, .clientReads 150, .clientReads 3,
    .clientReturns, .tls true, .serverReads 107, .serverReads 2,
    .serverAnswers someDate (some somePage), .clientReads 119, .clientReads 10, .clientReturns]

theorem someRun_sends : ∀ a ∈ someRun, a.Sends := by
  intro a ha
  simp only [someRun, List.mem_cons, List.not_mem_nil, or_false] at ha
  rcases ha with rfl | rfl | rfl | rfl | rfl | rfl | rfl | rfl | rfl | rfl | rfl | rfl | rfl <;>
    first
      | trivial
      | exact ⟨httpDate_someDate, fun resp hresp => Option.some.inj hresp ▸ sendable_somePage⟩

/-- Where it ends. -/
def someEnd : Connection where
  client := .finished (.ok (seen someDate somePage))
  server := .closed
  toServer := []
  toClient := []
  handled := [⟨someFetch.request.toRequest, someDate, some somePage⟩]

theorem someRun_run : (fetchSystem someFetch).Run someRun someEnd :=
  Lts.run_of_foldlM (by decide +kernel)

/-- The page comes back from a run in pieces. -/
theorem fetch_received_someRun :
    Once someFetch someEnd.handled ∧ ∀ got, someEnd.client = .finished (.ok got) →
      Received someFetch someEnd.handled got ∨
        .serverFails ∈ someRun ∧ Refused someEnd.handled got :=
  fetch_received someFetch_ok someRun_run someRun_sends

end Gurted.Dialogue
