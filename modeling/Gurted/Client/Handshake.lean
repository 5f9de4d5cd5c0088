import Gurted.Api.Handshake
import Gurted.Client.Response

/-!
# The clients' sides of the handshake

`fetch_once` (`gurtd/src/crawler/client.rs`) and `perform_handshake`
(`gurtd/src/indexing/fetch.rs`) each write a request of their own and read the reply
in their own way. `Exchange` is a run of either against the server.
-/

namespace Gurted.Client

open Gurted Gurted.Lib Gurted.Api

/-! ## `fetch_once` -/

/-- `hs_req`. -/
def fetchOnceRequest : Str := "HANDSHAKE / GURT/1.0\r\n\r\n".toList

/-- How `fetch_once` reads the reply. -/
def fetchOnceHandshake (s : Stream) : Except ClientError Unit × Stream :=
  match readResponseLike s with
  | (.error e, s') => (.error e, s')
  | (.ok hs, s') => if hs.code ≠ 101 then (.error .invalidMessage, s') else (.ok (), s')

/-! ## `perform_handshake` -/

/-- The request; `ua` is the user agent from the environment, or its default. -/
def performHandshakeRequest (host ua : Str) : Str :=
  "HANDSHAKE / GURT/1.0.0\r\nhost: ".toList ++ host ++ "\r\nuser-agent: ".toList ++ ua
    ++ "\r\n\r\n".toList

/-- How `perform_handshake` reads the reply. -/
def performHandshake (s : Stream) : Except Anyhow Unit × Stream :=
  match readUntil maxMessageBytes
      ⟨.io, .msg "handshake closed".toList, .msg "handshake too large".toList⟩ [] s with
  | (.error e, s') => (.error e, s')
  | (.ok (buf, _), s') =>
      let line := firstLine buf
      if word line 0 ≠ "GURT/1.0.0".toList ∨ word line 1 ≠ "101".toList then
        (.error (.msg ("unexpected handshake response: ".toList ++ line)), s')
      else (.ok (), s')

/-! ## Both against the server -/

inductive HandshakeClient where
  | fetchOnce
  | performHandshake (host ua : Str)
  deriving DecidableEq, Repr

def HandshakeClient.request : HandshakeClient → Bytes
  | .fetchOnce => utf8 fetchOnceRequest
  | .performHandshake host ua => utf8 (performHandshakeRequest host ua)

/-- The client accepts what it reads. -/
def HandshakeClient.accepts : HandshakeClient → Stream → Bool
  | .fetchOnce, s => (fetchOnceHandshake s).1.isOk
  | .performHandshake _ _, s => (Client.performHandshake s).1.isOk

/-- The values a client puts into its request hold no CR or LF. -/
def HandshakeClient.OnLines : HandshakeClient → Prop
  | .fetchOnce => True
  | .performHandshake host ua => IsLine host ∧ IsLine ua

/-- What the server has written when it is done. -/
def written : Except Anyhow Bytes → Bytes
  | .ok reply => reply
  | .error _ => []

/-- A run of the handshake: how the request arrives at the server, and how what the
server writes arrives at the client. Neither side sends anything else. -/
structure Exchange (date : Str) (client : HandshakeClient) where
  request : List Bytes
  request_ne : ∀ c ∈ request, c ≠ []
  request_eq : request.flatten = client.request
  reply : List Bytes
  reply_ne : ∀ c ∈ reply, c ≠ []
  reply_eq : reply.flatten = written (readAndRespondHandshake date (.ofChunks request)).1

/-- The server accepts the request, and the client the reply. -/
def Exchange.accepted {date : Str} {client : HandshakeClient} (x : Exchange date client) : Bool :=
  (readAndRespondHandshake date (.ofChunks x.request)).1.isOk
    && client.accepts (.ofChunks x.reply)

/-! ## The requests and the reply as heads -/

theorem fetchOnceRequest_eq :
    fetchOnceRequest
      = headOf (handshakeLine "GURT/1.0".toList :: [].map WireRequest.headerText) := by
  decide

theorem performHandshakeRequest_eq (host ua : Str) :
    performHandshakeRequest host ua
      = headOf (handshakeLine protoVersion ::
          [("host".toList, host), ("user-agent".toList, ua)].map WireRequest.headerText) := by
  have hline : handshakeLine protoVersion = "HANDSHAKE / GURT/1.0.0".toList := by decide
  have htext : performHandshakeRequest host ua
      = "HANDSHAKE / GURT/1.0.0\r\nhost: ".toList ++ host ++ "\r\nuser-agent: ".toList ++ ua
        ++ "\r\n\r\n".toList := rfl
  rw [hline, htext]
  simp [headOf, WireRequest.headerText, crlf]

theorem requestHeaders_isHeader {host ua : Str} (hhost : IsLine host) (hua : IsLine ua) :
    ∀ h ∈ [("host".toList, host), ("user-agent".toList, ua)], IsHeader h := by
  intro h hh
  rcases List.mem_cons.mp hh with rfl | hh
  · exact .withValue (by decide) hhost
  · rw [List.mem_singleton.mp hh]
    exact .withValue (by decide) hua

/-- The first line of the reply. -/
def replyLine : Str := "GURT/1.0.0 101 SWITCHING_PROTOCOLS".toList

/-- The headers of the reply. -/
def replyHeaders (date : Str) : List (Str × Str) :=
  [("gurt-version".toList, "1.0.0".toList), ("encryption".toList, "TLS/1.3".toList),
    ("alpn".toList, "GURT/1.0".toList), ("server".toList, "GURT/1.0.0".toList),
    ("date".toList, date)]

theorem switchingProtocols_eq (date : Str) :
    switchingProtocols date
      = headOf (replyLine :: (replyHeaders date).map WireRequest.headerText) := by
  have hversion : protoVersion = "GURT/1.0.0".toList := rfl
  have hline : replyLine = "GURT/1.0.0 101 SWITCHING_PROTOCOLS".toList := rfl
  simp only [switchingProtocols, replyHeaders]
  rw [hversion, hline]
  simp [headOf, WireRequest.headerText, crlf]

/-- What `httpdate` documents of a date it formats: one line of 29 characters. -/
structure HttpDate (date : Str) : Prop where
  line : IsLine date
  length : (utf8 date).length = 29

theorem replyHeaders_isHeader {date : Str} (hdate : IsLine date) :
    ∀ h ∈ replyHeaders date, IsHeader h := by
  intro h hh
  simp only [replyHeaders, List.mem_cons, List.not_mem_nil, or_false] at hh
  rcases hh with rfl | rfl | rfl | rfl | rfl
  · decide
  · decide
  · decide
  · decide
  · exact .withValue (by decide) hdate

theorem switchingProtocols_length {date : Str} (hdate : HttpDate date) :
    (utf8 (switchingProtocols date)).length ≤ maxMessageBytes := by
  have hempty : (utf8 (switchingProtocols [])).length ≤ 200 := by decide +kernel
  have hlength : (utf8 (switchingProtocols date)).length
      = (utf8 (switchingProtocols [])).length + (utf8 date).length := by
    simp only [switchingProtocols, utf8_append, List.length_append, utf8_nil, List.length_nil]
    omega
  rw [hlength, hdate.length, maxMessageBytes]
  omega

/-- **`perform_handshake`** accepts the reply of the server. -/
theorem performHandshake_switchingProtocols {date : Str} (hdate : HttpDate date)
    {cs : List Bytes} (hne : ∀ c ∈ cs, c ≠ [])
    (hbytes : cs.flatten = utf8 (switchingProtocols date)) :
    (performHandshake (.ofChunks cs)).1 = .ok () := by
  have hcap : cs.flatten.length ≤ maxMessageBytes := by
    rw [hbytes]
    exact switchingProtocols_length hdate
  rw [switchingProtocols_eq] at hbytes
  have hline : IsLine replyLine := by decide
  obtain ⟨i, hread⟩ := readUntil_headOf hline (by decide) (replyHeaders_isHeader hdate.line)
    ⟨Anyhow.io, .msg "handshake closed".toList, .msg "handshake too large".toList⟩ hne hbytes hcap
  have hversion : word replyLine 0 = "GURT/1.0.0".toList := by decide
  have hcode : word replyLine 1 = "101".toList := by decide
  rw [performHandshake, hread]
  simp only [firstLine_headOf hline]
  rw [if_neg (by simp [hversion, hcode])]

/-! ## Who gets through -/

/-- **The handshake** of a run is accepted on both sides exactly when the client is
`perform_handshake`: `fetch_once` names a version the server refuses. -/
theorem accepted_iff {date : Str} (hdate : HttpDate date) {client : HandshakeClient}
    (hlines : client.OnLines) (hsize : client.request.length ≤ maxHandshakeBytes)
    (x : Exchange date client) :
    x.accepted = true ↔ ∃ host ua, client = .performHandshake host ua := by
  have hcap : x.request.flatten.length ≤ maxHandshakeBytes := by
    rw [x.request_eq]
    exact hsize
  cases client with
  | fetchOnce =>
    have hversion : IsToken "GURT/1.0".toList := ⟨by decide, Str.noWs_of_all (by decide)⟩
    have hbytes : x.request.flatten = utf8 fetchOnceRequest := x.request_eq
    rw [fetchOnceRequest_eq] at hbytes
    have hserver := readAndRespondHandshake_headOf hversion date (by simp)
      x.request_ne hbytes hcap
    rw [if_neg (by decide)] at hserver
    constructor
    · intro haccepted
      rw [Exchange.accepted, hserver] at haccepted
      cases haccepted
    · rintro ⟨host, ua, heq⟩
      cases heq
  | performHandshake host ua =>
    have hversion : IsToken protoVersion := ⟨by decide, Str.noWs_of_all (by decide)⟩
    have hbytes : x.request.flatten = utf8 (performHandshakeRequest host ua) := x.request_eq
    rw [performHandshakeRequest_eq] at hbytes
    have hhs := requestHeaders_isHeader hlines.1 hlines.2
    have hserver := readAndRespondHandshake_headOf hversion date hhs
      x.request_ne hbytes hcap
    rw [if_pos rfl] at hserver
    have hreply := x.reply_eq
    rw [hserver] at hreply
    have hclient := performHandshake_switchingProtocols hdate x.reply_ne hreply
    refine ⟨fun _ => ⟨host, ua, rfl⟩, fun _ => ?_⟩
    rw [Exchange.accepted, hserver]
    show (performHandshake (.ofChunks x.reply)).1.isOk = true
    rw [hclient]
    rfl

def someDate : Str := "Sun, 06 Nov 1994 08:49:37 GMT".toList

theorem httpDate_someDate : HttpDate someDate := ⟨by decide, by decide⟩

/-- `perform_handshake` with its request and the reply cut inside a CRLFCRLF. -/
def cutExchange : Exchange someDate (.performHandshake "a.web".toList "gurtd/0.1".toList) where
  request := [utf8 "HANDSHAKE / GURT/1.0.0\r\nhost: a.web\r\nuser-agent: gurtd/0.1\r\n".toList,
    utf8 "\r\n".toList]
  request_ne := by decide
  request_eq := by decide +kernel
  reply := [(utf8 (switchingProtocols someDate)).take 150,
    (utf8 (switchingProtocols someDate)).drop 150]
  reply_ne := by decide +kernel
  reply_eq := by decide +kernel

theorem accepted_iff_cut : cutExchange.accepted = true :=
  (accepted_iff httpDate_someDate
    (show HandshakeClient.OnLines (.performHandshake "a.web".toList "gurtd/0.1".toList) from
      ⟨by decide, by decide⟩)
    (by decide +kernel) cutExchange).mpr ⟨_, _, rfl⟩

/-- `fetch_once` with its request in one piece: the server answers nothing. -/
def refusedExchange : Exchange someDate .fetchOnce where
  request := [utf8 fetchOnceRequest]
  request_ne := by decide
  request_eq := by decide
  reply := []
  reply_ne := by decide
  reply_eq := by decide +kernel

/-- `fetch_once` does not get through. -/
theorem not_accepted_fetchOnce :
    ¬ ∀ (date : Str) (client : HandshakeClient), HttpDate date → client.OnLines →
        client.request.length ≤ maxHandshakeBytes →
        ∀ x : Exchange date client, x.accepted = true := by
  intro h
  have haccepted := h someDate .fetchOnce httpDate_someDate trivial (by decide) refusedExchange
  have hrefused : refusedExchange.accepted = false := by decide +kernel
  rw [hrefused] at haccepted
  cases haccepted

end Gurted.Client
