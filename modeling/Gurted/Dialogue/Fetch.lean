import Gurted.Client.Calls
import Gurted.Dialogue.Call
import Gurted.Lib.Lts

/-!
# A fetch against the server

`fetch_gurt` of the indexer on one side of a connection and `handle_conn` on the
other, as a transition system. Each side goes on when a call of its has returned; what
one side has written arrives at the other in pieces of any size. Reads can fail, both
sides can give up waiting, and the TLS handshake, which is a step of both, can fail or
settle on an old version.
-/

namespace Gurted.Dialogue

open Gurted Gurted.Lib Gurted.Api Gurted.Client Gurted.Indexing Gurted.Server

/-- `DEFAULT_PORT`. -/
def defaultPort : Nat := 4878

/-- What a fetch asks for, and what its surroundings give: the user agent from the
environment, the date of the server's 101 reply, and which reads of a body time out. -/
structure Fetch where
  host : Str
  port : Nat
  path : Str
  ua : Str
  date : Str
  idle : Nat → Bool

namespace Fetch

/-- `host_header`. -/
def hostHeader (x : Fetch) : Str :=
  if x.port ≠ defaultPort then x.host ++ ":".toList ++ Str.ofNat x.port else x.host

/-- What `send_request` writes. -/
def sendRequest (x : Fetch) : Str :=
  "GET ".toList ++ x.path ++ " GURT/1.0.0\r\nhost: ".toList ++ x.hostHeader
    ++ "\r\nuser-agent: gurtd/0.1\r\naccept: text/html, */*\r\nconnection: close\r\n\r\n".toList

/-- What `perform_handshake` writes. -/
def handshakeBytes (x : Fetch) : Bytes := utf8 (performHandshakeRequest x.host x.ua)

/-- What the server replies to it. -/
def replyBytes (x : Fetch) : Bytes := utf8 (switchingProtocols x.date)

def requestBytes (x : Fetch) : Bytes := utf8 x.sendRequest

end Fetch

/-! ## The two sides -/

/-- Where `fetch_gurt` is; in a call that reads, what the call has read. -/
inductive ClientAt where
  | handshake (reads : Stream)
  | connecting
  | response (reads : Stream)
  | finished (result : Except Anyhow ClientResponse)
  deriving DecidableEq, Repr

/-- Where `handle_conn` is. -/
inductive ServerAt where
  | handshake (reads : Stream)
  | accepting
  | request (reads : Stream)
  | closed
  deriving DecidableEq, Repr

/-- A request that the router got, when it answered, and with what; `none` is an error. -/
structure Handled where
  request : Request
  date : Str
  answer : Option Response
  deriving DecidableEq, Repr

/-- The connection: the two sides, what is written and not yet read in either direction,
and what the router did. -/
structure Connection where
  client : ClientAt
  server : ServerAt
  toServer : Bytes
  toClient : Bytes
  handled : List Handled
  deriving DecidableEq, Repr

inductive Event where
  /-- A read of a side returns `n` bytes. -/
  | serverReads (n : Nat)
  | clientReads (n : Nat)
  /-- A read or the TLS handshake of a side fails. -/
  | serverFails
  | clientFails
  /-- `read_and_respond_handshake` returns. -/
  | serverReplies
  /-- `read_request` returns, and the router gives this answer. -/
  | serverAnswers (date : Str) (answer : Option Response)
  /-- The 30 seconds of the server are over. -/
  | serverIdles
  /-- `perform_handshake` or `read_response` returns. -/
  | clientReturns
  /-- A timeout of `fetch_gurt` is over. -/
  | clientTimesOut
  /-- The TLS handshake, and whether it settles on version 1.3. -/
  | tls (v13 : Bool)

def ClientAt.gone : ClientAt → Bool
  | .finished _ => true
  | _ => false

def ServerAt.gone : ServerAt → Bool
  | .closed => true
  | _ => false

section Step
variable (x : Fetch)

/-- A call of the client that has not returned reads on. -/
def ClientAt.take (a : Arrival) : ClientAt → Option ClientAt
  | .handshake reads =>
      if returned performHandshake reads = none then some (.handshake (reads ++ [a])) else none
  | .response reads =>
      if returned (readResponse x.idle) reads = none then some (.response (reads ++ [a])) else none
  | _ => none

def ServerAt.take (a : Arrival) : ServerAt → Option ServerAt
  | .handshake reads =>
      if returned (readAndRespondHandshake x.date) reads = none then
        some (.handshake (reads ++ [a]))
      else none
  | .request reads =>
      if returned readRequest reads = none then some (.request (reads ++ [a])) else none
  | _ => none

/-- What follows `read_request` in the loop of `handle_conn`. -/
def Connection.answer (c : Connection) (date : Str) (answer : Option Response) :
    Except StatusCode Request → Connection
  | .error code =>
      { c with server := .closed, toClient := c.toClient ++ utf8 (makeEmptyResponse date code) }
  | .ok req =>
      let c : Connection := { c with handled := c.handled ++ [⟨req, date, answer⟩] }
      match answer with
      | none => { c with server := .closed }
      | some resp =>
          { c with
            server := if closeConnection req then .closed else .request []
            toClient := c.toClient ++ resp.intoBytes date }

def Connection.step (c : Connection) : Event → Option Connection
  | .serverReads n => do
      let (bs, rest) ← arrive c.toServer c.client.gone n
      let server ← c.server.take x (.bytes bs)
      return { c with server, toServer := rest }
  | .clientReads n => do
      let (bs, rest) ← arrive c.toClient c.server.gone n
      let client ← c.client.take x (.bytes bs)
      return { c with client, toClient := rest }
  | .serverFails =>
      match c.server with
      | .accepting => some { c with server := .closed }
      | server => (server.take x .ioError).map fun server => { c with server }
  | .clientFails =>
      match c.client with
      | .connecting => some { c with client := .finished (.error .io) }
      | client => (client.take x .ioError).map fun client => { c with client }
  | .serverReplies =>
      match c.server with
      | .handshake reads =>
          (returned (readAndRespondHandshake x.date) reads).map fun
            | .error _ => { c with server := .closed }
            | .ok reply => { c with server := .accepting, toClient := c.toClient ++ reply }
      | _ => none
  | .serverAnswers date answer =>
      match c.server with
      | .request reads => (returned readRequest reads).map (c.answer date answer)
      | _ => none
  | .serverIdles =>
      match c.server with
      | .request reads =>
          if returned readRequest reads = none then some { c with server := .closed } else none
      | _ => none
  | .clientReturns =>
      match c.client with
      | .handshake reads =>
          (returned performHandshake reads).map fun
            | .error e => { c with client := .finished (.error e) }
            | .ok () => { c with client := .connecting }
      | .response reads =>
          (returned (readResponse x.idle) reads).map fun result =>
            { c with client := .finished result }
      | _ => none
  | .clientTimesOut =>
      match c.client with
      | .finished _ => none
      | _ => some { c with client := .finished (.error (.msg "fetch timeout".toList)) }
  | .tls v13 =>
      match c.client, c.server with
      | .connecting, .accepting =>
          some { c with
            client := .response []
            -- an older version is dropped without a word
            server := if v13 then .request [] else .closed
            toServer := c.toServer ++ x.requestBytes }
      | _, _ => none

/-- The client has written its request for the handshake. -/
def Connection.start : Connection := ⟨.handshake [], .handshake [], x.handshakeBytes, [], []⟩

def fetchSystem : Lts Connection Event := .ofStep (Connection.start x) (Connection.step x)

end Step

end Gurted.Dialogue
