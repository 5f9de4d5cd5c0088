import Gurted.Lib.Walk
import Gurted.Indexing.Fetch
import Gurted.Std.Json
import Gurted.Std.Net

/-!
# Resolving a domain (`gurtd/src/indexing/dns.rs`)

`resolve_via_gurt_dns` asks the DNS server for one name after the other along the CNAME
records. `resolves_iff` says for which domains of a static zone it keeps to
`MAX_CNAME_DEPTH`: those whose address is not behind exactly that many links, because
the loop counts the names it asks for and not the links between them.
-/

namespace Gurted.Indexing

open Gurted Gurted.Lib

/-! ## The records of an answer -/

/-- The `type` of a record; what has none is of the empty type. -/
def recordType (rec : Json) : Str := ((rec.get "type".toList).bind Json.asStr).getD []

def recordValue (rec : Json) : Option Str := (rec.get "value".toList).bind Json.asStr

/-- The IPv4 address of an `A` record. -/
def usableA (rec : Json) : Option IpAddr :=
  if Str.eqIgnoreAsciiCase (recordType rec) "A".toList then
    ((recordValue rec).bind IpAddr.parse).filter IpAddr.isV4
  else none

/-- The address of an `AAAA` record; an IPv4 address is let through. -/
def usableAaaa (rec : Json) : Option IpAddr :=
  if Str.eqIgnoreAsciiCase (recordType rec) "AAAA".toList then
    (recordValue rec).bind IpAddr.parse
  else none

/-- `trim_end_matches('.')` of the trimmed value. -/
def cnameTarget (val : Str) : Str := (Str.trim val).rdropWhile (· == '.')

/-- The target of a `CNAME` record. -/
def usableCname (rec : Json) : Option Str :=
  if Str.eqIgnoreAsciiCase (recordType rec) "CNAME".toList then
    ((recordValue rec).map cnameTarget).filter (!·.isEmpty)
  else none

/-- The address among records: the first usable `A`, otherwise the first usable `AAAA`. -/
def pickIp (records : List Json) : Option IpAddr :=
  (records.findSome? usableA).or (records.findSome? usableAaaa)

/-- The target of the first usable `CNAME`. -/
def pickCname (records : List Json) : Option Str := records.findSome? usableCname

section Body
variable (fromSlice : Bytes → Option Json)

/-- The records of a response body, as `serde_json::from_slice` reads it. -/
def recordsOf (body : Bytes) : Option (List Json) :=
  ((fromSlice body).bind (Json.get "records".toList)).bind Json.asArray

def pickIpFromDnsResponse (body : Bytes) : Option IpAddr := (recordsOf fromSlice body).bind pickIp

def pickCnameFromDnsResponse (body : Bytes) : Option Str :=
  (recordsOf fromSlice body).bind pickCname

/-! ## The queries -/

/-- What a query to the DNS server comes to. -/
inductive Answer where
  | response (resp : ClientResponse)
  /-- The connection, the handshake, TLS, the request or the response failed. -/
  | failed
  /-- `DNS_TIMEOUT` has passed. -/
  | timeout

/-- `work`: the address in a response of success. -/
def answerIp : Answer → Option IpAddr
  | .response resp => if resp.success then pickIpFromDnsResponse fromSlice resp.body else none
  | _ => none

/-- The second query: the status is not looked at here. -/
def answerCname : Answer → Option Str
  | .response resp => pickCnameFromDnsResponse fromSlice resp.body
  | _ => none

/-- What a resolution returns, and what it puts into the cache, in order. -/
structure Resolution where
  ip : Option IpAddr
  puts : List (Str × IpAddr)

def maxCnameDepth : Nat := 5

/-- The loop of `resolve_via_gurt_dns`. `left` is `MAX_CNAME_DEPTH - depth`, and `dns n name`
what the `n`-th query of the call comes to when it asks for `name`. -/
def resolveLoop (dns : Nat → Str → Answer) (original : Str) : Nat → Nat → Str → Resolution
  | 0, _, _ => ⟨none, []⟩
  | left + 1, n, current =>
      match dns n current with
      | .timeout => ⟨none, []⟩
      | answer =>
          match answerIp fromSlice answer with
          | some ip => ⟨some ip, [(current, ip), (current, ip), (original, ip)]⟩
          | none =>
              match answerCname fromSlice (dns (n + 1) current) with
              | some next => resolveLoop dns original left (n + 2) next
              | none => ⟨none, []⟩

/-- `resolve_via_gurt_dns` when the cache does not have the domain. -/
def resolveUncached (dns : Nat → Str → Answer) (domain : Str) : Resolution :=
  resolveLoop fromSlice dns domain maxCnameDepth 0 domain

end Body

/-! ## The cache -/

/-- `DNS_CACHE`: the address of a name, and when it was put there. -/
abbrev DnsCache := Str → Option (IpAddr × Nat)

def DnsCache.empty : DnsCache := fun _ => none

/-- `DNS_CACHE_TTL`; instants are in nanoseconds. -/
def dnsCacheTtl : Nat := 60 * 10 ^ 9

/-- `dns_cache_get` at an instant: an entry that is too old is removed. -/
def dnsCacheGet (cache : DnsCache) (domain : Str) (now : Nat) : Option IpAddr × DnsCache :=
  match cache domain with
  | some (ip, t) =>
      if now - t ≤ dnsCacheTtl then (some ip, cache) else (none, Function.update cache domain none)
  | none => (none, Function.update cache domain none)

/-- `dns_cache_put` at an instant. -/
def dnsCachePut (cache : DnsCache) (domain : Str) (ip : IpAddr) (now : Nat) : DnsCache :=
  Function.update cache domain (some (ip, now))

/-- The cache after these `dns_cache_put`, the `i`-th at `putAt i`. -/
def dnsCachePuts (cache : DnsCache) (putAt : Nat → Nat) (puts : List (Str × IpAddr)) : DnsCache :=
  puts.zipIdx.foldl (fun cache put => dnsCachePut cache put.1.1 put.1.2 (putAt put.2)) cache

/-- A call of `resolve_via_gurt_dns`: its domain, what its queries come to, and when it looks
into the cache and writes to it. -/
structure DnsCall where
  domain : Str
  dns : Nat → Str → Answer
  getAt : Nat
  putAt : Nat → Nat

/-- `resolve_via_gurt_dns`. -/
def resolveViaGurtDns (fromSlice : Bytes → Option Json) (cache : DnsCache) (call : DnsCall) :
    Option IpAddr × DnsCache :=
  match dnsCacheGet cache call.domain call.getAt with
  | (some ip, cache) => (some ip, cache)
  | (none, cache) =>
      let res := resolveUncached fromSlice call.dns call.domain
      (res.ip, dnsCachePuts cache call.putAt res.puts)

/-- Nothing is known: the domain is resolved. -/
theorem resolveViaGurtDns_empty (fromSlice : Bytes → Option Json) (call : DnsCall) :
    (resolveViaGurtDns fromSlice .empty call).1
      = (resolveUncached fromSlice call.dns call.domain).ip := rfl

/-! ## A static zone -/

/-- The records of every name. -/
abbrev Zone := Str → List Json

namespace Zone

variable (zone : Zone)

/-- The address of a name. -/
def address (name : Str) : Option IpAddr := pickIp (zone name)

/-- The name its CNAME record leads to. -/
def cname (name : Str) : Option Str := pickCname (zone name)

/-- `ip` is the address at the end of a chain of `k` CNAME records. -/
abbrev Chain (k : Nat) (domain : Str) (ip : IpAddr) : Prop :=
  Walk.FoundAfter zone.address zone.cname k domain ip

/-- The server answers every query with the records of the name it asks for. -/
def Serves (fromSlice : Bytes → Option Json) (dns : Nat → Str → Answer) : Prop :=
  ∀ n name, ∃ resp : ClientResponse, dns n name = .response resp ∧ resp.success = true ∧
    recordsOf fromSlice resp.body = some (zone name)

end Zone

section Static
variable {fromSlice : Bytes → Option Json} {zone : Zone} {dns : Nat → Str → Answer}
  (hdns : zone.Serves fromSlice dns)
include hdns

/-- One turn of the loop: the address is there, or the next name is. -/
theorem resolveLoop_succ (original : Str) (left n : Nat) (current : Str) :
    resolveLoop fromSlice dns original (left + 1) n current
      = match zone.address current with
        | some ip => ⟨some ip, [(current, ip), (current, ip), (original, ip)]⟩
        | none =>
            match zone.cname current with
            | some next => resolveLoop fromSlice dns original left (n + 2) next
            | none => ⟨none, []⟩ := by
  obtain ⟨resp, hresp, hok, hrecords⟩ := hdns n current
  obtain ⟨resp', hresp', -, hrecords'⟩ := hdns (n + 1) current
  have hip : answerIp fromSlice (.response resp) = zone.address current := by
    rw [answerIp, if_pos hok, pickIpFromDnsResponse, hrecords]
    rfl
  have hcname : answerCname fromSlice (.response resp') = zone.cname current := by
    rw [answerCname, pickCnameFromDnsResponse, hrecords']
    rfl
  rw [resolveLoop, hresp, hresp']
  simp only [hip, hcname]

/-- **The loop is a bounded walk**, and what it puts into the cache is the address it
returns, for the domain and for a name that has it. -/
theorem resolveLoop_spec (original : Str) (left n : Nat) (current : Str) :
    (resolveLoop fromSlice dns original left n current).ip
        = Walk.follow zone.address zone.cname left current ∧
      ∀ put ∈ (resolveLoop fromSlice dns original left n current).puts,
        Walk.follow zone.address zone.cname left current = some put.2 ∧
          (put.1 = original ∨ zone.address put.1 = some put.2) := by
  induction left generalizing n current with
  | zero => exact ⟨rfl, by simp [resolveLoop]⟩
  | succ left ih =>
    rw [resolveLoop_succ hdns]
    cases hip : zone.address current with
    | some ip =>
      have hfollow : Walk.follow zone.address zone.cname (left + 1) current = some ip :=
        Walk.follow_of_found hip
      refine ⟨hfollow.symm, fun put hput => ?_⟩
      simp only [List.mem_cons, List.not_mem_nil, or_false] at hput
      rcases hput with rfl | rfl | rfl
      · exact ⟨hfollow, .inr hip⟩
      · exact ⟨hfollow, .inr hip⟩
      · exact ⟨hfollow, .inl rfl⟩
    | none =>
      cases hnext : zone.cname current with
      | some next =>
        rw [Walk.follow_of_link ⟨hip, hnext⟩]
        exact ih (n + 2) next
      | none =>
        rw [Walk.follow_of_end hip hnext]
        exact ⟨rfl, by simp⟩

theorem resolveUncached_ip (domain : Str) :
    (resolveUncached fromSlice dns domain).ip
      = Walk.follow zone.address zone.cname maxCnameDepth domain :=
  (resolveLoop_spec hdns domain maxCnameDepth 0 domain).1

end Static

/-! ## The depth -/

/-- What a resolver of chains up to `MAX_CNAME_DEPTH` links returns. -/
structure Zone.Resolves (zone : Zone) (domain : Str) (result : Option IpAddr) : Prop where
  address : ∀ k ip, zone.Chain k domain ip → k ≤ maxCnameDepth → result = some ip
  deep : ∀ k ip, zone.Chain k domain ip → maxCnameDepth < k → result = none
  cyclic : Walk.Cyclic zone.address zone.cname domain → result = none
  ends : Walk.Ends zone.address zone.cname domain → result = none

/-- **Which depth is resolved.** With an empty cache the address of a domain of a static
zone is returned up to `MAX_CNAME_DEPTH` links, and nothing is returned beyond that, on a
cycle or at an end without address, if and only if the domain has no chain of exactly
`MAX_CNAME_DEPTH` links. -/
theorem resolves_iff {fromSlice : Bytes → Option Json} {zone : Zone} {call : DnsCall}
    (hdns : zone.Serves fromSlice call.dns) :
    zone.Resolves call.domain (resolveViaGurtDns fromSlice .empty call).1
      ↔ ∀ ip, ¬ zone.Chain maxCnameDepth call.domain ip := by
  rw [resolveViaGurtDns_empty, resolveUncached_ip hdns]
  have hnone : (∀ k ip, zone.Chain k call.domain ip → maxCnameDepth ≤ k) →
      Walk.follow zone.address zone.cname maxCnameDepth call.domain = none := by
    intro h
    refine Option.eq_none_iff_forall_ne_some.mpr fun ip hip => ?_
    obtain ⟨k, hk, hchain⟩ := Walk.follow_eq_some_iff.mp hip
    exact absurd (h k ip hchain) (Nat.not_le.mpr hk)
  constructor
  · intro h ip hchain
    have hsome := h.address maxCnameDepth ip hchain (Nat.le_refl _)
    rw [hnone fun k ip' hk => Nat.le_of_eq (hchain.unique hk).1] at hsome
    cases hsome
  · intro h
    refine ⟨fun k ip hchain hle => ?_, fun k ip hchain hlt => hnone fun k' ip' hk' => ?_,
      fun hcyclic => hnone fun k ip hk => ?_, fun hends => hnone fun k ip hk => ?_⟩
    · -- a chain of another length is shorter than the number of places
      have hne : k ≠ maxCnameDepth := fun heq => h ip (heq ▸ hchain)
      exact Walk.follow_eq_some_iff.mpr ⟨k, by omega, hchain⟩
    · have := (hchain.unique hk').1
      omega
    · exact absurd hk (hcyclic.not_foundAfter k ip)
    · exact absurd hk (hends.not_foundAfter k ip)

/-! ### Five links -/

/-- Five aliases and an address: `a`, `aa`, and so on. -/
def ladderIndex (name : Str) : Nat := if name.length ≤ 5 then name.length else 0

/-- The answer for an alias names the next one. -/
def ladderRecords (i : Nat) : List Json :=
  if i = 0 then
    [.object [("type".toList, .string "A".toList), ("value".toList, .string "10.0.0.1".toList)]]
  else
    [.object [("type".toList, .string "CNAME".toList),
      ("value".toList, .string (List.replicate (i + 1) 'a'))]]

def ladder : Zone := fun name => ladderRecords (ladderIndex name)

/-- The text of an answer. -/
def ladderBody (i : Nat) : Bytes :=
  if i = 0 then utf8 "\x7b\"records\":[\x7b\"type\":\"A\",\"value\":\"10.0.0.1\"\x7d]\x7d".toList
  else utf8 ("\x7b\"records\":[\x7b\"type\":\"CNAME\",\"value\":\"".toList
    ++ List.replicate (i + 1) 'a' ++ "\"\x7d]\x7d".toList)

/-- `serde_json::from_slice` on these texts. -/
def ladderJson (body : Bytes) : Option Json :=
  ((List.range 6).find? fun i => ladderBody i == body).map fun i =>
    .object [("records".toList, .array (ladderRecords i))]

def ladderCall (domain : Str) : DnsCall :=
  ⟨domain, fun _ name => .response ⟨200, [], ladderBody (ladderIndex name)⟩, 0, fun _ => 0⟩

theorem ladder_serves (domain : Str) : ladder.Serves ladderJson (ladderCall domain).dns := by
  have hbodies : ∀ i : Fin 6, (List.range 6).find? (fun j => ladderBody j == ladderBody i)
      = some i.val := by decide +kernel
  intro n name
  have hlt : ladderIndex name < 6 := by
    rw [ladderIndex]
    split
    · omega
    · omega
  refine ⟨_, rfl, rfl, ?_⟩
  rw [recordsOf, ladderJson, hbodies ⟨ladderIndex name, hlt⟩]
  rfl

theorem resolves_iff_fourLinks :
    ladder.Resolves "aa".toList (resolveViaGurtDns ladderJson .empty (ladderCall "aa".toList)).1
      ↔ ∀ ip, ¬ ladder.Chain maxCnameDepth "aa".toList ip :=
  resolves_iff (ladder_serves "aa".toList)

/-- Five links from `a` to the address. -/
theorem ladder_chain :
    ladder.Chain maxCnameDepth "a".toList (.v4 #v[10, 0, 0, 1]) := by
  have hlink : ∀ i : Fin 5, ladder.address (List.replicate (i + 1) 'a') = none ∧
      ladder.cname (List.replicate (i + 1) 'a') = some (List.replicate (i + 2) 'a') := by
    decide +kernel
  have hhere : ladder.address (List.replicate 6 'a') = some (.v4 #v[10, 0, 0, 1]) := by
    decide +kernel
  exact .link (hlink 0) (.link (hlink 1) (.link (hlink 2) (.link (hlink 3) (.link (hlink 4)
    (.here hhere)))))

/-- The loop has asked for five names, and not for the sixth. -/
theorem not_resolves_fiveLinks :
    ¬ ∀ (fromSlice : Bytes → Option Json) (zone : Zone) (call : DnsCall),
        zone.Serves fromSlice call.dns →
        zone.Resolves call.domain (resolveViaGurtDns fromSlice .empty call).1 := by
  intro h
  have hresolves := h ladderJson ladder (ladderCall "a".toList) (ladder_serves "a".toList)
  have hsome := hresolves.address _ _ ladder_chain (Nat.le_refl _)
  have hnone : (resolveViaGurtDns ladderJson .empty (ladderCall "a".toList)).1 = none := by
    decide +kernel
  rw [hnone] at hsome
  cases hsome

end Gurted.Indexing
