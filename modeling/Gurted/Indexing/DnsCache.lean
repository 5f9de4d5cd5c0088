import Gurted.Indexing.Resolve

/-!
# The DNS cache over many calls (`gurtd/src/indexing/dns.rs`)

While the zone does not change, the cache is not seen: `dnsCache_transparent`.
-/

namespace Gurted.Indexing

open Gurted Gurted.Lib

/-! ## Sequences of calls -/

/-- The cache after a sequence of calls. -/
def dnsCacheAfter (fromSlice : Bytes → Option Json) (calls : List DnsCall) : DnsCache :=
  calls.foldl (fun cache call => (resolveViaGurtDns fromSlice cache call).2) .empty

/-- The cache inside a call: after the look-up and the first `j` of its `dns_cache_put`. -/
def DnsCall.cacheAt (fromSlice : Bytes → Option Json) (cache : DnsCache) (call : DnsCall)
    (j : Nat) : DnsCache :=
  match dnsCacheGet cache call.domain call.getAt with
  | (some _, cache) => cache
  | (none, cache) =>
      dnsCachePuts cache call.putAt ((resolveUncached fromSlice call.dns call.domain).puts.take j)

/-- Every entry is what a call for its name returns when nothing is known. -/
def Zone.Agrees (zone : Zone) (fromSlice : Bytes → Option Json) (cache : DnsCache) : Prop :=
  ∀ name ip t, cache name = some (ip, t) →
    ∀ call : DnsCall, zone.Serves fromSlice call.dns → call.domain = name →
      (resolveViaGurtDns fromSlice .empty call).1 = some ip

/-! ## Entries -/

/-- What a name of the zone resolves to. -/
def Zone.uncached (zone : Zone) (name : Str) : Option IpAddr :=
  Walk.follow zone.address zone.cname maxCnameDepth name

/-- Every entry is what its name resolves to. -/
def Zone.Holds (zone : Zone) (cache : DnsCache) : Prop :=
  ∀ name ip t, cache name = some (ip, t) → zone.uncached name = some ip

variable {fromSlice : Bytes → Option Json} {zone : Zone} {cache : DnsCache}

theorem Zone.holds_empty : zone.Holds .empty := by
  intro name ip t h
  cases h

theorem Zone.Holds.remove (h : zone.Holds cache) (domain : Str) :
    zone.Holds (Function.update cache domain none) := by
  intro name ip t hname
  rw [Function.update_apply] at hname
  split at hname
  · cases hname
  · exact h name ip t hname

theorem Zone.Holds.put (h : zone.Holds cache) {domain : Str} {ip : IpAddr}
    (hip : zone.uncached domain = some ip) (now : Nat) :
    zone.Holds (dnsCachePut cache domain ip now) := by
  intro name ip' t hname
  rw [dnsCachePut, Function.update_apply] at hname
  split at hname
  · next heq =>
    cases hname
    exact heq ▸ hip
  · exact h name ip' t hname

theorem Zone.Holds.puts (h : zone.Holds cache) {puts : List (Str × IpAddr)}
    (hputs : ∀ put ∈ puts, zone.uncached put.1 = some put.2) (putAt : Nat → Nat) :
    zone.Holds (dnsCachePuts cache putAt puts) := by
  rw [dnsCachePuts]
  generalize 0 = i
  induction puts generalizing cache i with
  | nil => exact h
  | cons put puts ih =>
    rw [List.zipIdx_cons, List.foldl_cons]
    exact ih (h.put (hputs put (List.mem_cons_self ..)) (putAt i))
      (fun p hp => hputs p (List.mem_cons_of_mem _ hp)) (i + 1)

/-- A look-up removes at most an entry. -/
theorem Zone.Holds.get (h : zone.Holds cache) (domain : Str) (now : Nat) :
    zone.Holds (dnsCacheGet cache domain now).2 := by
  rw [dnsCacheGet]
  split
  · split
    · exact h
    · exact h.remove domain
  · exact h.remove domain

/-- A hit is an entry, whatever its age. -/
theorem exists_of_dnsCacheGet {domain : Str} {now : Nat} {ip : IpAddr}
    (h : (dnsCacheGet cache domain now).1 = some ip) : ∃ t, cache domain = some (ip, t) := by
  rw [dnsCacheGet] at h
  split at h
  · next ip' t hentry =>
    split at h
    · cases h
      exact ⟨t, hentry⟩
    · cases h
  · cases h

/-! ## Calls -/

section Call
variable {call : DnsCall} (hdns : zone.Serves fromSlice call.dns)
include hdns

/-- What a resolution puts into the cache is what the names resolve to: the domain, and the
last name of its chain, which has its address at once. -/
theorem uncached_of_mem_puts {put : Str × IpAddr}
    (hput : put ∈ (resolveUncached fromSlice call.dns call.domain).puts) :
    zone.uncached put.1 = some put.2 := by
  obtain ⟨hfollow, horiginal | haddress⟩ :=
    (resolveLoop_spec hdns call.domain maxCnameDepth 0 call.domain).2 put hput
  · rw [Zone.uncached, horiginal]
    exact hfollow
  · exact Walk.follow_of_found haddress

/-- **One call.** From a cache that holds, a call returns what its domain resolves to. -/
theorem resolveViaGurtDns_holds (h : zone.Holds cache) :
    (resolveViaGurtDns fromSlice cache call).1 = zone.uncached call.domain := by
  rw [resolveViaGurtDns]
  split
  · next ip cache' hget =>
    obtain ⟨t, hentry⟩ := exists_of_dnsCacheGet (congrArg Prod.fst hget)
    exact (h _ ip t hentry).symm
  · exact resolveUncached_ip hdns call.domain

/-- Inside a call the cache holds. -/
theorem Zone.Holds.cacheAt (h : zone.Holds cache) (j : Nat) :
    zone.Holds (call.cacheAt fromSlice cache j) := by
  have hget := h.get call.domain call.getAt
  rw [DnsCall.cacheAt]
  split
  · next ip cache' heq =>
    rw [heq] at hget
    exact hget
  · next cache' heq =>
    rw [heq] at hget
    exact hget.puts (fun put hput => uncached_of_mem_puts hdns (List.mem_of_mem_take hput))
      call.putAt

end Call

/-- At its end a call leaves what it has inside after its last `dns_cache_put`. -/
theorem resolveViaGurtDns_cacheAt (fromSlice : Bytes → Option Json) (cache : DnsCache)
    (call : DnsCall) :
    ∃ j, (resolveViaGurtDns fromSlice cache call).2 = call.cacheAt fromSlice cache j := by
  refine ⟨(resolveUncached fromSlice call.dns call.domain).puts.length, ?_⟩
  rw [DnsCall.cacheAt, List.take_length, resolveViaGurtDns]
  cases hget : dnsCacheGet cache call.domain call.getAt with
  | mk hit cache' => cases hit <;> rfl

/-- **A run of calls** keeps the entries. -/
theorem holds_dnsCacheAfter {calls : List DnsCall}
    (hdns : ∀ call ∈ calls, zone.Serves fromSlice call.dns) :
    zone.Holds (dnsCacheAfter fromSlice calls) := by
  induction calls using List.reverseRecOn with
  | nil => exact Zone.holds_empty
  | append_singleton calls call ih =>
    obtain ⟨j, hj⟩ := resolveViaGurtDns_cacheAt fromSlice (dnsCacheAfter fromSlice calls) call
    have hafter : dnsCacheAfter fromSlice (calls ++ [call])
        = (resolveViaGurtDns fromSlice (dnsCacheAfter fromSlice calls) call).2 := by
      rw [dnsCacheAfter, List.foldl_append]
      rfl
    rw [hafter, hj]
    exact (ih fun c hc => hdns c (List.mem_append_left _ hc)).cacheAt
      (hdns call (List.mem_append_right _ (List.mem_singleton_self call))) j

/-- What holds agrees with the calls. -/
theorem Zone.Holds.agrees (h : zone.Holds cache) : zone.Agrees fromSlice cache := by
  rintro _ ip t hentry call hdns rfl
  rw [resolveViaGurtDns_holds hdns Zone.holds_empty]
  exact h call.domain ip t hentry

/-- **The cache is not seen.** In every sequence of calls to a server that answers every
query from one zone, at whatever instants: each call returns what it returns with an empty
cache, and at every moment of it each entry of the cache is what an uncached call for its
name returns. -/
theorem dnsCache_transparent {calls : List DnsCall}
    (hdns : ∀ call ∈ calls, zone.Serves fromSlice call.dns) :
    ∀ pre call post, calls = pre ++ call :: post →
      (resolveViaGurtDns fromSlice (dnsCacheAfter fromSlice pre) call).1
          = (resolveViaGurtDns fromSlice .empty call).1 ∧
        ∀ j, zone.Agrees fromSlice (call.cacheAt fromSlice (dnsCacheAfter fromSlice pre) j) := by
  rintro pre call post rfl
  have hcall := hdns call (List.mem_append_right _ (List.mem_cons_self ..))
  have hpre : zone.Holds (dnsCacheAfter fromSlice pre) :=
    holds_dnsCacheAfter fun c hc => hdns c (List.mem_append_left _ hc)
  refine ⟨?_, fun j => (hpre.cacheAt hcall j).agrees⟩
  rw [resolveViaGurtDns_holds hcall hpre, resolveViaGurtDns_holds hcall Zone.holds_empty]

/-- The alias four links from the address, and once more. -/
theorem dnsCache_transparent_ladder :
    (resolveViaGurtDns ladderJson (dnsCacheAfter ladderJson [ladderCall "aa".toList])
        (ladderCall "aa".toList)).1
      = (resolveViaGurtDns ladderJson .empty (ladderCall "aa".toList)).1 :=
  have hdns : ∀ call ∈ [ladderCall "aa".toList, ladderCall "aa".toList],
      ladder.Serves ladderJson call.dns := by
    intro call hcall
    simp only [List.mem_cons, List.not_mem_nil, or_false, or_self] at hcall
    rw [hcall]
    exact ladder_serves "aa".toList
  (dnsCache_transparent hdns [ladderCall "aa".toList] (ladderCall "aa".toList) [] rfl).1

end Gurted.Indexing
