import Gurted.Api.OneShot
import Gurted.Router.Routes
import Gurted.Router.Search

/-!
# A query on its way to the server (`gurtd/ui/assets/utils.lua`, `app.lua`, `search.lua`)

The pages escape a query byte by byte and put it behind `?q=`; the server splits the
path and decodes. `typedQuery_arrives` says that the query comes back as it was typed.
-/

namespace Gurted.Router

open Gurted Gurted.Api

variable {SocketAddr : Type*}

/-! ## What the pages send -/

/-- `[%w%-_%.!~%*'%(%)]` in the C locale. -/
def isUnreserved (b : UInt8) : Bool :=
  (48 ≤ b.toNat && b.toNat ≤ 57) || (65 ≤ b.toNat && b.toNat ≤ 90) ||
    (97 ≤ b.toNat && b.toNat ≤ 122) || (utf8 "-_.!~*'()".toList).contains b

/-- A digit of `%02X`. -/
def hexUpper (n : Nat) : Char := Char.ofNat (if n < 10 then 48 + n else 55 + n)

/-- What `gsub` leaves of one byte. -/
def escapeByte (b : UInt8) : Str :=
  if isUnreserved b then [Char.ofNat b.toNat]
  else ['%', hexUpper (b.toNat / 16), hexUpper (b.toNat % 16)]

/-- `encodeURIComponent`; the result is ASCII text. -/
def encodeURIComponent (str : Bytes) : Str := str.flatMap escapeByte

/-- `target` of `app.lua`, without the origin. -/
def searchTarget (query : Str) : Str := "/search?q=".toList ++ encodeURIComponent (utf8 query)

/-- What `do_search` of `search.lua` fetches. -/
def apiSearchTarget (q : Str) : Str := "/api/search?q=".toList ++ encodeURIComponent (utf8 q)

/-- A `GET` for `path` arrives, in any pieces. -/
structure Requested (path : Str) (cs : List Bytes) : Prop where
  nonempty : ∀ c ∈ cs, c ≠ []
  asks : ∃ start ls body, Asks "GET".toList path start ls body ∧
    cs.flatten = utf8 (headOf (start :: ls)) ++ body

/-! ## The escaped text -/

/-- No white space, and nothing a path or a query is split at. -/
def Inert (c : Char) : Prop :=
  Str.isWhitespace c = false ∧ c ≠ '?' ∧ c ≠ '&' ∧ c ≠ '='

instance (c : Char) : Decidable (Inert c) := by
  rw [Inert]
  infer_instance

/-- An unreserved byte is an inert character of one byte, and no `%`. -/
theorem isUnreserved_spec : ∀ n : Fin 256, isUnreserved (UInt8.ofNat n) = true →
    utf8 [Char.ofNat n] = [UInt8.ofNat n] ∧ UInt8.ofNat n ≠ 37 ∧ Inert (Char.ofNat n) := by
  decide +kernel

theorem hexUpper_inert : ∀ n : Fin 16, Inert (hexUpper n) := by decide

/-- A digit of the escape is the digit the decoder reads. -/
theorem hexDigit_hexUpper : ∀ n : Fin 16, ∃ b : UInt8,
    utf8 [hexUpper n] = [b] ∧ hexDigit b = some n.val := by
  intro n
  refine ⟨UInt8.ofNat (hexUpper n).toNat, ?_⟩
  revert n
  decide

theorem unreserved_byte {b : UInt8} (h : isUnreserved b = true) :
    utf8 [Char.ofNat b.toNat] = [b] ∧ b ≠ 37 ∧ Inert (Char.ofNat b.toNat) := by
  have hspec := isUnreserved_spec ⟨b.toNat, b.toNat_lt⟩
  simp only [UInt8.ofNat_toNat] at hspec
  exact hspec h

theorem escapeByte_inert {b : UInt8} {c : Char} (hc : c ∈ escapeByte b) : Inert c := by
  have hlt := b.toNat_lt
  rw [escapeByte] at hc
  split at hc
  · next h =>
    rw [List.mem_singleton.mp hc]
    exact (unreserved_byte h).2.2
  · simp only [List.mem_cons, List.not_mem_nil, or_false] at hc
    rcases hc with rfl | rfl | rfl
    · decide
    · exact hexUpper_inert ⟨b.toNat / 16, by omega⟩
    · exact hexUpper_inert ⟨b.toNat % 16, by omega⟩

theorem encodeURIComponent_inert {bs : Bytes} {c : Char} (hc : c ∈ encodeURIComponent bs) :
    Inert c := by
  obtain ⟨b, -, hb⟩ := List.mem_flatMap.mp hc
  exact escapeByte_inert hb

/-! ## Decoding -/

/-- A byte other than `%` stands for itself. -/
theorem percentBytes_cons_ne {b : UInt8} (h : b ≠ 37) (bs : Bytes) :
    percentBytes (b :: bs) = b :: percentBytes bs := by
  have hb : ¬ (b == 37) = true := by simpa using h
  match bs with
  | [] => rfl
  | [_] => rfl
  | c :: d :: bs =>
    rw [percentBytes]
    split
    · rw [if_neg hb]
    · rfl

theorem percentBytes_percent {c d : UInt8} {hi lo : Nat} (hc : hexDigit c = some hi)
    (hd : hexDigit d = some lo) (bs : Bytes) :
    percentBytes (37 :: c :: d :: bs) = UInt8.ofNat (hi * 16 + lo) :: percentBytes bs := by
  rw [percentBytes, hc, hd]
  rfl

/-- An escaped byte is decoded to itself. -/
theorem percentBytes_escapeByte (b : UInt8) (bs : Bytes) :
    percentBytes (utf8 (escapeByte b) ++ bs) = b :: percentBytes bs := by
  have hlt := b.toNat_lt
  rw [escapeByte]
  split
  · next h =>
    obtain ⟨hbyte, hne, -⟩ := unreserved_byte h
    rw [hbyte, List.singleton_append, percentBytes_cons_ne hne]
  · obtain ⟨hi, hhi, hhi'⟩ := hexDigit_hexUpper ⟨b.toNat / 16, by omega⟩
    obtain ⟨lo, hlo, hlo'⟩ := hexDigit_hexUpper ⟨b.toNat % 16, by omega⟩
    have hbytes : utf8 ['%', hexUpper (b.toNat / 16), hexUpper (b.toNat % 16)] = [37, hi, lo] := by
      have hcut : utf8 ['%', hexUpper (b.toNat / 16), hexUpper (b.toNat % 16)]
          = utf8 ['%'] ++ (utf8 [hexUpper (b.toNat / 16)] ++ utf8 [hexUpper (b.toNat % 16)]) := by
        rw [← utf8_append, ← utf8_append]
        rfl
      rw [hcut, hhi, hlo]
      rfl
    have hnat : b.toNat / 16 * 16 + b.toNat % 16 = b.toNat := by omega
    rw [hbytes]
    show percentBytes (37 :: hi :: lo :: bs) = b :: percentBytes bs
    rw [percentBytes_percent hhi' hlo', hnat, UInt8.ofNat_toNat]

theorem percentBytes_encodeURIComponent (bs : Bytes) :
    percentBytes (utf8 (encodeURIComponent bs)) = bs := by
  induction bs with
  | nil => rfl
  | cons b bs ih =>
    rw [encodeURIComponent, List.flatMap_cons, utf8_append, percentBytes_escapeByte]
    exact congrArg (b :: ·) ih

/-- **The decoder inverts the encoder.** -/
theorem percentDecode_encodeURIComponent (q : Str) :
    percentDecode (encodeURIComponent (utf8 q)) = q := by
  rw [percentDecode, percentBytes_encodeURIComponent, fromUtf8Lossy_utf8]

/-! ## Splitting the path -/

/-- The pair of the query. -/
def queryPair (q : Str) : Str := 'q' :: '=' :: encodeURIComponent (utf8 q)

/-- A page, and the query behind it. -/
def target (page q : Str) : Str := page ++ '?' :: queryPair q

theorem target_eq (page q : Str) :
    target page q = (page ++ ['?', 'q', '=']) ++ encodeURIComponent (utf8 q) := by
  simp [target, queryPair]

theorem searchTarget_eq (q : Str) : searchTarget q = target "/search".toList q := by
  rw [target_eq]
  exact congrArg (· ++ encodeURIComponent (utf8 q)) (by decide)

theorem apiSearchTarget_eq (q : Str) : apiSearchTarget q = target "/api/search".toList q := by
  rw [target_eq]
  exact congrArg (· ++ encodeURIComponent (utf8 q)) (by decide)

theorem target_ne_nil (page q : Str) : target page q ≠ [] := by simp [target]

/-- There is one pair. -/
theorem split_queryPair (q : Str) : Str.split '&' (queryPair q) = [queryPair q] := by
  refine List.splitOnP_eq_singleton fun c hc => beq_eq_false_iff_ne.mpr ?_
  rcases List.mem_cons.mp hc with rfl | hc
  · decide
  · rcases List.mem_cons.mp hc with rfl | hc
    · decide
    · exact (encodeURIComponent_inert hc).2.2.1

theorem splitOnce_queryPair (q : Str) :
    Str.splitOnce '=' (queryPair q) = some (['q'], encodeURIComponent (utf8 q)) :=
  Str.splitOnce_append (s := ['q']) (by decide) _

theorem firstQ_queryPair (q : Str) : firstQ (queryPair q) = some (encodeURIComponent (utf8 q)) := by
  rw [firstQ, split_queryPair, List.findSome?_cons, splitOnce_queryPair]
  rfl

/-- What both routes make of the query. -/
structure Carries (req : Request) (page q : Str) : Prop where
  method : req.method = "GET".toList
  route : routePath req = page
  query : req.query = some (queryPair q)

theorem carries_target {page : Str} (hpage : '?' ∉ page) (q : Str) (headers : List (Str × Str))
    (body : Bytes) : Carries ⟨"GET".toList, target page q, headers, body⟩ page q where
  method := rfl
  route := routePath_of_path hpage rfl
  query := query_of_path hpage rfl

/-- The results page is that of the query. -/
theorem Carries.searchCall {req : Request} {page q : Str} (h : Carries req page q) :
    (searchCall req : Call SocketAddr) = .renderSearchSsr q := by
  rw [Router.searchCall, h.query, Option.bind_some, firstQ_queryPair]
  simp only [percentDecode_encodeURIComponent]

/-- The search is that of the query. -/
theorem Carries.searchParam {req : Request} {page q : Str} (h : Carries req page q) :
    searchParam req = q := by
  rw [Router.searchParam, h.query]
  simp only [Option.elim_some, split_queryPair, List.foldl_cons, List.foldl_nil,
    splitOnce_queryPair, if_true, percentDecode_encodeURIComponent, Option.getD_some]

theorem Carries.handle_search {req : Request} {q : Str} (h : Carries req "/search".toList q)
    (peer : Option SocketAddr) : handleWithPeer req peer = .renderSearchSsr q := by
  rw [handleWithPeer_search peer h.method h.route]
  exact h.searchCall

theorem Carries.handle_apiSearch {req : Request} {q : Str}
    (h : Carries req "/api/search".toList q) (peer : Option SocketAddr) :
    handleWithPeer req peer = .handleSearch req := by
  have hroot : ¬ ("/api/search".toList = "/".toList) := by decide
  have hsearch : ¬ ("/api/search".toList = "/search".toList) := by decide
  have hdomains : ¬ ("/api/search".toList = "/domains".toList) := by decide
  have hasset : Str.startsWith "/api/search".toList assetsPrefix = false := by decide
  have hready : ¬ ("/api/search".toList = "/health/ready".toList) := by decide
  rw [handleWithPeer]
  simp only [h.method, h.route, hroot, hsearch, hdomains, hasset, hready, Bool.false_eq_true,
    and_false, if_false, and_self, if_true]

/-! ## What the server reads -/

/-- A request that arrives is read with its page and its query. -/
theorem Requested.carries {page q : Str} (hpage : '?' ∉ page) {cs : List Bytes}
    (h : Requested (target page q) cs) :
    ∃ req, (readRequest (.ofChunks cs)).1 = .ok req ∧ Carries req page q := by
  obtain ⟨start, ls, body, hasks, hcs⟩ := h.asks
  have hcap : (utf8 (headOf (start :: ls)) ++ body).length ≤ maxMessageBytes := by
    rw [List.length_append]
    exact hasks.fits
  rw [readRequest_whole h.nonempty hcs hcap, hasks.oneShot (by decide) (target_ne_nil page q)]
  exact ⟨_, rfl, carries_target hpage q _ _⟩

/-- **A typed query arrives unchanged**: whatever the query, the headers and the way the
request is delivered, the results page and the search are those of the query itself. -/
theorem typedQuery_arrives (q : Str) (cs : List Bytes) :
    (Requested (searchTarget q) cs → ∃ req, (readRequest (.ofChunks cs)).1 = .ok req ∧
      ∀ peer : Option SocketAddr, handleWithPeer req peer = .renderSearchSsr q) ∧
    (Requested (apiSearchTarget q) cs → ∃ req, (readRequest (.ofChunks cs)).1 = .ok req ∧
      (∀ peer : Option SocketAddr, handleWithPeer req peer = .handleSearch req) ∧
      searchParam req = q) := by
  rw [searchTarget_eq, apiSearchTarget_eq]
  constructor
  · intro h
    obtain ⟨req, hread, hcarries⟩ := h.carries (by decide)
    exact ⟨req, hread, hcarries.handle_search⟩
  · intro h
    obtain ⟨req, hread, hcarries⟩ := h.carries (by decide)
    exact ⟨req, hread, hcarries.handle_apiSearch, hcarries.searchParam⟩

/-- A query of two words with a separator, in two pieces. -/
def twoWords : List Bytes :=
  [utf8 "GET /search?q=a%26b%2".toList, utf8 "0%C3%A9 GURT/1.0.0\r\nhost: s.web\r\n\r\n".toList]

theorem requested_twoWords : Requested (searchTarget "a&b é".toList) twoWords where
  nonempty := by decide
  asks := by
    refine ⟨"GET /search?q=a%26b%20%C3%A9 GURT/1.0.0".toList, ["host: s.web".toList], [], ?_,
      by decide +kernel⟩
    exact ⟨⟨["GURT/1.0.0".toList], by decide +kernel⟩, by decide, by decide, by decide +kernel,
      by decide +kernel⟩

theorem typedQuery_arrives_twoWords :
    ∃ req, (readRequest (.ofChunks twoWords)).1 = .ok req ∧
      ∀ peer : Option Unit, handleWithPeer req peer = .renderSearchSsr "a&b é".toList :=
  (typedQuery_arrives "a&b é".toList twoWords).1 requested_twoWords

end Gurted.Router
