import Gurted.Client.Response

/-!
# Declared lengths

The three readers of a message treat a declared length alike (`MessageReader.run_eq`).
Two questions are settled for all of them: which declared lengths their check lets
through (`keepsCap_iff`), and what body a message has whose connection ends early
(`body_of_run`).
-/

namespace Gurted.Client

open Gurted Gurted.Lib Gurted.Api Gurted.Indexing

/-- The value of the last content-length in a head that parses. -/
def effectiveLength (head : Bytes) : Option Nat :=
  (fromUtf8 head).bind fun headStr => lastLength (headersOf (splitSub crlf headStr))

/-! ## The readers -/

/-- The readers of the repository; the indexer's one has an idle timeout. -/
inductive MessageReader where
  | readRequest
  | readResponseLike
  | readResponse (idle : Nat → Bool)

namespace MessageReader

def Err : MessageReader → Type
  | .readRequest => StatusCode
  | .readResponseLike => ClientError
  | .readResponse _ => Anyhow

/-- The body of the message that the reader returns. -/
def run : (r : MessageReader) → Stream → Except r.Err Bytes
  | .readRequest, s => (Api.readRequest s).1.map Request.body
  | .readResponseLike, s => (Client.readResponseLike s).1.map ClientResponse.body
  | .readResponse idle, s => (Client.readResponse idle s).1.map ClientResponse.body

/-- How the reader fails when the declared size is too large. -/
def tooLarge : (r : MessageReader) → LimitError → r.Err
  | .readRequest, _ => StatusCode.requestEntityTooLarge
  | .readResponseLike, _ => ClientError.io
  | .readResponse _, e => Anyhow.limit e

/-- How its body loop fails. -/
def bodyErrors : (r : MessageReader) → BodyErrors r.Err
  | .readRequest =>
      ⟨StatusCode.internalServerError, fun _ => StatusCode.requestEntityTooLarge⟩
  | .readResponseLike => ⟨ClientError.io, fun _ => ClientError.io⟩
  | .readResponse _ => ⟨Anyhow.io, fun n => Anyhow.limit ⟨maxMessageBytes, n⟩⟩

/-- The head is text with a first line the reader can use. -/
def TakesHead : MessageReader → Bytes → Prop
  | .readRequest, head => ∃ h, parseHead head = .ok h
  | .readResponseLike, head => ∃ h, parseResponseLikeHead head = .ok h
  | .readResponse _, head => ∃ h, parseResponseHead head = .ok h

end MessageReader

/-! ## The header loop -/

/-- What the header loop makes of a connection when it finds a head. -/
def HeadFound (s : Stream) (buf : Bytes) (headerEnd : Nat) (s' : Stream) : Prop :=
  readUntil maxMessageBytes (⟨(), (), ()⟩ : HeadErrors Unit) [] s = (.ok (buf, headerEnd), s')

section HeaderLoop
variable {E E' : Type*} {cap : Nat} {errs : HeadErrors E} {buf buf' : Bytes} {s s' : Stream}
  {i : Nat}

/-- The errors do not matter to a loop that finds a head. -/
theorem readUntil_ok_errs (errs' : HeadErrors E')
    (h : readUntil cap errs buf s = (.ok (buf', i), s')) :
    readUntil cap errs' buf s = (.ok (buf', i), s') := by
  induction s generalizing buf with
  | nil => cases h
  | cons a s ih =>
    cases a with
    | ioError => cases h
    | bytes c =>
      rw [readUntil] at h ⊢
      split at h
      · cases h
      · next hc =>
        rw [if_neg hc]
        split at h
        · cases h
        · next hmax =>
          rw [if_neg hmax]
          cases hfind : findSub crlfcrlf (buf ++ c) with
          | some pos =>
            rw [hfind] at h
            cases h
            rfl
          | none =>
            rw [hfind] at h
            exact ih h

/-- The buffer is within the cap and holds the delimiter. -/
theorem readUntil_ok (h : readUntil cap errs buf s = (.ok (buf', i), s')) :
    buf'.length ≤ cap ∧ findSub crlfcrlf buf' = some i := by
  induction s generalizing buf with
  | nil => cases h
  | cons a s ih =>
    cases a with
    | ioError => cases h
    | bytes c =>
      rw [readUntil] at h
      split at h
      · cases h
      · split at h
        · cases h
        · next hmax =>
          cases hfind : findSub crlfcrlf (buf ++ c) with
          | some pos =>
            rw [hfind] at h
            cases h
            exact ⟨Nat.not_lt.mp hmax, hfind⟩
          | none =>
            rw [hfind] at h
            exact ih h

end HeaderLoop

theorem HeadFound.le {s s' : Stream} {buf : Bytes} {i : Nat} (h : HeadFound s buf i s') :
    i + 4 ≤ maxMessageBytes := by
  obtain ⟨hcap, hfind⟩ := readUntil_ok h
  exact (findSub_le hfind).trans hcap

/-! ## A head with a length -/

theorem lastLength_lt {headers : List (Str × Str)} {n : Nat} (h : lastLength headers = some n) :
    n < 2 ^ 64 := by
  induction headers using List.reverseRecOn with
  | nil => cases h
  | append_singleton headers hd ih =>
    rw [lastLength_concat] at h
    split at h
    · rcases Option.or_eq_some_iff.mp h with hparse | ⟨-, hbefore⟩
      · exact Str.parseUnsigned_lt hparse
      · exact ih hbefore
    · exact ih h

theorem effectiveLength_lt {head : Bytes} {n : Nat} (h : effectiveLength head = some n) :
    n < 2 ^ 64 := by
  obtain ⟨headStr, -, hlast⟩ := Option.bind_eq_some_iff.mp h
  exact lastLength_lt hlast

/-- What the loops over the lines of such a head come to. -/
theorem exists_text_of_effectiveLength {head : Bytes} {n : Nat}
    (h : effectiveLength head = some n) :
    ∃ text, fromUtf8 head = some text ∧
      ((splitSub crlf text).tail.foldl headerLine ([], 0)).2 = n ∧
      ((splitSub crlf text).tail.foldl optionLine ([], none)).2 = some n := by
  obtain ⟨text, htext, hlast⟩ := Option.bind_eq_some_iff.mp h
  have hheaders : (([], none) : List (Str × Str) × Option Nat).1
      = (([], 0) : List (Str × Str) × Nat).1 := rfl
  refine ⟨text, htext, ?_, ?_⟩
  · rw [foldl_headerLine_lastLength _ rfl, ← headersOf, hlast, Option.getD_some]
  · rw [(foldl_optionLine _ hheaders rfl).2, ← headersOf, hlast]

theorem parseHead_contentLength {head : Bytes} {h : Head} {n : Nat}
    (hparse : parseHead head = .ok h) (hlen : effectiveLength head = some n) :
    h.contentLength = n := by
  obtain ⟨text, htext, hcount, -⟩ := exists_text_of_effectiveLength hlen
  rw [parseHead, htext] at hparse
  simp only at hparse
  split at hparse
  · cases hparse
  · cases hparse
    exact hcount

theorem parseResponseLikeHead_contentLength {head : Bytes} {h : ResponseHead Nat} {n : Nat}
    (hparse : parseResponseLikeHead head = .ok h) (hlen : effectiveLength head = some n) :
    h.contentLength = n := by
  obtain ⟨text, htext, hcount, -⟩ := exists_text_of_effectiveLength hlen
  rw [parseResponseLikeHead, htext] at hparse
  simp only at hparse
  split at hparse
  · cases hparse
  · cases hparse
    exact hcount

theorem parseResponseHead_contentLength {head : Bytes} {h : ResponseHead (Option Nat)} {n : Nat}
    (hparse : parseResponseHead head = .ok h) (hlen : effectiveLength head = some n) :
    h.contentLength = some n := by
  obtain ⟨text, htext, -, hcount⟩ := exists_text_of_effectiveLength hlen
  rw [parseResponseHead, htext] at hparse
  simp only at hparse
  split at hparse
  · cases hparse
  · split at hparse
    · cases hparse
    · cases hparse
      exact hcount

theorem ResponseHead.withBody_map {L E : Type} (h : ResponseHead L)
    (res : Except E Bytes × Stream) :
    (h.withBody res).1.map ClientResponse.body = res.1 := by
  obtain ⟨e | body, s⟩ := res <;> rfl

theorem readDeclared_zero {E : Type} (declared : LimitError → E) (errs : BodyErrors E)
    {headLen : Nat} (h : headLen ≤ maxMessageBytes) (rest : Bytes) (s : Stream) :
    readDeclared declared errs headLen 0 rest s = (.ok [], s) := by
  have hsmall : ¬ maxMessageBytes < usizeAdd headLen 0 := not_lt_usizeAdd h
  rw [readDeclared, enforceMaxMessageSize_ok (Nat.not_lt.mp hsmall), readToLength.eq_def,
    if_pos (Nat.zero_le _)]
  rfl

section Bodies
variable {s s' : Stream} {buf : Bytes} {i n : Nat} (hfound : HeadFound s buf i s')
  (hlen : effectiveLength (buf.take (i + 4)) = some n)
include hfound hlen

theorem readRequest_body {h : Head} (hparse : parseHead (buf.take (i + 4)) = .ok h) :
    (readRequest s).1.map Request.body
      = (readDeclared (fun _ => .requestEntityTooLarge)
          ⟨.internalServerError, fun _ => .requestEntityTooLarge⟩ (i + 4) n
          (buf.drop (i + 4)) s').1 := by
  have hhead : readHead [] 0 s = (.ok (buf, i), s') :=
    (readHead_nil_eq s).trans (readUntil_ok_errs _ hfound)
  rw [readRequest, hhead]
  simp only [hparse, parseHead_contentLength hparse hlen]
  by_cases hzero : n = 0
  · -- without a body nothing is checked
    subst hzero
    rw [if_pos rfl, readDeclared_zero _ _ hfound.le]
    rfl
  · rw [if_neg hzero, readBody_eq, readDeclared]
    by_cases hbig : maxMessageBytes < usizeAdd (i + 4) n
    · rw [if_pos hbig, enforceMaxMessageSize_error hbig]
      rfl
    · rw [if_neg hbig, enforceMaxMessageSize_ok (Nat.not_lt.mp hbig)]
      simp only
      split
      · next heq => rw [heq]; rfl
      · next heq => rw [heq]; rfl

theorem readResponseLike_body {h : ResponseHead Nat}
    (hparse : parseResponseLikeHead (buf.take (i + 4)) = .ok h) :
    (readResponseLike s).1.map ClientResponse.body
      = (readDeclared (fun _ => .io) ⟨.io, fun _ => .io⟩ (i + 4) n (buf.drop (i + 4)) s').1 := by
  rw [readResponseLike, readUntil_ok_errs _ hfound]
  simp only [hparse, parseResponseLikeHead_contentLength hparse hlen]
  by_cases hzero : n = 0
  · subst hzero
    rw [if_pos rfl, readDeclared_zero _ _ hfound.le]
    rfl
  · rw [if_neg hzero, ResponseHead.withBody_map]

theorem readResponse_body (idle : Nat → Bool) {h : ResponseHead (Option Nat)}
    (hparse : parseResponseHead (buf.take (i + 4)) = .ok h) :
    (readResponse idle s).1.map ClientResponse.body
      = (readDeclared .limit ⟨.io, fun n => .limit ⟨maxMessageBytes, n⟩⟩ (i + 4) n
          (buf.drop (i + 4)) s').1 := by
  rw [readResponse, readUntil_ok_errs _ hfound]
  simp only [hparse, parseResponseHead_contentLength hparse hlen]
  rw [ResponseHead.withBody_map]

/-- **All readers alike**: the check of the declared size, and then the body loop. -/
theorem MessageReader.run_eq (r : MessageReader) (htakes : r.TakesHead (buf.take (i + 4))) :
    r.run s = (readDeclared r.tooLarge r.bodyErrors (i + 4) n (buf.drop (i + 4)) s').1 := by
  cases r with
  | readRequest =>
    obtain ⟨h, hparse⟩ := htakes
    exact readRequest_body hfound hlen hparse
  | readResponseLike =>
    obtain ⟨h, hparse⟩ := htakes
    exact readResponseLike_body hfound hlen hparse
  | readResponse idle =>
    obtain ⟨h, hparse⟩ := htakes
    exact readResponse_body hfound hlen idle hparse

end Bodies

/-! ## Which sizes get past the check -/

/-- Bytes at whose end the header loop of a reader can stop. -/
structure IsHead (head : Bytes) : Prop where
  delimited : findSub crlfcrlf head = some (head.length - 4)
  fits : head.length ≤ maxMessageBytes

theorem IsHead.length_sub_add {head : Bytes} (h : IsHead head) :
    head.length - 4 + 4 = head.length := by
  have hle : head.length - 4 + 4 ≤ head.length := findSub_le h.delimited
  omega

/-- A connection on which a reader finds this head first, and then anything. -/
def Reads (s : Stream) (head : Bytes) : Prop :=
  ∃ buf i s', HeadFound s buf i s' ∧ buf.take (i + 4) = head

/-- The size is computed without overflow, and what is too large is refused whatever
follows. -/
structure KeepsCap (r : MessageReader) (head : Bytes) (n : Nat) : Prop where
  no_overflow : usizeAdd head.length n = head.length + n
  refused : maxMessageBytes < head.length + n → ∀ s, Reads s head →
    r.run s = .error (r.tooLarge ⟨maxMessageBytes, head.length + n⟩)

section Cap
variable {r : MessageReader} {head : Bytes} {n : Nat}

/-- The head alone, and then the end of the input. -/
theorem IsHead.headFound (h : IsHead head) :
    HeadFound [.bytes head] head (head.length - 4) [] := by
  have hne : head.isEmpty = false := by
    cases head with
    | nil => exact absurd h.delimited (by decide)
    | cons b head => rfl
  rw [HeadFound, readUntil, hne, List.nil_append, if_neg Bool.false_ne_true,
    if_neg (Nat.not_lt.mpr h.fits), h.delimited]

theorem Reads.run_eq {s : Stream} (hreads : Reads s head) (htakes : r.TakesHead head)
    (hlen : effectiveLength head = some n) :
    ∃ rest s', r.run s = (readDeclared r.tooLarge r.bodyErrors head.length n rest s').1 := by
  obtain ⟨buf, i, s', hfound, rfl⟩ := hreads
  have hlength : (buf.take (i + 4)).length = i + 4 := length_take_head (readUntil_ok hfound).2
  refine ⟨buf.drop (i + 4), s', ?_⟩
  rw [hlength]
  exact MessageReader.run_eq hfound hlen r htakes

/-- A sum that overflows is small: the head alone is taken for a whole message. -/
theorem run_of_overflow (hhead : IsHead head) (htakes : r.TakesHead head)
    (hlen : effectiveLength head = some n) (hover : 2 ^ 64 ≤ head.length + n) :
    r.run [.bytes head] = .ok [] := by
  have hn := effectiveLength_lt hlen
  have hfits := hhead.fits
  have hsum : usizeAdd head.length n = head.length + n - 2 ^ 64 := by
    rw [usizeAdd, Nat.mod_eq_sub_mod hover, Nat.mod_eq_of_lt]
    rw [maxMessageBytes] at hfits
    omega
  have hsmall : usizeAdd head.length n ≤ maxMessageBytes := by omega
  have hpos : ¬ n ≤ ([] : Bytes).length := by
    rw [maxMessageBytes] at hfits
    rw [List.length_nil]
    omega
  have hwhole : head.take (head.length - 4 + 4) = head := by
    rw [hhead.length_sub_add, List.take_length]
  have hrun := MessageReader.run_eq hhead.headFound (by rwa [hwhole]) r (by rwa [hwhole])
  rw [hrun, hhead.length_sub_add, List.drop_length, readDeclared, enforceMaxMessageSize_ok hsmall]
  simp only [readToLength.eq_def, if_neg hpos, List.take_nil]

/-- **Declared sizes and the cap**: a size is kept to the cap exactly if the sum that is
compared with it does not overflow. -/
theorem keepsCap_iff (hhead : IsHead head) (htakes : r.TakesHead head)
    (hlen : effectiveLength head = some n) :
    (KeepsCap r head n ↔ head.length + n < 2 ^ 64) ∧
      (2 ^ 64 ≤ head.length + n → r.run [.bytes head] = .ok []) := by
  refine ⟨⟨fun h => ?_, fun h => ⟨usizeAdd_eq h, ?_⟩⟩, run_of_overflow hhead htakes hlen⟩
  · have hmod := h.no_overflow
    rw [usizeAdd] at hmod
    rw [← hmod]
    exact Nat.mod_lt _ (by decide)
  · intro hbig s hreads
    obtain ⟨rest, s', hrun⟩ := hreads.run_eq htakes hlen
    rw [hrun, readDeclared, usizeAdd_eq h, enforceMaxMessageSize_error hbig]

end Cap

/-- A size over the cap, together with the head. -/
def overHead : Bytes := utf8 "GURT/1.0.0 200 OK\r\ncontent-length: 10485760\r\n\r\n".toList

theorem takesHead_overHead : MessageReader.TakesHead .readResponseLike overHead := by
  refine ⟨⟨200, [("content-length".toList, "10485760".toList)], 10485760⟩, ?_⟩
  decide

/-- The head alone, which is refused before anything else is read. -/
theorem keepsCap_iff_over :
    KeepsCap .readResponseLike overHead 10485760 ∧
      MessageReader.readResponseLike.run [.bytes overHead]
        = .error (MessageReader.readResponseLike.tooLarge
            ⟨maxMessageBytes, overHead.length + 10485760⟩) := by
  have hhead : IsHead overHead := ⟨by decide, by decide⟩
  have hlen : effectiveLength overHead = some 10485760 := by decide
  have hkeeps := (keepsCap_iff hhead takesHead_overHead hlen).1.mpr (by decide)
  refine ⟨hkeeps, hkeeps.refused (by decide) _ ⟨_, _, _, hhead.headFound, ?_⟩⟩
  rw [hhead.length_sub_add, List.take_length]

/-- The greatest length there is. -/
def hugeHead : Bytes := utf8 "POST / X\r\ncontent-length: 18446744073709551615\r\n\r\n".toList

theorem takesHead_hugeHead : MessageReader.TakesHead .readRequest hugeHead := by
  refine ⟨⟨"POST".toList, "/".toList, [("content-length".toList, "18446744073709551615".toList)],
    2 ^ 64 - 1⟩, ?_⟩
  decide

theorem not_keepsCap_huge :
    ¬ KeepsCap .readRequest hugeHead (2 ^ 64 - 1) ∧
      MessageReader.readRequest.run [.bytes hugeHead] = .ok [] := by
  have hhead : IsHead hugeHead := ⟨by decide, by decide⟩
  have hlen : effectiveLength hugeHead = some (2 ^ 64 - 1) := by decide
  constructor
  · intro h
    exact absurd h.no_overflow (by decide)
  · exact run_of_overflow hhead takesHead_hugeHead hlen (by decide)

/-! ## Messages whose connection ends early -/

section Ends
variable {E : Type*} {cs : List Bytes} (hne : ∀ c ∈ cs, c ≠ [])

/-- What the header loop leaves, without a word about the cap. -/
theorem readUntil_ofChunks_ok {cap : Nat} {errs : HeadErrors E} {buf buf' : Bytes} {i : Nat}
    {s' : Stream} (h : readUntil cap errs buf (.ofChunks cs) = (.ok (buf', i), s')) :
    ∃ rest, s' = .ofChunks rest ∧ rest <:+ cs ∧ buf' ++ rest.flatten = buf ++ cs.flatten := by
  induction cs generalizing buf with
  | nil => cases h
  | cons c cs ih =>
    rw [Stream.ofChunks_cons, readUntil] at h
    split at h
    · cases h
    · split at h
      · cases h
      · cases hfind : findSub crlfcrlf (buf ++ c) with
        | some pos =>
          rw [hfind] at h
          cases h
          refine ⟨cs, rfl, List.suffix_cons c cs, ?_⟩
          rw [List.flatten_cons, List.append_assoc]
        | none =>
          rw [hfind] at h
          obtain ⟨rest, hs', hsuffix, hbytes⟩ := ih h
          refine ⟨rest, hs', hsuffix.trans (List.suffix_cons c cs), ?_⟩
          rw [hbytes, List.flatten_cons, List.append_assoc]

include hne in
/-- What the body loop returns when it returns: the declared part of what there is. -/
theorem readToLength_ofChunks_ok {errs : BodyErrors E} {headLen len : Nat} {body got : Bytes}
    {s' : Stream} (h : readToLength errs headLen len body (.ofChunks cs) = (.ok got, s')) :
    got.take len = (body ++ cs.flatten).take len := by
  induction cs generalizing body with
  | nil =>
    rw [readToLength.eq_def] at h
    rw [List.flatten_nil, List.append_nil]
    split at h <;> cases h <;> rfl
  | cons c cs ih =>
    have hc : c.isEmpty = false := by simpa using hne c List.mem_cons_self
    have hne' : ∀ b ∈ cs, b ≠ [] := fun b hb => hne b (List.mem_cons_of_mem c hb)
    rw [readToLength.eq_def] at h
    by_cases hlen : len ≤ body.length
    · rw [if_pos hlen] at h
      cases h
      rw [List.take_append_of_le_length hlen]
    · simp only [if_neg hlen, Stream.ofChunks_cons, hc, Bool.false_eq_true, if_false] at h
      split at h
      · cases h
      · rw [List.flatten_cons, ← List.append_assoc]
        exact ih hne' h

end Ends

theorem HeadFound.of_errs {E : Type*} {errs : HeadErrors E} {s s' : Stream} {buf : Bytes} {i : Nat}
    (h : readUntil maxMessageBytes errs [] s = (.ok (buf, i), s')) : HeadFound s buf i s' :=
  readUntil_ok_errs _ h

/-- The loop stops at the first CRLFCRLF of the input. -/
theorem HeadFound.exists_rest {cs : List Bytes} {s' : Stream} {buf : Bytes} {i : Nat}
    (h : HeadFound (.ofChunks cs) buf i s') :
    ∃ rest, s' = .ofChunks rest ∧ rest <:+ cs ∧ findSub crlfcrlf cs.flatten = some i ∧
      cs.flatten.take (i + 4) = buf.take (i + 4) ∧
      cs.flatten.drop (i + 4) = buf.drop (i + 4) ++ rest.flatten := by
  obtain ⟨rest, rfl, hsuffix, hbytes⟩ := readUntil_ofChunks_ok h
  rw [List.nil_append] at hbytes
  have hbuf := (readUntil_ok h).2
  have hle : i + 4 ≤ buf.length := findSub_le hbuf
  rw [← hbytes, List.take_append_of_le_length hle, List.drop_append_of_le_length hle]
  exact ⟨rest, rfl, hsuffix, findSub_append_of_some hbuf rest.flatten, rfl, rfl⟩

theorem ResponseHead.withBody_ok {L E : Type} {head : ResponseHead L}
    {res : Except E Bytes × Stream} {resp : ClientResponse} (h : (head.withBody res).1 = .ok resp) :
    resp.code = head.code ∧ resp.headers = head.headers := by
  obtain ⟨e | body, s⟩ := res
  · cases h
  · cases h
    exact ⟨rfl, rfl⟩

/-- A response that was read has a head that says so. -/
theorem readResponseLike_ok {s : Stream} {resp : ClientResponse}
    (h : (readResponseLike s).1 = .ok resp) :
    ∃ buf i s' head, HeadFound s buf i s' ∧ parseResponseLikeHead (buf.take (i + 4)) = .ok head ∧
      resp.code = head.code ∧ resp.headers = head.headers := by
  rw [readResponseLike] at h
  split at h
  · cases h
  · next buf i s' heq =>
    simp only at h
    cases hparse : parseResponseLikeHead (buf.take (i + 4)) with
    | error e =>
      rw [hparse] at h
      cases h
    | ok head =>
      rw [hparse] at h
      simp only at h
      refine ⟨buf, i, s', head, .of_errs heq, hparse, ?_⟩
      split at h
      · cases h
        exact ⟨rfl, rfl⟩
      · exact ResponseHead.withBody_ok h

/-- A message that is returned has a head the reader takes. -/
theorem MessageReader.exists_head_of_run {r : MessageReader} {s : Stream} {body : Bytes}
    (h : r.run s = .ok body) :
    ∃ buf i s', HeadFound s buf i s' ∧ r.TakesHead (buf.take (i + 4)) := by
  cases r with
  | readRequest =>
    rw [run, Api.readRequest, readHead_nil_eq] at h
    split at h
    · cases h
    · next buf i s' heq =>
      cases hparse : parseHead (buf.take (i + 4)) with
      | error e =>
        rw [hparse] at h
        cases h
      | ok head => exact ⟨buf, i, s', .of_errs heq, head, hparse⟩
  | readResponseLike =>
    rw [run] at h
    cases hread : (Client.readResponseLike s).1 with
    | error e =>
      rw [hread] at h
      cases h
    | ok resp =>
      obtain ⟨buf, i, s', head, hfound, hparse, -⟩ := readResponseLike_ok hread
      exact ⟨buf, i, s', hfound, head, hparse⟩
  | readResponse idle =>
    rw [run, Client.readResponse] at h
    split at h
    · cases h
    · next buf i s' heq =>
      cases hparse : parseResponseHead (buf.take (i + 4)) with
      | error e =>
        rw [hparse] at h
        cases h
      | ok head => exact ⟨buf, i, s', .of_errs heq, head, hparse⟩

theorem readDeclared_ok {E : Type} {declared : LimitError → E} {errs : BodyErrors E}
    {headLen len : Nat} {rest body : Bytes} {s : Stream}
    (h : (readDeclared declared errs headLen len rest s).1 = .ok body) :
    ∃ got s', readToLength errs headLen len rest s = (.ok got, s') ∧ body = got.take len := by
  rw [readDeclared] at h
  split at h
  · cases h
  · split at h
    · cases h
    · next got s' heq =>
      cases h
      exact ⟨got, s', heq, rfl⟩

/-- The body loop stays within the cap. -/
theorem readToLength_le {E : Type} {errs : BodyErrors E} {headLen len : Nat} {body got : Bytes}
    {s s' : Stream} (h : readToLength errs headLen len body s = (.ok got, s'))
    (hle : headLen + body.length ≤ maxMessageBytes) : headLen + got.length ≤ maxMessageBytes := by
  induction s generalizing body with
  | nil =>
    rw [readToLength.eq_def] at h
    split at h <;> cases h <;> exact hle
  | cons a s ih =>
    rw [readToLength.eq_def] at h
    split at h
    · cases h
      exact hle
    · cases a with
      | ioError => cases h
      | bytes c =>
        simp only at h
        split at h
        · cases h
          exact hle
        · split at h
          · cases h
          · next hmax => exact ih h (Nat.not_lt.mp hmax)

/-- A message that is returned is within the cap. -/
theorem MessageReader.fits_of_run {r : MessageReader} {s s' : Stream} {buf body : Bytes} {i n : Nat}
    (hfound : HeadFound s buf i s') (hlen : effectiveLength (buf.take (i + 4)) = some n)
    (htakes : r.TakesHead (buf.take (i + 4))) (hrun : r.run s = .ok body) :
    i + 4 + body.length ≤ maxMessageBytes := by
  rw [MessageReader.run_eq hfound hlen r htakes] at hrun
  obtain ⟨got, s'', hgot, rfl⟩ := readDeclared_ok hrun
  obtain ⟨hcap, hfind⟩ := readUntil_ok hfound
  have hle : i + 4 ≤ buf.length := findSub_le hfind
  have hgotle := readToLength_le hgot (by rw [List.length_drop]; omega)
  have htake : (got.take n).length ≤ got.length := List.length_take_le' n got
  omega

/-- The body that is returned is cut from what follows the head. -/
theorem MessageReader.body_eq_take {r : MessageReader} {cs : List Bytes} (hne : ∀ c ∈ cs, c ≠ [])
    {i n : Nat} (hfind : findSub crlfcrlf cs.flatten = some i)
    (hlen : effectiveLength (cs.flatten.take (i + 4)) = some n) {body : Bytes}
    (hrun : r.run (.ofChunks cs) = .ok body) : body = (cs.flatten.drop (i + 4)).take n := by
  obtain ⟨buf, j, s', hfound, htakes⟩ := r.exists_head_of_run hrun
  obtain ⟨rest, rfl, hsuffix, hwhole, hhead, htail⟩ := hfound.exists_rest
  rw [hwhole] at hfind
  cases hfind
  rw [hhead] at hlen
  rw [MessageReader.run_eq hfound hlen r htakes] at hrun
  obtain ⟨got, s'', hgot, rfl⟩ := readDeclared_ok hrun
  have hcut := readToLength_ofChunks_ok (fun c hc => hne c (hsuffix.mem hc)) hgot
  rw [htail, hcut]

/-- **The body of a message that is returned**: the declared length of what follows the
head. It is shorter only if the connection ends before that. -/
theorem body_of_run {r : MessageReader} {cs : List Bytes} (hne : ∀ c ∈ cs, c ≠ []) {i n : Nat}
    (hfind : findSub crlfcrlf cs.flatten = some i)
    (hlen : effectiveLength (cs.flatten.take (i + 4)) = some n) {body : Bytes}
    (hrun : r.run (.ofChunks cs) = .ok body) :
    body = (cs.flatten.drop (i + 4)).take n ∧
      (body.length = n ∨ body = cs.flatten.drop (i + 4) ∧ body.length < n) := by
  have hbody := MessageReader.body_eq_take hne hfind hlen hrun
  refine ⟨hbody, ?_⟩
  rcases Nat.lt_or_ge (cs.flatten.drop (i + 4)).length n with hshort | hlong
  · rw [List.take_of_length_le hshort.le] at hbody
    exact .inr ⟨hbody, hbody ▸ hshort⟩
  · exact .inl (hbody ▸ List.length_take_of_le hlong)

def nineHead : Bytes := utf8 "GURT/1.0.0 200 OK\r\ncontent-length: 9\r\n\r\n".toList

/-- Nine bytes are declared, and the connection ends after two. -/
def cutReads : List Bytes := [nineHead, utf8 "ab".toList]

theorem findSub_cutReads : findSub crlfcrlf cutReads.flatten = some 36 := by decide

theorem effectiveLength_cutReads : effectiveLength (cutReads.flatten.take (36 + 4)) = some 9 := by
  decide

theorem run_cutReads : MessageReader.readResponseLike.run (.ofChunks cutReads)
    = .ok (utf8 "ab".toList) := by
  have hread : (readResponseLike (.ofChunks cutReads)).1
      = .ok ⟨200, [("content-length".toList, "9".toList)], utf8 "ab".toList⟩ := by decide +kernel
  rw [MessageReader.run, hread]
  rfl

theorem body_of_run_cutReads :
    utf8 "ab".toList = (cutReads.flatten.drop (36 + 4)).take 9 ∧
      ((utf8 "ab".toList).length = 9 ∨
        utf8 "ab".toList = cutReads.flatten.drop (36 + 4) ∧ (utf8 "ab".toList).length < 9) :=
  body_of_run (by decide) findSub_cutReads effectiveLength_cutReads run_cutReads

/-- A message without the end of its body is returned. -/
theorem not_whole_cutReads :
    ¬ ∀ (r : MessageReader) (cs : List Bytes) (i n : Nat) (body : Bytes), (∀ c ∈ cs, c ≠ []) →
        findSub crlfcrlf cs.flatten = some i →
        effectiveLength (cs.flatten.take (i + 4)) = some n →
        r.run (.ofChunks cs) = .ok body → body.length = n := by
  intro h
  have hnine :=
    h _ cutReads 36 9 _ (by decide) findSub_cutReads effectiveLength_cutReads run_cutReads
  exact absurd hnine (by decide)

end Gurted.Client
