import Gurted.Client.Handshake
import Gurted.Client.RoundTrip
import Gurted.Server.Calls

/-!
# The calls of the indexer, arrival by arrival

`perform_handshake` and `read_response` as sequential readers, and the messages they
take.
-/

namespace Gurted.Client

open Gurted Gurted.Lib Gurted.Api Gurted.Indexing Gurted.Server

/-! ## `perform_handshake` -/

theorem performHandshake_sequential : Sequential performHandshake := by
  have hbind : performHandshake
      = andThen (readUntil maxMessageBytes ⟨Anyhow.io, .msg "handshake closed".toList,
          .msg "handshake too large".toList⟩ [])
        fun found s =>
          let line := firstLine found.1
          if word line 0 ≠ "GURT/1.0.0".toList ∨ word line 1 ≠ "101".toList then
            (.error (.msg ("unexpected handshake response: ".toList ++ line)), s)
          else (.ok (), s) := by
    funext s
    rw [performHandshake, andThen]
    generalize readUntil maxMessageBytes _ _ s = found
    rcases found with ⟨e | ⟨buf, i⟩, s'⟩ <;> rfl
  rw [hbind]
  refine (readUntil_sequential _ _ _).andThen fun found => ?_
  simp only
  split
  · exact Sequential.pure _
  · exact Sequential.pure _

/-- `perform_handshake` takes the reply of the server. -/
theorem takes_performHandshake {date : Str} (hdate : HttpDate date) :
    Takes performHandshake (utf8 (switchingProtocols date)) (.ok ()) := by
  intro cs hne hbytes t
  have hclient := performHandshake_switchingProtocols hdate hne hbytes
  have hcap : cs.flatten.length ≤ maxMessageBytes := by
    rw [hbytes]
    exact switchingProtocols_length hdate
  rw [switchingProtocols_eq] at hbytes
  have hline : IsLine replyLine := by decide
  obtain ⟨i, hread⟩ := readUntil_headOf hline (by decide) (replyHeaders_isHeader hdate.line)
    ⟨Anyhow.io, .msg "handshake closed".toList, .msg "handshake too large".toList⟩ hne hbytes hcap
  rw [performHandshake, hread] at hclient
  rw [performHandshake, readUntil_append hread t]
  simp only at hclient ⊢
  split at hclient
  · cases hclient
  · next hok => rw [if_neg hok, List.nil_append]

/-- An I/O error before the reply of the server is all there. -/
theorem breaks_performHandshake {date : Str} (hdate : HttpDate date) :
    Breaks performHandshake (utf8 (switchingProtocols date)) .io := by
  intro cs rest hne hcut hrest t
  have hcap := switchingProtocols_length hdate
  have hline : IsLine replyLine := by decide
  have hheaders := replyHeaders_isHeader hdate.line
  rw [switchingProtocols_eq] at hcut hcap
  obtain ⟨i, hfind, hlen⟩ := exists_cut_headOf hline.noCr (by decide) hheaders []
  rw [List.append_nil] at hfind
  have hloop := readUntil_breaks ⟨Anyhow.io, .msg "handshake closed".toList,
    .msg "handshake too large".toList⟩ hfind hlen hcap cs rest hne hcut hrest t
  rw [performHandshake, hloop]

/-! ## `read_response` -/

theorem readToIdle_sequential (idle : Nat → Bool) (headLen k : Nat) (body : Bytes) :
    Sequential (readToIdle idle headLen k body) := by
  refine
    Turns.sequential (f := fun st => readToIdle idle headLen st.1 st.2) (fun st => ?_) (k, body)
  obtain ⟨k, body⟩ := st
  by_cases hidle : idle k
  · refine .inl ⟨.ok body, fun t => ?_⟩
    cases t with
    | nil => rfl
    | cons a t => simp only [readToIdle, if_pos hidle]
  · refine .inr ⟨rfl, fun a => ?_⟩
    simp only [readToIdle, if_neg hidle]
    cases a with
    | ioError => exact .inl ⟨_, fun _ => rfl⟩
    | bytes c =>
      by_cases hc : c.isEmpty
      · exact .inl ⟨.ok body, fun t => by simp only [if_pos hc]⟩
      · simp only [if_neg hc]
        cases enforceMaxMessageSize (headLen + (body ++ c).length) with
        | error e => exact .inl ⟨_, fun _ => rfl⟩
        | ok u => exact .inr ⟨(k + 1, body ++ c), fun _ => rfl⟩

theorem readDeclared_sequential {E : Type} (declared : LimitError → E) (errs : BodyErrors E)
    (headLen len : Nat) (rest : Bytes) :
    Sequential (readDeclared declared errs headLen len rest) := by
  cases henforce : enforceMaxMessageSize (usizeAdd headLen len) with
  | error e =>
    have hfail :
        readDeclared declared errs headLen len rest = fun s => (.error (declared e), s) := by
      funext s
      rw [readDeclared, henforce]
    rw [hfail]
    exact Sequential.pure _
  | ok u =>
    have hbind : readDeclared declared errs headLen len rest
        = andThen (readToLength errs headLen len rest) fun body s => (.ok (body.take len), s) := by
      funext s
      rw [readDeclared, henforce, andThen]
      generalize readToLength errs headLen len rest s = got
      rcases got with ⟨e | body, s'⟩ <;> rfl
    rw [hbind]
    exact (readToLength_sequential _ _ _ _).andThen fun body => Sequential.pure _

theorem withBody_sequential {L E : Type} (h : ResponseHead L)
    {read : Reader Arrival (Except E Bytes)} (hread : Sequential read) :
    Sequential fun s => h.withBody (read s) := by
  have hbind : (fun s => h.withBody (read s))
      = andThen read fun body s => (.ok ⟨h.code, h.headers, body⟩, s) := by
    funext s
    rw [andThen]
    generalize read s = got
    rcases got with ⟨e | body, s'⟩ <;> rfl
  rw [hbind]
  exact hread.andThen fun body => Sequential.pure _

theorem readResponse_sequential (idle : Nat → Bool) : Sequential (readResponse idle) := by
  have hbind : readResponse idle
      = andThen (readUntil maxMessageBytes ⟨Anyhow.io, .msg "response closed".toList,
          .msg "response too large".toList⟩ [])
        fun found => andThen (fun s => (parseResponseHead (found.1.take (found.2 + 4)), s))
          fun h s => h.contentLength.elim
            (h.withBody (readToIdle idle (found.2 + 4) 0 (found.1.drop (found.2 + 4)) s))
            fun len => h.withBody
              (readDeclared .limit ⟨.io, fun n => .limit ⟨maxMessageBytes, n⟩⟩
                (found.2 + 4) len (found.1.drop (found.2 + 4)) s) := by
    funext s
    rw [readResponse, andThen]
    generalize readUntil maxMessageBytes _ _ s = found
    rcases found with ⟨e | ⟨buf, i⟩, s'⟩
    · rfl
    · simp only [andThen]
      rcases parseResponseHead (buf.take (i + 4)) with e | h
      · rfl
      · simp only
        rcases h.contentLength with _ | len <;> rfl
  rw [hbind]
  refine (readUntil_sequential _ _ _).andThen fun found => (Sequential.pure _).andThen fun h => ?_
  cases h.contentLength with
  | none => exact withBody_sequential h (readToIdle_sequential _ _ _ _)
  | some len => exact withBody_sequential h (readDeclared_sequential _ _ _ _ _)

section Declared
variable {r : WireResponse} {code : Nat} (h : r.WellFormed code) (hdeclares : r.Declares)
include h hdeclares

/-- The head of a response that declares its length. -/
theorem parseResponseHead_head :
    parseResponseHead r.head = .ok ⟨code, r.headers.map headerSeen, some r.body.length⟩ := by
  have hdeclared : lastLength (r.headers.map headerSeen) = some r.body.length := hdeclares
  refine eq_ok_of_toOption ?_
  rw [parseResponseHead_toOption, h.parse, hdeclared]
  · rfl
  · intro headStr htext
    rw [WireResponse.head, fromUtf8_utf8] at htext
    rw [← Option.some.inj htext, h.splitSub_head, headersOf_eq, List.tail_cons,
      h.filterMap_lines, hdeclared]
    rfl

/-- `read_response` once the head is there: `more` of the body came with it. -/
theorem readResponse_afterHead (hfits : r.encode.length ≤ maxMessageBytes) (idle : Nat → Bool)
    {s s' : Stream} {more : Bytes} {i : Nat} (hlen : i + 4 = r.head.length)
    (hloop : readUntil maxMessageBytes ⟨Anyhow.io, .msg "response closed".toList,
      .msg "response too large".toList⟩ [] s = (.ok (r.head ++ more, i), s')) :
    readResponse idle s
      = ResponseHead.withBody ⟨code, r.headers.map headerSeen, some r.body.length⟩
          (match readToLength ⟨Anyhow.io, fun n => .limit ⟨maxMessageBytes, n⟩⟩ (i + 4)
              r.body.length more s' with
            | (.error e, s'') => (.error e, s'')
            | (.ok body, s'') => (.ok (body.take r.body.length), s'')) := by
  rw [WireResponse.encode, List.length_append] at hfits
  have hsize : enforceMaxMessageSize (usizeAdd (i + 4) r.body.length) = .ok () := by
    refine enforceMaxMessageSize_ok (Nat.not_lt.mp (not_lt_usizeAdd ?_))
    omega
  have hparse := parseResponseHead_head h hdeclares
  rw [readResponse, hloop]
  simp only [hlen, List.take_left, List.drop_left, hparse, readDeclared]
  rw [← hlen, hsize]
  generalize readToLength _ (i + 4) r.body.length more s' = got
  rcases got with ⟨e | body, s''⟩ <;> rfl

/-- `read_response` takes a response that declares its length. -/
theorem takes_readResponse (hfits : r.encode.length ≤ maxMessageBytes) (idle : Nat → Bool) :
    Takes (readResponse idle) r.encode (.ok (r.decoded code)) := by
  intro cs hne hbytes t
  obtain ⟨i, hfind, hlen⟩ := h.findSub_head r.body
  rw [← WireResponse.encode, ← hbytes] at hfind
  have hcap : cs.flatten.length ≤ maxMessageBytes := by rwa [hbytes]
  obtain ⟨buf, rest, hloop, -, hread⟩ := readUntil_whole
    ⟨Anyhow.io, .msg "response closed".toList, .msg "response too large".toList⟩ hne hcap hfind
  obtain ⟨more, hbuf, hmore⟩ := hread.split
  have hhead : cs.flatten.take (i + 4) = r.head := by
    rw [hbytes, WireResponse.encode, hlen, List.take_left]
  have htail : cs.flatten.drop (i + 4) = r.body := by
    rw [hbytes, WireResponse.encode, hlen, List.drop_left]
  rw [hhead] at hbuf
  rw [htail] at hmore
  rw [hbuf] at hloop
  have hafter := readResponse_afterHead h hdeclares hfits idle hlen
    (readUntil_append hloop t)
  rw [WireResponse.encode, List.length_append] at hfits
  have hbody := readToLength_exact ⟨Anyhow.io, fun n => .limit ⟨maxMessageBytes, n⟩⟩ (i + 4)
    hread.nonempty (congrArg List.length hmore) (by omega) t
  rw [hafter, hbody, hmore]
  simp only [List.take_length]
  rfl

/-- An I/O error before a response is all there, in its head or in its body. -/
theorem breaks_readResponse (hfits : r.encode.length ≤ maxMessageBytes) (idle : Nat → Bool) :
    Breaks (readResponse idle) r.encode .io := by
  intro cs rest hne hcut hrest t
  obtain ⟨i, hfind, hlen⟩ := h.findSub_head r.body
  rw [← WireResponse.encode] at hfind
  have hsum := congrArg List.length hcut
  rw [List.length_append] at hsum
  have hcap : cs.flatten.length ≤ maxMessageBytes := by omega
  rw [List.append_assoc]
  by_cases hshort : cs.flatten.length < i + 4
  · have hnone := findSub_of_short hfind hcut hshort
    have hloop := readUntil_ioError ⟨Anyhow.io, .msg "response closed".toList,
      .msg "response too large".toList⟩ [] hne hcap hnone t
    rw [readResponse, List.singleton_append, hloop]
  · -- the head is there, the body is not
    have hge : i + 4 ≤ cs.flatten.length := Nat.not_lt.mp hshort
    obtain ⟨buf, left, hloop, -, hread⟩ := readUntil_whole
      ⟨Anyhow.io, .msg "response closed".toList, .msg "response too large".toList⟩ hne hcap
      (findSub_of_long hfind hcut hge)
    obtain ⟨more, hbuf, hmore⟩ := hread.split
    have hhead : cs.flatten.take (i + 4) = r.head := by
      rw [← List.take_append_of_le_length hge, hcut, WireResponse.encode, hlen, List.take_left]
    rw [hhead] at hbuf
    rw [hbuf] at hloop
    have hafter := readResponse_afterHead h hdeclares hfits idle hlen
      (readUntil_append hloop ([.ioError] ++ t))
    have hpos := List.length_pos_iff.mpr hrest
    have hmissing := congrArg List.length hmore
    rw [WireResponse.encode, List.length_append] at hfits hsum
    rw [List.length_drop] at hmissing
    have hshort' : (more ++ left.flatten).length < r.body.length := by omega
    have hbody := readToLength_ioError ⟨Anyhow.io, fun n => .limit ⟨maxMessageBytes, n⟩⟩ (i + 4)
      hread.nonempty hshort' (by omega) t
    rw [hafter, List.singleton_append, hbody]
    rfl

end Declared

end Gurted.Client
