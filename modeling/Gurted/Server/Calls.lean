import Gurted.Api.Handshake
import Gurted.Lib.Reader
import Gurted.Server.KeepAlive

/-!
# The calls of the server, arrival by arrival

`read_request` and `read_and_respond_handshake` are sequential readers: when a call
has returned depends on what it has read alone. Each `Takes` the messages it is meant
for: however such a message is cut, the call returns when all of it is there.
-/

namespace Gurted.Server

open Gurted Gurted.Lib Gurted.Api

variable {E R : Type*}

/-! ## The loops -/

theorem readUntil_sequential (cap : Nat) (errs : HeadErrors E) (buf : Bytes) :
    Sequential (readUntil cap errs buf) := by
  refine Turns.sequential (fun buf => ?_) buf
  refine .inr ⟨rfl, fun a => ?_⟩
  cases a with
  | ioError => exact .inl ⟨_, fun _ => rfl⟩
  | bytes c =>
    simp only [readUntil]
    by_cases hc : c.isEmpty
    · exact .inl ⟨.error errs.closed, fun t => by rw [if_pos hc]⟩
    · by_cases hmax : cap < (buf ++ c).length
      · exact .inl ⟨.error errs.tooLarge, fun t => by rw [if_neg hc, if_pos hmax]⟩
      · simp only [if_neg hc, if_neg hmax]
        cases findSub crlfcrlf (buf ++ c) with
        | some pos => exact .inl ⟨_, fun _ => rfl⟩
        | none => exact .inr ⟨_, fun _ => rfl⟩

theorem readToLength_sequential (errs : BodyErrors E) (headLen len : Nat) (body : Bytes) :
    Sequential (readToLength errs headLen len body) := by
  refine Turns.sequential (fun body => ?_) body
  by_cases hlen : len ≤ body.length
  · exact .inl ⟨.ok body, fun t => by rw [readToLength.eq_def, if_pos hlen]⟩
  · have hnil : readToLength errs headLen len body [] = (.ok body, []) := by
      rw [readToLength.eq_def, if_neg hlen]
    have hioError :
        ∀ s, readToLength errs headLen len body (.ioError :: s) = (.error errs.io, s) := by
      intro s
      rw [readToLength.eq_def, if_neg hlen]
    have hbytes : ∀ c s, readToLength errs headLen len body (.bytes c :: s)
        = if c.isEmpty then (.ok body, s)
          else if maxMessageBytes < headLen + (body ++ c).length then
            (.error (errs.tooLarge (headLen + (body ++ c).length)), s)
          else readToLength errs headLen len (body ++ c) s := by
      intro c s
      rw [readToLength.eq_def]
      exact if_neg hlen
    refine .inr ⟨by rw [hnil], fun a => ?_⟩
    cases a with
    | ioError => exact .inl ⟨_, fun t => by rw [hioError]⟩
    | bytes c =>
      simp only [hbytes]
      by_cases hc : c.isEmpty
      · exact .inl ⟨.ok body, fun t => by rw [if_pos hc]⟩
      · simp only [if_neg hc]
        by_cases hmax : maxMessageBytes < headLen + (body ++ c).length
        · exact .inl ⟨_, fun t => by rw [if_pos hmax]⟩
        · exact .inr ⟨body ++ c, fun t => by rw [if_neg hmax]⟩

/-- A header loop that has found its delimiter does not look further. -/
theorem readUntil_append {cap : Nat} {errs : HeadErrors E} {buf : Bytes} {s s' : Stream}
    {found : Bytes × Nat} (h : readUntil cap errs buf s = (.ok found, s')) (t : Stream) :
    readUntil cap errs buf (s ++ t) = (.ok found, s' ++ t) := by
  induction s generalizing buf with
  | nil => cases h
  | cons a s ih =>
    cases a with
    | ioError => cases h
    | bytes c =>
      rw [readUntil] at h
      rw [List.cons_append, readUntil]
      by_cases hc : c.isEmpty
      · rw [if_pos hc] at h
        cases h
      · by_cases hmax : cap < (buf ++ c).length
        · rw [if_neg hc, if_pos hmax] at h
          cases h
        · rw [if_neg hc, if_neg hmax] at h ⊢
          cases hfind : findSub crlfcrlf (buf ++ c) with
          | some pos =>
            rw [hfind] at h
            cases h
            rfl
          | none =>
            rw [hfind] at h
            exact ih h

/-- The body loop takes the chunks that make up the declared length. -/
theorem readToLength_exact (errs : BodyErrors E) (headLen : Nat) {len : Nat} {body : Bytes}
    {cs : List Bytes} (hne : ∀ c ∈ cs, c ≠ []) (hlen : (body ++ cs.flatten).length = len)
    (hcap : headLen + len ≤ maxMessageBytes) (t : Stream) :
    readToLength errs headLen len body (Stream.ofChunks cs ++ t)
      = (.ok (body ++ cs.flatten), t) := by
  induction cs generalizing body with
  | nil =>
    rw [List.flatten_nil, List.append_nil] at hlen ⊢
    rw [readToLength.eq_def, if_pos (Nat.le_of_eq hlen.symm)]
    rfl
  | cons c cs ih =>
    have hpos : 0 < c.length := List.length_pos_iff.mpr (hne c (by simp))
    have hc : ¬ c.isEmpty := by simpa using hne c (by simp)
    rw [List.flatten_cons, ← List.append_assoc] at hlen ⊢
    have hsum := hlen
    rw [List.length_append, List.length_append] at hsum
    have hmore : ¬ len ≤ body.length := by omega
    have hmax : ¬ maxMessageBytes < headLen + (body ++ c).length := by
      rw [List.length_append]
      omega
    rw [readToLength.eq_def, if_neg hmore]
    simp only [Stream.ofChunks_cons, List.cons_append, if_neg hc, if_neg hmax]
    exact ih (fun b hb => hne b (by simp [hb])) hlen

/-! ## Taking a message -/

theorem ofChunks_append (cs cs' : List Bytes) :
    Stream.ofChunks (cs ++ cs') = Stream.ofChunks cs ++ Stream.ofChunks cs' := List.map_append

/-- What a call on a connection has returned after these reads. -/
def returned (read : Reader Arrival R) (reads : Stream) : Option R := poll .ioError read reads

/-- However `m` is cut, the call returns `r` when all of it is there. -/
def Takes (read : Reader Arrival R) (m : Bytes) (r : R) : Prop :=
  ∀ cs : List Bytes, (∀ c ∈ cs, c ≠ []) → cs.flatten = m → Returns read (Stream.ofChunks cs) r

/-- **Following a call** on a message that is on its way: `rest` is not there yet. -/
theorem Takes.returned_eq {read : Reader Arrival R} (hread : Sequential read) {m : Bytes} {r : R}
    (h : Takes read m r) {cs : List Bytes} (hne : ∀ c ∈ cs, c ≠ []) {rest : Bytes}
    (hcut : cs.flatten ++ rest = m) :
    returned read (.ofChunks cs) = if rest = [] then some r else none := by
  by_cases hrest : rest = []
  · rw [hrest, List.append_nil] at hcut
    rw [if_pos hrest]
    exact (h cs hne hcut).poll _
  · have hne' : ∀ c ∈ cs ++ [rest], c ≠ [] := by
      intro c hc
      rcases List.mem_append.mp hc with hc | hc
      · exact hne c hc
      · rw [List.mem_singleton.mp hc]
        exact hrest
    -- the call would return with the rest as one more read
    have hlater := h (cs ++ [rest]) hne' (by simpa using hcut)
    rw [ofChunks_append] at hlater
    rw [if_neg hrest]
    exact hread.poll_eq_none hlater (by simp)

/-! ## A connection that breaks -/

/-- An I/O error before all of `m` is there makes the call fail with `e`. -/
def Breaks (read : Reader Arrival (Except E R)) (m : Bytes) (e : E) : Prop :=
  ∀ (cs : List Bytes) (rest : Bytes), (∀ c ∈ cs, c ≠ []) → cs.flatten ++ rest = m → rest ≠ [] →
    Returns read (Stream.ofChunks cs ++ [.ioError]) (.error e)

theorem readUntil_ioError {cap : Nat} (errs : HeadErrors E) (buf : Bytes) {cs : List Bytes}
    (hne : ∀ c ∈ cs, c ≠ []) (hcap : (buf ++ cs.flatten).length ≤ cap)
    (hnone : findSub crlfcrlf (buf ++ cs.flatten) = none) (t : Stream) :
    readUntil cap errs buf (Stream.ofChunks cs ++ .ioError :: t) = (.error errs.io, t) := by
  induction cs generalizing buf with
  | nil => rfl
  | cons c cs ih =>
    have hc : ¬ c.isEmpty := by simpa using hne c (by simp)
    rw [List.flatten_cons, ← List.append_assoc] at hcap hnone
    have hmax : ¬ cap < (buf ++ c).length := by
      rw [List.length_append] at hcap
      omega
    have hscan : findSub crlfcrlf (buf ++ c) = none := by
      cases hscan : findSub crlfcrlf (buf ++ c) with
      | none => rfl
      | some pos =>
        rw [findSub_append_of_some hscan] at hnone
        cases hnone
    rw [Stream.ofChunks_cons, List.cons_append, readUntil, if_neg hc, if_neg hmax, hscan]
    exact ih _ (fun b hb => hne b (by simp [hb])) hcap hnone

theorem readToLength_ioError (errs : BodyErrors E) (headLen : Nat) {len : Nat} {body : Bytes}
    {cs : List Bytes} (hne : ∀ c ∈ cs, c ≠ []) (hlen : (body ++ cs.flatten).length < len)
    (hcap : headLen + len ≤ maxMessageBytes) (t : Stream) :
    readToLength errs headLen len body (Stream.ofChunks cs ++ .ioError :: t)
      = (.error errs.io, t) := by
  induction cs generalizing body with
  | nil =>
    rw [List.flatten_nil, List.append_nil] at hlen
    rw [readToLength.eq_def, if_neg (Nat.not_le.mpr hlen)]
    rfl
  | cons c cs ih =>
    have hc : ¬ c.isEmpty := by simpa using hne c (by simp)
    rw [List.flatten_cons, ← List.append_assoc] at hlen
    have hsum := hlen
    rw [List.length_append, List.length_append] at hsum
    have hmore : ¬ len ≤ body.length := by omega
    have hmax : ¬ maxMessageBytes < headLen + (body ++ c).length := by
      rw [List.length_append]
      omega
    rw [readToLength.eq_def, if_neg hmore]
    simp only [Stream.ofChunks_cons, List.cons_append, if_neg hc, if_neg hmax]
    exact ih (fun b hb => hne b (by simp [hb])) hlen

/-- What comes before the end of the first CRLFCRLF of an input holds none. -/
theorem findSub_of_short {input before rest : Bytes} {i : Nat}
    (hfind : findSub crlfcrlf input = some i) (hcut : before ++ rest = input)
    (hshort : before.length < i + 4) : findSub crlfcrlf before = none := by
  cases hscan : findSub crlfcrlf before with
  | none => rfl
  | some j =>
    have hwhole := findSub_append_of_some hscan rest
    rw [hcut, hfind] at hwhole
    have hle : j + 4 ≤ before.length := findSub_le hscan
    have hij := Option.some.inj hwhole
    omega

theorem findSub_of_long {input before rest : Bytes} {i : Nat}
    (hfind : findSub crlfcrlf input = some i) (hcut : before ++ rest = input)
    (hlong : i + 4 ≤ before.length) : findSub crlfcrlf before = some i := by
  obtain ⟨hocc, hmin⟩ := findSub_eq_some_iff.mp hfind
  rw [← hcut] at hocc hmin
  exact findSub_eq_some_iff.mpr
    ⟨hocc.of_append hlong, fun j hj hj' => hmin j hj (hj'.append _)⟩

/-- A call that reads a head without a body breaks in its header loop. -/
theorem readUntil_breaks {cap : Nat} (errs : HeadErrors E) {m : Bytes} {i : Nat}
    (hfind : findSub crlfcrlf m = some i) (hlen : i + 4 = m.length) (hcap : m.length ≤ cap) :
    Breaks (readUntil cap errs []) m errs.io := by
  intro cs rest hne hcut hrest t
  have hsum := congrArg List.length hcut
  rw [List.length_append] at hsum
  have hpos := List.length_pos_iff.mpr hrest
  have hfits : (([] : Bytes) ++ cs.flatten).length ≤ cap := by
    rw [List.nil_append]
    omega
  rw [List.append_assoc]
  refine readUntil_ioError errs [] hne hfits ?_ t
  rw [List.nil_append]
  exact findSub_of_short hfind hcut (by omega)

/-! ## `read_and_respond_handshake` -/

theorem readAndRespondHandshake_sequential (date : Str) :
    Sequential (readAndRespondHandshake date) := by
  have hbind : readAndRespondHandshake date
      = andThen (readUntil maxHandshakeBytes ⟨Anyhow.io,
          .msg "handshake: connection closed".toList, .msg "handshake: too large".toList⟩ [])
        fun found s =>
          let line := firstLine found.1
          if word line 0 ≠ "HANDSHAKE".toList ∨ word line 1 ≠ "/".toList ∨
              word line 2 ≠ protoVersion then
            (.error (.msg ("invalid handshake start-line: ".toList ++ line)), s)
          else (.ok (utf8 (switchingProtocols date)), s) := by
    funext s
    rw [readAndRespondHandshake, andThen]
    generalize readUntil maxHandshakeBytes _ _ s = found
    rcases found with ⟨e | ⟨buf, i⟩, s'⟩ <;> rfl
  rw [hbind]
  refine (readUntil_sequential _ _ _).andThen fun found => ?_
  simp only
  split
  · exact Sequential.pure _
  · exact Sequential.pure _

theorem handshakeLine_ne_nil (version : Str) : handshakeLine version ≠ [] := by
  rw [handshakeLine_eq]
  simp

section Request
variable {version : Str} {hs : List (Str × Str)} (hversion : IsToken version)
  (hhs : ∀ h ∈ hs, IsHeader h)
include hversion hhs

/-- The server takes a handshake request that names the version of the protocol. -/
theorem takes_readAndRespondHandshake (date : Str) (hproto : version = protoVersion)
    (hcap : (utf8 (headOf (handshakeLine version :: hs.map WireRequest.headerText))).length
      ≤ maxHandshakeBytes) :
    Takes (readAndRespondHandshake date)
      (utf8 (headOf (handshakeLine version :: hs.map WireRequest.headerText)))
      (.ok (utf8 (switchingProtocols date))) := by
  intro cs hne hbytes t
  have hline := handshakeLine_isLine hversion
  have hsize : cs.flatten.length ≤ maxHandshakeBytes := by
    rw [hbytes]
    exact hcap
  obtain ⟨i, hread⟩ := readUntil_headOf hline (handshakeLine_ne_nil version) hhs
    ⟨Anyhow.io, .msg "handshake: connection closed".toList, .msg "handshake: too large".toList⟩
    hne hbytes hsize
  have hserver := readAndRespondHandshake_headOf hversion date hhs hne hbytes hsize
  rw [if_pos hproto] at hserver
  rw [readAndRespondHandshake, hread] at hserver
  rw [readAndRespondHandshake, readUntil_append hread t]
  simp only at hserver ⊢
  split at hserver
  · cases hserver
  · next hok => rw [if_neg hok, List.nil_append]

theorem breaks_readAndRespondHandshake (date : Str)
    (hcap : (utf8 (headOf (handshakeLine version :: hs.map WireRequest.headerText))).length
      ≤ maxHandshakeBytes) :
    Breaks (readAndRespondHandshake date)
      (utf8 (headOf (handshakeLine version :: hs.map WireRequest.headerText))) .io := by
  intro cs rest hne hcut hrest t
  obtain ⟨i, hfind, hlen⟩ := exists_cut_headOf (handshakeLine_isLine hversion).noCr
    (handshakeLine_ne_nil version) hhs []
  rw [List.append_nil] at hfind
  have hloop := readUntil_breaks ⟨Anyhow.io, .msg "handshake: connection closed".toList,
    .msg "handshake: too large".toList⟩ hfind hlen hcap cs rest hne hcut hrest t
  rw [readAndRespondHandshake, hloop]

end Request

/-! ## `read_request` -/

theorem readRequest_sequential : Sequential readRequest := by
  have hbind : readRequest
      = andThen (readHead [] 0) fun found =>
          andThen (fun s => (parseHead (found.1.take (found.2 + 4)), s)) fun h s =>
            if h.contentLength = 0 then (.ok ⟨h.method, h.path, h.headers, []⟩, s)
            else if maxMessageBytes < usizeAdd (found.2 + 4) h.contentLength then
              (.error .requestEntityTooLarge, s)
            else andThen (readBody (found.2 + 4) h.contentLength (found.1.drop (found.2 + 4)))
              (fun body s =>
                (.ok ⟨h.method, h.path, h.headers, body.take h.contentLength⟩, s)) s := by
    funext s
    rw [readRequest, andThen]
    generalize readHead [] 0 s = found
    obtain ⟨e | ⟨buf, i⟩, s'⟩ := found
    · rfl
    · simp only [andThen]
      cases parseHead (buf.take (i + 4)) with
      | error e => rfl
      | ok h =>
        simp only
        split
        · rfl
        · split
          · rfl
          · generalize readBody _ _ _ s' = got
            rcases got with ⟨e | body, s''⟩ <;> rfl
  have hhead : Sequential (readHead [] 0) := by
    have hloop := readUntil_sequential maxMessageBytes
      ⟨StatusCode.internalServerError, .badRequest, .requestEntityTooLarge⟩ []
    rwa [← funext readHead_nil_eq] at hloop
  rw [hbind]
  refine hhead.andThen fun found => (Sequential.pure _).andThen fun h => ?_
  split
  · exact Sequential.pure _
  · split
    · exact Sequential.pure _
    · have hbody : Sequential
          (readBody (found.2 + 4) h.contentLength (found.1.drop (found.2 + 4))) := by
        rw [funext (readBody_eq _ _ _)]
        exact readToLength_sequential _ _ _ _
      exact hbody.andThen fun body => Sequential.pure _

/-- `read_request` takes a well-formed request. -/
theorem takes_readRequest {R : WireRequest} (h : R.WellFormed) :
    Takes readRequest R.encode (.ok R.toRequest) := by
  intro cs hne hbytes
  have hne' : ∀ c ∈ cs ++ [[0]], c ≠ [] := by
    intro c hc
    rcases List.mem_append.mp hc with hc | hc
    · exact hne c hc
    · rw [List.mem_singleton.mp hc]
      exact List.cons_ne_nil _ _
  -- a byte behind the request is left alone
  have hread := readRequest_wire h hne' (show (cs ++ [[0]]).flatten = R.encode ++ [0] by
    rw [List.flatten_append, hbytes]
    rfl)
  have htake : takeBlocks cs.flatten.length (cs ++ [[0]]) = (cs, [[0]]) :=
    takeBlocks_of_append hne
  rw [hbytes] at htake
  simp only [htake, hbytes, if_pos h.fits, ofChunks_append] at hread
  exact readRequest_sequential.returns_of_leaves hread

/-- A request without a body breaks in the header loop. -/
theorem breaks_readRequest {R : WireRequest} (h : R.WellFormed) (hbody : R.body = []) :
    Breaks readRequest R.encode .internalServerError := by
  intro cs rest hne hcut hrest t
  have hencode : R.encode = utf8 R.headText := by rw [WireRequest.encode, hbody, List.append_nil]
  have hfind := WireRequest.findSub_headText h []
  have hfour := R.four_le_headText
  have hcap := h.fits
  rw [hencode] at hcut hcap
  rw [List.append_nil] at hfind
  have hloop := readUntil_breaks
    ⟨StatusCode.internalServerError, .badRequest, .requestEntityTooLarge⟩ hfind
    (Nat.sub_add_cancel hfour) hcap cs rest hne hcut hrest t
  rw [readRequest, readHead_nil_eq, hloop]

end Gurted.Server
