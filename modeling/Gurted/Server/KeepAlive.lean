import Gurted.Api.Wire

/-!
# The keep-alive loop (`gurtd/src/main.rs`, stage 3 of `handle_conn`)

`handle_conn` calls `read_request` on the same connection until a call fails or
a request asks to close. Each call starts from an empty buffer, so what a call
read past the end of its message is gone for the next one. `framesExactly_iff`
states exactly when that does not matter.
-/

namespace Gurted.Server

open Gurted Gurted.Lib Gurted.Api

/-- The scan for `Connection: close`. -/
def closeConnection (req : Request) : Bool :=
  req.headers.any fun h =>
    Str.eqIgnoreAsciiCase h.1 "connection".toList && Str.eqIgnoreAsciiCase h.2 "close".toList

/-- One successful call of `read_request`: how many bytes the connection had
still to deliver when it started, and what it returned. -/
structure Turn where
  unread : Nat
  request : Request
  deriving DecidableEq, Repr

/-- What the loop does on a connection: the requests it hands to the router, and
the status it refuses the connection with, if it does. -/
structure Session where
  turns : List Turn
  refused : Option StatusCode
  deriving DecidableEq, Repr

/-- Stage 3 of `handle_conn`. The router answers every request and the answer is
written before the next call; no idle timeout fires. -/
def handleConn (s : Stream) : Session :=
  match _h : readRequest s with
  | (.error code, _) => ⟨[], some code⟩
  | (.ok req, s') =>
      if closeConnection req then ⟨[⟨s.unread, req⟩], none⟩
      else ⟨⟨s.unread, req⟩ :: (handleConn s').turns, (handleConn s').refused⟩
termination_by s.length
decreasing_by all_goals exact readRequest_length _h

theorem handleConn_error {s s' : Stream} {code : StatusCode}
    (h : readRequest s = (.error code, s')) : handleConn s = ⟨[], some code⟩ := by
  rw [handleConn]
  split
  · rename_i heq
    rw [h] at heq
    cases heq
    rfl
  · rename_i heq
    rw [h] at heq
    cases heq

theorem handleConn_ok {s s' : Stream} {req : Request} (h : readRequest s = (.ok req, s'))
    (hclose : closeConnection req = false) :
    (handleConn s).turns = ⟨s.unread, req⟩ :: (handleConn s').turns := by
  rw [handleConn]
  split
  · rename_i heq
    rw [h] at heq
    cases heq
  · rename_i heq
    rw [h] at heq
    cases heq
    simp [hclose]

theorem handleConn_close {s s' : Stream} {req : Request}
    (h : readRequest s = (.ok req, s')) (hclose : closeConnection req = true) :
    (handleConn s).turns = [⟨s.unread, req⟩] := by
  rw [handleConn]
  split
  · rename_i heq
    rw [h] at heq
    cases heq
  · rename_i heq
    rw [h] at heq
    cases heq
    simp [hclose]

/-! ## One request -/

theorem readRequest_of_readHead_error {s : Stream} {code : StatusCode}
    (h : (readHead [] 0 s).1 = .error code) : (readRequest s).1 = .error code := by
  rw [readRequest]
  generalize readHead [] 0 s = r at h ⊢
  obtain ⟨e | p, s'⟩ := r
  · simpa using h
  · cases h

/-- The header loop on a well-formed request takes the chunks up to the one that
completes the head. -/
theorem readHead_wire {R : WireRequest} (h : R.WellFormed) {cs : List Bytes}
    (hne : ∀ c ∈ cs, c ≠ []) {t : Bytes} (hbytes : cs.flatten = R.encode ++ t) :
    let head := utf8 R.headText
    let p := takeBlocks head.length cs
    if p.1.flatten.length ≤ maxMessageBytes then
      ∃ r, p.1.flatten = head ++ r ∧ r ++ p.2.flatten = R.body ++ t ∧
        readHead [] 0 (.ofChunks cs) = (.ok (head ++ r, head.length - 4), .ofChunks p.2)
    else (readHead [] 0 (.ofChunks cs)).1 = .error .requestEntityTooLarge := by
  intro head p
  have hfour : 4 ≤ head.length := R.four_le_headText
  have hcut : cs.flatten = head ++ (R.body ++ t) := by
    rw [hbytes, WireRequest.encode, List.append_assoc]
  have hfind : findSub crlfcrlf ([] ++ cs.flatten) = some (head.length - 4) := by
    rw [List.nil_append, hcut]
    exact WireRequest.findSub_headText h (R.body ++ t)
  have hread := readHead_ofChunks (show findSub crlfcrlf ([] : Bytes) = none by rfl) hne hfind
  have hstart : head.length - 4 + 4 - ([] : Bytes).length = head.length := by
    rw [List.length_nil]
    omega
  rw [hstart] at hread
  simp only [List.nil_append, List.length_nil] at hread
  obtain ⟨r, htaken, hrest⟩ := takeBlocks_prefix hcut
  show if (takeBlocks head.length cs).1.flatten.length ≤ maxMessageBytes then _ else _
  split
  · next hfit =>
    rw [if_pos hfit, htaken] at hread
    exact ⟨r, htaken, hrest, hread⟩
  · next hfit => rwa [if_neg hfit] at hread

/-- The body loop, started with the first bytes `r` of what follows the head, takes
the chunks up to the one that completes the body. -/
theorem readBody_wire {headLen : Nat} {body r t : Bytes} {cs : List Bytes}
    (hne : ∀ c ∈ cs, c ≠ []) (hbytes : r ++ cs.flatten = body ++ t)
    (hcap : headLen + r.length ≤ maxMessageBytes) :
    let p := takeBlocks (body.length - r.length) cs
    if headLen + (r ++ p.1.flatten).length ≤ maxMessageBytes then
      ∃ got, got.take body.length = body ∧
        readBody headLen body.length r (.ofChunks cs) = (.ok got, .ofChunks p.2)
    else (readBody headLen body.length r (.ofChunks cs)).1 = .error .requestEntityTooLarge := by
  intro p
  have hlen := congrArg List.length hbytes
  rw [List.length_append, List.length_append] at hlen
  have hread :=
    readBody_ofChunks hne (show body.length ≤ r.length + cs.flatten.length by omega) hcap
  have hcut := takeBlocks_flatten (body.length - r.length) cs
  have htaken : body.length - r.length ≤ p.1.flatten.length := takeBlocks_le (by omega)
  show if headLen + (r ++ (takeBlocks (body.length - r.length) cs).1.flatten).length
    ≤ maxMessageBytes then _ else _
  split
  · next hfit =>
    rw [if_pos hfit] at hread
    refine ⟨_, ?_, hread⟩
    -- what was read starts with the body
    have hle : body.length ≤ (r ++ p.1.flatten).length := by
      rw [List.length_append]
      omega
    rw [← List.take_append_of_le_length hle, List.append_assoc, hcut, hbytes]
    exact List.take_left
  · next hfit => rwa [if_neg hfit] at hread

/-- With the head read, the call takes the chunks the body still needs. -/
theorem readRequest_afterHead {R : WireRequest} (h : R.WellFormed) {s : Stream} {cs : List Bytes}
    {r t : Bytes} (hread : readHead [] 0 s
      = (.ok (utf8 R.headText ++ r, (utf8 R.headText).length - 4), .ofChunks cs))
    (hne : ∀ c ∈ cs, c ≠ []) (hrest : r ++ cs.flatten = R.body ++ t)
    (hcap : (utf8 R.headText).length + r.length ≤ maxMessageBytes) :
    let p := takeBlocks (R.body.length - r.length) cs
    if (utf8 R.headText).length + (r ++ p.1.flatten).length ≤ maxMessageBytes then
      readRequest s = (.ok R.toRequest, .ofChunks p.2)
    else (readRequest s).1 = .error .requestEntityTooLarge := by
  intro p
  have hbodyRead := readBody_wire hne hrest hcap
  have hparse := WireRequest.parseHead_headText h
  have hfour := R.four_le_headText
  have hfits := h.fits
  rw [WireRequest.encode, List.length_append] at hfits
  show if _ + (r ++ (takeBlocks (R.body.length - r.length) cs).1.flatten).length
    ≤ maxMessageBytes then readRequest s = (_, .ofChunks (takeBlocks _ cs).2) else _
  generalize utf8 R.headText = head at hread hcap hbodyRead hparse hfour hfits ⊢
  have hend : head.length - 4 + 4 = head.length := by omega
  simp only [readRequest, hread, hend, List.take_left, List.drop_left, hparse]
  by_cases hbody : R.body = []
  · simp only [hbody, List.length_nil, Nat.zero_sub, takeBlocks_zero, List.flatten_nil,
      List.append_nil, if_pos hcap, if_true, WireRequest.toRequest]
  · have hpos : R.body.length ≠ 0 := fun hzero => hbody (List.length_eq_zero_iff.mp hzero)
    have hdeclared : ¬ maxMessageBytes < usizeAdd head.length R.body.length :=
      not_lt_usizeAdd hfits
    rw [if_neg hpos, if_neg hdeclared]
    simp only at hbodyRead
    split
    · next hfit =>
      rw [if_pos hfit] at hbodyRead
      obtain ⟨got, hgot, hread₂⟩ := hbodyRead
      simp only [hread₂, hgot, WireRequest.toRequest]
    · next hfit =>
      rw [if_neg hfit] at hbodyRead
      generalize readBody head.length R.body.length r _ = res at hbodyRead ⊢
      obtain ⟨e | body, s'⟩ := res
      · simpa using hbodyRead
      · cases hbodyRead

/-- **One call.** When the input starts with a well-formed request, the call
returns it and leaves the chunks after the shortest run that holds it, unless
that run exceeds the message cap. -/
theorem readRequest_wire {R : WireRequest} (h : R.WellFormed) {cs : List Bytes}
    (hne : ∀ c ∈ cs, c ≠ []) {t : Bytes} (hbytes : cs.flatten = R.encode ++ t) :
    let p := takeBlocks R.encode.length cs
    if p.1.flatten.length ≤ maxMessageBytes then
      readRequest (.ofChunks cs) = (.ok R.toRequest, .ofChunks p.2)
    else (readRequest (.ofChunks cs)).1 = .error .requestEntityTooLarge := by
  have hhead := readHead_wire h hne hbytes
  have hne₂ := takeBlocks_ne_nil hne (utf8 R.headText).length
  have hsum : R.encode.length = (utf8 R.headText).length + R.body.length :=
    List.length_append
  -- first the chunks with the head, then those the body still needs
  rw [hsum, takeBlocks_add]
  simp only at hhead
  generalize takeBlocks (utf8 R.headText).length cs = p₁ at hhead hne₂ ⊢
  by_cases hmax : p₁.1.flatten.length ≤ maxMessageBytes
  · rw [if_pos hmax] at hhead
    obtain ⟨r, htaken, hrest, hread⟩ := hhead
    rw [htaken, List.length_append] at hmax
    simp only [List.flatten_append, htaken, List.append_assoc, List.length_append,
      Nat.add_sub_add_left]
    have hafter := readRequest_afterHead h hread hne₂ hrest hmax
    simp only [List.length_append] at hafter
    exact hafter
  · -- the head alone exceeds the cap
    rw [if_neg hmax] at hhead
    rw [if_neg (by rw [List.flatten_append, List.length_append]; omega)]
    exact readRequest_of_readHead_error hhead

/-! ## The whole connection -/

/-- Reading nothing but the given requests, each from its own first byte: the
first call starts with all of their bytes unread, the next with those of the
others, and so on. -/
def expectedTurns : List WireRequest → List Turn
  | [] => []
  | R :: Rs => ⟨((R :: Rs).flatMap (·.encode)).length, R.toRequest⟩ :: expectedTurns Rs

/-- The calls of `read_request` on these chunks return exactly these requests. -/
def FramesExactly (Rs : List WireRequest) (chunks : List Bytes) : Prop :=
  (handleConn (.ofChunks chunks)).turns = expectedTurns Rs

theorem handleConn_turns_length (s : Stream) : (handleConn s).turns.length ≤ s.length := by
  induction hn : s.length using Nat.strong_induction_on generalizing s with
  | h n ih =>
    rcases hread : readRequest s with ⟨e | req, s'⟩
    · rw [handleConn_error hread]
      exact Nat.zero_le _
    · have hlt := readRequest_length hread
      cases hclose : closeConnection req with
      | true =>
        rw [handleConn_close hread hclose, List.length_singleton]
        omega
      | false =>
        have hrec := ih s'.length (hn ▸ hlt) s' rfl
        rw [handleConn_ok hread hclose, List.length_cons]
        omega

/-- The first turn starts with everything the connection has to deliver. -/
theorem handleConn_turns_cons {s : Stream} {turn : Turn} {rest : List Turn}
    (h : (handleConn s).turns = turn :: rest) : turn.unread = s.unread := by
  rcases hread : readRequest s with ⟨e | req, s'⟩
  · rw [handleConn_error hread] at h
    cases h
  · cases hclose : closeConnection req with
    | true =>
      rw [handleConn_close hread hclose, List.cons.injEq] at h
      rw [← h.1]
    | false =>
      rw [handleConn_ok hread hclose, List.cons.injEq] at h
      rw [← h.1]

/-- Requests with more bytes than there are do not come through. -/
theorem handleConn_turns_ne_of_lt {Rs : List WireRequest} {chunks : List Bytes}
    (h : chunks.flatten.length < (Rs.flatMap (·.encode)).length) :
    (handleConn (.ofChunks chunks)).turns ≠ expectedTurns Rs := by
  intro hturns
  cases Rs with
  | nil => exact Nat.not_lt_zero _ h
  | cons R Rs =>
    have hfirst := handleConn_turns_cons hturns
    rw [Stream.unread_ofChunks] at hfirst
    exact absurd hfirst (Nat.ne_of_gt h)

theorem handleConn_nil : (handleConn (.ofChunks [])).turns = [] := by
  rw [Stream.ofChunks_nil, handleConn_error (show readRequest [] = (.error .badRequest, []) by rfl)]

/-- **One turn**: the first request comes through and the others after it exactly when
the first call stops at its end. -/
theorem framesExactly_cons {R : WireRequest} {Rs : List WireRequest} {chunks : List Bytes}
    (hwf : R.WellFormed) (hopen : closeConnection R.toRequest = false)
    (hne : ∀ c ∈ chunks, c ≠ []) (hbytes : chunks.flatten = R.encode ++ Rs.flatMap (·.encode)) :
    FramesExactly (R :: Rs) chunks ↔
      (takeBlocks R.encode.length chunks).1.flatten = R.encode
        ∧ FramesExactly Rs (takeBlocks R.encode.length chunks).2 := by
  have hread := readRequest_wire hwf hne hbytes
  obtain ⟨r, htaken, hrest⟩ := takeBlocks_prefix hbytes
  have hunread : (Stream.ofChunks chunks).unread = ((R :: Rs).flatMap (·.encode)).length := by
    rw [Stream.unread_ofChunks, hbytes, List.flatMap_cons]
  rw [FramesExactly, expectedTurns]
  generalize takeBlocks R.encode.length chunks = p at hread htaken hrest ⊢
  by_cases hfit : p.1.flatten.length ≤ maxMessageBytes
  · rw [if_pos hfit] at hread
    rw [handleConn_ok hread hopen, hunread, List.cons.injEq, htaken]
    by_cases hexact : r = []
    · -- the call stopped at the boundary, the next one starts at it
      simp [hexact, FramesExactly]
    · -- it read into the next request, and these bytes are gone
      have hshort : p.2.flatten.length < (Rs.flatMap (·.encode)).length := by
        have hpos := List.length_pos_iff.mpr hexact
        rw [← hrest, List.length_append]
        omega
      have hlonger : ¬ R.encode ++ r = R.encode := fun h => hexact (List.append_right_eq_self.mp h)
      exact ⟨fun h => absurd h.2 (handleConn_turns_ne_of_lt hshort),
        fun h => absurd h.1 hlonger⟩
  · rw [if_neg hfit] at hread
    have hrefused : (handleConn (.ofChunks chunks)).turns = [] := by
      rcases hr : readRequest (.ofChunks chunks) with ⟨e | req, s'⟩
      · rw [handleConn_error hr]
      · rw [hr] at hread
        cases hread
    rw [hrefused]
    refine ⟨fun h => (List.cons_ne_nil _ _ h.symm).elim, fun h => ?_⟩
    rw [h.1] at hfit
    exact absurd hwf.fits hfit

/-- **Where a connection keeps its requests.** For well-formed requests, none of
which closes the connection, cut into chunks in any way: the loop returns
exactly these requests if and only if no chunk holds bytes of two of them. -/
theorem framesExactly_iff {Rs : List WireRequest} {chunks : List Bytes}
    (hwf : ∀ R ∈ Rs, R.WellFormed) (hopen : ∀ R ∈ Rs, closeConnection R.toRequest = false)
    (hne : ∀ c ∈ chunks, c ≠ []) (hbytes : chunks.flatten = Rs.flatMap (·.encode)) :
    FramesExactly Rs chunks ↔ Groups chunks (Rs.map (·.encode)) := by
  induction Rs generalizing chunks with
  | nil =>
    have hnil : chunks = [] := by
      cases chunks with
      | nil => rfl
      | cons c cs =>
        rw [List.flatMap_nil, List.flatten_cons, List.append_eq_nil_iff] at hbytes
        exact absurd hbytes.1 (hne c (by simp))
    rw [List.map_nil, groups_nil, FramesExactly, hnil, handleConn_nil]
    simp [expectedTurns]
  | cons R Rs ih =>
    rw [List.flatMap_cons] at hbytes
    obtain ⟨r, htaken, hrest⟩ := takeBlocks_prefix hbytes
    rw [List.map_cons, groups_cons hne,
      framesExactly_cons (hwf R (by simp)) (hopen R (by simp)) hne hbytes]
    apply and_congr_right
    intro hexact
    rw [hexact, List.self_eq_append_right] at htaken
    rw [htaken, List.nil_append] at hrest
    exact ih (fun x hx => hwf x (by simp [hx])) (fun x hx => hopen x (by simp [hx]))
      (takeBlocks_ne_nil hne R.encode.length) hrest

/-- A `GET` without headers or body. -/
def bareGet (path : Str) : WireRequest := ⟨"GET".toList, path, "GURT/1.0.0".toList, [], []⟩

theorem bareGet_wellFormed : ∀ R ∈ [bareGet "/a".toList, bareGet "/b".toList], R.WellFormed := by
  intro R hR
  simp only [List.mem_cons, List.not_mem_nil, or_false] at hR
  rcases hR with rfl | rfl
  all_goals
    exact ⟨⟨by decide, Str.noWs_of_all (by decide)⟩, ⟨by decide, Str.noWs_of_all (by decide)⟩,
      Str.noWs_of_all (by decide), by simp [bareGet], .inl ⟨rfl, rfl⟩, by decide⟩

/-- One chunk per request: both come through. -/
theorem framesExactly_iff_bareGets :
    FramesExactly [bareGet "/a".toList, bareGet "/b".toList]
        [(bareGet "/a".toList).encode, (bareGet "/b".toList).encode] ↔
      Groups [(bareGet "/a".toList).encode, (bareGet "/b".toList).encode]
        [(bareGet "/a".toList).encode, (bareGet "/b".toList).encode] :=
  framesExactly_iff bareGet_wellFormed (by decide) (by decide) (by simp)

/-- Two pipelined requests that arrive in one chunk: the second is lost. -/
theorem not_framesExactly_pipelined :
    (∀ R ∈ [bareGet "/a".toList, bareGet "/b".toList], R.WellFormed) ∧
      (∀ R ∈ [bareGet "/a".toList, bareGet "/b".toList], closeConnection R.toRequest = false) ∧
      ¬ FramesExactly [bareGet "/a".toList, bareGet "/b".toList]
          [(bareGet "/a".toList).encode ++ (bareGet "/b".toList).encode] := by
  refine ⟨bareGet_wellFormed, by decide, fun h => ?_⟩
  have hle := handleConn_turns_length
    (.ofChunks [(bareGet "/a".toList).encode ++ (bareGet "/b".toList).encode])
  rw [FramesExactly] at h
  rw [h] at hle
  simp [expectedTurns, Stream.ofChunks] at hle

end Gurted.Server
