import Gurted.Api.Reading

/-!
# Reading a message in two loops

Every reader of a message in the repository has the same two loops: read until
the buffer holds CRLFCRLF, then read until the declared length is there. They
differ in their caps and errors, and `read_request` scans only what is new
(`readHead_eq`). On a connection that delivers no more than the cap and then ends,
what the loops return depends on the bytes alone (`readUntil_ofChunks`,
`readToLength_ofChunks`).
-/

namespace Gurted.Api

open Gurted Gurted.Lib

variable {E : Type*}

/-- `anyhow::Error`, by what raised it. -/
inductive Anyhow where
  | io
  | utf8
  | parseInt
  | limit (e : LimitError)
  | msg (text : Str)
  deriving DecidableEq, Repr

/-! ## The loops -/

/-- How a header loop fails: in a read, at the end of the input, or because the
buffer exceeds the cap. -/
structure HeadErrors (E : Type*) where
  io : E
  closed : E
  tooLarge : E

/-- The loop up to CRLFCRLF with a scan of the whole buffer after every read.
Returns the buffer and the position of the delimiter in it. -/
def readUntil (cap : Nat) (errs : HeadErrors E) (buf : Bytes) :
    Stream → Except E (Bytes × Nat) × Stream
  | [] => (.error errs.closed, [])
  | .ioError :: s => (.error errs.io, s)
  | .bytes c :: s =>
      if c.isEmpty then (.error errs.closed, s)
      else if cap < (buf ++ c).length then (.error errs.tooLarge, s)
      else
        match findSub crlfcrlf (buf ++ c) with
        | some pos => (.ok (buf ++ c, pos), s)
        | none => readUntil cap errs (buf ++ c) s

/-- How a body loop fails: in a read, or with a message of a length over the cap. -/
structure BodyErrors (E : Type*) where
  io : E
  tooLarge : Nat → E

/-- The loop up to the declared length, or to the end of the input. -/
def readToLength (errs : BodyErrors E) (headLen len : Nat) (body : Bytes) (s : Stream) :
    Except E Bytes × Stream :=
  if len ≤ body.length then (.ok body, s)
  else match s with
    | [] => (.ok body, [])
    | .ioError :: s' => (.error errs.io, s')
    | .bytes c :: s' =>
        if c.isEmpty then (.ok body, s')
        else if maxMessageBytes < headLen + (body ++ c).length then
          (.error (errs.tooLarge (headLen + (body ++ c).length)), s')
        else readToLength errs headLen len (body ++ c) s'

/-! ## The loops of `read_request` -/

/-- **The scan that resumes.** On every connection the header loop of
`read_request` does what a loop does that scans the whole buffer each time. -/
theorem readHead_eq {buf : Bytes} (hnone : findSub crlfcrlf buf = none) (s : Stream) :
    readHead buf buf.length s
      = readUntil maxMessageBytes ⟨.internalServerError, .badRequest, .requestEntityTooLarge⟩
          buf s := by
  induction s generalizing buf with
  | nil => rfl
  | cons a s ih =>
    cases a with
    | ioError => rfl
    | bytes c =>
      rw [readHead, readUntil, findSub_drop_sub_three hnone c]
      split
      · rfl
      · split
        · rfl
        · cases hrel : findSub crlfcrlf ((buf ++ c).drop (buf.length - 3)) with
          | some rel => rfl
          | none =>
            have hwhole := findSub_drop_sub_three hnone c
            rw [hrel, Option.map_none] at hwhole
            have hrec := ih hwhole
            rw [List.length_append] at hrec
            exact hrec

theorem readHead_nil_eq (s : Stream) :
    readHead [] 0 s
      = readUntil maxMessageBytes ⟨.internalServerError, .badRequest, .requestEntityTooLarge⟩
          [] s :=
  readHead_eq rfl s

theorem readBody_eq (headLen len : Nat) (body : Bytes) (s : Stream) :
    readBody headLen len body s
      = readToLength ⟨.internalServerError, fun _ => .requestEntityTooLarge⟩ headLen len body
          s := by
  induction s generalizing body with
  | nil =>
    rw [readBody.eq_def, readToLength.eq_def]
  | cons a s ih =>
    rw [readBody.eq_def, readToLength.eq_def]
    cases a with
    | ioError => rfl
    | bytes c =>
      split
      · rfl
      · simp only
        split
        · rfl
        · by_cases hmax : maxMessageBytes < headLen + (body ++ c).length
          · rw [if_pos hmax, enforceMaxMessageSize_error hmax]
          · rw [if_neg hmax, enforceMaxMessageSize_ok (by omega)]
            exact ih (body ++ c)

/-! ## What the loops return -/

/-- What a header loop leaves when the first CRLFCRLF of the input ends after the
bytes `head`: it has read these and some more, and the connection has the rest. -/
structure HeadRead (head tail buf : Bytes) (rest : List Bytes) : Prop where
  nonempty : ∀ c ∈ rest, c ≠ []
  split : ∃ more, buf = head ++ more ∧ more ++ rest.flatten = tail

/-- **The header loop**, on an input within the cap that holds a CRLFCRLF. -/
theorem readUntil_ofChunks {cap : Nat} {errs : HeadErrors E} {buf : Bytes}
    (hnone : findSub crlfcrlf buf = none) {cs : List Bytes} (hne : ∀ c ∈ cs, c ≠ [])
    (hcap : (buf ++ cs.flatten).length ≤ cap) {i : Nat}
    (hfind : findSub crlfcrlf (buf ++ cs.flatten) = some i) :
    ∃ buf' rest,
      readUntil cap errs buf (.ofChunks cs) = (.ok (buf', i), .ofChunks rest) ∧
      HeadRead ((buf ++ cs.flatten).take (i + 4)) ((buf ++ cs.flatten).drop (i + 4)) buf' rest := by
  induction cs generalizing buf with
  | nil =>
    rw [List.flatten_nil, List.append_nil, hnone] at hfind
    cases hfind
  | cons c cs ih =>
    have hc : c.isEmpty = false := by simpa using hne c (by simp)
    have hne' : ∀ b ∈ cs, b ≠ [] := fun b hb => hne b (by simp [hb])
    rw [List.flatten_cons, ← List.append_assoc] at hfind hcap ⊢
    have hmax : ¬ cap < (buf ++ c).length := by
      rw [List.length_append] at hcap
      omega
    rw [Stream.ofChunks_cons, readUntil, hc, if_neg (by simp), if_neg hmax]
    cases hscan : findSub crlfcrlf (buf ++ c) with
    | some pos =>
      have hpos : pos = i := by
        have := findSub_append_of_some hscan cs.flatten
        rw [hfind] at this
        exact (Option.some.inj this).symm
      subst hpos
      have hle : pos + 4 ≤ (buf ++ c).length := findSub_le hscan
      refine ⟨buf ++ c, cs, rfl, hne', (buf ++ c).drop (pos + 4), ?_, ?_⟩
      · rw [List.take_append_of_le_length hle, List.take_append_drop]
      · rw [List.drop_append_of_le_length hle]
    | none => exact ih hscan hne' hcap hfind

/-- Without a CRLFCRLF the loop runs into the end of the input. -/
theorem readUntil_ofChunks_none {cap : Nat} {errs : HeadErrors E} {buf : Bytes}
    {cs : List Bytes} (hne : ∀ c ∈ cs, c ≠ []) (hcap : (buf ++ cs.flatten).length ≤ cap)
    (hfind : findSub crlfcrlf (buf ++ cs.flatten) = none) :
    readUntil cap errs buf (.ofChunks cs) = (.error errs.closed, []) := by
  induction cs generalizing buf with
  | nil => rfl
  | cons c cs ih =>
    have hc : c.isEmpty = false := by simpa using hne c (by simp)
    have hne' : ∀ b ∈ cs, b ≠ [] := fun b hb => hne b (by simp [hb])
    rw [List.flatten_cons, ← List.append_assoc] at hfind hcap
    have hmax : ¬ cap < (buf ++ c).length := by
      rw [List.length_append] at hcap
      omega
    have hscan : findSub crlfcrlf (buf ++ c) = none := by
      cases hscan : findSub crlfcrlf (buf ++ c) with
      | none => rfl
      | some pos =>
        rw [findSub_append_of_some hscan] at hfind
        cases hfind
    rw [Stream.ofChunks_cons, readUntil, hc, if_neg (by simp), if_neg hmax, hscan]
    exact ih hne' hcap hfind

/-- **The body loop**, on an input within the cap: what it returns, cut to the
declared length, is the input cut to that length. -/
theorem readToLength_ofChunks {errs : BodyErrors E} {headLen len : Nat} {body : Bytes}
    {cs : List Bytes} (hne : ∀ c ∈ cs, c ≠ [])
    (hcap : headLen + (body ++ cs.flatten).length ≤ maxMessageBytes) :
    ∃ got, (readToLength errs headLen len body (.ofChunks cs)).1 = .ok got ∧
      got.take len = (body ++ cs.flatten).take len := by
  induction cs generalizing body with
  | nil =>
    refine ⟨body, ?_, by simp⟩
    rw [readToLength.eq_def]
    split <;> rfl
  | cons c cs ih =>
    have hc : c.isEmpty = false := by simpa using hne c (by simp)
    have hne' : ∀ b ∈ cs, b ≠ [] := fun b hb => hne b (by simp [hb])
    rw [readToLength.eq_def]
    by_cases hlen : len ≤ body.length
    · refine ⟨body, by rw [if_pos hlen], ?_⟩
      rw [List.take_append_of_le_length hlen]
    · rw [List.flatten_cons, ← List.append_assoc] at hcap ⊢
      have hmax : ¬ maxMessageBytes < headLen + (body ++ c).length := by
        rw [List.length_append] at hcap
        omega
      simp only [if_neg hlen, Stream.ofChunks_cons, hc, Bool.false_eq_true, if_false, if_neg hmax]
      exact ih hne' hcap

theorem HeadRead.take {head tail buf : Bytes} {rest : List Bytes}
    (h : HeadRead head tail buf rest) : buf.take head.length = head := by
  obtain ⟨more, rfl, -⟩ := h.split
  exact List.take_left

/-- The body loop after the header loop gets the declared bytes, or what there is
of them. -/
theorem HeadRead.readToLength {head tail buf : Bytes} {rest : List Bytes}
    (h : HeadRead head tail buf rest) (errs : BodyErrors E)
    (hcap : head.length + tail.length ≤ maxMessageBytes) (len : Nat) :
    ∃ got, (Api.readToLength errs head.length len (buf.drop head.length) (.ofChunks rest)).1
        = .ok got ∧ got.take len = tail.take len := by
  obtain ⟨more, rfl, htail⟩ := h.split
  rw [List.drop_left, ← htail]
  refine readToLength_ofChunks h.nonempty ?_
  rw [htail]
  exact hcap

/-- An input cut behind its first CRLFCRLF. -/
theorem length_take_head {input : Bytes} {i : Nat} (h : findSub crlfcrlf input = some i) :
    (input.take (i + 4)).length = i + 4 := by
  have hle : i + 4 ≤ input.length := findSub_le h
  rw [List.length_take]
  omega

/-- The body loop after the header loop, on an input within the cap. -/
theorem HeadRead.readToLength_whole {input buf : Bytes} {rest : List Bytes} {i : Nat}
    (hread : HeadRead (input.take (i + 4)) (input.drop (i + 4)) buf rest)
    (hfind : findSub crlfcrlf input = some i) (hcap : input.length ≤ maxMessageBytes)
    (errs : BodyErrors E) (len : Nat) :
    ∃ got s, Api.readToLength errs (i + 4) len (buf.drop (i + 4)) (.ofChunks rest) = (.ok got, s) ∧
      got.take len = (input.drop (i + 4)).take len := by
  have hsum : (input.take (i + 4)).length + (input.drop (i + 4)).length ≤ maxMessageBytes := by
    rw [← List.length_append, List.take_append_drop]
    exact hcap
  obtain ⟨got, hgot, hcut⟩ := hread.readToLength errs hsum len
  rw [length_take_head hfind] at hgot
  exact ⟨got, _, Prod.ext hgot rfl, hcut⟩

/-- What the header loop has read holds the CRLFCRLF where the input has it. -/
theorem HeadRead.findSub_buf {input buf : Bytes} {rest : List Bytes} {i : Nat}
    (hread : HeadRead (input.take (i + 4)) (input.drop (i + 4)) buf rest)
    (hfind : findSub crlfcrlf input = some i) : findSub crlfcrlf buf = some i := by
  obtain ⟨more, hbuf, hmore⟩ := hread.split
  obtain ⟨hocc, hmin⟩ := findSub_eq_some_iff.mp hfind
  have hstarts : input = buf ++ rest.flatten := by
    rw [hbuf, List.append_assoc, hmore, List.take_append_drop]
  have hbound : i + crlfcrlf.length ≤ buf.length := by
    rw [hbuf, List.length_append, length_take_head hfind]
    simp only [crlfcrlf, List.length_cons, List.length_nil]
    omega
  rw [hstarts] at hocc hmin
  exact findSub_eq_some_iff.mpr
    ⟨hocc.of_append hbound, fun j hj hj' => hmin j hj (hj'.append _)⟩

/-- The header loop from an empty buffer: it stops at the first CRLFCRLF of the
input, and what it has then starts with the head. -/
theorem readUntil_whole {cap : Nat} (errs : HeadErrors E) {cs : List Bytes}
    (hne : ∀ c ∈ cs, c ≠ []) (hcap : cs.flatten.length ≤ cap) {i : Nat}
    (hfind : findSub crlfcrlf cs.flatten = some i) :
    ∃ buf rest, readUntil cap errs [] (.ofChunks cs) = (.ok (buf, i), .ofChunks rest) ∧
      buf.take (i + 4) = cs.flatten.take (i + 4) ∧
      HeadRead (cs.flatten.take (i + 4)) (cs.flatten.drop (i + 4)) buf rest := by
  have hempty : findSub crlfcrlf ([] : Bytes) = none := rfl
  obtain ⟨buf, rest, hloop, hread⟩ := readUntil_ofChunks hempty hne hcap hfind
  refine ⟨buf, rest, hloop, ?_, hread⟩
  have htake := hread.take
  rw [List.nil_append, length_take_head hfind] at htake
  exact htake

end Gurted.Api
