import Gurted.Lib.Blocks
import Gurted.Api.HttpLike

/-!
# What the reading loops read

On a connection that delivers non-empty chunks, each loop of `read_request`
takes the shortest run of chunks that holds what it looks for (`takeBlocks`) and
keeps all of their bytes. The header loop finds the first CRLFCRLF of the byte
sequence, wherever the chunk boundaries fall.
-/

namespace Gurted.Api

open Gurted Gurted.Lib

/-- The connection that delivers the given chunks, one per read. -/
def Stream.ofChunks (cs : List Bytes) : Stream := cs.map .bytes

@[simp] theorem Stream.ofChunks_nil : Stream.ofChunks [] = [] := rfl

@[simp] theorem Stream.ofChunks_cons (c : Bytes) (cs : List Bytes) :
    Stream.ofChunks (c :: cs) = .bytes c :: Stream.ofChunks cs := rfl

theorem Stream.unread_ofChunks (cs : List Bytes) :
    (Stream.ofChunks cs).unread = cs.flatten.length := by
  simp [Stream.unread, Stream.ofChunks, List.length_flatten, Function.comp_def]

/-- A message within the cap passes the check of its declared size: the sum does not
wrap. -/
theorem not_lt_usizeAdd {headLen len : Nat} (h : headLen + len ≤ maxMessageBytes) :
    ¬ maxMessageBytes < usizeAdd headLen len := by
  have hsum : headLen + len < 2 ^ 64 := by
    rw [maxMessageBytes] at h
    omega
  rw [usizeAdd_eq hsum]
  omega

/-- The scan of a grown buffer finds what a scan of the whole buffer finds. -/
theorem findSub_drop_sub_three {buf : Bytes} (hnone : findSub crlfcrlf buf = none) (c : Bytes) :
    findSub crlfcrlf (buf ++ c)
      = (findSub crlfcrlf ((buf ++ c).drop (buf.length - 3))).map (buf.length - 3 + ·) := by
  refine findSub_resume hnone c ?_
  simp only [crlfcrlf, List.length_cons, List.length_nil]
  omega

/-- **The header loop.** With no CRLFCRLF in the buffer and the first one of the
whole input at `i`, the loop takes the chunks up to the one that completes it;
it fails only if these exceed the message cap. -/
theorem readHead_ofChunks {buf : Bytes} (hnone : findSub crlfcrlf buf = none)
    {cs : List Bytes} (hne : ∀ c ∈ cs, c ≠ []) {i : Nat}
    (hfind : findSub crlfcrlf (buf ++ cs.flatten) = some i) :
    let p := takeBlocks (i + 4 - buf.length) cs
    if (buf ++ p.1.flatten).length ≤ maxMessageBytes then
      readHead buf buf.length (.ofChunks cs) = (.ok (buf ++ p.1.flatten, i), .ofChunks p.2)
    else (readHead buf buf.length (.ofChunks cs)).1 = .error .requestEntityTooLarge := by
  induction cs generalizing buf with
  | nil =>
    rw [List.flatten_nil, List.append_nil, hnone] at hfind
    cases hfind
  | cons c cs ih =>
    have hc : c.isEmpty = false := by simpa using hne c (by simp)
    have hne' : ∀ b ∈ cs, b ≠ [] := fun b hb => hne b (by simp [hb])
    rw [List.flatten_cons, ← List.append_assoc] at hfind
    -- the delimiter ends after the buffer, so at least one chunk is taken
    have hpos : 0 < i + 4 - buf.length := by
      by_contra hle
      have hocc := (findSub_eq_some_iff.mp hfind).1
      rw [List.append_assoc] at hocc
      exact findSub_eq_none_iff.mp hnone i
        (hocc.of_append (by simp only [crlfcrlf, List.length_cons, List.length_nil]; omega))
    simp only [takeBlocks_cons hpos, List.flatten_cons]
    simp only [Stream.ofChunks_cons, readHead, hc, Bool.false_eq_true, if_false]
    by_cases hmax : maxMessageBytes < (buf ++ c).length
    · -- the cap is exceeded already
      rw [if_pos hmax, if_neg]
      rw [← List.append_assoc, List.length_append]
      omega
    · rw [if_neg hmax]
      have hscan := findSub_drop_sub_three hnone c
      cases hrel : findSub crlfcrlf ((buf ++ c).drop (buf.length - 3)) with
      | some rel =>
        rw [hrel, Option.map_some] at hscan
        have hi : i = buf.length - 3 + rel := by
          have := findSub_append_of_some hscan cs.flatten
          rw [hfind] at this
          exact Option.some.inj this
        have hle := findSub_le hscan
        rw [List.length_append] at hle
        simp only [crlfcrlf, List.length_cons, List.length_nil] at hle
        have hzero : i + 4 - buf.length - c.length = 0 := by omega
        simp only [hzero, takeBlocks_zero, List.flatten_nil, List.append_nil, ← hi]
        rw [if_pos (by omega)]
        trivial
      | none =>
        rw [hrel, Option.map_none] at hscan
        have hrec := ih hscan hne' hfind
        have hlen : i + 4 - (buf ++ c).length = i + 4 - buf.length - c.length := by
          rw [List.length_append]; omega
        rw [hlen, List.length_append] at hrec
        simpa only [List.append_assoc, List.length_append] using hrec

/-- **The body loop.** If the input still holds the declared length, the loop
takes the chunks up to the one that completes it; it fails only if these exceed
the message cap. -/
theorem readBody_ofChunks {headLen n : Nat} {body : Bytes} {cs : List Bytes}
    (hne : ∀ c ∈ cs, c ≠ []) (havail : n ≤ body.length + cs.flatten.length)
    (hcap : headLen + body.length ≤ maxMessageBytes) :
    let p := takeBlocks (n - body.length) cs
    if headLen + (body ++ p.1.flatten).length ≤ maxMessageBytes then
      readBody headLen n body (.ofChunks cs) = (.ok (body ++ p.1.flatten), .ofChunks p.2)
    else (readBody headLen n body (.ofChunks cs)).1 = .error .requestEntityTooLarge := by
  induction cs generalizing body with
  | nil =>
    have hn : n ≤ body.length := by simpa using havail
    have hzero : n - body.length = 0 := by omega
    rw [readBody.eq_def]
    simp [hzero, hcap, hn]
  | cons c cs ih =>
    have hc : c.isEmpty = false := by simpa using hne c (by simp)
    have hne' : ∀ b ∈ cs, b ≠ [] := fun b hb => hne b (by simp [hb])
    rw [readBody.eq_def]
    by_cases hn : n ≤ body.length
    · have hzero : n - body.length = 0 := by omega
      simp [hzero, hcap, hn]
    · have hpos : 0 < n - body.length := by omega
      simp only [takeBlocks_cons hpos, List.flatten_cons]
      simp only [if_neg hn, Stream.ofChunks_cons, hc, Bool.false_eq_true, if_false]
      by_cases hmax : headLen + (body ++ c).length ≤ maxMessageBytes
      · rw [enforceMaxMessageSize_ok hmax]
        have hrec := @ih (body ++ c) hne'
          (by rw [List.flatten_cons, List.length_append] at havail
              rw [List.length_append]; omega) hmax
        have hlen : n - (body ++ c).length = n - body.length - c.length := by
          rw [List.length_append]; omega
        rw [hlen] at hrec
        simpa only [List.append_assoc] using hrec
      · rw [enforceMaxMessageSize_error (by omega), if_neg]
        rw [← List.append_assoc, List.length_append]
        omega

end Gurted.Api
