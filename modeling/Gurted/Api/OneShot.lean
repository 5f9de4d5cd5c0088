import Gurted.Api.Until
import Gurted.Api.Wire

/-!
# Reading a request from its bytes

`oneShot` says what `read_request` makes of a connection without its loops: a
search for the first CRLFCRLF of all the bytes, the parse of the head, the check of
the declared size, and the body cut from what follows. `readRequest_eq_oneShot`
is that this is what every way of delivering the bytes comes to.
-/

namespace Gurted.Api

open Gurted Gurted.Lib

/-- The request in a complete input. -/
def oneShot (input : Bytes) : Except StatusCode Request :=
  match findSub crlfcrlf input with
  | none => .error .badRequest
  | some headerEnd =>
      match parseHead (input.take (headerEnd + 4)) with
      | .error e => .error e
      | .ok h =>
          if maxMessageBytes < usizeAdd (headerEnd + 4) h.contentLength then
            .error .requestEntityTooLarge
          else
            .ok ⟨h.method, h.path, h.headers, (input.drop (headerEnd + 4)).take h.contentLength⟩

/-- The header loop finds the first CRLFCRLF of the input. -/
theorem readHead_whole {cs : List Bytes} (hne : ∀ c ∈ cs, c ≠ [])
    (hcap : cs.flatten.length ≤ maxMessageBytes) {i : Nat}
    (hfind : findSub crlfcrlf cs.flatten = some i) :
    ∃ buf rest, readHead [] 0 (.ofChunks cs) = (.ok (buf, i), .ofChunks rest) ∧
      buf.take (i + 4) = cs.flatten.take (i + 4) ∧
      HeadRead (cs.flatten.take (i + 4)) (cs.flatten.drop (i + 4)) buf rest := by
  rw [readHead_nil_eq]
  exact readUntil_whole _ hne hcap hfind

theorem readHead_whole_none {cs : List Bytes} (hne : ∀ c ∈ cs, c ≠ [])
    (hcap : cs.flatten.length ≤ maxMessageBytes) (hfind : findSub crlfcrlf cs.flatten = none) :
    readHead [] 0 (.ofChunks cs) = (.error .badRequest, []) := by
  rw [readHead_nil_eq]
  exact readUntil_ofChunks_none hne hcap hfind

/-- `read_request` sees the bytes alone. -/
theorem readRequest_whole {input : Bytes} {cs : List Bytes} (hne : ∀ c ∈ cs, c ≠ [])
    (hinput : cs.flatten = input) (hcap : input.length ≤ maxMessageBytes) :
    (readRequest (.ofChunks cs)).1 = oneShot input := by
  subst hinput
  rw [readRequest, oneShot]
  cases hfind : findSub crlfcrlf cs.flatten with
  | none =>
    rw [readHead_whole_none hne hcap hfind]
  | some i =>
    obtain ⟨buf, rest, hhead, htake, hread⟩ := readHead_whole hne hcap hfind
    have hle : i + 4 ≤ cs.flatten.length := findSub_le hfind
    rw [hhead]
    simp only [htake]
    cases hparse : parseHead (cs.flatten.take (i + 4)) with
    | error e => rfl
    | ok h =>
      simp only
      by_cases hzero : h.contentLength = 0
      · -- no body: the head alone passes the check of the size
        have hsmall : ¬ maxMessageBytes < usizeAdd (i + 4) h.contentLength :=
          not_lt_usizeAdd (by omega)
        rw [if_pos hzero, if_neg hsmall, hzero, List.take_zero]
      · rw [if_neg hzero]
        split
        · rfl
        · obtain ⟨got, rest', hgot, hcut⟩ := hread.readToLength_whole hfind hcap
            ⟨StatusCode.internalServerError, fun _ => .requestEntityTooLarge⟩ h.contentLength
          rw [← readBody_eq] at hgot
          simp only [hgot, hcut]

/-- **The bytes decide.** For every input within the cap and every way of cutting
it into non-empty reads, `read_request` returns what the one-shot parser makes of
the input; and its header loop stops at the CRLFCRLF that a search of all bytes, or
of the whole buffer, finds first. -/
theorem readRequest_eq_oneShot {input : Bytes} {cs : List Bytes} (hne : ∀ c ∈ cs, c ≠ [])
    (hinput : cs.flatten = input) (hcap : input.length ≤ maxMessageBytes) :
    (readRequest (.ofChunks cs)).1 = oneShot input ∧
      ∀ buf pos s', readHead [] 0 (.ofChunks cs) = (.ok (buf, pos), s') →
        findSub crlfcrlf input = some pos ∧ findSub crlfcrlf buf = some pos := by
  refine ⟨readRequest_whole hne hinput hcap, fun buf' pos s' heq => ?_⟩
  subst hinput
  cases hfind : findSub crlfcrlf cs.flatten with
  | none =>
    rw [readHead_whole_none hne hcap hfind] at heq
    cases heq
  | some i =>
    obtain ⟨buf, rest, hhead, -, hread⟩ := readHead_whole hne hcap hfind
    rw [hhead] at heq
    cases heq
    exact ⟨rfl, hread.findSub_buf hfind⟩

/-- The delimiter cut in the middle, and half a body. -/
theorem readRequest_eq_oneShot_short :
    (readRequest (.ofChunks [utf8 "GET / X\r\ncontent-length: 4\r".toList,
        utf8 "\n\r".toList, utf8 "\nab".toList])).1
      = oneShot (utf8 "GET / X\r\ncontent-length: 4\r\n\r\nab".toList) :=
  (readRequest_eq_oneShot (by decide) (by decide) (by decide)).1

/-- A message whose start line asks for `path`: its lines stay on their lines, and the
head is within the limit with the body that follows and with the body it declares. -/
structure Asks (method path start : Str) (ls : List Str) (body : Bytes) : Prop where
  words : ∃ ts, Str.splitWhitespace start = method :: path :: ts
  noCr : ∀ l ∈ start :: ls, '\r' ∉ l
  ne_nil : ∀ l ∈ ls, l ≠ []
  fits : (utf8 (headOf (start :: ls))).length + body.length ≤ maxMessageBytes
  declared_fits : (utf8 (headOf (start :: ls))).length + (ls.foldl headerLine ([], 0)).2
    ≤ maxMessageBytes

/-- A request is read with its method and its path. -/
theorem Asks.oneShot {method path start : Str} {ls : List Str} {body : Bytes}
    (h : Asks method path start ls body) (hmethod : method ≠ []) (hpath : path ≠ []) :
    oneShot (utf8 (headOf (start :: ls)) ++ body)
      = .ok ⟨method, path, (ls.foldl headerLine ([], 0)).1,
          body.take (ls.foldl headerLine ([], 0)).2⟩ := by
  obtain ⟨ts, hwords⟩ := h.words
  have hlines : ∀ l ∈ start :: ls, l ≠ [] := by
    intro l hl
    rcases List.mem_cons.mp hl with rfl | hl
    · intro hnil
      rw [hnil] at hwords
      cases hwords
    · exact h.ne_nil l hl
  have hend : (ls ++ [[], []]).foldl headerLine ([], 0) = ls.foldl headerLine ([], 0) :=
    List.foldl_append
  have hfour := four_le_headOf (List.cons_ne_nil start ls)
  have hlen : (utf8 (headOf (start :: ls))).length - 4 + 4
      = (utf8 (headOf (start :: ls))).length := by omega
  have hsmall := not_lt_usizeAdd h.declared_fits
  rw [Api.oneShot, findSub_headOf_lines (List.cons_ne_nil _ _) h.noCr hlines body]
  simp only [hlen, List.take_left, List.drop_left,
    parseHead_headOf_lines h.noCr hwords hmethod hpath, hend, if_neg hsmall]

/-- A request that declares its body and stays within the cap is all there. -/
theorem oneShot_headOf {start method path : Str} {ts : List Str} (hstart : '\r' ∉ start)
    (hwords : Str.splitWhitespace start = method :: path :: ts) (hmethod : method ≠ [])
    (hpath : path ≠ []) {hs : List (Str × Str)} (hhs : ∀ h ∈ hs, IsHeader h) {body : Bytes}
    (hlength : lastLength (hs.map headerSeen) = some body.length)
    (hfits : (utf8 (headOf (start :: hs.map WireRequest.headerText)) ++ body).length
      ≤ maxMessageBytes) :
    oneShot (utf8 (headOf (start :: hs.map WireRequest.headerText)) ++ body)
      = .ok ⟨method, path, hs.map headerSeen, body⟩ := by
  have hnil : start ≠ [] := by
    intro h
    rw [h] at hwords
    cases hwords
  obtain ⟨i, hfind, hlen⟩ := exists_cut_headOf hstart hnil hhs body
  have hparse := parseHead_headOf hstart hwords hmethod hpath hhs
  rw [hlength, Option.getD_some] at hparse
  rw [List.length_append] at hfits
  have hsmall := not_lt_usizeAdd hfits
  rw [oneShot, hfind]
  simp only [hlen, List.take_left, List.drop_left, hparse, if_neg hsmall, List.take_length]

end Gurted.Api
