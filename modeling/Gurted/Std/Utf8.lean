import Gurted.Std.Str

/-!
# UTF-8

`utf8` is the byte form of a string, `fromUtf8` is `str::from_utf8` and
`fromUtf8Lossy` is `String::from_utf8_lossy`. The first two rest on Lean's own
encoder and strict decoder; the third follows `core::str::lossy`, which replaces
every maximal ill-formed part by one replacement character.
-/

namespace Gurted

/-- `str::as_bytes`. -/
def utf8 (s : Str) : Bytes := s.flatMap String.utf8EncodeChar

/-- `str::from_utf8`; `none` is `Utf8Error`. -/
def fromUtf8 (bs : Bytes) : Option Str :=
  (ByteArray.utf8Decode? bs.toByteArray).map Array.toList

@[simp] theorem utf8_nil : utf8 [] = [] := rfl

@[simp] theorem utf8_append (s t : Str) : utf8 (s ++ t) = utf8 s ++ utf8 t :=
  List.flatMap_append

theorem utf8_cons (c : Char) (s : Str) :
    utf8 (c :: s) = String.utf8EncodeChar c ++ utf8 s := List.flatMap_cons

/-- What has been encoded decodes to itself. -/
@[simp] theorem fromUtf8_utf8 (s : Str) : fromUtf8 (utf8 s) = some s := by
  have h : ByteArray.utf8Decode? s.utf8Encode = some s.toArray := List.utf8Decode?_utf8Encode
  rw [fromUtf8, utf8]
  rw [List.utf8Encode] at h
  rw [h]
  simp

/-- A byte below 128 inside an encoded character is that character. -/
theorem toNat_of_mem_utf8EncodeChar {c : Char} {b : UInt8}
    (hb : b ∈ String.utf8EncodeChar c) (hlt : b.toNat < 128) : c.toNat = b.toNat := by
  have hc : c.val.toNat = c.toNat := rfl
  simp only [String.utf8EncodeChar] at hb
  split at hb
  · simp only [List.mem_singleton] at hb
    subst hb
    simp only [UInt8.toNat_ofNat'] at hlt ⊢
    omega
  · split at hb
    · simp only [List.mem_cons, List.not_mem_nil, or_false] at hb
      rcases hb with rfl | rfl <;> simp only [UInt8.toNat_ofNat'] at hlt <;> omega
    · split at hb
      · simp only [List.mem_cons, List.not_mem_nil, or_false] at hb
        rcases hb with rfl | rfl | rfl <;> simp only [UInt8.toNat_ofNat'] at hlt <;> omega
      · simp only [List.mem_cons, List.not_mem_nil, or_false] at hb
        rcases hb with rfl | rfl | rfl | rfl <;> simp only [UInt8.toNat_ofNat'] at hlt <;> omega

/-- An ASCII character's code is a byte of the string only where the character
itself stands. -/
theorem mem_of_mem_utf8 {s : Str} {c : Char} {b : UInt8} (hb : b ∈ utf8 s)
    (hcb : c.toNat = b.toNat) (hlt : b.toNat < 128) : c ∈ s := by
  obtain ⟨d, hd, hbd⟩ := List.mem_flatMap.mp hb
  have hdc : d.toNat = c.toNat := by rw [toNat_of_mem_utf8EncodeChar hbd hlt, hcb]
  have : d = c := Char.toNat_inj.mp hdc
  exact this ▸ hd

/-- Only encoded text decodes. -/
theorem eq_utf8_of_fromUtf8 {bs : Bytes} {s : Str} (h : fromUtf8 bs = some s) : bs = utf8 s := by
  obtain ⟨a, ha, rfl⟩ := Option.map_eq_some_iff.mp h
  have hsome : (ByteArray.utf8Decode? bs.toByteArray).isSome := by rw [ha]; rfl
  have henc := ByteArray.utf8Encode_get_utf8Decode? (b := bs.toByteArray) (h := hsome)
  simp only [ha, Option.get_some] at henc
  rw [List.utf8Encode] at henc
  have := congrArg (fun b : ByteArray => b.data.toList) henc
  simpa [utf8] using this.symm

theorem utf8_ne_nil {s : Str} (h : s ≠ []) : utf8 s ≠ [] := by
  cases s with
  | nil => exact absurd rfl h
  | cons c s =>
    rw [utf8_cons]
    simp [String.utf8EncodeChar_ne_nil]

/-- The bytes of a character that can start one are the first. -/
theorem isUTF8FirstByte_of_encode_eq {c : Char} {a q : Bytes} {x : UInt8}
    (h : String.utf8EncodeChar c = a ++ x :: q) : x.IsUTF8FirstByte ↔ a = [] := by
  have hi : a.length < (String.utf8EncodeChar c).length := by
    rw [h, List.length_append, List.length_cons]
    omega
  have hx : (String.utf8EncodeChar c)[a.length] = x := by simp [h]
  rw [← hx, UInt8.isUTF8FirstByte_getElem_utf8EncodeChar, List.length_eq_zero_iff]

theorem utf8_inj {s t : Str} (h : utf8 s = utf8 t) : s = t := by
  have hback := congrArg fromUtf8 h
  rw [fromUtf8_utf8, fromUtf8_utf8] at hback
  exact Option.some.inj hback

/-- **Only a character boundary leaves text**: what is cut off before it is text too. -/
theorem exists_of_utf8_eq_append {s t : Str} {a : Bytes} (h : utf8 t = a ++ utf8 s) :
    ∃ p, t = p ++ s ∧ a = utf8 p := by
  induction t generalizing a with
  | nil =>
    obtain ⟨rfl, hs⟩ := List.append_eq_nil_iff.mp h.symm
    exact ⟨[], (utf8_inj (hs.trans utf8_nil.symm)).symm, rfl⟩
  | cons c t ih =>
    rw [utf8_cons] at h
    rcases List.append_eq_append_iff.mp h with ⟨a', rfl, ht⟩ | ⟨q, hq, hs⟩
    · obtain ⟨p, rfl, rfl⟩ := ih ht
      exact ⟨c :: p, rfl, (utf8_cons c p).symm⟩
    · -- the cut is in the first character: before it, or behind it
      cases q with
      | nil =>
        rw [List.append_nil] at hq
        exact ⟨[c], by rw [utf8_inj hs]; rfl, by rw [utf8_cons, hq, utf8_nil, List.append_nil]⟩
      | cons x q =>
        cases s with
        | nil => cases hs
        | cons d s =>
          cases a with
          | nil =>
            rw [List.nil_append] at hq
            have hwhole : utf8 (c :: t) = utf8 (d :: s) := by rw [utf8_cons, hq, hs]
            exact ⟨[], (utf8_inj hwhole), rfl⟩
          | cons b a =>
            -- the byte behind the cut is not the first of `c`, and the first of `d`
            obtain ⟨x', q', hd⟩ := List.exists_cons_of_ne_nil (@String.utf8EncodeChar_ne_nil d)
            rw [utf8_cons, hd] at hs
            obtain ⟨rfl, -⟩ := List.cons.inj hs
            have hfirst := (@isUTF8FirstByte_of_encode_eq d [] q' x' hd).mpr rfl
            exact absurd ((isUTF8FirstByte_of_encode_eq hq).mp hfirst) (List.cons_ne_nil b a)

/-! ## Lines -/

/-- Text is cut into lines as its bytes are. -/
theorem splitOnP_utf8 (s : Str) :
    (utf8 s).splitOnP (· == 10) = (s.split '\n').map utf8 := by
  induction s using Str.cut_induction (p := (· == '\n')) with
  | last s hs =>
    have hnot : ∀ b ∈ utf8 s, (b == 10) = false := by
      intro b hb
      refine beq_eq_false_iff_ne.mpr fun heq => ?_
      have hmem : '\n' ∈ s := mem_of_mem_utf8 (heq ▸ hb) (by decide) (by decide)
      exact absurd (hs _ hmem) (by decide)
    rw [Str.split, List.splitOnP_eq_singleton hs, List.splitOnP_eq_singleton hnot]
    rfl
  | cut pre c rest hpre hc ih =>
    have hnot : ∀ b ∈ utf8 pre, (b == 10) = false := by
      intro b hb
      refine beq_eq_false_iff_ne.mpr fun heq => ?_
      have hmem : '\n' ∈ pre := mem_of_mem_utf8 (heq ▸ hb) (by decide) (by decide)
      exact absurd (hpre _ hmem) (by decide)
    have hnl : c = '\n' := by simpa using hc
    have hbytes : utf8 (pre ++ c :: rest) = utf8 pre ++ 10 :: utf8 rest := by
      rw [hnl, utf8_append, utf8_cons]
      rfl
    rw [hbytes, List.splitOnP_append_cons_of_forall_mem hnot 10 rfl, Str.split,
      List.splitOnP_append_cons_of_forall_mem hpre c hc, ih]
    rfl

/-- One line of bytes without its terminator. -/
def stripCrByte (l : Bytes) : Bytes := if l.getLast? = some 13 then l.dropLast else l

/-- The lines of `str::lines`, of bytes that need not be text. -/
def byteLines (bs : Bytes) : List Bytes :=
  let pieces := bs.splitOnP (· == 10)
  pieces.dropLast.map stripCrByte ++ pieces.getLast?.toList.filter (!·.isEmpty)

theorem utf8_stripCr (l : Str) : utf8 (Str.stripCr l) = stripCrByte (utf8 l) := by
  rcases List.eq_nil_or_concat l with rfl | ⟨l, c, rfl⟩
  · rfl
  rw [List.concat_eq_append, Str.stripCr, stripCrByte, List.getLast?_concat]
  by_cases hc : c = '\r'
  · rw [hc, if_pos rfl, utf8_append]
    have hbyte : utf8 ['\r'] = [13] := by decide
    rw [hbyte, List.getLast?_concat, if_pos rfl, List.dropLast_concat, List.dropLast_concat]
  · have hlast : (utf8 (l ++ [c])).getLast? ≠ some 13 := by
      intro h
      have hencode : utf8 [c] = String.utf8EncodeChar c := List.append_nil _
      rw [utf8_append, hencode, List.getLast?_append_of_ne_nil _ String.utf8EncodeChar_ne_nil] at h
      have hnat := toNat_of_mem_utf8EncodeChar (List.mem_of_getLast? h) (by decide)
      exact hc (Char.toNat_inj.mp hnat)
    rw [if_neg (by simpa using hc), if_neg hlast]

/-- The lines of text. -/
theorem byteLines_utf8 (s : Str) : byteLines (utf8 s) = (Str.lines s).map utf8 := by
  have hstrip : stripCrByte ∘ utf8 = utf8 ∘ Str.stripCr := funext fun l => (utf8_stripCr l).symm
  have hempty : ∀ l : Str, (utf8 l).isEmpty = l.isEmpty := by
    intro l
    cases l with
    | nil => rfl
    | cons c l => simpa using utf8_ne_nil (List.cons_ne_nil c l)
  rw [byteLines, Str.lines, splitOnP_utf8]
  simp only [List.map_append, ← List.map_dropLast, List.map_map, hstrip, List.getLast?_map]
  cases (Str.split '\n' s).getLast? with
  | none => rfl
  | some l => cases hl : l.isEmpty <;> simp [hempty, hl]

/-! ## Lossy decoding -/

/-- A continuation byte. -/
def isContinuation (b : UInt8) : Bool := 0x80 ≤ b && b ≤ 0xBF

/-- The second bytes that may follow the lead byte `b` of a three or four byte
sequence. -/
def secondOk (b c : UInt8) : Bool :=
  if b == 0xE0 then 0xA0 ≤ c && c ≤ 0xBF
  else if b == 0xED then 0x80 ≤ c && c ≤ 0x9F
  else if b == 0xF0 then 0x90 ≤ c && c ≤ 0xBF
  else if b == 0xF4 then 0x80 ≤ c && c ≤ 0x8F
  else isContinuation c

/-- The character assembled from the payload bits `hi` of a lead byte and the
low six bits of the continuation bytes. -/
def assemble (hi : Nat) (conts : List UInt8) : Char :=
  Char.ofNat (conts.foldl (fun acc c => acc * 64 + c.toNat % 64) hi)

/-- `char::REPLACEMENT_CHARACTER`. -/
def replacement : Char := Char.ofNat 0xFFFD

/-- `String::from_utf8_lossy`. -/
def fromUtf8Lossy : Bytes → Str
  | [] => []
  | b :: s =>
      if b < 0x80 then Char.ofNat b.toNat :: fromUtf8Lossy s
      else if 0xC2 ≤ b && b ≤ 0xDF then
        match s with
        | [] => [replacement]
        | c :: s₁ =>
            if isContinuation c then
              assemble (b.toNat % 32) [c] :: fromUtf8Lossy s₁
            else replacement :: fromUtf8Lossy (c :: s₁)
      else if 0xE0 ≤ b && b ≤ 0xEF then
        match s with
        | [] => [replacement]
        | c :: s₁ =>
            if secondOk b c then
              match s₁ with
              | [] => [replacement]
              | d :: s₂ =>
                  if isContinuation d then
                    assemble (b.toNat % 16) [c, d] :: fromUtf8Lossy s₂
                  else replacement :: fromUtf8Lossy (d :: s₂)
            else replacement :: fromUtf8Lossy (c :: s₁)
      else if 0xF0 ≤ b && b ≤ 0xF4 then
        match s with
        | [] => [replacement]
        | c :: s₁ =>
            if secondOk b c then
              match s₁ with
              | [] => [replacement]
              | d :: s₂ =>
                  if isContinuation d then
                    match s₂ with
                    | [] => [replacement]
                    | e :: s₃ =>
                        if isContinuation e then
                          assemble (b.toNat % 8) [c, d, e] :: fromUtf8Lossy s₃
                        else replacement :: fromUtf8Lossy (e :: s₃)
                  else replacement :: fromUtf8Lossy (d :: s₂)
            else replacement :: fromUtf8Lossy (c :: s₁)
      else replacement :: fromUtf8Lossy s

example : fromUtf8Lossy [0x61, 0xE2, 0x82, 0x62, 0xC3, 0xA9] = "a\uFFFDbé".toList := by decide

/-! ### Encoded text -/

theorem isContinuation_of_toNat {b : UInt8} (h : 128 ≤ b.toNat ∧ b.toNat ≤ 191) :
    isContinuation b = true := by
  rw [isContinuation, Bool.and_eq_true, decide_eq_true_eq, decide_eq_true_eq, UInt8.le_iff_toNat_le,
    UInt8.le_iff_toNat_le]
  exact h

/-- The second byte of a character that is neither overlong nor a surrogate. -/
theorem secondOk_of_toNat {b c : UInt8} (hc : 128 ≤ c.toNat ∧ c.toNat ≤ 191)
    (he0 : b.toNat = 0xE0 → 160 ≤ c.toNat) (hed : b.toNat = 0xED → c.toNat ≤ 159)
    (hf0 : b.toNat = 0xF0 → 144 ≤ c.toNat) (hf4 : b.toNat = 0xF4 → c.toNat ≤ 143) :
    secondOk b c = true := by
  simp only [secondOk, beq_iff_eq, ← UInt8.toNat_inj]
  split
  · next h => simpa [UInt8.le_iff_toNat_le] using ⟨he0 h, hc.2⟩
  · split
    · next h => simpa [UInt8.le_iff_toNat_le] using ⟨hc.1, hed h⟩
    · split
      · next h => simpa [UInt8.le_iff_toNat_le] using ⟨hf0 h, hc.2⟩
      · split
        · next h => simpa [UInt8.le_iff_toNat_le] using ⟨hc.1, hf4 h⟩
        · exact isContinuation_of_toNat hc

section Sequences
variable {b c d e : UInt8} (bs : Bytes)

theorem fromUtf8Lossy_one (hb : b.toNat < 128) :
    fromUtf8Lossy (b :: bs) = Char.ofNat b.toNat :: fromUtf8Lossy bs := by
  have hlt : b < 0x80 := UInt8.lt_iff_toNat_lt.mpr hb
  rw [fromUtf8Lossy.eq_def]
  simp only [if_pos hlt]

theorem fromUtf8Lossy_two (hb : 194 ≤ b.toNat ∧ b.toNat ≤ 223) (hc : isContinuation c = true) :
    fromUtf8Lossy (b :: c :: bs) = assemble (b.toNat % 32) [c] :: fromUtf8Lossy bs := by
  have hone : ¬ b < 0x80 := by simp [UInt8.lt_iff_toNat_lt]; omega
  have htwo : (0xC2 ≤ b && b ≤ 0xDF) = true := by simpa [UInt8.le_iff_toNat_le] using hb
  rw [fromUtf8Lossy.eq_def]
  simp only [if_neg hone, if_pos htwo, if_pos hc]

theorem fromUtf8Lossy_three (hb : 224 ≤ b.toNat ∧ b.toNat ≤ 239) (hc : secondOk b c = true)
    (hd : isContinuation d = true) :
    fromUtf8Lossy (b :: c :: d :: bs) = assemble (b.toNat % 16) [c, d] :: fromUtf8Lossy bs := by
  have hone : ¬ b < 0x80 := by simp [UInt8.lt_iff_toNat_lt]; omega
  have htwo : ¬ (0xC2 ≤ b && b ≤ 0xDF) = true := by simp [UInt8.le_iff_toNat_le]; omega
  have hthree : (0xE0 ≤ b && b ≤ 0xEF) = true := by simpa [UInt8.le_iff_toNat_le] using hb
  rw [fromUtf8Lossy.eq_def]
  simp only [if_neg hone, if_neg htwo, if_pos hthree, if_pos hc, if_pos hd]

theorem fromUtf8Lossy_four (hb : 240 ≤ b.toNat ∧ b.toNat ≤ 244) (hc : secondOk b c = true)
    (hd : isContinuation d = true) (he : isContinuation e = true) :
    fromUtf8Lossy (b :: c :: d :: e :: bs)
      = assemble (b.toNat % 8) [c, d, e] :: fromUtf8Lossy bs := by
  have hone : ¬ b < 0x80 := by simp [UInt8.lt_iff_toNat_lt]; omega
  have htwo : ¬ (0xC2 ≤ b && b ≤ 0xDF) = true := by simp [UInt8.le_iff_toNat_le]; omega
  have hthree : ¬ (0xE0 ≤ b && b ≤ 0xEF) = true := by simp [UInt8.le_iff_toNat_le]; omega
  have hfour : (0xF0 ≤ b && b ≤ 0xF4) = true := by simpa [UInt8.le_iff_toNat_le] using hb
  rw [fromUtf8Lossy.eq_def]
  simp only [if_neg hone, if_neg htwo, if_neg hthree, if_pos hfour, if_pos hc, if_pos hd, if_pos he]

end Sequences

/-- An encoded character is read back, whatever follows it. -/
theorem fromUtf8Lossy_utf8EncodeChar (c : Char) (bs : Bytes) :
    fromUtf8Lossy (String.utf8EncodeChar c ++ bs) = c :: fromUtf8Lossy bs := by
  have hvalid : c.toNat < 0xD800 ∨ 0xDFFF < c.toNat ∧ c.toNat < 0x110000 := c.valid
  have hval : c.val.toNat = c.toNat := rfl
  have hback : ∀ n, n = c.toNat → Char.ofNat n = c := fun n hn => hn ▸ Char.ofNat_toNat c
  have htail : ∀ n, (UInt8.ofNat (n % 64 + 128)).toNat = n % 64 + 128 := fun n => by
    rw [UInt8.toNat_ofNat']
    omega
  have hcont : ∀ n, isContinuation (UInt8.ofNat (n % 64 + 128)) = true := fun n =>
    isContinuation_of_toNat (by rw [htail]; omega)
  simp only [String.utf8EncodeChar, hval]
  split
  · have hlead : (UInt8.ofNat c.toNat).toNat = c.toNat := by
      rw [UInt8.toNat_ofNat']
      omega
    rw [List.singleton_append, fromUtf8Lossy_one bs (by omega), hback _ hlead]
  · split
    · have hlead : (UInt8.ofNat (c.toNat / 64 % 32 + 192)).toNat = c.toNat / 64 + 192 := by
        rw [UInt8.toNat_ofNat']
        omega
      rw [List.cons_append, List.singleton_append,
        fromUtf8Lossy_two bs (by omega) (hcont _), assemble, hback]
      simp only [List.foldl_cons, List.foldl_nil, htail, hlead]
      omega
    · split
      · have hlead : (UInt8.ofNat (c.toNat / 4096 % 16 + 224)).toNat = c.toNat / 4096 + 224 := by
          rw [UInt8.toNat_ofNat']
          omega
        have hsecond := @secondOk_of_toNat (UInt8.ofNat (c.toNat / 4096 % 16 + 224))
          (UInt8.ofNat (c.toNat / 64 % 64 + 128)) (by rw [htail]; omega)
          (by rw [htail, hlead]; omega) (by rw [htail, hlead]; omega)
          (by rw [htail, hlead]; omega) (by rw [htail, hlead]; omega)
        rw [List.cons_append, List.cons_append, List.singleton_append,
          fromUtf8Lossy_three bs (by omega) hsecond (hcont _), assemble, hback]
        simp only [List.foldl_cons, List.foldl_nil, htail, hlead]
        omega
      · have hlead : (UInt8.ofNat (c.toNat / 262144 % 8 + 240)).toNat = c.toNat / 262144 + 240 := by
          rw [UInt8.toNat_ofNat']
          omega
        have hsecond := @secondOk_of_toNat (UInt8.ofNat (c.toNat / 262144 % 8 + 240))
          (UInt8.ofNat (c.toNat / 4096 % 64 + 128)) (by rw [htail]; omega)
          (by rw [htail, hlead]; omega) (by rw [htail, hlead]; omega)
          (by rw [htail, hlead]; omega) (by rw [htail, hlead]; omega)
        rw [List.cons_append, List.cons_append, List.cons_append, List.singleton_append,
          fromUtf8Lossy_four bs (by omega) hsecond (hcont _) (hcont _), assemble, hback]
        simp only [List.foldl_cons, List.foldl_nil, htail, hlead]
        omega

/-- **Encoded text is read back**, whatever follows it. -/
theorem fromUtf8Lossy_utf8_append (s : Str) (bs : Bytes) :
    fromUtf8Lossy (utf8 s ++ bs) = s ++ fromUtf8Lossy bs := by
  induction s with
  | nil => rfl
  | cons c s ih =>
    rw [utf8_cons, List.append_assoc, fromUtf8Lossy_utf8EncodeChar, ih]
    rfl

theorem fromUtf8Lossy_utf8 (s : Str) : fromUtf8Lossy (utf8 s) = s := by
  have h := fromUtf8Lossy_utf8_append s []
  rw [List.append_nil] at h
  rw [h]
  exact List.append_nil s

end Gurted
