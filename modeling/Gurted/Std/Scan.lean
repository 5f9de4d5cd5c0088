import Gurted.Std.Slice
import Gurted.Std.Utf8

/-!
# Scanning by byte indices

A scanner that walks an index over `as_bytes` and slices the text with it stays on
character boundaries as long as it stops at ASCII bytes: what it skips byte by byte it
skips character by character (`skipWhile_append`).
-/

namespace Gurted

theorem length_utf8 (s : Str) : (utf8 s).length = s.byteLen := by
  induction s with
  | nil => rfl
  | cons c s ih =>
    rw [utf8_cons, List.length_append, ih, String.length_utf8EncodeChar, Str.byteLen_cons]

/-- `while i < bytes.len() && p(bytes[i]) { i += 1 }`. -/
def skipWhile (p : UInt8 → Bool) (bytes : Bytes) (i : Nat) : Nat :=
  i + ((bytes.drop i).takeWhile p).length

/-- `p` says of every byte of a character what `q` says of the character. -/
def Agrees (p : UInt8 → Bool) (q : Char → Bool) : Prop :=
  ∀ c, ∀ b ∈ String.utf8EncodeChar c, p b = q c

namespace Agrees
variable {p p' : UInt8 → Bool} {q q' : Char → Bool}

theorem beq {b : UInt8} {c : Char} (hbc : b.toNat = c.toNat) (hlt : b.toNat < 128) :
    Agrees (· == b) (· == c) := by
  intro d b' hb'
  have henc : String.utf8EncodeChar c = [b] := by
    have hc : c.val.toNat = b.toNat := hbc.symm
    have hle : c.val.toNat ≤ 127 := by omega
    rw [String.utf8EncodeChar, if_pos hle, hc]
    exact congrArg (fun b => [b]) UInt8.ofNat_toNat
  have hiff : b' = b ↔ d = c := by
    constructor
    · rintro rfl
      exact Char.toNat_inj.mp ((toNat_of_mem_utf8EncodeChar hb' hlt).trans hbc)
    · rintro rfl
      rwa [henc, List.mem_singleton] at hb'
  show (b' == b) = (d == c)
  rw [Bool.eq_iff_iff, beq_iff_eq, beq_iff_eq, hiff]

theorem not (h : Agrees p q) : Agrees (fun b => !p b) fun c => !q c :=
  fun c b hb => congrArg _ (h c b hb)

theorem or (h : Agrees p q) (h' : Agrees p' q') :
    Agrees (fun b => p b || p' b) fun c => q c || q' c :=
  fun c b hb => congrArg₂ _ (h c b hb) (h' c b hb)

theorem takeWhile_utf8 (h : Agrees p q) (s : Str) :
    (utf8 s).takeWhile p = utf8 (s.takeWhile q) := by
  induction s with
  | nil => rfl
  | cons c s ih =>
    rw [utf8_cons, List.takeWhile_cons]
    cases hc : q c with
    | true =>
      have hall : ∀ b ∈ String.utf8EncodeChar c, p b = true := fun b hb => (h c b hb).trans hc
      rw [List.takeWhile_append_of_pos hall, ih, if_pos rfl, utf8_cons]
    | false =>
      obtain ⟨b, bs, hcons⟩ := List.exists_cons_of_ne_nil (String.utf8EncodeChar_ne_nil (c := c))
      have hb : p b = false := (h c b (hcons ▸ List.mem_cons_self)).trans hc
      rw [hcons, List.cons_append, List.takeWhile_cons, hb]
      rfl

/-- The index stops right behind the characters that are skipped. -/
theorem skipWhile_append (h : Agrees p q) (pre s : Str) :
    skipWhile p (utf8 (pre ++ s)) pre.byteLen = Str.byteLen (pre ++ s.takeWhile q) := by
  rw [skipWhile, utf8_append, ← length_utf8 pre, List.drop_left, h.takeWhile_utf8, length_utf8,
    length_utf8, Str.byteLen_append]

end Agrees

/-- The byte behind a part of a text is the first one of the next character. -/
theorem exists_getElem?_utf8 (pre : Str) (c : Char) (s : Str) :
    ∃ b ∈ String.utf8EncodeChar c, (utf8 (pre ++ c :: s))[pre.byteLen]? = some b := by
  obtain ⟨b, bs, hcons⟩ := List.exists_cons_of_ne_nil (String.utf8EncodeChar_ne_nil (c := c))
  refine ⟨b, hcons ▸ List.mem_cons_self, ?_⟩
  rw [utf8_append, utf8_cons, hcons, ← length_utf8, List.getElem?_append_right (Nat.le_refl _),
    Nat.sub_self]
  rfl

/-- The slice between two parts of a text. -/
theorem Str.get_append (pre s rest : Str) :
    Str.get (byteLen pre) (byteLen (pre ++ s)) (pre ++ (s ++ rest)) = some s := by
  have hle : byteLen pre ≤ byteLen (pre ++ s) := by
    rw [byteLen_append]
    exact Nat.le_add_right _ _
  rw [Str.get, if_pos hle, sliceFrom_append, Option.bind_some, byteLen_append,
    Nat.add_sub_cancel_left, sliceTo_append]

end Gurted
