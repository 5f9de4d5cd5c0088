import Mathlib.Data.List.DropRight
import Gurted.Router.AddSite
import Gurted.Std.Scan

/-!
# The submission form (`gurtd/ui/assets/domains.lua`)

The page cleans what was typed up and checks it before it submits; the server trims, lowers
and checks again. `form_matches_server` says that the two agree: the page submits exactly
the spellings of the domains the server takes over, and each of them as this domain.
-/

namespace Gurted.Router

open Gurted Gurted.Api

/-! ## The page -/

/-- `%s` in the C locale. -/
def isSpaceByte (b : UInt8) : Bool := (9 ≤ b.toNat && b.toNat ≤ 13) || b == 32

/-- `[%w%.-]` in the C locale. -/
def isNameByte (b : UInt8) : Bool :=
  (48 ≤ b.toNat && b.toNat ≤ 57) || (65 ≤ b.toNat && b.toNat ≤ 90) ||
    (97 ≤ b.toNat && b.toNat ≤ 122) || b == 46 || b == 45

def lowerByte (b : UInt8) : UInt8 := if 65 ≤ b.toNat && b.toNat ≤ 90 then b + 32 else b

/-- `string.lower` in the C locale. -/
def luaLower (s : Bytes) : Bytes := s.map lowerByte

def gurtPrefix : Bytes := utf8 "gurt://".toList

/-- `normalize_domain`. -/
def normalizeDomain (raw : Bytes) : Bytes :=
  let trimmed := (raw.dropWhile isSpaceByte).rdropWhile isSpaceByte
  if trimmed.isEmpty then []
  else
    let trimmed := if (luaLower trimmed).take 7 = gurtPrefix then trimmed.drop 7 else trimmed
    luaLower (trimmed.rdropWhile (· == 47))

/-- `validate_domain`. -/
def validateDomain (domain : Bytes) : Bool :=
  if domain.isEmpty then false
  else if 255 < domain.length then false
  else if domain.any (!isNameByte ·) then false
  else true

/-- `handle` of the form: the domain it submits. -/
def formDomain (value : Bytes) : Option Bytes :=
  let domain := normalizeDomain value
  if validateDomain domain then some domain else none

/-- What is typed for a domain: white space, the scheme or nothing, the domain, in any letter
case, then slashes and white space. -/
def Spells (raw domain : Bytes) : Prop :=
  ∃ before scheme name slashes after, raw = before ++ (scheme ++ name ++ slashes) ++ after ∧
    (∀ b ∈ before, isSpaceByte b = true) ∧ (∀ b ∈ after, isSpaceByte b = true) ∧
    (scheme = [] ∨ luaLower scheme = gurtPrefix) ∧ (∀ b ∈ slashes, b = 47) ∧
    luaLower name = domain

/-! ## Ends of lists -/

section Ends
variable {α : Type*} {p : α → Bool}

theorem rdropWhile_append {l s : List α} (hs : ∀ x ∈ s, p x = true)
    (hl : ∀ x ∈ l.getLast?, p x = false) : (l ++ s).rdropWhile p = l := by
  induction s using List.reverseRecOn with
  | nil =>
    rw [List.append_nil, List.rdropWhile_eq_self_iff]
    intro hne
    simp [hl _ (List.getLast?_eq_some_getLast hne)]
  | append_singleton s x ih =>
    rw [← List.append_assoc, List.rdropWhile_concat_pos _ _ _ (hs x (by simp))]
    exact ih fun y hy => hs y (by simp [hy])

theorem exists_rdropWhile (p : α → Bool) (l : List α) :
    ∃ s, l = l.rdropWhile p ++ s ∧ ∀ x ∈ s, p x = true := by
  induction l using List.reverseRecOn with
  | nil => exact ⟨[], rfl, by simp⟩
  | append_singleton l x ih =>
    by_cases hx : p x = true
    · obtain ⟨s, hl, hs⟩ := ih
      refine ⟨s ++ [x], ?_, fun y hy => ?_⟩
      · rw [List.rdropWhile_concat_pos _ _ _ hx, ← List.append_assoc, ← hl]
      · rcases List.mem_append.mp hy with hy | hy
        · exact hs y hy
        · exact List.mem_singleton.mp hy ▸ hx
    · exact ⟨[], by rw [List.rdropWhile_concat_neg _ _ _ hx, List.append_nil], by simp⟩

/-- What is between the ends is left. -/
theorem strip_append {before core after : List α} (hbefore : ∀ x ∈ before, p x = true)
    (hafter : ∀ x ∈ after, p x = true) (hhead : ∀ x ∈ core.head?, p x = false)
    (hlast : ∀ x ∈ core.getLast?, p x = false) (hne : core ≠ []) :
    ((before ++ core ++ after).dropWhile p).rdropWhile p = core := by
  obtain ⟨x, rest, rfl⟩ := List.exists_cons_of_ne_nil hne
  rw [List.append_assoc, List.dropWhile_append_of_pos hbefore, List.cons_append,
    List.dropWhile_cons_of_neg (by simp [hhead x rfl]), ← List.cons_append]
  exact rdropWhile_append hafter hlast

theorem exists_strip (p : α → Bool) (l : List α) :
    ∃ before after, l = before ++ (l.dropWhile p).rdropWhile p ++ after ∧
      (∀ x ∈ before, p x = true) ∧ ∀ x ∈ after, p x = true := by
  obtain ⟨after, hdrop, hafter⟩ := exists_rdropWhile p (l.dropWhile p)
  refine ⟨l.takeWhile p, after, ?_, fun x hx => List.mem_takeWhile_imp hx, hafter⟩
  rw [List.append_assoc, ← hdrop, List.takeWhile_append_dropWhile]

end Ends

/-! ## Bytes of a domain -/

/-- What the page relies on of the bytes: the ones of a name are neither space nor slash and
have no colon for a lower case, and no byte of the scheme is space. -/
theorem byte_spec : ∀ n : Fin 256,
    isNameByte (lowerByte (UInt8.ofNat n)) = isNameByte (UInt8.ofNat n) ∧
    (isNameByte (UInt8.ofNat n) = true →
      isSpaceByte (UInt8.ofNat n) = false ∧ UInt8.ofNat n ≠ 47 ∧ lowerByte (UInt8.ofNat n) ≠ 58) ∧
    (isSpaceByte (UInt8.ofNat n) = true → lowerByte (UInt8.ofNat n) ∉ gurtPrefix) := by
  decide +kernel

theorem byte_spec_of (b : UInt8) :
    isNameByte (lowerByte b) = isNameByte b ∧
    (isNameByte b = true → isSpaceByte b = false ∧ b ≠ 47 ∧ lowerByte b ≠ 58) ∧
    (isSpaceByte b = true → lowerByte b ∉ gurtPrefix) := by
  have hspec := byte_spec ⟨b.toNat, b.toNat_lt⟩
  simp only [UInt8.ofNat_toNat] at hspec
  exact hspec

theorem validateDomain_iff {d : Bytes} :
    validateDomain d = true ↔ d ≠ [] ∧ d.length ≤ 255 ∧ ∀ b ∈ d, isNameByte b = true := by
  rw [validateDomain]
  by_cases hempty : d = []
  · simp [hempty]
  · by_cases hlong : 255 < d.length
    · simp [hempty, hlong]
    · simp [hempty, hlong, not_lt.mp hlong]

theorem nameBytes_of_lower {name : Bytes} (h : ∀ b ∈ luaLower name, isNameByte b = true) :
    ∀ b ∈ name, isNameByte b = true := by
  intro b hb
  rw [← (byte_spec_of b).1]
  exact h _ (List.mem_map_of_mem hb)

/-! ## What the page submits -/

theorem spells_normalizeDomain (raw : Bytes) (hne : normalizeDomain raw ≠ []) :
    Spells raw (normalizeDomain raw) := by
  obtain ⟨before, after, hraw, hbefore, hafter⟩ := exists_strip isSpaceByte raw
  revert hne
  rw [normalizeDomain]
  generalize (raw.dropWhile isSpaceByte).rdropWhile isSpaceByte = core at hraw
  intro hne
  have hcore : core.isEmpty = false := by
    by_contra hempty
    rw [Bool.not_eq_false] at hempty
    exact hne (by simp [hempty])
  simp only [hcore, Bool.false_eq_true, if_false]
  by_cases hscheme : (luaLower core).take 7 = gurtPrefix
  · rw [if_pos hscheme]
    obtain ⟨slashes, hrest, hslashes⟩ := exists_rdropWhile (· == (47 : UInt8)) (core.drop 7)
    refine ⟨before, core.take 7, _, slashes, after, ?_, hbefore, hafter, .inr ?_,
      fun b hb => beq_iff_eq.mp (hslashes b hb), rfl⟩
    · rw [List.append_assoc (core.take 7), ← hrest, List.take_append_drop]
      exact hraw
    · rw [← hscheme, luaLower, luaLower, List.map_take]
  · rw [if_neg hscheme]
    obtain ⟨slashes, hrest, hslashes⟩ := exists_rdropWhile (· == (47 : UInt8)) core
    refine ⟨before, [], _, slashes, after, ?_, hbefore, hafter, .inl rfl,
      fun b hb => beq_iff_eq.mp (hslashes b hb), rfl⟩
    rw [List.nil_append, ← hrest]
    exact hraw

theorem normalizeDomain_of_spells {raw d : Bytes} (h : Spells raw d)
    (hd : validateDomain d = true) : normalizeDomain raw = d := by
  obtain ⟨before, scheme, name, slashes, after, rfl, hbefore, hafter, hscheme, hslashes, rfl⟩ := h
  obtain ⟨hne, -, hlower⟩ := validateDomain_iff.mp hd
  have hname := nameBytes_of_lower hlower
  have hname_ne : name ≠ [] := by
    rintro rfl
    exact hne rfl
  have hcore : ∀ b ∈ scheme ++ name ++ slashes, isSpaceByte b = false := by
    intro b hb
    rcases List.mem_append.mp hb with hb | hb
    · rcases List.mem_append.mp hb with hb | hb
      · rcases hscheme with rfl | hscheme
        · cases hb
        · by_contra hspace
          rw [Bool.not_eq_false] at hspace
          exact (byte_spec_of b).2.2 hspace (hscheme ▸ List.mem_map_of_mem hb)
      · exact ((byte_spec_of b).2.1 (hname b hb)).1
    · rw [hslashes b hb]
      rfl
  have hstrip := strip_append hbefore hafter (fun b hb => hcore b (List.mem_of_head? hb))
    (fun b hb => hcore b (List.mem_of_getLast? hb)) (by simp [hname_ne])
  have hend : (name ++ slashes).rdropWhile (· == 47) = name := by
    refine rdropWhile_append (fun b hb => beq_iff_eq.mpr (hslashes b hb)) fun b hb => ?_
    simpa using ((byte_spec_of b).2.1 (hname b (List.mem_of_getLast? hb))).2.1
  rw [normalizeDomain, hstrip]
  have hempty : (scheme ++ name ++ slashes).isEmpty = false := by simp [hname_ne]
  simp only [hempty, Bool.false_eq_true, if_false]
  rcases hscheme with rfl | hscheme
  · -- without a scheme there is no colon
    have hno : (luaLower ([] ++ name ++ slashes)).take 7 ≠ gurtPrefix := by
      intro hstarts
      have hcolon : (58 : UInt8) ∈ luaLower ([] ++ name ++ slashes) :=
        List.mem_of_mem_take (by rw [hstarts]; decide)
      obtain ⟨b, hb, hlow⟩ := List.mem_map.mp hcolon
      rcases List.mem_append.mp hb with hb | hb
      · exact ((byte_spec_of b).2.1 (hname b hb)).2.2 hlow
      · rw [hslashes b hb] at hlow
        cases hlow
    rw [if_neg hno, List.nil_append, hend]
  · have hlength : scheme.length = 7 := by
      rw [← List.length_map lowerByte, ← luaLower, hscheme]
      rfl
    have hstarts : (luaLower (scheme ++ name ++ slashes)).take 7 = gurtPrefix := by
      rw [← hscheme, luaLower, luaLower, List.append_assoc, List.map_append,
        List.take_append_of_le_length (by simp [hlength]),
        List.take_of_length_le (by simp [hlength])]
    have hdrop : (scheme ++ name ++ slashes).drop 7 = name ++ slashes := by
      rw [List.append_assoc, ← hlength, List.drop_left]
    rw [if_pos hstarts, hdrop, hend]

/-- **What the page submits**: the valid domain that was spelled. -/
theorem formDomain_iff {raw d : Bytes} :
    formDomain raw = some d ↔ validateDomain d = true ∧ Spells raw d := by
  simp only [formDomain, Option.ite_none_right_eq_some, Option.some.injEq]
  constructor
  · rintro ⟨hvalid, rfl⟩
    exact ⟨hvalid, spells_normalizeDomain raw (validateDomain_iff.mp hvalid).1⟩
  · rintro ⟨hvalid, hspells⟩
    rw [normalizeDomain_of_spells hspells hvalid]
    exact ⟨hvalid, rfl⟩

/-! ## What the server makes of it -/

/-- A byte of a name in lower case is a character of a domain. -/
theorem char_of_byte_spec : ∀ n : Fin 256, isNameByte (UInt8.ofNat n) = true →
    utf8 [Char.ofNat (lowerByte (UInt8.ofNat n)).toNat] = [lowerByte (UInt8.ofNat n)] ∧
    ((Char.ofNat (lowerByte (UInt8.ofNat n)).toNat).isLower
      || (Char.ofNat (lowerByte (UInt8.ofNat n)).toNat).isDigit
      || Char.ofNat (lowerByte (UInt8.ofNat n)).toNat == '-'
      || Char.ofNat (lowerByte (UInt8.ofNat n)).toNat == '.') = true := by
  decide +kernel

/-- A character of a domain is one byte, which is its own lower case. -/
theorem byte_of_char_spec : ∀ n : Fin 128,
    ((Char.ofNat n).isLower || (Char.ofNat n).isDigit || Char.ofNat n == '-' || Char.ofNat n == '.')
      = true →
    utf8 [Char.ofNat n] = [UInt8.ofNat n] ∧ isNameByte (UInt8.ofNat n) = true ∧
      lowerByte (UInt8.ofNat n) = UInt8.ofNat n := by
  decide +kernel

theorem isValidDomain_iff {s : Str} : isValidDomain s = true ↔ s ≠ [] ∧ s.byteLen ≤ 255 ∧
    ∀ c ∈ s, (c.isLower || c.isDigit || c == '-' || c == '.') = true := by
  rw [isValidDomain]
  by_cases hempty : s = []
  · simp [hempty]
  · by_cases hlong : 255 < s.byteLen
    · simp [hempty, hlong]
    · simp [hempty, hlong, not_lt.mp hlong]

/-- The bytes of characters of a domain. -/
theorem utf8_domainChars {s : Str}
    (h : ∀ c ∈ s, (c.isLower || c.isDigit || c == '-' || c == '.') = true) :
    (∀ b ∈ utf8 s, isNameByte b = true) ∧ luaLower (utf8 s) = utf8 s := by
  induction s with
  | nil => exact ⟨by simp, rfl⟩
  | cons c s ih =>
    obtain ⟨hnames, hlower⟩ := ih fun d hd => h d (List.mem_cons_of_mem _ hd)
    have hc := h c (List.mem_cons_self ..)
    have hlt : c.toNat < 128 := by
      simp only [Bool.or_eq_true, beq_iff_eq] at hc
      rcases hc with ((hc | hc) | rfl) | rfl
      · have hrange := (Str.isLower_iff c).mp hc
        omega
      · have hrange : 48 ≤ c.toNat ∧ c.toNat ≤ 57 := Char.isDigit_iff_toNat.mp hc
        omega
      · decide
      · decide
    have hspec := byte_of_char_spec ⟨c.toNat, hlt⟩
    simp only [Char.ofNat_toNat] at hspec
    obtain ⟨hbyte, hname, hlow⟩ := hspec hc
    have hcons : utf8 (c :: s) = UInt8.ofNat c.toNat :: utf8 s := by
      rw [← List.singleton_append, utf8_append, hbyte, List.singleton_append]
    rw [hcons]
    refine ⟨fun b hb => ?_, ?_⟩
    · rcases List.mem_cons.mp hb with rfl | hb
      · exact hname
      · exact hnames b hb
    · rw [luaLower, List.map_cons, hlow, ← luaLower, hlower]

/-- Bytes of a name in lower case are the text of a domain. -/
theorem exists_domainChars {name : Bytes} (h : ∀ b ∈ name, isNameByte b = true) :
    ∃ s : Str, luaLower name = utf8 s ∧
      ∀ c ∈ s, (c.isLower || c.isDigit || c == '-' || c == '.') = true := by
  induction name with
  | nil => exact ⟨[], rfl, by simp⟩
  | cons b name ih =>
    obtain ⟨s, hs, hchars⟩ := ih fun c hc => h c (List.mem_cons_of_mem _ hc)
    have hspec := char_of_byte_spec ⟨b.toNat, b.toNat_lt⟩
    simp only [UInt8.ofNat_toNat] at hspec
    obtain ⟨hbyte, hchar⟩ := hspec (h b (List.mem_cons_self ..))
    have hcons : utf8 (Char.ofNat (lowerByte b).toNat :: s)
        = utf8 [Char.ofNat (lowerByte b).toNat] ++ utf8 s := by
      rw [← utf8_append]
      rfl
    refine ⟨Char.ofNat (lowerByte b).toNat :: s, ?_, fun c hc => ?_⟩
    · rw [hcons, hbyte, ← hs]
      rfl
    · rcases List.mem_cons.mp hc with rfl | hc
      · exact hchar
      · exact hchars c hc

theorem exists_isValidDomain {raw d : Bytes} (h : formDomain raw = some d) :
    ∃ s, d = utf8 s ∧ isValidDomain s = true := by
  obtain ⟨hvalid, before, scheme, name, slashes, after, -, -, -, -, -, rfl⟩ := formDomain_iff.mp h
  obtain ⟨hne, hlength, hbytes⟩ := validateDomain_iff.mp hvalid
  obtain ⟨s, hs, hchars⟩ := exists_domainChars (nameBytes_of_lower hbytes)
  rw [hs] at hne hlength ⊢
  refine ⟨s, rfl, isValidDomain_iff.mpr ⟨?_, ?_, hchars⟩⟩
  · rintro rfl
    exact hne rfl
  · rwa [← length_utf8]

/-- A valid domain spells itself. -/
theorem formDomain_utf8 {s : Str} (h : isValidDomain s = true) :
    formDomain (utf8 s) = some (utf8 s) := by
  obtain ⟨hne, hlength, hchars⟩ := isValidDomain_iff.mp h
  obtain ⟨hbytes, hlower⟩ := utf8_domainChars hchars
  refine formDomain_iff.mpr ⟨validateDomain_iff.mpr ⟨utf8_ne_nil hne, ?_, hbytes⟩, ?_⟩
  · rwa [length_utf8]
  · exact ⟨[], [], utf8 s, [], [], by simp, by simp, by simp, .inl rfl, by simp, hlower⟩

/-- A request with the limiter's leave is answered by its body, and hands its domain on. -/
theorem handleAddSite_of_allowed {env : AddSiteEnv} {st : AddSiteState} {v : SiteRequest} {s : Str}
    (hallowed : (st.limiter.allow v.attempt).1 = true)
    (hs : extractDomainFromBody env v.req.body = some s) :
    (handleAddSite env st v.req (some v.peer) v.now).1
      = ⟨.ok, [("content-type".toList, "application/json".toList)], env.acceptedBody s⟩ ∧
    (handleAddSite env st v.req (some v.peer) v.now).2.enqueued = st.enqueued ++ [s] := by
  rw [handleAddSite_eq, if_pos hallowed, bodyAnswer, hs]
  exact ⟨rfl, rfl⟩

/-- **The form and the endpoint agree.** When the server reads the JSON text of the page for a
valid domain as what the page has written, and lowers no such domain: whatever is typed, the
page submits it only as a valid domain, which the server takes over as it is and answers
`200` whenever the limiter lets the request through; it does so exactly for the spellings of
the domain; and every domain that the server takes over, whatever the body was, can be typed
as it is. -/
theorem form_matches_server (env : AddSiteEnv) (stringify : Bytes → Bytes)
    (hjson : ∀ s, isValidDomain s = true →
      env.fromSlice (stringify (utf8 s)) = some (.object [("domain".toList, .string s)]))
    (hlower : ∀ s, isValidDomain s = true → env.toLowercase s = s) :
    (∀ raw d, formDomain raw = some d → ∃ s, d = utf8 s ∧ isValidDomain s = true ∧
      extractDomainFromBody env (stringify d) = some s ∧
      ∀ (st : AddSiteState) (v : SiteRequest), v.req.body = stringify d →
        (st.limiter.allow v.attempt).1 = true →
        let out := handleAddSite env st v.req (some v.peer) v.now
        out.1 = ⟨.ok, [("content-type".toList, "application/json".toList)],
          env.acceptedBody s⟩ ∧ out.2.enqueued = st.enqueued ++ [s]) ∧
    (∀ s, isValidDomain s = true → ∀ raw, formDomain raw = some (utf8 s) ↔ Spells raw (utf8 s)) ∧
    ∀ body s, extractDomainFromBody env body = some s → formDomain (utf8 s) = some (utf8 s) := by
  have hextract : ∀ s, isValidDomain s = true →
      extractDomainFromBody env (stringify (utf8 s)) = some s := by
    intro s hs
    have hname : namedDomain (.object [("domain".toList, .string s)]) = s := by
      simp [namedDomain, Json.get, Json.asStr]
    have htrim : s.trim = s := Str.trim_of_noWs fun c hc =>
      (isValidDomain_char ((isValidDomain_iff.mp hs).2.2 c hc)).1
    rw [extractDomainFromBody, hjson s hs, Option.bind_some]
    simp only [hname, htrim, hlower s hs, hs, if_true]
  refine ⟨fun raw d hd => ?_, fun s hs raw => ?_, fun body s hs => ?_⟩
  · obtain ⟨s, rfl, hs⟩ := exists_isValidDomain hd
    refine ⟨s, rfl, hs, hextract s hs, fun st v hbody hallowed => ?_⟩
    exact handleAddSite_of_allowed hallowed (hbody ▸ hextract s hs)
  · rw [formDomain_iff]
    exact and_iff_right (formDomain_iff.mp (formDomain_utf8 hs)).1
  · exact formDomain_utf8 (isValidDomain_of_extract hs)

/-- The text of the page for a domain. -/
def domainObject (d : Bytes) : Bytes :=
  utf8 "\x7b\"domain\":\"".toList ++ d ++ utf8 "\"\x7d".toList

/-- A parser that knows these texts. -/
def domainObjects : AddSiteEnv where
  fromSlice body :=
    (fromUtf8 ((body.drop 11).take (body.length - 13))).map fun s =>
      .object [("domain".toList, .string s)]
  toLowercase := Str.toAsciiLowercase
  acceptedBody d :=
    utf8 ("\x7b\"domain\":\"".toList ++ d ++ "\",\"status\":\"accepted\"\x7d".toList)

theorem form_matches_server_typed :
    ∃ s, utf8 "a.b".toList = utf8 s ∧ isValidDomain s = true ∧
      extractDomainFromBody domainObjects (domainObject (utf8 "a.b".toList)) = some s ∧
      ∀ (st : AddSiteState) (v : SiteRequest), v.req.body = domainObject (utf8 "a.b".toList) →
        (st.limiter.allow v.attempt).1 = true →
        let out := handleAddSite domainObjects st v.req (some v.peer) v.now
        out.1 = ⟨.ok, [("content-type".toList, "application/json".toList)],
          domainObjects.acceptedBody s⟩ ∧ out.2.enqueued = st.enqueued ++ [s] :=
  (form_matches_server domainObjects domainObject
    (fun s _ => by
      have hlength : (domainObject (utf8 s)).length - 13 = (utf8 s).length := by
        have hopen : (utf8 "\x7b\"domain\":\"".toList).length = 11 := by decide
        have hclose : (utf8 "\"\x7d".toList).length = 2 := by decide
        rw [domainObject, List.length_append, List.length_append, hopen, hclose]
        omega
      have hdrop : (domainObject (utf8 s)).drop 11 = utf8 s ++ utf8 "\"\x7d".toList := by
        rw [domainObject, List.append_assoc]
        rfl
      show (fromUtf8 _).map _ = _
      rw [hlength, hdrop, List.take_left, fromUtf8_utf8]
      rfl)
    (fun s hs => (List.map_congr_left fun c hc =>
      (isValidDomain_char ((isValidDomain_iff.mp hs).2.2 c hc)).2).trans (List.map_id s))).1
    (utf8 " GURT://A.b// ".toList) _ (by decide +kernel)

end Gurted.Router
