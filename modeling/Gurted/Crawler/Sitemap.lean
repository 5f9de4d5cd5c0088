import Gurted.Std.Slice

/-!
# Sitemaps (`gurtd/src/crawler/sitemap.rs`)

`parse_sitemap_xml` is a loop over slices of the text. Its body is `nextLoc`;
`none` is the panic of a slice, which `parseSitemapXml_isSome` excludes.
-/

namespace Gurted.Crawler

open Gurted

/-- One turn of the loop: the text between the next `<loc ..>` and its `</loc>`, and
what comes after it. `some none` leaves the loop. -/
def nextLoc (rest : Str) : Option (Option (Str × Str)) :=
  match rest.find "<loc".toList with
  | none => some none
  | some start => do
      let afterStart ← rest.sliceFrom start
      match afterStart.find ">".toList with
      | none => return none
      | some gt =>
          let afterTag ← afterStart.sliceFrom (gt + 1)
          match afterTag.find "</loc>".toList with
          | none => return none
          | some stop =>
              let url ← afterTag.sliceTo stop
              -- six bytes: `</loc>`
              let rest ← afterTag.sliceFrom (stop + 6)
              return some (url, rest)

/-- What a turn does: it leaves the loop or takes one element. -/
theorem nextLoc_cases (rest : Str) :
    nextLoc rest = some none ∨
      ∃ pre tag url rest',
        rest = pre ++ (tag ++ (">".toList ++ (url ++ ("</loc>".toList ++ rest')))) ∧
        nextLoc rest = some (some (url, rest')) := by
  rw [nextLoc]
  cases hstart : rest.find "<loc".toList with
  | none => exact .inl rfl
  | some start =>
    obtain ⟨pre, after, hrest, -, rfl⟩ := Str.exists_of_find hstart
    generalize hafter : "<loc".toList ++ after = afterStart at hrest
    subst hrest
    simp only [Str.sliceFrom_append, Option.bind_eq_bind, Option.bind_some]
    cases hgt : Str.find afterStart ">".toList with
    | none => exact .inl rfl
    | some gt =>
      obtain ⟨tag, afterTag, rfl, -, rfl⟩ := Str.exists_of_find hgt
      have hone : Str.byteLen tag + 1 = Str.byteLen tag + Str.byteLen ">".toList := rfl
      simp only [hone, Str.sliceFrom_append_append, Option.bind_some]
      cases hstop : Str.find afterTag "</loc>".toList with
      | none => exact .inl rfl
      | some stop =>
        obtain ⟨url, rest', rfl, -, rfl⟩ := Str.exists_of_find hstop
        have hsix : Str.byteLen url + 6 = Str.byteLen url + Str.byteLen "</loc>".toList := rfl
        simp only [hsix, Str.sliceFrom_append_append, Str.sliceTo_append, Option.bind_some]
        exact .inr ⟨pre, tag, url, rest', rfl, rfl⟩

theorem nextLoc_length {rest url rest' : Str} (h : nextLoc rest = some (some (url, rest'))) :
    rest'.length < rest.length := by
  rcases nextLoc_cases rest with hstop | ⟨pre, tag, url', rest'', hrest, hnext⟩
  · rw [hstop] at h
    cases h
  · rw [hnext] at h
    cases h
    simp only [hrest, List.length_append]
    have : 0 < ">".toList.length := by decide
    omega

/-- `parse_sitemap_xml`. -/
def parseSitemapXml (rest : Str) : Option (List Str) :=
  match _h : nextLoc rest with
  | none => none
  | some none => some []
  | some (some (url, rest')) =>
      (parseSitemapXml rest').map fun out =>
        let u := url.trim
        if u.isEmpty then out else u :: out
termination_by rest.length
decreasing_by exact nextLoc_length _h

theorem parseSitemapXml_of_stop {rest : Str} (h : nextLoc rest = some none) :
    parseSitemapXml rest = some [] := by
  rw [parseSitemapXml]
  split
  · next heq => rw [h] at heq; cases heq
  · rfl
  · next heq => rw [h] at heq; cases heq

theorem parseSitemapXml_of_next {rest url rest' : Str}
    (h : nextLoc rest = some (some (url, rest'))) :
    parseSitemapXml rest = (parseSitemapXml rest').map fun out =>
      if url.trim.isEmpty then out else url.trim :: out := by
  rw [parseSitemapXml]
  split
  · next heq => rw [h] at heq; cases heq
  · next heq => rw [h] at heq; cases heq
  · next heq =>
    rw [h] at heq
    cases heq
    rfl

/-- **No panic**: every slice is at a boundary. -/
theorem parseSitemapXml_isSome (xml : Str) : (parseSitemapXml xml).isSome = true := by
  fun_induction parseSitemapXml xml with
  | case1 rest h =>
    rcases nextLoc_cases rest with hstop | ⟨pre, tag, url, rest', -, hnext⟩
    · rw [hstop] at h
      cases h
    · rw [hnext] at h
      cases h
  | case2 => rfl
  | case3 rest url rest' h ih => rw [Option.isSome_map, ih]

/-! ## One element -/

/-- The turn that meets an element: markup without `<loc`, the opening tag with
its attributes, and a content that no tag interrupts. -/
theorem nextLoc_element {before attrs content : Str} (hbefore : ¬ "<loc".toList <:+: before)
    (hattrs : '>' ∉ attrs) (hcontent : '<' ∉ content) (rest : Str) :
    nextLoc (before ++ ("<loc".toList ++
        (attrs ++ (">".toList ++ (content ++ ("</loc>".toList ++ rest))))))
      = some (some (content, rest)) := by
  have hstart : ∀ s, Str.find (before ++ ("<loc".toList ++ s)) "<loc".toList
      = some (Str.byteLen before) := fun s =>
    Str.find_append (by decide) (by decide) hbefore (List.prefix_append _ _)
  have hgt : ∀ s, Str.find ("<loc".toList ++ (attrs ++ (">".toList ++ s))) ">".toList
      = some (Str.byteLen ("<loc".toList ++ attrs)) := by
    intro s
    rw [← List.append_assoc]
    refine Str.find_append (by decide) (by decide) ?_ (List.prefix_append _ _)
    intro hin
    have hmem : '>' ∈ "<loc".toList ++ attrs := hin.subset (by decide)
    rcases List.mem_append.mp hmem with hmem | hmem
    · exact absurd hmem (by decide)
    · exact hattrs hmem
  have htag : ∀ s, Str.sliceFrom (Str.byteLen ("<loc".toList ++ attrs) + 1)
      ("<loc".toList ++ (attrs ++ (">".toList ++ s))) = some s := by
    intro s
    rw [← List.append_assoc]
    exact Str.sliceFrom_append_append _ ">".toList s
  have hstop : Str.find (content ++ ("</loc>".toList ++ rest)) "</loc>".toList
      = some (Str.byteLen content) :=
    Str.find_append (by decide) (by decide) (fun hin => hcontent (hin.subset (by decide)))
      (List.prefix_append _ _)
  have hsix : Str.byteLen content + 6 = Str.byteLen content + Str.byteLen "</loc>".toList := rfl
  simp only [nextLoc, hstart, Str.sliceFrom_append, hgt, htag, hstop, hsix,
    Str.sliceFrom_append_append, Str.sliceTo_append, Option.bind_eq_bind, Option.bind_some]
  rfl

/-! ## Sitemaps of plain elements -/

/-- The sitemap that lists the URLs. -/
def locs (urls : List Str) : Str :=
  urls.flatMap fun url => "<loc>".toList ++ (url ++ "</loc>".toList)

theorem nextLoc_loc {url : Str} (h : '<' ∉ url) (rest : Str) :
    nextLoc ("<loc>".toList ++ (url ++ ("</loc>".toList ++ rest))) = some (some (url, rest)) :=
  nextLoc_element (show ¬ "<loc".toList <:+: [] by decide) List.not_mem_nil h rest

theorem parseSitemapXml_locs {urls : List Str} (h : ∀ url ∈ urls, '<' ∉ url) :
    parseSitemapXml (locs urls) = some ((urls.map Str.trim).filter (!·.isEmpty)) := by
  induction urls with
  | nil => exact parseSitemapXml_of_stop rfl
  | cons url urls ih =>
    obtain ⟨hurl, hurls⟩ := List.forall_mem_cons.mp h
    have hnext := nextLoc_loc hurl (locs urls)
    rw [locs, List.flatMap_cons, List.append_assoc, List.append_assoc, ← locs,
      parseSitemapXml_of_next hnext, ih hurls, Option.map_some, List.map_cons, List.filter_cons]
    cases url.trim.isEmpty <;> rfl

/-! ## Well-formed sitemaps -/

/-- An element `<loc ATTRS>` with its URL in padding, and the markup before it. -/
structure LocEntry where
  before : Str
  attrs : Str
  padLeft : Str
  url : Str
  padRight : Str
  before_noLoc : ¬ "<loc".toList <:+: before
  attrs_plain : ∀ c ∈ attrs, c ≠ '<' ∧ c ≠ '>'
  padLeft_ws : ∀ c ∈ padLeft, Str.isWhitespace c = true
  url_plain : '<' ∉ url
  url_notBlank : url.trim ≠ []
  padRight_ws : ∀ c ∈ padRight, Str.isWhitespace c = true

/-- What stands between the tags. -/
def LocEntry.content (e : LocEntry) : Str := e.padLeft ++ (e.url ++ e.padRight)

def LocEntry.text (e : LocEntry) : Str :=
  e.before ++ ("<loc".toList ++
    (e.attrs ++ (">".toList ++ (e.content ++ "</loc>".toList))))

theorem LocEntry.content_plain (e : LocEntry) : '<' ∉ e.content := by
  have hpad : ∀ pad : Str, (∀ c ∈ pad, Str.isWhitespace c = true) → '<' ∉ pad := by
    intro pad hpad hmem
    exact absurd (hpad '<' hmem) (by decide)
  intro hmem
  rcases List.mem_append.mp hmem with hmem | hmem
  · exact hpad e.padLeft e.padLeft_ws hmem
  · rcases List.mem_append.mp hmem with hmem | hmem
    · exact e.url_plain hmem
    · exact hpad e.padRight e.padRight_ws hmem

theorem parseSitemapXml_entry (e : LocEntry) (rest : Str) :
    parseSitemapXml (e.text ++ rest) = (parseSitemapXml rest).map (e.url.trim :: ·) := by
  have hattrs : '>' ∉ e.attrs := fun hmem => (e.attrs_plain '>' hmem).2 rfl
  have hnext : nextLoc (e.text ++ rest) = some (some (e.content, rest)) := by
    have hstep := nextLoc_element e.before_noLoc hattrs e.content_plain rest
    simpa only [LocEntry.text, List.append_assoc] using hstep
  have htrim : e.content.trim = e.url.trim := Str.trim_padded e.padLeft_ws e.padRight_ws e.url
  have hempty : e.url.trim.isEmpty = false := by simpa using e.url_notBlank
  rw [parseSitemapXml_of_next hnext, htrim]
  simp only [hempty, Bool.false_eq_true, if_false]

/-- Elements one after the other, each resumed right behind the one before. -/
theorem parseSitemapXml_entries (entries : List LocEntry) (tail : Str) :
    parseSitemapXml (entries.flatMap LocEntry.text ++ tail)
      = (parseSitemapXml tail).map ((entries.map fun e => e.url.trim) ++ ·) := by
  induction entries with
  | nil =>
    show parseSitemapXml tail = (parseSitemapXml tail).map fun out => out
    rw [Option.map_id_fun']
    rfl
  | cons e entries ih =>
    rw [List.flatMap_cons, List.append_assoc, parseSitemapXml_entry, ih, Option.map_map]
    rfl

/-- **Extraction is exact** on well-formed sitemaps, and no input makes a slice
panic. -/
theorem parseSitemapXml_exact :
    (∀ (entries : List LocEntry) (tail : Str), ¬ "<loc".toList <:+: tail →
        parseSitemapXml (entries.flatMap LocEntry.text ++ tail)
          = some (entries.map fun e => e.url.trim))
      ∧ ∀ xml : Str, (parseSitemapXml xml).isSome = true := by
  refine ⟨?_, parseSitemapXml_isSome⟩
  intro entries tail htail
  have hstop : nextLoc tail = some none := by
    rw [nextLoc, Str.find_eq_none_iff.mpr htail]
  rw [parseSitemapXml_entries, parseSitemapXml_of_stop hstop, Option.map_some, List.append_nil]

/-- `<url><loc x="1"> gurt://a/ </loc>`. -/
def firstEntry : LocEntry where
  before := "<url>".toList
  attrs := " x=\"1\"".toList
  padLeft := " ".toList
  url := "gurt://a/".toList
  padRight := " \n".toList
  before_noLoc := by decide
  attrs_plain := fun _ hc =>
    ⟨ne_of_mem_of_not_mem hc (by decide), ne_of_mem_of_not_mem hc (by decide)⟩
  padLeft_ws := List.all_eq_true.mp (by decide)
  url_plain := by decide
  url_notBlank := by decide
  padRight_ws := List.all_eq_true.mp (by decide)

/-- The same element behind the end of the first, with another URL. -/
def secondEntry : LocEntry :=
  { firstEntry with
    before := "</url><url>".toList
    url := "gurt://b/?x>1".toList
    before_noLoc := by decide
    url_plain := by decide
    url_notBlank := by decide }

theorem parseSitemapXml_exact_twoEntries :
    parseSitemapXml ([firstEntry, secondEntry].flatMap LocEntry.text ++ "</url>".toList)
        = some ["gurt://a/".toList, "gurt://b/?x>1".toList] :=
  parseSitemapXml_exact.1 [firstEntry, secondEntry] "</url>".toList (by decide)

end Gurted.Crawler
