import Gurted.Router.Search
import Gurted.Router.Util

/-!
# The results page (`render_search_ssr` in `gurtd/src/router/ui.rs`)

The page is put together from fixed text and from escaped text. What it has of
markup comes from the fixed text, so it depends on the number of results only.
-/

namespace Gurted.Router

open Gurted Gurted.Api Gurted.Query Gurted.Index Gurted.Search

variable {S : Type*}

/-! The text of the two `format!`s between their arguments. -/

def itemHref : Str :=
  String.toList (
    "<li style=\"w-full rounded border border-[#202637] bg-[#0f1526] hover:bg-[#111a2e] "
    ++ "p-3 flex flex-col\">\n"
    ++ "                <a href=\"")

def itemTitle : Str :=
  "\" style=\"text-[#e6e6f0] hover:text-[#6366f1] font-bold\">".toList

def itemUrl : Str :=
  String.toList (
    "</a>\n"
    ++ "                <p style=\"text-sm text-[#808080] mt-1\">")

def itemEnd : Str :=
  String.toList (
    "</p>\n"
    ++ "            </li>")

def pageTitle : Str :=
  String.toList (
    "<head><meta charset=\"utf-8\"/>\n"
    ++ "  <font name=\"playfair\" "
    ++ "src=\"https://fonts.gstatic.com/l/font?kit=nuFiD-vYSZviVYUb_rj3ij__anPXPT7KnEkQ2Fo0X"
    ++ "cXumgW2Kb6JkDjEdDrmYdycAeI\" /><title>Results - ")

def pageList : Str :=
  String.toList (
    "</title></head>\n"
    ++ "                \n"
    ++ "<body style=\"bg-[#1a1a1a] text-[#d9d9d9] font-sans\">\n"
    ++ "  <div style=\"max-w-[1600px] mx-auto p-8 flex flex-col items-center justify-center "
    ++ "gap-16 h-full\">\n"
    ++ "    <h1 style=\"text-4xl font-bold font-playfair\">google.co</h1>\n"
    ++ "    <form id=\"qform\" style=\"flex items-center gap-2\">\n"
    ++ "      <input id=\"value\" name=\"q\" type=\"text\" placeholder=\"Search...\" "
    ++ "autofocus autocomplete=\"off\" style=\"w-30 flex-1 min-w-0 p-3 bg-[#303030] "
    ++ "text-[#e6e6f0] rounded border border-[#353535]\" />\n"
    ++ "      <button type=\"submit\" id=\"submit\" style=\"bg-[#a0a0a0] text-[#1a1a1a] "
    ++ "rounded px-5 py-3\">Search</button>\n"
    ++ "    </form>\n"
    ++ "    <ul id=\"results\" style=\"mt-4 flex flex-col gap-2 items-stretch w-full "
    ++ "list-none m-0 p-0\">")

def pageEnd : Str :=
  String.toList (
    "</ul>\n"
    ++ "    <div style=\"inline-flex gap-4 text-xs text-[#808080] mt-40\">\n"
    ++ "      <a href=\"/domains\" style=\"hover:text-[#6366f1] text-xs "
    ++ "text-[#808080]\">Submit a domain</a>\n"
    ++ "      <span style=\"text-xs text-[#808080]\">•</span>\n"
    ++ "      <a href=\"/domains\" style=\"hover:text-[#6366f1] text-xs "
    ++ "text-[#808080]\">ToS</a>\n"
    ++ "      <span style=\"text-xs text-[#808080]\">•</span>\n"
    ++ "      <a href=\"/domains\" style=\"hover:text-[#6366f1] text-xs "
    ++ "text-[#808080]\">Help</a>\n"
    ++ "      <span style=\"text-xs text-[#808080]\">•</span>\n"
    ++ "      <a href=\"/domains\" style=\"hover:text-[#6366f1] text-xs "
    ++ "text-[#808080]\">Docs</a>\n"
    ++ "      <span style=\"text-xs text-[#808080]\">•</span>\n"
    ++ "      <a href=\"/domains\" style=\"hover:text-[#6366f1] text-xs "
    ++ "text-[#808080]\">Stats</a>\n"
    ++ "      <span style=\"text-xs text-[#808080]\">•</span>\n"
    ++ "      <a href=\"/domains\" style=\"hover:text-[#6366f1] text-xs "
    ++ "text-[#808080]\">Platform Status</a>\n"
    ++ "    </div>\n"
    ++ "  </div>\n"
    ++ "  <script type=\"text/lua\" src=\"/assets/utils.lua\"></script>\n"
    ++ "  <script type=\"text/lua\" src=\"/assets/app.lua\"></script>\n"
    ++ "</body>")

/-- The text of the link: the URL where the title is blank. -/
def itemText (r : SearchResultItem S) : Str :=
  if r.title.trim.isEmpty then r.url else r.title

/-- One turn of the loop over the results. -/
def renderItem (r : SearchResultItem S) : Str :=
  let url := escapeHtml r.url
  let etitle := escapeHtml (itemText r)
  itemHref ++ (url ++ (itemTitle ++ (etitle ++ (itemUrl ++ (url ++ itemEnd)))))

def renderPage (q : Str) (results : List (SearchResultItem S)) : Str :=
  let items := results.foldl (fun items r => items ++ renderItem r) []
  let sq := escapeHtml q
  pageTitle ++ (sq ++ (pageList ++ (items ++ pageEnd)))

def htmlResponse (code : StatusCode) (body : Bytes) : Response :=
  ⟨code, [("content-type".toList, "text/html".toList)], body⟩

/-- What `render_search_ssr` answers once it has the results. -/
def resultsResponse (q : Str) (results : List (SearchResultItem S)) : Response :=
  htmlResponse .ok (utf8 (renderPage q results))

/-- `render_search_ssr`. -/
def renderSearchSsr [LinearOrder S] (env : SearchEnv S) (q : Str) : Response :=
  let hits := env.engine.search env.tables env.score (parseQuery q) 1 10
  resultsResponse q (env.rescore hits 10)

/-! ## Markup -/

def isMarkup (c : Char) : Bool := c == '<' || c == '>' || c == '"'

def isMarkupByte (b : UInt8) : Bool := b == 60 || b == 62 || b == 34

/-- The markup bytes of a string are those of its markup characters. -/
theorem filter_isMarkupByte_utf8 (s : Str) :
    (utf8 s).filter isMarkupByte = utf8 (s.filter isMarkup) := by
  have hchar : ∀ c : Char, (String.utf8EncodeChar c).filter isMarkupByte
      = if isMarkup c then String.utf8EncodeChar c else [] := by
    intro c
    by_cases hc : isMarkup c = true
    · have hthree : c = '<' ∨ c = '>' ∨ c = '"' := by
        simpa [isMarkup, or_assoc] using hc
      rcases hthree with rfl | rfl | rfl
      · rfl
      · rfl
      · rfl
    · rw [if_neg hc, List.filter_eq_nil_iff]
      intro b hb hmarkup
      have hthree : b = 60 ∨ b = 62 ∨ b = 34 := by
        simpa [isMarkupByte, or_assoc] using hmarkup
      -- a byte below 128 is a character of its own
      have heq : ∀ d : Char, d.toNat < 128 → b.toNat = d.toNat → c = d := by
        intro d hlt hbd
        have hnat := toNat_of_mem_utf8EncodeChar hb (by omega)
        exact Char.toNat_inj.mp (hnat.trans hbd)
      rcases hthree with rfl | rfl | rfl
      · exact hc (by rw [heq '<' (by decide) rfl]; rfl)
      · exact hc (by rw [heq '>' (by decide) rfl]; rfl)
      · exact hc (by rw [heq '"' (by decide) rfl]; rfl)
  induction s with
  | nil => rfl
  | cons c s ih =>
    rw [utf8_cons, List.filter_append, hchar, ih, List.filter_cons]
    by_cases hc : isMarkup c = true
    · rw [if_pos hc, if_pos hc, utf8_cons]
    · rw [if_neg hc, if_neg hc, List.nil_append]

/-- Escaped text has no markup. -/
theorem filter_isMarkup_escapeHtml (s : Str) : (escapeHtml s).filter isMarkup = [] := by
  rw [List.filter_eq_nil_iff]
  intro c hc
  obtain ⟨d, -, hd⟩ := List.mem_flatMap.mp hc
  have hclean : ∀ t : Str, t.filter isMarkup = [] → c ∈ t → ¬ isMarkup c = true := by
    intro t ht hmem
    exact List.filter_eq_nil_iff.mp ht c hmem
  rcases escapeChar_cases d with
    ⟨-, he⟩ | ⟨-, he⟩ | ⟨-, he⟩ | ⟨-, he⟩ | ⟨-, he⟩ | ⟨⟨-, hlt, hgt, hquot⟩, he⟩
  · exact hclean _ rfl (he ▸ hd)
  · exact hclean _ rfl (he ▸ hd)
  · exact hclean _ rfl (he ▸ hd)
  · exact hclean _ rfl (he ▸ hd)
  · exact hclean _ rfl (he ▸ hd)
  · rw [he] at hd
    rw [List.mem_singleton.mp hd]
    simp [isMarkup, hlt, hgt, hquot]

/-- The markup of one result. -/
def itemMarkup : Str := (itemHref ++ (itemTitle ++ (itemUrl ++ itemEnd))).filter isMarkup

theorem filter_renderItem (r : SearchResultItem S) :
    (renderItem r).filter isMarkup = itemMarkup := by
  rw [renderItem, itemMarkup]
  simp only [List.filter_append, filter_isMarkup_escapeHtml, List.nil_append]

/-- The markup of the list grows by the same part with every result. -/
theorem filter_items (results : List (SearchResultItem S)) (items : Str) :
    (results.foldl (fun items r => items ++ renderItem r) items).filter isMarkup
      = items.filter isMarkup ++ (List.replicate results.length itemMarkup).flatten := by
  induction results generalizing items with
  | nil => rw [List.foldl_nil, List.length_nil, List.replicate_zero, List.flatten_nil,
      List.append_nil]
  | cons r results ih =>
    rw [List.foldl_cons, ih, List.filter_append, filter_renderItem, List.length_cons,
      List.replicate_succ, List.flatten_cons, List.append_assoc]

theorem filter_renderPage (q : Str) (results : List (SearchResultItem S)) :
    (renderPage q results).filter isMarkup
      = pageTitle.filter isMarkup ++ (pageList.filter isMarkup
        ++ ((List.replicate results.length itemMarkup).flatten ++ pageEnd.filter isMarkup)) := by
  have hitems := filter_items results []
  rw [List.filter_nil, List.nil_append] at hitems
  rw [renderPage, List.filter_append, List.filter_append, List.filter_append, List.filter_append,
    filter_isMarkup_escapeHtml, hitems, List.nil_append]

/-- **No injection**: two pages with as many results have the same markup, byte for
byte, and what is escaped can be read back. -/
theorem resultsResponse_markup :
    (∀ (q q' : Str) (results results' : List (SearchResultItem S)),
        results.length = results'.length →
        (resultsResponse q results).body.filter isMarkupByte
            = (resultsResponse q' results').body.filter isMarkupByte
          ∧ (renderPage q results).filter isMarkup = (renderPage q' results').filter isMarkup)
      ∧ ∀ s : Str, unescapeHtml (escapeHtml s) = s := by
  refine ⟨?_, unescapeHtml_escapeHtml⟩
  intro q q' results results' hlength
  have hpage : (renderPage q results).filter isMarkup
      = (renderPage q' results').filter isMarkup := by
    rw [filter_renderPage, filter_renderPage, hlength]
  refine ⟨?_, hpage⟩
  simp only [resultsResponse, htmlResponse]
  rw [filter_isMarkupByte_utf8, filter_isMarkupByte_utf8, hpage]

end Gurted.Router
