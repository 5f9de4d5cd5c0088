import Gurted.Crawler.Render

/-!
# What is left of a page with scripts

`strip_script_blocks` keeps the text around the scripts, in order
(`stripScriptBlocks_alternation`). It goes over a page once, so a "<script" that
only comes together when a script between its parts is dropped stays
(`noScript_content_iff`).
-/

namespace Gurted.Crawler

open Gurted Gurted.Lib

/-! ## Text around scripts -/

/-- The texts of a page around its scripts, in order. -/
inductive Pieces : Str → List Str → Prop where
  | absent {text : Str} : NoScript text → Pieces text [text]
  | unclosed {text script : Str} :
      NoScript text → Unclosed script → Pieces (text ++ script) [text]
  | block {text script rest : Str} {texts : List Str} :
      NoScript text → ScriptBlock script → Pieces rest texts →
      Pieces (text ++ (script ++ rest)) (text :: texts)

theorem Pieces.noScript {html : Str} {texts : List Str} (h : Pieces html texts) :
    ∀ text ∈ texts, NoScript text := by
  induction h with
  | absent htext => simpa using htext
  | unclosed htext _ => simpa using htext
  | block htext _ _ ih => exact List.forall_mem_cons.mpr ⟨htext, ih⟩

theorem Pieces.stripScriptBlocks_eq {html : Str} {texts : List Str} (h : Pieces html texts) :
    stripScriptBlocks html = some texts.flatten := by
  induction h with
  | absent htext => rw [stripScriptBlocks_of_noScript htext, List.flatten_singleton]
  | unclosed htext hscript =>
    rw [stripScriptBlocks_of_unclosed htext hscript, List.flatten_singleton]
  | block htext hscript _ ih =>
    rw [stripScriptBlocks_of_scriptBlock htext hscript, ih]
    rfl

theorem Pieces.length_le {html : Str} {texts : List Str} (h : Pieces html texts) :
    texts.flatten.length ≤ html.length := by
  induction h with
  | absent _ => rw [List.flatten_singleton]
  | unclosed _ _ =>
    rw [List.flatten_singleton, List.length_append]
    exact Nat.le_add_right _ _
  | block _ _ _ ih =>
    simp only [List.flatten_cons, List.length_append]
    omega

theorem exists_pieces (html : Str) : ∃ texts, Pieces html texts := by
  induction hlen : html.length using Nat.strong_induction_on generalizing html with
  | _ n ih =>
    cases firstScript html with
    | absent htext => exact ⟨_, .absent htext⟩
    | unclosed htext hscript => exact ⟨_, .unclosed htext hscript⟩
    | block htext hscript =>
      obtain ⟨texts, htexts⟩ :=
        ih _ (by rw [← hlen]; exact nextScript_length (nextScript_of_scriptBlock htext hscript _))
          _ rfl
      exact ⟨_, .block htext hscript htexts⟩

theorem pieces_alternation {t₀ : Str} {blocks : List (Str × Str)} (h₀ : NoScript t₀)
    (hblocks : ∀ b ∈ blocks, ScriptBlock b.1 ∧ NoScript b.2) :
    Pieces (t₀ ++ blocks.flatMap fun b => b.1 ++ b.2) (t₀ :: blocks.map Prod.snd) := by
  induction blocks generalizing t₀ with
  | nil => simpa using Pieces.absent h₀
  | cons b blocks ih =>
    obtain ⟨hb, hrest⟩ := List.forall_mem_cons.mp hblocks
    rw [List.flatMap_cons, List.append_assoc]
    exact .block h₀ hb.1 (ih hb.2 hrest)

/-- **All text outside scripts is kept**, and no slice is off a boundary. -/
theorem stripScriptBlocks_alternation {t₀ : Str} {blocks : List (Str × Str)} (h₀ : NoScript t₀)
    (hblocks : ∀ b ∈ blocks, ScriptBlock b.1 ∧ NoScript b.2) :
    stripScriptBlocks (t₀ ++ blocks.flatMap fun b => b.1 ++ b.2)
        = some (t₀ ++ (blocks.map Prod.snd).flatten) ∧
      ∀ input, (stripScriptBlocks input).isSome = true :=
  ⟨(pieces_alternation h₀ hblocks).stripScriptBlocks_eq, stripScriptBlocks_isSome⟩

/-- A page with a script in upper case between two letters of two bytes. -/
theorem stripScriptBlocks_alternation_page :
    stripScriptBlocks ("é".toList ++
        [("<SCRIPT>lua()</Script>".toList, "ü</script>".toList)].flatMap fun b => b.1 ++ b.2)
      = some ("é".toList ++ "ü</script>".toList) :=
  (stripScriptBlocks_alternation (by decide) (by
    rw [List.forall_mem_singleton]
    exact ⟨⟨by decide, by decide, by decide⟩, by decide⟩)).1

/-! ## Joints -/

/-- The letters at a joint of the texts, or across several, are those of "<script". -/
def Joint (texts : List Str) : Prop :=
  ∃ before after : List Str, ∃ p q, texts = before ++ after ∧ p ≠ [] ∧ q ≠ [] ∧ openTag = p ++ q ∧
    p <:+ Str.toAsciiLowercase before.flatten ∧ q <+: Str.toAsciiLowercase after.flatten

theorem joint_iff {texts : List Str} (h : ∀ text ∈ texts, NoScript text) :
    Joint texts ↔ ¬ NoScript texts.flatten := by
  have hlower : ∀ texts : List Str, Str.toAsciiLowercase texts.flatten
      = (texts.map Str.toAsciiLowercase).flatten := fun _ => List.map_flatten
  rw [NoScript, Decidable.not_not, hlower, infix_flatten_iff (by decide)]
  constructor
  · rintro ⟨before, after, p, q, rfl, hp, hq, hpq, hbefore, hafter⟩
    rw [hlower] at hbefore hafter
    exact .inr ⟨_, _, p, q, List.map_append, hp, hq, hpq, hbefore, hafter⟩
  · rintro (⟨low, hlow, hin⟩ | ⟨before', after', p, q, hcut, hp, hq, hpq, hbefore, hafter⟩)
    · -- no single text has the tag
      obtain ⟨text, htext, rfl⟩ := List.mem_map.mp hlow
      exact absurd hin (h text htext)
    · obtain ⟨before, after, rfl, rfl, rfl⟩ := List.map_eq_append_iff.mp hcut
      rw [← hlower] at hbefore hafter
      exact ⟨before, after, p, q, rfl, hp, hq, hpq, hbefore, hafter⟩

/-- A "<script" comes together across the scripts of the page. -/
def Bridged (html : Str) : Prop := ∃ texts, Pieces html texts ∧ Joint texts

theorem exists_stripped (html : Str) :
    ∃ out, stripScriptBlocks html = some out ∧ (NoScript out ↔ ¬ Bridged html) := by
  obtain ⟨texts, htexts⟩ := exists_pieces html
  refine ⟨texts.flatten, htexts.stripScriptBlocks_eq, ?_⟩
  constructor
  · rintro hno ⟨texts', htexts', hjoint⟩
    -- every way to cut the page keeps the same text
    have hsame : texts'.flatten = texts.flatten :=
      Option.some.inj (htexts'.stripScriptBlocks_eq.symm.trans htexts.stripScriptBlocks_eq)
    exact (joint_iff htexts'.noScript).mp hjoint (hsame ▸ hno)
  · intro hbridged
    by_contra hno
    exact hbridged ⟨texts, htexts, (joint_iff htexts.noScript).mpr hno⟩

/-- What is stripped again is unchanged exactly if it has no script. -/
theorem stripScriptBlocks_eq_self_iff {out : Str} :
    stripScriptBlocks out = some out ↔ NoScript out := by
  constructor
  · intro h
    cases firstScript out with
    | absent htext => exact htext
    | unclosed htext hscript =>
      rw [stripScriptBlocks_of_unclosed htext hscript] at h
      have hlen := congrArg List.length (Option.some.inj h)
      have hpos := length_pos_of_opens hscript.opens
      rw [List.length_append] at hlen
      omega
    | @block text script rest htext hscript =>
      rw [stripScriptBlocks_of_scriptBlock htext hscript] at h
      obtain ⟨texts, htexts⟩ := exists_pieces rest
      rw [htexts.stripScriptBlocks_eq] at h
      have hlen := congrArg List.length (Option.some.inj h)
      have hrest := htexts.length_le
      have hpos := length_pos_of_opens hscript.opens
      simp only [List.length_append] at hlen
      omega
  · exact stripScriptBlocks_of_noScript

/-- The marker brings no script: no part of "<script" starts with its line end. -/
theorem noScript_append_renderedMarker {out : Str} :
    NoScript (out ++ '\n' :: renderedMarker) ↔ NoScript out := by
  rw [NoScript, NoScript, Str.toAsciiLowercase_append, infix_append_iff]
  refine not_congr ⟨?_, .inl⟩
  rintro (hout | hmarker | ⟨p, q, -, hq, hpq, -, hqr⟩)
  · exact hout
  · exact absurd hmarker (by decide)
  · cases q with
    | nil => exact absurd rfl hq
    | cons c q =>
      obtain ⟨rfl, -⟩ := List.cons_prefix_cons.mp hqr
      have hmem : '\n' ∈ openTag := by
        rw [hpq]
        exact List.mem_append_right p List.mem_cons_self
      exact absurd hmem (by decide)

/-- The content of a page that is rendered in time. -/
theorem noScript_content_iff_stripped {html out : Str} {cfg : RenderConfig}
    (hdyn : detectDynamic html ≠ none) (htime : (renderOnce html cfg).timedOut = false)
    (hout : stripScriptBlocks html = some out) :
    NoScript (renderOnce html cfg).content ↔ NoScript out := by
  have hnotLate : ¬ cfg.simulatedCost.any (cfg.timeBudget < ·) = true := by
    intro hlate
    simp [renderOnce, hdyn, hlate] at htime
  simp only [renderOnce, if_neg hdyn, if_neg hnotLate, hout, Option.get_some]
  split
  · rfl
  · exact noScript_append_renderedMarker

/-- **Which pages are rendered without a script**: those on which none comes together.
They are those on which the loop has nothing left to do. -/
theorem noScript_content_iff (html : Str) :
    ((stripScriptBlocks html).bind stripScriptBlocks = stripScriptBlocks html ↔ ¬ Bridged html) ∧
      ∀ cfg, detectDynamic html ≠ none → (renderOnce html cfg).timedOut = false →
        (NoScript (renderOnce html cfg).content ↔ ¬ Bridged html) := by
  obtain ⟨out, hout, hiff⟩ := exists_stripped html
  constructor
  · rw [hout, Option.bind_some, stripScriptBlocks_eq_self_iff, hiff]
  · intro cfg hdyn htime
    rw [noScript_content_iff_stripped hdyn htime hout, hiff]

theorem noScript_content_iff_page :
    NoScript (renderOnce "a<script>lua</script>b".toList ⟨0, none⟩).content ↔
      ¬ Bridged "a<script>lua</script>b".toList :=
  (noScript_content_iff "a<script>lua</script>b".toList).2 ⟨0, none⟩ (by decide)
    (renderOnce_timedOut _ 0)

def bridgedPage : Str := "<scr<script>lua</script>ipt>".toList

theorem stripScriptBlocks_bridgedPage :
    stripScriptBlocks bridgedPage = some "<script>".toList := by
  have hscript : ScriptBlock "<script>lua</script>".toList := ⟨by decide, by decide, by decide⟩
  have hpage : bridgedPage = "<scr".toList ++ ("<script>lua</script>".toList ++ "ipt>".toList) := by
    decide
  rw [hpage, stripScriptBlocks_of_scriptBlock (by decide) hscript,
    stripScriptBlocks_of_noScript (by decide)]
  rfl

/-- A script dropped from between the parts of another leaves the other in the page. -/
theorem not_noScript_bridgedPage :
    detectDynamic bridgedPage ≠ none ∧ (renderOnce bridgedPage ⟨0, none⟩).timedOut = false ∧
      ¬ NoScript (renderOnce bridgedPage ⟨0, none⟩).content ∧
      (stripScriptBlocks bridgedPage).bind stripScriptBlocks ≠ stripScriptBlocks bridgedPage := by
  have hdyn : detectDynamic bridgedPage ≠ none := by decide
  have htime := renderOnce_timedOut bridgedPage 0
  refine ⟨hdyn, htime, ?_, ?_⟩
  · rw [noScript_content_iff_stripped hdyn htime stripScriptBlocks_bridgedPage]
    decide
  · rw [stripScriptBlocks_bridgedPage, Option.bind_some, Ne, stripScriptBlocks_eq_self_iff]
    decide

end Gurted.Crawler
