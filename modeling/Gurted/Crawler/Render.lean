import Gurted.Std.Slice

/-!
# Rendering (`gurtd/src/crawler/render.rs`)

The offsets of `strip_script_blocks` are found in a lower case copy and used on
the text itself. `nextScript` is the body of its loop; `none` is the panic of a
slice, which `stripScriptBlocks_isSome` excludes.
-/

namespace Gurted.Crawler

open Gurted Gurted.Lib

/-! ## Detection -/

inductive DynamicReason where
  | luaScriptTag
  | networkFetch
  deriving DecidableEq, Repr

def detectDynamic (html : Str) : Option DynamicReason :=
  let lower := html.toAsciiLowercase
  if lower.contains "<script".toList && lower.contains "lua".toList then some .luaScriptTag
  else if lower.contains "network.fetch(".toList then some .networkFetch
  else none

/-! ## Scripts -/

/-- One turn of the loop of `strip_script_blocks`: the text it keeps, and what is
left behind the script if the loop goes on. -/
def nextScript (rest : Str) : Option (Str × Option Str) :=
  let lower := rest.toAsciiLowercase
  match lower.find "<script".toList with
  | some start => do
      let text ← rest.sliceTo start
      let lowerAfter ← lower.sliceFrom start
      match lowerAfter.find "</script>".toList with
      | some closePos =>
          let stop := start + closePos + 9
          let rest ← rest.sliceFrom stop
          return (text, some rest)
      | none => return (text, none) -- no end tag: the remainder is dropped
  | none => some (rest, none)

/-! ## What a turn does -/

def openTag : Str := "<script".toList

def closeTag : Str := "</script>".toList

/-- "<script" does not occur in the text, in any case. -/
def NoScript (text : Str) : Prop := ¬ openTag <:+: text.toAsciiLowercase

instance : DecidablePred NoScript := fun text =>
  inferInstanceAs (Decidable (¬ openTag <:+: text.toAsciiLowercase))

/-- The text starts with "<script", ends with "</script>" and has no earlier
"</script>", in any case. -/
structure ScriptBlock (script : Str) : Prop where
  opens : openTag <+: script.toAsciiLowercase
  closes : closeTag <:+ script.toAsciiLowercase
  first : ¬ closeTag <:+: script.toAsciiLowercase.dropLast

/-- The text starts with "<script" and is not closed. -/
structure Unclosed (script : Str) : Prop where
  opens : openTag <+: script.toAsciiLowercase
  not_closed : ¬ closeTag <:+: script.toAsciiLowercase

/-- A text up to its first script. -/
inductive FirstScript : Str → Prop where
  | absent {text : Str} : NoScript text → FirstScript text
  | unclosed {text script : Str} : NoScript text → Unclosed script → FirstScript (text ++ script)
  | block {text script rest : Str} :
      NoScript text → ScriptBlock script → FirstScript (text ++ (script ++ rest))

theorem firstScript (rest : Str) : FirstScript rest := by
  by_cases hopen : openTag <:+: rest.toAsciiLowercase
  · obtain ⟨text', after, hcut, hfirst⟩ := exists_first_of_infix (by decide) hopen
    obtain ⟨text, script, rfl, rfl, hscript⟩ :
        ∃ text script : Str, rest = text ++ script ∧ text.toAsciiLowercase = text' ∧
          script.toAsciiLowercase = openTag ++ after := List.map_eq_append_iff.mp hcut
    have htext : NoScript text := fun h => hfirst (h.trans (List.prefix_append _ _).isInfix)
    have hopens : openTag <+: script.toAsciiLowercase := ⟨after, hscript.symm⟩
    by_cases hclose : closeTag <:+: script.toAsciiLowercase
    · obtain ⟨body', after', hcut', hfirst'⟩ := exists_first_of_infix (by decide) hclose
      obtain ⟨script, rest, rfl, hblock, -⟩ :
          ∃ block rest : Str, script = block ++ rest ∧
            block.toAsciiLowercase = body' ++ closeTag ∧ rest.toAsciiLowercase = after' :=
        List.map_eq_append_iff.mp (hcut'.trans (List.append_assoc _ _ _).symm)
      refine .block htext ⟨?_, ⟨body', hblock.symm⟩, ?_⟩
      · have hlen : openTag.length ≤ script.toAsciiLowercase.length := by
          rw [hblock, List.length_append]
          exact Nat.le_add_left_of_le (by decide)
        exact List.prefix_of_prefix_length_le hopens
          (Str.toAsciiLowercase_append script rest ▸ List.prefix_append _ _) hlen
      · rw [hblock, List.dropLast_append_of_ne_nil (by decide)]
        exact hfirst'
    · exact .unclosed htext ⟨hopens, hclose⟩
  · exact .absent hopen

theorem nextScript_of_noScript {text : Str} (h : NoScript text) :
    nextScript text = some (text, none) := by
  have hnone : text.toAsciiLowercase.find "<script".toList = none := Str.find_eq_none_iff.mpr h
  simp only [nextScript, hnone]

/-- A turn up to the script it finds: both tags are found in lower case, at the
offsets they have in the text. -/
theorem nextScript_append {text script : Str} (htext : NoScript text)
    (hopen : openTag <+: script.toAsciiLowercase) :
    nextScript (text ++ script) =
      match script.toAsciiLowercase.find closeTag with
      | some closePos =>
          (Str.sliceFrom (text.byteLen + closePos + 9) (text ++ script)).map fun rest =>
            (text, some rest)
      | none => some (text, none) := by
  have hstart : (text ++ script).toAsciiLowercase.find openTag = some text.byteLen :=
    Str.find_lower_append (by decide) (by decide) htext hopen
  have hlower : Str.sliceFrom text.byteLen (text ++ script).toAsciiLowercase
      = some script.toAsciiLowercase := by
    rw [Str.toAsciiLowercase_append, ← Str.byteLen_toAsciiLowercase text, Str.sliceFrom_append]
  unfold openTag at hstart
  unfold closeTag
  simp only [nextScript, hstart, hlower, Str.sliceTo_append, Option.bind_eq_bind, Option.bind_some]
  cases script.toAsciiLowercase.find "</script>".toList with
  | none => rfl
  | some closePos => exact Option.map_eq_bind.symm

theorem nextScript_of_unclosed {text script : Str} (htext : NoScript text)
    (hscript : Unclosed script) : nextScript (text ++ script) = some (text, none) := by
  rw [nextScript_append htext hscript.opens, Str.find_eq_none_iff.mpr hscript.not_closed]

theorem nextScript_of_scriptBlock {text script : Str} (htext : NoScript text)
    (hscript : ScriptBlock script) (rest : Str) :
    nextScript (text ++ (script ++ rest)) = some (text, some rest) := by
  have hopen : openTag <+: (script ++ rest).toAsciiLowercase := by
    rw [Str.toAsciiLowercase_append]
    exact hscript.opens.trans (List.prefix_append _ _)
  obtain ⟨body', hblock⟩ := hscript.closes
  obtain ⟨body, close, rfl, rfl, hclose⟩ :
      ∃ body close : Str, script = body ++ close ∧ body.toAsciiLowercase = body' ∧
        close.toAsciiLowercase = closeTag := List.map_eq_append_iff.mp hblock.symm
  have hfirst : ¬ closeTag <:+: body.toAsciiLowercase := by
    intro h
    refine hscript.first (h.trans ?_)
    rw [Str.toAsciiLowercase_append, hclose, List.dropLast_append_of_ne_nil (by decide)]
    exact (List.prefix_append _ _).isInfix
  have hfind : (body ++ close ++ rest).toAsciiLowercase.find closeTag = some body.byteLen := by
    rw [List.append_assoc]
    refine Str.find_lower_append (by decide) (by decide) hfirst ?_
    rw [Str.toAsciiLowercase_append, hclose]
    exact List.prefix_append _ _
  have hnine : close.byteLen = 9 := by
    rw [← Str.byteLen_toAsciiLowercase, hclose]
    rfl
  have hstop : text.byteLen + body.byteLen + 9 = text.byteLen + Str.byteLen (body ++ close) := by
    rw [Str.byteLen_append, hnine, Nat.add_assoc]
  simp only [nextScript_append htext hopen, hfind, hstop, Str.sliceFrom_append_append,
    Option.map_some]

theorem length_pos_of_opens {script : Str} (h : openTag <+: script.toAsciiLowercase) :
    0 < script.length := by
  have hlen := h.length_le
  rw [Str.toAsciiLowercase_length] at hlen
  exact Nat.lt_of_lt_of_le (by decide) hlen

theorem nextScript_length {rest text rest' : Str} (h : nextScript rest = some (text, some rest')) :
    rest'.length < rest.length := by
  rcases firstScript rest with htext | ⟨htext, hscript⟩ | ⟨htext, hscript⟩
  · rw [nextScript_of_noScript htext] at h
    cases h
  · rw [nextScript_of_unclosed htext hscript] at h
    cases h
  · rw [nextScript_of_scriptBlock htext hscript] at h
    cases h
    have := length_pos_of_opens hscript.opens
    simp only [List.length_append]
    omega

def stripScriptBlocks (rest : Str) : Option Str :=
  match _h : nextScript rest with
  | none => none
  | some (text, none) => some text
  | some (text, some rest') => (stripScriptBlocks rest').map (text ++ ·)
termination_by rest.length
decreasing_by exact nextScript_length _h

/-! The loop on the three kinds of text. -/

theorem stripScriptBlocks_of_noScript {text : Str} (h : NoScript text) :
    stripScriptBlocks text = some text := by
  rw [stripScriptBlocks, nextScript_of_noScript h]

theorem stripScriptBlocks_of_unclosed {text script : Str} (htext : NoScript text)
    (hscript : Unclosed script) : stripScriptBlocks (text ++ script) = some text := by
  rw [stripScriptBlocks, nextScript_of_unclosed htext hscript]

theorem stripScriptBlocks_of_scriptBlock {text script : Str} (htext : NoScript text)
    (hscript : ScriptBlock script) (rest : Str) :
    stripScriptBlocks (text ++ (script ++ rest)) = (stripScriptBlocks rest).map (text ++ ·) := by
  rw [stripScriptBlocks, nextScript_of_scriptBlock htext hscript]

/-- **No panic**: every slice is at a boundary. -/
theorem stripScriptBlocks_isSome (input : Str) : (stripScriptBlocks input).isSome = true := by
  induction hlen : input.length using Nat.strong_induction_on generalizing input with
  | _ n ih =>
    cases firstScript input with
    | absent htext => rw [stripScriptBlocks_of_noScript htext]; rfl
    | unclosed htext hscript => rw [stripScriptBlocks_of_unclosed htext hscript]; rfl
    | block htext hscript =>
      rw [stripScriptBlocks_of_scriptBlock htext hscript, Option.isSome_map]
      exact ih _ (hlen ▸ nextScript_length (nextScript_of_scriptBlock htext hscript _)) _ rfl

/-! ## `render_once` -/

/-- Durations are in nanoseconds. -/
structure RenderConfig where
  timeBudget : Nat
  /-- A cost to assume instead of the one of the work itself. -/
  simulatedCost : Option Nat
  deriving DecidableEq, Repr

structure RenderOutcome where
  content : Str
  renderMode : Str
  timedOut : Bool
  reason : Option DynamicReason
  deriving DecidableEq, Repr

def renderedMarker : Str := "<!-- rendered -->".toList

def renderOnce (html : Str) (cfg : RenderConfig) : RenderOutcome :=
  let reason := detectDynamic html
  if reason = none then ⟨html, "static".toList, false, none⟩
  else if cfg.simulatedCost.any (cfg.timeBudget < ·) then ⟨html, "static".toList, true, reason⟩
  else
    let out := (stripScriptBlocks html).get (stripScriptBlocks_isSome html)
    let out := if out.contains renderedMarker then out else out ++ '\n' :: renderedMarker
    ⟨out, "rendered".toList, false, reason⟩

/-- Without a simulated cost no page times out. -/
theorem renderOnce_timedOut (html : Str) (budget : Nat) :
    (renderOnce html ⟨budget, none⟩).timedOut = false := by
  simp only [renderOnce, Option.any_none, Bool.false_eq_true, if_false]
  split <;> rfl

end Gurted.Crawler
