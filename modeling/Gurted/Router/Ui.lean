import Gurted.Api.HttpLike
import Gurted.Std.Path
import Gurted.Std.Slice

/-!
# Assets of the user interface (`gurtd/src/router/ui.rs`)

`serve_asset` reads a file named by the request. `contained_append_iff` says for which
names the file it reads is one of the directory of assets.
-/

namespace Gurted.Router

open Gurted Gurted.Api Gurted.Path

/-! ## The directory -/

/-- What `ui.rs` sees of the process and of the file system. -/
structure UiEnv where
  /-- `GURT_UI_DIR`. -/
  uiDirVar : Option Str
  /-- `CARGO_MANIFEST_DIR`. -/
  manifestDir : Str
  currentDir : Option Str
  /-- The directory of the running program. -/
  exeDir : Option Str
  isDir : Str → Bool
  /-- `fs::read`; `none` is an error. -/
  read : Str → Option Bytes

/-- `ui_dir`: the first candidate that is a directory. -/
def uiDir (env : UiEnv) : Str :=
  let ui := "ui".toList
  let candidates := env.uiDirVar.toList ++ [push env.manifestDir ui]
    ++ (env.currentDir.map (push · ui)).toList ++ (env.exeDir.map (push · ui)).toList
  (candidates.find? env.isDir).getD (push env.manifestDir ui)

/-- `ui_dir()/assets`. -/
def assetsDir (env : UiEnv) : Str := push (uiDir env) "assets".toList

/-! ## `serve_asset` -/

def contentTypeFor (p : Str) : Str :=
  let ext := ((extension p).getD []).toAsciiLowercase
  if ext = "html".toList then "text/html".toList
  else if ext = "css".toList then "text/css".toList
  else if ext = "js".toList then "application/javascript".toList
  else if ext = "json".toList then "application/json".toList
  else if ext = "lua".toList then "text/lua".toList
  else if ext = "png".toList then "image/png".toList
  else if ext = "jpg".toList ∨ ext = "jpeg".toList then "image/jpeg".toList
  else if ext = "svg".toList then "image/svg+xml".toList
  else "application/octet-stream".toList

/-- A response, and the file whose bytes it carries. -/
structure Served where
  file : Option Str
  response : Response
  deriving DecidableEq, Repr

/-- No file is read. -/
def Served.refused : Served := ⟨none, ⟨.badRequest, [], []⟩⟩

def assetsPrefix : Str := "/assets/".toList

/-- `serve_asset`; `none` is the panic of a path shorter than the prefix. -/
def serveAsset (env : UiEnv) (path : Str) : Option Served :=
  (Str.sliceFrom assetsPrefix.byteLen path).map fun rel =>
    if rel.contains "..".toList then .refused
    else
      -- `rel` may be absolute: the prefix ends in a slash, and so may what follows start
      let p := push (push (uiDir env) "assets".toList) rel
      match env.read p with
      | some bytes => ⟨some p, ⟨.ok, [("content-type".toList, contentTypeFor p)], bytes⟩⟩
      | none => .refused

/-- The request is refused without a file having been read, or the file that is
read belongs to the assets. -/
def Contained (env : UiEnv) (path : Str) : Prop :=
  ∃ served, serveAsset env path = some served ∧
    (served.file = none ∧ served.response.code = .badRequest ∨
      ∃ file, served.file = some file ∧ LiesUnder file (assetsDir env))

/-- What names no file outside: a relative path, a path that is refused, and of
the absolute paths those that cannot be read or start with the directory. -/
def StaysInside (env : UiEnv) (rel : Str) : Prop :=
  isAbsolute rel = false ∨ rel.contains "..".toList = true ∨ env.read rel = none ∨
    components (assetsDir env) <+: components rel

/-! ## Which files are read -/

/-- A directory that `assets` was pushed to does not end in a separator. -/
theorem assetsDir_getLast? (env : UiEnv) : (assetsDir env).getLast? = some 's' := by
  have hassets : (isAbsolute "assets".toList) = false := by decide
  simp only [assetsDir, push, hassets, Bool.false_eq_true, if_false]
  split
  · rw [List.getLast?_append]
    rfl
  · rw [List.getLast?_append]
    rfl

/-- A relative path without `..` stays below the assets. -/
theorem liesUnder_push {env : UiEnv} {rel : Str} (hrel : isAbsolute rel = false)
    (hup : rel.contains "..".toList = false) :
    LiesUnder (push (assetsDir env) rel) (assetsDir env) := by
  have hlast := assetsDir_getLast? env
  have hne : assetsDir env ≠ [] := by
    intro h
    rw [h] at hlast
    cases hlast
  have hsep : (assetsDir env).getLast? ≠ some '/' := by
    rw [hlast]
    decide
  exact liesUnder_iff.mpr ⟨_, components_push hne hsep hrel, parentDir_notMem hup⟩

/-- An absolute path without `..` is below the assets if it starts with them. -/
theorem liesUnder_absolute {env : UiEnv} {rel : Str} (hrel : isAbsolute rel = true)
    (hup : rel.contains "..".toList = false) :
    LiesUnder rel (assetsDir env) ↔ components (assetsDir env) <+: components rel := by
  refine ⟨And.left, fun h => ⟨h, fun hmem => ?_⟩⟩
  have hcomp : .parentDir ∈ components rel := List.mem_of_mem_drop hmem
  rw [components, hrel, if_pos rfl] at hcomp
  rcases List.mem_cons.mp hcomp with h | h
  · cases h
  · exact parentDir_notMem hup h

/-- `serve_asset` on a path with the prefix. -/
theorem serveAsset_append (env : UiEnv) (rel : Str) :
    serveAsset env (assetsPrefix ++ rel) = some
      (if rel.contains "..".toList then .refused
      else match env.read (push (assetsDir env) rel) with
        | some bytes => ⟨some (push (assetsDir env) rel),
            ⟨.ok, [("content-type".toList, contentTypeFor (push (assetsDir env) rel))], bytes⟩⟩
        | none => .refused) := by
  rw [serveAsset, Str.sliceFrom_append]
  rfl

/-- **Which names stay inside.** -/
theorem contained_append_iff (env : UiEnv) (rel : Str) :
    Contained env (assetsPrefix ++ rel) ↔ StaysInside env rel := by
  rw [Contained, serveAsset_append]
  simp only [Option.some.injEq, exists_eq_left']
  cases hup : rel.contains "..".toList with
  | true =>
    rw [if_pos rfl]
    exact iff_of_true (.inl ⟨rfl, rfl⟩) (.inr (.inl hup))
  | false =>
    rw [if_neg Bool.false_ne_true]
    cases hread : env.read (push (assetsDir env) rel) with
    | none =>
      -- no file: the answer is `BadRequest` wherever the path leads
      refine iff_of_true (.inl ⟨rfl, rfl⟩) ?_
      cases hrel : isAbsolute rel with
      | false => exact .inl hrel
      | true =>
        rw [push_absolute _ hrel] at hread
        exact .inr (.inr (.inl hread))
    | some bytes =>
      have hlies : (∃ file, some (push (assetsDir env) rel) = some file ∧
          LiesUnder file (assetsDir env)) ↔
            LiesUnder (push (assetsDir env) rel) (assetsDir env) := by
        simp
      simp only [reduceCtorEq, false_and, false_or, hlies]
      cases hrel : isAbsolute rel with
      | false => exact iff_of_true (liesUnder_push hrel hup) (.inl hrel)
      | true =>
        rw [push_absolute _ hrel] at hread ⊢
        rw [liesUnder_absolute hrel hup, StaysInside, hrel, hup, hread]
        simp

end Gurted.Router
