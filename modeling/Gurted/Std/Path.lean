import Gurted.Std.Str

/-!
# Paths (`std::path` on Unix)

A path is its text. `push` works on the text and `components` is what the text
means; `components_push` says how the two fit together.
-/

namespace Gurted.Path

open Gurted

/-! ## Building paths -/

/-- `Path::is_absolute`. -/
def isAbsolute (p : Str) : Bool := p.head? == some '/'

/-- `PathBuf::push`: an absolute path replaces, a relative one is appended after a
separator if there is none yet. -/
def push (p rel : Str) : Str :=
  let needSep := !p.isEmpty && p.getLast? != some '/'
  if isAbsolute rel then rel
  else if needSep then p ++ '/' :: rel
  else p ++ rel

/-! ## Reading paths -/

inductive Component where
  | rootDir
  | curDir
  | parentDir
  | normal (name : Str)
  deriving DecidableEq, Repr

/-- The parts between separators that are not empty. -/
def parts (p : Str) : List Str := Str.tokens (· == '/') p

/-- A part as a component; `.` says nothing. -/
def component (part : Str) : Option Component :=
  if part = ['.'] then none
  else if part = ['.', '.'] then some .parentDir
  else some (.normal part)

/-- `Path::components`. A `.` counts only at the start of a relative path. -/
def components (p : Str) : List Component :=
  if isAbsolute p then .rootDir :: (parts p).filterMap component
  else if (parts p).head? = some ['.'] then .curDir :: (parts p).tail.filterMap component
  else (parts p).filterMap component

/-- `Path::file_name`. -/
def fileName (p : Str) : Option Str :=
  match (components p).getLast? with
  | some (.normal name) => some name
  | _ => none

/-- The part of a file name after its last dot; a dot at the start does not count. -/
def extension (p : Str) : Option Str :=
  (fileName p).bind fun name =>
    let pieces := Str.split '.' name
    match pieces with
    | [] => none
    | [_] => none
    | [[], _] => none
    | _ => pieces.getLast?

example : components "./a//b/../c.x/.".toList
    = [.curDir, .normal ['a'], .normal ['b'], .parentDir, .normal "c.x".toList] := by decide

/-- The path starts with the components of the directory and does not go up
afterwards. -/
def LiesUnder (p dir : Str) : Prop :=
  components dir <+: components p ∧
    .parentDir ∉ (components p).drop (components dir).length

instance (p dir : Str) : Decidable (LiesUnder p dir) := inferInstanceAs (Decidable (_ ∧ _))

theorem liesUnder_iff {p dir : Str} :
    LiesUnder p dir ↔ ∃ rest, components p = components dir ++ rest ∧ .parentDir ∉ rest := by
  constructor
  · intro h
    obtain ⟨⟨rest, hrest⟩, hup⟩ := h
    rw [← hrest, List.drop_left] at hup
    exact ⟨rest, hrest.symm, hup⟩
  · intro h
    obtain ⟨rest, hrest, hup⟩ := h
    rw [LiesUnder, hrest, List.drop_left]
    exact ⟨List.prefix_append _ _, hup⟩

/-! ## Components of a pushed path -/

theorem parts_append (p rel : Str) : parts (p ++ '/' :: rel) = parts p ++ parts rel :=
  Str.tokens_append_cons (by decide) p rel

theorem parts_ne_nil {p : Str} (hne : p ≠ []) (habs : isAbsolute p = false) : parts p ≠ [] := by
  cases p with
  | nil => exact absurd rfl hne
  | cons c p =>
    have hc : (c == '/') = false := by simpa [isAbsolute] using habs
    obtain ⟨t, ht, -⟩ := (Str.mem_tokens_iff (p := (· == '/')) (c := c) (c :: p)).mpr
      ⟨by simp, hc⟩
    exact List.ne_nil_of_mem ht

/-- **A path with a suffix**: the components of the suffix come after those of the
path. -/
theorem components_append {p : Str} (hne : p ≠ []) (rel : Str) :
    components (p ++ '/' :: rel) = components p ++ (parts rel).filterMap component := by
  have habs : isAbsolute (p ++ '/' :: rel) = isAbsolute p := by
    cases p with
    | nil => exact absurd rfl hne
    | cons c p => rfl
  rw [components, components, habs, parts_append]
  cases hp : isAbsolute p with
  | true => simp
  | false =>
    obtain ⟨t, ts, hts⟩ := List.exists_cons_of_ne_nil (parts_ne_nil hne hp)
    rw [hts]
    by_cases hdot : t = ['.']
    · -- a leading `.` is a component, and stays one
      simp [hdot]
    · simp only [List.cons_append, List.head?_cons, Option.some.injEq, hdot, Bool.false_eq_true,
        if_false]
      rw [← List.cons_append, List.filterMap_append]

theorem components_push {p : Str} (hne : p ≠ []) (hlast : p.getLast? ≠ some '/') {rel : Str}
    (hrel : isAbsolute rel = false) :
    components (push p rel) = components p ++ (parts rel).filterMap component := by
  have hempty : p.isEmpty = false := by simpa using hne
  have hsep : (!p.isEmpty && p.getLast? != some '/') = true := by
    rw [hempty]
    simpa using hlast
  simp only [push, hrel, hsep, Bool.false_eq_true, if_false, if_true]
  exact components_append hne rel

theorem push_absolute (p : Str) {rel : Str} (hrel : isAbsolute rel = true) : push p rel = rel :=
  if_pos hrel

/-- What does not contain `..` has no component that goes up. -/
theorem parentDir_notMem {rel : Str} (h : Str.contains rel ['.', '.'] = false) :
    .parentDir ∉ (parts rel).filterMap component := by
  intro hmem
  obtain ⟨part, hpart, hcomp⟩ := List.mem_filterMap.mp hmem
  have hdots : part = ['.', '.'] := by
    rw [component] at hcomp
    split at hcomp
    · cases hcomp
    · split at hcomp
      · assumption
      · cases hcomp
  rw [hdots] at hpart
  have := Str.contains_of_mem_tokens hpart
  rw [h] at this
  cases this

end Gurted.Path
