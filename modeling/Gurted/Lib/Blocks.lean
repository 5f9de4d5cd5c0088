import Mathlib.Data.List.Basic

/-!
# Reading a list of blocks up to a length

A sequence arrives in blocks. `takeBlocks n` is the shortest run of leading
blocks that holds at least `n` elements, with what is left: the blocks a reader
consumes that stops as soon as it has `n` elements and cannot stop inside a
block. `Groups` says that cuts of the whole sequence fall between blocks.
-/

namespace Gurted.Lib

variable {α : Type*}

/-- The shortest run of leading blocks holding at least `n` elements, and the
blocks after it. -/
def takeBlocks : Nat → List (List α) → List (List α) × List (List α)
  | 0, bs => ([], bs)
  | _ + 1, [] => ([], [])
  | n + 1, b :: bs =>
      let p := takeBlocks (n + 1 - b.length) bs
      (b :: p.1, p.2)

@[simp] theorem takeBlocks_zero (bs : List (List α)) : takeBlocks 0 bs = ([], bs) := by
  cases bs <;> rfl

theorem takeBlocks_cons {n : Nat} (hn : 0 < n) (b : List α) (bs : List (List α)) :
    takeBlocks n (b :: bs)
      = (b :: (takeBlocks (n - b.length) bs).1, (takeBlocks (n - b.length) bs).2) := by
  cases n with
  | zero => exact absurd hn (Nat.lt_irrefl 0)
  | succ n => rfl

theorem takeBlocks_append (n : Nat) (bs : List (List α)) :
    (takeBlocks n bs).1 ++ (takeBlocks n bs).2 = bs := by
  induction bs generalizing n with
  | nil => cases n <;> rfl
  | cons b bs ih =>
    cases n with
    | zero => rfl
    | succ n => rw [takeBlocks_cons (show 0 < n + 1 by omega), List.cons_append, ih]

theorem takeBlocks_flatten (n : Nat) (bs : List (List α)) :
    (takeBlocks n bs).1.flatten ++ (takeBlocks n bs).2.flatten = bs.flatten := by
  rw [← List.flatten_append, takeBlocks_append]

/-- Without empty blocks there are none behind those taken. -/
theorem takeBlocks_ne_nil {bs : List (List α)} (hne : ∀ b ∈ bs, b ≠ []) (n : Nat) :
    ∀ b ∈ (takeBlocks n bs).2, b ≠ [] := by
  intro b hb
  refine hne b ?_
  rw [← takeBlocks_append n bs]
  exact List.mem_append_right _ hb

theorem takeBlocks_le {n : Nat} {bs : List (List α)} (h : n ≤ bs.flatten.length) :
    n ≤ (takeBlocks n bs).1.flatten.length := by
  induction bs generalizing n with
  | nil =>
    have : n = 0 := by simpa using h
    simp [this]
  | cons b bs ih =>
    cases n with
    | zero => exact Nat.zero_le _
    | succ n =>
      rw [List.flatten_cons, List.length_append] at h
      have hrec := ih (n := n + 1 - b.length) (by omega)
      rw [takeBlocks_cons (show 0 < n + 1 by omega), List.flatten_cons, List.length_append]
      omega

/-- What is taken starts with the first elements of the sequence. -/
theorem takeBlocks_prefix {bs : List (List α)} {x y : List α} (h : bs.flatten = x ++ y) :
    ∃ r, (takeBlocks x.length bs).1.flatten = x ++ r ∧
      r ++ (takeBlocks x.length bs).2.flatten = y := by
  have hcut := takeBlocks_flatten x.length bs
  have hlen : x.length ≤ (takeBlocks x.length bs).1.flatten.length :=
    takeBlocks_le (by rw [h, List.length_append]; omega)
  rw [h] at hcut
  obtain ⟨r, hr⟩ : x <+: (takeBlocks x.length bs).1.flatten :=
    List.prefix_of_prefix_length_le (List.prefix_append x y) ⟨_, hcut⟩ hlen
  refine ⟨r, hr.symm, ?_⟩
  rw [← hr, List.append_assoc] at hcut
  exact List.append_cancel_left hcut

/-- Blocks that hold enough are all that is looked at. -/
theorem takeBlocks_append_right {n : Nat} {bs : List (List α)} (h : n ≤ bs.flatten.length)
    (rs : List (List α)) :
    takeBlocks n (bs ++ rs) = ((takeBlocks n bs).1, (takeBlocks n bs).2 ++ rs) := by
  induction bs generalizing n with
  | nil =>
    have hzero : n = 0 := by simpa using h
    subst hzero
    rw [takeBlocks_zero, takeBlocks_zero]
  | cons b bs ih =>
    cases n with
    | zero => rfl
    | succ n =>
      rw [List.flatten_cons, List.length_append] at h
      rw [List.cons_append, takeBlocks_cons (Nat.succ_pos n), takeBlocks_cons (Nat.succ_pos n),
        ih (by omega)]

/-- Taking `n` elements and then what `n + m` elements still need is taking
`n + m` elements. -/
theorem takeBlocks_add (n m : Nat) (bs : List (List α)) :
    takeBlocks (n + m) bs
      = ((takeBlocks n bs).1
            ++ (takeBlocks (n + m - (takeBlocks n bs).1.flatten.length) (takeBlocks n bs).2).1,
          (takeBlocks (n + m - (takeBlocks n bs).1.flatten.length) (takeBlocks n bs).2).2) := by
  induction bs generalizing n with
  | nil => cases n <;> cases m <;> rfl
  | cons b bs ih =>
    cases n with
    | zero => simp
    | succ n =>
      rw [takeBlocks_cons (show 0 < n + 1 + m by omega), takeBlocks_cons (show 0 < n + 1 by omega)]
      simp only [List.flatten_cons, List.length_append, List.cons_append, Prod.mk.injEq,
        List.cons.injEq, true_and]
      rcases Nat.lt_or_ge (n + 1) b.length with hlt | hge
      · -- the first block alone already covers the first `n + 1` elements
        have h0 : n + 1 - b.length = 0 := by omega
        simp [h0]
      · have hstep := ih (n + 1 - b.length)
        have hnm : n + 1 - b.length + m = n + 1 + m - b.length := by omega
        rw [hnm] at hstep
        rw [hstep, Nat.sub_sub]
        exact ⟨rfl, rfl⟩

/-- A boundary between blocks is where the taking stops. -/
theorem takeBlocks_of_append {us rs : List (List α)} (hne : ∀ b ∈ us, b ≠ []) :
    takeBlocks us.flatten.length (us ++ rs) = (us, rs) := by
  induction us with
  | nil => simp
  | cons u us ih =>
    have hu : 0 < u.length := List.length_pos_iff.mpr (hne u (by simp))
    have ih := ih fun b hb => hne b (by simp [hb])
    rw [List.cons_append, List.flatten_cons, List.length_append, takeBlocks_cons (by omega),
      Nat.add_sub_cancel_left, ih]

/-- The blocks `bs` split into consecutive groups that spell `parts` one by one:
no block reaches over the end of a part. -/
def Groups (bs parts : List (List α)) : Prop :=
  ∃ gs : List (List (List α)), gs.flatten = bs ∧ gs.map List.flatten = parts

theorem groups_nil {bs : List (List α)} : Groups bs [] ↔ bs = [] := by
  constructor
  · intro h
    obtain ⟨gs, hbs, hparts⟩ := h
    rw [List.map_eq_nil_iff] at hparts
    rw [← hbs, hparts, List.flatten_nil]
  · rintro rfl
    exact ⟨[], rfl, rfl⟩

/-- The first group is what taking the first part's length takes. -/
theorem groups_cons {bs : List (List α)} {p : List α} {ps : List (List α)}
    (hne : ∀ b ∈ bs, b ≠ []) :
    Groups bs (p :: ps) ↔
      (takeBlocks p.length bs).1.flatten = p ∧ Groups (takeBlocks p.length bs).2 ps := by
  constructor
  · intro h
    obtain ⟨gs, hbs, hparts⟩ := h
    cases gs with
    | nil => cases hparts
    | cons g gs =>
      simp only [List.map_cons, List.cons.injEq] at hparts
      obtain ⟨hg, hgs⟩ := hparts
      have hbs' : bs = g ++ gs.flatten := by rw [← hbs, List.flatten_cons]
      have htake : takeBlocks g.flatten.length (g ++ gs.flatten) = (g, gs.flatten) :=
        takeBlocks_of_append fun b hb => hne b (by rw [hbs']; exact List.mem_append_left _ hb)
      rw [hg, ← hbs'] at htake
      rw [htake]
      exact ⟨hg, gs, rfl, hgs⟩
  · intro h
    obtain ⟨hfirst, gs, hbs, hparts⟩ := h
    refine ⟨(takeBlocks p.length bs).1 :: gs, ?_, by rw [List.map_cons, hfirst, hparts]⟩
    rw [List.flatten_cons, hbs, takeBlocks_append]

end Gurted.Lib
