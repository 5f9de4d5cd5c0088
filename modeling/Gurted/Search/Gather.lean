import Mathlib.Order.Lattice.Nat
import Gurted.Search.HotCache

/-!
# Gathering shards (`gather_with_timeout` of `gurtd/src/search/mod.rs`)

The shards run from the start, but they are awaited one after the other, and the timer of
a shard starts when its turn comes. `dropsLate_iff` says for which completion times this
drops the late shards and no others.
-/

namespace Gurted.Search

open Gurted

variable {S : Type*}

/-! ## `gather_with_timeout` -/

/-- A task on its way: when it is done, in nanoseconds since it was spawned, and what it
returns; `none` if it panics. -/
structure ShardTask (S : Type*) where
  finish : Nat
  result : Option (List (SearchResultItem S))

/-- The loop over the handles, at an instant. -/
def gatherLoop (perShardTimeout now : Nat) :
    List (ShardTask S) → List (List (SearchResultItem S))
  | [] => []
  | h :: handles =>
      -- what is ready when the timer runs out still counts
      if h.finish ≤ now + perShardTimeout then
        h.result.toList ++ gatherLoop perShardTimeout (max now h.finish) handles
      else gatherLoop perShardTimeout (now + perShardTimeout) handles

def gatherWithTimeout (tasks : List (ShardTask S)) (perShardTimeout : Nat) :
    List (List (SearchResultItem S)) :=
  gatherLoop perShardTimeout 0 tasks

/-! ## Late shards -/

/-- A shard: when it completes, and its results. -/
structure Shard (S : Type*) where
  finish : Nat
  items : List (SearchResultItem S)

def Shard.task (s : Shard S) : ShardTask S := ⟨s.finish, some s.items⟩

/-- The results of the shards that are done by the timeout, in order. -/
def onTime (timeout : Nat) (shards : List (Shard S)) : List (List (SearchResultItem S)) :=
  (shards.filter (·.finish ≤ timeout)).map Shard.items

/-- Exactly the late shards are dropped. -/
def DropsLate (shards : List (Shard S)) (timeout : Nat) : Prop :=
  gatherWithTimeout (shards.map Shard.task) timeout = onTime timeout shards

/-- How long shards keep the one behind them waiting, if the late ones are dropped: each
late one for the timeout, and those before the first late one until the last of them is
done. -/
def waited (timeout : Nat) (before : List (Shard S)) : Nat :=
  ((before.takeWhile (·.finish ≤ timeout)).map Shard.finish).foldr max 0
    + before.countP (timeout < ·.finish) * timeout

/-- Behind its wait a shard has its own timeout: a late one is done after both. -/
def LateEnough (shards : List (Shard S)) (timeout : Nat) : Prop :=
  ∀ before s behind, shards = before ++ s :: behind → timeout < s.finish →
    waited timeout before + timeout < s.finish

section Waiting
variable {timeout : Nat} {before : List (Shard S)} {s : Shard S}

theorem foldr_max_concat (l : List Nat) (n : Nat) :
    (l ++ [n]).foldr max 0 = max (l.foldr max 0) n := by
  induction l with
  | nil => exact max_comm n 0
  | cons a l ih => rw [List.cons_append, List.foldr_cons, ih, List.foldr_cons, max_assoc]

/-- What does not go through a list does not come to what is appended. -/
theorem takeWhile_concat_of_exists {α : Type*} {p : α → Bool} {l : List α} {b : α} (hb : b ∈ l)
    (hp : p b = false) (a : α) : (l ++ [a]).takeWhile p = l.takeWhile p := by
  rw [List.takeWhile_append, if_neg]
  intro hlen
  have hself := (List.takeWhile_prefix p).eq_of_length hlen
  rw [← hself] at hb
  rw [List.mem_takeWhile_imp hb] at hp
  cases hp

theorem waited_nil : waited timeout ([] : List (Shard S)) = 0 := by simp [waited]

/-- A late shard adds the timeout. -/
theorem waited_concat_late (h : timeout < s.finish) :
    waited timeout (before ++ [s]) = waited timeout before + timeout := by
  have hs : decide (s.finish ≤ timeout) = false := decide_eq_false (Nat.not_le.mpr h)
  have hwhile : (before ++ [s]).takeWhile (·.finish ≤ timeout)
      = before.takeWhile (·.finish ≤ timeout) := by
    by_cases hall : ∀ b ∈ before, decide (b.finish ≤ timeout) = true
    · have hself : before.takeWhile (·.finish ≤ timeout) = before :=
        List.takeWhile_eq_self_iff.mpr hall
      rw [List.takeWhile_append_of_pos hall, List.takeWhile_cons, hs, hself]
      exact List.append_nil _
    · simp only [not_forall, Bool.not_eq_true] at hall
      obtain ⟨b, hb, hlate⟩ := hall
      exact takeWhile_concat_of_exists hb hlate s
  rw [waited, hwhile, List.countP_append, List.countP_singleton, decide_eq_true h, if_pos rfl,
    Nat.add_mul, Nat.one_mul, ← Nat.add_assoc, ← waited]

/-- A shard that is on time holds the others up until it is done, and not at all if one
before it was late. -/
theorem waited_concat_onTime (h : s.finish ≤ timeout) :
    waited timeout (before ++ [s]) = max (waited timeout before) s.finish := by
  have hs : decide (timeout < s.finish) = false := decide_eq_false (Nat.not_lt.mpr h)
  have hcount : (before ++ [s]).countP (timeout < ·.finish)
      = before.countP (timeout < ·.finish) := by
    rw [List.countP_append, List.countP_singleton, hs, if_neg Bool.false_ne_true, Nat.add_zero]
  by_cases hall : ∀ b ∈ before, decide (b.finish ≤ timeout) = true
  · have hself : before.takeWhile (·.finish ≤ timeout) = before :=
      List.takeWhile_eq_self_iff.mpr hall
    have hnone : before.countP (timeout < ·.finish) = 0 := by
      refine List.countP_eq_zero.mpr fun b hb hlate => ?_
      have := of_decide_eq_true (hall b hb)
      have := of_decide_eq_true hlate
      omega
    rw [waited, waited, hcount, hnone, List.takeWhile_append_of_pos hall, List.takeWhile_cons,
      decide_eq_true h, hself, List.takeWhile_nil, if_pos rfl, List.map_append, List.map_singleton,
      foldr_max_concat, Nat.zero_mul, Nat.add_zero, Nat.add_zero]
  · simp only [not_forall, Bool.not_eq_true] at hall
    obtain ⟨b, hb, hlate⟩ := hall
    have hpos : 0 < before.countP (timeout < ·.finish) := by
      refine List.countP_pos_iff.mpr ⟨b, hb, ?_⟩
      rw [decide_eq_false_iff_not, Nat.not_le] at hlate
      exact decide_eq_true hlate
    have hlong : timeout ≤ waited timeout before := by
      rw [waited]
      exact (Nat.le_mul_of_pos_left timeout hpos).trans (Nat.le_add_left _ _)
    rw [max_eq_left (h.trans hlong), waited, waited, hcount,
      takeWhile_concat_of_exists (p := fun x : Shard S => decide (x.finish ≤ timeout)) hb hlate s]

end Waiting

/-! ## Which shards are dropped -/

section Loop
variable {timeout now : Nat} {s : Shard S} (shards : List (Shard S))

theorem gatherLoop_ready (h : s.finish ≤ now + timeout) :
    gatherLoop timeout now ((s :: shards).map Shard.task)
      = s.items :: gatherLoop timeout (max now s.finish) (shards.map Shard.task) :=
  if_pos h

theorem gatherLoop_timedOut (h : now + timeout < s.finish) :
    gatherLoop timeout now ((s :: shards).map Shard.task)
      = gatherLoop timeout (now + timeout) (shards.map Shard.task) :=
  if_neg (Nat.not_le.mpr h)

theorem onTime_cons_of_le (h : s.finish ≤ timeout) :
    onTime timeout (s :: shards) = s.items :: onTime timeout shards := by
  rw [onTime, List.filter_cons, decide_eq_true h, if_pos rfl]
  rfl

theorem onTime_cons_of_lt (h : timeout < s.finish) :
    onTime timeout (s :: shards) = onTime timeout shards := by
  rw [onTime, List.filter_cons, decide_eq_false (Nat.not_le.mpr h), if_neg Bool.false_ne_true]
  rfl

end Loop

/-- What is on time is there, whatever the instant. -/
theorem onTime_length_le (timeout now : Nat) (shards : List (Shard S)) :
    (onTime timeout shards).length ≤ (gatherLoop timeout now (shards.map Shard.task)).length := by
  induction shards generalizing now with
  | nil => exact Nat.le_refl _
  | cons s shards ih =>
    by_cases hin : s.finish ≤ timeout
    · rw [onTime_cons_of_le shards hin, gatherLoop_ready shards (by omega)]
      exact Nat.succ_le_succ (ih _)
    · rw [onTime_cons_of_lt shards (by omega)]
      by_cases hready : s.finish ≤ now + timeout
      · rw [gatherLoop_ready shards hready]
        exact (ih _).trans (Nat.le_succ _)
      · rw [gatherLoop_timedOut shards (by omega)]
        exact ih _

/-- The places in a list: the first one, and those behind. -/
theorem forall_split_cons {α : Type*} {a : α} {l : List α} {P : List α → α → Prop} :
    (∀ pre b post, a :: l = pre ++ b :: post → P pre b) ↔
      P [] a ∧ ∀ pre b post, l = pre ++ b :: post → P (a :: pre) b := by
  constructor
  · exact fun h => ⟨h [] a l rfl, fun pre b post hl => h (a :: pre) b post (by rw [hl]; rfl)⟩
  · rintro ⟨hfirst, hrest⟩ pre b post heq
    cases pre with
    | nil =>
      cases heq
      exact hfirst
    | cons c pre =>
      cases heq
      exact hrest pre b post rfl

/-- **The loop**, when the shards before have kept it waiting: it drops the late shards
exactly if they are late enough. -/
theorem gatherLoop_eq_iff (timeout : Nat) (before shards : List (Shard S)) :
    gatherLoop timeout (waited timeout before) (shards.map Shard.task) = onTime timeout shards ↔
      ∀ pre s behind, shards = pre ++ s :: behind → timeout < s.finish →
        waited timeout (before ++ pre) + timeout < s.finish := by
  induction shards generalizing before with
  | nil => exact iff_of_true rfl fun pre s behind h => by simp at h
  | cons s shards ih =>
    have hrec := ih (before ++ [s])
    simp only [List.append_assoc, List.singleton_append] at hrec
    rw [forall_split_cons (P := fun (pre : List (Shard S)) (s : Shard S) =>
      timeout < s.finish → waited timeout (before ++ pre) + timeout < s.finish), List.append_nil,
      ← hrec]
    by_cases hin : s.finish ≤ timeout
    · -- on time: it is there, and the next one waits for it
      rw [onTime_cons_of_le shards hin, gatherLoop_ready shards (by omega),
        waited_concat_onTime hin, List.cons.injEq, and_iff_right rfl,
        and_iff_right fun hlate => absurd hlate (by omega)]
    · have hlate : timeout < s.finish := by omega
      rw [onTime_cons_of_lt shards hlate]
      by_cases hready : s.finish ≤ waited timeout before + timeout
      · -- late, but done before its own timer runs out
        rw [gatherLoop_ready shards hready]
        refine iff_of_false (fun heq => ?_) fun h => absurd (h.1 hlate) (by omega)
        have hle := onTime_length_le timeout (max (waited timeout before) s.finish) shards
        rw [← heq, List.length_cons] at hle
        omega
      · rw [gatherLoop_timedOut shards (by omega), waited_concat_late hlate,
          and_iff_right fun _ => by omega]

/-- **When the late shards are dropped.** For every list of completion times and every
timeout: the results are those of the shards that are done by the timeout if and only if
each late shard is done later than the shards before keep it waiting and its own timer
runs. -/
theorem dropsLate_iff (shards : List (Shard S)) (timeout : Nat) :
    DropsLate shards timeout ↔ LateEnough shards timeout := by
  have hloop := gatherLoop_eq_iff timeout [] shards
  simp only [List.nil_append, waited_nil] at hloop
  exact hloop

/-- Done after 8, and after 15. -/
def slowThenLate : List (Shard Nat) := [⟨8, []⟩, ⟨15, [⟨['b'], ['b'], 2⟩]⟩]

/-- With a timeout of 10 the second shard is awaited until 18. -/
theorem not_dropsLate_slowThenLate : ¬ DropsLate slowThenLate 10 := by
  intro h
  have hlength := congrArg List.length h
  exact absurd hlength (by decide)

end Gurted.Search
