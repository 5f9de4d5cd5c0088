import Mathlib.Data.List.Basic
import Mathlib.Data.List.Induction
import Mathlib.Data.List.Pairwise

/-!
# Limiting submissions (`IpRateLimiter` of `gurtd/src/router/api.rs`)

For each IP the limiter keeps a queue of the instants at which it let a call
through, and drops from its front what is older than the window. Instants and
the window are in nanoseconds. `slidingWindow` says what this comes to over a
whole history of calls: an exact sliding window for every IP.
-/

namespace Gurted.Router

variable {IpAddr : Type*} [DecidableEq IpAddr]

/-! ## The limiter -/

structure IpRateLimiter (IpAddr : Type*) where
  max : Nat
  window : Nat
  map : IpAddr → Option (List Nat)

def IpRateLimiter.new (max window : Nat) : IpRateLimiter IpAddr := ⟨max, window, fun _ => none⟩

/-- The `while let` loop over the front of the queue. `duration_since` is 0 for an
instant that is still to come. -/
def dropOld (window now : Nat) : List Nat → List Nat
  | [] => []
  | t :: q => if window < now - t then dropOld window now q else t :: q

/-- A call of `allow` for an IP, at the instant it reads. -/
structure Attempt (IpAddr : Type*) where
  ip : IpAddr
  now : Nat
  deriving DecidableEq, Repr

/-- `allow`. -/
def IpRateLimiter.allow (l : IpRateLimiter IpAddr) (a : Attempt IpAddr) :
    Bool × IpRateLimiter IpAddr :=
  let q := dropOld l.window a.now ((l.map a.ip).getD [])
  if q.length < l.max then
    (true, { l with map := Function.update l.map a.ip (some (q ++ [a.now])) })
  else (false, { l with map := Function.update l.map a.ip (some q) })

/-! ## Histories of calls -/

/-- The limiter after some calls. -/
def IpRateLimiter.after (l : IpRateLimiter IpAddr) (calls : List (Attempt IpAddr)) :
    IpRateLimiter IpAddr :=
  calls.foldl (fun l a => (l.allow a).2) l

/-- The answer to a call that comes after others. -/
def allowed (max window : Nat) (calls : List (Attempt IpAddr)) (a : Attempt IpAddr) : Bool :=
  (((IpRateLimiter.new max window).after calls).allow a).1

/-- The calls that a limiter answers with true. -/
def IpRateLimiter.accepted (l : IpRateLimiter IpAddr) :
    List (Attempt IpAddr) → List (Attempt IpAddr)
  | [] => []
  | a :: calls =>
      if (l.allow a).1 then a :: (l.allow a).2.accepted calls else (l.allow a).2.accepted calls

/-- The calls of a history that were answered with true. -/
def accepted (max window : Nat) (calls : List (Attempt IpAddr)) : List (Attempt IpAddr) :=
  (IpRateLimiter.new max window).accepted calls

/-- An accepted call of the same IP that is not older than the window. -/
def InWindow (window : Nat) (a e : Attempt IpAddr) : Prop := e.ip = a.ip ∧ a.now - e.now ≤ window

instance (window : Nat) (a e : Attempt IpAddr) : Decidable (InWindow window a e) :=
  inferInstanceAs (Decidable (_ ∧ _))

/-- A call of an IP in the closed interval of length `window` from `start` on. -/
def InInterval (window : Nat) (ip : IpAddr) (start : Nat) (e : Attempt IpAddr) : Prop :=
  e.ip = ip ∧ start ≤ e.now ∧ e.now ≤ start + window

instance (window : Nat) (ip : IpAddr) (start : Nat) (e : Attempt IpAddr) :
    Decidable (InInterval window ip start e) := inferInstanceAs (Decidable (_ ∧ _))

/-- What a sliding window promises for a history of calls. -/
structure SlidingWindow (max window : Nat) (calls : List (Attempt IpAddr)) : Prop where
  /-- A call is let through if and only if fewer than `max` earlier ones of its IP
  were in the window before it. -/
  exact : ∀ pre a post, calls = pre ++ a :: post →
    (allowed max window pre a = true ↔
      ((accepted max window pre).countP fun e => InWindow window a e) < max)
  /-- No interval as long as the window holds more than `max` accepted calls. -/
  interval : ∀ ip start,
    ((accepted max window calls).countP fun e => InInterval window ip start e) ≤ max
  /-- A rejected call uses up nothing: without it, later answers are the same. -/
  rejected : ∀ pre r mid a post, calls = pre ++ r :: (mid ++ a :: post) →
    allowed max window pre r = false →
    allowed max window (pre ++ r :: mid) a = allowed max window (pre ++ mid) a
  /-- The calls of other IPs do not matter. -/
  others : ∀ pre a post, calls = pre ++ a :: post →
    allowed max window pre a = allowed max window (pre.filter (·.ip = a.ip)) a

theorem after_append (l : IpRateLimiter IpAddr) (xs ys : List (Attempt IpAddr)) :
    l.after (xs ++ ys) = (l.after xs).after ys := List.foldl_append

theorem accepted_append (l : IpRateLimiter IpAddr) (xs ys : List (Attempt IpAddr)) :
    l.accepted (xs ++ ys) = l.accepted xs ++ (l.after xs).accepted ys := by
  induction xs generalizing l with
  | nil => rfl
  | cons a xs ih =>
    rw [List.cons_append, IpRateLimiter.accepted, IpRateLimiter.accepted, ih]
    split <;> rfl

/-- One more call. -/
theorem accepted_concat (max window : Nat) (calls : List (Attempt IpAddr)) (a : Attempt IpAddr) :
    accepted max window (calls ++ [a])
      = accepted max window calls ++ if allowed max window calls a then [a] else [] := by
  rw [accepted, accepted_append, accepted]
  congr 1

/-! ## The queues -/

/-- What the loop drops is older than the window, and in a sorted queue it drops
all of that. -/
theorem dropOld_spec (window now : Nat) {q : List Nat} (hq : q.Pairwise (· ≤ ·)) :
    ∃ old, q = old ++ dropOld window now q ∧ (∀ t ∈ old, window < now - t) ∧
      ∀ t ∈ dropOld window now q, now - t ≤ window := by
  induction q with
  | nil => exact ⟨[], rfl, by simp, by simp [dropOld]⟩
  | cons t q ih =>
    obtain ⟨hhead, htail⟩ := List.pairwise_cons.mp hq
    rw [dropOld]
    split
    · next hold =>
      obtain ⟨old, heq, holds, hkept⟩ := ih htail
      refine ⟨t :: old, by rw [List.cons_append, ← heq], ?_, hkept⟩
      intro u hu
      rcases List.mem_cons.mp hu with rfl | hu
      · exact hold
      · exact holds u hu
    · next hfront =>
      -- the front is in the window, and nothing behind it is older
      refine ⟨[], rfl, by simp, ?_⟩
      intro u hu
      rcases List.mem_cons.mp hu with rfl | hu
      · omega
      · have := hhead u hu
        omega

/-- The queue of an IP. -/
def IpRateLimiter.queue (l : IpRateLimiter IpAddr) (ip : IpAddr) : List Nat :=
  (l.map ip).getD []

theorem allow_eq (l : IpRateLimiter IpAddr) (a : Attempt IpAddr) :
    (l.allow a).1 = decide ((dropOld l.window a.now (l.queue a.ip)).length < l.max) := by
  rw [IpRateLimiter.allow, IpRateLimiter.queue]
  split
  · next h => simp [h]
  · next h => simp [h]

theorem allow_limits (l : IpRateLimiter IpAddr) (a : Attempt IpAddr) :
    (l.allow a).2.max = l.max ∧ (l.allow a).2.window = l.window := by
  rw [IpRateLimiter.allow]
  split <;> exact ⟨rfl, rfl⟩

/-- A call touches the queue of its IP only. -/
theorem queue_allow (l : IpRateLimiter IpAddr) (a : Attempt IpAddr) (ip : IpAddr) :
    (l.allow a).2.queue ip
      = if ip = a.ip then
          dropOld l.window a.now (l.queue a.ip) ++ if (l.allow a).1 then [a.now] else []
        else l.queue ip := by
  by_cases hip : ip = a.ip
  · subst hip
    rw [if_pos rfl, allow_eq]
    simp only [IpRateLimiter.allow, IpRateLimiter.queue]
    split
    · next h => simp [h]
    · next h => simp [h]
  · rw [if_neg hip]
    simp only [IpRateLimiter.allow, IpRateLimiter.queue]
    split <;> simp [Function.update_of_ne hip]

/-- The instants of the accepted calls of an IP. -/
def timesOf (ip : IpAddr) (taken : List (Attempt IpAddr)) : List Nat :=
  (taken.filter (·.ip = ip)).map (·.now)

theorem timesOf_append (ip : IpAddr) (xs ys : List (Attempt IpAddr)) :
    timesOf ip (xs ++ ys) = timesOf ip xs ++ timesOf ip ys := by
  rw [timesOf, List.filter_append, List.map_append, ← timesOf, ← timesOf]

/-- Every queue holds the accepted instants of its IP but for some that are older
than the window at `now` already. -/
structure Tracks (l : IpRateLimiter IpAddr) (taken : List (Attempt IpAddr)) (now : Nat) :
    Prop where
  queue : ∀ ip, ∃ old, timesOf ip taken = old ++ l.queue ip ∧ ∀ t ∈ old, l.window < now - t
  sorted : (taken.map (·.now)).Pairwise (· ≤ ·)
  past : ∀ e ∈ taken, e.now ≤ now

theorem Tracks.later {l : IpRateLimiter IpAddr} {taken : List (Attempt IpAddr)} {now now' : Nat}
    (h : Tracks l taken now) (hle : now ≤ now') : Tracks l taken now' := by
  refine ⟨fun ip => ?_, h.sorted, fun e he => Nat.le_trans (h.past e he) hle⟩
  obtain ⟨old, heq, hold⟩ := h.queue ip
  refine ⟨old, heq, fun t ht => ?_⟩
  have := hold t ht
  omega

theorem timesOf_sorted {ip : IpAddr} {taken : List (Attempt IpAddr)}
    (h : (taken.map (·.now)).Pairwise (· ≤ ·)) : (timesOf ip taken).Pairwise (· ≤ ·) :=
  h.sublist (List.filter_sublist.map _)

/-- The loop leaves what is in the window. -/
theorem Tracks.dropOld {l : IpRateLimiter IpAddr} {taken : List (Attempt IpAddr)}
    {a : Attempt IpAddr} (h : Tracks l taken a.now) :
    ∃ old, timesOf a.ip taken = old ++ dropOld l.window a.now (l.queue a.ip) ∧
      (∀ t ∈ old, l.window < a.now - t) ∧
      ∀ t ∈ Router.dropOld l.window a.now (l.queue a.ip), a.now - t ≤ l.window := by
  obtain ⟨old₁, heq, hold₁⟩ := h.queue a.ip
  have hsorted : (timesOf a.ip taken).Pairwise (· ≤ ·) := timesOf_sorted h.sorted
  rw [heq] at hsorted
  obtain ⟨old₂, hq, hold₂, hkept⟩ :=
    dropOld_spec l.window a.now (List.pairwise_append.mp hsorted).2.1
  refine ⟨old₁ ++ old₂, by rw [heq, List.append_assoc, ← hq], fun t ht => ?_, hkept⟩
  rcases List.mem_append.mp ht with ht | ht
  · exact hold₁ t ht
  · exact hold₂ t ht

/-- The length of the queue counts the accepted calls in the window. -/
theorem Tracks.count {l : IpRateLimiter IpAddr} {taken : List (Attempt IpAddr)}
    {a : Attempt IpAddr} (h : Tracks l taken a.now) :
    (taken.countP fun e => InWindow l.window a e)
      = (Router.dropOld l.window a.now (l.queue a.ip)).length := by
  obtain ⟨old, heq, hold, hkept⟩ := h.dropOld
  have hcount : (taken.countP fun e => InWindow l.window a e)
      = (timesOf a.ip taken).countP fun t => a.now - t ≤ l.window := by
    rw [timesOf, List.countP_map, List.countP_filter]
    refine List.countP_congr fun e _ => ?_
    simp [InWindow, and_comm]
  have hnone : (old.countP fun t => a.now - t ≤ l.window) = 0 := by
    rw [List.countP_eq_zero]
    intro t ht
    have := hold t ht
    simp only [decide_eq_true_eq]
    omega
  have hall : ((Router.dropOld l.window a.now (l.queue a.ip)).countP fun t => a.now - t ≤ l.window)
      = (Router.dropOld l.window a.now (l.queue a.ip)).length := by
    rw [List.countP_eq_length]
    intro t ht
    exact decide_eq_true (hkept t ht)
  rw [hcount, heq, List.countP_append, hnone, hall, Nat.zero_add]

/-- **One call.** It is let through if and only if fewer than `max` accepted calls
of its IP are in the window, and the queues keep track. -/
theorem Tracks.allow {l : IpRateLimiter IpAddr} {taken : List (Attempt IpAddr)}
    {a : Attempt IpAddr} (h : Tracks l taken a.now) :
    ((l.allow a).1 = true ↔ (taken.countP fun e => InWindow l.window a e) < l.max) ∧
      Tracks (l.allow a).2 (taken ++ if (l.allow a).1 then [a] else []) a.now := by
  refine ⟨by rw [allow_eq, decide_eq_true_iff, h.count], fun ip => ?_, ?_, fun e he => ?_⟩
  · rw [(allow_limits l a).2, queue_allow, timesOf_append]
    by_cases hip : ip = a.ip
    · subst hip
      obtain ⟨old, heq, hold, -⟩ := h.dropOld
      refine ⟨old, ?_, hold⟩
      rw [if_pos rfl, heq, List.append_assoc]
      congr 2
      split <;> simp [timesOf]
    · obtain ⟨old, heq, hold⟩ := h.queue ip
      refine ⟨old, ?_, hold⟩
      have hother : timesOf ip (if (l.allow a).1 then [a] else []) = [] := by
        split <;> simp [timesOf, Ne.symm hip]
      rw [if_neg hip, hother, List.append_nil, heq]
  · rw [List.map_append, List.pairwise_append]
    refine ⟨h.sorted, ?_, fun t ht u hu => ?_⟩
    · split <;> simp
    · obtain ⟨e, he, rfl⟩ := List.mem_map.mp ht
      have hu : u = a.now := by
        split at hu
        · simpa using hu
        · cases hu
      rw [hu]
      exact h.past e he
  · rcases List.mem_append.mp he with he | he
    · exact h.past e he
    · split at he
      · exact Nat.le_of_eq (congrArg _ (List.mem_singleton.mp he))
      · cases he

/-! ## Whole histories -/

theorem after_limits (l : IpRateLimiter IpAddr) (calls : List (Attempt IpAddr)) :
    (l.after calls).max = l.max ∧ (l.after calls).window = l.window := by
  induction calls generalizing l with
  | nil => exact ⟨rfl, rfl⟩
  | cons a calls ih =>
    obtain ⟨hmax, hwindow⟩ := ih (l.allow a).2
    exact ⟨hmax.trans (allow_limits l a).1, hwindow.trans (allow_limits l a).2⟩

section Sorted
variable {max window : Nat} {calls : List (Attempt IpAddr)}

theorem tracks_after (hsorted : calls.Pairwise (·.now ≤ ·.now)) {now : Nat}
    (hpast : ∀ e ∈ calls, e.now ≤ now) :
    Tracks ((IpRateLimiter.new max window).after calls) (accepted max window calls) now := by
  induction calls using List.reverseRecOn generalizing now with
  | nil => exact ⟨fun ip => ⟨[], rfl, by simp⟩, .nil, by simp [accepted, IpRateLimiter.accepted]⟩
  | append_singleton calls a ih =>
    obtain ⟨hinit, -, hlast⟩ := List.pairwise_append.mp hsorted
    have hbefore : ∀ e ∈ calls, e.now ≤ a.now := fun e he => hlast e he a (by simp)
    have hstep := (ih hinit hbefore).allow.2
    rw [after_append, accepted_concat]
    exact hstep.later (hpast a (by simp))

/-- The answer to a call that comes last. -/
theorem allowed_iff {a : Attempt IpAddr} (hsorted : (calls ++ [a]).Pairwise (·.now ≤ ·.now)) :
    allowed max window calls a = true ↔
      ((accepted max window calls).countP fun e => InWindow window a e) < max := by
  obtain ⟨hinit, -, hlast⟩ := List.pairwise_append.mp hsorted
  have htracks : Tracks ((IpRateLimiter.new max window).after calls)
      (accepted max window calls) a.now :=
    tracks_after hinit fun e he => hlast e he a (by simp)
  obtain ⟨hmax, hwindow⟩ := after_limits (IpRateLimiter.new max window) calls
  rw [allowed, htracks.allow.1, hmax, hwindow]
  rfl

theorem interval_le (hsorted : calls.Pairwise (·.now ≤ ·.now)) (ip : IpAddr) (start : Nat) :
    ((accepted max window calls).countP fun e => InInterval window ip start e) ≤ max := by
  induction calls using List.reverseRecOn with
  | nil => exact Nat.zero_le _
  | append_singleton calls a ih =>
    have hinit := (List.pairwise_append.mp hsorted).1
    rw [accepted_concat, List.countP_append]
    by_cases hlast : allowed max window calls a = true ∧ InInterval window ip start a
    · -- the earlier ones of the interval are in the window before the last one
      obtain ⟨hallowed, hip, hstart, hstop⟩ := hlast
      have hfewer := (allowed_iff hsorted).mp hallowed
      have hmono : ((accepted max window calls).countP fun e => InInterval window ip start e)
          ≤ (accepted max window calls).countP fun e => InWindow window a e := by
        refine List.countP_mono_left fun e _ hin => ?_
        obtain ⟨heip, hestart, -⟩ := of_decide_eq_true hin
        exact decide_eq_true ⟨heip.trans hip.symm, by omega⟩
      have hone : ((if allowed max window calls a then [a] else []).countP
          fun e => InInterval window ip start e) ≤ 1 := by
        rw [if_pos hallowed]
        exact List.countP_le_length
      omega
    · have hzero : ((if allowed max window calls a then [a] else []).countP
          fun e => InInterval window ip start e) = 0 := by
        rw [List.countP_eq_zero]
        intro e he hin
        split at he
        · next hallowed =>
          rw [List.mem_singleton] at he
          subst he
          exact hlast ⟨hallowed, of_decide_eq_true hin⟩
        · cases he
      rw [hzero]
      exact ih hinit

/-- A history without a rejected call has the same accepted ones. -/
theorem accepted_of_rejected {pre mid : List (Attempt IpAddr)} {r : Attempt IpAddr}
    (hsorted : (pre ++ r :: mid).Pairwise (·.now ≤ ·.now))
    (hrejected : allowed max window pre r = false) :
    accepted max window (pre ++ r :: mid) = accepted max window (pre ++ mid) := by
  induction mid using List.reverseRecOn with
  | nil =>
    rw [accepted_concat, hrejected, List.append_nil]
    simp
  | append_singleton mid a ih =>
    have hshape : pre ++ r :: (mid ++ [a]) = (pre ++ r :: mid) ++ [a] := by simp
    rw [hshape] at hsorted ⊢
    have hsame := ih (List.pairwise_append.mp hsorted).1
    have hwithout : ((pre ++ mid) ++ [a]).Pairwise (·.now ≤ ·.now) :=
      hsorted.sublist (by simp)
    have hanswer : allowed max window (pre ++ r :: mid) a = allowed max window (pre ++ mid) a := by
      rw [Bool.eq_iff_iff, allowed_iff hsorted, allowed_iff hwithout, hsame]
    rw [accepted_concat, hsame, hanswer, ← List.append_assoc, accepted_concat]

end Sorted

/-- The queue of an IP depends on its own calls. -/
theorem queue_after_filter (l : IpRateLimiter IpAddr) (ip : IpAddr)
    (calls : List (Attempt IpAddr)) :
    (l.after calls).queue ip = (l.after (calls.filter (·.ip = ip))).queue ip := by
  induction calls using List.reverseRecOn with
  | nil => rfl
  | append_singleton calls a ih =>
    obtain ⟨hmax, hwindow⟩ := after_limits l calls
    obtain ⟨hmax', hwindow'⟩ := after_limits l (calls.filter (·.ip = ip))
    rw [after_append, List.filter_append]
    by_cases hip : a.ip = ip
    · subst hip
      have hkept : [a].filter (fun e => decide (e.ip = a.ip)) = [a] := by simp
      rw [hkept, after_append]
      show ((l.after calls).allow a).2.queue a.ip
        = ((l.after (calls.filter (·.ip = a.ip))).allow a).2.queue a.ip
      rw [queue_allow, queue_allow, allow_eq, allow_eq, ih, hmax, hwindow, hmax', hwindow']
    · have hdropped : [a].filter (fun e => decide (e.ip = ip)) = [] := by simp [hip]
      rw [hdropped, List.append_nil]
      show ((l.after calls).allow a).2.queue ip = _
      rw [queue_allow, if_neg (Ne.symm hip), ih]

/-- **An exact sliding window for every IP.** For every limit, every window and
every history of calls whose clock does not go back. -/
theorem slidingWindow (max window : Nat) {calls : List (Attempt IpAddr)}
    (hsorted : calls.Pairwise (·.now ≤ ·.now)) : SlidingWindow max window calls where
  exact := by
    intro pre a post hcalls
    refine allowed_iff (hsorted.sublist ?_)
    rw [hcalls]
    exact List.append_sublist_append_left .. |>.mpr (by simp)
  interval := interval_le hsorted
  rejected := by
    intro pre r mid a post hcalls hrejected
    have hwith : ((pre ++ r :: mid) ++ [a]).Pairwise (·.now ≤ ·.now) := by
      refine hsorted.sublist ?_
      rw [hcalls, List.append_assoc]
      exact (List.append_sublist_append_left pre).mpr (by simp)
    have hwithout : ((pre ++ mid) ++ [a]).Pairwise (·.now ≤ ·.now) := hwith.sublist (by simp)
    have hsame := accepted_of_rejected (List.pairwise_append.mp hwith).1 hrejected
    rw [Bool.eq_iff_iff, allowed_iff hwith, allowed_iff hwithout, hsame]
  others := by
    intro pre a post _
    obtain ⟨hmax, hwindow⟩ := after_limits (IpRateLimiter.new max window) pre
    obtain ⟨hmax', hwindow'⟩ :=
      after_limits (IpRateLimiter.new max window) (pre.filter (·.ip = a.ip))
    rw [allowed, allowed, allow_eq, allow_eq, queue_after_filter, hmax, hwindow, hmax', hwindow']

/-- Two calls a minute: the third within it is rejected, and one from another IP
in between changes nothing. -/
theorem slidingWindow_busy :
    SlidingWindow 2 60 [⟨'a', 0⟩, ⟨'a', 10⟩, ⟨'b', 15⟩, ⟨'a', 60⟩, (⟨'a', 61⟩ : Attempt Char)] :=
  slidingWindow 2 60 (by decide)

end Gurted.Router
