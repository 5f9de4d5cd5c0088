import Gurted.Server.Calls

/-!
# A call and the messages on their way to it

What one side has written arrives at the other in pieces. `Call` is the state of a call
that waits for such a message: a part of the message is read and the rest is on its way,
or the call is bound to fail. Each arrival keeps it, and `Call.returned` says what the
call comes to.
-/

namespace Gurted.Dialogue

open Gurted Gurted.Lib Gurted.Api Gurted.Server

/-- The next `n` bytes of a direction, and those after them. A read of 0 bytes is the end:
the other side is gone and nothing is on the way. -/
def arrive (channel : Bytes) (gone : Bool) (n : Nat) : Option (Bytes × Bytes) :=
  if n = 0 then if channel = [] ∧ gone then some ([], []) else none
  else if n ≤ channel.length then some (channel.take n, channel.drop n)
  else none

theorem arrive_cases {channel : Bytes} {gone : Bool} {n : Nat} {bs rest : Bytes}
    (h : arrive channel gone n = some (bs, rest)) :
    (n = 0 ∧ channel = [] ∧ gone = true ∧ bs = [] ∧ rest = []) ∨
      n ≠ 0 ∧ n ≤ channel.length ∧ bs = channel.take n ∧ rest = channel.drop n := by
  rw [arrive] at h
  by_cases hzero : n = 0
  · rw [if_pos hzero] at h
    split at h
    · next hend =>
      cases h
      exact .inl ⟨hzero, hend.1, hend.2, rfl, rfl⟩
    · cases h
  · rw [if_neg hzero] at h
    split at h
    · next hle =>
      cases h
      exact .inr ⟨hzero, hle, rfl, rfl⟩
    · cases h

/-! ## A message on its way -/

/-- A call has read the front of `m` and the rest of it is in the channel. -/
def OnWay (reads : Stream) (channel m : Bytes) : Prop :=
  ∃ cs : List Bytes, (∀ c ∈ cs, c ≠ []) ∧ reads = .ofChunks cs ∧ cs.flatten ++ channel = m

namespace OnWay
variable {R E : Type*} {reads : Stream} {channel m : Bytes}

theorem start (m : Bytes) : OnWay [] m m := ⟨[], by simp, rfl, rfl⟩

theorem append (h : OnWay reads channel m) (more : Bytes) :
    OnWay reads (channel ++ more) (m ++ more) := by
  obtain ⟨cs, hne, hreads, rfl⟩ := h
  exact ⟨cs, hne, hreads, by rw [List.append_assoc]⟩

/-- Nothing is on its way. -/
theorem eq_nil (h : OnWay reads channel []) : reads = [] ∧ channel = [] := by
  obtain ⟨cs, hne, rfl, hcut⟩ := h
  obtain ⟨hread, hchannel⟩ := List.append_eq_nil_iff.mp hcut
  cases cs with
  | nil => exact ⟨rfl, hchannel⟩
  | cons c cs =>
    rw [List.flatten_cons, List.append_eq_nil_iff] at hread
    exact absurd hread.1 (hne c (by simp))

/-- A piece of it arrives. -/
theorem take (h : OnWay reads channel m) {n : Nat} (hpos : n ≠ 0) (hle : n ≤ channel.length) :
    OnWay (reads ++ [.bytes (channel.take n)]) (channel.drop n) m := by
  obtain ⟨cs, hne, rfl, hcut⟩ := h
  refine ⟨cs ++ [channel.take n], ?_, by rw [ofChunks_append]; rfl, ?_⟩
  · intro c hc
    rcases List.mem_append.mp hc with hc | hc
    · exact hne c hc
    · rw [List.mem_singleton.mp hc, ne_eq, List.take_eq_nil_iff, not_or]
      refine ⟨hpos, fun hnil => ?_⟩
      rw [hnil] at hle
      exact hpos (Nat.le_zero.mp hle)
  · rw [List.flatten_append, List.flatten_singleton, List.append_assoc, List.take_append_drop, hcut]

/-- The call has returned when nothing is left of the message. -/
theorem returned (h : OnWay reads channel m) {read : Reader Arrival R} (hread : Sequential read)
    {r : R}
    (htakes : Takes read m r) : returned read reads = if channel = [] then some r else none := by
  obtain ⟨cs, hne, rfl, hcut⟩ := h
  exact htakes.returned_eq hread hne hcut

end OnWay

/-! ## A call in progress -/

section Call
variable {R E : Type*} {read : Reader Arrival (Except E R)} {sent : Bytes → Prop}
  {fails : E → Prop} {reads : Stream} {channel : Bytes}

/-- How a call gets on with the messages the other side may have sent it: it waits for the
first byte of them, takes them, and fails as `fails` says when the connection ends before. -/
structure Awaits (read : Reader Arrival (Except E R)) (sent : Bytes → Prop)
    (fails : E → Prop) : Prop where
  sequential : Sequential read
  first : returned read [] = none
  takes : ∀ m, sent m → m ≠ [] → ∃ r, Takes read m r
  ends : sent [] → ∃ e, fails e ∧ returned read [.bytes []] = some (.error e)

/-- It also fails as `fails` says when the connection breaks. -/
structure Serves (read : Reader Arrival (Except E R)) (sent : Bytes → Prop)
    (fails : E → Prop) : Prop extends Awaits read sent fails where
  breaks : ∀ m, sent m → m ≠ [] → ∃ e, fails e ∧ Breaks read m e
  broken : sent [] → ∃ e, fails e ∧ returned read [.ioError] = some (.error e)

/-- A call in progress: a message is on its way to it, or it has failed. -/
def Call (read : Reader Arrival (Except E R)) (sent : Bytes → Prop) (fails : E → Prop)
    (reads : Stream) (channel : Bytes) : Prop :=
  (∃ m, sent m ∧ OnWay reads channel m) ∨ ∃ e, fails e ∧ returned read reads = some (.error e)

theorem Call.mono (h : Call read sent fails reads channel) {sent' : Bytes → Prop}
    {fails' : E → Prop} (hsent : ∀ m, sent m → sent' m) (hfails : ∀ e, fails e → fails' e) :
    Call read sent' fails' reads channel := by
  rcases h with ⟨m, hm, hway⟩ | ⟨e, he, hfailed⟩
  · exact .inl ⟨m, hsent m hm, hway⟩
  · exact .inr ⟨e, hfails e he, hfailed⟩

/-- A call that waits has not failed. -/
theorem Call.onWay (h : Call read sent fails reads channel) (hwaits : returned read reads = none) :
    ∃ m, sent m ∧ OnWay reads channel m := by
  rcases h with hway | ⟨e, -, hfailed⟩
  · exact hway
  · rw [hfailed] at hwaits
    cases hwaits

theorem Call.arrive (hawaits : Awaits read sent fails) (h : Call read sent fails reads channel)
    (hwaits : returned read reads = none) {gone : Bool} {n : Nat} {bs rest : Bytes}
    (harrive : Dialogue.arrive channel gone n = some (bs, rest)) :
    Call read sent fails (reads ++ [.bytes bs]) rest := by
  obtain ⟨m, hsent, hway⟩ := h.onWay hwaits
  rcases arrive_cases harrive with ⟨-, hnil, -, rfl, rfl⟩ | ⟨hpos, hle, rfl, rfl⟩
  · -- the end of the input, before the first byte
    by_cases hm : m = []
    · rw [hm] at hway hsent
      obtain ⟨e, hfails, hend⟩ := hawaits.ends hsent
      rw [hway.eq_nil.1]
      exact .inr ⟨e, hfails, hend⟩
    · obtain ⟨r, htakes⟩ := hawaits.takes m hsent hm
      rw [hway.returned hawaits.sequential htakes, if_pos hnil] at hwaits
      cases hwaits
  · exact .inl ⟨m, hsent, hway.take hpos hle⟩

theorem Call.ioError (hserves : Serves read sent fails) (h : Call read sent fails reads channel)
    (hwaits : returned read reads = none) :
    Call read sent fails (reads ++ [.ioError]) channel := by
  obtain ⟨m, hsent, hway⟩ := h.onWay hwaits
  by_cases hm : m = []
  · rw [hm] at hway hsent
    obtain ⟨e, hfails, hbroken⟩ := hserves.broken hsent
    rw [hway.eq_nil.1]
    exact .inr ⟨e, hfails, hbroken⟩
  · obtain ⟨r, htakes⟩ := hserves.takes m hsent hm
    obtain ⟨e, hfails, hbreaks⟩ := hserves.breaks m hsent hm
    rw [hway.returned hserves.sequential htakes] at hwaits
    have hmore : channel ≠ [] := by
      intro hnil
      rw [if_pos hnil] at hwaits
      cases hwaits
    obtain ⟨cs, hne, rfl, hcut⟩ := hway
    exact .inr ⟨e, hfails, (hbreaks cs channel hne hcut hmore).poll _⟩

/-- What a call returns. -/
theorem Call.returned (hawaits : Awaits read sent fails) (h : Call read sent fails reads channel)
    {result : Except E R} (hpoll : returned read reads = some result) :
    (∃ m, sent m ∧ m ≠ [] ∧ channel = [] ∧ ∀ r, Takes read m r → result = r) ∨
      ∃ e, fails e ∧ result = .error e := by
  rcases h with ⟨m, hsent, hway⟩ | ⟨e, hfails, hfailed⟩
  · by_cases hm : m = []
    · rw [hm] at hway
      rw [hway.eq_nil.1, hawaits.first] at hpoll
      cases hpoll
    · obtain ⟨r, htakes⟩ := hawaits.takes m hsent hm
      have hwhole := hway.returned hawaits.sequential htakes
      rw [hpoll] at hwhole
      by_cases hnil : channel = []
      · refine .inl ⟨m, hsent, hm, hnil, fun r' htakes' => ?_⟩
        have hwhole' := hway.returned hawaits.sequential htakes'
        rw [hpoll, if_pos hnil] at hwhole'
        exact Option.some.inj hwhole'
      · rw [if_neg hnil] at hwhole
        cases hwhole
  · rw [hfailed] at hpoll
    exact .inr ⟨e, hfails, (Option.some.inj hpoll).symm⟩

end Call

end Gurted.Dialogue
