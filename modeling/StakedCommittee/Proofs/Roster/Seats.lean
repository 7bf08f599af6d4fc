import Mathlib.Data.List.Perm.Subperm
import StakedCommittee.Proofs.Roster.Ranking

/-! How many seats are taken, and by whom. No seat is added beyond the limit; while the limit stays,
the committee is as full as the pool allows, and as long as nobody loses power in a seat nobody who
waits is stronger than anybody seated. -/

namespace StakedCommittee

section Counting

variable {l pool : List Account} {a : Account}

theorem filter_ne_eq_self (ha : a ∉ l) : l.filter (· ≠ a) = l :=
  List.filter_eq_self.2 fun _ hc => decide_eq_true fun heq => ha (heq ▸ hc)

theorem erase_eq_filter_ne (hl : l.Nodup) : l.erase a = l.filter (· ≠ a) := by
  rw [hl.erase_eq_filter]
  exact List.filter_congr fun c _ => by by_cases h : c = a <;> simp [h]

theorem length_filter_ne (hl : l.Nodup) (ha : a ∈ l) :
    (l.filter (· ≠ a)).length + 1 = l.length := by
  rw [← erase_eq_filter_ne hl, List.length_erase_of_mem ha]
  have := List.length_pos_of_mem ha
  omega

/-- Whoever is left out of a part makes the whole longer. -/
theorem length_lt_of_not_mem (hl : l.Nodup) (hpool : ∀ c ∈ l, c ∈ pool) (ha : a ∈ pool)
    (hout : a ∉ l) : l.length < pool.length := by
  have hsub : (a :: l) ⊆ pool := List.cons_subset.2 ⟨ha, fun c hc => hpool c hc⟩
  exact ((List.nodup_cons.2 ⟨hout, hl⟩).subperm hsub).length_le

theorem length_le_of_subset (hl : l.Nodup) (hpool : ∀ c ∈ l, c ∈ pool) :
    l.length ≤ pool.length := (hl.subperm fun c hc => hpool c hc).length_le

end Counting

namespace Roster

variable {r : Roster} {power : Account → Power} {seats : Nat} {candidate owner a : Account}

/-- What seating a candidate comes to, and when. -/
inductive SeatCase (r : Roster) (power : Account → Power) (seats : Nat) (candidate : Account) :
    Roster × Seating → Prop
  | keeps (seated : candidate ∈ r.seated) :
      SeatCase r power seats candidate (r.refresh power, .alreadySeated)
  | powerless (new : candidate ∉ r.seated) (zero : power candidate = 0) :
      SeatCase r power seats candidate (r, .waiting)
  | fills (new : candidate ∉ r.seated) (powered : power candidate ≠ 0)
      (free : r.seated.length < seats) :
      SeatCase r power seats candidate
        ({ r with seated := r.seated ++ [candidate] }.refresh power, .admitted)
  | outranked (new : candidate ∉ r.seated) (powered : power candidate ≠ 0)
      (full : seats ≤ r.seated.length) (le : ∀ c ∈ r.seated, power candidate ≤ power c) :
      SeatCase r power seats candidate (r.refresh power, .waiting)
  | displaces {evicted : Account} (new : candidate ∉ r.seated) (powered : power candidate ≠ 0)
      (full : seats ≤ r.seated.length) (weakest : FirstWeakest power r.seated evicted)
      (lt : power evicted < power candidate) :
      SeatCase r power seats candidate
        ({ r with seated := r.seated.filter (· ≠ evicted) ++ [candidate] }.refresh power,
          .displaced evicted)

theorem seat_case (r : Roster) (power : Account → Power) (seats : Nat) (candidate : Account) :
    r.SeatCase power seats candidate (r.seat power seats candidate) := by
  have hfresh := r.fresh_refresh power
  have hseated := r.seated_refresh power
  unfold seat
  split
  · exact .keeps ‹_›
  rename_i hnew
  split
  · exact .powerless hnew ‹_›
  rename_i hpowered
  split
  · exact .fills hnew hpowered ‹_›
  rename_i hfull
  have hfull := Nat.le_of_not_lt hfull
  by_cases hempty : r.seated = []
  · obtain ⟨hnone, -⟩ := hfresh.of_empty (hseated.trans hempty)
    rw [hnone]
    exact .outranked hnew hpowered hfull fun c hc => by simp [hempty] at hc
  · obtain ⟨evicted, hevicted, hpower, hfirst⟩ :=
      hfresh.of_seated (by rw [hseated]; exact hempty)
    rw [hseated] at hfirst
    rw [hevicted, hpower]
    dsimp only
    split
    · rename_i hle
      exact .outranked hnew hpowered hfull fun c hc => UInt64.le_trans hle (hfirst.le hc)
    · rename_i hlt
      exact .displaces hnew hpowered hfull hfirst (UInt64.not_le.1 hlt)

/-! ### The limit -/

theorem length_seated_seat_le (r : Roster) (power : Account → Power) (seats : Nat)
    (candidate : Account) :
    (r.seat power seats candidate).1.seated.length ≤ max r.seated.length seats := by
  have hcase := r.seat_case power seats candidate
  generalize r.seat power seats candidate = found at hcase
  cases hcase with
  | keeps | powerless | outranked => simp only [seated_refresh]; omega
  | fills new powered free =>
    simp only [seated_refresh, List.length_append, List.length_singleton]
    omega
  | @displaces evicted new powered full weakest lt =>
    have hlt : (r.seated.filter (· ≠ evicted)).length < r.seated.length :=
      List.length_filter_lt_length_iff_exists.2 ⟨evicted, weakest.mem, by simp⟩
    simp only [seated_refresh, List.length_append, List.length_singleton]
    omega

theorem length_seated_release (r : Roster) (power : Account → Power) (seats : Nat)
    (owner : Account) :
    (r.release power seats owner).1.seated.length = (r.without owner).seated.length +
      (r.release power seats owner).2.promoted.toList.length := by
  rw [seated_release, List.length_append]
  rfl

/-- One who leaves makes room for one at most. -/
theorem length_seated_release_le (r : Roster) (power : Account → Power) (seats : Nat)
    (owner : Account) :
    (r.release power seats owner).1.seated.length ≤ r.seated.length := by
  rw [length_seated_release, promoted_release]
  split
  · rename_i hroom
    have hlt : (r.without owner).seated.length < r.seated.length :=
      List.length_filter_lt_length_iff_exists.2 ⟨owner, hroom.1, by simp⟩
    have hone : ((r.without owner).successor power).toList.length ≤ 1 := by
      cases (r.without owner).successor power <;> simp
    omega
  · have hle : (r.without owner).seated.length ≤ r.seated.length := List.length_filter_le ..
    simpa using hle

/-- A seat that falls free is filled again, as far as the limit and the pool allow. -/
theorem le_length_seated_release (seats : Nat) (hseated : r.seated.Nodup)
    (hnodup : r.pool.Nodup) (hpower : ∀ c ∈ r.pool, c ≠ owner → power c ≠ 0) :
    min r.seated.length (min seats (r.release power seats owner).1.pool.length) ≤
      (r.release power seats owner).1.seated.length := by
  have hpart : (r.release power seats owner).1.pool = (r.without owner).pool :=
    r.pool_release power seats owner
  rw [length_seated_release, promoted_release, hpart]
  by_cases hmember : owner ∈ r.seated
  · have hkept : (r.without owner).seated.length + 1 = r.seated.length :=
      length_filter_ne hseated hmember
    by_cases hroom : (r.without owner).seated.length < seats
    · rw [if_pos ⟨hmember, hroom⟩]
      cases hnext : (r.without owner).successor power with
      | none =>
        -- Nobody waits, so those who stay are all seated.
        have hall : (r.without owner).pool.length ≤ (r.without owner).seated.length := by
          apply length_le_of_subset (hnodup.filter _)
          intro c hc
          by_contra hout
          have hzero := power_of_successor_eq_none hnext (mem_waiting.2 ⟨hc, hout⟩)
          obtain ⟨hin, hne⟩ := List.mem_filter.1 hc
          exact hpower c hin (of_decide_eq_true hne) hzero
        omega
      | some next =>
        simp only [Option.toList_some, List.length_singleton]
        omega
    · omega
  · have hsame : (r.without owner).seated = r.seated := filter_ne_eq_self hmember
    rw [hsame]
    omega

/-! ### Full committees -/

/-- All seats are taken, or the whole pool is seated. -/
def Filled (r : Roster) (seats : Nat) : Prop := r.seated.length = min seats r.pool.length

theorem length_pool_join (r : Roster) (owner : Account) :
    (r.join owner).pool.length = r.pool.length + if owner ∈ r.pool then 0 else 1 := by
  unfold join
  split <;> simp

section Sound

variable (hseated : r.seated.Nodup) (hpool : ∀ c ∈ r.seated, c ∈ r.pool)
include hseated hpool

theorem Filled.seat_join (h : r.Filled seats) (hpower : power candidate ≠ 0) :
    ((r.join candidate).seat power seats candidate).1.Filled seats := by
  have hcase := (r.join candidate).seat_case power seats candidate
  have hjoin := r.length_pool_join candidate
  have hsame := (r.join candidate).pool_seat power seats candidate
  unfold Filled at h ⊢
  rw [hsame]
  generalize (r.join candidate).seat power seats candidate = found at hcase
  cases hcase with
  | keeps seated =>
    rw [seated_join] at seated
    rw [if_pos (hpool _ seated)] at hjoin
    simp only [seated_refresh, seated_join]
    omega
  | powerless new zero => exact absurd zero hpower
  | fills new powered free =>
    rw [seated_join] at new free
    -- With a seat free the whole pool is seated, and the candidate is new to it.
    have hnew : candidate ∉ r.pool := fun hmem => by
      have := length_lt_of_not_mem hseated hpool hmem new
      omega
    rw [if_neg hnew] at hjoin
    simp only [seated_refresh, seated_join, List.length_append, List.length_singleton]
    omega
  | outranked new powered full le =>
    rw [seated_join] at full
    simp only [seated_refresh, seated_join]
    omega
  | @displaces evicted new powered full weakest lt =>
    rw [seated_join] at full weakest
    have hkept := length_filter_ne hseated weakest.mem
    simp only [seated_refresh, seated_join, List.length_append, List.length_singleton]
    omega

theorem Filled.release (h : r.Filled seats) (hnodup : r.pool.Nodup)
    (hpower : ∀ c ∈ r.pool, c ≠ owner → power c ≠ 0) :
    (r.release power seats owner).1.Filled seats := by
  have hge := le_length_seated_release seats hseated hnodup hpower
  have hle := r.length_seated_release_le power seats owner
  have hfewer : (r.release power seats owner).1.pool.length ≤ r.pool.length := by
    rw [pool_release]
    exact List.length_filter_le ..
  have hpart : (r.release power seats owner).1.seated.length ≤
      (r.release power seats owner).1.pool.length := by
    apply length_le_of_subset (nodup_seated_release hseated)
    intro c hc
    obtain ⟨hne, hfrom⟩ := mem_seated_release hc
    rw [pool_release, List.mem_filter]
    exact ⟨hfrom.elim (hpool c) And.left, decide_eq_true hne⟩
  unfold Filled at h ⊢
  omega

end Sound

/-! ### Filled vacancies -/

/-- From `r` to `after` members have left, and their seats are filled again as far as the limit and
the pool allow. -/
structure Refilled (seats : Nat) (r after : Roster) : Prop where
  pool_le : after.pool.length ≤ r.pool.length
  seated_le : after.seated.length ≤ r.seated.length
  refilled : min r.seated.length (min seats after.pool.length) ≤ after.seated.length

namespace Refilled

variable {seats : Nat} {r mid after : Roster}

theorem refl (r : Roster) : Refilled seats r r := by
  constructor <;> omega

theorem trans (h : Refilled seats r mid) (hnext : Refilled seats mid after) :
    Refilled seats r after := by
  have hpool := h.pool_le
  have hseated := h.seated_le
  have hfilled := h.refilled
  have hpool' := hnext.pool_le
  have hseated' := hnext.seated_le
  have hfilled' := hnext.refilled
  constructor <;> omega

/-- The committee and the pool decide. -/
theorem of_eq (hseated : after.seated = r.seated) (hpool : after.pool = r.pool) :
    Refilled seats r after := by
  refine ⟨Nat.le_of_eq (congrArg List.length hpool), Nat.le_of_eq (congrArg List.length hseated), ?_⟩
  rw [hseated]
  omega

/-- The committee is as large as the limit and the pool allow exactly if it was large enough for
that before. -/
theorem full_iff (h : Refilled seats r after) :
    min seats after.pool.length ≤ after.seated.length ↔
      min seats after.pool.length ≤ r.seated.length := by
  have hseated := h.seated_le
  have hfilled := h.refilled
  omega

/-- One who leaves frees one seat at most. -/
theorem release (hseated : r.seated.Nodup) (hnodup : r.pool.Nodup)
    (hpower : ∀ c ∈ r.pool, c ≠ owner → power c ≠ 0) :
    Refilled seats r (r.release power seats owner).1 where
  pool_le := by
    rw [pool_release]
    exact List.length_filter_le ..
  seated_le := length_seated_release_le ..
  refilled := le_length_seated_release seats hseated hnodup hpower

end Refilled

/-! ### Precedence -/

/-- Nobody who waits is stronger than anybody seated. -/
def Ranked (r : Roster) (power : Account → Power) : Prop :=
  ∀ a ∈ r.waiting, ∀ c ∈ r.seated, power a ≤ power c

theorem Ranked.refresh (h : r.Ranked power) (f : Account → Power) :
    (r.refresh f).Ranked power := by
  intro a ha c hc
  rw [mem_waiting, pool_refresh, seated_refresh] at ha
  rw [seated_refresh] at hc
  exact h a (mem_waiting.2 ha) c hc

/-- The candidate apart, the roster is ranked; and nobody else waits while a seat is free. -/
theorem ranked_seat (hranked : ∀ a ∈ r.waiting, a ≠ candidate → ∀ c ∈ r.seated, power a ≤ power c)
    (hfilled : r.seated.length < seats → ∀ a ∈ r.waiting, a = candidate)
    (hpower : power candidate ≠ 0) : (r.seat power seats candidate).1.Ranked power := by
  have hcase := r.seat_case power seats candidate
  have hsame := r.pool_seat power seats candidate
  intro a ha c hc
  rw [mem_waiting, hsame] at ha
  obtain ⟨hmember, hout⟩ := ha
  generalize (r.seat power seats candidate) = found at hcase hout hc
  cases hcase with
  | keeps seated =>
    rw [seated_refresh] at hout hc
    exact hranked a (mem_waiting.2 ⟨hmember, hout⟩) (fun h => hout (h ▸ seated)) c hc
  | powerless new zero => exact absurd zero hpower
  | fills new powered free =>
    rw [seated_refresh, List.mem_append, List.mem_singleton, not_or] at hout
    exact absurd (hfilled free a (mem_waiting.2 ⟨hmember, hout.1⟩)) hout.2
  | outranked new powered full le =>
    rw [seated_refresh] at hout hc
    by_cases hcandidate : a = candidate
    · exact hcandidate ▸ le c hc
    · exact hranked a (mem_waiting.2 ⟨hmember, hout⟩) hcandidate c hc
  | @displaces evicted new powered full weakest lt =>
    rw [seated_refresh, List.mem_append, List.mem_singleton, not_or] at hout
    rw [seated_refresh, List.mem_append, List.mem_singleton] at hc
    -- Whoever waits now is no stronger than the evicted member.
    have hle : power a ≤ power evicted := by
      by_cases hevicted : a = evicted
      · exact hevicted ▸ UInt64.le_refl _
      · have hstill : a ∉ r.seated := fun h =>
          hout.1 (List.mem_filter.2 ⟨h, by simpa using hevicted⟩)
        exact hranked a (mem_waiting.2 ⟨hmember, hstill⟩) hout.2 evicted weakest.mem
    refine UInt64.le_trans hle ?_
    rcases hc with hc | rfl
    · exact weakest.le (List.mem_filter.1 hc).1
    · exact UInt64.le_of_lt lt

/-- Whoever leaves need not have been ranked. -/
theorem ranked_release
    (hranked : ∀ a ∈ r.waiting, a ≠ owner → ∀ c ∈ r.seated, c ≠ owner → power a ≤ power c) :
    (r.release power seats owner).1.Ranked power := by
  intro a ha c hc
  obtain ⟨hwaits, hne, -⟩ := mem_waiting_release.1 ha
  rw [seated_release, List.mem_append, Option.mem_toList] at hc
  rcases hc with hc | hc
  · obtain ⟨hseated, hstays⟩ := List.mem_filter.1 hc
    exact hranked a hwaits hne c hseated (of_decide_eq_true hstays)
  · exact (firstStrongest_of_promoted hc).le (mem_waiting_without.2 ⟨hwaits, hne⟩)

end Roster

end StakedCommittee
