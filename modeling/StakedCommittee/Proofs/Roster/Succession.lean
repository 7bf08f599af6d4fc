import Mathlib.Data.List.Induction
import StakedCommittee.Proofs.Roster.Seats

/-! Departures in a row. Each seat that falls free goes to the strongest that waits at that time,
who may be the next to leave, so the committees in between depend on who leaves first. The last one
does not: whoever was promoted for good comes before everybody who still waits, and how many were
promoted depends on the number of seats, of members and of those left in the pool only. -/

namespace StakedCommittee

/-- A list without repetition has two elements in one order only. -/
theorem not_sublist_swap {l : List Account} {a c : Account} (hl : l.Nodup)
    (h : [a, c].Sublist l) : ¬ [c, a].Sublist l := by
  induction l with
  | nil => nomatch h
  | cons first rest ih =>
    obtain ⟨hfirst, hrest⟩ := List.nodup_cons.1 hl
    intro hswap
    cases h with
    | cons _ h =>
      cases hswap with
      | cons _ hswap => exact ih hrest h hswap
      | cons_cons => exact hfirst (h.subset (by simp))
    | cons_cons _ h =>
      cases hswap with
      | cons _ hswap => exact hfirst (hswap.subset (by simp))
      | cons_cons => exact hfirst (h.subset (by simp))

theorem filter_not_mem_concat (l gone : List Account) (owner : Account) :
    (l.filter (· ∉ gone)).filter (· ≠ owner) = l.filter (· ∉ gone ++ [owner]) := by
  rw [List.filter_filter]
  refine List.filter_congr fun c _ => ?_
  by_cases hc : c = owner <;> simp [hc]

namespace Roster

variable {r mid x y : Roster} {power : Account → Power} {seats : Nat} {gone other : List Account}
  {owner a c : Account}

/-- Of two that wait the stronger comes first, and of equals the one that is earlier in the pool. -/
def Precedes (r : Roster) (power : Account → Power) (c a : Account) : Prop :=
  power a < power c ∨ power a = power c ∧ [c, a].Sublist r.pool

theorem Precedes.asymm (h : r.Precedes power c a) (hnodup : r.pool.Nodup) :
    ¬ r.Precedes power a c := by
  rintro (hlt | ⟨heq, hlater⟩)
  · rcases h with hgt | ⟨heq, -⟩
    · exact UInt64.lt_asymm hgt hlt
    · exact UInt64.lt_irrefl _ (heq ▸ hlt)
  · rcases h with hgt | ⟨-, hearlier⟩
    · exact UInt64.lt_irrefl _ (heq ▸ hgt)
    · exact not_sublist_swap hnodup hearlier hlater

theorem precedes_of_firstStrongest {l : List Account} (h : FirstStrongest power l c)
    (hl : l.Sublist r.pool) (ha : a ∈ l) (hne : a ≠ c) : r.Precedes power c a := by
  obtain ⟨before, after, rfl, hbefore, hafter⟩ := h
  rcases List.mem_append.1 ha with ha | ha
  · exact .inl (hbefore a ha)
  · have ha := (List.mem_cons.1 ha).resolve_left hne
    rcases UInt64.lt_or_eq_of_le (hafter a ha) with hlt | heq
    · exact .inl hlt
    · have hpair : [c, a].Sublist (c :: after) := (List.singleton_sublist.2 ha).cons_cons c
      exact .inr ⟨heq, hpair.trans ((List.sublist_append_right before _).trans hl)⟩

/-- Where the pool lists them in the same order, the same one comes first. -/
theorem Precedes.mono (h : mid.Precedes power c a) (hpool : mid.pool.Sublist r.pool) :
    r.Precedes power c a :=
  h.imp_right fun ⟨heq, hpair⟩ => ⟨heq, hpair.trans hpool⟩

theorem Precedes.congr {f g : Account → Power} (h : r.Precedes f c a) (hc : f c = g c)
    (ha : f a = g a) : r.Precedes g c a := by
  unfold Precedes at h ⊢
  rwa [← hc, ← ha]

/-- Whoever is promoted comes before all others that wait. -/
theorem precedes_of_promoted (hc : (r.release power seats owner).2.promoted = some c)
    (ha : a ∈ r.waiting) (howner : a ≠ owner) (hne : a ≠ c) : r.Precedes power c a := by
  have hpart : (r.without owner).waiting.Sublist r.pool :=
    List.filter_sublist.trans List.filter_sublist
  exact precedes_of_firstStrongest (firstStrongest_of_promoted hc) hpart
    (mem_waiting_without.2 ⟨ha, howner⟩) hne

/-- Whoever gets a seat by a departure comes before all who go on waiting. -/
theorem precedes_of_release (hc : c ∈ (r.release power seats owner).1.seated) (hnew : c ∉ r.seated)
    (ha : a ∈ (r.release power seats owner).1.waiting) : r.Precedes power c a := by
  obtain ⟨hwaits, howner, hpassed⟩ := mem_waiting_release.1 ha
  rw [seated_release, List.mem_append, Option.mem_toList] at hc
  rcases hc with hc | hc
  · exact absurd (List.mem_filter.1 hc).1 hnew
  · exact precedes_of_promoted hc hwaits howner fun h => hpassed (h ▸ hc)

/-- What is left of a roster after accounts leave one after the other. -/
def releaseAll (r : Roster) (power : Account → Power) (seats : Nat) (gone : List Account) :
    Roster :=
  gone.foldl (fun left owner => (left.release power seats owner).1) r

theorem releaseAll_concat (r : Roster) (power : Account → Power) (seats : Nat)
    (gone : List Account) (owner : Account) :
    r.releaseAll power seats (gone ++ [owner]) =
      ((r.releaseAll power seats gone).release power seats owner).1 := List.foldl_concat ..

theorem pool_releaseAll (r : Roster) (power : Account → Power) (seats : Nat)
    (gone : List Account) : (r.releaseAll power seats gone).pool = r.pool.filter (· ∉ gone) := by
  induction gone using List.reverseRecOn with
  | nil => simp [releaseAll]
  | append_singleton gone owner ih =>
    rw [releaseAll_concat, pool_release, ih, filter_not_mem_concat]

/-- One who has no seat leaves the pool, and nothing else changes. -/
theorem Fresh.release_unseated (h : r.Fresh power) (hout : owner ∉ r.seated) :
    (r.release power seats owner).1 = { r with pool := r.pool.filter (· ≠ owner) } := by
  have hfresh : ({ r with pool := r.pool.filter (· ≠ owner) } : Roster).Fresh power := h
  unfold release
  simp only [filter_ne_eq_self hout, hout, decide_false, Bool.false_and, Bool.false_eq_true,
    ↓reduceIte, Option.toList_none, List.append_nil]
  exact hfresh.refresh_eq

/-- One who is not in the pool leaves nothing behind. -/
theorem Fresh.release_outsider (h : r.Fresh power) (hdrawn : ∀ a ∈ r.seated, a ∈ r.pool)
    (hout : owner ∉ r.pool) : (r.release power seats owner).1 = r := by
  rw [h.release_unseated fun hin => hout (hdrawn owner hin), filter_ne_eq_self hout]

/-- The roster `x` is what is left of `r` after all of `gone` have left, in some order. -/
structure Cleared (power : Account → Power) (seats : Nat) (r : Roster) (gone : List Account)
    (x : Roster) : Prop where
  pool : x.pool = r.pool.filter (· ∉ gone)
  nodup : x.seated.Nodup
  drawn : ∀ a ∈ x.seated, a ∈ x.pool
  stays : ∀ a ∈ r.seated, a ∉ gone → a ∈ x.seated
  refilled : r.Refilled seats x
  /-- Nobody is promoted beyond the limit, or past anybody who still waits. -/
  promoted : ∀ c ∈ x.seated, c ∉ r.seated →
    x.seated.length ≤ seats ∧ ∀ a ∈ x.waiting, r.Precedes power c a

namespace Cleared

theorem start (hnodup : r.seated.Nodup) (hdrawn : ∀ a ∈ r.seated, a ∈ r.pool) :
    Cleared power seats r [] r where
  pool := by simp
  nodup := hnodup
  drawn := hdrawn
  stays _ ha _ := ha
  refilled := .refl r
  promoted _ hc hnew := absurd hc hnew

theorem release (h : Cleared power seats r gone mid) (hnodup : r.pool.Nodup)
    (hpower : ∀ c ∈ mid.pool, c ≠ owner → power c ≠ 0) :
    Cleared power seats r (gone ++ [owner]) (mid.release power seats owner).1 where
  pool := by rw [pool_release, h.pool, filter_not_mem_concat]
  nodup := nodup_seated_release h.nodup
  drawn a ha := by
    obtain ⟨hne, hfrom⟩ := mem_seated_release ha
    rw [pool_release, List.mem_filter]
    exact ⟨hfrom.elim (h.drawn a) And.left, decide_eq_true hne⟩
  stays a ha hstays := by
    rw [List.mem_append, List.mem_singleton, not_or] at hstays
    rw [seated_release]
    exact List.mem_append_left _
      (List.mem_filter.2 ⟨h.stays a ha hstays.1, decide_eq_true hstays.2⟩)
  refilled := by
    have hmid : mid.pool.Nodup := h.pool ▸ hnodup.filter _
    exact h.refilled.trans (.release h.nodup hmid hpower)
  promoted c hc hnew := by
    have hle := length_seated_release_le mid power seats owner
    by_cases hold : c ∈ mid.seated
    · -- Those promoted before came before more who waited.
      obtain ⟨hlimit, hbefore⟩ := h.promoted c hold hnew
      exact ⟨Nat.le_trans hle hlimit, fun a ha => hbefore a (mem_waiting_release.1 ha).1⟩
    · have hpool : mid.pool.Sublist r.pool := by
        rw [h.pool]
        exact List.filter_sublist
      refine ⟨?_, fun a ha => (precedes_of_release hc hold ha).mono hpool⟩
      rw [seated_release, List.mem_append, Option.mem_toList] at hc
      have hpromoted := hc.resolve_left fun hc => hold (List.mem_filter.1 hc).1
      rw [length_seated_release, hpromoted]
      rw [promoted_release] at hpromoted
      exact (Option.ite_none_right_eq_some.1 hpromoted).1.2

/-- Departures in a row clear the roster of all who left. -/
theorem releaseAll (hnodup : r.pool.Nodup) (hseated : r.seated.Nodup)
    (hdrawn : ∀ a ∈ r.seated, a ∈ r.pool) (hpower : ∀ c ∈ r.pool, power c ≠ 0)
    (gone : List Account) : Cleared power seats r gone (r.releaseAll power seats gone) := by
  induction gone using List.reverseRecOn with
  | nil => exact .start hseated hdrawn
  | append_singleton gone owner ih =>
    rw [releaseAll_concat]
    refine ih.release hnodup fun c hc _ => hpower c ?_
    rw [ih.pool] at hc
    exact (List.mem_filter.1 hc).1

/-! ### The order does not matter -/

section Order
variable (hx : Cleared power seats r gone x) (hy : Cleared power seats r other y)
  (hgone : ∀ a, a ∈ gone ↔ a ∈ other)
include hx hy hgone

theorem pool_eq : x.pool = y.pool := by
  rw [hx.pool, hy.pool]
  exact List.filter_congr fun a _ => by simp [hgone]

/-- One who has a seat in one order only was promoted in it, and goes on waiting in the other. -/
theorem promoted_of_not_mem (hc : c ∈ y.seated) (hout : c ∉ x.seated) :
    c ∉ r.seated ∧ c ∈ x.waiting := by
  have hpool : c ∈ x.pool := by
    rw [hx.pool_eq hy hgone]
    exact hy.drawn c hc
  refine ⟨fun hseated => hout (hx.stays c hseated ?_), mem_waiting.2 ⟨hpool, hout⟩⟩
  rw [hx.pool, List.mem_filter] at hpool
  exact of_decide_eq_true hpool.2

/-- If anybody was promoted for good, the other order leaves no fewer members. -/
theorem length_seated_le (hc : c ∈ y.seated) (hnew : c ∉ r.seated) :
    y.seated.length ≤ x.seated.length := by
  have hlimit := (hy.promoted c hc hnew).1
  have hold := hy.refilled.seated_le
  have hpool := length_le_of_subset hy.nodup hy.drawn
  have hfilled := hx.refilled.refilled
  rw [hx.pool_eq hy hgone] at hfilled
  omega

theorem seated_subset (hnodup : r.pool.Nodup) : ∀ c ∈ y.seated, c ∈ x.seated := by
  intro c hc
  by_contra hout
  obtain ⟨hnew, hwaits⟩ := hx.promoted_of_not_mem hy hgone hc hout
  have hle := hx.length_seated_le hy hgone hc hnew
  -- Somebody has the seat of `c` in the other order, and each of the two comes before the other.
  obtain ⟨d, hd, hdout⟩ : ∃ d ∈ x.seated, d ∉ y.seated := by
    by_contra hnone
    push Not at hnone
    have := length_lt_of_not_mem hx.nodup hnone hc hout
    omega
  obtain ⟨hdnew, hdwaits⟩ := hy.promoted_of_not_mem hx (fun a => (hgone a).symm) hd hdout
  exact ((hy.promoted c hc hnew).2 d hdwaits).asymm hnodup ((hx.promoted d hd hdnew).2 c hwaits)

/-- Whatever the order of the departures, the same members are seated in the end. -/
theorem seated_perm (hnodup : r.pool.Nodup) : x.seated.Perm y.seated :=
  (List.perm_ext_iff_of_nodup hx.nodup hy.nodup).2 fun a =>
    ⟨hy.seated_subset hx (fun a => (hgone a).symm) hnodup a, hx.seated_subset hy hgone hnodup a⟩

end Order

end Cleared

/-- The power noted for the weakest member does not depend on the order of the committee. -/
theorem Fresh.weakestPower_eq (hx : x.Fresh power) (hy : y.Fresh power)
    (h : x.seated.Perm y.seated) : x.weakestPower = y.weakestPower := by
  by_cases hempty : x.seated = []
  · have hempty' : y.seated = [] := (hempty ▸ h).nil_eq.symm
    rw [(hx.of_empty hempty).2, (hy.of_empty hempty').2]
  · have hsome : y.seated ≠ [] := fun hnone => hempty (hnone ▸ h).eq_nil
    obtain ⟨a, -, hpower, hfirst⟩ := hx.of_seated hempty
    obtain ⟨c, -, hpower', hfirst'⟩ := hy.of_seated hsome
    rw [hpower, hpower']
    exact UInt64.le_antisymm (hfirst.le (h.mem_iff.2 hfirst'.mem))
      (hfirst'.le (h.mem_iff.1 hfirst.mem))

end Roster

end StakedCommittee
