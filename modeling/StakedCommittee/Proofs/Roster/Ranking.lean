import StakedCommittee.Proofs.Roster.Seating

/-! Who is weakest and who is strongest. The scans find the first account of least and of greatest
power, which depends on the powers of the scanned accounts only; so do refreshing, seating and
release. A roster is fresh if it notes its weakest seated member, and refreshing, which seating and
release end with, makes it so. -/

namespace StakedCommittee

/-- `a` is the first account of least power in `l`. -/
def FirstWeakest (power : Account → Power) (l : List Account) (a : Account) : Prop :=
  ∃ before after, l = before ++ a :: after ∧ (∀ c ∈ before, power a < power c) ∧
    ∀ c ∈ after, power a ≤ power c

/-- `a` is the first account of greatest power in `l`. -/
def FirstStrongest (power : Account → Power) (l : List Account) (a : Account) : Prop :=
  ∃ before after, l = before ++ a :: after ∧ (∀ c ∈ before, power c < power a) ∧
    ∀ c ∈ after, power c ≤ power a

section Scans

variable {power f g : Account → Power} {l : List Account} {a c : Account} {x : Power}

theorem FirstWeakest.mem (h : FirstWeakest power l a) : a ∈ l := by
  obtain ⟨before, after, rfl, -, -⟩ := h
  simp

theorem FirstWeakest.le (h : FirstWeakest power l a) (hc : c ∈ l) : power a ≤ power c := by
  obtain ⟨before, after, rfl, hbefore, hafter⟩ := h
  rcases List.mem_append.1 hc with hc | hc
  · exact UInt64.le_of_lt (hbefore c hc)
  · rcases List.mem_cons.1 hc with rfl | hc
    · exact UInt64.le_refl _
    · exact hafter c hc

theorem FirstStrongest.mem (h : FirstStrongest power l a) : a ∈ l := by
  obtain ⟨before, after, rfl, -, -⟩ := h
  simp

theorem FirstStrongest.le (h : FirstStrongest power l a) (hc : c ∈ l) : power c ≤ power a := by
  obtain ⟨before, after, rfl, hbefore, hafter⟩ := h
  rcases List.mem_append.1 hc with hc | hc
  · exact UInt64.le_of_lt (hbefore c hc)
  · rcases List.mem_cons.1 hc with rfl | hc
    · exact UInt64.le_refl _
    · exact hafter c hc

/-- Leaving out those without power does not change who is strongest. -/
theorem FirstStrongest.of_filter
    (h : FirstStrongest power (l.filter fun c => power c ≠ 0) a) : FirstStrongest power l a := by
  have hmem := (List.mem_filter.1 h.mem).2
  have hpower : 0 < power a := UInt64.pos_iff_ne_zero.2 (of_decide_eq_true hmem)
  obtain ⟨before, after, hsplit, hbefore, hafter⟩ := h
  obtain ⟨front, back, rfl, rfl, hback⟩ := List.filter_eq_append_iff.1 hsplit
  obtain ⟨skipped, rest, rfl, hskipped, -, rfl⟩ := List.filter_eq_cons_iff.1 hback
  have hfront (c : Account) (hc : c ∈ front ++ skipped) : power c < power a := by
    by_cases hzero : power c = 0
    · rwa [hzero]
    · rcases List.mem_append.1 hc with hc | hc
      · exact hbefore c (List.mem_filter.2 ⟨hc, decide_eq_true hzero⟩)
      · exact absurd (decide_eq_true hzero) (hskipped c hc)
  refine ⟨front ++ skipped, rest, (List.append_assoc ..).symm, hfront, fun c hc => ?_⟩
  by_cases hzero : power c = 0
  · rw [hzero]
    exact UInt64.le_of_lt hpower
  · exact hafter c (List.mem_filter.2 ⟨hc, decide_eq_true hzero⟩)

theorem weakestOf_eq_none_iff : weakestOf power l = none ↔ l = [] := by
  cases l with
  | nil => simp [weakestOf]
  | cons c rest =>
    rw [weakestOf]
    cases weakestOf power rest with
    | none => simp
    | some least =>
      dsimp only
      split <;> simp

theorem strongestOf_eq_none_iff : strongestOf power l = none ↔ l = [] := by
  cases l with
  | nil => simp [strongestOf]
  | cons c rest =>
    rw [strongestOf]
    cases strongestOf power rest with
    | none => simp
    | some greatest =>
      dsimp only
      split <;> simp

theorem weakestOf_eq_some (h : weakestOf power l = some (a, x)) :
    x = power a ∧ FirstWeakest power l a := by
  induction l generalizing a x with
  | nil => cases h
  | cons c rest ih =>
    rw [weakestOf] at h
    cases hrest : weakestOf power rest with
    | none =>
      obtain rfl := weakestOf_eq_none_iff.1 hrest
      rw [hrest] at h
      cases h
      exact ⟨rfl, [], [], rfl, by simp, by simp⟩
    | some found =>
      obtain ⟨b, least⟩ := found
      obtain ⟨rfl, hfirst⟩ := ih hrest
      simp only [hrest] at h
      split at h
      · rename_i hlt
        cases h
        obtain ⟨before, after, rfl, hbefore, hafter⟩ := hfirst
        exact ⟨rfl, c :: before, after, rfl, List.forall_mem_cons.2 ⟨hlt, hbefore⟩, hafter⟩
      · rename_i hle
        cases h
        exact ⟨rfl, [], rest, rfl, by simp, fun d hd =>
          UInt64.le_trans (UInt64.not_lt.1 hle) (hfirst.le hd)⟩

theorem strongestOf_eq_some (h : strongestOf power l = some (a, x)) :
    x = power a ∧ FirstStrongest power l a := by
  induction l generalizing a x with
  | nil => cases h
  | cons c rest ih =>
    rw [strongestOf] at h
    cases hrest : strongestOf power rest with
    | none =>
      obtain rfl := strongestOf_eq_none_iff.1 hrest
      rw [hrest] at h
      cases h
      exact ⟨rfl, [], [], rfl, by simp, by simp⟩
    | some found =>
      obtain ⟨b, greatest⟩ := found
      obtain ⟨rfl, hfirst⟩ := ih hrest
      simp only [hrest] at h
      split at h
      · rename_i hlt
        cases h
        obtain ⟨before, after, rfl, hbefore, hafter⟩ := hfirst
        exact ⟨rfl, c :: before, after, rfl, List.forall_mem_cons.2 ⟨hlt, hbefore⟩, hafter⟩
      · rename_i hle
        cases h
        exact ⟨rfl, [], rest, rfl, by simp, fun d hd =>
          UInt64.le_trans (hfirst.le hd) (UInt64.not_lt.1 hle)⟩

theorem weakestOf_congr (h : ∀ c ∈ l, f c = g c) : weakestOf f l = weakestOf g l := by
  induction l with
  | nil => rfl
  | cons c rest ih =>
    obtain ⟨hc, hrest⟩ := List.forall_mem_cons.1 h
    rw [weakestOf, weakestOf, ih hrest, hc]

theorem strongestOf_congr (h : ∀ c ∈ l, f c = g c) : strongestOf f l = strongestOf g l := by
  induction l with
  | nil => rfl
  | cons c rest ih =>
    obtain ⟨hc, hrest⟩ := List.forall_mem_cons.1 h
    rw [strongestOf, strongestOf, ih hrest, hc]

end Scans

namespace Roster

variable {r : Roster} {power f g : Account → Power} {seats : Nat} {owner candidate a : Account}

/-! ### Powers that matter -/

theorem refresh_congr (h : ∀ c ∈ r.seated, f c = g c) : r.refresh f = r.refresh g := by
  rw [refresh, refresh, weakestOf_congr h]

theorem successor_congr (h : ∀ c ∈ r.waiting, f c = g c) : r.successor f = r.successor g := by
  have hpowered : (r.waiting.filter fun c => f c ≠ 0) = r.waiting.filter fun c => g c ≠ 0 :=
    List.filter_congr fun c hc => by rw [h c hc]
  rw [successor, successor, hpowered, strongestOf_congr fun c hc => h c (List.mem_filter.1 hc).1]

theorem seat_congr (h : ∀ c ∈ r.seated, f c = g c) (hcandidate : f candidate = g candidate) :
    r.seat f seats candidate = r.seat g seats candidate := by
  have happend (kept : List Account) (hkept : ∀ c ∈ kept, c ∈ r.seated) :
      { r with seated := kept ++ [candidate] }.refresh f =
        { r with seated := kept ++ [candidate] }.refresh g := by
    refine refresh_congr fun c hc => ?_
    rcases List.mem_append.1 hc with hc | hc
    · exact h c (hkept c hc)
    · rw [List.mem_singleton.1 hc, hcandidate]
  unfold seat
  rw [refresh_congr h, hcandidate, happend r.seated fun _ hc => hc]
  cases (r.refresh g).weakest with
  | none => rfl
  | some evicted =>
    dsimp only
    rw [happend _ fun _ hc => (List.mem_filter.1 hc).1]

/-- The roster without an account. -/
def without (r : Roster) (owner : Account) : Roster :=
  { r with seated := r.seated.filter (· ≠ owner), pool := r.pool.filter (· ≠ owner) }

theorem mem_waiting_without :
    a ∈ (r.without owner).waiting ↔ a ∈ r.waiting ∧ a ≠ owner := by
  simp only [mem_waiting, without, List.mem_filter, decide_eq_true_eq]
  constructor
  · rintro ⟨⟨hpool, hne⟩, hseated⟩
    exact ⟨⟨hpool, fun ha => hseated ⟨ha, hne⟩⟩, hne⟩
  · rintro ⟨⟨hpool, hseated⟩, hne⟩
    exact ⟨⟨hpool, hne⟩, fun ha => hseated ha.1⟩

/-- Who waits goes on waiting, unless it leaves or is promoted. -/
theorem mem_waiting_release : a ∈ (r.release power seats owner).1.waiting ↔
    a ∈ r.waiting ∧ a ≠ owner ∧ (r.release power seats owner).2.promoted ≠ some a := by
  have hwithout : a ∈ r.pool.filter (· ≠ owner) ∧ a ∉ r.seated.filter (· ≠ owner) ↔
      a ∈ r.waiting ∧ a ≠ owner := mem_waiting.symm.trans mem_waiting_without
  rw [mem_waiting, pool_release, seated_release, List.mem_append, not_or, Option.mem_toList,
    ← and_assoc, hwithout, and_assoc]

theorem promoted_release (r : Roster) (power : Account → Power) (seats : Nat) (owner : Account) :
    (r.release power seats owner).2.promoted =
      if owner ∈ r.seated ∧ (r.without owner).seated.length < seats then
        (r.without owner).successor power
      else none := by
  simp [release, without]

theorem release_eq (r : Roster) (power : Account → Power) (seats : Nat) (owner : Account) :
    r.release power seats owner =
      ({ r.without owner with
        seated := (r.without owner).seated ++
          (r.release power seats owner).2.promoted.toList }.refresh power,
        ⟨decide (owner ∈ r.seated), (r.release power seats owner).2.promoted⟩) := rfl

/-- The power of whoever leaves does not matter. -/
theorem release_congr (hpool : ∀ c ∈ r.seated, c ∈ r.pool)
    (h : ∀ c ∈ r.pool, c ≠ owner → f c = g c) :
    r.release f seats owner = r.release g seats owner := by
  have hpromoted : (r.release f seats owner).2.promoted = (r.release g seats owner).2.promoted := by
    rw [promoted_release, promoted_release]
    rw [successor_congr fun c hc => by
      obtain ⟨hwaits, hne⟩ := mem_waiting_without.1 hc
      exact h c (mem_waiting.1 hwaits).1 hne]
  rw [release_eq r f, release_eq r g, hpromoted]
  congr 1
  refine refresh_congr fun c hc => ?_
  rcases List.mem_append.1 hc with hc | hc
  · obtain ⟨hseated, hne⟩ := List.mem_filter.1 hc
    exact h c (hpool c hseated) (of_decide_eq_true hne)
  · obtain ⟨hin, hne, -⟩ := mem_of_promoted (Option.mem_toList.1 hc)
    exact h c hin hne

/-- Only the powerless are passed over when nobody is promoted. -/
theorem power_of_successor_eq_none (h : r.successor power = none) (ha : a ∈ r.waiting) :
    power a = 0 := by
  have hnone := strongestOf_eq_none_iff.1 (Option.map_eq_none_iff.1 h)
  simpa using List.filter_eq_nil_iff.1 hnone a ha

theorem firstStrongest_of_successor (h : r.successor power = some a) :
    FirstStrongest power r.waiting a := by
  obtain ⟨⟨_, x⟩, hbest, rfl⟩ := Option.map_eq_some_iff.1 h
  exact (strongestOf_eq_some hbest).2.of_filter

theorem firstStrongest_of_promoted (h : (r.release power seats owner).2.promoted = some a) :
    FirstStrongest power (r.without owner).waiting a := by
  rw [promoted_release] at h
  exact firstStrongest_of_successor (Option.ite_none_right_eq_some.1 h).2

/-! ### Noting the weakest -/

/-- The roster notes its first seated member of least power, with its power. -/
def Fresh (r : Roster) (power : Account → Power) : Prop :=
  match weakestOf power r.seated with
  | none => r.weakest = none ∧ r.weakestPower = 0
  | some (a, least) => r.weakest = some a ∧ r.weakestPower = least

theorem fresh_refresh (r : Roster) (power : Account → Power) : (r.refresh power).Fresh power := by
  unfold Fresh
  rw [seated_refresh, refresh]
  cases weakestOf power r.seated <;> exact ⟨rfl, rfl⟩

/-- Finding the weakest member anew changes nothing where it is noted already. -/
theorem Fresh.refresh_eq (hr : r.Fresh power) : r.refresh power = r := by
  unfold Fresh at hr
  unfold refresh
  cases hweakest : weakestOf power r.seated with
  | none | some found =>
    rw [hweakest] at hr
    obtain ⟨hnoted, hpower⟩ := hr
    dsimp only
    rw [← hnoted, ← hpower]

theorem Fresh.congr (hr : r.Fresh f) (h : ∀ c ∈ r.seated, f c = g c) : r.Fresh g := by
  unfold Fresh at hr ⊢
  rwa [← weakestOf_congr h]

theorem fresh_seat (h : power candidate ≠ 0) :
    (r.seat power seats candidate).1.Fresh power := by
  unfold seat
  rw [if_neg h]
  repeat' split
  all_goals exact fresh_refresh ..

theorem fresh_release (r : Roster) (power : Account → Power) (seats : Nat) (owner : Account) :
    (r.release power seats owner).1.Fresh power := fresh_refresh ..

theorem Fresh.of_empty (hr : r.Fresh power) (h : r.seated = []) :
    r.weakest = none ∧ r.weakestPower = 0 := by
  unfold Fresh at hr
  rwa [h] at hr

theorem Fresh.of_seated (hr : r.Fresh power) (h : r.seated ≠ []) :
    ∃ a, r.weakest = some a ∧ r.weakestPower = power a ∧ FirstWeakest power r.seated a := by
  unfold Fresh at hr
  cases hweakest : weakestOf power r.seated with
  | none => exact absurd (weakestOf_eq_none_iff.1 hweakest) h
  | some found =>
    obtain ⟨a, least⟩ := found
    obtain ⟨rfl, hfirst⟩ := weakestOf_eq_some hweakest
    rw [hweakest] at hr
    exact ⟨a, hr.1, hr.2, hfirst⟩

end Roster

end StakedCommittee
