import StakedCommittee.Roster.Seating

/-! What seating and release leave alone, and whom they can put in a seat: only the candidate, or a
waiting member with power. Nobody sits twice. -/

namespace StakedCommittee

theorem strongestOf_mem {power : Account → Power} {l : List Account} {a : Account} {x : Power}
    (h : strongestOf power l = some (a, x)) : a ∈ l := by
  induction l generalizing a x with
  | nil => cases h
  | cons c rest ih =>
    rw [strongestOf] at h
    cases hrest : strongestOf power rest with
    | none =>
      simp only [hrest, Option.some.injEq, Prod.mk.injEq] at h
      exact h.1 ▸ .head _
    | some best =>
      simp only [hrest] at h
      split at h
      · cases h
        exact .tail _ (ih hrest)
      · cases h
        exact .head _

namespace Roster

variable {r : Roster} {power : Account → Power} {seats : Nat} {owner a : Account}

theorem mem_waiting : a ∈ r.waiting ↔ a ∈ r.pool ∧ a ∉ r.seated := by simp [waiting]

/-- A promoted member was waiting, and has power. -/
theorem mem_of_successor (h : r.successor power = some a) :
    a ∈ r.pool ∧ a ∉ r.seated ∧ power a ≠ 0 := by
  obtain ⟨⟨_, x⟩, hbest, rfl⟩ := Option.map_eq_some_iff.1 h
  obtain ⟨hwaiting, hpower⟩ := List.mem_filter.1 (strongestOf_mem hbest)
  obtain ⟨hpool, hseated⟩ := mem_waiting.1 hwaiting
  exact ⟨hpool, hseated, by simpa using hpower⟩

/-! ### Joining -/

@[simp] theorem reported_join (r : Roster) (owner : Account) :
    (r.join owner).reported = r.reported := by
  unfold join
  split <;> rfl

@[simp] theorem version_join (r : Roster) (owner : Account) :
    (r.join owner).version = r.version := by
  unfold join
  split <;> rfl

theorem nodup_pool_join (h : r.pool.Nodup) : (r.join owner).pool.Nodup := by
  unfold join
  split
  · exact h
  · rename_i hnew
    refine List.nodup_append.2 ⟨h, by simp, fun x hx y hy => ?_⟩
    rw [List.mem_singleton.1 hy]
    rintro rfl
    exact hnew hx

/-! ### Seating -/

/-- The committee stays, or the candidate takes the last seat of those who stay. -/
theorem seated_seat (r : Roster) (power : Account → Power) (seats : Nat) (candidate : Account) :
    (r.seat power seats candidate).1.seated = r.seated ∨
      candidate ∉ r.seated ∧ power candidate ≠ 0 ∧
        ∃ kept, kept.Sublist r.seated ∧
          (r.seat power seats candidate).1.seated = kept ++ [candidate] := by
  unfold seat
  split
  · exact .inl (seated_refresh ..)
  · rename_i hnew
    split
    · exact .inl rfl
    · rename_i hpower
      split
      · exact .inr ⟨hnew, hpower, r.seated, .refl _, by simp⟩
      · split
        · exact .inl (seated_refresh ..)
        · split
          · exact .inl (seated_refresh ..)
          · exact .inr ⟨hnew, hpower, _, List.filter_sublist, seated_refresh ..⟩

@[simp] theorem pool_seat (r : Roster) (power : Account → Power) (seats : Nat)
    (candidate : Account) : (r.seat power seats candidate).1.pool = r.pool := by
  unfold seat
  repeat' split
  all_goals simp

@[simp] theorem reported_seat (r : Roster) (power : Account → Power) (seats : Nat)
    (candidate : Account) : (r.seat power seats candidate).1.reported = r.reported := by
  unfold seat
  repeat' split
  all_goals simp

@[simp] theorem version_seat (r : Roster) (power : Account → Power) (seats : Nat)
    (candidate : Account) : (r.seat power seats candidate).1.version = r.version := by
  unfold seat
  repeat' split
  all_goals simp

theorem mem_seated_seat (h : a ∈ (r.seat power seats owner).1.seated) :
    a ∈ r.seated ∨ a = owner := by
  rcases r.seated_seat power seats owner with hsame | ⟨-, -, kept, hkept, hseated⟩
  · exact .inl (hsame ▸ h)
  · rw [hseated, List.mem_append, List.mem_singleton] at h
    exact h.imp_left fun ha => hkept.subset ha

theorem nodup_seated_seat (h : r.seated.Nodup) : (r.seat power seats owner).1.seated.Nodup := by
  rcases r.seated_seat power seats owner with hsame | ⟨hnew, -, kept, hkept, hseated⟩
  · rw [hsame]
    exact h
  · rw [hseated]
    refine List.nodup_append.2 ⟨h.sublist hkept, by simp, fun x hx y hy => ?_⟩
    rw [List.mem_singleton.1 hy]
    rintro rfl
    exact hnew (hkept.subset hx)

/-! ### Release -/

@[simp] theorem pool_release (r : Roster) (power : Account → Power) (seats : Nat)
    (owner : Account) : (r.release power seats owner).1.pool = r.pool.filter (· ≠ owner) := by
  simp [release]

@[simp] theorem reported_release (r : Roster) (power : Account → Power) (seats : Nat)
    (owner : Account) : (r.release power seats owner).1.reported = r.reported := by
  simp [release]

@[simp] theorem version_release (r : Roster) (power : Account → Power) (seats : Nat)
    (owner : Account) : (r.release power seats owner).1.version = r.version := by
  simp [release]

theorem seated_release (r : Roster) (power : Account → Power) (seats : Nat) (owner : Account) :
    (r.release power seats owner).1.seated =
      r.seated.filter (· ≠ owner) ++ (r.release power seats owner).2.promoted.toList := by
  simp [release]

theorem mem_of_promoted (h : (r.release power seats owner).2.promoted = some a) :
    a ∈ r.pool ∧ a ≠ owner ∧ a ∉ r.seated ∧ power a ≠ 0 := by
  simp only [release, Option.ite_none_right_eq_some] at h
  obtain ⟨hpool, hseated, hpower⟩ := mem_of_successor h.2
  obtain ⟨hpool, hne⟩ := List.mem_filter.1 hpool
  have hne : a ≠ owner := by simpa using hne
  refine ⟨hpool, hne, fun ha => hseated ?_, hpower⟩
  exact List.mem_filter.2 ⟨ha, by simpa using hne⟩

theorem mem_seated_release (h : a ∈ (r.release power seats owner).1.seated) :
    a ≠ owner ∧ (a ∈ r.seated ∨ a ∈ r.pool ∧ a ∉ r.seated) := by
  rw [seated_release, List.mem_append, Option.mem_toList] at h
  rcases h with h | h
  · obtain ⟨hseated, hne⟩ := List.mem_filter.1 h
    exact ⟨by simpa using hne, .inl hseated⟩
  · obtain ⟨hpool, hne, hseated, -⟩ := mem_of_promoted h
    exact ⟨hne, .inr ⟨hpool, hseated⟩⟩

theorem nodup_seated_release (h : r.seated.Nodup) :
    (r.release power seats owner).1.seated.Nodup := by
  rw [seated_release]
  refine List.nodup_append.2 ⟨h.filter _, ?_, fun x hx y hy => ?_⟩
  · cases (r.release power seats owner).2.promoted <;> simp
  · obtain ⟨-, -, hseated, -⟩ := mem_of_promoted (Option.mem_toList.1 hy)
    rintro rfl
    exact hseated (List.mem_filter.1 hx).1

end Roster

end StakedCommittee
