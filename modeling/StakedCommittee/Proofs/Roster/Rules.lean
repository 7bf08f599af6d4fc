import StakedCommittee.Proofs.Roster.Seats

/-! The rules of admission and of departure, for any roster and any powers. A candidate gets a seat
only from a free committee or from a strictly weaker member, and the first of the weakest makes way.
A seat that falls free goes to the strongest that waits, and of equals to the earliest in the pool.
Nobody else moves, and both end by noting the first of the weakest members, whatever was noted
before. -/

namespace StakedCommittee

namespace Roster

variable {r : Roster} {power : Account → Power} {seats : Nat} {candidate owner a : Account}

/-! ### Admission -/

theorem seat_of_mem (h : candidate ∈ r.seated) :
    r.seat power seats candidate = (r.refresh power, .alreadySeated) := if_pos h

theorem seat_of_powerless (hnew : candidate ∉ r.seated) (hzero : power candidate = 0) :
    r.seat power seats candidate = (r, .waiting) := by
  unfold seat
  rw [if_neg hnew, if_pos hzero]

/-- It takes power, and a free seat or a strictly weaker member. -/
theorem mem_seated_seat_iff (hnew : candidate ∉ r.seated) :
    candidate ∈ (r.seat power seats candidate).1.seated ↔
      0 < power candidate ∧ (r.seated.length < seats ∨
        ∃ a, FirstWeakest power r.seated a ∧ power a < power candidate) := by
  have hcase := r.seat_case power seats candidate
  generalize r.seat power seats candidate = found at hcase
  cases hcase with
  | keeps seated => exact absurd seated hnew
  | powerless new zero => simp [hnew, zero]
  | fills new powered free =>
    refine iff_of_true ?_ ⟨UInt64.pos_iff_ne_zero.2 powered, .inl free⟩
    simp
  | outranked new powered full le =>
    refine iff_of_false (by simpa using hnew) ?_
    rintro ⟨-, hfree | ⟨a, hfirst, hlt⟩⟩
    · omega
    · exact UInt64.not_lt.2 (le a hfirst.mem) hlt
  | displaces new powered full weakest lt =>
    refine iff_of_true ?_ ⟨UInt64.pos_iff_ne_zero.2 powered, .inr ⟨_, weakest, lt⟩⟩
    simp

/-- A free seat is taken at the end, and nobody makes way. -/
theorem seat_of_free (hnew : candidate ∉ r.seated) (hfree : r.seated.length < seats)
    (h : candidate ∈ (r.seat power seats candidate).1.seated) :
    (r.seat power seats candidate).2 = .admitted ∧
      (r.seat power seats candidate).1.seated = r.seated ++ [candidate] := by
  have hcase := r.seat_case power seats candidate
  generalize r.seat power seats candidate = found at hcase h
  cases hcase with
  | keeps seated => exact absurd seated hnew
  | powerless => exact absurd h hnew
  | fills => exact ⟨rfl, seated_refresh ..⟩
  | outranked new powered full le | displaces new powered full weakest lt =>
    exact absurd hfree (Nat.not_lt.2 full)

/-- In a full committee the first of the weakest makes way, and nobody else moves. -/
theorem seat_of_full (hnodup : r.seated.Nodup) (hnew : candidate ∉ r.seated)
    (hfull : seats ≤ r.seated.length)
    (h : candidate ∈ (r.seat power seats candidate).1.seated) :
    ∃ a, FirstWeakest power r.seated a ∧
      (r.seat power seats candidate).2 = .displaced a ∧
      (r.seat power seats candidate).1.seated = r.seated.erase a ++ [candidate] := by
  have hcase := r.seat_case power seats candidate
  generalize r.seat power seats candidate = found at hcase h
  cases hcase with
  | keeps seated => exact absurd seated hnew
  | powerless => exact absurd h hnew
  | fills new powered free => exact absurd free (Nat.not_lt.2 hfull)
  | outranked => exact absurd (seated_refresh r power ▸ h) hnew
  | displaces new powered full weakest lt =>
    refine ⟨_, weakest, rfl, ?_⟩
    rw [seated_refresh, erase_eq_filter_ne hnodup]

theorem seat_of_not_seated (hnew : candidate ∉ r.seated)
    (h : candidate ∉ (r.seat power seats candidate).1.seated) :
    (r.seat power seats candidate).2 = .waiting ∧
      (r.seat power seats candidate).1.seated = r.seated := by
  have hcase := r.seat_case power seats candidate
  generalize r.seat power seats candidate = found at hcase h
  cases hcase with
  | keeps seated => exact absurd seated hnew
  | powerless => exact ⟨rfl, rfl⟩
  | outranked => exact ⟨rfl, seated_refresh ..⟩
  | fills | displaces => simp at h

/-- Unless the candidate is new and has no power, the weakest member is found anew. -/
theorem fresh_seat_of_considered (h : candidate ∈ r.seated ∨ 0 < power candidate) :
    (r.seat power seats candidate).1.Fresh power := by
  rcases h with hseated | hpower
  · rw [seat_of_mem hseated]
    exact r.fresh_refresh power
  · exact fresh_seat (UInt64.pos_iff_ne_zero.1 hpower)

/-- Who is admitted, who makes way, and what is noted afterwards. A committee larger than the limit
counts as full, whoever is not in the table has no power, and what was noted before plays no
part. -/
theorem admission_rule (r : Roster) (table : PowerTable) (seats : Nat) (candidate : Account)
    (hnodup : r.seated.Nodup) :
    let power := table.power
    let next := (r.seat power seats candidate).1
    let seating := (r.seat power seats candidate).2
    (candidate ∈ r.seated → seating = .alreadySeated ∧ next.seated = r.seated) ∧
      (candidate ∉ r.seated →
        (candidate ∈ next.seated ↔ 0 < power candidate ∧ (r.seated.length < seats ∨
          ∃ a, FirstWeakest power r.seated a ∧ power a < power candidate)) ∧
        (candidate ∈ next.seated → r.seated.length < seats →
          seating = .admitted ∧ next.seated = r.seated ++ [candidate]) ∧
        (candidate ∈ next.seated → seats ≤ r.seated.length →
          ∃ a, FirstWeakest power r.seated a ∧ seating = .displaced a ∧
            next.seated = r.seated.erase a ++ [candidate]) ∧
        (candidate ∉ next.seated → seating = .waiting ∧ next.seated = r.seated)) ∧
      (next.pool = r.pool ∧ next.reported = r.reported ∧ next.version = r.version) ∧
      (candidate ∉ r.seated ∧ power candidate = 0 → next = r) ∧
      (candidate ∈ r.seated ∨ 0 < power candidate →
        (next.seated = [] → next.weakest = none ∧ next.weakestPower = 0) ∧
        (next.seated ≠ [] → ∃ a, next.weakest = some a ∧ next.weakestPower = power a ∧
          FirstWeakest power next.seated a)) := by
  intro power next seating
  refine ⟨fun hseated => ?_, fun hnew => ⟨mem_seated_seat_iff hnew, ?_, ?_, ?_⟩,
    ⟨pool_seat .., reported_seat .., version_seat ..⟩, ?_, fun h => ?_⟩
  · simp only [next, seating, seat_of_mem hseated, seated_refresh, and_self]
  · exact fun h hfree => seat_of_free hnew hfree h
  · exact fun h hfull => seat_of_full hnodup hnew hfull h
  · exact fun hout => seat_of_not_seated hnew hout
  · rintro ⟨hnew, hzero⟩
    exact congrArg Prod.fst (seat_of_powerless hnew hzero)
  · have hfresh : next.Fresh power := fresh_seat_of_considered h
    exact ⟨hfresh.of_empty, hfresh.of_seated⟩

/-- With two seats for three members the committee is full, and of the two members without power the
first makes way, whoever is noted. -/
theorem admission_rule_beyond_limit :
    let r : Roster :=
      { seated := [⟨"a"⟩, ⟨"b"⟩, ⟨"c"⟩], pool := [⟨"a"⟩, ⟨"b"⟩, ⟨"c"⟩, ⟨"d"⟩],
        weakest := some ⟨"a"⟩, weakestPower := 9 }
    let table : PowerTable := SortedMap.ofList [(⟨"a"⟩, 5), (⟨"d"⟩, 4)]
    r.seated.Nodup ∧ ∃ a, FirstWeakest table.power r.seated a ∧
      (r.seat table.power 2 ⟨"d"⟩).2 = .displaced a ∧
      (r.seat table.power 2 ⟨"d"⟩).1.seated = r.seated.erase a ++ [⟨"d"⟩] := by
  intro r table
  have hnodup : r.seated.Nodup := by decide
  obtain ⟨-, hrule, -⟩ := admission_rule r table 2 ⟨"d"⟩ hnodup
  obtain ⟨-, -, hfull, -⟩ := hrule (by decide)
  exact ⟨hnodup, hfull (by decide +kernel) (by decide)⟩

/-! ### Departure -/

theorem waiting_without (r : Roster) (owner : Account) :
    (r.without owner).waiting = r.pool.filter fun a => a ≠ owner ∧ a ∉ r.seated := by
  unfold waiting without
  rw [List.filter_filter]
  refine List.filter_congr fun a _ => ?_
  by_cases ha : a = owner <;> simp [ha]

theorem isSome_successor_iff : (r.successor power).isSome ↔ ∃ a ∈ r.waiting, 0 < power a := by
  constructor
  · intro h
    obtain ⟨a, ha⟩ := Option.isSome_iff_exists.1 h
    obtain ⟨hpool, hseated, hpower⟩ := mem_of_successor ha
    exact ⟨a, mem_waiting.2 ⟨hpool, hseated⟩, UInt64.pos_iff_ne_zero.2 hpower⟩
  · rintro ⟨a, ha, hpower⟩
    by_contra hnone
    have hzero := power_of_successor_eq_none (Option.not_isSome_iff_eq_none.1 hnone) ha
    exact UInt64.pos_iff_ne_zero.1 hpower hzero

/-- A freed seat is filled if the limit leaves it and somebody with power waits for it. -/
theorem isSome_promoted_iff :
    (r.release power seats owner).2.promoted.isSome ↔
      owner ∈ r.seated ∧ (r.without owner).seated.length < seats ∧
        ∃ a ∈ (r.without owner).waiting, 0 < power a := by
  rw [promoted_release]
  by_cases hroom : owner ∈ r.seated ∧ (r.without owner).seated.length < seats
  · rw [if_pos hroom, isSome_successor_iff]
    exact ⟨fun h => ⟨hroom.1, hroom.2, h⟩, fun h => h.2.2⟩
  · rw [if_neg hroom]
    exact iff_of_false (by simp) fun h => hroom ⟨h.1, h.2.1⟩

/-- Who leaves, who takes over the seat, and what is noted afterwards, for any owner, even one that
is not in the roster, and any committee, even one beyond the limit. -/
theorem departure_rule (r : Roster) (table : PowerTable) (seats : Nat) (owner : Account) :
    let power := table.power
    let next := (r.release power seats owner).1
    let departure := (r.release power seats owner).2
    let kept := r.seated.filter (· ≠ owner)
    let waiting := r.pool.filter fun a => a ≠ owner ∧ a ∉ r.seated
    (owner ∉ next.seated ∧ owner ∉ next.pool) ∧
      next.pool = r.pool.filter (· ≠ owner) ∧
      next.seated = kept ++ departure.promoted.toList ∧
      (next.reported = r.reported ∧ next.version = r.version) ∧
      departure.wasSeated = decide (owner ∈ r.seated) ∧
      (departure.promoted.isSome ↔
        owner ∈ r.seated ∧ kept.length < seats ∧ ∃ a ∈ waiting, 0 < power a) ∧
      (∀ a, departure.promoted = some a → FirstStrongest power waiting a) ∧
      (next.seated = [] → next.weakest = none ∧ next.weakestPower = 0) ∧
      (next.seated ≠ [] → ∃ a, next.weakest = some a ∧ next.weakestPower = power a ∧
        FirstWeakest power next.seated a) := by
  intro power next departure kept waiting
  have hwaiting : (r.without owner).waiting = waiting := r.waiting_without owner
  have hfresh : next.Fresh power := r.fresh_release power seats owner
  refine ⟨⟨fun h => (mem_seated_release h).1 rfl, ?_⟩, pool_release .., seated_release ..,
    ⟨reported_release .., version_release ..⟩, rfl, ?_, fun a ha => ?_, hfresh.of_empty,
    hfresh.of_seated⟩
  · rw [pool_release]
    simp
  · rw [← hwaiting]
    exact isSome_promoted_iff
  · rw [← hwaiting]
    exact firstStrongest_of_promoted ha

end Roster

end StakedCommittee
