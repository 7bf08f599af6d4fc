import Mathlib.Data.List.Pairwise
import StakedCommittee.Proofs.Registry.Funding
import StakedCommittee.Proofs.Roster.Seats

/-! The noted weakest member, and the limit on seats. Every move that changes the committee or the
power of a seated member finds the weakest member anew, so after every run the roster notes the
first seated member of least power. A call adds no seat beyond the limit that it goes by: a committee
within the limit stays within it, and one that a lower limit finds too large does not grow. -/

namespace StakedCommittee

namespace Book

variable {b after : Book} {p : Parameters} {v : Validator} {owner a : Account}

/-! ### Present powers -/

theorem power_eq (b : Book) (a : Account) : b.power a = (b.deposit a).power := by
  unfold power deposit
  cases b.validators.get? a <;> rfl

theorem power_put (b : Book) (v : Validator) (a : Account) :
    (b.put v).power a = if v.owner = a then v.power else b.power a := by
  rw [power_eq, power_eq, deposit_put]
  split <;> rfl

theorem Funded.power_ne_zero (h : b.Funded) (ha : a ∈ b.roster.pool) : b.power a ≠ 0 := by
  rw [power_eq]
  exact h.member a ha

theorem power_of_get? (h : b.validators.get? a = some v) : b.power a = v.power := by
  rw [power, h]
  rfl

theorem powerAmong_of_mem (b : Book) {l : List Account} (ha : a ∈ l) :
    b.powerAmong l a = b.power a := if_pos ha

/-- Seating, dismissal and refreshing look up the powers they need, and so go by the present
powers. -/
theorem roster_offerSeat (b : Book) (p : Parameters) (owner : Account) :
    (b.offerSeat p owner).2.roster =
      ((b.roster.join owner).seat b.power p.seats owner).1 := by
  unfold offerSeat
  rw [roster_setRoster, Roster.seat_congr (f := b.powerAmong _) (g := b.power)]
  · intro c hc
    rw [Roster.seated_join] at hc
    exact b.powerAmong_of_mem (List.mem_append_left _ hc)
  · exact b.powerAmong_of_mem (by simp)

theorem dismiss_eq (h : ∀ c ∈ b.roster.seated, c ∈ b.roster.pool) (p : Parameters)
    (owner : Account) :
    b.dismiss p owner = ((b.roster.release b.power p.seats owner).2,
      b.setRoster (b.roster.release b.power p.seats owner).1) := by
  unfold dismiss
  rw [Roster.release_congr h fun c hc _ => b.powerAmong_of_mem hc]

theorem roster_dismiss (h : ∀ c ∈ b.roster.seated, c ∈ b.roster.pool) (p : Parameters)
    (owner : Account) :
    (b.dismiss p owner).2.roster = (b.roster.release b.power p.seats owner).1 := by
  rw [dismiss_eq h, roster_setRoster]

theorem roster_refreshWeakest (b : Book) :
    b.refreshWeakest.roster = b.roster.refresh b.power := by
  unfold refreshWeakest
  rw [roster_setRoster, Roster.refresh_congr fun c hc => b.powerAmong_of_mem hc]

/-! ### The weakest member -/

/-- The roster notes the first seated member of least power. -/
def Fresh (b : Book) : Prop := b.roster.Fresh b.power

theorem fresh_opening : opening.Fresh := ⟨rfl, rfl⟩

theorem Fresh.put (h : b.Fresh)
    (hpower : v.owner ∈ b.roster.seated → v.power = b.power v.owner) : (b.put v).Fresh := by
  refine Roster.Fresh.congr h fun c hc => ?_
  rw [power_put]
  split
  · subst_vars
    exact (hpower hc).symm
  · rfl

theorem fresh_offerSeat (h : b.power owner ≠ 0) : (b.offerSeat p owner).2.Fresh := by
  unfold Fresh
  rw [roster_offerSeat]
  exact Roster.fresh_seat h

theorem fresh_dismiss (h : ∀ c ∈ b.roster.seated, c ∈ b.roster.pool) :
    (b.dismiss p owner).2.Fresh := by
  unfold Fresh
  rw [roster_dismiss h]
  exact Roster.fresh_release ..

theorem fresh_refreshWeakest (b : Book) : b.refreshWeakest.Fresh := by
  unfold Fresh
  rw [roster_refreshWeakest]
  exact Roster.fresh_refresh ..

/-- Every move keeps the note of the weakest member up to date. -/
theorem Fresh.move (h : b.Fresh) (hfunded : b.Funded) (hmove : b.Move p after) : after.Fresh := by
  cases hmove with
  | enlist v old holder powered =>
    refine fresh_offerSeat ?_
    rw [power_put, if_pos rfl]
    exact powered
  | @raise v deposit found member le =>
    refine fresh_offerSeat ?_
    rw [power_put, if_pos rfl]
    have hpower := hfunded.member _ member
    rw [deposit_of_get? found] at hpower
    exact Amount.power_ne_zero_of_le hpower le
  | lower deposit found le waiting =>
    exact h.put fun hseated => absurd hseated (waiting (hfunded.pool_of_seated _ hseated)).1
  | penalize => exact fresh_refreshWeakest _
  | @leave v found =>
    unfold dismissMember
    split
    · exact fresh_dismiss hfunded.pool_of_seated
    · rename_i hout
      exact h.put fun hseated => absurd (hfunded.pool_of_seated _ hseated) hout
  | count absences signatures found seated =>
    exact h.put fun _ => (power_of_get? found).symm

/-! ### The limit on seats -/

theorem length_seated_offerSeat_le (b : Book) (p : Parameters) (owner : Account) :
    (b.offerSeat p owner).2.roster.seated.length ≤ max b.roster.seated.length p.seats := by
  have hle := (b.roster.join owner).length_seated_seat_le b.power p.seats owner
  rwa [← roster_offerSeat, Roster.seated_join] at hle

theorem Move.length_seated_le (hmove : b.Move p after) :
    after.roster.seated.length ≤ max b.roster.seated.length p.seats := by
  cases hmove with
  | enlist | raise => exact length_seated_offerSeat_le ..
  | lower | count => exact Nat.le_max_left ..
  | penalize =>
    rw [roster_refreshWeakest, Roster.seated_refresh]
    exact Nat.le_max_left ..
  | leave =>
    unfold dismissMember
    split
    · exact Nat.le_trans (Roster.length_seated_release_le ..) (Nat.le_max_left ..)
    · exact Nat.le_max_left ..

theorem Moves.length_seated_le (hmoves : b.Moves p after) :
    after.roster.seated.length ≤ max b.roster.seated.length p.seats := by
  refine hmoves.preserve (P := fun c => c.roster.seated.length ≤ _) (fun h hmove => ?_)
    (Nat.le_max_left ..)
  have hle := hmove.length_seated_le
  omega

end Book

/-- The seats that the parameters at the height of a step give. -/
def Step.seats? (s : Step) : Option Nat :=
  s.call.height?.bind fun height => (s.source height).toOption.map (·.seats)

/-- Whatever a step goes by has the seats of the step; a step that goes by nothing may be taken to
go by any number of seats. -/
theorem Step.exists_goesBy {s : Step} {w : Desk} {found : s.call.Answer × Desk} {seats : Nat}
    (h : s.call.effect s.source w = .ok found) (hseats : ∀ n, s.seats? = some n → n = seats) :
    ∃ p, s.call.GoesBy s.source p ∧ p.seats = seats := by
  obtain ⟨p, hp⟩ := Call.exists_goesBy h
  cases hheight : s.call.height? with
  | none =>
    refine ⟨{ Parameters.standard with seats }, fun height h => ?_, rfl⟩
    rw [hheight] at h
    cases h
  | some height =>
    refine ⟨p, hp, hseats _ ?_⟩
    have hsource := (ParameterSource.inForce_eq_ok (hp height hheight)).1
    rw [seats?, hheight, Option.bind_some, hsource]
    rfl

/-- A call adds no seat beyond the limit that it goes by. -/
theorem Step.length_seated_effect_le {s : Step} {b : Book} {a : s.call.Answer} {w : Desk}
    (h : s.call.effect s.source ⟨b, []⟩ = .ok (a, w)) :
    w.book.roster.seated.length ≤ max b.roster.seated.length (s.seats?.getD 0) := by
  by_cases hc : s.call = .report
  · obtain ⟨source, faults, c⟩ := s
    subst hc
    cases h
    exact Nat.le_max_left ..
  · obtain ⟨p, hp, hseats⟩ : ∃ p, s.call.GoesBy s.source p ∧ p.seats = s.seats?.getD 0 :=
      s.exists_goesBy h fun n hn => by rw [hn, Option.getD_some]
    rw [← hseats]
    exact (Call.moves_of_effect hc hp h).length_seated_le

/-- `x` is the power of the validator stored for `a`. -/
def Store.HasPower (s : Store) (a : Account) (x : Power) : Prop :=
  ∃ v, (Query.validator? a).answer s = .ok (some v) ∧ v.power = x

theorem Store.Holds.hasPower_of_member {s : Store} {b : Book} (hs : s.Holds b) (h : b.Funded)
    {a : Account} (ha : a ∈ b.roster.pool) : s.HasPower a (b.power a) := by
  obtain ⟨v, hv, -⟩ := Book.exists_of_power_ne_zero (h.member a ha)
  exact ⟨v, by rw [hs.answer_validator? a, hv], (Book.power_of_get? hv).symm⟩

namespace Run

theorem holds_fresh (l : Ledger) (steps : List Step) :
    ∃ b, (of l steps).registry.store.Holds b ∧ b.Funded ∧ b.Fresh :=
  moves_induction ⟨Book.funded_opening, Book.fresh_opening⟩
    (fun _ _ h => ⟨h.1.setRoster rfl rfl, h.2⟩) (fun h hmove => ⟨h.1.move hmove, h.2.move h.1 hmove⟩)
    (fun _ h => ⟨h.1.setRoster rfl rfl, h.2⟩) l steps

/-- A committee stays within every limit that no step exceeds. -/
theorem holds_length_seated_le (l : Ledger) {steps : List Step} {limit : Nat}
    (h : ∀ s ∈ steps, s.seats?.getD 0 ≤ limit) :
    ∃ b, (of l steps).registry.store.Holds b ∧ b.roster.seated.length ≤ limit := by
  refine induction (P := fun _ b => b.roster.seated.length ≤ limit) l steps (Nat.zero_le _)
    (fun _ _ _ _ _ hb _ => hb) fun r b s a w hs hb _ heffect _ => ?_
  have hle := Step.length_seated_effect_le heffect
  have hlimit := h s hs
  rw [Desk.seated_stored]
  omega

/-- After one more step the committee is no larger than it was, or within the limit of the step. -/
theorem length_seated_extend_le {l : Ledger} {steps : List Step} {b : Book}
    (hb : (of l steps).registry.store.Holds b) (s : Step) :
    ∃ c, (of l (steps ++ [s])).registry.store.Holds c ∧
      c.roster.seated.length ≤ max b.roster.seated.length (s.seats?.getD 0) := by
  rw [of_concat]
  obtain ⟨c, hc, rfl | ⟨a, w, heffect, rfl⟩⟩ := Registry.holds_call hb s.source s.faults s.call
  · exact ⟨c, hc, Nat.le_max_left ..⟩
  · refine ⟨w.stored b, hc, ?_⟩
    rw [Desk.seated_stored]
    exact Step.length_seated_effect_le heffect

/-- After every run the roster notes the first seated member of least power; the next call makes the
committee no larger than it is, or than the call's limit allows; and a limit that never falls is
never exceeded. -/
theorem weakest_noted_within_limit (l : Ledger) (steps : List Step) :
    let store := (of l steps).registry.store
    ∃ r, Query.roster.answer store = .ok r ∧
      (r.seated = [] → r.weakest = none ∧ r.weakestPower = 0) ∧
      (r.seated ≠ [] → ∃ before a after, r.seated = before ++ a :: after ∧ r.weakest = some a ∧
        store.HasPower a r.weakestPower ∧
        (∀ c ∈ before, ∃ x, store.HasPower c x ∧ r.weakestPower < x) ∧
        ∀ c ∈ after, ∃ x, store.HasPower c x ∧ r.weakestPower ≤ x) ∧
      (∀ s : Step, ∃ next, Query.roster.answer (of l (steps ++ [s])).registry.store = .ok next ∧
        next.seated.length ≤ max r.seated.length (s.seats?.getD 0)) ∧
      ((steps.filterMap Step.seats?).Pairwise (· ≤ ·) →
        r.seated.length ≤ (steps.filterMap Step.seats?).getLast?.getD 0) := by
  obtain ⟨b, hb, hfunded, hfresh⟩ := holds_fresh l steps
  refine ⟨b.roster, hb.answer_roster, hfresh.of_empty, fun hseated => ?_, fun s => ?_,
    fun hgrows => ?_⟩
  · obtain ⟨a, hnoted, hpower, before, after, hsplit, hbefore, hafter⟩ := hfresh.of_seated hseated
    rw [hpower]
    have hstored (c : Account) (hc : c ∈ before ++ a :: after) :=
      hb.hasPower_of_member hfunded (hfunded.pool_of_seated c (hsplit ▸ hc))
    refine ⟨before, a, after, hsplit, hnoted, hstored a (by simp), fun c hc => ?_, fun c hc => ?_⟩
    · exact ⟨_, hstored c (by simp [hc]), hbefore c hc⟩
    · exact ⟨_, hstored c (by simp [hc]), hafter c hc⟩
  · obtain ⟨c, hc, hle⟩ := length_seated_extend_le hb s
    exact ⟨c.roster, hc.answer_roster, hle⟩
  · have hlast : ∀ s ∈ steps, s.seats?.getD 0 ≤ (steps.filterMap Step.seats?).getLast?.getD 0 := by
      intro s hs
      cases hseats : s.seats? with
      | none => exact Nat.zero_le _
      | some n =>
        have hn : n ∈ steps.filterMap Step.seats? := List.mem_filterMap.2 ⟨s, hs, hseats⟩
        rw [List.getLast?_eq_some_getLast (List.ne_nil_of_mem hn)]
        exact hgrows.rel_getLast hn
    obtain ⟨c, hc, hle⟩ := holds_length_seated_le l hlast
    rwa [hb.unique hc]

end Run

end StakedCommittee
