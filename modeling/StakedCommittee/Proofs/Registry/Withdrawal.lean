import StakedCommittee.Proofs.Registry.Payout
import StakedCommittee.Proofs.Roster.Succession

/-! A withdrawal spares the committee. Whoever has a seat is refused, so what a withdrawal changes is
a waiting member: it keeps a deposit to register with and its place in the pool, or it gives both up.
The second goes the same way as any departure, with a search for a successor and for the weakest
member; but no seat falls free, and the weakest member is noted already. -/

namespace StakedCommittee

/-- An account that has no seat leaves the pool, if it is in it, and nothing else changes. -/
theorem Book.Fresh.roster_dismissMember {b : Book} (h : b.Fresh)
    (hdrawn : ∀ a ∈ b.roster.seated, a ∈ b.roster.pool) (p : Parameters) {owner : Account}
    (hout : owner ∉ b.roster.seated) :
    (b.dismissMember p owner).roster =
      { b.roster with pool := b.roster.pool.filter (· ≠ owner) } := by
  unfold dismissMember
  split
  · rw [roster_dismiss hdrawn, Roster.Fresh.release_unseated h hout]
  · rename_i houtside
    rw [filter_ne_eq_self houtside]

/-- What a withdrawal by the validator `v` makes of a book. -/
structure Book.Withdraws (b : Book) (p : Parameters) (v : Validator) (amount remaining : Amount)
    (after : Book) : Prop where
  found : b.validators.get? v.owner = some v
  unseated : v.owner ∉ b.roster.seated
  units : remaining.units + amount.units = v.deposit.units
  validators : after.validators = (b.put { v with deposit := remaining }).validators
  /-- The owner leaves with everything, or keeps enough to stay. -/
  roster : remaining = .zero ∧
      after.roster = { b.roster with pool := b.roster.pool.filter (· ≠ v.owner) } ∨
    p.leastDeposit ≤ remaining ∧ after.roster = b.roster

theorem Desk.withdraws_of_ok {b : Book} {p : Parameters} {owner : Account}
    {amount remaining : Amount} {after : Desk} (hfunded : b.Funded) (hfresh : b.Fresh)
    (h : Desk.withdraw ⟨b, []⟩ p owner amount = .ok (remaining, after)) :
    after.transfers = [.credit owner amount] ∧
      ∃ v, v.owner = owner ∧ b.Withdraws p v amount remaining after.book := by
  obtain ⟨v, hv, hjudged, rfl⟩ := withdraw_eq_ok h
  obtain rfl := b.owner_eq hv
  obtain ⟨hseated, hunits, hleast⟩ := Parameters.withdraw_eq_ok hjudged
  have hout : v.owner ∉ b.roster.seated := of_decide_eq_false hseated
  -- The note of the weakest seated member does not depend on who has no seat.
  have hput : (b.put { v with deposit := remaining }).Fresh := hfresh.put fun hin => absurd hin hout
  by_cases hzero : remaining = .zero
  · rw [if_pos (Amount.isZero_iff.2 hzero)]
    exact ⟨rfl, v, rfl, hv, hout, by omega, Book.validators_dismissMember ..,
      .inl ⟨hzero, hput.roster_dismissMember hfunded.pool_of_seated p hout⟩⟩
  · rw [if_neg fun h => hzero (Amount.isZero_iff.1 h)]
    exact ⟨rfl, v, rfl, hv, hout, by omega, rfl, .inr ⟨hleast.resolve_left hzero, rfl⟩⟩

namespace Book.Withdraws

variable {b after : Book} {p : Parameters} {v : Validator} {amount remaining : Amount}

/-- Only the pool may change. -/
theorem roster_eq (h : b.Withdraws p v amount remaining after) :
    after.roster = { b.roster with pool := after.roster.pool } := by
  rcases h.roster with ⟨-, hroster⟩ | ⟨-, hroster⟩ <;> rw [hroster]

/-- Whoever keeps a deposit was in the pool. -/
theorem mem_pool (h : b.Withdraws p v amount remaining after) (hfunded : b.Funded)
    (hremaining : remaining ≠ .zero) : v.owner ∈ b.roster.pool := by
  rw [hfunded.mem_pool_iff, deposit_of_get? h.found]
  intro hzero
  have hunits := h.units
  rw [hzero, Amount.units_zero] at hunits
  exact hremaining (Amount.ext (by rw [Amount.units_zero]; omega))

end Book.Withdraws

/-- A withdrawal is made only by an owner without a seat. It leaves the committee, what was reported
of it and its noted weakest member as they were; it moves the amount from the deposit to the balance
of the owner, and no other balance changes. Either it takes the whole deposit and the owner out of
the pool, where all others keep their order, or the rest is enough to register with, carries power,
and leaves the owner in the pool, which is as it was. -/
theorem Run.withdrawal_spares_committee (l : Ledger) (steps : List Step) (source : ParameterSource)
    (faults : Faults) (height : Height) (owner : Account) (amount remaining : Amount)
    (h : ((of l steps).registry.call source faults (.withdraw height owner amount)).1 =
      .ok remaining) :
    let before := (of l steps).registry
    let after := (before.call source faults (.withdraw height owner amount)).2
    ∃ p r next v, source.inForce height = .ok p ∧
      Query.roster.answer before.store = .ok r ∧ Query.roster.answer after.store = .ok next ∧
      (Query.validator? owner).answer before.store = .ok (some v) ∧
      (Query.validator? owner).answer after.store = .ok (some { v with deposit := remaining }) ∧
      owner ∉ r.seated ∧ next.seated = r.seated ∧ next.reported = r.reported ∧
      next.weakestPower = r.weakestPower ∧ next.weakest = r.weakest ∧
      (∀ a, (after.ledger.balance a).units =
        (before.ledger.balance a).units + if a = owner then amount.units else 0) ∧
      remaining.units + amount.units = v.deposit.units ∧
      (remaining = .zero ∧ next.pool = r.pool.filter (· ≠ owner) ∨
        p.leastDeposit ≤ remaining ∧ next.pool = r.pool ∧ owner ∈ next.pool ∧
          1 ≤ remaining.power) := by
  intro before after
  obtain ⟨b, hb, hfunded, hfresh⟩ := holds_fresh l steps
  obtain ⟨w, heffect, heffects⟩ := Registry.call_of_ok hb h
  obtain ⟨p, hgoes⟩ := Call.exists_goesBy heffect
  have hp : source.inForce height = .ok p := hgoes height rfl
  cases Call.acts_of_effect hgoes heffect with
  | withdraw hwithdraw =>
    obtain ⟨htransfers, v, rfl, hmade⟩ := Desk.withdraws_of_ok hfunded hfresh hwithdraw
    have hstored : (w.stored b).validators.get? v.owner = some { v with deposit := remaining } := by
      rw [Desk.validators_stored, hmade.validators, Book.get?_put, if_pos rfl]
    refine ⟨p, b.roster, (w.stored b).roster, v, hp, hb.answer_roster, heffects.holds.answer_roster,
      ?_, ?_, hmade.unseated, ?_, ?_, ?_, ?_, fun a => ?_, hmade.units, ?_⟩
    · rw [hb.answer_validator? v.owner, hmade.found]
    · rw [heffects.holds.answer_validator? v.owner, hstored]
    · rw [Desk.seated_stored, hmade.roster_eq]
    · rw [Desk.reported_stored, hmade.roster_eq]
    · rw [Desk.weakestPower_stored, hmade.roster_eq]
    · rw [Desk.weakest_stored, hmade.roster_eq]
    · rw [heffects.ledger, ← Ledger.paidTo_credit, ← htransfers]
      exact Ledger.balance_moveAll_credits (fun t => (Desk.paysOut_withdraw hwithdraw).isCredit)
        heffects.moved a
    · rw [Desk.pool_stored]
      rcases hmade.roster with ⟨hzero, hroster⟩ | ⟨hleast, hroster⟩
      · exact .inl ⟨hzero, congrArg Roster.pool hroster⟩
      · have hpower := Amount.power_ne_zero_of_le (ParameterSource.power_leastDeposit hp) hleast
        have hmember := hmade.mem_pool hfunded fun hz => hpower (hz ▸ rfl)
        rw [hroster]
        refine .inr ⟨hleast, rfl, hmember, UInt64.le_iff_toNat_le.2 ?_⟩
        exact Nat.pos_of_ne_zero fun hz => hpower (UInt64.toNat_inj.1 hz)

/-- Somebody who waits is penalized below the least deposit and takes back the rest, whole. -/
theorem Run.withdrawal_spares_committee_of_penalized :
    let source : ParameterSource := .always { Parameters.standard with seats := 1 }
    let l : Ledger := .funded (.ofCoins 3000) ["alice", "bob"]
    let steps : List Step :=
      [.enroll source 1 "alice" 0 2000, .enroll source 1 "bob" 1 1500,
        ⟨source, {}, .punish 2 ⟨"bob"⟩ (.ofCoins 600) .ifPowerless⟩]
    ((of l steps).registry.call source {} (.withdraw 3 ⟨"bob"⟩ (.ofCoins 900))).1 = .ok .zero ∧
      ∃ r next, Query.roster.answer (of l steps).registry.store = .ok r ∧
        Query.roster.answer ((of l steps).registry.call source {}
          (.withdraw 3 ⟨"bob"⟩ (.ofCoins 900))).2.store = .ok next ∧
        ⟨"bob"⟩ ∉ r.seated ∧ next.seated = r.seated ∧ next.weakest = r.weakest := by
  intro source l steps
  have hmade : ((of l steps).registry.call source {} (.withdraw 3 ⟨"bob"⟩ (.ofCoins 900))).1 =
      .ok .zero := by
    decide +kernel
  obtain ⟨p, r, next, v, -, hr, hnext, -, -, hout, hseated, -, -, hweakest, -⟩ :=
    withdrawal_spares_committee l steps source {} 3 ⟨"bob"⟩ (.ofCoins 900) .zero hmade
  exact ⟨hmade, r, next, hr, hnext, hout, hseated, hweakest⟩

end StakedCommittee
