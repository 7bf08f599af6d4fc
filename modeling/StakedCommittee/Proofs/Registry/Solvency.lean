import StakedCommittee.Proofs.Registry.BlockStart
import StakedCommittee.Proofs.Registry.Conservation
import StakedCommittee.Proofs.Registry.Payout

/-! No deposit is locked by the ledger. While the coins on the ledger and in deposits together come
to no more than the greatest amount, no account can overflow when a deposit is paid back to it, and
no deposit can overflow when its owner adds coins of its own. Coins are conserved, so this lasts over
a whole run if it holds at first. -/

namespace StakedCommittee

/-- Nobody holds more than all deposits together. -/
theorem Book.deposit_le_deposits {b : Book} {a : Account} {v : Validator}
    (hv : b.validators.get? a = some v) : v.deposit.units ≤ b.deposits := by
  obtain rfl := b.owner_eq hv
  have hput := b.deposits_put { v with deposit := .zero }
  rw [show b.deposit _ = v.deposit from deposit_of_get? hv, Amount.units_zero] at hput
  omega

theorem Desk.PaysOut.paidOut_eq_zero {b : Book} {w : Desk} (h : PaysOut ⟨b, []⟩ w) :
    w.paidOut = 0 := by
  apply List.sum_eq_zero_iff_forall_eq_nat.2
  intro n hn
  obtain ⟨t, ht, rfl⟩ := List.mem_map.1 hn
  exact (h.isCredit ht).paidOut_eq_zero

/-- Payments out of deposits come to no more than the deposits. -/
theorem Call.PaysOut.paidIn_le {source : ParameterSource} {c : Call} (hc : c.PaysOut) {b : Book}
    {a : c.Answer} {w : Desk} (h : c.effect source ⟨b, []⟩ = .ok (a, w)) :
    w.paidIn ≤ b.deposits := by
  have hbalanced := balanced_effect h
  have hstart : Desk.paidIn ⟨b, []⟩ = 0 := rfl
  have hout := (hc.effect h).paidOut_eq_zero
  unfold Desk.Balanced at hbalanced
  dsimp only at hbalanced
  omega

/-- The store holds a sound book, and the coins on the ledger and in deposits come to no more than
the greatest amount. -/
structure Registry.Solvent (reg : Registry) (b : Book) : Prop where
  holds : reg.store.Holds b
  funded : b.Funded
  fresh : b.Fresh
  covered : reg.ledger.total + b.deposits ≤ Amount.greatest.units

namespace Registry.Solvent

variable {reg : Registry} {b : Book} {source : ParameterSource} {height : Height} {c : Call}
  {owner : Account} {v : Validator}

/-- An operation that only pays out fails only if it is refused: there is room on the ledger for
what it pays, and what it stores can be written. -/
theorem refused_of_error (h : reg.Solvent b) (hc : c.PaysOut) {e : RegistryError}
    (houtcome : (reg.call source {} c).1 = .error e) : c.effect source ⟨b, []⟩ = .error e := by
  cases fails_of_error h.holds houtcome with
  | refused hrefused => exact hrefused
  | unpaid heffect hmoved =>
    have hpaid := hc.paidIn_le heffect
    have hcovered := h.covered
    unfold Desk.paidIn at hpaid
    rw [Ledger.failure_moveAll_of_credits [] (fun t => (hc.effect heffect).isCredit) (by omega)]
      at hmoved
    cases hmoved
  | tooLong heffect hfits => exact absurd (hc.fits heffect h.holds.fits h.funded h.fresh) hfits

/-- No payment out of a deposit fails for the ledger. -/
theorem call_ne_ledger (h : reg.Solvent b) (hc : c.PaysOut) (cause : LedgerError) :
    (reg.call source {} c).1 ≠ .error (.ledger cause) := by
  intro houtcome
  -- On a desk only rules refuse, and the ledger has no say in them.
  exact (Call.isRefusal_of_effect (h.refused_of_error hc houtcome) : False)

/-- A deposit is paid back whole, to its owner and to nobody else. -/
theorem revoke (h : reg.Solvent b) {p : Parameters} (hp : source.inForce height = .ok p)
    (hv : b.validators.get? owner = some v) (hdeposit : v.deposit ≠ .zero) :
    (reg.call source {} (.revoke height owner)).1 = .ok v.deposit ∧
      ∀ a, ((reg.call source {} (.revoke height owner)).2.ledger.balance a).units =
        (reg.ledger.balance a).units + if a = owner then v.deposit.units else 0 := by
  have hsome : ¬ v.deposit.isZero = true := fun hz => hdeposit (Amount.isZero_iff.1 hz)
  have hrevoke : Desk.revoke ⟨b, []⟩ p owner = .ok (v.deposit,
      ((Desk.put ⟨b, []⟩ { v with deposit := .zero }).dismissMember p owner).transfer
        (.credit owner v.deposit)) := by
    simp only [Desk.revoke, hv, hsome, Bool.false_eq_true, ↓reduceIte]
  have heffect := (ParameterSource.whenInForce_eq (f := fun p => Desk.revoke ⟨b, []⟩ p owner)
    hp).trans hrevoke
  have hc : (Call.revoke height owner).PaysOut := trivial
  cases houtcome : (reg.call source {} (.revoke height owner)).1 with
  | error e =>
    have hrefused := h.refused_of_error hc houtcome
    cases hrefused.symm.trans heffect
  | ok answer =>
    obtain ⟨w, heffect', heffects⟩ := call_of_ok h.holds houtcome
    obtain ⟨rfl, rfl⟩ := Prod.mk.inj (Except.ok.inj (heffect.symm.trans heffect'))
    refine ⟨rfl, fun a => ?_⟩
    rw [heffects.ledger, ← Ledger.paidTo_credit]
    exact Ledger.balance_moveAll_credits (fun t => (hc.effect heffect).isCredit) heffects.moved a

/-- A pool member may add what it has: the sum is in range. -/
theorem increaseDeposit_ne_overflow (h : reg.Solvent b) (hmember : owner ∈ b.roster.pool)
    {amount : Amount} (hamount : amount ≤ reg.ledger.balance owner) (a : Account) :
    (reg.call source {} (.increaseDeposit height owner amount)).1 ≠
      .error (.message (.depositOverflow a)) := by
  intro houtcome
  cases fails_of_error h.holds houtcome with
  | refused hrefused =>
    rcases ParameterSource.whenInForce_eq_error hrefused with ⟨_, -, hfault⟩ | ⟨p, -, hrefused⟩
    · cases hfault
    split at hrefused
    · cases hrefused
    obtain ⟨v, hv, -⟩ := Book.exists_of_power_ne_zero (h.funded.member owner hmember)
    have hdeposit := Book.deposit_le_deposits hv
    have hbalance := reg.ledger.balance_le_total owner
    have hcovered := h.covered
    have hgreatest := Amount.greatest.units_lt
    rw [Amount.le_iff] at hamount
    have hadd : v.deposit.add? amount = some ⟨v.deposit.units + amount.units, by omega⟩ :=
      Amount.add?_eq_some_iff.2 rfl
    simp only [Desk.increaseDeposit, hmember, hv, hadd, not_true_eq_false, ↓reduceIte,
      reduceCtorEq] at hrefused

end Registry.Solvent

namespace Run

theorem holds_solvent (l : Ledger) (steps : List Step)
    (hsupply : l.total ≤ Amount.greatest.units) (hledger : ∀ s ∈ steps, s.faults.ledger = {}) :
    ∃ b, (of l steps).registry.Solvent b := by
  obtain ⟨b, hb, hfunded, hfresh⟩ := holds_fresh l steps
  obtain ⟨c, hc, hcoins⟩ := induction (P := fun r b => r.coins b = l.total) l steps rfl
    (fun r b s e hs hcoins h => (coins_of_error b (hledger s hs) h).trans hcoins)
    (fun r b s a w hs hcoins h heffect heffects =>
      (coins_of_ok (hledger s hs) h heffect heffects).trans hcoins)
  obtain rfl := hb.unique hc
  unfold coins at hcoins
  exact ⟨b, hb, hfunded, hfresh, by omega⟩

/-- The start of a block fails only for want of parameters. -/
theorem beginBlock_eq_error {l : Ledger} {steps : List Step}
    (hsupply : l.total ≤ Amount.greatest.units) (hledger : ∀ s ∈ steps, s.faults.ledger = {})
    {source : ParameterSource} {height : Height} {flags : List SigningFlag}
    {evidence : List Evidence} {e : RegistryError}
    (h : ((of l steps).registry.beginBlock source {} {} height flags evidence).1 = .error e) :
    ∃ fault, source.inForce height = .error fault ∧ e = .parameters fault := by
  obtain ⟨b, hb⟩ := holds_solvent l steps hsupply hledger
  rcases Registry.beginBlock_of_error h with ⟨hcounted, -⟩ | ⟨-, -, hfired, -⟩
  · have hcount : (Call.countFlags flags).PaysOut := trivial
    -- A count is never refused.
    cases hb.refused_of_error hcount hcounted
  · -- The count is one more step of the run.
    have hsteps : ∀ s ∈ steps ++ [(⟨source, {}, .countFlags flags⟩ : Step)],
        s.faults.ledger = {} := by
      intro s hs
      rcases List.mem_append.1 hs with hs | hs
      · exact hledger s hs
      · obtain rfl := List.mem_singleton.1 hs
        rfl
    obtain ⟨c, hc⟩ := holds_solvent l _ hsupply hsteps
    rw [of_concat] at hc
    have hfire : (Call.fire height evidence).PaysOut := trivial
    exact Call.effect_fire_eq_error (hc.refused_of_error hfire hfired)

/-- After a run on a ledger whose coins came to no more than the greatest amount, on a store that
works: no withdrawal, revocation, penalty or firing fails for the ledger; whoever has a deposit gets
all of it back by revoking; the start of a block fails only for want of parameters; and a pool
member can add coins that it has without exceeding the range of deposits. -/
theorem deposits_never_locked (l : Ledger) (steps : List Step)
    (hsupply : l.total ≤ Amount.greatest.units) (hledger : ∀ s ∈ steps, s.faults.ledger = {})
    (source : ParameterSource) (height : Height) :
    let reg := (of l steps).registry
    (∀ c : Call, c.PaysOut → ∀ cause, (reg.call source {} c).1 ≠ .error (.ledger cause)) ∧
    (∀ p owner v, source.inForce height = .ok p →
      (Query.validator? owner).answer reg.store = .ok (some v) → v.deposit ≠ .zero →
      (reg.call source {} (.revoke height owner)).1 = .ok v.deposit ∧
      ∀ a, ((reg.call source {} (.revoke height owner)).2.ledger.balance a).units =
        (reg.ledger.balance a).units + if a = owner then v.deposit.units else 0) ∧
    (∀ flags evidence e, (reg.beginBlock source {} {} height flags evidence).1 = .error e →
      ∃ fault, source.inForce height = .error fault ∧ e = .parameters fault) ∧
    ∀ r owner amount, Query.roster.answer reg.store = .ok r → owner ∈ r.pool →
      amount ≤ reg.ledger.balance owner → ∀ a,
      (reg.call source {} (.increaseDeposit height owner amount)).1 ≠
        .error (.message (.depositOverflow a)) := by
  intro reg
  obtain ⟨b, hb⟩ := holds_solvent l steps hsupply hledger
  refine ⟨fun c hc cause => hb.call_ne_ledger hc cause, fun p owner v hp hv hdeposit => ?_,
    fun flags evidence e => beginBlock_eq_error hsupply hledger,
    fun r owner amount hr hmember hamount a => ?_⟩
  · rw [hb.holds.answer_validator? owner] at hv
    exact hb.revoke hp (Except.ok.inj hv) hdeposit
  · rw [hb.holds.answer_roster] at hr
    obtain rfl := Except.ok.inj hr
    exact hb.increaseDeposit_ne_overflow hmember hamount a

/-- One account has all coins there can be. It registers with some, is penalized, and gets back what
is left of its deposit. -/
theorem deposits_never_locked_after_penalty :
    let source : ParameterSource := .always .standard
    let l : Ledger := .funded .greatest ["alice"]
    let steps : List Step :=
      [.enroll source 1 "alice" 0 1000,
        ⟨source, { write := some .missing }, .revoke 2 ⟨"alice"⟩⟩,
        ⟨source, {}, .punish 2 ⟨"alice"⟩ (.ofCoins 100) .ifPowerless⟩]
    l.total ≤ Amount.greatest.units ∧ (∀ s ∈ steps, s.faults.ledger = {}) ∧
      ((of l steps).registry.call source {} (.revoke 3 ⟨"alice"⟩)).1 = .ok (.ofCoins 900) ∧
      (((of l steps).registry.call source {} (.revoke 3 ⟨"alice"⟩)).2.ledger.balance
        ⟨"alice"⟩).units =
        ((of l steps).registry.ledger.balance ⟨"alice"⟩).units + (Amount.ofCoins 900).units := by
  intro source l steps
  have hsupply : l.total ≤ Amount.greatest.units := by decide +kernel
  have hledger : ∀ s ∈ steps, s.faults.ledger = {} := by simp [steps, Step.enroll]
  have hforce : source.inForce 3 = .ok .standard := by decide +kernel
  have hstored : (Query.validator? ⟨"alice"⟩).answer (of l steps).registry.store = .ok (some
      ⟨⟨"alice"⟩, .ofByte 0, .ofCoins 900, 0, 0, "", 1⟩) := by decide +kernel
  obtain ⟨-, hrevoke, -⟩ := deposits_never_locked l steps hsupply hledger source 3
  obtain ⟨hanswer, hbalance⟩ := hrevoke .standard _ _ hforce hstored (by decide)
  have halice := hbalance ⟨"alice"⟩
  rw [if_pos rfl] at halice
  exact ⟨hsupply, hledger, hanswer, halice⟩

end Run

end StakedCommittee
