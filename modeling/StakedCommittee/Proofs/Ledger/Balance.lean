import StakedCommittee.Ledger.Transfer
import StakedCommittee.Proofs.SortedMap.Sum

/-! Coins on a ledger: what a movement does to the balances and to their sum, and that movements can
always be taken back where nothing fails from outside. Taking back leaves the accounts that were
opened meanwhile, so ledgers are compared by their balances. Movements that all go through change a
balance by what they pay to the account less what they take from it. A list of credits goes through
if no balance comes to more than the greatest amount, so the order of credits does not matter. -/

namespace StakedCommittee

/-- What a movement pays into the ledger. -/
def Transfer.paidIn : Transfer → Nat
  | .debit _ _ => 0
  | .credit _ amount => amount.units

/-- What a movement takes out of the ledger. -/
def Transfer.paidOut : Transfer → Nat
  | .debit _ amount => amount.units
  | .credit _ _ => 0

def Transfer.IsCredit : Transfer → Prop
  | .debit .. => False
  | .credit .. => True

/-- The account that a movement concerns. -/
def Transfer.account : Transfer → Account
  | .debit a _ | .credit a _ => a

@[simp] theorem Transfer.account_reversed (t : Transfer) : t.reversed.account = t.account := by
  cases t <;> rfl

theorem Transfer.IsCredit.paidOut_eq_zero {t : Transfer} (h : t.IsCredit) : t.paidOut = 0 := by
  cases t with
  | debit => exact h.elim
  | credit => rfl

namespace Ledger

/-- All coins on the ledger. -/
def total (l : Ledger) : Nat := l.balances.sum Amount.units

theorem balance_setBalance (l : Ledger) (a b : Account) (amount : Amount) :
    (l.setBalance a amount).balance b = if a = b then amount else l.balance b := by
  unfold balance setBalance
  rw [SortedMap.get?_insert]
  split <;> rfl

theorem isOpen_setBalance {l : Ledger} {a b : Account} {amount : Amount} :
    (l.setBalance a amount).IsOpen b ↔ a = b ∨ l.IsOpen b := by
  unfold IsOpen setBalance
  rw [SortedMap.get?_insert]
  split <;> simp_all

theorem total_setBalance (l : Ledger) (a : Account) (amount : Amount) :
    (l.setBalance a amount).total + (l.balance a).units = l.total + amount.units := by
  have hsum := l.balances.sum_insert Amount.units a amount
  unfold total setBalance balance
  cases h : l.balances.get? a with
  | none => simpa [h] using hsum
  | some held => simpa [h] using hsum

theorem balance_le_total (l : Ledger) (a : Account) : (l.balance a).units ≤ l.total := by
  have htotal := l.total_setBalance a .zero
  rw [Amount.units_zero] at htotal
  omega

/-- Balances decide the total, whichever accounts are open. -/
theorem total_congr {l m : Ledger} (h : ∀ a, l.balance a = m.balance a) : l.total = m.total := by
  have hheld : (l.balances.filter fun _ v => decide (v.units ≠ 0)) =
      m.balances.filter fun _ v => decide (v.units ≠ 0) := by
    refine SortedMap.ext_get? fun a => ?_
    have ha := h a
    unfold balance at ha
    rw [SortedMap.get?_filter, SortedMap.get?_filter]
    have hzero (v : Amount) (hv : v = .zero) : decide (v.units ≠ 0) = false := by simp [hv]
    cases hl : l.balances.get? a with
    | none =>
      cases hm : m.balances.get? a with
      | none => rfl
      | some v =>
        rw [hl, hm] at ha
        rw [Option.filter_none, Option.filter_some, hzero v ha.symm]
        rfl
    | some v =>
      cases hm : m.balances.get? a with
      | none =>
        rw [hl, hm] at ha
        rw [Option.filter_none, Option.filter_some, hzero v ha]
        rfl
      | some w =>
        rw [hl, hm] at ha
        rw [show v = w from ha]
  unfold total
  rw [← SortedMap.sum_filter l.balances, ← SortedMap.sum_filter m.balances, hheld]

/-! ### One movement -/

theorem debit_eq_ok_iff {l moved : Ledger} {a : Account} {amount : Amount} :
    l.debit a amount = .ok moved ↔
      l.IsOpen a ∧ ∃ rest : Amount, amount.units + rest.units = (l.balance a).units ∧
        moved = l.setBalance a rest := by
  unfold debit IsOpen balance
  cases hopen : l.balances.get? a with
  | none => simp
  | some available =>
    cases hrest : available.sub? amount with
    | none =>
      simp only [hrest, reduceCtorEq, Option.some.injEq, exists_eq', Option.getD_some, true_and,
        false_iff]
      rintro ⟨rest, hsum, -⟩
      rw [Amount.sub?_eq_some_iff.2 hsum] at hrest
      cases hrest
    | some rest =>
      have hsum := Amount.sub?_eq_some_iff.1 hrest
      simp only [hrest, Except.ok.injEq, Option.some.injEq, exists_eq', Option.getD_some, true_and]
      constructor
      · rintro rfl
        exact ⟨rest, hsum, rfl⟩
      · rintro ⟨other, hother, rfl⟩
        have hunits : rest.units = other.units := by omega
        rw [Amount.ext hunits]

theorem credit_eq_ok_iff {l moved : Ledger} {a : Account} {amount : Amount} :
    l.credit a amount = .ok moved ↔
      ∃ sum : Amount, (l.balance a).units + amount.units = sum.units ∧
        moved = l.setBalance a sum := by
  unfold credit
  cases hsum : (l.balance a).add? amount with
  | none =>
    simp only [reduceCtorEq, false_iff]
    rintro ⟨sum, hunits, -⟩
    rw [Amount.add?_eq_some_iff.2 hunits] at hsum
    cases hsum
  | some sum =>
    have hunits := Amount.add?_eq_some_iff.1 hsum
    constructor
    · intro h
      cases h
      exact ⟨sum, hunits, rfl⟩
    · rintro ⟨other, hother, rfl⟩
      have : sum.units = other.units := by omega
      rw [Amount.ext this]

theorem move_debit (l : Ledger) (a : Account) (amount : Amount) :
    l.move {} (.debit a amount) = l.debit a amount := rfl

theorem move_credit (l : Ledger) (a : Account) (amount : Amount) :
    l.move {} (.credit a amount) = l.credit a amount := rfl

theorem total_move {l moved : Ledger} {t : Transfer} (h : l.move {} t = .ok moved) :
    moved.total + t.paidOut = l.total + t.paidIn := by
  cases t with
  | debit a amount =>
    obtain ⟨-, rest, hrest, rfl⟩ := debit_eq_ok_iff.1 (move_debit l a amount ▸ h)
    have htotal := l.total_setBalance a rest
    simp only [Transfer.paidIn, Transfer.paidOut]
    omega
  | credit a amount =>
    obtain ⟨sum, hsum, rfl⟩ := credit_eq_ok_iff.1 (move_credit l a amount ▸ h)
    have htotal := l.total_setBalance a sum
    simp only [Transfer.paidIn, Transfer.paidOut]
    omega

/-- Failures from outside only refuse movements. -/
theorem move_of_ok {faults : LedgerFaults} {l moved : Ledger} {t : Transfer}
    (h : l.move faults t = .ok moved) : l.move {} t = .ok moved := by
  unfold move at h
  cases hfault : faults.of t with
  | some failure => simp [hfault] at h
  | none =>
    rw [hfault] at h
    cases t with
    | debit | credit => exact h

/-- A movement changes the balance of its own account only. -/
theorem balance_move {faults : LedgerFaults} {l moved : Ledger} {t : Transfer}
    (h : l.move faults t = .ok moved) (a : Account) :
    (moved.balance a).units + (if t.account = a then t.paidOut else 0) =
      (l.balance a).units + if t.account = a then t.paidIn else 0 := by
  have hmoved := move_of_ok h
  cases t with
  | debit c amount =>
    obtain ⟨-, rest, hrest, rfl⟩ := debit_eq_ok_iff.1 (move_debit l c amount ▸ hmoved)
    rw [balance_setBalance]
    by_cases hc : c = a
    · subst hc
      simp only [Transfer.account, Transfer.paidIn, Transfer.paidOut, ↓reduceIte]
      omega
    · simp [Transfer.account, hc]
  | credit c amount =>
    obtain ⟨sum, hsum, rfl⟩ := credit_eq_ok_iff.1 (move_credit l c amount ▸ hmoved)
    rw [balance_setBalance]
    by_cases hc : c = a
    · subst hc
      simp only [Transfer.account, Transfer.paidIn, Transfer.paidOut, ↓reduceIte]
      omega
    · simp [Transfer.account, hc]

/-! ### Taking back -/

/-- `m` has the balances of `l`, and every account open in `l` is open in `m`. -/
structure Matches (l m : Ledger) : Prop where
  balance : ∀ a, m.balance a = l.balance a
  isOpen : ∀ a, l.IsOpen a → m.IsOpen a

theorem Matches.refl (l : Ledger) : l.Matches l := ⟨fun _ => rfl, fun _ h => h⟩

/-- Setting a balance back restores what was there before. -/
theorem Matches.setBalance {l m : Ledger} {a : Account} {amount : Amount}
    (h : (l.setBalance a amount).Matches m) : l.Matches (m.setBalance a (l.balance a)) := by
  constructor
  · intro b
    have hb := h.balance b
    rw [balance_setBalance] at hb ⊢
    split
    · subst_vars
      rfl
    · simp_all
  · intro b hb
    exact isOpen_setBalance.2 (.inr (h.isOpen b (isOpen_setBalance.2 (.inr hb))))

/-- A movement that was made can be taken back. -/
theorem move_reversed {l moved m : Ledger} {t : Transfer} (h : l.move {} t = .ok moved)
    (hm : moved.Matches m) : ∃ undone, m.move {} t.reversed = .ok undone ∧ l.Matches undone := by
  cases t with
  | debit a amount =>
    obtain ⟨-, rest, hrest, rfl⟩ := debit_eq_ok_iff.1 (move_debit l a amount ▸ h)
    have hbal : m.balance a = rest := by rw [hm.balance, balance_setBalance, if_pos rfl]
    exact ⟨_, credit_eq_ok_iff.2 ⟨l.balance a, by rw [hbal]; omega, rfl⟩, hm.setBalance⟩
  | credit a amount =>
    obtain ⟨sum, hsum, rfl⟩ := credit_eq_ok_iff.1 (move_credit l a amount ▸ h)
    have hbal : m.balance a = sum := by rw [hm.balance, balance_setBalance, if_pos rfl]
    have hopen : m.IsOpen a := hm.isOpen a (isOpen_setBalance.2 (.inl rfl))
    exact ⟨_, debit_eq_ok_iff.2 ⟨hopen, l.balance a, by rw [hbal]; omega, rfl⟩, hm.setBalance⟩

/-- Taking back movements that lead from `start` to `l`, the latest first, is always possible and
restores `start`. -/
def Restores (start l : Ledger) (made : List Transfer) : Prop :=
  ∀ m, l.Matches m → ∃ undone, m.takeBack {} made = (undone, []) ∧ start.Matches undone

theorem Restores.cons {start l moved : Ledger} {made : List Transfer} {t : Transfer}
    (h : Restores start l made) (ht : l.move {} t = .ok moved) :
    Restores start moved (t :: made) := by
  intro m hm
  obtain ⟨undone, hundone, hl⟩ := move_reversed ht hm
  obtain ⟨final, hfinal, hstart⟩ := h undone hl
  refine ⟨final, ?_, hstart⟩
  rw [takeBack, hundone]
  exact hfinal

theorem restores_moveAll {start l : Ledger} {made : List Transfer} (h : Restores start l made)
    (ts : List Transfer) :
    Restores start (l.moveAll {} made ts).ledger (l.moveAll {} made ts).made := by
  induction ts generalizing l made with
  | nil => exact h
  | cons t rest ih =>
    rw [moveAll]
    cases ht : l.move {} t with
    | error failure => exact h
    | ok moved => exact ih (h.cons ht)

/-- Whatever stopped a list of movements, those made can all be taken back, and then every balance
is as it was. -/
theorem takeBack_moveAll (l : Ledger) (ts : List Transfer) :
    ∃ undone, (l.moveAll {} [] ts).ledger.takeBack {} (l.moveAll {} [] ts).made = (undone, []) ∧
      l.Matches undone :=
  restores_moveAll (fun m hm => ⟨m, rfl, hm⟩) ts _ (.refl _)

/-- The movements made are the first ones, the latest first. -/
theorem made_moveAll (faults : LedgerFaults) (l : Ledger) (made ts : List Transfer) :
    ∃ first, (l.moveAll faults made ts).made = first.reverse ++ made ∧ first <+: ts := by
  induction ts generalizing l made with
  | nil => exact ⟨[], rfl, List.prefix_refl _⟩
  | cons t rest ih =>
    rw [moveAll]
    cases ht : l.move faults t with
    | error failure => exact ⟨[], rfl, List.nil_prefix⟩
    | ok moved =>
      obtain ⟨first, hmade, hfirst⟩ := ih moved (t :: made)
      exact ⟨t :: first, by simp [hmade], List.cons_prefix_cons.2 ⟨rfl, hfirst⟩⟩

theorem total_moveAll {l : Ledger} {made ts : List Transfer}
    (h : (l.moveAll {} made ts).failure = none) :
    (l.moveAll {} made ts).ledger.total + (ts.map Transfer.paidOut).sum =
      l.total + (ts.map Transfer.paidIn).sum := by
  induction ts generalizing l made with
  | nil => rfl
  | cons t rest ih =>
    rw [moveAll] at h ⊢
    cases ht : l.move {} t with
    | error failure => simp [ht] at h
    | ok moved =>
      simp only [ht] at h
      have hrest := ih h
      have hone := total_move ht
      simp only [List.map_cons, List.sum_cons]
      omega

/-! ### Accounts that no movement concerns -/

section Frame
variable {faults : LedgerFaults} {a : Account}

theorem balance_move_of_ne {l moved : Ledger} {t : Transfer} (ht : t.account ≠ a)
    (h : l.move faults t = .ok moved) : moved.balance a = l.balance a := by
  have hbalance := balance_move h a
  rw [if_neg ht, if_neg ht] at hbalance
  exact Amount.ext hbalance

/-- Whether or not all movements are made, and whatever fails, they leave other accounts alone, and
so do the movements that are then taken back. -/
theorem balance_moveAll_of_ne {made ts : List Transfer} (l : Ledger)
    (hts : ∀ t ∈ ts, t.account ≠ a) :
    (l.moveAll faults made ts).ledger.balance a = l.balance a := by
  induction ts generalizing l made with
  | nil => rfl
  | cons t rest ih =>
    obtain ⟨ht, hrest⟩ := List.forall_mem_cons.1 hts
    rw [moveAll]
    cases hmoved : l.move faults t with
    | error failure => rfl
    | ok moved => exact (ih moved hrest).trans (balance_move_of_ne ht hmoved)

theorem mem_made_moveAll {made ts : List Transfer} (l : Ledger) {t : Transfer}
    (ht : t ∈ (l.moveAll faults made ts).made) : t ∈ made ∨ t ∈ ts := by
  obtain ⟨first, hmade, hfirst⟩ := made_moveAll faults l made ts
  rw [hmade, List.mem_append, List.mem_reverse] at ht
  exact ht.symm.imp_right fun hmem => hfirst.subset hmem

theorem balance_takeBack_of_ne {ts : List Transfer} (l : Ledger)
    (hts : ∀ t ∈ ts, t.account ≠ a) : (l.takeBack faults ts).1.balance a = l.balance a := by
  induction ts generalizing l with
  | nil => rfl
  | cons t rest ih =>
    obtain ⟨ht, hrest⟩ := List.forall_mem_cons.1 hts
    rw [takeBack]
    cases hmoved : l.move faults t.reversed with
    | error failure => exact ih l hrest
    | ok undone =>
      refine (ih undone hrest).trans (balance_move_of_ne ?_ hmoved)
      rwa [Transfer.account_reversed]

end Frame

/-! ### What movements come to on an account -/

/-- What movements pay to an account. -/
def paidTo (a : Account) (ts : List Transfer) : Nat :=
  (ts.map fun t => if t.account = a then t.paidIn else 0).sum

theorem paidTo_cons (a : Account) (t : Transfer) (ts : List Transfer) :
    paidTo a (t :: ts) = (if t.account = a then t.paidIn else 0) + paidTo a ts := rfl

theorem paidTo_append (a : Account) (ts us : List Transfer) :
    paidTo a (ts ++ us) = paidTo a ts + paidTo a us := by
  simp [paidTo]

theorem paidTo_credit (a owner : Account) (amount : Amount) :
    paidTo a [.credit owner amount] = if a = owner then amount.units else 0 := by
  simp [paidTo, Transfer.account, Transfer.paidIn, eq_comm]

theorem paidTo_le (a : Account) (ts : List Transfer) :
    paidTo a ts ≤ (ts.map Transfer.paidIn).sum := by
  induction ts with
  | nil => exact Nat.le_refl _
  | cons t rest ih =>
    rw [paidTo_cons, List.map_cons, List.sum_cons]
    split <;> omega

/-- What movements take from an account. -/
def takenFrom (a : Account) (ts : List Transfer) : Nat :=
  (ts.map fun t => if t.account = a then t.paidOut else 0).sum

theorem takenFrom_cons (a : Account) (t : Transfer) (ts : List Transfer) :
    takenFrom a (t :: ts) = (if t.account = a then t.paidOut else 0) + takenFrom a ts := rfl

theorem takenFrom_eq_zero {ts : List Transfer} (hcredits : ∀ t ∈ ts, t.IsCredit) (a : Account) :
    takenFrom a ts = 0 := by
  induction ts with
  | nil => rfl
  | cons t rest ih =>
    obtain ⟨ht, hrest⟩ := List.forall_mem_cons.1 hcredits
    rw [takenFrom_cons, ht.paidOut_eq_zero, ih hrest, ite_self]

theorem balance_moveAll {faults : LedgerFaults} {l : Ledger} {made ts : List Transfer}
    (h : (l.moveAll faults made ts).failure = none) (a : Account) :
    ((l.moveAll faults made ts).ledger.balance a).units + takenFrom a ts =
      (l.balance a).units + paidTo a ts := by
  induction ts generalizing l made with
  | nil => rfl
  | cons t rest ih =>
    rw [moveAll] at h ⊢
    cases ht : l.move faults t with
    | error failure => simp [ht] at h
    | ok moved =>
      simp only [ht] at h
      have hrest := ih h
      have hone := balance_move ht a
      rw [paidTo_cons, takenFrom_cons]
      dsimp only
      omega

/-! ### Credits -/

theorem balance_credit {l moved : Ledger} {c : Account} {amount : Amount}
    (h : l.credit c amount = .ok moved) (a : Account) :
    (moved.balance a).units = (l.balance a).units + if c = a then amount.units else 0 := by
  have hmove : l.move {} (.credit c amount) = .ok moved := h
  have hbalance := balance_move hmove a
  rwa [Transfer.paidOut, ite_self, Nat.add_zero] at hbalance

theorem lt_of_credit_eq_error {l : Ledger} {c : Account} {amount : Amount} {failure : LedgerError}
    (h : l.credit c amount = .error failure) :
    Amount.greatest.units < (l.balance c).units + amount.units := by
  by_contra hroom
  have hgreatest := Amount.greatest.units_lt
  have hok := credit_eq_ok_iff.2
    ⟨⟨(l.balance c).units + amount.units, by omega⟩, rfl, rfl⟩
  rw [h] at hok
  cases hok

section Credits
variable {l : Ledger} {faults : LedgerFaults} {ts us : List Transfer} {made : List Transfer}

/-- Where credits are not refused from outside, a list of them goes through if no balance comes to
more than the greatest amount. -/
theorem failure_moveAll_credits_iff (hfault : faults.credit = none)
    (hcredits : ∀ t ∈ ts, t.IsCredit) : (l.moveAll faults made ts).failure = none ↔
      ∀ a, (l.balance a).units + paidTo a ts ≤ Amount.greatest.units := by
  induction ts generalizing l made with
  | nil => exact iff_of_true rfl fun a => Nat.le_of_lt_succ (l.balance a).units_lt
  | cons t rest ih =>
    obtain ⟨hcredit, hrest⟩ := List.forall_mem_cons.1 hcredits
    cases t with
    | debit => exact hcredit.elim
    | credit c amount =>
      have hmove : l.move faults (.credit c amount) = l.credit c amount := by
        simp [move, LedgerFaults.of, hfault]
      rw [moveAll, hmove]
      cases hmoved : l.credit c amount with
      | error failure =>
        refine iff_of_false (by simp) fun hroom => ?_
        have hover := lt_of_credit_eq_error hmoved
        have hc := hroom c
        rw [paidTo_cons, Transfer.account, if_pos rfl, Transfer.paidIn] at hc
        omega
      | ok moved =>
        refine (ih hrest).trans (forall_congr' fun a => ?_)
        rw [balance_credit hmoved, paidTo_cons, Nat.add_assoc]
        rfl

theorem balance_moveAll_credits (hcredits : ∀ t ∈ ts, t.IsCredit)
    (h : (l.moveAll faults made ts).failure = none) (a : Account) :
    ((l.moveAll faults made ts).ledger.balance a).units =
      (l.balance a).units + paidTo a ts := by
  have hbalance := balance_moveAll h a
  rwa [takenFrom_eq_zero hcredits a, Nat.add_zero] at hbalance

/-- Where credits are refused from outside, only an empty list of them goes through. -/
theorem failure_moveAll_refused_iff {cause : LedgerError} (hfault : faults.credit = some cause)
    (hcredits : ∀ t ∈ ts, t.IsCredit) :
    (l.moveAll faults made ts).failure = none ↔ ts = [] := by
  cases ts with
  | nil => exact iff_of_true rfl rfl
  | cons t rest =>
    cases t with
    | debit => exact (hcredits _ (.head _)).elim
    | credit => simp [moveAll, move, LedgerFaults.of, hfault]

/-- The order of credits matters neither for whether they go through nor for the balances. -/
theorem moveAll_perm (l : Ledger) (faults : LedgerFaults) (h : ts.Perm us)
    (hcredits : ∀ t ∈ ts, t.IsCredit) :
    ((l.moveAll faults [] ts).failure = none ↔ (l.moveAll faults [] us).failure = none) ∧
      ((l.moveAll faults [] ts).failure = none → ∀ a,
        (l.moveAll faults [] ts).ledger.balance a =
          (l.moveAll faults [] us).ledger.balance a) := by
  have hcredits' : ∀ t ∈ us, t.IsCredit := fun t ht => hcredits t (h.mem_iff.2 ht)
  have hpaid (a : Account) : paidTo a ts = paidTo a us := (h.map _).sum_nat
  have hiff :
      (l.moveAll faults [] ts).failure = none ↔ (l.moveAll faults [] us).failure = none := by
    cases hfault : faults.credit with
    | some cause =>
      rw [failure_moveAll_refused_iff hfault hcredits, failure_moveAll_refused_iff hfault hcredits']
      exact ⟨fun hnil => (hnil ▸ h).nil_eq.symm, fun hnil => (hnil ▸ h).eq_nil⟩
    | none =>
      rw [failure_moveAll_credits_iff hfault hcredits, failure_moveAll_credits_iff hfault hcredits']
      exact forall_congr' fun a => by rw [hpaid]
  refine ⟨hiff, fun hdone a => Amount.ext ?_⟩
  rw [balance_moveAll_credits hcredits hdone, balance_moveAll_credits hcredits' (hiff.1 hdone),
    hpaid]

/-- Credits go through if with all of them the ledger comes to no more than the greatest amount. -/
theorem failure_moveAll_of_credits (made : List Transfer) (hcredits : ∀ t ∈ ts, t.IsCredit)
    (hroom : l.total + (ts.map Transfer.paidIn).sum ≤ Amount.greatest.units) :
    (l.moveAll {} made ts).failure = none := by
  refine (failure_moveAll_credits_iff rfl hcredits).2 fun a => ?_
  have hbalance := l.balance_le_total a
  have hpaid := paidTo_le a ts
  omega

end Credits

end Ledger

end StakedCommittee
