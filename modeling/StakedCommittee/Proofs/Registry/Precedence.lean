import StakedCommittee.Proofs.Registry.Counting
import StakedCommittee.Proofs.Registry.Weakest

/-! The committee is the top of the pool. While the number of seats stays, the committee is as large
as the pool allows. Who enters, leaves or changes a deposit is seated, replaced or passed over so
that nobody who waits is stronger than anybody seated; only a penalty that leaves its member in the
seat can upset this. Moves do not say whether a penalized member was seated, so the ranking is shown
for the operations and not for their moves. -/

namespace StakedCommittee

theorem Amount.power_le_power {a c : Amount} (h : a ≤ c) : a.power ≤ c.power := by
  rw [UInt64.le_iff_toNat_le, toNat_power, toNat_power]
  rw [le_iff] at h
  have hdiv : a.units / unitsPerCoin ≤ c.units / unitsPerCoin := Nat.div_le_div_right h
  omega

namespace Book

variable {b after : Book} {p : Parameters} {v : Validator} {seats : Nat}

/-- With the same number of seats, moves keep the committee as large as the pool allows. -/
theorem filled_move (hfunded : b.Funded) (hmove : b.Move p after) (h : b.roster.Filled p.seats) :
    after.roster.Filled p.seats := by
  have hseated := hfunded.nodup_seated
  have hpool := hfunded.pool_of_seated
  cases hmove with
  | enlist v old holder powered =>
    rw [roster_offerSeat]
    exact h.seat_join hseated hpool (by rwa [power_put, if_pos rfl])
  | @raise v deposit found member le =>
    have hpower := hfunded.member _ member
    rw [deposit_of_get? found] at hpower
    rw [roster_offerSeat]
    refine h.seat_join hseated hpool ?_
    rw [power_put, if_pos rfl]
    exact Amount.power_ne_zero_of_le hpower le
  | lower | count => exact h
  | penalize =>
    rw [roster_refreshWeakest, Roster.Filled, Roster.seated_refresh, Roster.pool_refresh]
    exact h
  | @leave v found =>
    unfold dismissMember
    split
    · rw [roster_dismiss (b := b.put { v with deposit := .zero }) hpool]
      refine h.release hseated hpool hfunded.nodup_pool fun c hc hne => ?_
      rw [power_put, if_neg hne.symm]
      exact hfunded.power_ne_zero hc
    · exact h

/-- The committee is as large as the pool allows, and nobody who waits is stronger than anybody
seated. -/
structure Topped (seats : Nat) (b : Book) : Prop where
  funded : b.Funded
  filled : b.roster.Filled seats
  ranked : b.roster.Ranked b.power

theorem topped_opening (seats : Nat) : opening.Topped seats where
  funded := funded_opening
  filled := (Nat.min_zero _).symm
  ranked _ ha := by cases ha

namespace Topped

theorem setRoster (h : b.Topped seats) {r : Roster} (hpool : r.pool = b.roster.pool)
    (hseated : r.seated = b.roster.seated) : (b.setRoster r).Topped seats where
  funded := h.funded.setRoster hpool hseated
  filled := by
    rw [roster_setRoster, Roster.Filled, hpool, hseated]
    exact h.filled
  ranked a ha c hc := by
    rw [roster_setRoster, Roster.mem_waiting, hpool, hseated] at ha
    rw [roster_setRoster, hseated] at hc
    exact h.ranked a (Roster.mem_waiting.2 ha) c hc

/-- What a move preserves apart from the ranking needs no more to be shown. -/
theorem of_move (h : b.Topped p.seats) (hmove : b.Move p after)
    (hranked : after.roster.Ranked after.power) : after.Topped p.seats :=
  ⟨h.funded.move hmove, filled_move h.funded hmove h.filled, hranked⟩

/-- The ranking survives if a waiting member gets no stronger and a seated one no weaker. -/
theorem ranked_put (h : b.Topped seats)
    (hwaiting : v.owner ∈ b.roster.waiting → v.power ≤ b.power v.owner)
    (hseated : v.owner ∈ b.roster.seated → b.power v.owner ≤ v.power) :
    (b.put v).roster.Ranked (b.put v).power := by
  intro a ha c hc
  have hle := h.ranked a ha c hc
  have hne : a ≠ c := fun heq => (Roster.mem_waiting.1 ha).2 (heq ▸ hc)
  rw [power_put, power_put]
  by_cases howner : v.owner = a
  · subst howner
    rw [if_pos rfl, if_neg hne]
    exact UInt64.le_trans (hwaiting ha) hle
  · rw [if_neg howner]
    split
    · subst_vars
      exact UInt64.le_trans hle (hseated hc)
    · exact hle

/-- A candidate that is no weaker than before finds its place. -/
theorem ranked_offerSeat (h : b.Topped p.seats) (hle : b.power v.owner ≤ v.power)
    (hpower : v.power ≠ 0) :
    ((b.put v).offerSeat p v.owner).2.roster.Ranked ((b.put v).offerSeat p v.owner).2.power := by
  have hwaits {a : Account} (ha : a ∈ (b.roster.join v.owner).waiting) (hne : a ≠ v.owner) :
      a ∈ b.roster.waiting := by
    rw [Roster.mem_waiting, Roster.mem_pool_join, Roster.seated_join] at ha
    exact Roster.mem_waiting.2 ⟨ha.1.resolve_right hne, ha.2⟩
  rw [roster_offerSeat]
  show Roster.Ranked _ (b.put v).power
  refine Roster.ranked_seat ?_ ?_ ?_
  · intro a ha hne c hc
    have hold := h.ranked a (hwaits ha hne) c (by rwa [Roster.seated_join] at hc)
    rw [power_put, power_put, if_neg hne.symm]
    split
    · subst_vars
      exact UInt64.le_trans hold hle
    · exact hold
  · intro hfree a ha
    rw [Roster.seated_join] at hfree
    by_contra hne
    have hwaiting := Roster.mem_waiting.1 (hwaits ha hne)
    have hlt := length_lt_of_not_mem h.funded.nodup_seated h.funded.pool_of_seated hwaiting.1
      hwaiting.2
    have hfilled := h.filled
    unfold Roster.Filled at hfilled
    have hsame : (b.put v).roster = b.roster := rfl
    rw [hsame] at hfree
    omega
  · rwa [power_put, if_pos rfl]

/-- The seat of one who leaves goes to the strongest of those who wait. -/
theorem ranked_dismiss (h : b.Topped seats) :
    ((b.put v).dismiss p v.owner).2.roster.Ranked ((b.put v).dismiss p v.owner).2.power := by
  have hsame {a : Account} (hne : a ≠ v.owner) : (b.put v).power a = b.power a := by
    rw [power_put, if_neg hne.symm]
  rw [roster_dismiss (b := b.put v) h.funded.pool_of_seated]
  refine Roster.ranked_release fun a ha hne c hc hstays => ?_
  rw [hsame hne, hsame hstays]
  exact h.ranked a ha c hc

theorem ranked_dismissMember (h : b.Topped seats) :
    ((b.put v).dismissMember p v.owner).roster.Ranked
      ((b.put v).dismissMember p v.owner).power := by
  unfold Book.dismissMember
  split
  · exact h.ranked_dismiss
  · rename_i hout
    exact h.ranked_put (fun hwaits => absurd (Roster.mem_waiting.1 hwaits).1 hout)
      fun hseated => absurd (h.funded.pool_of_seated _ hseated) hout

end Topped

end Book

namespace Desk

open Book

variable {w after : Desk} {p : Parameters} {height : Height} {owner : Account} {v : Validator}

theorem topped_register {key : ConsensusKey} {deposit : Amount} {link : String} {answer : Seating}
    (hp : p.leastDeposit.power ≠ 0)
    (h : w.register p height owner key deposit link = .ok (answer, after))
    (hw : w.book.Topped p.seats) : after.book.Topped p.seats := by
  refine hw.of_move (move_of_register hp h) ?_
  obtain ⟨v, happ, hleast, hholder, -, rfl⟩ := register_eq_ok h
  obtain ⟨rfl, rfl, rfl, hold⟩ := applicant_eq_ok happ
  have hbound : (w.book.bind v.key v.owner).Topped p.seats :=
    ⟨hw.funded.bind .., hw.filled, hw.ranked⟩
  refine hbound.ranked_offerSeat ?_ (Amount.power_ne_zero_of_le hp hleast)
  -- Whoever registers had no deposit before.
  rw [power_eq]
  show (w.book.deposit v.owner).power ≤ v.deposit.power
  rw [deposit_eq_zero fun u hu => (hold u hu).2]
  exact Amount.power_le_power (Nat.zero_le _)

theorem topped_increaseDeposit {amount : Amount} {answer : Seating}
    (h : w.increaseDeposit p owner amount = .ok (answer, after)) (hw : w.book.Topped p.seats) :
    after.book.Topped p.seats := by
  refine hw.of_move (move_of_increaseDeposit h) ?_
  obtain ⟨hmember, v, deposit, hv, hunits, -, rfl⟩ := increaseDeposit_eq_ok h
  obtain rfl := w.book.owner_eq hv
  have hle : v.deposit ≤ deposit := Amount.le_iff.2 (by omega)
  have hpower := hw.funded.power_ne_zero hmember
  rw [power_of_get? hv] at hpower
  refine hw.ranked_offerSeat (v := { v with deposit }) ?_ (Amount.power_ne_zero_of_le hpower hle)
  rw [power_of_get? hv]
  exact Amount.power_le_power hle

theorem topped_withdraw {amount answer : Amount} (hp : p.leastDeposit.power ≠ 0)
    (h : w.withdraw p owner amount = .ok (answer, after)) (hw : w.book.Topped p.seats) :
    after.book.Topped p.seats := by
  refine hw.of_move (move_of_withdraw hp h) ?_
  obtain ⟨v, hv, hwithdraw, rfl⟩ := withdraw_eq_ok h
  obtain rfl := w.book.owner_eq hv
  obtain ⟨hseated, hunits, -⟩ := Parameters.withdraw_eq_ok hwithdraw
  have hle : answer ≤ v.deposit := Amount.le_iff.2 (by omega)
  split
  · exact hw.ranked_dismissMember (v := { v with deposit := answer })
  · refine hw.ranked_put (v := { v with deposit := answer }) (fun _ => ?_) fun h => ?_
    · rw [power_of_get? hv]
      exact Amount.power_le_power hle
    · exact absurd h (of_decide_eq_false hseated)

theorem topped_revoke {answer : Amount} (h : w.revoke p owner = .ok (answer, after))
    (hw : w.book.Topped p.seats) : after.book.Topped p.seats := by
  refine hw.of_move (move_of_revoke h) ?_
  obtain ⟨v, hv, -, -, rfl⟩ := revoke_eq_ok h
  obtain rfl := w.book.owner_eq hv
  exact hw.ranked_dismissMember (v := { v with deposit := .zero })

/-- A penalty keeps the ranking unless it leaves a seated member in its seat. -/
theorem topped_punish {penalty : Amount} {removal : Removal}
    (hv : w.book.validators.get? v.owner = some v) (hw : w.book.Topped p.seats)
    (hseat : removal = .always ∨ v.owner ∉ w.book.roster.seated ∨
      v.owner ∉ (w.punish p v penalty removal).2.book.roster.seated) :
    (w.punish p v penalty removal).2.book.Topped p.seats := by
  refine hw.of_move (move_of_punish w p penalty removal hv) ?_
  by_cases hremoves : w.Removes v penalty removal
  · rw [punish, if_pos hremoves]
    show (w.expel p (v.slash penalty)).2.book.roster.Ranked _
    rw [book_expel]
    exact hw.ranked_dismiss (v := { v.slash penalty with deposit := .zero })
  · have hweaker : (v.slash penalty).power ≤ w.book.power v.owner := by
      rw [power_of_get? hv]
      exact Amount.power_le_power (Nat.sub_le ..)
    have hput (hout : v.owner ∉ w.book.roster.seated) :
        (w.book.put (v.slash penalty)).roster.Ranked (w.book.put (v.slash penalty)).power :=
      hw.ranked_put (fun _ => hweaker) fun hin => absurd hin hout
    rw [punish, if_neg hremoves] at hseat ⊢
    by_cases hmember : v.owner ∈ w.book.roster.pool
    · simp only [hmember, ↓reduceIte] at hseat ⊢
      have hout : v.owner ∉ w.book.roster.seated := by
        rcases hseat with halways | hout | hout
        · exact absurd ⟨hmember, .inl halways⟩ hremoves
        · exact hout
        · rwa [refreshWeakest, book_setBook, roster_refreshWeakest, Roster.seated_refresh] at hout
      show (w.book.put (v.slash penalty)).refreshWeakest.roster.Ranked _
      rw [roster_refreshWeakest]
      exact (hput hout).refresh _
    · simp only [hmember, ↓reduceIte]
      exact hput fun hin => hmember (hw.funded.pool_of_seated _ hin)

theorem topped_countFlags (flags : List SigningFlag) (hw : w.book.Topped p.seats) :
    (w.countFlags flags).2.book.Topped p.seats := by
  have hcounted := counted_countFlags w flags
  refine ⟨(moves_of_countFlags p w flags).preserve (fun h hmove => h.move hmove) hw.funded, ?_, ?_⟩
  · rw [hcounted.roster]
    exact hw.filled
  · rw [hcounted.roster, hcounted.power]
    exact hw.ranked

theorem topped_fire (evidence : List Evidence) (hw : w.book.Topped p.seats) :
    (w.fire p evidence).2.book.Topped p.seats :=
  fire_induction (P := fun x => x.2.book.Topped p.seats) (fun _ _ h => h)
    (fun _ _ _ h hv => topped_punish hv h (.inl rfl)) hw evidence

end Desk

open Desk in
/-- Every call keeps the committee at the top, unless it is a penalty that leaves a seated member in
its seat. -/
theorem Call.topped_effect {source : ParameterSource} {p : Parameters} {c : Call} {b : Book}
    {a : c.Answer} {w : Desk} (hp : c.GoesBy source p) (hb : b.Topped p.seats)
    (hseat : ∀ height owner penalty, c = .punish height owner penalty .ifPowerless →
      owner ∈ b.roster.seated → owner ∉ w.book.roster.seated)
    (h : c.effect source ⟨b, []⟩ = .ok (a, w)) : w.book.Topped p.seats := by
  cases acts_of_effect hp h with
  | genesis => exact hb
  | register h => exact topped_register (ParameterSource.power_leastDeposit (hp _ rfl)) h hb
  | increaseDeposit _ h => exact topped_increaseDeposit h hb
  | withdraw h => exact topped_withdraw (ParameterSource.power_leastDeposit (hp _ rfl)) h hb
  | revoke h => exact topped_revoke h hb
  | @punish height penalty removal v found =>
    refine topped_punish found hb ?_
    cases removal with
    | always => exact .inl rfl
    | ifPowerless =>
      by_cases hin : v.owner ∈ b.roster.seated
      · exact .inr (.inr (hseat height v.owner penalty rfl hin))
      · exact .inr (.inl hin)
  | countFlags => exact topped_countFlags _ hb
  | fire => exact topped_fire _ hb
  | report => exact hb.setRoster rfl rfl

/-- `a` has a seat in the stored roster. -/
def Registry.Seats (reg : Registry) (a : Account) : Prop :=
  ∃ r, Query.roster.answer reg.store = .ok r ∧ a ∈ r.seated

instance (reg : Registry) (a : Account) : Decidable (reg.Seats a) :=
  match h : Query.roster.answer reg.store with
  | .error _ => isFalse fun ⟨_, hr, _⟩ => nomatch h.symm.trans hr
  | .ok r => decidable_of_iff (a ∈ r.seated)
      ⟨fun ha => ⟨r, h, ha⟩, fun ⟨_, hr, ha⟩ => Except.ok.inj (hr.symm.trans h) ▸ ha⟩

/-- A step that penalizes a seated member which keeps some power, and its seat. -/
def Step.LeavesSeated (s : Step) (reg : Registry) : Prop :=
  ∃ height owner penalty, s.call = .punish height owner penalty .ifPowerless ∧
    (reg.call s.source s.faults s.call).1.isOk ∧ reg.Seats owner ∧
    (reg.call s.source s.faults s.call).2.Seats owner

theorem Store.Holds.seats {reg : Registry} {b : Book} (h : reg.store.Holds b) {a : Account}
    (ha : a ∈ b.roster.seated) : reg.Seats a := ⟨b.roster, h.answer_roster, ha⟩

namespace Run

theorem holds_topped (l : Ledger) (steps : List Step) (seats : Nat)
    (hseats : ∀ s ∈ steps, ∀ n, s.seats? = some n → n = seats)
    (hleaves : ∀ before s, before ++ [s] <+: steps → ¬ s.LeavesSeated (of l before).registry) :
    ∃ b, (of l steps).registry.store.Holds b ∧ b.Topped seats := by
  refine prefix_induction (P := fun _ b => b.Topped seats) l steps (Book.topped_opening seats)
    (fun _ _ _ _ _ _ h _ => h) ?_
  intro before s b a w hmade hb htopped houtcome heffect heffects
  obtain ⟨p, hp, rfl⟩ := s.exists_goesBy heffect (hseats s (hmade.subset (by simp)))
  have hw : w.book.Topped p.seats := by
    refine Call.topped_effect hp htopped ?_ heffect
    intro height owner penalty hcall hin hstays
    refine hleaves before s hmade ⟨height, owner, penalty, hcall, ?_, hb.seats hin, ?_⟩
    · rw [houtcome]
      rfl
    · exact heffects.holds.seats (by rwa [Desk.seated_stored])
  exact Desk.preserved_stored (P := fun c => c.Topped p.seats) b hw fun _ => hw.setRoster rfl rfl

/-- In a run with one number of seats, in which no penalty leaves a seated member in its seat,
nobody who waits is stronger than anybody seated. -/
theorem committee_tops_pool (l : Ledger) (steps : List Step) (seats : Nat)
    (hseats : ∀ s ∈ steps, ∀ n, s.seats? = some n → n = seats)
    (hleaves : ∀ before s, before ++ [s] <+: steps → ¬ s.LeavesSeated (of l before).registry) :
    let store := (of l steps).registry.store
    ∃ r, Query.roster.answer store = .ok r ∧
      ∀ a ∈ r.pool, a ∉ r.seated → ∀ c ∈ r.seated,
        ∃ x y, store.HasPower a x ∧ store.HasPower c y ∧ x ≤ y := by
  obtain ⟨b, hb, htopped⟩ := holds_topped l steps seats hseats hleaves
  refine ⟨b.roster, hb.answer_roster, fun a ha hout c hc => ?_⟩
  have hmember := htopped.funded.pool_of_seated c hc
  exact ⟨b.power a, b.power c, hb.hasPower_of_member htopped.funded ha,
    hb.hasPower_of_member htopped.funded hmember,
    htopped.ranked a (Roster.mem_waiting.2 ⟨ha, hout⟩) c hc⟩

/-- The stronger of two takes the only seat, and who waits is penalized. -/
theorem committee_tops_pool_after_displacement :
    let source : ParameterSource := .always { Parameters.standard with seats := 1 }
    let l : Ledger := .funded .greatest ["alice", "bob"]
    let before : List Step :=
      [.enroll source 1 "alice" 0 1000, .enroll source 2 "bob" 1 2000]
    let steps := before ++ [⟨source, {}, .punish 3 ⟨"alice"⟩ (.ofCoins 100) .ifPowerless⟩]
    let store := (of l steps).registry.store
    (∀ s ∈ steps, ∀ n, s.seats? = some n → n = 1) ∧
      (∀ before s, before ++ [s] <+: steps → ¬ s.LeavesSeated (of l before).registry) ∧
      (Query.roster.answer store).map (fun r => (r.pool, r.seated)) =
        .ok ([⟨"alice"⟩, ⟨"bob"⟩], [⟨"bob"⟩]) ∧
      ∃ r, Query.roster.answer store = .ok r ∧
        ∀ a ∈ r.pool, a ∉ r.seated → ∀ c ∈ r.seated,
          ∃ x y, store.HasPower a x ∧ store.HasPower c y ∧ x ≤ y := by
  intro source l before steps store
  have hseats : ∀ s ∈ steps, ∀ n, s.seats? = some n → n = 1 := by
    simp [steps, before, source, Step.enroll, Step.seats?, Call.height?, ParameterSource.always,
      Except.toOption]
  have hleaves : ∀ before s, before ++ [s] <+: steps →
      ¬ s.LeavesSeated (of l before).registry := by
    rintro made s hmade ⟨height, owner, penalty, hcall, -, hseated, -⟩
    rcases made with _ | ⟨_, _ | ⟨_, _ | ⟨_, rest⟩⟩⟩ <;> simp [steps, before] at hmade
    · simp [hmade, Step.enroll] at hcall
    · simp [hmade, Step.enroll] at hcall
    · obtain ⟨rfl, rfl, rfl⟩ := hmade
      obtain ⟨-, rfl, -⟩ := Call.punish.inj hcall
      exact absurd hseated (by decide +kernel)
  exact ⟨hseats, hleaves, by decide +kernel, committee_tops_pool l steps 1 hseats hleaves⟩

end Run

end StakedCommittee
