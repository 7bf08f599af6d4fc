import StakedCommittee.Proofs.Registry.Accusation
import StakedCommittee.Proofs.Registry.Permanence

/-! Who takes over a seat that falls free. Apart from the account that a call is about, it seats
only members that waited, and each of them comes before all that go on waiting: it is stronger, or
as strong and earlier in the pool. Firing fills one seat after the other, so the same is said of
each of them at its time, when those fired later may still wait. -/

namespace StakedCommittee

/-- `a` waits, and neither leaves nor is promoted by the punishments in `done`. -/
def Roster.StillWaits (r : Roster) (done : List Punishment) (a : Account) : Prop :=
  a ∈ r.waiting ∧ ∀ q ∈ done, q.owner ≠ a ∧ q.promoted ≠ some a

theorem Roster.stillWaits_concat {r : Roster} {done : List Punishment} {q : Punishment}
    {a : Account} : r.StillWaits (done ++ [q]) a ↔
      r.StillWaits done a ∧ q.owner ≠ a ∧ q.promoted ≠ some a := by
  unfold StillWaits
  rw [List.forall_mem_append, List.forall_mem_singleton, and_assoc]

namespace Roster

variable {r mid : Roster} {power f g : Account → Power} {seats : Nat} {owner a c : Account}

/-- Both are in the pool, and `c` comes first. -/
structure Ahead (r : Roster) (power : Account → Power) (c a : Account) : Prop where
  first : c ∈ r.pool
  second : a ∈ r.pool
  precedes : r.Precedes power c a

theorem Ahead.mono (h : mid.Ahead power c a) (hpool : mid.pool.Sublist r.pool) :
    r.Ahead power c a :=
  ⟨hpool.subset h.first, hpool.subset h.second, h.precedes.mono hpool⟩

theorem Ahead.congr (h : r.Ahead f c a) (hc : f c = g c) (ha : f a = g a) : r.Ahead g c a :=
  ⟨h.first, h.second, h.precedes.congr hc ha⟩

theorem ahead_of_release (hc : c ∈ (r.release power seats owner).1.seated) (hnew : c ∉ r.seated)
    (ha : a ∈ (r.release power seats owner).1.waiting) : r.Ahead power c a where
  first := ((mem_seated_release hc).2.resolve_left hnew).1
  second := (mem_waiting.1 (mem_waiting_release.1 ha).1).1
  precedes := precedes_of_release hc hnew ha

end Roster

namespace Book

variable {b : Book} {p : Parameters} {v : Validator} {a c : Account}

theorem pool_dismissMember (b : Book) (p : Parameters) (owner : Account) :
    (b.dismissMember p owner).roster.pool = b.roster.pool.filter (· ≠ owner) := by
  unfold dismissMember
  split
  · exact Roster.pool_release ..
  · rename_i hout
    exact (filter_ne_eq_self hout).symm

/-- The deposit of the one who leaves does not matter. -/
theorem ahead_of_dismiss (hdrawn : ∀ d ∈ b.roster.seated, d ∈ b.roster.pool)
    (hc : c ∈ ((b.put v).dismiss p v.owner).2.roster.seated) (hnew : c ∉ b.roster.seated)
    (ha : a ∈ ((b.put v).dismiss p v.owner).2.roster.waiting) :
    b.roster.Ahead b.power c a := by
  rw [roster_dismiss (b := b.put v) hdrawn] at hc ha
  have hsame {d : Account} (hne : d ≠ v.owner) : (b.put v).power d = b.power d := by
    rw [power_put, if_neg hne.symm]
  exact (Roster.ahead_of_release hc hnew ha).congr (hsame (Roster.mem_seated_release hc).1)
    (hsame (Roster.mem_waiting_release.1 ha).2.1)

theorem ahead_of_dismissMember (hdrawn : ∀ d ∈ b.roster.seated, d ∈ b.roster.pool)
    (hc : c ∈ ((b.put v).dismissMember p v.owner).roster.seated) (hnew : c ∉ b.roster.seated)
    (ha : a ∈ ((b.put v).dismissMember p v.owner).roster.waiting) :
    b.roster.Ahead b.power c a := by
  unfold dismissMember at hc ha
  split at hc
  · rename_i hmember
    rw [if_pos hmember] at ha
    exact ahead_of_dismiss hdrawn hc hnew ha
  · exact absurd hc hnew

end Book

namespace Desk

open Book

variable {b : Book} {w after : Desk} {p : Parameters} {x : FiringReport × Desk} {v : Validator}
  {owner a c : Account}

/-! ### One removal -/

theorem pool_punish (w : Desk) (p : Parameters) (v : Validator) (penalty : Amount)
    (removal : Removal) :
    (w.punish p v penalty removal).2.book.roster.pool.Sublist w.book.roster.pool := by
  unfold punish
  split
  · show ((w.expel p (v.slash penalty)).2.book.roster.pool).Sublist _
    rw [book_expel, Book.dismiss, roster_setRoster, Roster.pool_release]
    exact List.filter_sublist
  · dsimp only
    split
    · exact (Roster.pool_refresh ..).symm ▸ List.Sublist.refl _
    · exact .refl _

theorem ahead_of_punish {penalty : Amount} {removal : Removal} (hw : w.book.Funded)
    (hc : c ∈ (w.punish p v penalty removal).2.book.roster.seated)
    (hnew : c ∉ w.book.roster.seated)
    (ha : a ∈ (w.punish p v penalty removal).2.book.roster.waiting) :
    w.book.roster.Ahead w.book.power c a := by
  unfold punish at hc ha
  split at hc
  · rename_i hremoves
    rw [if_pos hremoves] at ha
    change c ∈ (w.expel p (v.slash penalty)).2.book.roster.seated at hc
    change a ∈ (w.expel p (v.slash penalty)).2.book.roster.waiting at ha
    rw [book_expel] at hc ha
    exact ahead_of_dismiss (v := { v.slash penalty with deposit := .zero }) hw.pool_of_seated hc
      hnew ha
  · dsimp only at hc
    split at hc
    · exact absurd ((Roster.seated_refresh ..).subst hc) hnew
    · exact absurd hc hnew

/-! ### Removals in a row -/

/-- A stage of a firing that promoted nobody past one who still waited. -/
structure Orderly (b : Book) (x : FiringReport × Desk) : Prop extends Firing b x where
  unchanged : ∀ a, a ∉ x.1.fired → x.2.book.validators.get? a = b.validators.get? a
  pool : x.2.book.roster.pool.Sublist b.roster.pool
  waiting : ∀ a, b.roster.StillWaits x.1.punishments a → a ∈ x.2.book.roster.waiting
  ordered : ∀ {before q c a}, before ++ [q] <+: x.1.punishments → q.promoted = some c →
    b.roster.StillWaits (before ++ [q]) a → b.roster.Ahead b.power c a

namespace Orderly

theorem start (h : w.book.Funded) : Orderly w.book ({}, w) where
  toFiring := .start h
  unchanged _ _ := rfl
  pool := .refl _
  waiting _ ha := ha.1
  ordered h := by simp at h

theorem unknown (hx : Orderly b x) (key : ConsensusKey) : Orderly b (x.1.addUnknown key, x.2) :=
  ⟨hx.toFiring.unknown key, hx.unchanged, hx.pool, hx.waiting, hx.ordered⟩

theorem power_eq (hx : Orderly b x) (ha : a ∉ x.1.fired) : x.2.book.power a = b.power a := by
  rw [Book.power, hx.unchanged a ha, Book.power]

/-- The member that is promoted next comes before all that wait at the time. -/
theorem ahead_of_promoted (hx : Orderly b x) {penalty : Amount}
    (hc : (x.2.punish p v penalty .always).1.promoted = some c)
    (ha : b.roster.StillWaits x.1.punishments a) (howner : a ≠ v.owner) (hne : a ≠ c) :
    b.roster.Ahead b.power c a := by
  by_cases hmember : v.owner ∈ x.2.book.roster.pool
  · rw [(x.2.punish_always_of_member p penalty hmember).2,
      dismiss_eq (b := x.2.book.put _) hx.funded.pool_of_seated] at hc
    obtain ⟨hpool, hcowner, -, -⟩ := Roster.mem_of_promoted hc
    have hspared : a ∉ x.1.fired := fun hin => by
      obtain ⟨q, hq, hqa⟩ := List.mem_map.1 hin
      exact (ha.2 q hq).1 hqa
    have hsame {d : Account} (hd : d ∉ x.1.fired) (hdowner : d ≠ v.owner) :
        (x.2.book.put { v with deposit := .zero }).power d = b.power d := by
      rw [power_put, if_neg hdowner.symm, hx.power_eq hd]
    have hahead : x.2.book.roster.Ahead _ c a :=
      ⟨hpool, (Roster.mem_waiting.1 (hx.waiting a ha)).1,
        Roster.precedes_of_promoted hc (hx.waiting a ha) howner hne⟩
    exact (hahead.mono hx.pool).congr (hsame (fun hin => hx.gone c hin hpool) hcowner)
      (hsame hspared howner)
  · rw [punish, if_neg fun hremoves => hmember hremoves.1] at hc
    cases hc

theorem fireOne (hx : Orderly b x) (p : Parameters) (penalty : Amount)
    (hv : x.2.book.validators.get? v.owner = some v) : Orderly b (Desk.fireOne p x v penalty) where
  toFiring := hx.toFiring.fireOne p penalty hv
  unchanged a ha := by
    rw [mem_fired_fireOne, not_or] at ha
    obtain ⟨u, howner, henters⟩ := enters_punish .report x.2 p penalty .always hv
    show (x.2.punish p v penalty .always).2.book.validators.get? a = _
    rw [henters.validators, get?_put, if_neg fun h => ha.2 (h.symm.trans howner),
      hx.unchanged a ha.1]
  pool := (x.2.pool_punish p v penalty .always).trans hx.pool
  waiting a ha := by
    obtain ⟨hstill, howner, hpassed⟩ := Roster.stillWaits_concat.1 ha
    rw [owner_punish] at howner
    have hwaits := hx.waiting a hstill
    show a ∈ (x.2.punish p v penalty .always).2.book.roster.waiting
    by_cases hmember : v.owner ∈ x.2.book.roster.pool
    · obtain ⟨hbook, hpromoted⟩ := x.2.punish_always_of_member p penalty hmember
      rw [hpromoted] at hpassed
      rw [hbook]
      exact Roster.mem_waiting_release.2 ⟨hwaits, Ne.symm howner, hpassed⟩
    · rw [x.2.punish_always_of_outsider p penalty hmember]
      exact hwaits
  ordered {before q c a} hprefix hc ha := by
    rcases List.prefix_concat_iff.1 hprefix with heq | hprefix
    · obtain ⟨rfl, hlast⟩ := List.append_inj' heq rfl
      obtain rfl := List.singleton_inj.1 hlast
      obtain ⟨hstill, howner, hpassed⟩ := Roster.stillWaits_concat.1 ha
      rw [owner_punish] at howner
      exact hx.ahead_of_promoted hc hstill (Ne.symm howner) fun h => hpassed (h ▸ hc)
    · exact hx.ordered hprefix hc ha

end Orderly

theorem orderly_fire (h : w.book.Funded) (p : Parameters) (evidence : List Evidence) :
    Orderly w.book (w.fire p evidence) :=
  fire_induction (fun _ key hx => hx.unknown key) (fun _ _ penalty hx => hx.fireOne p penalty)
    (.start h) evidence

end Desk

/-- Whoever gets a seat by a call that is not about it comes before all that wait afterwards. -/
theorem Call.ahead_of_effect {source : ParameterSource} {call : Call} {b : Book}
    {answer : call.Answer} {w : Desk} (hfunded : b.Funded) (hfresh : b.Fresh)
    (h : call.effect source ⟨b, []⟩ = .ok (answer, w)) {a c : Account}
    (hc : c ∈ w.book.roster.seated) (hnew : c ∉ b.roster.seated) (hcall : call.subject? ≠ some c)
    (ha : a ∈ w.book.roster.waiting) : b.roster.Ahead b.power c a := by
  have hoffer {u : Book} {p : Parameters} {owner : Account} (hroster : u.roster = b.roster)
      (hc : c ∈ (u.offerSeat p owner).2.roster.seated) : c = owner := by
    rw [Book.roster_offerSeat, hroster] at hc
    refine (Roster.mem_seated_seat hc).resolve_left ?_
    rwa [Roster.seated_join]
  obtain ⟨p, hp⟩ := exists_goesBy h
  cases acts_of_effect hp h with
  | genesis => exact absurd hc hnew
  | register h =>
    obtain ⟨v, -, -, -, -, rfl⟩ := Desk.register_eq_ok h
    exact absurd (congrArg some (hoffer (by rfl) hc).symm) hcall
  | increaseDeposit _ h =>
    obtain ⟨-, v, deposit, -, -, -, rfl⟩ := Desk.increaseDeposit_eq_ok h
    exact absurd (congrArg some (hoffer (by rfl) hc).symm) hcall
  | withdraw h =>
    obtain ⟨v, hv, -, rfl⟩ := Desk.withdraw_eq_ok h
    obtain rfl := b.owner_eq hv
    split at hc
    · rename_i hzero
      rw [if_pos hzero] at ha
      exact Book.ahead_of_dismissMember (v := { v with deposit := _ }) hfunded.pool_of_seated hc
        hnew ha
    · exact absurd hc hnew
  | revoke h =>
    obtain ⟨v, hv, -, -, rfl⟩ := Desk.revoke_eq_ok h
    obtain rfl := b.owner_eq hv
    exact Book.ahead_of_dismissMember (v := { v with deposit := _ }) hfunded.pool_of_seated hc
      hnew ha
  | punish found => exact Desk.ahead_of_punish (w := ⟨b, []⟩) hfunded hc hnew ha
  | @countFlags flags =>
    have hroster : (Desk.countFlags ⟨b, []⟩ flags).2.book.roster = b.roster :=
      Desk.countFlags_induction (P := fun after => after.book.roster = b.roster) rfl
        (fun _ _ _ _ h _ _ => h) flags
    rw [hroster] at hc
    exact absurd hc hnew
  | @fire height evidence =>
    have hcleared := (Desk.docket_fire hfunded hfresh p evidence).cleared hfunded
    have hpool := (Desk.orderly_fire (w := ⟨b, []⟩) hfunded p evidence).pool
    exact ⟨hpool.subset (hcleared.drawn c hc), hpool.subset (Roster.mem_waiting.1 ha).1,
      (hcleared.promoted c hc hnew).2 a ha⟩
  | report => exact absurd hc hnew

end StakedCommittee
