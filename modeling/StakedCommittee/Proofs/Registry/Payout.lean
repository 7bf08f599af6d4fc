import StakedCommittee.Proofs.Registry.Weakest

/-! Operations that only pay out. A withdrawal, a revocation, a penalty or a firing stages credits
and no debits, and it enters nobody: the pool shrinks, and every validator it leaves on record was
there before, under the same link. What it stores can therefore be written, because what was stored
could be. The rules of operations, of these and of all others, know nothing of the ledger or of the
store, so a failure of either comes from elsewhere. -/

namespace StakedCommittee

namespace Roster

/-- The noted weakest member is seated. -/
theorem Fresh.mem_of_weakest {r : Roster} {power : Account → Power} {a : Account}
    (h : r.Fresh power) (ha : r.weakest = some a) : a ∈ r.seated := by
  by_cases hseated : r.seated = []
  · rw [(h.of_empty hseated).1] at ha
    cases ha
  · obtain ⟨c, hc, -, hfirst⟩ := h.of_seated hseated
    rw [hc] at ha
    cases ha
    exact hfirst.mem

/-- Part of a list that can be written can be written. -/
theorem AccountsFit.of_subset {l part : List Account} (h : AccountsFit l) (hnodup : part.Nodup)
    (hpart : ∀ a ∈ part, a ∈ l) : AccountsFit part := by
  have hlength := length_le_of_subset hnodup hpart
  have hl := h.1
  exact ⟨by omega, fun a ha => h.2 a (hpart a ha)⟩

end Roster

/-- A sound book can be written if its pool, what was reported and its validators can. -/
theorem Book.fits_of_pool {b : Book} (hfunded : b.Funded) (hfresh : b.Fresh)
    (hpool : Roster.AccountsFit b.roster.pool) (hreported : Roster.AccountsFit b.roster.reported)
    (hvalidators : ∀ {a v}, b.validators.get? a = some v → v.Fits) : b.Fits := by
  refine ⟨hvalidators, hpool.of_subset hfunded.nodup_seated hfunded.pool_of_seated, hpool,
    hreported, ?_⟩
  apply hpool.of_subset
  · cases b.roster.weakest <;> simp
  · intro a ha
    exact hfunded.pool_of_seated a (hfresh.mem_of_weakest (Option.mem_toList.1 ha))

/-- From `b` to `after` nobody is entered. -/
structure Book.Shrinks (b after : Book) : Prop where
  pool : ∀ a ∈ after.roster.pool, a ∈ b.roster.pool
  reported : after.roster.reported = b.roster.reported
  validators : ∀ {a v}, after.validators.get? a = some v →
    ∃ u, b.validators.get? a = some u ∧ v.link = u.link

namespace Book.Shrinks

variable {b mid after : Book}

theorem refl (b : Book) : b.Shrinks b := ⟨fun _ h => h, rfl, fun h => ⟨_, h, rfl⟩⟩

theorem trans (h : b.Shrinks mid) (hnext : mid.Shrinks after) : b.Shrinks after where
  pool a ha := h.pool a (hnext.pool a ha)
  reported := hnext.reported.trans h.reported
  validators hv := by
    obtain ⟨u, hu, hlink⟩ := hnext.validators hv
    obtain ⟨t, ht, hlink'⟩ := h.validators hu
    exact ⟨t, ht, hlink.trans hlink'⟩

/-- A validator on record may be replaced by one with the same link. -/
theorem put {u v : Validator} (hv : b.validators.get? v.owner = some v) (howner : u.owner = v.owner)
    (hlink : u.link = v.link) : b.Shrinks (b.put u) where
  pool _ h := h
  reported := rfl
  validators {a t} ht := by
    rw [get?_put] at ht
    split at ht
    · rename_i ha
      cases ht
      rw [← ha, howner]
      exact ⟨v, hv, hlink⟩
    · exact ⟨t, ht, rfl⟩

theorem setRoster {r : Roster} (hpool : ∀ a ∈ r.pool, a ∈ b.roster.pool)
    (hreported : r.reported = b.roster.reported) : b.Shrinks (b.setRoster r) :=
  ⟨hpool, hreported, fun h => ⟨_, h, rfl⟩⟩

theorem dismiss (b : Book) (p : Parameters) (owner : Account) :
    b.Shrinks (b.dismiss p owner).2 := by
  apply setRoster
  · intro a ha
    rw [Roster.pool_release] at ha
    exact (List.mem_filter.1 ha).1
  · exact Roster.reported_release ..

theorem dismissMember (b : Book) (p : Parameters) (owner : Account) :
    b.Shrinks (b.dismissMember p owner) := by
  unfold Book.dismissMember
  split
  · exact dismiss ..
  · exact refl b

theorem refreshWeakest (b : Book) : b.Shrinks b.refreshWeakest := by
  apply setRoster
  · intro a ha
    rwa [Roster.pool_refresh] at ha
  · exact Roster.reported_refresh ..

/-- The written form does not outgrow what can be written. -/
theorem fits (h : b.Shrinks after) (hb : b.Fits) (hfunded : after.Funded) (hfresh : after.Fresh) :
    after.Fits := by
  obtain ⟨-, hpool, hreported, -⟩ := hb.roster
  refine fits_of_pool hfunded hfresh (hpool.of_subset hfunded.nodup_pool h.pool) ?_
    fun {a v} hv => ?_
  · rw [h.reported]
    exact hreported
  · obtain ⟨u, hu, hlink⟩ := h.validators hv
    have hfits := hb.validators hu
    rw [Validator.Fits, b.owner_eq hu] at hfits
    rw [Validator.Fits, after.owner_eq hv, hlink]
    exact hfits

end Book.Shrinks

namespace Desk

open Book

/-- From `w` to `after` nobody is entered, and only credits are staged. -/
structure PaysOut (w after : Desk) : Prop where
  shrinks : w.book.Shrinks after.book
  credits : ∀ t ∈ after.transfers, t ∈ w.transfers ∨ t.IsCredit

variable {w mid after : Desk} {p : Parameters} {owner : Account} {v : Validator}

namespace PaysOut

theorem of_book (h : w.book.Shrinks after.book) (hsame : after.transfers = w.transfers) :
    w.PaysOut after := ⟨h, fun _ ht => .inl (hsame ▸ ht)⟩

/-- What starts with nothing staged stages credits only. -/
theorem isCredit {b : Book} (h : PaysOut ⟨b, []⟩ after) {t : Transfer} (ht : t ∈ after.transfers) :
    t.IsCredit := (h.credits t ht).resolve_left List.not_mem_nil

theorem refl (w : Desk) : w.PaysOut w := of_book (.refl _) rfl

theorem trans (h : w.PaysOut mid) (hnext : mid.PaysOut after) : w.PaysOut after where
  shrinks := h.shrinks.trans hnext.shrinks
  credits t ht := (hnext.credits t ht).elim (h.credits t) .inr

theorem credit (w : Desk) (owner : Account) (amount : Amount) :
    w.PaysOut (w.transfer (.credit owner amount)) where
  shrinks := .refl _
  credits t ht := by
    refine (List.mem_append.1 ht).imp_right fun hlast => ?_
    obtain rfl := List.mem_singleton.1 hlast
    trivial

theorem refund (w : Desk) (owner : Account) (amount : Amount) :
    w.PaysOut (w.refund owner amount) := by
  unfold Desk.refund
  split
  · exact refl w
  · exact credit ..

end PaysOut

theorem paysOut_withdraw {amount answer : Amount}
    (h : w.withdraw p owner amount = .ok (answer, after)) : w.PaysOut after := by
  obtain ⟨v, hv, -, rfl⟩ := withdraw_eq_ok h
  obtain rfl := w.book.owner_eq hv
  have hput : w.PaysOut (w.put { v with deposit := answer }) := .of_book (.put hv rfl rfl) rfl
  refine PaysOut.trans ?_ (.credit ..)
  split
  · exact hput.trans (.of_book (.dismissMember ..) rfl)
  · exact hput

theorem paysOut_revoke {answer : Amount} (h : w.revoke p owner = .ok (answer, after)) :
    w.PaysOut after := by
  obtain ⟨v, hv, -, -, rfl⟩ := revoke_eq_ok h
  obtain rfl := w.book.owner_eq hv
  have hput : w.PaysOut (w.put { v with deposit := .zero }) := .of_book (.put hv rfl rfl) rfl
  refine PaysOut.trans ?_ (.credit ..)
  exact hput.trans (.of_book (.dismissMember ..) rfl)

theorem paysOut_expel (w : Desk) (p : Parameters) {u : Validator}
    (hv : w.book.validators.get? v.owner = some v) (howner : u.owner = v.owner)
    (hlink : u.link = v.link) : w.PaysOut (w.expel p u).2 := by
  have hput : w.PaysOut (w.put { u with deposit := .zero }) := .of_book (.put hv howner hlink) rfl
  exact (hput.trans (.refund ..)).trans (.of_book (.dismiss ..) rfl)

theorem paysOut_punish (w : Desk) (p : Parameters) (penalty : Amount) (removal : Removal)
    (hv : w.book.validators.get? v.owner = some v) :
    w.PaysOut (w.punish p v penalty removal).2 := by
  unfold punish
  split
  · exact paysOut_expel w p hv rfl rfl
  · have hput : w.PaysOut (w.put (v.slash penalty)) := .of_book (.put hv rfl rfl) rfl
    dsimp only
    split
    · exact hput.trans (.of_book (.refreshWeakest _) rfl)
    · exact hput

theorem paysOut_fire (w : Desk) (p : Parameters) (evidence : List Evidence) :
    w.PaysOut (w.fire p evidence).2 :=
  fire_induction (P := fun x => w.PaysOut x.2) (fun _ _ h => h)
    (fun x _ penalty h hv => h.trans (x.2.paysOut_punish p penalty .always hv)) (.refl w) evidence

theorem paysOut_countFlags (w : Desk) (flags : List SigningFlag) :
    w.PaysOut (w.countFlags flags).2 :=
  countFlags_induction (P := fun after => w.PaysOut after) (.refl w)
    (fun _ _ _ _ h hv _ => h.trans (.of_book (.put hv rfl rfl) rfl)) flags

end Desk

/-- Firing is refused only for want of parameters. -/
theorem Call.effect_fire_eq_error {source : ParameterSource} {height : Height}
    {evidence : List Evidence} {w : Desk} {e : RegistryError}
    (h : (Call.fire height evidence).effect source w = .error e) :
    ∃ fault, source.inForce height = .error fault ∧ e = .parameters fault := by
  rcases ParameterSource.whenInForce_eq_error h with hfault | ⟨p, -, hfire⟩
  · exact hfault
  · cases hfire

/-- The rules of an operation refuse it, and neither the ledger nor the store. -/
def RegistryError.IsRefusal : RegistryError → Prop
  | .ledger _ | .noRoster | .store _ | .data _ => False
  | _ => True

theorem Desk.isRefusal_of_applicant {w : Desk} {height : Height} {owner : Account}
    {key : ConsensusKey} {deposit : Amount} {link : String} {e : RegistryError}
    (h : w.applicant height owner key deposit link = .error e) : e.IsRefusal := by
  unfold applicant at h
  repeat' split at h
  all_goals
    cases h
    try trivial

theorem Desk.isRefusal_of_claimKey {w : Desk} {key : ConsensusKey} {owner : Account}
    {e : RegistryError} (h : w.claimKey key owner = .error e) : e.IsRefusal := by
  unfold claimKey at h
  repeat' split at h
  all_goals
    cases h
    try trivial

/-- On a desk, an operation fails for its own rules only. -/
theorem Call.isRefusal_of_effect {source : ParameterSource} {c : Call} {w : Desk}
    {e : RegistryError} (h : c.effect source w = .error e) : e.IsRefusal := by
  cases c with
  | genesis | countFlags | report => cases h
  | fire =>
    obtain ⟨fault, -, rfl⟩ := effect_fire_eq_error h
    trivial
  | register =>
    rcases ParameterSource.whenInForce_eq_error h with ⟨_, -, rfl⟩ | ⟨p, -, h⟩
    · trivial
    unfold Desk.register at h
    split at h
    · rename_i happ
      cases h
      exact Desk.isRefusal_of_applicant happ
    · split at h
      · cases h
        trivial
      · split at h
        · rename_i hclaim
          cases h
          exact Desk.isRefusal_of_claimKey hclaim
        · cases h
  | punish =>
    rcases ParameterSource.whenInForce_eq_error h with ⟨_, -, rfl⟩ | ⟨p, -, h⟩
    · trivial
    split at h
    · cases h
      trivial
    · cases h
  | increaseDeposit | withdraw | revoke =>
    rcases ParameterSource.whenInForce_eq_error h with ⟨_, -, rfl⟩ | ⟨p, -, h⟩
    · trivial
    simp only [Desk.increaseDeposit, Desk.withdraw, Desk.revoke] at h
    repeat' split at h
    all_goals
      cases h
      try trivial

/-- Every call keeps the pool funded and the weakest member noted. -/
theorem Call.sound_of_effect {source : ParameterSource} {c : Call} {b : Book} {a : c.Answer}
    {w : Desk} (h : c.effect source ⟨b, []⟩ = .ok (a, w)) (hfunded : b.Funded) (hfresh : b.Fresh) :
    w.book.Funded ∧ w.book.Fresh := by
  obtain ⟨p, hp⟩ := Call.exists_goesBy h
  exact Call.preserve_effect (P := fun b => b.Funded ∧ b.Fresh) hp h
    (fun h hmove => ⟨h.1.move hmove, h.2.move h.1 hmove⟩)
    (fun _ h => ⟨h.1.setRoster rfl rfl, h.2⟩) ⟨hfunded, hfresh⟩

/-- Calls that move no coins but out of deposits, and enter nobody. -/
def Call.PaysOut : Call → Prop
  | .withdraw .. | .revoke .. | .punish .. | .countFlags .. | .fire .. => True
  | _ => False

namespace Call.PaysOut

variable {source : ParameterSource} {c : Call}

theorem effect (hc : c.PaysOut) {b : Book} {a : c.Answer} {w : Desk}
    (h : c.effect source ⟨b, []⟩ = .ok (a, w)) : Desk.PaysOut ⟨b, []⟩ w := by
  obtain ⟨p, hp⟩ := Call.exists_goesBy h
  cases acts_of_effect hp h with
  | withdraw h => exact Desk.paysOut_withdraw h
  | revoke h => exact Desk.paysOut_revoke h
  | punish found => exact Desk.paysOut_punish ⟨b, []⟩ p _ _ found
  | countFlags => exact Desk.paysOut_countFlags ⟨b, []⟩ _
  | fire => exact Desk.paysOut_fire ⟨b, []⟩ p _
  | genesis | register | increaseDeposit | report => exact hc.elim

/-- What such a call enters can be written. -/
theorem fits (hc : c.PaysOut) {b : Book} {a : c.Answer} {w : Desk}
    (h : c.effect source ⟨b, []⟩ = .ok (a, w)) (hb : b.Fits) (hfunded : b.Funded)
    (hfresh : b.Fresh) : w.book.Fits := by
  obtain ⟨hfunded, hfresh⟩ := Call.sound_of_effect h hfunded hfresh
  exact (hc.effect h).shrinks.fits hb hfunded hfresh

end Call.PaysOut

end StakedCommittee
