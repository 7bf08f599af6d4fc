import StakedCommittee.Proofs.Registry.Moves
import StakedCommittee.Proofs.Store.Listing

/-! The pool is the funded accounts. A deposit is either nothing, and then its owner has no place in
the pool, or enough for some power. Registration and larger deposits only add members with power,
a deposit that would lose its power sends its owner away, and whoever leaves takes everything along,
so every move preserves this. -/

namespace StakedCommittee

namespace Book

/-- A deposit with power is one of a validator on record. -/
theorem exists_of_power_ne_zero {b : Book} {a : Account} (h : (b.deposit a).power ≠ 0) :
    ∃ v, b.validators.get? a = some v ∧ v.power ≠ 0 := by
  unfold deposit at h
  cases hv : b.validators.get? a with
  | none =>
    rw [hv] at h
    exact absurd rfl h
  | some v =>
    rw [hv] at h
    exact ⟨v, rfl, h⟩

/-- The pool has each funded account once, and the committee is drawn from it. -/
structure Funded (b : Book) : Prop where
  nodup_pool : b.roster.pool.Nodup
  nodup_seated : b.roster.seated.Nodup
  pool_of_seated : ∀ a ∈ b.roster.seated, a ∈ b.roster.pool
  member : ∀ a ∈ b.roster.pool, (b.deposit a).power ≠ 0
  outsider : ∀ a, a ∉ b.roster.pool → b.deposit a = .zero

theorem funded_opening : opening.Funded where
  nodup_pool := .nil
  nodup_seated := .nil
  pool_of_seated _ h := h
  member _ h := by cases h
  outsider _ _ := rfl

namespace Funded

variable {b : Book} {p : Parameters} {v : Validator}

theorem setRoster (h : b.Funded) {r : Roster} (hpool : r.pool = b.roster.pool)
    (hseated : r.seated = b.roster.seated) : (b.setRoster r).Funded where
  nodup_pool := hpool ▸ h.nodup_pool
  nodup_seated := hseated ▸ h.nodup_seated
  pool_of_seated := hpool ▸ hseated ▸ h.pool_of_seated
  member := hpool ▸ h.member
  outsider := hpool ▸ h.outsider

theorem bind (h : b.Funded) (key : ConsensusKey) (owner : Account) : (b.bind key owner).Funded :=
  ⟨h.nodup_pool, h.nodup_seated, h.pool_of_seated, h.member, h.outsider⟩

/-- A deposit may change as long as it suits the place of its owner. -/
theorem put (h : b.Funded) (hmember : v.owner ∈ b.roster.pool → v.power ≠ 0)
    (houtsider : v.owner ∉ b.roster.pool → v.deposit = .zero) : (b.put v).Funded where
  nodup_pool := h.nodup_pool
  nodup_seated := h.nodup_seated
  pool_of_seated := h.pool_of_seated
  member a ha := by
    rw [deposit_put]
    split
    · subst_vars
      exact hmember ha
    · exact h.member a ha
  outsider a ha := by
    rw [deposit_put]
    split
    · subst_vars
      exact houtsider ha
    · exact h.outsider a ha

/-- Whoever has power may join the pool. -/
theorem offerSeat (h : b.Funded) (hpower : v.power ≠ 0) :
    ((b.put v).offerSeat p v.owner).2.Funded := by
  unfold Book.offerSeat
  constructor
  case nodup_pool =>
    rw [roster_setRoster, Roster.pool_seat]
    exact Roster.nodup_pool_join h.nodup_pool
  case nodup_seated =>
    refine Roster.nodup_seated_seat ?_
    rw [Roster.seated_join]
    exact h.nodup_seated
  case pool_of_seated =>
    intro a ha
    rw [roster_setRoster, Roster.pool_seat, Roster.mem_pool_join]
    refine (Roster.mem_seated_seat ha).imp_left fun hseated => ?_
    rw [Roster.seated_join] at hseated
    exact h.pool_of_seated a hseated
  case member =>
    intro a ha
    rw [roster_setRoster, Roster.pool_seat, Roster.mem_pool_join] at ha
    rw [deposit_setRoster, deposit_put]
    split
    · exact hpower
    · rename_i hne
      exact h.member a (ha.resolve_right fun heq => hne heq.symm)
  case outsider =>
    intro a ha
    rw [roster_setRoster, Roster.pool_seat, Roster.mem_pool_join, not_or] at ha
    rw [deposit_setRoster, deposit_put, if_neg fun heq => ha.2 heq.symm]
    exact h.outsider a ha.1

/-- Whoever leaves with the whole deposit leaves a funded pool. -/
theorem dismissMember (h : b.Funded) (hzero : v.deposit = .zero) :
    ((b.put v).dismissMember p v.owner).Funded := by
  unfold Book.dismissMember
  split
  · unfold Book.dismiss
    constructor
    case nodup_pool =>
      rw [roster_setRoster, Roster.pool_release]
      exact h.nodup_pool.filter _
    case nodup_seated => exact Roster.nodup_seated_release h.nodup_seated
    case pool_of_seated =>
      intro a ha
      obtain ⟨hne, hfrom⟩ := Roster.mem_seated_release ha
      rw [roster_setRoster, Roster.pool_release]
      refine List.mem_filter.2 ⟨?_, by simpa using hne⟩
      exact hfrom.elim (h.pool_of_seated a) And.left
    case member =>
      intro a ha
      rw [roster_setRoster, Roster.pool_release, List.mem_filter] at ha
      have hne : a ≠ v.owner := by simpa using ha.2
      rw [deposit_setRoster, deposit_put, if_neg hne.symm]
      exact h.member a ha.1
    case outsider =>
      intro a ha
      rw [roster_setRoster, Roster.pool_release, List.mem_filter] at ha
      rw [deposit_setRoster, deposit_put]
      split
      · exact hzero
      · rename_i hne
        refine h.outsider a fun hpool => ha ⟨hpool, ?_⟩
        simpa using Ne.symm hne
  · rename_i houtside
    exact h.put (fun hpool => absurd hpool houtside) fun _ => hzero

/-- Exactly the pool members have a deposit. -/
theorem mem_pool_iff (h : b.Funded) {a : Account} :
    a ∈ b.roster.pool ↔ b.deposit a ≠ .zero := by
  refine ⟨fun hmember hzero => ?_, fun hsome => ?_⟩
  · have hpower := h.member a hmember
    rw [hzero] at hpower
    exact hpower rfl
  · by_contra hout
    exact hsome (h.outsider a hout)

/-- A seated member is on record and has power. -/
theorem exists_of_seated (h : b.Funded) {a : Account} (ha : a ∈ b.roster.seated) :
    ∃ v, b.validators.get? a = some v ∧ v.power ≠ 0 :=
  exists_of_power_ne_zero (h.member a (h.pool_of_seated a ha))

/-- Every move preserves funding. -/
theorem move (h : b.Funded) {after : Book} (hmove : b.Move p after) : after.Funded := by
  cases hmove with
  | enlist v old holder powered => exact (h.bind v.key v.owner).offerSeat powered
  | @raise v deposit found member le =>
    have hpower := h.member _ member
    rw [deposit_of_get? found] at hpower
    exact h.offerSeat (v := { v with deposit }) (Amount.power_ne_zero_of_le hpower le)
  | @lower v deposit found le waiting =>
    refine h.put (fun hpool => (waiting hpool).2) fun houtside => ?_
    -- The deposit of an outsider was nothing before.
    have hzero := h.outsider _ houtside
    rw [deposit_of_get? found] at hzero
    rw [hzero, Amount.le_iff, Amount.units_zero] at le
    exact Amount.ext (Nat.le_zero.1 le)
  | @penalize v deposit found le member powered =>
    have hput := h.put (v := { v with deposit }) (fun _ => powered)
      fun houtside => absurd member houtside
    exact hput.setRoster (Roster.pool_refresh ..) (Roster.seated_refresh ..)
  | @leave v found => exact h.dismissMember (v := { v with deposit := .zero }) rfl
  | count absences signatures found seated =>
    refine h.put (fun hpool => ?_) fun houtside => ?_
    · have hpower := h.member _ hpool
      rwa [deposit_of_get? found] at hpower
    · have hzero := h.outsider _ houtside
      rwa [deposit_of_get? found] at hzero

end Funded

end Book

namespace Run

theorem holds_funded (l : Ledger) (steps : List Step) :
    ∃ b, (of l steps).registry.store.Holds b ∧ b.Funded :=
  moves_induction Book.funded_opening (fun _ _ h => h.setRoster rfl rfl) (fun h => h.move)
    (fun _ h => h.setRoster rfl rfl) l steps

/-- After every run, the pool is exactly the funded accounts. -/
theorem pool_is_funded (l : Ledger) (steps : List Step) :
    ∃ (r : Roster) (listed : List Validator),
      Query.roster.answer (of l steps).registry.store = .ok r ∧
      Query.validators.answer (of l steps).registry.store = .ok listed ∧
      r.pool.Nodup ∧ r.seated.Nodup ∧ (∀ a ∈ r.seated, a ∈ r.pool) ∧
      (∀ a ∈ r.pool, ∃ v, (Query.validator? a).answer (of l steps).registry.store = .ok (some v) ∧
        v.owner = a ∧ 1 ≤ v.power) ∧
      ∀ v ∈ listed, v.owner ∉ r.pool → v.deposit = .zero := by
  obtain ⟨b, hb, hfunded⟩ := holds_funded l steps
  refine ⟨b.roster, _, hb.answer_roster, hb.answer_validators, hfunded.nodup_pool,
    hfunded.nodup_seated, hfunded.pool_of_seated, ?_, ?_⟩
  · intro a ha
    obtain ⟨v, hv, hpower⟩ := Book.exists_of_power_ne_zero (hfunded.member a ha)
    refine ⟨v, ?_, b.owner_eq hv, ?_⟩
    · rw [hb.answer_validator? a, hv]
    · have hne : v.power.toNat ≠ 0 := fun hz => hpower (UInt64.toNat_inj.1 hz)
      exact UInt64.le_iff_toNat_le.2 (Nat.pos_of_ne_zero hne)
  · intro v hv houtside
    obtain ⟨⟨a, u⟩, hentry, rfl⟩ := List.mem_map.1 hv
    have hu := SortedMap.mem_entries_iff.1 hentry
    obtain rfl := b.owner_eq hu
    have hzero := hfunded.outsider _ houtside
    rwa [Book.deposit_of_get? hu] at hzero

end Run

end StakedCommittee
