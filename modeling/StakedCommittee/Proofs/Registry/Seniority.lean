import StakedCommittee.Proofs.Registry.Promotion

/-! Seniority. The pool stands in the order of the registrations: whoever registers, for the first
time or again, goes to its end with the height of the call, and no other call moves anybody in it.
As long as heights never decrease, the heights on record therefore ascend along the pool, and of two
that wait with equal power the one that registered earlier is promoted first. -/

namespace StakedCommittee

/-- On record, `a` has less power than `c` if it registered earlier. -/
def Store.Defers (s : Store) (a c : Account) : Prop :=
  ∃ v u, (Query.validator? a).answer s = .ok (some v) ∧
    (Query.validator? c).answer s = .ok (some u) ∧ (v.since < u.since → v.power < u.power)

namespace Book

variable {b after : Book} {v : Validator} {owner a c : Account} {heights later : List Height}

/-- The height at which an account registered last. -/
def since (b : Book) (a : Account) : Height := ((b.validators.get? a).map (·.since)).getD 0

theorem since_of_get? (h : b.validators.get? a = some v) : b.since a = v.since := by
  rw [since, h]
  rfl

/-- The pool stands in the order of registration, at some of the given heights. -/
structure Senior (b : Book) (heights : List Height) : Prop where
  sorted : b.roster.pool.Pairwise fun a c => b.since a ≤ b.since c
  known : ∀ a ∈ b.roster.pool, b.since a ∈ heights

namespace Senior

/-- Who leaves does not disturb the order. -/
theorem keep (h : b.Senior heights) (hpool : after.roster.pool.Sublist b.roster.pool)
    (hsince : ∀ a ∈ b.roster.pool, after.since a = b.since a) (hlater : heights ⊆ later) :
    after.Senior later where
  sorted := by
    refine (h.sorted.sublist hpool).imp_of_mem fun ha hc hle => ?_
    rwa [hsince _ (hpool.subset ha), hsince _ (hpool.subset hc)]
  known a ha := by
    rw [hsince a (hpool.subset ha)]
    exact hlater (h.known a (hpool.subset ha))

/-- Nor does who joins, at a height that is none of the past. -/
theorem enroll (h : b.Senior heights) (hpool : after.roster.pool = b.roster.pool ++ [owner])
    (hsince : ∀ a ∈ b.roster.pool, after.since a = b.since a)
    (hlatest : ∀ x ∈ heights, x ≤ after.since owner) :
    after.Senior (heights ++ [after.since owner]) where
  sorted := by
    rw [hpool, List.pairwise_append]
    refine ⟨h.sorted.imp_of_mem fun ha hc hle => ?_, List.pairwise_singleton ..,
      fun a ha c hc => ?_⟩
    · rwa [hsince _ ha, hsince _ hc]
    · rw [List.mem_singleton.1 hc, hsince a ha]
      exact hlatest _ (h.known a ha)
  known a ha := by
    rw [hpool, List.mem_append, List.mem_singleton] at ha
    rcases ha with ha | rfl
    · rw [hsince a ha]
      exact List.mem_append_left _ (h.known a ha)
    · simp

/-- Whoever registered earlier is earlier in the pool, and comes second only if it is weaker. -/
theorem power_lt (h : b.Senior heights) (hprecedes : b.roster.Precedes b.power c a)
    (hearlier : b.since a < b.since c) : b.power a < b.power c := by
  refine hprecedes.resolve_right fun ⟨_, hpair⟩ => ?_
  have hle : b.since c ≤ b.since a :=
    (List.pairwise_cons.1 (h.sorted.sublist hpair)).1 a (by simp)
  exact UInt64.not_le.2 hearlier hle

theorem defers {s : Store} (h : b.Senior heights) (hs : s.Holds b) (hfunded : b.Funded)
    (hahead : b.roster.Ahead b.power c a) : s.Defers a c := by
  obtain ⟨v, hv, -⟩ := exists_of_power_ne_zero (hfunded.member a hahead.second)
  obtain ⟨u, hu, -⟩ := exists_of_power_ne_zero (hfunded.member c hahead.first)
  refine ⟨v, u, by rw [hs.answer_validator?, hv], by rw [hs.answer_validator?, hu], ?_⟩
  rw [← since_of_get? hv, ← since_of_get? hu, ← power_of_get? hv, ← power_of_get? hu]
  exact h.power_lt hahead.precedes

/-- The records of the pool, one after the other. -/
theorem exists_records {s : Store} (h : b.Senior heights) (hs : s.Holds b) (hfunded : b.Funded) :
    ∃ records : List Validator, records.map (·.owner) = b.roster.pool ∧
      (∀ v ∈ records, (Query.validator? v.owner).answer s = .ok (some v)) ∧
      records.Pairwise fun v u => v.since ≤ u.since := by
  refine ⟨b.roster.pool.filterMap b.validators.get?, ?_, fun v hv => ?_, ?_⟩
  · rw [List.map_filterMap]
    refine (List.filterMap_congr fun a ha => ?_).trans List.filterMap_some
    obtain ⟨v, hv, -⟩ := exists_of_power_ne_zero (hfunded.member a ha)
    rw [hv, Option.map_some, b.owner_eq hv]
  · obtain ⟨a, -, ha⟩ := List.mem_filterMap.1 hv
    rw [hs.answer_validator?, b.owner_eq ha, ha]
  · refine h.sorted.filterMap _ fun a c hle v hv u hu => ?_
    rwa [since_of_get? hv, since_of_get? hu] at hle

end Senior

end Book

namespace Desk

variable {w after : Desk} {p : Parameters} {height : Height} {owner : Account}

theorem since_of_applicant {key : ConsensusKey} {deposit : Amount} {link : String} {v : Validator}
    (h : w.applicant height owner key deposit link = .ok v) : v.since = height := by
  rcases applicant_cases h with ⟨-, rfl⟩ | ⟨u, -, -, -, rfl⟩ <;> rfl

/-- Only who is not in the pool registers, and goes to its end. -/
theorem pool_register {key : ConsensusKey} {deposit : Amount} {link : String} {answer : Seating}
    (hw : w.book.Funded)
    (h : w.register p height owner key deposit link = .ok (answer, after)) :
    owner ∉ w.book.roster.pool ∧ after.book.roster.pool = w.book.roster.pool ++ [owner] ∧
      ∃ v, after.book.validators.get? owner = some v ∧ v.since = height := by
  obtain ⟨v, happ, -, -, -, rfl⟩ := register_eq_ok h
  have hsince := since_of_applicant happ
  obtain ⟨rfl, -, -, hold⟩ := applicant_eq_ok happ
  have hnew : v.owner ∉ w.book.roster.pool := fun hmember => by
    obtain ⟨u, hu, -⟩ := Book.exists_of_power_ne_zero (hw.member _ hmember)
    refine hw.mem_pool_iff.1 hmember ?_
    rw [Book.deposit_of_get? hu]
    exact (hold u hu).2
  refine ⟨hnew, ?_, v, ?_, hsince⟩
  · show ((w.book.roster.join v.owner).seat _ _ _).1.pool = _
    rw [Roster.pool_seat, Roster.join, if_neg hnew]
  · show (((w.book.bind key v.owner).put v).validators.get? v.owner) = some v
    rw [Book.get?_put, if_pos rfl]

theorem pool_increaseDeposit {amount : Amount} {answer : Seating}
    (h : w.increaseDeposit p owner amount = .ok (answer, after)) :
    after.book.roster.pool = w.book.roster.pool := by
  obtain ⟨hmember, v, deposit, -, -, -, rfl⟩ := increaseDeposit_eq_ok h
  show ((w.book.roster.join owner).seat _ _ _).1.pool = _
  rw [Roster.pool_seat, Roster.join, if_pos hmember]

end Desk

namespace Call

variable {source : ParameterSource} {call : Call} {b : Book} {answer : call.Answer} {w : Desk}

/-- Calls other than registrations take members out of the pool at most. -/
theorem pool_sublist_of_effect (hb : b.Funded) (hcall : ¬ call.Registers)
    (h : call.effect source ⟨b, []⟩ = .ok (answer, w)) :
    w.book.roster.pool.Sublist b.roster.pool := by
  obtain ⟨p, hp⟩ := exists_goesBy h
  cases acts_of_effect hp h with
  | genesis | report => exact .refl _
  | register => exact absurd trivial hcall
  | increaseDeposit _ h =>
    rw [Desk.pool_increaseDeposit h]
  | withdraw h =>
    obtain ⟨v, -, -, rfl⟩ := Desk.withdraw_eq_ok h
    split
    · show ((b.put _).dismissMember p _).roster.pool.Sublist _
      rw [Book.pool_dismissMember]
      exact List.filter_sublist
    · exact .refl _
  | revoke h =>
    obtain ⟨v, -, -, -, rfl⟩ := Desk.revoke_eq_ok h
    show ((b.put _).dismissMember p _).roster.pool.Sublist _
    rw [Book.pool_dismissMember]
    exact List.filter_sublist
  | punish => exact Desk.pool_punish ⟨b, []⟩ ..
  | @countFlags flags =>
    exact Desk.countFlags_induction (P := fun after => after.book.roster.pool.Sublist b.roster.pool)
      (.refl _) (fun _ _ _ _ h _ _ => h) flags
  | @fire height evidence =>
    exact (Desk.orderly_fire (w := ⟨b, []⟩) hb p evidence).pool

/-- A call at no earlier height keeps the pool in the order of registration. -/
theorem senior_effect {heights : List Height} (hb : b.Funded) (hsenior : b.Senior heights)
    (hlatest : ∀ x, call.height? = some x → ∀ y ∈ heights, y ≤ x)
    (h : call.effect source ⟨b, []⟩ = .ok (answer, w)) :
    w.book.Senior (heights ++ call.height?.toList) := by
  by_cases hcall : call.Registers
  · cases call with
    | register height owner key deposit link =>
      obtain ⟨p, hp⟩ := exists_goesBy h
      rw [effect, ParameterSource.whenInForce_eq (hp height rfl)] at h
      obtain ⟨hnew, hpool, v, hv, hsince⟩ := Desk.pool_register hb h
      obtain ⟨u, rfl, henters⟩ := Desk.enters_register h
      have hheight : w.book.since u.owner = height := (Book.since_of_get? hv).trans hsince
      have hothers (a : Account) (ha : a ∈ b.roster.pool) : w.book.since a = b.since a := by
        have hne : u.owner ≠ a := fun heq => hnew (heq ▸ ha)
        rw [Book.since, henters.validators, Book.get?_put, if_neg hne, Book.since]
      have hafter := hsenior.enroll hpool hothers (by rw [hheight]; exact hlatest height rfl)
      rwa [hheight] at hafter
    | genesis | increaseDeposit | withdraw | revoke | punish | countFlags | fire | report =>
      exact hcall.elim
  · refine hsenior.keep (pool_sublist_of_effect hb hcall h) (fun a ha => ?_)
      (List.subset_append_left ..)
    obtain ⟨v, hv, -⟩ := Book.exists_of_power_ne_zero (hb.member a ha)
    obtain ⟨u, hu, hkeeps⟩ := carries_effect h a v hv
    rw [Book.since_of_get? hu, Book.since_of_get? hv, hkeeps.since hcall]

end Call

namespace Run

theorem holds_senior (l : Ledger) {steps : List Step}
    (h : (steps.filterMap (·.call.height?)).Pairwise (· ≤ ·)) :
    ∃ b, (of l steps).registry.store.Holds b ∧
      b.Senior (steps.filterMap (·.call.height?)) := by
  refine prefix_induction (P := fun before b => b.Senior (before.filterMap (·.call.height?))) l
    steps ⟨.nil, fun a ha => nomatch ha⟩ (fun before s b e _ _ hb _ => ?_)
    fun before s b a w hmade hb hsenior _ heffect _ => ?_
  · rw [List.filterMap_append]
    exact hb.keep (.refl _) (fun _ _ => rfl) (List.subset_append_left ..)
  · obtain ⟨c, hc, hfunded⟩ := holds_funded l before
    obtain rfl := hb.unique hc
    have hheights := h.sublist (hmade.filterMap (·.call.height?)).sublist
    rw [List.filterMap_append, List.pairwise_append] at hheights
    have hw := Call.senior_effect hfunded hsenior
      (fun x hx y hy => hheights.2.2 y hy x (by simp [hx])) heffect
    have hlast : [s].filterMap (·.call.height?) = s.call.height?.toList := by
      cases hheight : s.call.height? <;> simp [hheight]
    rw [List.filterMap_append, hlast]
    exact Desk.preserved_stored (P := fun after => after.Senior _) b hw fun _ =>
      ⟨hw.sorted, hw.known⟩

/-- In a run whose heights never decrease the records of the pool, in its order, ascend by the
height of registration. The next call moves nobody in the pool, and a registration puts its owner at
the end, with its own height on record. Whoever the next call seats, unless the call is about it,
comes ahead of all that wait afterwards: none of them that registered earlier has as much power. In
a firing that is so of each promotion at its time. -/
theorem seniority_breaks_ties (l : Ledger) (steps : List Step)
    (hheights : (steps.filterMap (·.call.height?)).Pairwise (· ≤ ·)) :
    let before := (of l steps).registry
    ∃ r, Query.roster.answer before.store = .ok r ∧
      (∃ records : List Validator, records.map (·.owner) = r.pool ∧
        (∀ v ∈ records, (Query.validator? v.owner).answer before.store = .ok (some v)) ∧
        records.Pairwise fun v u => v.since ≤ u.since) ∧
      (∀ (source : ParameterSource) (faults : Faults) (c : Call),
        let after := (before.call source faults c).2.store
        ∃ next, Query.roster.answer after = .ok next ∧
          (¬ c.Registers → next.pool.Sublist r.pool) ∧
          (∀ height owner amount, c = .increaseDeposit height owner amount → next.pool = r.pool) ∧
          ∀ a ∈ next.seated, a ∉ r.seated → c.subject? ≠ some a →
            ∀ d ∈ next.waiting, before.store.Defers d a) ∧
      (∀ (source : ParameterSource) (faults : Faults) (height : Height) (owner : Account)
        (key : ConsensusKey) (deposit : Amount) (link : String) (answer : Seating),
        let made := before.call source faults (.register height owner key deposit link)
        made.1 = .ok answer → ∃ next v, Query.roster.answer made.2.store = .ok next ∧
          owner ∉ r.pool ∧ next.pool = r.pool ++ [owner] ∧
          (Query.validator? owner).answer made.2.store = .ok (some v) ∧ v.since = height) ∧
      ∀ (source : ParameterSource) (faults : Faults) (height : Height) (evidence : List Evidence)
        (report : FiringReport),
        (before.call source faults (.fire height evidence)).1 = .ok report →
          ∀ done q a, done ++ [q] <+: report.punishments → q.promoted = some a →
            ∀ d, r.StillWaits (done ++ [q]) d → before.store.Defers d a := by
  intro before
  obtain ⟨b, hb, hsenior⟩ := holds_senior l hheights
  obtain ⟨c, hc, hfunded, hfresh⟩ := holds_fresh l steps
  obtain rfl := hb.unique hc
  refine ⟨b.roster, hb.answer_roster, hsenior.exists_records hb hfunded, ?_, ?_, ?_⟩
  · intro source faults call after
    obtain ⟨next, hnext, rfl | ⟨answer, w, heffect, rfl⟩⟩ :=
      Registry.holds_call hb source faults call
    · exact ⟨_, hnext.answer_roster, fun _ => .refl _, fun _ _ _ _ => rfl,
        fun a ha hnew => absurd ha hnew⟩
    refine ⟨_, hnext.answer_roster, fun hcall => ?_, ?_, fun a ha hnew hcall d hd => ?_⟩
    · rw [Desk.pool_stored]
      exact Call.pool_sublist_of_effect hfunded hcall heffect
    · rintro height owner amount rfl
      obtain ⟨p, hp⟩ := Call.exists_goesBy heffect
      cases Call.acts_of_effect hp heffect with
      | increaseDeposit _ h =>
        exact (w.pool_stored b).trans (Desk.pool_increaseDeposit (w := ⟨b, []⟩) h)
    · rw [Desk.seated_stored] at ha
      rw [Roster.mem_waiting, Desk.pool_stored, Desk.seated_stored, ← Roster.mem_waiting] at hd
      exact hsenior.defers hb hfunded (Call.ahead_of_effect hfunded hfresh heffect ha hnew hcall hd)
  · intro source faults height owner key deposit link answer made hmade
    obtain ⟨w, heffect, heffects⟩ := Registry.call_of_ok hb hmade
    obtain ⟨p, hp⟩ := Call.exists_goesBy heffect
    cases Call.acts_of_effect hp heffect with
    | register h =>
      obtain ⟨hnew, hpool, v, hv, hsince⟩ := Desk.pool_register (w := ⟨b, []⟩) hfunded h
      refine ⟨_, v, heffects.holds.answer_roster, hnew, (w.pool_stored b).trans hpool, ?_, hsince⟩
      rw [heffects.holds.answer_validator?, Desk.validators_stored, hv]
  · intro source faults height evidence report hfired done q a hdone hpromoted d hd
    obtain ⟨p, w, -, hfire, -⟩ := Registry.effects_of_fired hb hfired
    have horderly := Desk.orderly_fire (w := ⟨b, []⟩) hfunded p evidence
    rw [hfire] at horderly
    exact hsenior.defers hb hfunded (horderly.ordered hdone hpromoted hd)

/-- Two of equal power wait for one seat. The one that came first has left meanwhile and returned,
so the other is promoted. -/
theorem seniority_breaks_ties_on_return :
    let source : ParameterSource := .always { Parameters.standard with seats := 1 }
    let l : Ledger := .funded .greatest ["alice", "bob", "carol"]
    let steps : List Step :=
      [.enroll source 1 "alice" 0 3000, .enroll source 1 "bob" 1 1000,
        .enroll source 2 "carol" 2 1000,
        ⟨source, {}, .revoke 3 ⟨"bob"⟩⟩,
        .enroll source 4 "bob" 1 1000]
    (steps.filterMap (·.call.height?)).Pairwise (· ≤ ·) ∧
      (Query.roster.answer (of l steps).registry.store).map (fun r => (r.pool, r.seated)) =
        .ok ([⟨"alice"⟩, ⟨"carol"⟩, ⟨"bob"⟩], [⟨"alice"⟩]) ∧
      (Query.roster.answer ((of l steps).registry.call source {}
        (.revoke 5 ⟨"alice"⟩)).2.store).map (fun r => (r.pool, r.seated)) =
          .ok ([⟨"carol"⟩, ⟨"bob"⟩], [⟨"carol"⟩]) ∧
      (of l steps).registry.store.Defers ⟨"bob"⟩ ⟨"carol"⟩ := by
  intro source l steps
  have hheights : (steps.filterMap (·.call.height?)).Pairwise (· ≤ ·) := by decide
  have hbefore : (Query.roster.answer (of l steps).registry.store).map
      (fun r => (r.pool, r.seated)) =
        .ok ([⟨"alice"⟩, ⟨"carol"⟩, ⟨"bob"⟩], [⟨"alice"⟩]) := by decide +kernel
  have hafter : (Query.roster.answer ((of l steps).registry.call source {}
      (.revoke 5 ⟨"alice"⟩)).2.store).map (fun r => (r.pool, r.seated)) =
        .ok ([⟨"carol"⟩, ⟨"bob"⟩], [⟨"carol"⟩]) := by decide +kernel
  refine ⟨hheights, hbefore, hafter, ?_⟩
  obtain ⟨r, hr, -, hcalls, -⟩ := seniority_breaks_ties l steps hheights
  obtain ⟨next, hnext, -, -, hdefers⟩ := hcalls source {} (.revoke 5 ⟨"alice"⟩)
  rw [hr] at hbefore
  rw [hnext] at hafter
  obtain ⟨-, hseated⟩ := Prod.mk.inj (Except.ok.inj hbefore)
  obtain ⟨hpool, hpromoted⟩ := Prod.mk.inj (Except.ok.inj hafter)
  have hbob : ⟨"bob"⟩ ∈ next.waiting := by simp [Roster.mem_waiting, hpool, hpromoted]
  exact hdefers ⟨"carol"⟩ (by simp [hpromoted]) (by simp [hseated]) (by decide) ⟨"bob"⟩ hbob

end Run

end StakedCommittee
