import StakedCommittee.Proofs.Registry.Firing
import StakedCommittee.Proofs.Registry.Precedence

/-! Free seats. Whoever leaves a seat is replaced by one waiting member, if there is room and
anybody waits, so an operation that removes members fills the seats it frees, however many they are
and whatever the limit was before. It fills no others: seats that a raised limit has added stay free
until a registration or a larger deposit takes them. While the limit stays, no seat is free and
waited for in the first place. -/

namespace StakedCommittee

namespace Book

variable {b : Book} {p : Parameters} {v : Validator}

/-- The deposit of the one who leaves does not matter. -/
theorem refilled_dismiss (h : b.Funded) :
    b.roster.Refilled p.seats ((b.put v).dismiss p v.owner).2.roster := by
  rw [roster_dismiss (b := b.put v) h.pool_of_seated]
  refine Roster.Refilled.release h.nodup_seated h.nodup_pool fun c hc hne => ?_
  rw [power_put, if_neg hne.symm]
  exact h.power_ne_zero hc

theorem refilled_dismissMember (h : b.Funded) :
    b.roster.Refilled p.seats ((b.put v).dismissMember p v.owner).roster := by
  unfold dismissMember
  split
  · exact refilled_dismiss h
  · exact .refl _

end Book

namespace Desk

open Book

variable {w after : Desk} {p : Parameters} {owner : Account} {v : Validator}

theorem refilled_revoke {answer : Amount} (hw : w.book.Funded)
    (h : w.revoke p owner = .ok (answer, after)) :
    w.book.roster.Refilled p.seats after.book.roster := by
  obtain ⟨v, hv, -, -, rfl⟩ := revoke_eq_ok h
  obtain rfl := w.book.owner_eq hv
  exact refilled_dismissMember (v := { v with deposit := .zero }) hw

theorem refilled_punish (hw : w.book.Funded) (penalty : Amount) (removal : Removal) :
    w.book.roster.Refilled p.seats (w.punish p v penalty removal).2.book.roster := by
  unfold punish
  split
  · show Roster.Refilled _ _ (w.expel p (v.slash penalty)).2.book.roster
    rw [book_expel]
    exact refilled_dismiss (v := { v.slash penalty with deposit := .zero }) hw
  · dsimp only
    split
    · exact .of_eq (Roster.seated_refresh ..) (Roster.pool_refresh ..)
    · exact .refl _

theorem refilled_fire (hw : w.book.Funded) (evidence : List Evidence) :
    w.book.roster.Refilled p.seats (w.fire p evidence).2.book.roster := by
  have hfire := fire_induction (w := w) (p := p)
    (P := fun x => x.2.book.Funded ∧ w.book.roster.Refilled p.seats x.2.book.roster)
    (fun _ _ h => h)
    (fun x v penalty h hv => ⟨h.1.move (x.2.move_of_punish p penalty .always hv),
      h.2.trans (refilled_punish h.1 penalty .always)⟩)
    ⟨hw, .refl _⟩ evidence
  exact hfire.2

end Desk

/-- Calls that can take a seat away from its member for good. -/
def Call.Removes : Call → Prop
  | .revoke .. | .punish .. | .fire .. => True
  | _ => False

theorem Call.Removes.exists_height {c : Call} (h : c.Removes) :
    ∃ height, c.height? = some height := by
  cases c with
  | revoke height | punish height | fire height => exact ⟨height, rfl⟩
  | genesis | register | increaseDeposit | withdraw | countFlags | report => exact h.elim

/-- A call that removes members fills their seats. -/
theorem Call.refilled_effect {source : ParameterSource} {p : Parameters} {c : Call} {b : Book}
    {a : c.Answer} {w : Desk} (hc : c.Removes) (hp : c.GoesBy source p) (hb : b.Funded)
    (h : c.effect source ⟨b, []⟩ = .ok (a, w)) :
    b.roster.Refilled p.seats w.book.roster := by
  cases acts_of_effect hp h with
  | revoke h => exact Desk.refilled_revoke hb h
  | punish found => exact Desk.refilled_punish (w := ⟨b, []⟩) hb _ _
  | fire => exact Desk.refilled_fire (w := ⟨b, []⟩) hb _
  | genesis | register | increaseDeposit | withdraw | countFlags | report => exact hc.elim

namespace Run

/-- After a revocation, a penalty or a firing, every seat that it freed is taken again as far as the
limit and the pool allow: the committee is no smaller than before, or has all seats, or has the
whole pool. So it has as many members as the limit and the pool allow exactly if there were that
many before, and in particular if no seat was free and waited for. -/
theorem vacancies_refilled (l : Ledger) (steps : List Step) (source : ParameterSource)
    (faults : Faults) (c : Call) (a : c.Answer) (hc : c.Removes)
    (h : ((of l steps).registry.call source faults c).1 = .ok a) :
    let before := (of l steps).registry
    let after := (before.call source faults c).2
    ∃ (height : Height) (p : Parameters) (r next : Roster),
      c.height? = some height ∧ source height = .ok p ∧
      Query.roster.answer before.store = .ok r ∧ Query.roster.answer after.store = .ok next ∧
      min r.seated.length (min p.seats next.pool.length) ≤ next.seated.length ∧
      next.seated.length ≤ r.seated.length ∧
      (min p.seats next.pool.length ≤ next.seated.length ↔
        min p.seats next.pool.length ≤ r.seated.length) ∧
      (min p.seats r.pool.length ≤ r.seated.length →
        min p.seats next.pool.length ≤ next.seated.length) := by
  intro before after
  obtain ⟨b, hb, hfunded⟩ := holds_funded l steps
  obtain ⟨w, heffect, heffects⟩ := Registry.call_of_ok hb h
  obtain ⟨p, hp⟩ := Call.exists_goesBy heffect
  have hrefilled := Call.refilled_effect hc hp hfunded heffect
  obtain ⟨height, hheight⟩ := hc.exists_height
  have hsource := (ParameterSource.inForce_eq_ok (hp height hheight)).1
  have hfull := hrefilled.full_iff
  have hpool := hrefilled.pool_le
  refine ⟨height, p, b.roster, _, hheight, hsource, hb.answer_roster,
    heffects.holds.answer_roster, ?_⟩
  rw [Desk.seated_stored, Desk.pool_stored]
  refine ⟨hrefilled.refilled, hrefilled.seated_le, hfull, fun hbefore => hfull.2 ?_⟩
  omega

/-- The whole committee is fired at once, after the limit was raised. Two waiting members take
over. -/
theorem vacancies_refilled_after_two_firings :
    let source : ParameterSource := fun height =>
      .ok { Parameters.standard with seats := if height < 2 then 2 else 21 }
    let keyA : ConsensusKey := .ofByte 0
    let keyB : ConsensusKey := .ofByte 1
    let l : Ledger := .funded .greatest ["alice", "bob", "carol", "dave"]
    let steps : List Step :=
      [.enroll source 1 "alice" 0 4000, .enroll source 1 "bob" 1 3000,
        .enroll source 1 "carol" 2 2000, .enroll source 1 "dave" 3 1000]
    let evidence : List Evidence := [⟨keyA, 1, .duplicateVote⟩, ⟨keyB, 1, .lightClientAttack⟩]
    (Call.fire 2 evidence).Removes ∧
      ((of l steps).registry.call source {} (.fire 2 evidence)).1 = .ok
        ⟨[⟨⟨"alice"⟩, .ofCoins 1000, .zero, .ofCoins 3000, true, some ⟨"carol"⟩⟩,
          ⟨⟨"bob"⟩, .ofCoins 1000, .zero, .ofCoins 2000, true, some ⟨"dave"⟩⟩], []⟩ ∧
      ∃ p r next, source 2 = .ok p ∧
        Query.roster.answer (of l steps).registry.store = .ok r ∧
        Query.roster.answer ((of l steps).registry.call source {} (.fire 2 evidence)).2.store =
          .ok next ∧
        min r.seated.length (min p.seats next.pool.length) ≤ next.seated.length := by
  intro source keyA keyB l steps evidence
  have hremoves : (Call.fire 2 evidence).Removes := trivial
  have hfired : ((of l steps).registry.call source {} (.fire 2 evidence)).1 = .ok
      ⟨[⟨⟨"alice"⟩, .ofCoins 1000, .zero, .ofCoins 3000, true, some ⟨"carol"⟩⟩,
        ⟨⟨"bob"⟩, .ofCoins 1000, .zero, .ofCoins 2000, true, some ⟨"dave"⟩⟩], []⟩ := by
    decide +kernel
  obtain ⟨height, p, r, next, hheight, hp, hr, hnext, hrefilled, -⟩ :=
    vacancies_refilled l steps source {} (.fire 2 evidence) _ hremoves hfired
  obtain rfl : 2 = height := Option.some.inj hheight
  exact ⟨hremoves, hfired, p, r, next, hp, hr, hnext, hrefilled⟩

/-- The limit is raised from one seat to three while two wait. The only member leaves, and one of
the two takes its seat; the other goes on waiting beside two free seats. -/
theorem raised_limit_leaves_seats_free :
    let source : ParameterSource := fun height =>
      .ok { Parameters.standard with seats := if height < 2 then 1 else 3 }
    let l : Ledger := .funded .greatest ["alice", "bob", "carol"]
    let steps : List Step :=
      [.enroll source 1 "alice" 0 3000, .enroll source 1 "bob" 1 2000,
        .enroll source 1 "carol" 2 1000]
    let before := (of l steps).registry
    let revoked := before.call source {} (.revoke 2 ⟨"alice"⟩)
    revoked.1 = .ok (.ofCoins 3000) ∧
      ∃ p r next, source 2 = .ok p ∧ Query.roster.answer before.store = .ok r ∧
        Query.roster.answer revoked.2.store = .ok next ∧ ⟨"alice"⟩ ∈ r.seated ∧
        ⟨"alice"⟩ ∉ next.pool ∧ ¬ min p.seats next.pool.length ≤ next.seated.length := by
  intro source l steps before revoked
  refine ⟨?_, _, ⟨4, [⟨"alice"⟩], [⟨"alice"⟩, ⟨"bob"⟩, ⟨"carol"⟩], [], 3000, some ⟨"alice"⟩⟩,
    ⟨5, [⟨"bob"⟩], [⟨"bob"⟩, ⟨"carol"⟩], [], 2000, some ⟨"bob"⟩⟩, rfl, ?_, ?_, ?_, ?_, ?_⟩
  all_goals decide +kernel

/-! ### One limit -/

theorem holds_filled (l : Ledger) (steps : List Step) (seats : Nat)
    (hseats : ∀ s ∈ steps, ∀ n, s.seats? = some n → n = seats) :
    ∃ b, (of l steps).registry.store.Holds b ∧ b.Funded ∧ b.roster.Filled seats := by
  have start : Book.opening.Funded ∧ Book.opening.roster.Filled seats :=
    ⟨Book.funded_opening, (Nat.min_zero _).symm⟩
  refine induction (P := fun _ b => b.Funded ∧ b.roster.Filled seats) l steps start
    (fun _ _ _ _ _ h _ => h) ?_
  intro r b s a w hs hb _ heffect _
  obtain ⟨p, hp, rfl⟩ := s.exists_goesBy heffect (hseats s hs)
  have hw : w.book.Funded ∧ w.book.roster.Filled p.seats := by
    apply Call.preserve_effect (P := fun b => b.Funded ∧ b.roster.Filled p.seats) hp heffect
    · intro b after h hmove
      exact ⟨h.1.move hmove, Book.filled_move h.1 hmove h.2⟩
    · intro b h
      exact ⟨h.1.setRoster rfl rfl, h.2⟩
    · exact hb
  exact Desk.preserved_stored (P := fun b => b.Funded ∧ b.roster.Filled p.seats) b hw
    fun _ => ⟨hw.1.setRoster rfl rfl, hw.2⟩

/-- In a run with one number of seats no seat is free while anybody waits: all seats are taken, or
the whole pool is seated. -/
theorem committee_fills_seats (l : Ledger) (steps : List Step) (seats : Nat)
    (hseats : ∀ s ∈ steps, ∀ n, s.seats? = some n → n = seats) :
    ∃ r, Query.roster.answer (of l steps).registry.store = .ok r ∧
      r.seated.length = min seats r.pool.length := by
  obtain ⟨b, hb, -, hfilled⟩ := holds_filled l steps seats hseats
  exact ⟨b.roster, hb.answer_roster, hfilled⟩

/-- Of three the two strongest take two seats; one is penalized in its seat, and when the other
leaves, the one that waited takes over. -/
theorem committee_fills_seats_after_revocation :
    let source : ParameterSource := fun height =>
      .ok { Parameters.standard with seats := 2, absenceLimit := height }
    let l : Ledger := .funded .greatest ["alice", "bob", "carol"]
    let steps : List Step :=
      [.enroll source 1 "alice" 0 1000, .enroll source 1 "bob" 1 2000,
        .enroll source 2 "carol" 2 3000,
        ⟨source, {}, .punish 3 ⟨"carol"⟩ (.ofCoins 2500) .ifPowerless⟩,
        ⟨source, {}, .revoke 4 ⟨"bob"⟩⟩]
    let store := (of l steps).registry.store
    (∀ s ∈ steps, ∀ n, s.seats? = some n → n = 2) ∧
      (Query.roster.answer store).map (fun r => (r.pool, r.seated)) =
        .ok ([⟨"alice"⟩, ⟨"carol"⟩], [⟨"carol"⟩, ⟨"alice"⟩]) ∧
      ∃ r, Query.roster.answer store = .ok r ∧ r.seated.length = min 2 r.pool.length := by
  intro source l steps store
  have hseats : ∀ s ∈ steps, ∀ n, s.seats? = some n → n = 2 := by
    simp [steps, source, Step.enroll, Step.seats?, Call.height?, Except.toOption]
  exact ⟨hseats, by decide +kernel, committee_fills_seats l steps 2 hseats⟩

end Run

end StakedCommittee
