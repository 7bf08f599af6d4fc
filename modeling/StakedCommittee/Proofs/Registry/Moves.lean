import Mathlib.Logic.Relation
import StakedCommittee.Proofs.Registry.Run
import StakedCommittee.Proofs.Roster.Seating

/-! What calls can do to a book. Apart from reports, the effect of every call is a sequence of
moves, each about one validator: it enters the pool, its deposit grows or shrinks, it is penalized
and stays, it leaves, or its blocks are counted. What every move and every report preserves is
therefore true after every run. -/

namespace StakedCommittee

theorem Amount.power_ne_zero_of_le {a c : Amount} (h : a.power ≠ 0) (hle : a ≤ c) :
    c.power ≠ 0 := by
  have ha : a.power.toNat ≠ 0 := fun hz => h (UInt64.toNat_inj.1 hz)
  intro hzero
  have hc : c.power.toNat = 0 := by rw [hzero]; rfl
  rw [Amount.toNat_power, unitsPerCoin] at ha hc
  rw [Amount.le_iff] at hle
  omega

/-- Parameters in force are those of the source, and pass their check. -/
theorem ParameterSource.inForce_eq_ok {source : ParameterSource} {height : Height} {p : Parameters}
    (h : source.inForce height = .ok p) : source height = .ok p ∧ p.check = .ok () := by
  unfold inForce at h
  cases hsource : source height with
  | error reason => simp [hsource] at h
  | ok q =>
    simp only [hsource] at h
    cases hcheck : q.check with
    | error fault =>
      rw [hcheck] at h
      cases h
    | ok u =>
      rw [hcheck] at h
      cases h
      exact ⟨rfl, hcheck⟩

/-- Parameters in force demand a deposit with power. -/
theorem ParameterSource.power_leastDeposit {source : ParameterSource} {height : Height}
    {p : Parameters} (h : source.inForce height = .ok p) : p.leastDeposit.power ≠ 0 := by
  have hcheck := (inForce_eq_ok h).2
  unfold Parameters.check at hcheck
  split at hcheck
  · cases hcheck
  · split at hcheck
    · cases hcheck
    · split at hcheck
      · cases hcheck
      · rename_i hpower
        exact hpower

/-- What one turn of one validator makes of a book. -/
inductive Book.Move (p : Parameters) (b : Book) : Book → Prop
  /-- An account enters the pool, for the first time or after it left. -/
  | enlist (v : Validator)
      (old : ∀ u, b.validators.get? v.owner = some u → u.key = v.key ∧ u.deposit = .zero)
      (holder : ∀ a, b.holders.get? v.key = some a → a = v.owner) (powered : v.power ≠ 0) :
      Move p b (((b.bind v.key v.owner).put v).offerSeat p v.owner).2
  /-- A pool member adds to its deposit. -/
  | raise {v : Validator} (deposit : Amount) (found : b.validators.get? v.owner = some v)
      (member : v.owner ∈ b.roster.pool) (le : v.deposit ≤ deposit) :
      Move p b ((b.put { v with deposit }).offerSeat p v.owner).2
  /-- A deposit shrinks: that of a waiting member, which keeps some power, or of an outsider. -/
  | lower {v : Validator} (deposit : Amount) (found : b.validators.get? v.owner = some v)
      (le : deposit ≤ v.deposit)
      (waiting : v.owner ∈ b.roster.pool → v.owner ∉ b.roster.seated ∧ deposit.power ≠ 0) :
      Move p b (b.put { v with deposit })
  /-- A pool member is penalized and stays. -/
  | penalize {v : Validator} (deposit : Amount) (found : b.validators.get? v.owner = some v)
      (le : deposit ≤ v.deposit) (member : v.owner ∈ b.roster.pool) (powered : deposit.power ≠ 0) :
      Move p b (b.put { v with deposit }).refreshWeakest
  /-- A validator gives up all of its deposit and its place. -/
  | leave {v : Validator} (found : b.validators.get? v.owner = some v) :
      Move p b ((b.put { v with deposit := .zero }).dismissMember p v.owner)
  /-- Blocks are counted for a seated validator. -/
  | count {v : Validator} (absences signatures : UInt64)
      (found : b.validators.get? v.owner = some v) (seated : v.owner ∈ b.roster.seated) :
      Move p b (b.put { v with absences, signatures })

/-- What the changes of seats keep of a roster, every move keeps. -/
theorem Book.Move.roster_eq {p : Parameters} {b after : Book} {β : Type} {f : Roster → β}
    (join : ∀ r owner, f (Roster.join r owner) = f r)
    (refresh : ∀ r power, f (Roster.refresh r power) = f r)
    (seat : ∀ r power seats owner, f (Roster.seat r power seats owner).1 = f r)
    (release : ∀ r power seats owner, f (Roster.release r power seats owner).1 = f r)
    (h : b.Move p after) : f after.roster = f b.roster := by
  cases h with
  | enlist | raise => exact (seat ..).trans (join ..)
  | lower | count => rfl
  | penalize => exact refresh ..
  | leave =>
    unfold dismissMember
    split
    · exact release ..
    · rfl

/-- A sequence of moves. -/
abbrev Book.Moves (p : Parameters) : Book → Book → Prop := Relation.ReflTransGen (Book.Move p)

theorem Book.Moves.preserve {p : Parameters} {b after : Book} {P : Book → Prop}
    (move : ∀ {b after : Book}, P b → b.Move p after → P after) (h : b.Moves p after) (hb : P b) :
    P after := by
  induction h with
  | refl => exact hb
  | tail _ hmove ih => exact move ih hmove

namespace Desk

open Book

variable {w after : Desk} {p : Parameters} {height : Height} {owner : Account} {v : Validator}

theorem move_of_register {key : ConsensusKey} {deposit : Amount} {link : String} {answer : Seating}
    (hp : p.leastDeposit.power ≠ 0)
    (h : w.register p height owner key deposit link = .ok (answer, after)) :
    Move p w.book after.book := by
  obtain ⟨v, happ, hleast, hholder, -, rfl⟩ := register_eq_ok h
  obtain ⟨rfl, rfl, rfl, hold⟩ := applicant_eq_ok happ
  exact .enlist v hold hholder (Amount.power_ne_zero_of_le hp hleast)

theorem move_of_increaseDeposit {amount : Amount} {answer : Seating}
    (h : w.increaseDeposit p owner amount = .ok (answer, after)) :
    Move p w.book after.book := by
  obtain ⟨hmember, v, deposit, hv, hunits, -, rfl⟩ := increaseDeposit_eq_ok h
  obtain rfl := w.book.owner_eq hv
  exact .raise deposit hv hmember (Amount.le_iff.2 (by omega))

theorem move_of_withdraw {amount answer : Amount} (hp : p.leastDeposit.power ≠ 0)
    (h : w.withdraw p owner amount = .ok (answer, after)) : Move p w.book after.book := by
  obtain ⟨v, hv, hwithdraw, rfl⟩ := withdraw_eq_ok h
  obtain rfl := w.book.owner_eq hv
  obtain ⟨hseated, hunits, hleast⟩ := Parameters.withdraw_eq_ok hwithdraw
  by_cases hzero : answer = .zero
  · subst hzero
    exact .leave hv
  · rw [if_neg fun h => hzero (Amount.isZero_iff.1 h)]
    refine .lower _ hv (Amount.le_iff.2 (by omega)) fun _ => ⟨by simpa using hseated, ?_⟩
    exact Amount.power_ne_zero_of_le hp (hleast.resolve_left hzero)

theorem move_of_revoke {answer : Amount} (h : w.revoke p owner = .ok (answer, after)) :
    Move p w.book after.book := by
  obtain ⟨v, hv, -, -, rfl⟩ := revoke_eq_ok h
  obtain rfl := w.book.owner_eq hv
  exact .leave hv

@[simp] theorem book_refund (w : Desk) (owner : Account) (amount : Amount) :
    (w.refund owner amount).book = w.book := by
  unfold refund
  split <;> rfl

theorem book_expel (w : Desk) (p : Parameters) (v : Validator) :
    (w.expel p v).2.book = ((w.book.put { v with deposit := .zero }).dismiss p v.owner).2 := by
  simp [expel, dismiss]

theorem move_of_punish (w : Desk) (p : Parameters) (penalty : Amount) (removal : Removal)
    (hv : w.book.validators.get? v.owner = some v) :
    Move p w.book (w.punish p v penalty removal).2.book := by
  have hle : (v.slash penalty).deposit ≤ v.deposit := by
    rw [Amount.le_iff, Validator.slash, Amount.units_remainder]
    omega
  unfold punish
  by_cases hremoves : w.Removes v penalty removal
  · rw [if_pos hremoves]
    have hleave := Move.leave (p := p) hv
    rw [Book.dismissMember, if_pos (by exact hremoves.1)] at hleave
    show Move p w.book (w.expel p (v.slash penalty)).2.book
    rw [book_expel]
    exact hleave
  · rw [if_neg hremoves]
    by_cases hmember : v.owner ∈ w.book.roster.pool
    · simp only [hmember, ↓reduceIte]
      have hpower : (v.slash penalty).power ≠ 0 := fun hz => hremoves ⟨hmember, .inr hz⟩
      exact .penalize _ hv hle hmember hpower
    · simp only [hmember, ↓reduceIte]
      exact .lower _ hv hle fun h => absurd h hmember

theorem moves_of_countFlags (p : Parameters) (w : Desk) (flags : List SigningFlag) :
    Moves p w.book (w.countFlags flags).2.book :=
  countFlags_induction (P := fun after => Moves p w.book after.book) .refl
    (fun _ _ absences signatures h found seated =>
      h.tail (.count absences signatures found seated)) flags

theorem moves_of_fire (p : Parameters) (w : Desk) (evidence : List Evidence) :
    Moves p w.book (w.fire p evidence).2.book :=
  fire_induction (P := fun x => Moves p w.book x.2.book) (fun _ _ h => h)
    (fun x _ penalty h hv => h.tail (x.2.move_of_punish p penalty .always hv)) .refl evidence

end Desk

/-- The height whose parameters a call goes by. -/
def Call.height? : Call → Option Height
  | .genesis | .countFlags _ | .report => none
  | .register height .. | .increaseDeposit height .. | .withdraw height .. | .revoke height ..
  | .punish height .. | .fire height _ => some height

/-- `p` are the parameters that a call goes by; any will do for a call that goes by none. -/
def Call.GoesBy (source : ParameterSource) (p : Parameters) (c : Call) : Prop :=
  ∀ height, c.height? = some height → source.inForce height = .ok p

theorem ParameterSource.whenInForce_eq {β : Type} {source : ParameterSource} {height : Height}
    {p : Parameters} {f : Parameters → Except RegistryError β}
    (hp : source.inForce height = .ok p) : source.whenInForce height f = f p := by
  rw [whenInForce, hp]

theorem ParameterSource.whenInForce_eq_error {β : Type} {source : ParameterSource} {height : Height}
    {f : Parameters → Except RegistryError β} {e : RegistryError}
    (h : source.whenInForce height f = .error e) :
    (∃ fault, source.inForce height = .error fault ∧ e = .parameters fault) ∨
      ∃ p, source.inForce height = .ok p ∧ f p = .error e := by
  unfold whenInForce at h
  cases hp : source.inForce height with
  | error fault =>
    rw [hp] at h
    exact .inl ⟨fault, rfl, (Except.error.inj h).symm⟩
  | ok p =>
    rw [hp] at h
    exact .inr ⟨p, rfl, h⟩

/-- A call with an effect found parameters to go by. -/
theorem Call.exists_goesBy {source : ParameterSource} {c : Call} {w : Desk}
    {found : c.Answer × Desk} (h : c.effect source w = .ok found) : ∃ p, c.GoesBy source p := by
  have hsome (height : Height) {β : Type} {f : Parameters → Except RegistryError β} {x : β}
      (h : source.whenInForce height f = .ok x) : ∃ p, source.inForce height = .ok p := by
    unfold ParameterSource.whenInForce at h
    cases hp : source.inForce height with
    | error fault => simp [hp] at h
    | ok p => exact ⟨p, rfl⟩
  unfold GoesBy
  cases hheight : c.height? with
  | none => exact ⟨.standard, fun _ h => by cases h⟩
  | some height =>
    suffices ∃ p, source.inForce height = .ok p by
      obtain ⟨p, hp⟩ := this
      exact ⟨p, fun _ h => by cases h; exact hp⟩
    cases c <;> cases hheight <;> exact hsome _ h

/-- What a call with these parameters does on a desk when it succeeds. -/
inductive Call.Acts (p : Parameters) (w : Desk) : (c : Call) → c.Answer → Desk → Prop
  | genesis : Acts p w .genesis false w
  | register {height : Height} {owner : Account} {key : ConsensusKey} {deposit : Amount}
      {link : String} {answer : Seating} {after : Desk}
      (h : w.register p height owner key deposit link = .ok (answer, after)) :
      Acts p w (.register height owner key deposit link) answer after
  | increaseDeposit {height : Height} {owner : Account} {amount : Amount} {answer : Seating}
      {after : Desk} (some : amount.isZero = false)
      (h : w.increaseDeposit p owner amount = .ok (answer, after)) :
      Acts p w (.increaseDeposit height owner amount) answer after
  | withdraw {height : Height} {owner : Account} {amount answer : Amount} {after : Desk}
      (h : w.withdraw p owner amount = .ok (answer, after)) :
      Acts p w (.withdraw height owner amount) answer after
  | revoke {height : Height} {owner : Account} {answer : Amount} {after : Desk}
      (h : w.revoke p owner = .ok (answer, after)) : Acts p w (.revoke height owner) answer after
  | punish {height : Height} {penalty : Amount} {removal : Removal} {v : Validator}
      (found : w.book.validators.get? v.owner = some v) :
      Acts p w (.punish height v.owner penalty removal) (w.punish p v penalty removal).1
        (w.punish p v penalty removal).2
  | countFlags {flags : List SigningFlag} :
      Acts p w (.countFlags flags) (w.countFlags flags).1 (w.countFlags flags).2
  | fire {height : Height} {evidence : List Evidence} :
      Acts p w (.fire height evidence) (w.fire p evidence).1 (w.fire p evidence).2
  | report : Acts p w .report w.report.1 w.report.2

theorem Call.acts_of_effect {source : ParameterSource} {p : Parameters} {c : Call} {w after : Desk}
    {a : c.Answer} (hp : c.GoesBy source p) (h : c.effect source w = .ok (a, after)) :
    c.Acts p w a after := by
  cases c with
  | genesis =>
    cases h
    exact .genesis
  | register height owner key deposit link =>
    rw [effect, ParameterSource.whenInForce_eq (hp height rfl)] at h
    exact .register h
  | increaseDeposit height owner amount =>
    rw [effect, ParameterSource.whenInForce_eq (hp height rfl)] at h
    split at h
    · cases h
    · rename_i hsome
      exact .increaseDeposit (Bool.eq_false_iff.2 hsome) h
  | withdraw height owner amount =>
    rw [effect, ParameterSource.whenInForce_eq (hp height rfl)] at h
    exact .withdraw h
  | revoke height owner =>
    rw [effect, ParameterSource.whenInForce_eq (hp height rfl)] at h
    exact .revoke h
  | punish height owner penalty removal =>
    rw [effect, ParameterSource.whenInForce_eq (hp height rfl)] at h
    cases hv : w.book.validators.get? owner with
    | none => simp [hv] at h
    | some v =>
      obtain rfl := w.book.owner_eq hv
      simp only [hv] at h
      obtain ⟨rfl, rfl⟩ := Prod.mk.inj (Except.ok.inj h)
      exact .punish hv
  | countFlags flags =>
    obtain ⟨rfl, rfl⟩ := Prod.mk.inj (Except.ok.inj h)
    exact .countFlags
  | fire height evidence =>
    rw [effect, ParameterSource.whenInForce_eq (hp height rfl)] at h
    obtain ⟨rfl, rfl⟩ := Prod.mk.inj (Except.ok.inj h)
    exact .fire
  | report =>
    obtain ⟨rfl, rfl⟩ := Prod.mk.inj (Except.ok.inj h)
    exact .report

/-- Calls other than reports make moves. -/
theorem Call.moves_of_effect {source : ParameterSource} {p : Parameters} {c : Call} {b : Book}
    {a : c.Answer} {w : Desk} (hc : c ≠ .report) (hp : c.GoesBy source p)
    (h : c.effect source ⟨b, []⟩ = .ok (a, w)) : b.Moves p w.book := by
  cases acts_of_effect hp h with
  | genesis => exact .refl
  | register h =>
    exact .single (Desk.move_of_register (ParameterSource.power_leastDeposit (hp _ rfl)) h)
  | increaseDeposit _ h => exact .single (Desk.move_of_increaseDeposit h)
  | withdraw h =>
    exact .single (Desk.move_of_withdraw (ParameterSource.power_leastDeposit (hp _ rfl)) h)
  | revoke h => exact .single (Desk.move_of_revoke h)
  | punish found => exact .single (Desk.move_of_punish ⟨b, []⟩ p _ _ found)
  | countFlags => exact Desk.moves_of_countFlags p ⟨b, []⟩ _
  | fire => exact Desk.moves_of_fire p ⟨b, []⟩ _
  | report => exact absurd rfl hc

/-- What moves and reports preserve, every call preserves. -/
theorem Call.preserve_effect {source : ParameterSource} {p : Parameters} {c : Call} {b : Book}
    {a : c.Answer} {w : Desk} {P : Book → Prop} (hp : c.GoesBy source p)
    (h : c.effect source ⟨b, []⟩ = .ok (a, w))
    (move : ∀ {b after : Book}, P b → b.Move p after → P after)
    (report : ∀ b : Book, P b → P (b.setRoster b.roster.markReported)) (hb : P b) : P w.book := by
  by_cases hc : c = .report
  · subst hc
    cases h
    exact report b hb
  · exact (moves_of_effect hc hp h).preserve move hb

/-- What the first book has is true after every run if every move and every report preserves it
and it does not depend on the version of the roster. -/
theorem Run.moves_induction {P : Book → Prop} (start : P .opening)
    (version : ∀ (b : Book) (n : UInt64), P b → P (b.setRoster { b.roster with version := n }))
    (move : ∀ {p b after}, P b → b.Move p after → P after)
    (report : ∀ b : Book, P b → P (b.setRoster b.roster.markReported)) (l : Ledger)
    (steps : List Step) : ∃ b, (of l steps).registry.store.Holds b ∧ P b := by
  refine book_induction start (fun source c b a w hb h => ?_) l steps
  obtain ⟨p, hp⟩ := Call.exists_goesBy h
  have hw : P w.book := Call.preserve_effect hp h (fun h => move h) report hb
  exact Desk.preserved_stored b hw fun n => version _ n hw

end StakedCommittee
