import StakedCommittee.Registry.Discipline
import StakedCommittee.Proofs.Registry.Membership

/-! Penalties, signing flags and firing, each said on a desk. Punishing a validator on record,
counting flags and firing cannot fail there: what fails in them are reads of the store, and the
moves of coins that follow. -/

namespace StakedCommittee

/-- Finds the weakest seated member anew, from the present powers. -/
def Book.refreshWeakest (b : Book) : Book :=
  b.setRoster (b.roster.refresh (b.powerAmong b.roster.seated))

namespace Desk

def refreshWeakest (w : Desk) : Desk := w.setBook w.book.refreshWeakest

/-- Stages a payment, unless there is nothing to pay. -/
def refund (w : Desk) (owner : Account) (amount : Amount) : Desk :=
  if amount.isZero then w else w.transfer (.credit owner amount)

/-- Takes a pool member out and pays its deposit back. Answers who got the seat. -/
def expel (w : Desk) (p : Parameters) (v : Validator) : Option Account × Desk :=
  let found := ((w.put { v with deposit := .zero }).refund v.owner v.deposit).dismiss p v.owner
  (found.1.promoted, found.2)

/-- Whether a penalty costs a validator its place. -/
def Removes (w : Desk) (v : Validator) (penalty : Amount) (removal : Removal) : Prop :=
  v.owner ∈ w.book.roster.pool ∧ (removal = .always ∨ (v.slash penalty).power = 0)

instance (w : Desk) (v : Validator) (penalty : Amount) (removal : Removal) :
    Decidable (w.Removes v penalty removal) :=
  inferInstanceAs (Decidable (_ ∧ (removal = .always ∨ (v.slash penalty).power = 0)))

/-- Punishes a validator that is on record. -/
def punish (w : Desk) (p : Parameters) (v : Validator) (penalty : Amount) (removal : Removal) :
    Punishment × Desk :=
  let slashed := v.slash penalty
  if w.Removes v penalty removal then
    let found := w.expel p slashed
    (⟨v.owner, v.forfeit penalty, .zero, slashed.deposit, true, found.1⟩, found.2)
  else
    let kept := w.put slashed
    (⟨v.owner, v.forfeit penalty, slashed.deposit, .zero, false, none⟩,
      if v.owner ∈ w.book.roster.pool then kept.refreshWeakest else kept)

/-- The validator on record that a consensus key belongs to. -/
def keyholder? (w : Desk) (key : ConsensusKey) : Option Validator :=
  (w.book.holders.get? key).bind w.book.validators.get?

/-- Counts one signing flag, if its key belongs to a seated validator. -/
def countFlag (x : SigningReport × Desk) (flag : SigningFlag) : SigningReport × Desk :=
  match x.2.keyholder? flag.key with
  | none => (x.1.addUnknown flag.key, x.2)
  | some v =>
    if v.owner ∉ x.2.book.roster.seated then (x.1.addUnknown flag.key, x.2)
    else if flag.signed then
      ({ x.1 with signed := x.1.signed + 1 }, x.2.put v.countSignature)
    else ({ x.1 with absent := x.1.absent + 1 }, x.2.put v.countAbsence)

def countFlags (w : Desk) (flags : List SigningFlag) : SigningReport × Desk :=
  flags.foldl countFlag ({}, w)

/-- Removes a validator at a penalty and reports it. -/
def fireOne (p : Parameters) (x : FiringReport × Desk) (v : Validator) (penalty : Amount) :
    FiringReport × Desk :=
  let found := x.2.punish p v penalty .always
  (x.1.add found.1, found.2)

/-- Fires the owner of a key in evidence, unless that was done before. -/
def hearEvidence (p : Parameters) (x : FiringReport × Desk) (e : Evidence) : FiringReport × Desk :=
  match x.2.keyholder? e.key with
  | none => (x.1.addUnknown e.key, x.2)
  | some v => if v.owner ∈ x.1.fired then x else fireOne p x v p.byzantinePenalty

/-- Fires a member that missed too many blocks, unless it was fired before. -/
def checkAbsences (p : Parameters) (x : FiringReport × Desk) (owner : Account) :
    FiringReport × Desk :=
  match x.2.book.validators.get? owner with
  | none => x
  | some v =>
    if owner ∈ x.1.fired ∨ v.absences ≤ p.absenceLimit then x
    else fireOne p x v p.absencePenalty

def fire (w : Desk) (p : Parameters) (evidence : List Evidence) : FiringReport × Desk :=
  let heard := evidence.foldl (hearEvidence p) ({}, w)
  heard.2.book.roster.seated.foldl (checkAbsences p) heard

/-! ### What the loops preserve -/

section Loops
variable {w : Desk} {p : Parameters} {v : Validator}

theorem get?_of_keyholder? {key : ConsensusKey} (h : w.keyholder? key = some v) :
    w.book.validators.get? v.owner = some v := by
  obtain ⟨owner, -, hv⟩ := Option.bind_eq_some_iff.1 h
  rw [w.book.owner_eq hv]
  exact hv

/-- Counting flags enters seated validators with new counts, and does nothing else. -/
theorem countFlags_induction {P : Desk → Prop} (start : P w)
    (count : ∀ (w : Desk) (v : Validator) (absences signatures : UInt64), P w →
      w.book.validators.get? v.owner = some v → v.owner ∈ w.book.roster.seated →
      P (w.put { v with absences, signatures })) (flags : List SigningFlag) :
    P (w.countFlags flags).2 := by
  refine List.foldlRecOn (motive := fun x : SigningReport × Desk => P x.2) flags countFlag start
    fun x hx flag _ => ?_
  unfold countFlag
  cases hv : x.2.keyholder? flag.key with
  | none => exact hx
  | some v =>
    have hfound := get?_of_keyholder? hv
    dsimp only
    split
    · exact hx
    · rename_i hseated
      have hseated := Decidable.not_not.1 hseated
      split
      · exact count x.2 v _ _ hx hfound hseated
      · exact count x.2 v _ _ hx hfound hseated

/-- What hearing one piece of evidence comes to, and when. -/
inductive HearCase (p : Parameters) (x : FiringReport × Desk) (e : Evidence) :
    FiringReport × Desk → Prop
  | unknown (holder : x.2.keyholder? e.key = none) :
      HearCase p x e (x.1.addUnknown e.key, x.2)
  | again {v : Validator} (holder : x.2.keyholder? e.key = some v) (old : v.owner ∈ x.1.fired) :
      HearCase p x e x
  | fires {v : Validator} (holder : x.2.keyholder? e.key = some v) (new : v.owner ∉ x.1.fired) :
      HearCase p x e (fireOne p x v p.byzantinePenalty)

theorem hear_case (p : Parameters) (x : FiringReport × Desk) (e : Evidence) :
    HearCase p x e (hearEvidence p x e) := by
  unfold hearEvidence
  cases hv : x.2.keyholder? e.key with
  | none => exact .unknown hv
  | some v =>
    dsimp only
    split
    · exact .again hv ‹_›
    · exact .fires hv ‹_›

/-- What checking the absences of one account comes to, and when. -/
inductive CheckCase (p : Parameters) (x : FiringReport × Desk) :
    Account → FiringReport × Desk → Prop
  | unknown {owner : Account} (found : x.2.book.validators.get? owner = none) :
      CheckCase p x owner x
  | spared {v : Validator} (found : x.2.book.validators.get? v.owner = some v)
      (spared : v.owner ∈ x.1.fired ∨ v.absences ≤ p.absenceLimit) : CheckCase p x v.owner x
  | fires {v : Validator} (found : x.2.book.validators.get? v.owner = some v)
      (new : v.owner ∉ x.1.fired) (exceeds : p.absenceLimit < v.absences) :
      CheckCase p x v.owner (fireOne p x v p.absencePenalty)

theorem check_case (p : Parameters) (x : FiringReport × Desk) (owner : Account) :
    CheckCase p x owner (checkAbsences p x owner) := by
  unfold checkAbsences
  cases hv : x.2.book.validators.get? owner with
  | none => exact .unknown hv
  | some v =>
    obtain rfl := x.2.book.owner_eq hv
    dsimp only
    split
    · exact .spared hv ‹_›
    · rename_i hfires
      obtain ⟨hnew, hover⟩ := not_or.1 hfires
      exact .fires hv hnew (UInt64.not_le.1 hover)

variable {P : FiringReport × Desk → Prop}
  (unknown : ∀ (x : FiringReport × Desk) (key : ConsensusKey), P x → P (x.1.addUnknown key, x.2))
  (fired : ∀ (x : FiringReport × Desk) (v : Validator) (penalty : Amount), P x →
    x.2.book.validators.get? v.owner = some v → P (fireOne p x v penalty))

include fired in
theorem preserved_checkAbsences {x : FiringReport × Desk} (hx : P x) (owner : Account) :
    P (checkAbsences p x owner) := by
  have hcase := check_case p x owner
  generalize checkAbsences p x owner = y at hcase
  cases hcase with
  | unknown | spared => exact hx
  | fires found => exact fired x _ _ hx found

include unknown fired

theorem preserved_hearEvidence {x : FiringReport × Desk} (hx : P x) (e : Evidence) :
    P (hearEvidence p x e) := by
  have hcase := hear_case p x e
  generalize hearEvidence p x e = y at hcase
  cases hcase with
  | unknown => exact unknown x e.key hx
  | again => exact hx
  | fires holder => exact fired x _ _ hx (get?_of_keyholder? holder)

theorem preserved_heard {x : FiringReport × Desk} (hx : P x) (evidence : List Evidence) :
    P (evidence.foldl (hearEvidence p) x) :=
  List.foldlRecOn evidence _ hx fun _ hy e _ => preserved_hearEvidence unknown fired hy e

/-- Firing reports unknown keys and removes validators on record, and does nothing else. -/
theorem fire_induction (start : P ({}, w)) (evidence : List Evidence) : P (w.fire p evidence) :=
  List.foldlRecOn _ _ (preserved_heard unknown fired start evidence)
    fun _ hx owner _ => preserved_checkAbsences fired hx owner

end Loops

end Desk

namespace Staging

variable {s : Store} {b : Book} {w : Desk} (hs : s.Holds b)
include hs

theorem yields_refreshWeakest (w : Desk) :
    Yields s b refreshWeakest w (.ok ((), w.refreshWeakest)) := by
  refine yields_get fun d hd => ?_
  rw [hd.roster]
  refine (yields_powers hs _ _).bind (yields_modify fun d hd => ?_)
  rw [hd.roster, Book.power_powerTable]
  exact hd.setRoster _

theorem yields_expel (p : Parameters) {v : Validator} {a : Account} (ha : v.owner = a) (w : Desk) :
    Yields s b (expel p a v) w (.ok (w.expel p v)) := by
  subst ha
  refine (yields_put (v := { v with deposit := .zero }) rfl w).bind ?_
  rw [Desk.expel, Desk.refund]
  cases v.deposit.isZero with
  | true => exact (yields_dismiss hs p _ _).bind (yields_pure _ _)
  | false =>
    refine (yields_transfer _ _).bind ?_
    exact (yields_dismiss hs p _ _).bind (yields_pure _ _)

theorem yields_punish (p : Parameters) {owner : Account} {v : Validator} (penalty : Amount)
    (removal : Removal) (hv : w.book.validators.get? owner = some v) :
    Yields s b (punish p owner penalty removal) w (.ok (w.punish p v penalty removal)) := by
  obtain rfl := w.book.owner_eq hv
  refine yields_get fun d hd => (yields_reopen hs hv).bind ?_
  rw [hd.roster, Desk.punish]
  by_cases hremoves : w.Removes v penalty removal
  · have htest : (decide (v.owner ∈ w.book.roster.pool) &&
        (removal = .always || (v.slash penalty).power = 0)) = true := by
      simpa [Desk.Removes] using hremoves
    simp only [htest, hremoves, ↓reduceIte]
    exact (yields_expel hs p rfl w).bind (yields_pure _ _)
  · have htest : (decide (v.owner ∈ w.book.roster.pool) &&
        (removal = .always || (v.slash penalty).power = 0)) = false := by
      simpa [Desk.Removes] using hremoves
    simp only [htest, hremoves, ↓reduceIte, Bool.false_eq_true]
    refine (yields_replace (u := v.slash penalty) hv rfl).bind ?_
    by_cases hpool : v.owner ∈ w.book.roster.pool
    · simp only [hpool, decide_true, ↓reduceIte]
      exact (yields_refreshWeakest hs _).bind (yields_pure _ _)
    · simp only [hpool, decide_false, ↓reduceIte, Bool.false_eq_true]
      exact yields_pure _ _

theorem yields_punish_error (p : Parameters) {owner : Account} (penalty : Amount)
    (removal : Removal) (hv : w.book.validators.get? owner = none) :
    Yields s b (punish p owner penalty removal) w (.error (.notFound owner)) :=
  yields_get fun _ _ => (yields_reopen_error hs hv).bind_error

theorem yields_countFlag (x : SigningReport) (flag : SigningFlag) (w : Desk) :
    Yields s b (countFlag x flag) w (.ok (Desk.countFlag (x, w) flag)) := by
  refine (yields_holder? hs flag.key w).bind ?_
  unfold Desk.countFlag Desk.keyholder?
  cases hk : w.book.holders.get? flag.key with
  | none => exact yields_pure _ w
  | some owner =>
    refine yields_get fun d hd => ?_
    rw [hd.roster]
    dsimp only [Option.bind_some]
    have hopen := yields_reopen? hs owner w
    cases hv : w.book.validators.get? owner with
    | none =>
      rw [hv] at hopen
      split
      · exact yields_pure _ w
      · exact hopen.bind (yields_pure _ w)
    | some v =>
      rw [hv] at hopen
      obtain rfl := w.book.owner_eq hv
      dsimp only
      split
      · exact yields_pure _ w
      · refine hopen.bind ?_
        dsimp only
        split
        · exact (yields_replace (u := v.countSignature) hv rfl).bind (yields_pure _ _)
        · exact (yields_replace (u := v.countAbsence) hv rfl).bind (yields_pure _ _)

theorem yields_countFlags (flags : List SigningFlag) (w : Desk) :
    Yields s b (countFlags flags) w (.ok (w.countFlags flags)) :=
  yields_foldlM (fun x flag w _ => yields_countFlag hs x flag w) {} w

theorem yields_fireOne (p : Parameters) (x : FiringReport) {v : Validator} (penalty : Amount)
    (hv : w.book.validators.get? v.owner = some v) :
    Yields s b (do return x.add (← punish p v.owner penalty .always)) w
      (.ok (Desk.fireOne p (x, w) v penalty)) :=
  (yields_punish hs p penalty .always hv).bind (yields_pure _ _)

theorem yields_hearEvidence (p : Parameters) (x : FiringReport) (e : Evidence) (w : Desk) :
    Yields s b (hearEvidence p x e) w (.ok (Desk.hearEvidence p (x, w) e)) := by
  refine (yields_holder? hs e.key w).bind ?_
  unfold Desk.hearEvidence Desk.keyholder?
  cases hk : w.book.holders.get? e.key with
  | none => exact yields_pure _ w
  | some owner =>
    refine (yields_validator? hs owner w).bind ?_
    dsimp only [Option.bind_some]
    cases hv : w.book.validators.get? owner with
    | none => exact yields_pure _ w
    | some v =>
      obtain rfl := w.book.owner_eq hv
      dsimp only
      split
      · exact yields_pure _ w
      · exact yields_fireOne hs p x _ hv

theorem yields_checkAbsences (p : Parameters) (x : FiringReport) (owner : Account) (w : Desk) :
    Yields s b (checkAbsences p x owner) w (.ok (Desk.checkAbsences p (x, w) owner)) := by
  unfold checkAbsences Desk.checkAbsences
  have hlook := yields_validator? hs owner w
  by_cases hfired : owner ∈ x.fired
  · simp only [hfired, true_or, ↓reduceIte]
    cases w.book.validators.get? owner <;> exact yields_pure _ w
  · simp only [hfired, false_or, ↓reduceIte]
    refine hlook.bind ?_
    cases hv : w.book.validators.get? owner with
    | none => exact yields_pure _ w
    | some v =>
      obtain rfl := w.book.owner_eq hv
      simp only [Option.map_some, Option.getD_some]
      split
      · exact yields_pure _ w
      · exact yields_fireOne hs p x _ hv

theorem yields_fire (p : Parameters) (evidence : List Evidence) (w : Desk) :
    Yields s b (fire p evidence) w (.ok (w.fire p evidence)) := by
  refine (yields_foldlM (fun x e w _ => yields_hearEvidence hs p x e w) {} w).bind ?_
  refine yields_get fun d hd => ?_
  rw [hd.roster]
  exact yields_foldlM (fun x owner w _ => yields_checkAbsences hs p x owner w) _ _

end Staging

end StakedCommittee
