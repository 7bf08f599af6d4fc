import StakedCommittee.Proofs.Registry.Funding
import StakedCommittee.Proofs.Registry.Payout
import StakedCommittee.Proofs.Registry.Permanence
import StakedCommittee.Proofs.Registry.Precedence

/-! The two counts of a validator are its history. A signed flag counts if it carries the key of a
validator that is seated when the flag is processed, in a call that succeeds; a flag of absence
counts on the same terms, and since the last registration only. No other event changes a count, and
a count stops at the greatest number there is. -/

namespace StakedCommittee

/-! ### One flag -/

/-- What a flag makes of a seated validator. -/
def Validator.note (v : Validator) (flag : SigningFlag) : Validator :=
  if flag.key ≠ v.key then v
  else if flag.signed then v.countSignature else v.countAbsence

/-- How many flags say of a key that its holder signed, or that it did not. -/
def SigningFlag.tally (flags : List SigningFlag) (key : ConsensusKey) (signed : Bool) : Nat :=
  flags.countP fun flag => flag.key = key ∧ flag.signed = signed

/-- The greatest number that a count reaches. -/
def greatestCount : Nat := 0xffffffffffffffff

namespace Validator

/-- The count of signed or of missed blocks. -/
def count (v : Validator) (signed : Bool) : UInt64 := if signed then v.signatures else v.absences

@[simp] theorem key_note (v : Validator) (flag : SigningFlag) : (v.note flag).key = v.key := by
  unfold note
  split
  · rfl
  · split <;> rfl

theorem toNat_count_note (v : Validator) (flag : SigningFlag) (signed : Bool) :
    ((v.note flag).count signed).toNat =
      min ((v.count signed).toNat + if flag.key = v.key ∧ flag.signed = signed then 1 else 0)
        greatestCount := by
  have hlt : (v.count signed).toNat < 0x10000000000000000 := (v.count signed).toNat_lt
  have hkept : (v.count signed).toNat = min ((v.count signed).toNat + 0) greatestCount := by
    unfold greatestCount
    omega
  unfold note
  by_cases hkey : flag.key = v.key
  · rw [if_neg (not_not.2 hkey)]
    cases hsigned : flag.signed <;> cases signed <;>
      simp only [hkey, and_true, and_false, reduceCtorEq, Bool.false_eq_true, ↓reduceIte]
    · exact toNat_countUp v.absences
    · exact hkept
    · exact hkept
    · exact toNat_countUp v.signatures
  · rw [if_pos hkey, if_neg fun h => hkey h.1]
    exact hkept

/-- Noting flags adds up, as far as the counts go. -/
theorem toNat_count_foldl_note (v : Validator) (flags : List SigningFlag) (signed : Bool) :
    ((flags.foldl note v).count signed).toNat =
      min ((v.count signed).toNat + SigningFlag.tally flags v.key signed) greatestCount := by
  induction flags generalizing v with
  | nil =>
    have hlt : (v.count signed).toNat < 0x10000000000000000 := (v.count signed).toNat_lt
    simp only [List.foldl_nil, SigningFlag.tally, List.countP_nil, greatestCount]
    omega
  | cons flag rest ih =>
    have hflag := v.toNat_count_note flag signed
    have hrest := ih (v.note flag)
    rw [key_note] at hrest
    rw [List.foldl_cons, hrest, hflag]
    simp only [SigningFlag.tally, List.countP_cons, decide_eq_true_eq]
    omega

end Validator

/-! ### One call -/

namespace Book.Indexed

variable {b : Book} {a : Account} {v : Validator}

/-- A key leads to the validator that has it, and to no other. -/
theorem keyholder?_iff {w : Desk} (h : w.book.Indexed) {key : ConsensusKey} :
    w.keyholder? key = some v ↔
      w.book.validators.get? v.owner = some v ∧ v.key = key := by
  constructor
  · intro hv
    obtain ⟨owner, howner, hget⟩ := Option.bind_eq_some_iff.1 hv
    obtain ⟨u, hu, hkey⟩ := (h key owner).1 howner
    rw [hget] at hu
    cases hu
    exact ⟨Desk.get?_of_keyholder? hv, hkey⟩
  · rintro ⟨hget, rfl⟩
    exact Option.bind_eq_some_iff.2 ⟨v.owner, (h _ _).2 ⟨v, hget, rfl⟩, hget⟩

end Book.Indexed

namespace Desk

variable {w : Desk} {v : Validator}

theorem indexed_countFlag {x : SigningReport × Desk} (h : x.2.book.Indexed) (flag : SigningFlag) :
    (countFlag x flag).2.book.Indexed := by
  unfold countFlag
  cases hu : x.2.keyholder? flag.key with
  | none => exact h
  | some u =>
    dsimp only
    split
    · exact h
    · rename_i hseated
      have hcounted (absences signatures : UInt64) :
          (x.2.book.put { u with absences, signatures }).Indexed :=
        h.move (p := .standard)
          (.count absences signatures (get?_of_keyholder? hu) (not_not.1 hseated))
      split
      · exact hcounted _ _
      · exact hcounted _ _

/-- A flag is noted for the seated validator that has its key. -/
theorem get?_countFlag {x : SigningReport × Desk} (h : x.2.book.Indexed)
    (hv : x.2.book.validators.get? v.owner = some v) (hseated : v.owner ∈ x.2.book.roster.seated)
    (flag : SigningFlag) :
    (countFlag x flag).2.book.validators.get? v.owner = some (v.note flag) := by
  unfold countFlag Validator.note
  cases hu : x.2.keyholder? flag.key with
  | none =>
    have hkey : flag.key ≠ v.key := by
      intro hkey
      rw [h.keyholder?_iff.2 ⟨hv, hkey.symm⟩] at hu
      cases hu
    rw [if_pos hkey]
    exact hv
  | some u =>
    obtain ⟨hget, hkey⟩ := h.keyholder?_iff.1 hu
    by_cases hsame : flag.key = v.key
    · have howner := h.owner_inj hget hv (hkey.trans hsame)
      rw [howner, hv] at hget
      cases hget
      simp only [hseated, hsame, not_true_eq_false, ne_eq, ↓reduceIte]
      split
      · exact (Book.get?_put ..).trans (if_pos rfl)
      · exact (Book.get?_put ..).trans (if_pos rfl)
    · have hne : u.owner ≠ v.owner := by
        intro howner
        rw [howner, hv] at hget
        cases hget
        exact hsame hkey.symm
      rw [if_pos hsame]
      dsimp only
      split
      · exact hv
      · split
        · exact (Book.get?_put ..).trans ((if_neg hne).trans hv)
        · exact (Book.get?_put ..).trans ((if_neg hne).trans hv)

theorem roster_countFlag (x : SigningReport × Desk) (flag : SigningFlag) :
    (countFlag x flag).2.book.roster = x.2.book.roster := by
  unfold countFlag
  cases x.2.keyholder? flag.key with
  | none => rfl
  | some u =>
    dsimp only
    split
    · rfl
    · split <;> rfl

/-- Counting flags notes each of them, in order, for a validator that is seated. -/
theorem get?_foldl_countFlag {x : SigningReport × Desk} (h : x.2.book.Indexed)
    (hv : x.2.book.validators.get? v.owner = some v) (hseated : v.owner ∈ x.2.book.roster.seated)
    (flags : List SigningFlag) :
    (flags.foldl countFlag x).2.book.validators.get? v.owner =
      some (flags.foldl Validator.note v) := by
  induction flags generalizing x v with
  | nil => exact hv
  | cons flag rest ih =>
    have hget := get?_countFlag h hv hseated flag
    have howner := Book.owner_eq _ hget
    rw [← roster_countFlag x flag] at hseated
    rw [← howner] at hget hseated ⊢
    exact ih (indexed_countFlag h flag) hget hseated

/-- What a count makes of the validators on record: the flags are noted for those that are seated. -/
theorem get?_countFlags (h : w.book.Indexed) (flags : List SigningFlag) (a : Account) :
    (w.countFlags flags).2.book.validators.get? a = (w.book.validators.get? a).map fun v =>
      if a ∈ w.book.roster.seated then flags.foldl Validator.note v else v := by
  have hcounted := (w.counted_countFlags flags).validators a
  by_cases hseated : a ∈ w.book.roster.seated
  · cases hv : w.book.validators.get? a with
    | none =>
      rcases hcounted with hsame | ⟨-, v, -, -, hsome, -⟩
      · rw [hsame, hv, Option.map_none]
      · cases hv.symm.trans hsome
    | some v =>
      obtain rfl := w.book.owner_eq hv
      rw [Option.map_some, if_pos hseated]
      exact get?_foldl_countFlag (x := ({}, w)) h hv hseated flags
  · rw [hcounted.resolve_right fun hseat => hseated hseat.1]
    simp [hseated]

end Desk

/-- The flags that a call brings. -/
def Call.flags : Call → List SigningFlag
  | .countFlags flags => flags
  | _ => []

theorem Call.flags_eq_nil {c : Call} (hc : ¬ c.Counts) : c.flags = [] := by
  cases c with
  | countFlags flags => exact absurd trivial hc
  | _ => rfl

namespace Call

variable {source : ParameterSource} {c : Call} {b : Book} {answer : c.Answer} {w : Desk}
  {a : Account}

/-- A registration clears the absences and keeps the signatures, none at first. -/
theorem counts_of_registers (h : c.effect source ⟨b, []⟩ = .ok (answer, w)) (hc : c.Registers)
    (ha : c.subject? = some a) : ∃ u, w.book.validators.get? a = some u ∧ u.absences = 0 ∧
      u.signatures = ((b.validators.get? a).map (·.signatures)).getD 0 := by
  obtain ⟨p, hp⟩ := exists_goesBy h
  cases acts_of_effect hp h with
  | register h =>
    cases ha
    obtain ⟨u, happ, -, -, -, rfl⟩ := Desk.register_eq_ok h
    obtain ⟨habsences, hsignatures⟩ := Desk.counts_of_applicant happ
    obtain ⟨rfl, -⟩ := Desk.applicant_eq_ok happ
    exact ⟨u, (Book.get?_put ..).trans (if_pos rfl), habsences, hsignatures⟩
  | _ => exact hc.elim

/-- Without flags and without a registration of its own, a validator on record keeps its counts. -/
theorem count_eq_of_effect (h : c.effect source ⟨b, []⟩ = .ok (answer, w)) (hc : ¬ c.Counts)
    (ha : ¬ (c.Registers ∧ c.subject? = some a)) {v u : Validator}
    (hv : b.validators.get? a = some v) (hu : w.book.validators.get? a = some u) (signed : Bool) :
    u.count signed = v.count signed := by
  by_cases hregisters : c.Registers
  · -- The registration of another account enters no validator here.
    have hother : ∃ owner, c.subject? = some owner := by
      cases c with
      | register height owner => exact ⟨owner, rfl⟩
      | _ => exact hregisters.elim
    obtain ⟨owner, howner⟩ := hother
    obtain ⟨t, rfl, henters⟩ := enters_effect howner h
    rw [henters.validators, Book.get?_put,
      if_neg fun heq : t.owner = a => ha ⟨hregisters, heq ▸ howner⟩] at hu
    rw [Option.some.inj (hu.symm.trans hv)]
  · obtain ⟨t, ht, hkeeps⟩ := carries_effect h a v hv
    rw [Option.some.inj (hu.symm.trans ht)]
    cases signed with
    | true => exact hkeeps.signatures hc
    | false => exact hkeeps.absences hc hregisters

/-- The counts of a validator on record grow by the flags for it if it is seated; a registration of
its own clears the absences. -/
theorem counts_effect (hindexed : b.Indexed) (h : c.effect source ⟨b, []⟩ = .ok (answer, w))
    {v u : Validator} (hv : b.validators.get? a = some v) (hu : w.book.validators.get? a = some u)
    (signed : Bool) : (u.count signed).toNat =
      if signed = false ∧ c.Registers ∧ c.subject? = some a then 0
      else min ((v.count signed).toNat + if a ∈ b.roster.seated then
        SigningFlag.tally c.flags v.key signed else 0) greatestCount := by
  have hkept (t : Validator) :
      (t.count signed).toNat = min ((t.count signed).toNat + 0) greatestCount := by
    have hlt : (t.count signed).toNat < 0x10000000000000000 := (t.count signed).toNat_lt
    unfold greatestCount
    omega
  by_cases hc : c.Counts
  · cases c with
    | countFlags flags =>
      obtain rfl : (Desk.countFlags ⟨b, []⟩ flags).2 = w := (Prod.mk.inj (Except.ok.inj h)).2
      rw [if_neg fun hr => hr.2.1]
      rw [Desk.get?_countFlags hindexed, hv] at hu
      obtain rfl := Option.some.inj hu
      dsimp only [Call.flags]
      split
      · exact v.toNat_count_foldl_note flags signed
      · exact hkept v
    | _ => exact hc.elim
  · rw [flags_eq_nil hc]
    simp only [SigningFlag.tally, List.countP_nil, ite_self]
    by_cases ha : c.Registers ∧ c.subject? = some a
    · obtain ⟨t, ht, habsences, hsignatures⟩ := counts_of_registers h ha.1 ha.2
      rw [Option.some.inj (hu.symm.trans ht)]
      cases signed with
      | false =>
        rw [if_pos ⟨rfl, ha⟩, Validator.count, if_neg Bool.false_ne_true, habsences]
        rfl
      | true =>
        rw [if_neg fun hr => absurd hr.1 (by decide), ← hkept v, Validator.count, Validator.count,
          if_pos rfl, if_pos rfl, hsignatures, hv]
        rfl
    · rw [if_neg fun hr => ha hr.2, count_eq_of_effect h hc ha hv hu signed]
      exact hkept v

/-- Who comes on record registers, and starts with no counts. -/
theorem registers_of_new (h : c.effect source ⟨b, []⟩ = .ok (answer, w)) {u : Validator}
    (hnone : b.validators.get? a = none) (hu : w.book.validators.get? a = some u) :
    c.Registers ∧ c.subject? = some a ∧ ∀ signed, u.count signed = 0 := by
  have hnew : c.Registers ∧ c.subject? = some a := by
    by_cases hpays : c.PaysOut
    · obtain ⟨t, ht, -⟩ := (PaysOut.effect hpays h).shrinks.validators hu
      rw [hnone] at ht
      cases ht
    obtain ⟨p, hp⟩ := exists_goesBy h
    cases acts_of_effect hp h with
    | @register height owner key deposit link _ _ h =>
      obtain ⟨t, rfl, henters⟩ := Desk.enters_register h
      rw [henters.validators, Book.get?_put] at hu
      split at hu
      · subst_vars
        exact ⟨trivial, rfl⟩
      · rw [hnone] at hu
        cases hu
    | increaseDeposit _ h =>
      obtain ⟨-, v, deposit, hv, -, -, rfl⟩ := Desk.increaseDeposit_eq_ok h
      change (b.put { v with deposit }).validators.get? a = some u at hu
      rw [Book.get?_put] at hu
      split at hu
      · rename_i howner
        rw [← howner, b.owner_eq hv, hv] at hnone
        cases hnone
      · rw [hnone] at hu
        cases hu
    | genesis | report => cases hnone.symm.trans hu
    | withdraw | revoke | punish | countFlags | fire => exact absurd trivial hpays
  obtain ⟨t, ht, habsences, hsignatures⟩ := counts_of_registers h hnew.1 hnew.2
  rw [Option.some.inj (hu.symm.trans ht)]
  rw [hnone] at hsignatures
  refine ⟨hnew.1, hnew.2, fun signed => ?_⟩
  cases signed with
  | true => exact hsignatures
  | false => exact habsences

end Call

/-! ### One step of a run -/

theorem Store.Holds.seats_iff {reg : Registry} {b : Book} (h : reg.store.Holds b) {a : Account} :
    reg.Seats a ↔ a ∈ b.roster.seated := by
  constructor
  · rintro ⟨r, hr, ha⟩
    rw [h.answer_roster] at hr
    cases hr
    exact ha
  · exact h.seats

namespace Step

/-- The flags with a key that a step counts for an account: those of a call that succeeds, while
the account is seated. -/
def tally (s : Step) (reg : Registry) (a : Account) (key : ConsensusKey) (signed : Bool) : Nat :=
  if (reg.call s.source s.faults s.call).1.isOk ∧ reg.Seats a then
    SigningFlag.tally s.call.flags key signed
  else 0

/-- A step that registers an account. -/
def Registers (s : Step) (reg : Registry) (a : Account) : Prop :=
  s.call.Registers ∧ s.call.subject? = some a ∧ (reg.call s.source s.faults s.call).1.isOk

instance (s : Step) (reg : Registry) (a : Account) : Decidable (s.Registers reg a) :=
  inferInstanceAs (Decidable (_ ∧ _ ∧ _))

variable {s : Step} {reg : Registry} {b c : Book} {a : Account} {u v : Validator}
  (hb : reg.store.Holds b) (hc : (reg.call s.source s.faults s.call).2.store.Holds c)
include hb

/-- Nothing is counted for an account that is not on record. -/
theorem tally_eq_zero (hfunded : b.Funded) (hnone : b.validators.get? a = none)
    (key : ConsensusKey) (signed : Bool) : s.tally reg a key signed = 0 := by
  refine if_neg fun h => ?_
  obtain ⟨v, hv, -⟩ := hfunded.exists_of_seated (hb.seats_iff.1 h.2)
  cases hnone.symm.trans hv

include hc

/-- The counts of a validator on record after a step: cleared or grown by its flags. -/
theorem toNat_count (hindexed : b.Indexed) (hv : b.validators.get? a = some v)
    (hu : c.validators.get? a = some u) (signed : Bool) : (u.count signed).toNat =
      if signed = false ∧ s.Registers reg a then 0
      else min ((v.count signed).toNat + s.tally reg a v.key signed) greatestCount := by
  cases houtcome : (reg.call s.source s.faults s.call).1 with
  | error e =>
    have hok : (reg.call s.source s.faults s.call).1.isOk = false := by rw [houtcome]; rfl
    rw [Registry.call_of_error houtcome] at hc
    obtain rfl := hb.unique hc
    simp only [tally, Registers, hok, Option.some.inj (hu.symm.trans hv), Bool.false_eq_true,
      and_false, false_and, ↓reduceIte]
    have hlt : (v.count signed).toNat < 0x10000000000000000 := (v.count signed).toNat_lt
    unfold greatestCount
    omega
  | ok answer =>
    obtain ⟨w, heffect, heffects⟩ := Registry.call_of_ok hb houtcome
    obtain rfl := heffects.holds.unique hc
    rw [Desk.validators_stored] at hu
    have hok : (reg.call s.source s.faults s.call).1.isOk = true := by rw [houtcome]; rfl
    rw [Call.counts_effect hindexed heffect hv hu signed]
    simp only [tally, Registers, hok, and_true, true_and, hb.seats_iff]

/-- Who comes on record in a step registers in it, and starts with no counts. -/
theorem registers_of_new (hnone : b.validators.get? a = none)
    (hu : c.validators.get? a = some u) :
    s.Registers reg a ∧ ∀ signed, u.count signed = 0 := by
  unfold Registers
  cases houtcome : (reg.call s.source s.faults s.call).1 with
  | error e =>
    rw [Registry.call_of_error houtcome] at hc
    obtain rfl := hb.unique hc
    cases hnone.symm.trans hu
  | ok answer =>
    obtain ⟨w, heffect, heffects⟩ := Registry.call_of_ok hb houtcome
    obtain rfl := heffects.holds.unique hc
    rw [Desk.validators_stored] at hu
    obtain ⟨hregisters, hsubject, hcount⟩ := Call.registers_of_new heffect hnone hu
    exact ⟨⟨hregisters, hsubject, rfl⟩, hcount⟩

end Step

/-! ### A run -/

namespace Run

variable (r : Run) (a : Account)

/-- The flags with a key that further steps count for an account. -/
def tally (r : Run) (a : Account) (key : ConsensusKey) (signed : Bool) : List Step → Nat
  | [] => 0
  | s :: rest => s.tally r.registry a key signed + (r.extend s).tally a key signed rest

/-- None of some further steps registers an account. -/
def NoneRegisters (r : Run) (a : Account) : List Step → Prop
  | [] => True
  | s :: rest => ¬ s.Registers r.registry a ∧ (r.extend s).NoneRegisters a rest

theorem of_append (l : Ledger) (before after : List Step) :
    of l (before ++ after) = after.foldl extend (of l before) := List.foldl_append

theorem tally_concat (key : ConsensusKey) (signed : Bool) (steps : List Step) (s : Step) :
    r.tally a key signed (steps ++ [s]) =
      r.tally a key signed steps + s.tally (steps.foldl extend r).registry a key signed := by
  induction steps generalizing r with
  | nil => exact Nat.add_comm ..
  | cons first rest ih =>
    rw [List.cons_append, tally, tally, ih, List.foldl_cons, Nat.add_assoc]

theorem noneRegisters_concat (steps : List Step) (s : Step) :
    r.NoneRegisters a (steps ++ [s]) ↔
      r.NoneRegisters a steps ∧ ¬ s.Registers (steps.foldl extend r).registry a := by
  induction steps generalizing r with
  | nil => exact ⟨fun h => ⟨trivial, h.1⟩, fun h => ⟨h.2, trivial⟩⟩
  | cons first rest ih =>
    rw [List.cons_append, NoneRegisters, NoneRegisters, ih, List.foldl_cons, and_assoc]

/-- The counts of `v` are those of the steps: its signatures those of all steps, its absences those
of the steps since it last registered. -/
structure Recounts (l : Ledger) (steps : List Step) (a : Account) (v : Validator) : Prop where
  signatures : v.signatures.toNat = min ((of l []).tally a v.key true steps) greatestCount
  absences : ∃ before s after, steps = before ++ s :: after ∧
    s.Registers (of l before).registry a ∧ (of l (before ++ [s])).NoneRegisters a after ∧
    v.absences.toNat = min ((of l (before ++ [s])).tally a v.key false after) greatestCount

namespace Recounts

variable {l : Ledger} {steps : List Step} {a : Account} {u v : Validator} {s : Step} {b c : Book}
  (hb : (of l steps).registry.store.Holds b) (hc : (of l (steps ++ [s])).registry.store.Holds c)
include hb hc

/-- The first registration. -/
theorem enroll (hfunded : b.Funded)
    (hzero : ∀ key signed, (of l []).tally a key signed steps = 0)
    (hnone : b.validators.get? a = none) (hu : c.validators.get? a = some u) :
    Recounts l (steps ++ [s]) a u := by
  rw [of_concat] at hc
  obtain ⟨hregisters, hcount⟩ := s.registers_of_new hb hc hnone hu
  constructor
  case signatures =>
    have hsignatures : u.signatures = 0 := hcount true
    rw [tally_concat, hzero, hsignatures]
    show _ = min (0 + s.tally (of l steps).registry a u.key true) greatestCount
    rw [s.tally_eq_zero hb hfunded hnone]
    rfl
  case absences =>
    have habsences : u.absences = 0 := hcount false
    exact ⟨steps, s, [], rfl, hregisters, trivial, by rw [habsences]; rfl⟩

/-- Any further step. -/
theorem extend (hindexed : b.Indexed) (h : Recounts l steps a v)
    (hv : b.validators.get? a = some v) (hkey : u.key = v.key)
    (hu : c.validators.get? a = some u) : Recounts l (steps ++ [s]) a u := by
  rw [of_concat] at hc
  have hcount := s.toNat_count hb hc hindexed hv hu
  constructor
  case signatures =>
    have hsignatures := hcount true
    rw [if_neg fun hr => absurd hr.1 (by decide)] at hsignatures
    have hbefore : (v.count true).toNat = _ := h.signatures
    show (u.count true).toNat = _
    rw [hsignatures, hbefore, hkey, tally_concat]
    show _ = min (_ + s.tally (of l steps).registry a v.key true) greatestCount
    omega
  case absences =>
    have habsences := hcount false
    by_cases hregisters : s.Registers (of l steps).registry a
    · rw [if_pos ⟨rfl, hregisters⟩] at habsences
      exact ⟨steps, s, [], rfl, hregisters, trivial, habsences⟩
    · obtain ⟨before, t, after, rfl, ht, hnone, hbefore⟩ := h.absences
      rw [if_neg fun hr => hregisters hr.2] at habsences
      have hof : of l (before ++ t :: after) = after.foldl Run.extend (of l (before ++ [t])) := by
        rw [← of_append, List.append_assoc]
        rfl
      refine ⟨before, t, after ++ [s], by simp, ht, ?_, ?_⟩
      · rw [noneRegisters_concat, ← hof]
        exact ⟨hnone, hregisters⟩
      · have hbefore : (v.count false).toNat = _ := hbefore
        show (u.count false).toNat = _
        rw [habsences, hbefore, hkey, tally_concat, ← hof]
        omega

end Recounts

/-- After every run the counts of every validator on record are those of the steps, and no flag was
counted for an account that is not on record. -/
theorem recounts (l : Ledger) (steps : List Step) (b : Book)
    (hb : (of l steps).registry.store.Holds b) (a : Account) :
    (b.validators.get? a = none → ∀ key signed, (of l []).tally a key signed steps = 0) ∧
      ∀ v, b.validators.get? a = some v → Recounts l steps a v := by
  induction steps using List.reverseRecOn generalizing b with
  | nil =>
    obtain rfl := hb.unique (Registry.holds_founded l)
    exact ⟨fun _ _ _ => rfl, fun v hv => nomatch hv⟩
  | append_singleton steps s ih =>
    obtain ⟨old, hold, hindexed⟩ := holds_indexed l steps
    obtain ⟨_, hfund, hfunded⟩ := holds_funded l steps
    obtain rfl := hold.unique hfund
    obtain ⟨hnew, hcounts⟩ := ih _ hold
    have hcarries : old.Carries s.call.Keeps b := by
      obtain ⟨c, hc, hcarries, -⟩ := Registry.exists_holds_call s.source s.faults
        s.call hold
      rw [of_concat] at hb
      obtain rfl := hc.unique hb
      exact hcarries
    constructor
    · intro hnone key signed
      have hbefore := Option.eq_none_iff_forall_ne_some.2 fun v hv => by
        obtain ⟨u, hu, -⟩ := hcarries a v hv
        cases hnone.symm.trans hu
      rw [tally_concat, hnew hbefore]
      show 0 + s.tally (of l steps).registry a key signed = 0
      rw [s.tally_eq_zero hold hfunded hbefore]
    · intro u hu
      cases hv : old.validators.get? a with
      | none => exact Recounts.enroll hold hb hfunded (hnew hv) hv hu
      | some v =>
        obtain ⟨t, ht, hkeeps⟩ := hcarries a v hv
        obtain rfl := Option.some.inj (hu.symm.trans ht)
        exact (hcounts v hv).extend hold hb hindexed hv hkeeps.key hu

/-- After every run, a validator on record has as many signatures as flags that said it signed were
counted while it was seated, over the whole run, and as many absences as flags that said it did not
since it last registered; both stop at the greatest count. Whatever step comes next, the counts
grow by the flags that it counts and by nothing else, but for a registration, which clears the
absences. -/
theorem counts_are_history (l : Ledger) (steps : List Step) (a : Account) (v : Validator)
    (hv : (Query.validator? a).answer (of l steps).registry.store = .ok (some v)) :
    v.signatures.toNat = min ((of l []).tally a v.key true steps) greatestCount ∧
    (∃ before s after, steps = before ++ s :: after ∧ s.Registers (of l before).registry a ∧
      (of l (before ++ [s])).NoneRegisters a after ∧
      v.absences.toNat = min ((of l (before ++ [s])).tally a v.key false after) greatestCount) ∧
    ∀ s u, (Query.validator? a).answer ((of l steps).extend s).registry.store = .ok (some u) →
      u.signatures.toNat =
        min (v.signatures.toNat + s.tally (of l steps).registry a v.key true) greatestCount ∧
      u.absences.toNat = if s.Registers (of l steps).registry a then 0
        else min (v.absences.toNat + s.tally (of l steps).registry a v.key false) greatestCount := by
  obtain ⟨b, hb, hindexed⟩ := holds_indexed l steps
  rw [hb.answer_validator?, Except.ok.injEq] at hv
  obtain ⟨hsignatures, habsences⟩ := (recounts l steps b hb a).2 v hv
  refine ⟨hsignatures, habsences, fun s u hu => ?_⟩
  obtain ⟨c, hc, -⟩ := holds_indexed l (steps ++ [s])
  rw [of_concat] at hc
  rw [hc.answer_validator?, Except.ok.injEq] at hu
  have hcount := s.toNat_count hb hc hindexed hv hu
  constructor
  · refine (hcount true).trans (if_neg fun hr => absurd hr.1 (by decide))
  · refine (hcount false).trans ?_
    simp only [true_and]
    rfl

/-- An account registers, is counted once each way, leaves, and is not counted while it is gone; it
comes back with its signature and without its absence. A count that cannot be stored is none. -/
theorem counts_are_history_after_return :
    let source : ParameterSource := .always .standard
    let l : Ledger := .funded .greatest ["alice"]
    let key : ConsensusKey := .ofByte 0
    let steps : List Step :=
      [.enroll source 1 "alice" 0 1000,
        ⟨source, {}, .countFlags [⟨key, true⟩, ⟨key, false⟩]⟩,
        ⟨source, {}, .revoke 2 ⟨"alice"⟩⟩,
        ⟨source, {}, .countFlags [⟨key, true⟩]⟩,
        .enroll source 3 "alice" 0 1000,
        ⟨source, { write := some .missing }, .countFlags [⟨key, false⟩]⟩,
        ⟨source, {}, .countFlags [⟨key, false⟩, ⟨key, true⟩, ⟨key, false⟩]⟩]
    let v : Validator := ⟨⟨"alice"⟩, key, .ofCoins 1000, 2, 2, "", 3⟩
    (Query.validator? ⟨"alice"⟩).answer (of l steps).registry.store = .ok (some v) ∧
      (of l []).tally ⟨"alice"⟩ key true steps = 2 ∧
      v.signatures.toNat = min ((of l []).tally ⟨"alice"⟩ key true steps) greatestCount ∧
      ∃ before s after, steps = before ++ s :: after ∧
        s.Registers (of l before).registry ⟨"alice"⟩ ∧
        (of l (before ++ [s])).NoneRegisters ⟨"alice"⟩ after ∧
        v.absences.toNat =
          min ((of l (before ++ [s])).tally ⟨"alice"⟩ key false after) greatestCount := by
  intro source l key steps v
  have hv : (Query.validator? ⟨"alice"⟩).answer (of l steps).registry.store = .ok (some v) := by
    decide +kernel
  obtain ⟨hsignatures, habsences, -⟩ := counts_are_history l steps ⟨"alice"⟩ v hv
  exact ⟨hv, by decide +kernel, hsignatures, habsences⟩

end Run

end StakedCommittee
