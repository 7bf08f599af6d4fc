import Mathlib.Data.List.Perm.Basic
import StakedCommittee.Proofs.Registry.Attendance
import StakedCommittee.Proofs.Registry.BlockStart

/-! A roll call goes by its flags, in whatever order they come and however often a key occurs. A flag
is noted for the seated validator that has its key, and notes of one validator can be made in any
order, so two counts of the same flags leave the same bytes. Who is seated, and under which key, does
not change while flags are counted, so each flag is known or unknown by itself. -/

namespace StakedCommittee

namespace Validator

theorem note_of_ne {v : Validator} {flag : SigningFlag} (h : flag.key ≠ v.key) :
    v.note flag = v := if_pos h

/-- Two notes come to the same in either order. -/
theorem note_comm (v : Validator) (flag other : SigningFlag) :
    (v.note flag).note other = (v.note other).note flag := by
  by_cases hflag : flag.key = v.key
  · by_cases hother : other.key = v.key
    · unfold note
      simp only [hflag, hother, ne_eq, not_true_eq_false, ↓reduceIte]
      -- The two counts are kept apart, and each goes up by one.
      cases flag.signed <;> cases other.signed <;> simp [countSignature, countAbsence]
    · have hafter : other.key ≠ (v.note flag).key := by rwa [key_note]
      rw [note_of_ne hother, note_of_ne hafter]
  · have hafter : flag.key ≠ (v.note other).key := by rwa [key_note]
    rw [note_of_ne hflag, note_of_ne hafter]

theorem foldl_note_perm (v : Validator) {flags others : List SigningFlag}
    (h : flags.Perm others) : flags.foldl note v = others.foldl note v :=
  h.foldl_eq' (fun flag _ other _ u => u.note_comm flag other) v

end Validator

namespace Book

variable {b after : Book} {key : ConsensusKey}

/-- The keys of the seated validators. -/
def memberKeys (b : Book) : List ConsensusKey :=
  b.roster.seated.filterMap fun a => (b.validators.get? a).map (·.key)

theorem mem_memberKeys : key ∈ b.memberKeys ↔
    ∃ a ∈ b.roster.seated, ∃ v, b.validators.get? a = some v ∧ v.key = key := by
  simp [memberKeys]

theorem Counted.memberKeys_eq (h : b.Counted after) : after.memberKeys = b.memberKeys := by
  unfold memberKeys
  rw [h.roster]
  refine List.filterMap_congr fun a _ => ?_
  rcases h.validators a with hsame | ⟨-, v, absences, signatures, hv, hafter⟩
  · rw [hsame]
  · rw [hv, hafter]
    rfl

/-- A member key is one that leads to a seated validator. -/
theorem Indexed.mem_memberKeys_iff {w : Desk} (h : w.book.Indexed) : key ∈ w.book.memberKeys ↔
    ∃ v, w.keyholder? key = some v ∧ v.owner ∈ w.book.roster.seated := by
  rw [mem_memberKeys]
  constructor
  · rintro ⟨a, hseated, v, hv, hkey⟩
    obtain rfl := w.book.owner_eq hv
    exact ⟨v, h.keyholder?_iff.2 ⟨hv, hkey⟩, hseated⟩
  · rintro ⟨v, hv, hseated⟩
    obtain ⟨hget, hkey⟩ := h.keyholder?_iff.1 hv
    exact ⟨v.owner, hseated, v, hget, hkey⟩

end Book

/-! ### The report -/

namespace SigningReport

/-- Enters one flag into the report, where `keys` are those of the seated validators. -/
def enter (keys : List ConsensusKey) (report : SigningReport) (flag : SigningFlag) :
    SigningReport :=
  if flag.key ∉ keys then report.addUnknown flag.key
  else if flag.signed then { report with signed := report.signed + 1 }
  else { report with absent := report.absent + 1 }

/-- The report counts the flags that carry one of `keys` by what they say, and lists the keys of the
others as they come. -/
structure Tallies (report : SigningReport) (keys : List ConsensusKey) (flags : List SigningFlag) :
    Prop where
  signed : report.signed = flags.countP fun flag => flag.key ∈ keys ∧ flag.signed = true
  absent : report.absent = flags.countP fun flag => flag.key ∈ keys ∧ flag.signed = false
  unknownKeys : report.unknownKeys = (flags.map (·.key)).filter fun key => key ∉ keys

namespace Tallies

variable {report other : SigningReport} {keys : List ConsensusKey} {flags others : List SigningFlag}

theorem nil (keys : List ConsensusKey) : ({} : SigningReport).Tallies keys [] := ⟨rfl, rfl, rfl⟩

theorem concat (h : report.Tallies keys flags) (flag : SigningFlag) :
    (report.enter keys flag).Tallies keys (flags ++ [flag]) := by
  obtain ⟨hsigned, habsent, hunknown⟩ := h
  unfold enter SigningReport.addUnknown
  by_cases hkey : flag.key ∈ keys
  · cases hsays : flag.signed <;> constructor <;> simp [hkey, hsays, hsigned, habsent, hunknown]
  · constructor <;> simp [hkey, hsigned, habsent, hunknown]

/-- No flag is lost, and none is counted twice. -/
theorem total (h : report.Tallies keys flags) :
    report.signed + report.absent + report.unknownKeys.length = flags.length := by
  rw [h.signed, h.absent, h.unknownKeys]
  clear h
  induction flags with
  | nil => rfl
  | cons flag rest ih =>
    simp only [List.countP_cons, List.map_cons, List.filter_cons, List.length_cons,
      decide_eq_true_eq]
    by_cases hkey : flag.key ∈ keys
    · cases flag.signed <;>
        simp only [hkey, not_true_eq_false, true_and, reduceCtorEq, ↓reduceIte] <;> omega
    · simp only [hkey, not_false_eq_true, false_and, ↓reduceIte, List.length_cons]
      omega

theorem perm (h : report.Tallies keys flags) (hother : other.Tallies keys others)
    (hperm : flags.Perm others) : report.signed = other.signed ∧ report.absent = other.absent ∧
      report.unknownKeys.Perm other.unknownKeys := by
  rw [h.signed, h.absent, h.unknownKeys, hother.signed, hother.absent, hother.unknownKeys]
  exact ⟨hperm.countP_eq _, hperm.countP_eq _, (hperm.map _).filter _⟩

end Tallies

end SigningReport

namespace Desk

variable {w : Desk} {x : SigningReport × Desk}

theorem report_countFlag (h : x.2.book.Indexed) (flag : SigningFlag) :
    (countFlag x flag).1 = x.1.enter x.2.book.memberKeys flag := by
  unfold countFlag SigningReport.enter
  by_cases hkey : flag.key ∈ x.2.book.memberKeys
  · obtain ⟨v, hv, hseated⟩ := h.mem_memberKeys_iff.1 hkey
    simp only [hkey, hv, hseated, not_true_eq_false, ↓reduceIte]
    split <;> rfl
  · rw [if_pos hkey]
    cases hv : x.2.keyholder? flag.key with
    | none => rfl
    | some v =>
      have hwaits : v.owner ∉ x.2.book.roster.seated := fun hseated =>
        hkey (h.mem_memberKeys_iff.2 ⟨v, hv, hseated⟩)
      simp only [hwaits, not_false_eq_true, ↓reduceIte]

theorem indexed_countFlags (h : w.book.Indexed) (flags : List SigningFlag) :
    (w.countFlags flags).2.book.Indexed :=
  List.foldlRecOn (motive := fun x => x.2.book.Indexed) flags countFlag h
    fun _ hx flag _ => indexed_countFlag hx flag

/-- A count reports each flag for the keys of those seated at first, who stay seated. -/
theorem tallies_countFlags (h : w.book.Indexed) (flags : List SigningFlag) :
    (w.countFlags flags).1.Tallies w.book.memberKeys flags := by
  induction flags using List.reverseRecOn with
  | nil => exact .nil _
  | append_singleton before flag ih =>
    have hkeys := (w.counted_countFlags before).memberKeys_eq
    have hlast : w.countFlags (before ++ [flag]) = countFlag (w.countFlags before) flag :=
      List.foldl_concat ..
    rw [hlast, report_countFlag (indexed_countFlags h before), hkeys]
    exact ih.concat flag

/-- The order of flags does not matter to what is left on the desk. -/
theorem countFlags_perm (h : w.book.Indexed) {flags others : List SigningFlag}
    (hperm : flags.Perm others) : (w.countFlags flags).2 = (w.countFlags others).2 := by
  have hcounted := w.counted_countFlags flags
  have hcounted' := w.counted_countFlags others
  have hbook : (w.countFlags flags).2.book = (w.countFlags others).2.book := by
    apply Book.ext
    · rw [hcounted.roster, hcounted'.roster]
    · refine SortedMap.ext_get? fun a => ?_
      rw [get?_countFlags h, get?_countFlags h]
      congr 1
      funext v
      rw [v.foldl_note_perm hperm]
    · rw [hcounted.holders, hcounted'.holders]
  show Desk.mk _ _ = Desk.mk _ _
  rw [hbook, w.transfers_countFlags, w.transfers_countFlags]

end Desk

/-- On a store that works a count goes through: it has no coins to move, and it enters nobody. -/
theorem Registry.call_countFlags {reg : Registry} {b : Book} (hb : reg.store.Holds b)
    (hfunded : b.Funded) (hfresh : b.Fresh) (source : ParameterSource) (ledger : LedgerFaults)
    (flags : List SigningFlag) :
    (reg.call source { ledger } (.countFlags flags)).1 = .ok (Desk.countFlags ⟨b, []⟩ flags).1 := by
  have heffect : (Call.countFlags flags).effect source ⟨b, []⟩ =
      .ok (Desk.countFlags ⟨b, []⟩ flags) := rfl
  have hcall : (Call.countFlags flags).PaysOut := trivial
  refine call_of_effect hb heffect (hcall.fits heffect hb.fits hfunded hfresh) ?_
  show (reg.ledger.moveAll ledger [] (Desk.countFlags ⟨b, []⟩ flags).2.transfers).failure = none
  rw [Desk.transfers_countFlags]
  rfl

/-- The keys of the seated validators, as the store has them. -/
theorem Store.Holds.mem_memberKeys_iff {reg : Registry} {b : Book} (hb : reg.store.Holds b)
    {key : ConsensusKey} : key ∈ b.memberKeys ↔ ∃ a v, reg.Seats a ∧
      (Query.validator? a).answer reg.store = .ok (some v) ∧ v.key = key := by
  simp only [Book.mem_memberKeys, hb.seats_iff, hb.answer_validator?, Except.ok.injEq,
    exists_and_left]

namespace Run

/-- After every run, on a store that works, two lists of the same flags in any order leave the same
registry and the same counts, and report the same unknown keys up to their order. Each count reports
every flag once: as signed or as absent if its key is that of a seated validator, and by its key
otherwise. It leaves the stored roster, every deposit and the ledger as they were. -/
theorem flag_order_immaterial (l : Ledger) (steps : List Step) (source : ParameterSource)
    (ledger : LedgerFaults) (flags others : List SigningFlag) (h : flags.Perm others) :
    let reg := (of l steps).registry
    let one := reg.call source { ledger } (.countFlags flags)
    let two := reg.call source { ledger } (.countFlags others)
    ∃ (keys : List ConsensusKey) (report report' : SigningReport),
      (∀ key, key ∈ keys ↔ ∃ a v, reg.Seats a ∧
        (Query.validator? a).answer reg.store = .ok (some v) ∧ v.key = key) ∧
      one.1 = .ok report ∧ two.1 = .ok report' ∧ one.2 = two.2 ∧
      report.signed = report'.signed ∧ report.absent = report'.absent ∧
      report.unknownKeys.Perm report'.unknownKeys ∧
      report.Tallies keys flags ∧ report'.Tallies keys others ∧
      report.signed + report.absent + report.unknownKeys.length = flags.length ∧
      report'.signed + report'.absent + report'.unknownKeys.length = others.length ∧
      one.2.store.get? Layout.rosterKey = reg.store.get? Layout.rosterKey ∧
      (∀ a, ((Query.validator? a).answer one.2.store).map (Option.map (·.deposit)) =
        ((Query.validator? a).answer reg.store).map (Option.map (·.deposit))) ∧
      one.2.ledger = reg.ledger := by
  intro reg one two
  obtain ⟨b, hb, hfunded, hfresh⟩ := holds_fresh l steps
  obtain ⟨c, hc, hindexed⟩ := holds_indexed l steps
  obtain rfl := hb.unique hc
  have hone := Registry.call_countFlags hb hfunded hfresh source ledger flags
  have htwo := Registry.call_countFlags hb hfunded hfresh source ledger others
  obtain ⟨-, hledger, hstore⟩ := Registry.settled_countFlags hb hone
  obtain ⟨-, hledger', hstore'⟩ := Registry.settled_countFlags hb htwo
  have htallies := Desk.tallies_countFlags (w := ⟨b, []⟩) hindexed flags
  have htallies' := Desk.tallies_countFlags (w := ⟨b, []⟩) hindexed others
  obtain ⟨hsigned, habsent, hunknown⟩ := htallies.perm htallies' h
  have hcounted := Desk.counted_countFlags ⟨b, []⟩ flags
  refine ⟨b.memberKeys, _, _, fun key => hb.mem_memberKeys_iff, hone, htwo, ?_, hsigned, habsent,
    hunknown, htallies, htallies', htallies.total, htallies'.total, ?_, fun a => ?_, hledger⟩
  · rw [← Desk.countFlags_perm (w := ⟨b, []⟩) hindexed h] at hstore'
    show Registry.mk one.2.store one.2.ledger = Registry.mk two.2.store two.2.ledger
    rw [hstore'.store_eq hstore, hledger, hledger']
  · exact hcounted.get?_eq hb hstore fun a _ => (Layout.validatorKey_ne_rosterKey a).symm
  · rw [hstore.answer_validator?, hb.answer_validator?]
    exact congrArg Except.ok (hcounted.map_deposit_eq a)

/-- The one member is flagged three times, a waiting validator, one that left and a stranger once
each; then all again in reverse. -/
theorem flag_order_immaterial_in_reverse :
    let source : ParameterSource := .always { Parameters.standard with seats := 1 }
    let keyA : ConsensusKey := .ofByte 0
    let keyB : ConsensusKey := .ofByte 1
    let keyC : ConsensusKey := .ofByte 2
    let keyD : ConsensusKey := .ofByte 3
    let l : Ledger := .funded .greatest ["alice", "bob", "carol"]
    let steps : List Step :=
      [.enroll source 1 "alice" 0 3000, .enroll source 1 "bob" 1 2000,
        .enroll source 1 "carol" 2 1000,
        ⟨source, {}, .revoke 2 ⟨"carol"⟩⟩]
    let flags : List SigningFlag := [⟨keyA, true⟩, ⟨keyB, true⟩, ⟨keyA, false⟩, ⟨keyC, false⟩,
      ⟨keyD, true⟩, ⟨keyA, false⟩]
    let reg := (of l steps).registry
    flags.Perm flags.reverse ∧
      (reg.call source {} (.countFlags flags)).1 = .ok ⟨1, 2, [keyB, keyC, keyD]⟩ ∧
      (reg.call source {} (.countFlags flags.reverse)).1 = .ok ⟨1, 2, [keyD, keyC, keyB]⟩ ∧
      (reg.call source {} (.countFlags flags)).2 =
        (reg.call source {} (.countFlags flags.reverse)).2 := by
  intro source keyA keyB keyC keyD l steps flags reg
  have hperm : flags.Perm flags.reverse := flags.reverse_perm.symm
  obtain ⟨-, -, -, -, -, -, hsame, -⟩ :=
    flag_order_immaterial l steps source {} flags flags.reverse hperm
  exact ⟨hperm, by decide +kernel, by decide +kernel, hsame⟩

end Run

end StakedCommittee
