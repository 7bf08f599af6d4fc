import Mathlib.Data.List.Basic
import StakedCommittee.Registry.Report
import StakedCommittee.Proofs.Draft.Desk

/-! The report to the consensus engine, said on a desk. It looks up the key and power of every
member that is seated or was reported, and of nobody else. -/

namespace StakedCommittee

/-- The key and the power of an account with a validator. -/
def Book.entry? (b : Book) (a : Account) : Option (ConsensusKey × Power) :=
  (b.validators.get? a).map fun v => (v.key, v.power)

theorem Book.entry?_eq_some {b : Book} {a : Account} {k : ConsensusKey} {x : Power} :
    b.entry? a = some (k, x) ↔ ∃ v, b.validators.get? a = some v ∧ v.key = k ∧ v.power = x := by
  simp [Book.entry?]

/-- The keys and powers of the accounts in a list. -/
def Book.entryTable (b : Book) (l : List Account) : SortedMap Account (ConsensusKey × Power) :=
  l.foldl (fun table a => (b.entry? a).elim table (table.insert a)) .empty

theorem Book.get?_entryTable (b : Book) {l : List Account} {a : Account} (ha : a ∈ l) :
    (b.entryTable l).get? a = b.entry? a := by
  have hfold (l : List Account) (table : SortedMap Account (ConsensusKey × Power)) :
      (l.foldl (fun table a => (b.entry? a).elim table (table.insert a)) table).get? a =
        if a ∈ l then (b.entry? a).or (table.get? a) else table.get? a := by
    induction l generalizing table with
    | nil => simp
    | cons c rest ih =>
      rw [List.foldl_cons, ih]
      by_cases hc : c = a
      · subst hc
        cases b.entry? c <;> simp
      · cases b.entry? c <;> simp [Ne.symm hc, SortedMap.get?_insert_of_ne _ _ hc]
  have h := hfold l .empty
  rw [if_pos ha] at h
  simpa [Book.entryTable] using h

theorem Roster.report_congr {r : Roster} {f g : Account → Option (ConsensusKey × Power)}
    (h : ∀ a ∈ r.reportees, f a = g a) : r.report f = r.report g :=
  List.filterMap_congr fun a ha => by rw [h a ha]

/-- Reports the committee, after which it counts as reported. -/
def Desk.report (w : Desk) : List PowerUpdate × Desk :=
  (w.book.roster.report w.book.entry?, w.setRoster w.book.roster.markReported)

namespace Staging

variable {s : Store} {b : Book} (hs : s.Holds b)
include hs

theorem yields_resolve (l : List Account) (w : Desk) :
    Yields s b (resolve l) w (.ok (w.book.entryTable l, w)) := by
  have hfold (l : List Account) (table : SortedMap Account (ConsensusKey × Power)) :
      l.foldl (fun x a => ((x.2.book.entry? a).elim x.1 (x.1.insert a), x.2)) (table, w) =
        (l.foldl (fun table a => (w.book.entry? a).elim table (table.insert a)) table, w) := by
    induction l generalizing table with
    | nil => rfl
    | cons a rest ih => exact ih _
  unfold resolve Book.entryTable
  rw [← hfold]
  refine yields_foldlM (fun table a w _ => (yields_validator? hs a w).bind ?_) _ _
  unfold Book.entry?
  cases w.book.validators.get? a <;> exact yields_pure _ w

theorem yields_report (w : Desk) : Yields s b report w (.ok w.report) := by
  refine yields_get fun d hd => ?_
  rw [hd.roster]
  refine (yields_resolve hs _ w).bind ((yields_setRoster _ w).bind ?_)
  rw [Roster.report_congr fun a ha => w.book.get?_entryTable ha]
  exact yields_pure _ _

end Staging

end StakedCommittee
