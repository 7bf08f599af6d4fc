import Mathlib.Algebra.Ring.Nat
import StakedCommittee.SortedMap.Lemmas

/-! Sums over the values of a sorted map, and the maps that filtering leaves. Putting a value in
changes a sum by the new value less the one it replaces. -/

namespace StakedCommittee.SortedMap

variable {κ ν : Type} [KeyOrder κ] [DecidableEq κ]

theorem get?_filter (m : SortedMap κ ν) (p : κ → ν → Bool) (k : κ) :
    (m.filter p).get? k = (m.get? k).filter (p k) := by
  apply Option.ext
  intro v
  rw [← mem_entries_iff, filter, List.mem_filter, mem_entries_iff, Option.filter_eq_some_iff]

/-- What the values of a map come to when each counts for `f`. -/
def sum (m : SortedMap κ ν) (f : ν → Nat) : Nat := (m.entries.map fun e => f e.2).sum

theorem sum_place (f : ν → Nat) (k : κ) (v : ν) {l : List (κ × ν)}
    (hl : l.Pairwise fun a b => KeyOrder.before a.1 b.1 = true) :
    ((place k v l).map fun e => f e.2).sum + ((lookup k l).map f).getD 0 =
      (l.map fun e => f e.2).sum + f v := by
  induction l with
  | nil => simp [place, lookup]
  | cons d rest ih =>
    obtain ⟨a, w⟩ := d
    obtain ⟨hd, hrest⟩ := List.pairwise_cons.1 hl
    simp only [place]
    split
    · rename_i hka
      rw [lookup_eq_none_of_before_head hd hka]
      simp only [List.map_cons, List.sum_cons, Option.map_none, Option.getD_none]
      omega
    · split
      · rename_i hak
        simp only [lookup, hak, ↓reduceIte, List.map_cons, List.sum_cons, Option.map_some,
          Option.getD_some]
        omega
      · rename_i hak
        have hsum := ih hrest
        simp only [lookup, hak, ↓reduceIte, List.map_cons, List.sum_cons]
        omega

theorem sum_insert (m : SortedMap κ ν) (f : ν → Nat) (k : κ) (v : ν) :
    (m.insert k v).sum f + ((m.get? k).map f).getD 0 = m.sum f + f v :=
  sum_place f k v m.sorted

omit [DecidableEq κ] in
/-- Values that count for nothing may be left out. -/
theorem sum_filter (m : SortedMap κ ν) (f : ν → Nat) :
    (m.filter fun _ v => decide (f v ≠ 0)).sum f = m.sum f := by
  have hlist (l : List (κ × ν)) :
      ((l.filter fun e => decide (f e.2 ≠ 0)).map fun e => f e.2).sum =
        (l.map fun e => f e.2).sum := by
    induction l with
    | nil => rfl
    | cons d rest ih =>
      by_cases h : f d.2 = 0
      · simpa [h] using ih
      · simpa [h] using ih
  exact hlist m.entries

end StakedCommittee.SortedMap
