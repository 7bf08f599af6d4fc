import StakedCommittee.Store.Basic
import StakedCommittee.SortedMap.Lemmas

/-! Scans. A scan looks at part of a store only: it begins at the first key that does not come
before the start, and ends at the first key that does not begin with it. Nothing is missed, because
in lexicographic order the keys that begin alike stand together, and none stands before what they
begin with. -/

namespace StakedCommittee

/-- What stands between `s` and a string that begins with `s` begins with `s` too. -/
theorem Bytes.prefix_of_between {s t u : Bytes} (hst : ¬ t < s) (htu : t < u) (h : s <+: u) :
    s <+: t := by
  induction s generalizing t u with
  | nil => exact t.nil_prefix
  | cons a s ih =>
    obtain ⟨v, rfl⟩ := h
    cases t with
    | nil => exact absurd (List.nil_lt_cons a s) hst
    | cons b t =>
      rw [List.cons_append, List.cons_lt_cons_iff] at htu
      rw [List.cons_lt_cons_iff, not_or, not_and] at hst
      obtain ⟨rfl, hrest⟩ := htu.resolve_left hst.1
      exact List.cons_prefix_cons.2 ⟨rfl, ih (hst.2 rfl) hrest (s.prefix_append v)⟩

namespace Store

variable {start : Bytes} {l : List (Bytes × Bytes)}

/-- Behind the start of a scan the keys that begin with it come first. -/
theorem takeWhile_eq_filter (hl : l.Pairwise fun a b => KeyOrder.before a.1 b.1 = true)
    (hstart : ∀ e ∈ l, ¬ KeyOrder.before e.1 start = true) :
    (l.takeWhile fun e => start.isPrefixOf e.1) = l.filter fun e => start.isPrefixOf e.1 := by
  induction l with
  | nil => rfl
  | cons d rest ih =>
    obtain ⟨hd, hrest⟩ := List.pairwise_cons.1 hl
    obtain ⟨hstartd, hstartrest⟩ := List.forall_mem_cons.1 hstart
    rw [List.takeWhile_cons, List.filter_cons]
    by_cases hprefix : start.isPrefixOf d.1 = true
    · rw [if_pos hprefix, if_pos hprefix, ih hrest hstartrest]
    · rw [if_neg hprefix, if_neg hprefix, eq_comm, List.filter_eq_nil_iff]
      intro e he hbegins
      rw [List.isPrefixOf_iff_prefix] at hbegins hprefix
      rw [KeyOrder.before_bytes_iff] at hstartd
      have hafter := KeyOrder.before_bytes_iff.1 (hd e he)
      exact hprefix (Bytes.prefix_of_between hstartd hafter hbegins)

/-- A scan finds all entries whose keys begin with `start`, in key order. -/
theorem scan_eq_filter (s : Store) (start : Bytes) :
    s.scan start = s.entries.filter fun e => start.isPrefixOf e.1 := by
  have hlist (l : List (Bytes × Bytes))
      (hl : l.Pairwise fun a b => KeyOrder.before a.1 b.1 = true) :
      ((l.dropWhile fun e => KeyOrder.before e.1 start).takeWhile fun e => start.isPrefixOf e.1) =
        l.filter fun e => start.isPrefixOf e.1 := by
    induction l with
    | nil => rfl
    | cons d rest ih =>
      obtain ⟨hd, hrest⟩ := List.pairwise_cons.1 hl
      by_cases hbefore : KeyOrder.before d.1 start = true
      · have hprefix : ¬ start.isPrefixOf d.1 = true := fun h => by
          rw [List.isPrefixOf_iff_prefix] at h
          exact List.not_lt.2 h.le (KeyOrder.before_bytes_iff.1 hbefore)
        rw [List.dropWhile_cons, if_pos hbefore, List.filter_cons, if_neg hprefix, ih hrest]
      · rw [List.dropWhile_cons, if_neg hbefore]
        refine takeWhile_eq_filter hl fun e he h => ?_
        rcases List.mem_cons.1 he with rfl | he
        · exact hbefore h
        · exact hbefore (KeyOrder.trans (hd e he) h)
  exact hlist s.entries s.sorted

theorem mem_scan_iff {s : Store} {key value : Bytes} :
    (key, value) ∈ s.scan start ↔ s.get? key = some value ∧ start <+: key := by
  rw [scan_eq_filter, List.mem_filter, SortedMap.mem_entries_iff, List.isPrefixOf_iff_prefix]

/-- What a scan finds stands in strictly ascending order of the keys' bytes. -/
theorem sorted_scan (s : Store) (start : Bytes) :
    (s.scan start).Pairwise fun d e => d.1 < e.1 := by
  rw [scan_eq_filter]
  exact (s.sorted.filter _).imp KeyOrder.before_bytes_iff.1

end Store

end StakedCommittee
