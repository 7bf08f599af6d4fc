import Mathlib.Data.List.Basic
import Mathlib.Data.List.Induction
import StakedCommittee.SortedMap.Lemmas

/-! Maps built from lists of entries, and the keys of a map in order. A map built from a list has
under each key what the last entry of that key says; of its keys up to a bound the last listed is
the greatest. -/

namespace StakedCommittee.SortedMap

variable {κ ν : Type} [KeyOrder κ]

theorem sorted_keys (m : SortedMap κ ν) :
    m.keys.Pairwise fun a c => KeyOrder.before a c = true := List.pairwise_map.2 m.sorted

theorem nodup_keys (m : SortedMap κ ν) : m.keys.Nodup := m.sorted_keys.imp KeyOrder.ne_of_before

variable [DecidableEq κ]

theorem ofList_concat (l : List (κ × ν)) (e : κ × ν) :
    ofList (l ++ [e]) = (ofList l).insert e.1 e.2 := List.foldl_concat ..

theorem get?_ofList (l : List (κ × ν)) (k : κ) :
    (ofList l).get? k = (l.filter fun e => e.1 = k).getLast?.map (·.2) := by
  induction l using List.reverseRecOn with
  | nil => rfl
  | append_singleton before e ih =>
    rw [ofList_concat, get?_insert, ih, List.filter_append]
    by_cases he : e.1 = k
    · simp [he]
    · simp [he]

/-- Entries of different keys may be listed in any order. -/
theorem ofList_congr {l r : List (κ × ν)}
    (h : ∀ k, (l.filter fun e => e.1 = k) = r.filter fun e => e.1 = k) : ofList l = ofList r :=
  ext_get? fun k => by rw [get?_ofList, get?_ofList, h]

/-- Of the entries of one key the last counts. -/
theorem get?_ofList_eq_some_iff {l : List (κ × ν)} {k : κ} {v : ν} :
    (ofList l).get? k = some v ↔
      ∃ before after, l = before ++ (k, v) :: after ∧ ∀ e ∈ after, e.1 ≠ k := by
  rw [get?_ofList]
  constructor
  · intro h
    obtain ⟨⟨j, w⟩, hlast, rfl⟩ := Option.map_eq_some_iff.1 h
    obtain ⟨front, hfront⟩ := List.getLast?_eq_some_iff.1 hlast
    obtain ⟨before, rest, rfl, -, hrest⟩ := List.filter_eq_append_iff.1 hfront
    obtain ⟨between, after, rfl, -, hkey, hafter⟩ := List.filter_eq_cons_iff.1 hrest
    obtain rfl : j = k := of_decide_eq_true hkey
    refine ⟨before ++ between, after, (List.append_assoc ..).symm, fun e he heq => ?_⟩
    exact List.filter_eq_nil_iff.1 hafter e he (decide_eq_true heq)
  · rintro ⟨before, after, rfl, hafter⟩
    have hnone : (after.filter fun e => e.1 = k) = [] :=
      List.filter_eq_nil_iff.2 fun e he heq => hafter e he (of_decide_eq_true heq)
    simp [hnone]

theorem mem_keys_iff {m : SortedMap κ ν} {k : κ} : k ∈ m.keys ↔ ∃ v, m.get? k = some v := by
  unfold keys
  rw [List.mem_map]
  constructor
  · rintro ⟨e, he, rfl⟩
    exact ⟨e.2, mem_entries_iff.1 he⟩
  · rintro ⟨v, hv⟩
    exact ⟨(k, v), mem_entries_iff.2 hv, rfl⟩

theorem mem_keys_ofList {l : List (κ × ν)} {k : κ} :
    k ∈ (ofList l).keys ↔ ∃ v, (k, v) ∈ l := by
  rw [mem_keys_iff]
  constructor
  · rintro ⟨v, hv⟩
    obtain ⟨before, after, rfl, -⟩ := get?_ofList_eq_some_iff.1 hv
    exact ⟨v, by simp⟩
  · rintro ⟨v, hv⟩
    have hne : (l.filter fun e => e.1 = k) ≠ [] :=
      List.ne_nil_of_mem (List.mem_filter.2 ⟨hv, decide_eq_true rfl⟩)
    rw [get?_ofList, List.getLast?_eq_some_getLast hne]
    exact ⟨_, rfl⟩

/-- Of the entries whose keys satisfy `p` the last listed is the one with the greatest key. -/
theorem getLast?_filter_eq_some_iff {m : SortedMap κ ν} {p : κ → Bool} {k : κ} {v : ν} :
    (m.entries.filter fun e => p e.1).getLast? = some (k, v) ↔
      m.get? k = some v ∧ p k = true ∧
        ∀ j w, m.get? j = some w → p j = true → ¬ KeyOrder.before k j = true := by
  have hgreatest {e : κ × ν} (h : (m.entries.filter fun e => p e.1).getLast? = some e) :
      m.get? e.1 = some e.2 ∧ p e.1 = true ∧
        ∀ j w, m.get? j = some w → p j = true → ¬ KeyOrder.before e.1 j = true := by
    obtain ⟨front, hfront⟩ := List.getLast?_eq_some_iff.1 h
    have hlisted := List.mem_filter.1 (List.mem_of_getLast? h)
    refine ⟨mem_entries_iff.1 hlisted.1, hlisted.2, fun j w hj hpj hbefore => ?_⟩
    have hmem : (j, w) ∈ front ++ [e] := by
      rw [← hfront]
      exact List.mem_filter.2 ⟨mem_entries_iff.2 hj, hpj⟩
    have hsorted := m.sorted.filter fun e => p e.1
    rw [hfront, List.pairwise_append] at hsorted
    rcases List.mem_append.1 hmem with hfront | hlast
    · have hcycle := KeyOrder.trans (hsorted.2.2 _ hfront e (by simp)) hbefore
      exact KeyOrder.ne_of_before hcycle rfl
    · obtain rfl := List.mem_singleton.1 hlast
      exact KeyOrder.ne_of_before hbefore rfl
  constructor
  · exact hgreatest
  · rintro ⟨hv, hp, hmax⟩
    have hne : (m.entries.filter fun e => p e.1) ≠ [] :=
      List.ne_nil_of_mem (List.mem_filter.2 ⟨mem_entries_iff.2 hv, hp⟩)
    obtain ⟨⟨j, w⟩, hlast⟩ : ∃ e, (m.entries.filter fun e => p e.1).getLast? = some e :=
      ⟨_, List.getLast?_eq_some_getLast hne⟩
    obtain ⟨hw, hpj, hjmax⟩ := hgreatest hlast
    obtain rfl : j = k :=
      ((KeyOrder.total j k).resolve_left (hjmax k v hv hp)).resolve_right (hmax j w hw hpj)
    rw [hlast, Option.some.inj (hv.symm.trans hw)]

end StakedCommittee.SortedMap
