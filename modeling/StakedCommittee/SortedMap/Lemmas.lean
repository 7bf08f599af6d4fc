import StakedCommittee.SortedMap.Basic

/-! What each operation on a sorted map does to its look-ups, and the fact that look-ups decide
equality of maps. -/

namespace StakedCommittee.SortedMap

variable {κ ν : Type}

theorem lookup_eq_none [DecidableEq κ] {k : κ} {l : List (κ × ν)} (h : ∀ e ∈ l, e.1 ≠ k) :
    lookup k l = none := by
  induction l with
  | nil => rfl
  | cons d rest ih =>
    obtain ⟨a, v⟩ := d
    rw [lookup, if_neg (h _ (.head _)), ih fun e he => h e (.tail _ he)]

theorem mem_of_lookup [DecidableEq κ] {k : κ} {v : ν} {l : List (κ × ν)}
    (h : lookup k l = some v) : (k, v) ∈ l := by
  induction l with
  | nil => simp [lookup] at h
  | cons d rest ih =>
    obtain ⟨a, w⟩ := d
    by_cases ha : a = k
    · simp_all [lookup]
    · exact .tail _ (ih (by simpa [lookup, ha] using h))

variable [KeyOrder κ] [DecidableEq κ]

/-- A key before every key of a list is not in it. -/
theorem lookup_eq_none_of_before {k : κ} {l : List (κ × ν)}
    (h : ∀ e ∈ l, KeyOrder.before k e.1 = true) : lookup k l = none :=
  lookup_eq_none fun e he => (KeyOrder.ne_of_before (h e he)).symm

/-- A key before the first key of a sorted list is not in the list. -/
theorem lookup_eq_none_of_before_head {k : κ} {d : κ × ν} {l : List (κ × ν)}
    (hd : ∀ e ∈ l, KeyOrder.before d.1 e.1 = true) (h : KeyOrder.before k d.1 = true) :
    lookup k (d :: l) = none :=
  lookup_eq_none_of_before fun e he => by
    rcases List.mem_cons.1 he with rfl | he
    · exact h
    · exact KeyOrder.trans h (hd e he)

theorem lookup_of_mem {k : κ} {v : ν} {l : List (κ × ν)}
    (hl : l.Pairwise fun a b => KeyOrder.before a.1 b.1 = true) (h : (k, v) ∈ l) :
    lookup k l = some v := by
  induction l with
  | nil => simp at h
  | cons d rest ih =>
    obtain ⟨a, w⟩ := d
    obtain ⟨hd, hrest⟩ := List.pairwise_cons.1 hl
    rcases List.mem_cons.1 h with h | h
    · cases h
      simp [lookup]
    · rw [lookup, if_neg (KeyOrder.ne_of_before (hd _ h)), ih hrest h]

theorem mem_entries_iff {m : SortedMap κ ν} {k : κ} {v : ν} :
    (k, v) ∈ m.entries ↔ m.get? k = some v :=
  ⟨lookup_of_mem m.sorted, mem_of_lookup⟩

theorem lookup_place (k j : κ) (v : ν) (l : List (κ × ν)) :
    lookup j (place k v l) = if k = j then some v else lookup j l := by
  induction l with
  | nil => simp [place, lookup]
  | cons d rest ih =>
    obtain ⟨a, w⟩ := d
    simp only [place]
    split
    · simp [lookup]
    · split
      · rename_i hak
        subst hak
        by_cases hj : a = j <;> simp [lookup, hj]
      · rename_i hak
        by_cases hj : a = j
        · subst hj
          simp [lookup, Ne.symm hak]
        · simp [lookup, hj, ih]

@[simp] theorem get?_empty (k : κ) : (empty : SortedMap κ ν).get? k = none := rfl

theorem get?_insert (m : SortedMap κ ν) (k j : κ) (v : ν) :
    (m.insert k v).get? j = if k = j then some v else m.get? j :=
  lookup_place k j v m.entries

@[simp] theorem get?_insert_self (m : SortedMap κ ν) (k : κ) (v : ν) :
    (m.insert k v).get? k = some v := by simp [get?_insert]

theorem get?_insert_of_ne (m : SortedMap κ ν) {k j : κ} (v : ν) (h : k ≠ j) :
    (m.insert k v).get? j = m.get? j := by simp [get?_insert, h]

theorem get?_erase (m : SortedMap κ ν) (k j : κ) :
    (m.erase k).get? j = if k = j then none else m.get? j := by
  have hlist (l : List (κ × ν)) :
      lookup j (l.filter fun e => decide (e.1 ≠ k)) = if k = j then none else lookup j l := by
    induction l with
    | nil => simp [lookup]
    | cons d rest ih =>
      obtain ⟨a, w⟩ := d
      by_cases ha : a = k
      · subst ha
        by_cases hj : a = j <;> simp_all [lookup]
      · by_cases hj : a = j
        · subst hj
          simp [lookup, ha, Ne.symm ha]
        · simp_all [lookup]
  exact hlist m.entries

/-- Two maps with the same look-ups are equal. -/
theorem ext_get? {m n : SortedMap κ ν} (h : ∀ k, m.get? k = n.get? k) : m = n := by
  obtain ⟨l, hl⟩ := m
  obtain ⟨r, hr⟩ := n
  simp only [get?] at h
  apply SortedMap.ext
  show l = r
  induction l generalizing r with
  | nil =>
    cases r with
    | nil => rfl
    | cons d r =>
      obtain ⟨b, w⟩ := d
      simpa [lookup] using h b
  | cons c l ih =>
    obtain ⟨a, v⟩ := c
    obtain ⟨ha, hl'⟩ := List.pairwise_cons.1 hl
    cases r with
    | nil => simpa [lookup] using h a
    | cons d r =>
      obtain ⟨b, w⟩ := d
      obtain ⟨hb, hr'⟩ := List.pairwise_cons.1 hr
      have hab : a = b := by
        rcases KeyOrder.total a b with hlt | heq | hgt
        · have hk := h a
          rw [lookup_eq_none_of_before_head hb hlt] at hk
          simp [lookup] at hk
        · exact heq
        · have hk := h b
          rw [lookup_eq_none_of_before_head ha hgt] at hk
          simp [lookup] at hk
      subst hab
      have hvw : v = w := by simpa [lookup] using h a
      subst hvw
      congr 1
      refine ih hl' r hr' fun k => ?_
      by_cases hk : a = k
      · subst hk
        rw [lookup_eq_none_of_before ha, lookup_eq_none_of_before hb]
      · simpa [lookup, hk] using h k

end StakedCommittee.SortedMap
