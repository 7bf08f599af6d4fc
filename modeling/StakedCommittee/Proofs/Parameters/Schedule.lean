import StakedCommittee.Parameters.Schedule
import StakedCommittee.Proofs.SortedMap.Building

/-! Schedules, read off the upgrades that made them. At each height the parameters in force are
those of the upgrade that was added last among those that begin latest, of all that have begun by
then, and the base parameters where none has. So an upgrade matters from its own height to where the
next one begins, and only upgrades of one height depend on the order in which they are added. -/

namespace StakedCommittee

theorem KeyOrder.before_height_iff {a b : Height} : KeyOrder.before a b = true ↔ a < b := by
  rw [UInt64.lt_iff_toNat_lt]
  exact decide_eq_true_iff

namespace Schedule

variable {s t : Schedule} {height start : Height} {base p : Parameters}
  {upgrades : List (Height × Parameters)}

/-! ### The stage in force -/

theorem latest?_eq_some_iff :
    s.latest? height = some (start, p) ↔
      s.stages.get? start = some p ∧ start ≤ height ∧
        ∀ other q, s.stages.get? other = some q → other ≤ height → other ≤ start := by
  refine (SortedMap.getLast?_filter_eq_some_iff (p := fun k => decide (k ≤ height))).trans ?_
  simp only [decide_eq_true_eq, KeyOrder.before_height_iff, UInt64.not_lt]

theorem parametersAt_eq_ok_iff :
    s.parametersAt height = .ok p ↔ ∃ start, s.latest? height = some (start, p) := by
  unfold parametersAt
  cases s.latest? height with
  | none => simp
  | some stage => simp [Prod.ext_iff]

/-- The stage in force is decided by the stages from its own beginning on. -/
theorem latest?_congr (h : s.latest? height = some (start, p))
    (hsame : ∀ k, start ≤ k → k ≤ height → t.stages.get? k = s.stages.get? k) :
    t.latest? height = some (start, p) := by
  obtain ⟨hstage, hbegun, hmax⟩ := latest?_eq_some_iff.1 h
  refine latest?_eq_some_iff.2 ⟨?_, hbegun, fun other q hq hother => ?_⟩
  · rw [hsame start UInt64.le_rfl hbegun, hstage]
  · by_contra hlater
    have hle : start ≤ other := UInt64.le_of_lt (UInt64.not_le.1 hlater)
    exact hlater (hmax other q (hsame other hle hother ▸ hq) hother)

/-! ### Upgrades -/

/-- The schedule that upgrades make of base parameters, one after the other. -/
def ofUpgrades (base : Parameters) (upgrades : List (Height × Parameters)) : Schedule :=
  upgrades.foldl (fun s u => s.upgrade u.1 u.2) (.fixed base)

/-- `p` comes from the upgrade added last among those that begin latest, of all that have begun by a
height. -/
def LastBegun (upgrades : List (Height × Parameters)) (height : Height) (p : Parameters) : Prop :=
  ∃ before start after, upgrades = before ++ (start, p) :: after ∧ start ≤ height ∧
    (∀ u ∈ upgrades, u.1 ≤ height → u.1 ≤ start) ∧ ∀ u ∈ after, u.1 ≠ start

/-- The base parameters are an upgrade of height zero that comes first. -/
theorem ofUpgrades_eq (base : Parameters) (upgrades : List (Height × Parameters)) :
    ofUpgrades base upgrades = ⟨.ofList ((0, base) :: upgrades)⟩ := by
  have hfold (s : Schedule) : upgrades.foldl (fun s u => s.upgrade u.1 u.2) s =
      ⟨upgrades.foldl (fun m e => m.insert e.1 e.2) s.stages⟩ := by
    induction upgrades generalizing s with
    | nil => rfl
    | cons u rest ih => exact ih _
  exact hfold _

theorem parametersAt_ofList_iff {l : List (Height × Parameters)} :
    (⟨.ofList l⟩ : Schedule).parametersAt height = .ok p ↔ LastBegun l height p := by
  rw [parametersAt_eq_ok_iff]
  constructor
  · rintro ⟨start, hlatest⟩
    obtain ⟨hstage, hbegun, hmax⟩ := latest?_eq_some_iff.1 hlatest
    obtain ⟨before, after, hsplit, hafter⟩ := SortedMap.get?_ofList_eq_some_iff.1 hstage
    refine ⟨before, start, after, hsplit, hbegun, fun u hu hle => ?_, hafter⟩
    obtain ⟨q, hq⟩ := SortedMap.mem_keys_iff.1 (SortedMap.mem_keys_ofList.2 ⟨u.2, hu⟩)
    exact hmax u.1 q hq hle
  · rintro ⟨before, start, after, hsplit, hbegun, hmax, hafter⟩
    refine ⟨start, latest?_eq_some_iff.2 ⟨?_, hbegun, fun other q hq hle => ?_⟩⟩
    · exact SortedMap.get?_ofList_eq_some_iff.2 ⟨before, after, hsplit, hafter⟩
    · obtain ⟨q, hq⟩ := SortedMap.mem_keys_ofList.1 (SortedMap.mem_keys_iff.2 ⟨q, hq⟩)
      exact hmax (other, q) hq hle

theorem lastBegun_cons_base_iff :
    LastBegun ((0, base) :: upgrades) height p ↔
      LastBegun upgrades height p ∨ (∀ u ∈ upgrades, height < u.1) ∧ p = base := by
  constructor
  · rintro ⟨before, start, after, hsplit, hbegun, hmax, hafter⟩
    cases before with
    | nil =>
      obtain ⟨hfirst, rfl⟩ := List.cons.inj hsplit
      obtain ⟨rfl, rfl⟩ := Prod.mk.inj hfirst
      refine .inr ⟨fun u hu => UInt64.not_le.1 fun hle => hafter u hu ?_, rfl⟩
      exact UInt64.le_zero_iff.1 (hmax u (.tail _ hu) hle)
    | cons first before =>
      obtain ⟨-, rfl⟩ := List.cons.inj hsplit
      exact .inl ⟨before, start, after, rfl, hbegun, fun u hu => hmax u (.tail _ hu), hafter⟩
  · rintro (⟨before, start, after, rfl, hbegun, hmax, hafter⟩ | ⟨hnone, rfl⟩)
    · refine ⟨(0, base) :: before, start, after, rfl, hbegun, fun u hu hle => ?_, hafter⟩
      rcases List.mem_cons.1 hu with rfl | hu
      · exact UInt64.zero_le
      · exact hmax u hu hle
    · refine ⟨[], 0, upgrades, rfl, UInt64.zero_le, fun u hu hle => ?_, fun u hu hzero => ?_⟩
      · rcases List.mem_cons.1 hu with rfl | hu
        · exact UInt64.le_rfl
        · exact absurd hle (UInt64.not_le.2 (hnone u hu))
      · exact UInt64.not_lt.2 UInt64.zero_le (hzero ▸ hnone u hu)

/-- Since something is in force from height zero on, something is in force at every height. -/
theorem exists_latest? (base : Parameters) (upgrades : List (Height × Parameters))
    (height : Height) : ∃ stage, (ofUpgrades base upgrades).latest? height = some stage := by
  have hzero : (0 : Height) ∈ (ofUpgrades base upgrades).stages.keys := by
    rw [ofUpgrades_eq]
    exact SortedMap.mem_keys_ofList.2 ⟨base, .head _⟩
  obtain ⟨q, hq⟩ := SortedMap.mem_keys_iff.1 hzero
  have hne : ((ofUpgrades base upgrades).stages.entries.filter fun e => e.1 ≤ height) ≠ [] :=
    List.ne_nil_of_mem (List.mem_filter.2
      ⟨SortedMap.mem_entries_iff.2 hq, decide_eq_true UInt64.zero_le⟩)
  exact ⟨_, List.getLast?_eq_some_getLast hne⟩

/-- An upgrade that begins later, or that another has followed by then, is not noticed. -/
theorem parametersAt_of_added {before after : List (Height × Parameters)}
    {u : Height × Parameters}
    (h : height < u.1 ∨ ∃ w ∈ before ++ after, u.1 < w.1 ∧ w.1 ≤ height) :
    (ofUpgrades base (before ++ u :: after)).parametersAt height =
      (ofUpgrades base (before ++ after)).parametersAt height := by
  obtain ⟨⟨start, p⟩, hlatest⟩ := exists_latest? base (before ++ after) height
  have hadded : (ofUpgrades base (before ++ u :: after)).latest? height = some (start, p) := by
    refine latest?_congr hlatest fun k hstart hheight => ?_
    have hne : u.1 ≠ k := by
      rcases h with hlater | ⟨w, hw, huw, hbegun⟩
      · exact (UInt64.ne_of_lt (UInt64.lt_of_le_of_lt hheight hlater)).symm
      · have hkey : w.1 ∈ (ofUpgrades base (before ++ after)).stages.keys := by
          rw [ofUpgrades_eq]
          exact SortedMap.mem_keys_ofList.2 ⟨w.2, .tail _ hw⟩
        obtain ⟨q, hq⟩ := SortedMap.mem_keys_iff.1 hkey
        have hle := (latest?_eq_some_iff.1 hlatest).2.2 w.1 q hq hbegun
        exact UInt64.ne_of_lt (UInt64.lt_of_lt_of_le huw (UInt64.le_trans hle hstart))
    rw [ofUpgrades_eq, ofUpgrades_eq, SortedMap.get?_ofList, SortedMap.get?_ofList]
    simp [List.filter_cons, hne]
  unfold parametersAt
  rw [hlatest, hadded]

/-- Upgrades of different heights may be added in any order. -/
theorem ofUpgrades_congr {other : List (Height × Parameters)}
    (h : ∀ start, (other.filter fun u => u.1 = start) = upgrades.filter fun u => u.1 = start) :
    ofUpgrades base other = ofUpgrades base upgrades := by
  rw [ofUpgrades_eq, ofUpgrades_eq]
  refine congrArg Schedule.mk (SortedMap.ofList_congr fun k => ?_)
  rw [List.filter_cons, List.filter_cons, h]

/-- Where no height is repeated, a rearranged list has the same upgrade at each height. -/
theorem filter_eq_of_perm {other : List (Height × Parameters)} (hperm : other.Perm upgrades)
    (hnodup : (upgrades.map (·.1)).Nodup) (start : Height) :
    (other.filter fun u => u.1 = start) = upgrades.filter fun u => u.1 = start := by
  have hsame := hperm.filter fun u => u.1 = start
  have hdistinct := (List.pairwise_map.1 hnodup).filter fun u => u.1 = start
  have hstart : ∀ u ∈ upgrades.filter fun u => u.1 = start, u.1 = start :=
    fun u hu => of_decide_eq_true (List.mem_filter.1 hu).2
  generalize (upgrades.filter fun u => u.1 = start) = found at hsame hdistinct hstart ⊢
  match found with
  | [] => exact hsame.eq_nil
  | [u] => exact List.perm_singleton.1 hsame
  | u :: w :: rest =>
    have hne := (List.pairwise_cons.1 hdistinct).1 w (.head _)
    exact absurd ((hstart u (.head _)).trans (hstart w (.tail _ (.head _))).symm) hne

/-- At every height a schedule made by upgrades has parameters. They are those of the last upgrade
among those with the greatest height that has been reached, and the base parameters where none has
been. So an upgrade added anywhere among the others changes nothing below its height, and nothing
from the next greater height on at which an upgrade begins. Only among upgrades of one height does
the order count, so where no two have the same height they may be added in any order. -/
theorem follows_upgrades (base : Parameters) (upgrades : List (Height × Parameters))
    (height : Height) :
    (∃ p, (ofUpgrades base upgrades).parametersAt height = .ok p) ∧
    (∀ p, (ofUpgrades base upgrades).parametersAt height = .ok p ↔
      LastBegun upgrades height p ∨ (∀ u ∈ upgrades, height < u.1) ∧ p = base) ∧
    (∀ before after u, upgrades = before ++ after →
      (height < u.1 ∨ ∃ w ∈ upgrades, u.1 < w.1 ∧ w.1 ≤ height) →
      (ofUpgrades base (before ++ u :: after)).parametersAt height =
        (ofUpgrades base upgrades).parametersAt height) ∧
    (∀ other, (∀ start, (other.filter fun u => u.1 = start) =
        upgrades.filter fun u => u.1 = start) →
      ofUpgrades base other = ofUpgrades base upgrades) ∧
    ∀ other, other.Perm upgrades → (upgrades.map (·.1)).Nodup →
      ofUpgrades base other = ofUpgrades base upgrades := by
  refine ⟨?_, fun p => ?_, ?_, fun other h => ofUpgrades_congr h, fun other hperm hnodup => ?_⟩
  · obtain ⟨⟨start, p⟩, hlatest⟩ := exists_latest? base upgrades height
    exact ⟨p, parametersAt_eq_ok_iff.2 ⟨start, hlatest⟩⟩
  · rw [ofUpgrades_eq, parametersAt_ofList_iff, lastBegun_cons_base_iff]
  · rintro before after u rfl h
    exact parametersAt_of_added h
  · exact ofUpgrades_congr (filter_eq_of_perm hperm hnodup)

/-- Of two upgrades at height 100 the later counts there, and one more at height 50 does not;
upgrades at 3 and at 7 may be exchanged. -/
theorem follows_upgrades_with_repeats :
    let seats (n : Nat) : Parameters := { Parameters.standard with seats := n }
    let rest : List (Height × Parameters) := [(0, seats 2), (100, seats 3)]
    let distinct : List (Height × Parameters) := [(7, seats 4), (3, seats 5)]
    (ofUpgrades .standard ((100, seats 1) :: rest)).parametersAt 100 = .ok (seats 3) ∧
    (ofUpgrades .standard ((100, seats 1) :: (50, seats 6) :: rest)).parametersAt 100 =
      (ofUpgrades .standard ((100, seats 1) :: rest)).parametersAt 100 ∧
    (distinct.map (·.1)).Nodup ∧
    ofUpgrades .standard [(3, seats 5), (7, seats 4)] = ofUpgrades .standard distinct := by
  intro seats rest distinct
  obtain ⟨-, hiff, hadded, -, -⟩ := follows_upgrades .standard ((100, seats 1) :: rest) 100
  obtain ⟨-, -, -, -, hperm⟩ := follows_upgrades .standard distinct 0
  have hlast : LastBegun ((100, seats 1) :: rest) 100 (seats 3) :=
    ⟨[(100, seats 1), (0, seats 2)], 100, [], rfl, by decide, by decide, by decide⟩
  have hfollowed : ∃ w ∈ (100, seats 1) :: rest, (50 : Height) < w.1 ∧ w.1 ≤ 100 :=
    ⟨(100, seats 1), .head _, by decide, by decide⟩
  have hnodup : (distinct.map (·.1)).Nodup := by decide
  exact ⟨(hiff _).2 (.inl hlast), hadded [(100, seats 1)] rest (50, seats 6) rfl (.inr hfollowed),
    hnodup, hperm _ (List.Perm.swap ..) hnodup⟩

end Schedule

end StakedCommittee
