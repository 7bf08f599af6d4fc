import StakedCommittee.Proofs.Registry.Moves

/-! The version of the roster. Moves and reports leave it as it was read, and it goes up by one when
the draft is stored, if anything else has changed by then. So rosters stored at different times of a
run have different versions or are the same, until the versions run out. -/

namespace StakedCommittee

open Relation

/-- How a roster goes on when a call is made. -/
inductive Roster.Next (r : Roster) : Roster → Prop
  | same : Next r r
  | changed {next : Roster} (version : next.version = countUp r.version)
      (other : { next with version := r.version } ≠ r) : Next r next

namespace Roster

variable {r next : Roster}

/-- As long as there are versions, a changed roster takes the next one. -/
theorem Next.same_or_counted (h : r.Next next) (hroom : r.version < 0xffffffffffffffff) :
    next = r ∨
      next.version.toNat = r.version.toNat + 1 ∧ { next with version := r.version } ≠ r := by
  cases h with
  | same => exact .inl rfl
  | changed version other =>
    refine .inr ⟨?_, other⟩
    have hlt : r.version.toNat < 0xffffffffffffffff := UInt64.lt_iff_toNat_lt.1 hroom
    rw [version, toNat_countUp]
    omega

/-- Versions never go down, and a version that comes back is that of the same roster. -/
theorem version_le_of_nexts (h : ReflTransGen Next r next) :
    r.version ≤ next.version ∧
      (r.version = next.version → r.version < 0xffffffffffffffff → next = r) := by
  simp only [UInt64.le_iff_toNat_le, UInt64.lt_iff_toNat_lt, ← UInt64.toNat_inj]
  induction h with
  | refl => exact ⟨Nat.le_refl _, fun _ _ => rfl⟩
  | @tail mid next _ hnext ih =>
    obtain ⟨hle, hsame⟩ := ih
    cases hnext with
    | same => exact ⟨hle, hsame⟩
    | changed version =>
      have hmid := mid.version.toNat_lt
      rw [version, toNat_countUp]
      refine ⟨by omega, fun heq hroom => ?_⟩
      -- A version that grew to that of `r` was below it before.
      change r.version.toNat < 0xffffffffffffffff at hroom
      omega

end Roster

theorem Book.version_of_move {p : Parameters} {b after : Book} (h : b.Move p after) :
    after.roster.version = b.roster.version :=
  h.roster_eq Roster.version_join Roster.version_refresh Roster.version_seat Roster.version_release

/-- No call changes the version itself. -/
theorem Call.version_of_effect {source : ParameterSource} {c : Call} {b : Book} {a : c.Answer}
    {w : Desk} (h : c.effect source ⟨b, []⟩ = .ok (a, w)) :
    w.book.roster.version = b.roster.version := by
  obtain ⟨p, hp⟩ := exists_goesBy h
  exact preserve_effect (P := fun after => after.roster.version = b.roster.version) hp h
    (fun hbefore hmove => (Book.version_of_move hmove).trans hbefore) (fun _ hbefore => hbefore) rfl

theorem Desk.next_stored {b : Book} {w : Desk} (h : w.book.roster.version = b.roster.version) :
    b.roster.Next (w.stored b).roster := by
  unfold stored
  split
  · rename_i hsame
    rw [hsame]
    exact .same
  · rename_i hchanged
    refine .changed rfl fun hback => hchanged ?_
    rw [← hback, ← h]
    rfl

theorem Registry.exists_next {reg : Registry} {b : Book} (hb : reg.store.Holds b)
    (source : ParameterSource) (faults : Faults) (c : Call) :
    ∃ next, (reg.call source faults c).2.store.Holds next ∧ b.roster.Next next.roster := by
  obtain ⟨next, hnext, rfl | ⟨a, w, heffect, rfl⟩⟩ := holds_call hb source faults c
  · exact ⟨next, hnext, .same⟩
  · exact ⟨_, hnext, Desk.next_stored (Call.version_of_effect heffect)⟩

namespace Run

theorem exists_nexts (l : Ledger) (steps more : List Step) {b : Book}
    (hb : (of l steps).registry.store.Holds b) :
    ∃ next, (of l (steps ++ more)).registry.store.Holds next ∧
      ReflTransGen Roster.Next b.roster next.roster := by
  induction more using List.reverseRecOn with
  | nil =>
    rw [List.append_nil]
    exact ⟨b, hb, .refl⟩
  | append_singleton before s ih =>
    obtain ⟨mid, hmid, hnexts⟩ := ih
    obtain ⟨next, hnext, hstep⟩ := Registry.exists_next hmid s.source s.faults s.call
    rw [← List.append_assoc, of_concat]
    exact ⟨next, hnext, hnexts.tail hstep⟩

/-- The first roster has version one. As long as there are versions, every call leaves the stored
roster as it is, byte by byte, or changes it and takes the next version. So versions never go down,
and two rosters of one version that are stored at different times of a run are the same. -/
theorem version_identifies_roster (l : Ledger) (steps more : List Step) :
    let store := (of l steps).registry.store
    let later := (of l (steps ++ more)).registry.store
    Query.roster.answer (of l []).registry.store = .ok { version := 1 } ∧
    ∃ r next, Query.roster.answer store = .ok r ∧ Query.roster.answer later = .ok next ∧
      (∀ s : Step, r.version < 0xffffffffffffffff →
        let after := ((of l steps).extend s).registry.store
        after.get? Layout.rosterKey = store.get? Layout.rosterKey ∨
        ∃ changed, Query.roster.answer after = .ok changed ∧
          changed.version.toNat = r.version.toNat + 1 ∧ { changed with version := r.version } ≠ r) ∧
      r.version ≤ next.version ∧
      (r.version = next.version → r.version < 0xffffffffffffffff →
        next = r ∧ later.get? Layout.rosterKey = store.get? Layout.rosterKey) := by
  intro store later
  obtain ⟨b, hb, -⟩ := exists_nexts l [] steps (Registry.holds_founded l)
  obtain ⟨c, hc, hnexts⟩ := exists_nexts l steps more hb
  obtain ⟨hle, hsame⟩ := Roster.version_le_of_nexts hnexts
  refine ⟨(Registry.holds_founded l).answer_roster, b.roster, c.roster, hb.answer_roster,
    hc.answer_roster, ?_, hle, ?_⟩
  · intro s hroom after
    obtain ⟨d, hd, hnext⟩ := Registry.exists_next hb s.source s.faults s.call
    refine (hnext.same_or_counted hroom).imp (fun hroster => ?_) fun hcounted =>
      ⟨d.roster, hd.answer_roster, hcounted⟩
    exact hd.roster.trans (hroster ▸ hb.roster.symm)
  · intro hversion hroom
    have hroster := hsame hversion hroom
    exact ⟨hroster, hc.roster.trans (hroster ▸ hb.roster.symm)⟩

/-- One who comes and goes leaves the roster as it was, but for two versions. -/
example :
    let source : ParameterSource := .always .standard
    let steps : List Step := [.enroll source 1 "alice" 0 3000,
      ⟨source, {}, .revoke 2 ⟨"alice"⟩⟩, ⟨source, {}, .report⟩]
    Query.roster.answer (of (.funded .greatest ["alice"]) steps).registry.store =
      .ok { version := 3 } := by
  decide +kernel

end Run

end StakedCommittee
