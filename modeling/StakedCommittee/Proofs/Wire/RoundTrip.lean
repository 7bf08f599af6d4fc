import StakedCommittee.Wire.Record

/-! What a reader takes off the front of a byte string is exactly the written form of its answer.
Each reader gets one equivalence: it answers `a` and leaves `rest` if and only if the input is the
written form of `a` followed by `rest`. Reading therefore gives back what was written, and accepts
nothing else. -/

namespace StakedCommittee

theorem Bytes.littleEndian_ofLittleEndian (bytes : Bytes) :
    littleEndian bytes.length (ofLittleEndian bytes) = bytes := by
  induction bytes with
  | nil => rfl
  | cons b rest ih =>
    have hb := b.toNat_lt
    have hmod : UInt8.ofNat (b.toNat + 256 * ofLittleEndian rest) = b := by
      apply UInt8.toNat.inj
      rw [UInt8.toNat_ofNat']
      omega
    have hdiv : (b.toNat + 256 * ofLittleEndian rest) / 256 = ofLittleEndian rest := by omega
    rw [List.length_cons, ofLittleEndian, littleEndian, hmod, hdiv, ih]

namespace Wire

variable {α β : Type}

theorem run_pure_iff {a b : α} {input rest : Bytes} :
    (pure a : Reader α).run input = .ok (b, rest) ↔ b = a ∧ input = rest := by
  show Except.ok (a, input) = Except.ok (b, rest) ↔ _
  rw [Except.ok.injEq, Prod.mk.injEq, eq_comm]

theorem run_bind_iff {r : Reader α} {next : α → Reader β} {b : β} {input rest : Bytes} :
    (r >>= next).run input = .ok (b, rest) ↔
      ∃ a mid, r.run input = .ok (a, mid) ∧ (next a).run mid = .ok (b, rest) := by
  rw [StateT.run_bind]
  cases h : r.run input with
  | error fault => simp [bind, Except.bind]
  | ok found =>
    constructor
    · intro hnext
      exact ⟨found.1, found.2, rfl, hnext⟩
    · rintro ⟨a, mid, hfound, hnext⟩
      cases hfound
      exact hnext

/-! ### Numbers and bytes -/

theorem run_readBytes_iff {n : Nat} {b : { b : Bytes // b.length = n }} {input rest : Bytes} :
    (readBytes n).run input = .ok (b, rest) ↔ input = b.val ++ rest := by
  obtain ⟨b, rfl⟩ := b
  show readBytes b.length input = _ ↔ _
  unfold readBytes
  split
  · rename_i hshort
    constructor
    · intro h
      cases h
    · rintro rfl
      exact absurd hshort (by simp)
  · constructor
    · intro h
      injection h with h
      injection h with htake hdrop
      injection htake with htake
      rw [← htake, ← hdrop, List.take_append_drop]
    · rintro rfl
      simp

theorem run_readByte_iff {b : UInt8} {input rest : Bytes} :
    readByte.run input = .ok (b, rest) ↔ input = b :: rest := by
  cases input with
  | nil =>
    show Except.error DecodeFault.endOfData = _ ↔ _
    simp
  | cons c input =>
    show Except.ok (c, input) = _ ↔ _
    simp

theorem run_readNumber_iff {width : Nat} {n : { n : Nat // n < Bytes.capacity width }}
    {input rest : Bytes} :
    (readNumber width).run input = .ok (n, rest) ↔
      input = Bytes.littleEndian width n.val ++ rest := by
  unfold readNumber
  rw [run_bind_iff]
  constructor
  · rintro ⟨⟨b, rfl⟩, mid, hb, hn⟩
    rw [run_readBytes_iff] at hb
    obtain ⟨rfl, rfl⟩ := run_pure_iff.1 hn
    rw [hb, Bytes.littleEndian_ofLittleEndian]
  · rintro rfl
    refine ⟨⟨Bytes.littleEndian width n.val, Bytes.length_littleEndian width n.val⟩, rest,
      run_readBytes_iff.2 rfl, run_pure_iff.2 ⟨Subtype.ext ?_, rfl⟩⟩
    exact ((Bytes.ofLittleEndian_littleEndian width n.val).trans (Nat.mod_eq_of_lt n.property)).symm

theorem run_readWord_iff {w : UInt64} {input rest : Bytes} :
    readWord.run input = .ok (w, rest) ↔ input = word w ++ rest := by
  unfold readWord
  rw [run_bind_iff]
  constructor
  · rintro ⟨⟨n, hn⟩, mid, hnum, hw⟩
    obtain ⟨rfl, rfl⟩ := run_pure_iff.1 hw
    rw [run_readNumber_iff] at hnum
    rw [hnum, word, UInt64.toNat_ofNat_of_lt' hn]
  · rintro rfl
    exact ⟨⟨w.toNat, w.toNat_lt⟩, rest, run_readNumber_iff.2 rfl,
      run_pure_iff.2 ⟨(UInt64.ofNat_toNat).symm, rfl⟩⟩

theorem run_readAmount_iff {a : Amount} {input rest : Bytes} :
    readAmount.run input = .ok (a, rest) ↔ input = amount a ++ rest := by
  unfold readAmount
  rw [run_bind_iff]
  constructor
  · rintro ⟨n, mid, hnum, ha⟩
    obtain ⟨rfl, rfl⟩ := run_pure_iff.1 ha
    exact run_readNumber_iff.1 hnum
  · rintro rfl
    exact ⟨⟨a.units, a.units_lt⟩, rest, run_readNumber_iff.2 rfl, run_pure_iff.2 ⟨rfl, rfl⟩⟩

theorem run_readKey_iff {k : ConsensusKey} {input rest : Bytes} :
    readKey.run input = .ok (k, rest) ↔ input = k.bytes ++ rest := by
  unfold readKey
  rw [run_bind_iff]
  constructor
  · rintro ⟨b, mid, hb, hk⟩
    obtain ⟨rfl, rfl⟩ := run_pure_iff.1 hk
    exact run_readBytes_iff.1 hb
  · rintro rfl
    exact ⟨⟨k.bytes, k.length_eq⟩, rest, run_readBytes_iff.2 rfl, run_pure_iff.2 ⟨rfl, rfl⟩⟩

/-! ### Texts, lists and optional values -/

theorem run_readTextOf_iff {length : Nat} {s : String} {input rest : Bytes} :
    (readTextOf length).run input = .ok (s, rest) ↔
      (textBytes s).length = length ∧ input = textBytes s ++ rest := by
  show readTextOf length input = _ ↔ _
  unfold readTextOf
  split
  · rename_i hshort
    constructor
    · intro h
      cases h
    · rintro ⟨rfl, rfl⟩
      exact absurd hshort (by simp)
  · rename_i hlong
    constructor
    · intro h
      split at h
      · rename_i t ht
        injection h with h
        injection h with hts hdrop
        subst hts
        have htake := Text.eq_textBytes_of_ofUtf8 ht
        rw [← htake, ← hdrop, List.take_append_drop]
        exact ⟨List.length_take_of_le (by omega), rfl⟩
      · cases h
    · rintro ⟨rfl, rfl⟩
      rw [List.take_left, Text.ofUtf8_textBytes, List.drop_left]

theorem run_readText_iff {s : String} {input rest : Bytes} :
    readText.run input = .ok (s, rest) ↔ TextFits s ∧ input = text s ++ rest := by
  unfold readText
  rw [run_bind_iff]
  constructor
  · rintro ⟨⟨n, hn⟩, mid, hnum, hs⟩
    obtain ⟨rfl, rfl⟩ := run_readTextOf_iff.1 hs
    rw [run_readNumber_iff] at hnum
    exact ⟨hn, by rw [hnum, text, List.append_assoc]⟩
  · rintro ⟨hfits, rfl⟩
    rw [text, List.append_assoc]
    exact ⟨⟨_, hfits⟩, textBytes s ++ rest, run_readNumber_iff.2 rfl,
      run_readTextOf_iff.2 ⟨rfl, rfl⟩⟩

theorem run_readAccount_iff {a : Account} {input rest : Bytes} :
    readAccount.run input = .ok (a, rest) ↔ TextFits a.name ∧ input = account a ++ rest := by
  unfold readAccount
  rw [run_bind_iff]
  constructor
  · rintro ⟨s, mid, hs, ha⟩
    obtain ⟨rfl, rfl⟩ := run_pure_iff.1 ha
    exact run_readText_iff.1 hs
  · intro h
    exact ⟨a.name, rest, run_readText_iff.2 h, run_pure_iff.2 ⟨rfl, rfl⟩⟩

section Many
variable {item : Reader α} {write : α → Bytes} (fits : α → Prop)
  (hitem : ∀ a input rest, item.run input = .ok (a, rest) ↔ fits a ∧ input = write a ++ rest)
include hitem

theorem run_readMany_iff {n : Nat} {l : List α} {input rest : Bytes} :
    (readMany item n).run input = .ok (l, rest) ↔
      l.length = n ∧ (∀ a ∈ l, fits a) ∧ input = l.flatMap write ++ rest := by
  induction n generalizing l input with
  | zero =>
    rw [readMany, run_pure_iff, List.length_eq_zero_iff]
    exact ⟨by rintro ⟨rfl, rfl⟩; simp, by rintro ⟨rfl, -, rfl⟩; simp⟩
  | succ n ih =>
    rw [readMany, run_bind_iff]
    constructor
    · rintro ⟨a, mid, ha, hrest⟩
      obtain ⟨others, last, hothers, hl⟩ := run_bind_iff.1 hrest
      obtain ⟨rfl, rfl⟩ := run_pure_iff.1 hl
      obtain ⟨hfits, rfl⟩ := (hitem _ _ _).1 ha
      obtain ⟨rfl, hall, rfl⟩ := ih.1 hothers
      exact ⟨rfl, List.forall_mem_cons.2 ⟨hfits, hall⟩, by simp⟩
    · rintro ⟨hlen, hall, rfl⟩
      cases l with
      | nil => simp at hlen
      | cons a others =>
        obtain ⟨hfits, hall⟩ := List.forall_mem_cons.1 hall
        refine ⟨a, others.flatMap write ++ rest, (hitem _ _ _).2 ⟨hfits, by simp⟩,
          run_bind_iff.2 ⟨others, rest, ih.2 ⟨by simpa using hlen, hall, rfl⟩,
            run_pure_iff.2 ⟨rfl, rfl⟩⟩⟩

theorem run_readList_iff {l : List α} {input rest : Bytes} :
    (readList item).run input = .ok (l, rest) ↔
      l.length < 0x10000000000000000 ∧ (∀ a ∈ l, fits a) ∧ input = list write l ++ rest := by
  unfold readList
  rw [run_bind_iff]
  constructor
  · rintro ⟨⟨n, hn⟩, mid, hnum, hl⟩
    obtain ⟨rfl, hall, rfl⟩ := (run_readMany_iff fits hitem).1 hl
    rw [run_readNumber_iff] at hnum
    exact ⟨hn, hall, by rw [hnum, list, List.append_assoc]⟩
  · rintro ⟨hlen, hall, rfl⟩
    rw [list, List.append_assoc]
    exact ⟨⟨_, hlen⟩, l.flatMap write ++ rest, run_readNumber_iff.2 rfl,
      (run_readMany_iff fits hitem).2 ⟨rfl, hall, rfl⟩⟩

theorem run_readOptional_iff {o : Option α} {input rest : Bytes} :
    (readOptional item).run input = .ok (o, rest) ↔
      (∀ a ∈ o, fits a) ∧ input = optional write o ++ rest := by
  unfold readOptional
  rw [run_bind_iff]
  constructor
  · rintro ⟨tag, mid, htag, ho⟩
    obtain rfl := run_readByte_iff.1 htag
    split at ho
    · rename_i h0
      obtain ⟨rfl, rfl⟩ := run_pure_iff.1 ho
      simp [optional, h0]
    · split at ho
      · rename_i h1
        obtain ⟨a, last, ha, hsome⟩ := run_bind_iff.1 ho
        obtain ⟨rfl, rfl⟩ := run_pure_iff.1 hsome
        obtain ⟨hfits, rfl⟩ := (hitem _ _ _).1 ha
        simp [optional, h1, hfits]
      · cases ho
  · rintro ⟨hfits, rfl⟩
    cases o with
    | none => exact ⟨0, rest, run_readByte_iff.2 rfl, run_pure_iff.2 ⟨rfl, rfl⟩⟩
    | some a =>
      refine ⟨1, write a ++ rest, run_readByte_iff.2 rfl, ?_⟩
      exact run_bind_iff.2 ⟨a, rest, (hitem _ _ _).2 ⟨hfits a rfl, rfl⟩, run_pure_iff.2 ⟨rfl, rfl⟩⟩

end Many

theorem run_readAccounts_iff {l : List Account} {input rest : Bytes} :
    (readList readAccount).run input = .ok (l, rest) ↔
      Roster.AccountsFit l ∧ input = list account l ++ rest := by
  rw [run_readList_iff (fun a => TextFits a.name) fun _ _ _ => run_readAccount_iff,
    Roster.AccountsFit, and_assoc]

theorem run_readOptionalAccount_iff {o : Option Account} {input rest : Bytes} :
    (readOptional readAccount).run input = .ok (o, rest) ↔
      Roster.AccountsFit o.toList ∧ input = optional account o ++ rest := by
  rw [run_readOptional_iff (fun a => TextFits a.name) fun _ _ _ => run_readAccount_iff]
  cases o <;> simp [Roster.AccountsFit]

/-- A value is read by dropping what follows it. -/
theorem value_eq_ok_iff {r : Reader α} {bytes : Bytes} {a : α} :
    r.value bytes = .ok a ↔ ∃ rest, r.run bytes = .ok (a, rest) := by
  unfold Reader.value
  cases r.run bytes with
  | error fault => simp [Except.map]
  | ok found => simp [Except.map, Prod.ext_iff]

end Wire

/-! ### Validators and rosters -/

open Wire

theorem Validator.run_reader_iff {v : Validator} {input rest : Bytes} :
    Validator.reader.run input = .ok (v, rest) ↔ v.Fits ∧ input = v.encode ++ rest := by
  unfold Validator.reader
  simp only [run_bind_iff, run_pure_iff, run_readAccount_iff, run_readKey_iff, run_readAmount_iff,
    run_readWord_iff, run_readText_iff, Validator.Fits, Validator.encode, List.append_assoc]
  constructor
  · rintro ⟨owner, _, ⟨howner, rfl⟩, key, _, rfl, deposit, _, rfl, absences, _, rfl,
      signatures, _, rfl, link, _, ⟨hlink, rfl⟩, since, _, rfl, rfl, rfl⟩
    exact ⟨⟨howner, hlink⟩, rfl⟩
  · rintro ⟨⟨howner, hlink⟩, rfl⟩
    exact ⟨v.owner, _, ⟨howner, rfl⟩, v.key, _, rfl, v.deposit, _, rfl, v.absences, _, rfl,
      v.signatures, _, rfl, v.link, _, ⟨hlink, rfl⟩, v.since, _, rfl, rfl, rfl⟩

theorem Roster.run_reader_iff {r : Roster} {input rest : Bytes} :
    Roster.reader.run input = .ok (r, rest) ↔ r.Fits ∧ input = r.encode ++ rest := by
  unfold Roster.reader
  simp only [run_bind_iff, run_pure_iff, run_readWord_iff, run_readAccounts_iff,
    run_readOptionalAccount_iff, Roster.Fits, Roster.encode, List.append_assoc]
  constructor
  · rintro ⟨version, _, rfl, seated, _, ⟨hseated, rfl⟩, pool, _, ⟨hpool, rfl⟩, reported, _,
      ⟨hreported, rfl⟩, power, _, rfl, weakest, _, ⟨hw, rfl⟩, rfl, rfl⟩
    exact ⟨⟨hseated, hpool, hreported, hw⟩, rfl⟩
  · rintro ⟨⟨hseated, hpool, hreported, hw⟩, rfl⟩
    exact ⟨r.version, _, rfl, r.seated, _, ⟨hseated, rfl⟩, r.pool, _, ⟨hpool, rfl⟩, r.reported, _,
      ⟨hreported, rfl⟩, r.weakestPower, _, rfl, r.weakest, _, ⟨hw, rfl⟩, rfl, rfl⟩

theorem Validator.decode_encode {v : Validator} (h : v.Fits) : Validator.decode v.encode = .ok v :=
  value_eq_ok_iff.2 ⟨[], Validator.run_reader_iff.2 ⟨h, (List.append_nil _).symm⟩⟩

theorem Roster.decode_encode {r : Roster} (h : r.Fits) : Roster.decode r.encode = .ok r :=
  value_eq_ok_iff.2 ⟨[], Roster.run_reader_iff.2 ⟨h, (List.append_nil _).symm⟩⟩

end StakedCommittee
