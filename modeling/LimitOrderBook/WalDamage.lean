import LimitOrderBook.WalRecovery

/-!
# Damage to the log

A byte of a record that is overwritten is found out by the reader if it is a byte of the payload
length, of the checksum or of the order.  The sequence number and the timestamp are not covered:
the record is read, with a sequence number or a timestamp that has not been written.
-/

namespace LimitOrderBook

open Codec

/-! ### Records -/

/-- The first sixteen bytes of a header are the sequence number and the timestamp. -/
theorem WalRecordHeader.damage_of_lt (h : WalRecordHeader) {p : Nat} (hp : p < 16) (v : UInt8) :
  ∃ seqId timestampNs, WalRecordHeader.layout.damage h p v
    = { h with seqId := seqId, timestampNs := timestampNs }
  := by
  rw [WalRecordHeader.layout, damage_map]
  change ∃ _ _, WalRecordHeader.fields ((u64.pair <| u64.pair <| u32.pair u32).damage
    (h.seqId, h.timestampNs, h.payloadLen, h.crc32) p v) = _
  by_cases h8 : p < 8
  · rw [damage_pair_of_lt _ _ _ _ _ h8]
    exact ⟨_, _, rfl⟩
  · have hts : p - 8 < 8 := by omega
    rw [damage_pair_of_le _ _ _ _ _ (Nat.not_lt.mp h8), damage_pair_of_lt _ _ _ _ _ hts]
    exact ⟨_, _, rfl⟩

/-- The other bytes of a header are the payload length and the checksum. -/
theorem WalRecordHeader.damage_of_le (h : WalRecordHeader) {p : Nat} (hp : 16 ≤ p) (v : UInt8) :
  (∃ payloadLen, WalRecordHeader.layout.damage h p v = { h with payloadLen := payloadLen })
    ∨ ∃ crc32, WalRecordHeader.layout.damage h p v = { h with crc32 := crc32 }
  := by
  rw [WalRecordHeader.layout, damage_map]
  change (∃ _, WalRecordHeader.fields ((u64.pair <| u64.pair <| u32.pair u32).damage
    (h.seqId, h.timestampNs, h.payloadLen, h.crc32) p v) = _) ∨ ∃ _, WalRecordHeader.fields
      ((u64.pair <| u64.pair <| u32.pair u32).damage
        (h.seqId, h.timestampNs, h.payloadLen, h.crc32) p v) = _
  have hseq : u64.size ≤ p := Nat.le_trans (by decide) hp
  have hts : u64.size ≤ p - 8 := Nat.le_sub_of_add_le hp
  rw [damage_pair_of_le _ _ _ _ _ hseq]
  change (∃ _, WalRecordHeader.fields (h.seqId, (u64.pair <| u32.pair u32).damage
    (h.timestampNs, h.payloadLen, h.crc32) (p - 8) v) = _) ∨ ∃ _, WalRecordHeader.fields
      (h.seqId, (u64.pair <| u32.pair u32).damage
        (h.timestampNs, h.payloadLen, h.crc32) (p - 8) v) = _
  rw [damage_pair_of_le _ _ _ _ _ hts]
  by_cases hlen : p - 8 - u64.size < u32.size
  · rw [damage_pair_of_lt _ _ _ _ _ hlen]
    exact Or.inl ⟨_, rfl⟩
  · rw [damage_pair_of_le _ _ _ _ _ (Nat.not_lt.mp hlen)]
    exact Or.inr ⟨_, rfl⟩

/-- A record with a changed byte is intact exactly if the byte is one of the sequence number or
of the timestamp. -/
theorem WalRecord.intact_damage_iff {r : WalRecord} (hr : r.Intact) {p : Nat} {v : UInt8}
    (hne : WalRecord.layout.damage r p v ≠ r) :
  (WalRecord.layout.damage r p v).Intact ↔ p < 16
  := by
  obtain ⟨h, o⟩ := r
  obtain ⟨hlen, hcrc⟩ := hr
  by_cases hp : p < 24
  · have hdamage : WalRecord.layout.damage (h, o) p v
        = (WalRecordHeader.layout.damage h p v, o) := damage_pair_of_lt _ _ h o v hp
    rw [hdamage] at hne ⊢
    by_cases h16 : p < 16
    · obtain ⟨seqId, ts, hh⟩ := h.damage_of_lt h16 v
      rw [hh]
      exact ⟨fun _ => h16, fun _ => ⟨hlen, hcrc⟩⟩
    · refine ⟨fun hint => absurd ?_ hne, fun hlt => absurd hlt h16⟩
      rcases h.damage_of_le (Nat.not_lt.mp h16) v with ⟨len, hh⟩ | ⟨crc, hh⟩
      · rw [hh] at hint ⊢
        have heq : len = h.payloadLen := UInt32.toNat_inj.mp (hint.1.trans hlen.symm)
        rw [heq]
      · rw [hh] at hint ⊢
        have heq : crc = h.crc32 := hint.2.symm.trans hcrc
        rw [heq]
  · have hdamage : WalRecord.layout.damage (h, o) p v
        = (h, Order.layout.damage o (p - 24) v) := damage_pair_of_le _ _ h o v (Nat.not_lt.mp hp)
    rw [hdamage] at hne ⊢
    refine ⟨fun hint => absurd ?_ hne, fun hlt => by omega⟩
    have heq := hint.2.trans hcrc.symm
    rw [Codec.encode_damage, crc32_set_eq_iff, ← Codec.damage_eq_self_iff] at heq
    rw [heq]

/-! ### Files -/

/-- The file in which bit `i` of byte `j` is flipped. -/
def flipBit (file : List UInt8) (j i : Nat) : List UInt8 :=
  file.modify j fun b => b ^^^ (1 <<< UInt8.ofNat i)

/-- What is read from a damaged file is the beginning of what is read from the file. -/
def WalReader.ReadsPrefix (file damaged : List UInt8) : Prop :=
  ∃ rs rs', WalReader.readAll file = .ok rs ∧ WalReader.readAll damaged = .ok rs' ∧ rs' <+: rs

theorem flipBit_eq {file : List UInt8} {j i : Nat} (hj : j < file.length) (hi : i < 8) :
  ∃ v, flipBit file j i = file.set j v ∧ file.set j v ≠ file
  := by
  have hbit : (1 : UInt8) <<< UInt8.ofNat i ≠ 0 := by
    have hall : ∀ i < 8, (1 : UInt8) <<< UInt8.ofNat i ≠ 0 := by decide
    apply hall i hi
  use file[j] ^^^ (1 <<< UInt8.ofNat i)
  constructor
  · rw [flipBit, List.modify_eq_set, List.getElem?_eq_getElem hj]
    rfl
  · intro heq
    have hget := congrArg (fun l => l[j]?) heq
    simp only [List.getElem?_set_self hj, List.getElem?_eq_getElem hj, Option.some.injEq] at hget
    apply hbit
    apply (UInt8.xor_right_inj file[j]).mp
    rw [hget, UInt8.xor_zero]

/-- A flipped bit never surfaces as a record exactly if it is none of a sequence number and none
of a timestamp. -/
theorem WalReader.readsPrefix_flipBit_iff {ss : List (List (Order × UInt64))} {j i : Nat}
    (h8 : 8 ≤ j) (hj : j < (WalWriter.sessions ss).length) (hi : i < 8) :
  WalReader.ReadsPrefix (WalWriter.sessions ss) (flipBit (WalWriter.sessions ss) j i)
    ↔ 16 ≤ (j - 8) % 72
  := by
  have hne : WalWriter.sessions ss ≠ [] := List.ne_nil_of_length_pos (by omega)
  obtain ⟨v, hflip, hset⟩ := flipBit_eq hj hi
  rw [hflip]
  rw [WalWriter.sessions_eq hne] at hj hset ⊢
  rw [List.length_append, length_fileHeader] at hj
  rw [List.set_append_right j v (by rwa [length_fileHeader]), length_fileHeader] at hset ⊢
  have hlt : j - 8 < (WalRecord.layout.encodeAll (numbered 1 ss.flatten)).length := by omega
  obtain ⟨front, r, back, hsplit, hdamage⟩ := WalRecord.layout.set_encodeAll hlt v
  have hintact : ∀ x ∈ front ++ r :: back, x.Intact := by
    rw [← hsplit]
    apply intact_of_mem_numbered
  have hr : WalRecord.layout.damage r ((j - 8) % 72) v ≠ r := by
    intro heq
    apply hset
    rw [hdamage, WalRecord.layout_size, heq, ← hsplit]
  have hiff := WalRecord.intact_damage_iff (hintact r (by simp)) hr
  have hfront : ∀ r ∈ front, r.Intact := fun r hr => hintact r (List.mem_append_left _ hr)
  unfold WalReader.ReadsPrefix
  rw [hdamage, WalRecord.layout_size, readAll_fileHeader_append, readAll_fileHeader_append, hsplit,
    records_encodeAll hintact]
  by_cases h16 : (j - 8) % 72 < 16
  · refine ⟨?_, fun h => absurd h16 (Nat.not_lt.mpr h)⟩
    rintro ⟨rs, rs', hrs, hrs', hbegin⟩
    obtain rfl := Except.ok.inj hrs
    obtain rfl := Except.ok.inj hrs'
    have hdamaged : ∀ x ∈ front ++ WalRecord.layout.damage r ((j - 8) % 72) v :: back,
        x.Intact := by
      intro x hx
      rcases List.mem_append.mp hx with hx | hx
      · apply hfront x hx
      · rcases List.mem_cons.mp hx with rfl | hx
        · apply hiff.mpr h16
        · apply hintact x (List.mem_append_right _ (List.mem_cons_of_mem _ hx))
    rw [records_encodeAll hdamaged] at hbegin
    have heq := hbegin.eq_of_length (by simp)
    exact absurd (List.cons.inj (List.append_cancel_left heq)).1 hr
  · refine ⟨fun _ => Nat.not_lt.mp h16, fun _ => ⟨_, _, rfl, rfl, ?_⟩⟩
    rw [encodeAll_append, encodeAll_cons,
      records_of_not_intact hfront (fun hint => h16 (hiff.mp hint))]
    apply List.prefix_append

/-- A bit of the order of the second record flipped: the reader stops before it. -/
theorem WalReader.readsPrefix_flipBit_sampleSessions :
  WalReader.ReadsPrefix (WalWriter.sessions sampleSessions)
    (flipBit (WalWriter.sessions sampleSessions) 110 5)
  := (WalReader.readsPrefix_flipBit_iff (by decide) (by decide +kernel) (by decide)).mpr
    (by decide)

/-- A bit of a sequence number flipped: the record is read, under another number. -/
theorem WalReader.not_readsPrefix_flippedSeqId :
  ¬ ∀ ss j i, 8 ≤ j → j < (WalWriter.sessions ss).length → i < 8 →
    WalReader.ReadsPrefix (WalWriter.sessions ss) (flipBit (WalWriter.sessions ss) j i)
  := by
  intro h
  obtain ⟨rs, rs', hrs, hrs', hbegin⟩ :=
    h sampleSessions 8 1 (by decide) (by decide +kernel) (by decide)
  have hread : (WalReader.readAll (WalWriter.sessions sampleSessions)).toOption.map
      (List.map fun r => r.1.seqId) = some [1, 2] := by decide +kernel
  have hread' : (WalReader.readAll (flipBit (WalWriter.sessions sampleSessions) 8 1)).toOption.map
      (List.map fun r => r.1.seqId) = some [3, 2] := by decide +kernel
  rw [hrs] at hread
  rw [hrs'] at hread'
  have hseq := hbegin.map fun r => r.1.seqId
  rw [Option.some.inj hread, Option.some.inj hread'] at hseq
  exact absurd hseq (by decide)

end LimitOrderBook
