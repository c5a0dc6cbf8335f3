import LimitOrderBook.Wal

/-!
# The format of the log

The checksum is the reflected cyclic redundancy check of the polynomial `CRC32_POLY`, so a
change of a single byte changes it.  The reader reads a stream of records that are
`WalRecord.Intact`, and the writer writes the records `numbered`.
-/

namespace LimitOrderBook

/-! ### Checksums -/

/-- The polynomial of the checksum, the coefficient of the highest power in the lowest bit. -/
def CRC32_POLY : BitVec 32 := 0xEDB88320

/-- The table of the source is the remainder of each byte under the polynomial. -/
theorem CRC32_TABLE_eq :
  CRC32_TABLE
    = (List.range 256).map fun i => UInt32.ofBitVec (Crc.word CRC32_POLY (BitVec.ofNat 8 i))
  := by
  decide +kernel

theorem getD_CRC32_TABLE {i : Nat} (h : i < 256) :
  (CRC32_TABLE.getD i 0).toBitVec = Crc.word CRC32_POLY (BitVec.ofNat 8 i)
  := by
  rw [CRC32_TABLE_eq, List.getD_eq_getElem?_getD, List.getElem?_map, List.getElem?_range h]
  rfl

/-- The place in the table a byte looks up. -/
theorem index_eq (crc : UInt32) (b : UInt8) :
  BitVec.ofNat 8 ((crc ^^^ b.toUInt32) &&& 0xFF).toNat = crc.toBitVec.setWidth 8 ^^^ b.toBitVec
  := by
  have hmask : ∀ i : Fin 8, (255#8)[i.val] = true := by decide
  rw [← UInt32.toNat_toBitVec, BitVec.ofNat_toNat]
  apply BitVec.eq_of_getLsbD_eq
  intro i hi
  simp [hi, show i < 32 by omega]
  exact fun _ => hmask ⟨i, hi⟩

/-- One turn of the table-driven loop is one byte step of the remainder. -/
theorem toBitVec_step (crc : UInt32) (b : UInt8) :
  ((crc >>> 8) ^^^ CRC32_TABLE.getD ((crc ^^^ b.toUInt32) &&& 0xFF).toNat 0).toBitVec
    = Crc.byteStep CRC32_POLY crc.toBitVec b.toBitVec
  := by
  have hlt : ((crc ^^^ b.toUInt32) &&& 0xFF).toNat < 256 := by
    rw [UInt32.toNat_and]
    exact Nat.lt_of_le_of_lt Nat.and_le_right (by decide)
  rw [UInt32.toBitVec_xor, getD_CRC32_TABLE hlt, index_eq, Crc.byteStep_eq_tableStep, Crc.tableStep]
  rfl

/-- The checksum, as a check over bit vectors. -/
theorem toBitVec_crc32 (data : List UInt8) :
  (crc32 data).toBitVec
    = ~~~ Crc.run CRC32_POLY (BitVec.allOnes 32) (data.map UInt8.toBitVec)
  := by
  have hfold (crc : UInt32) :
      (data.foldl (fun (crc : UInt32) (b : UInt8) =>
        (crc >>> 8) ^^^ CRC32_TABLE.getD ((crc ^^^ b.toUInt32) &&& 0xFF).toNat 0) crc).toBitVec
        = Crc.run CRC32_POLY crc.toBitVec (data.map UInt8.toBitVec) := by
    induction data generalizing crc with
    | nil => rfl
    | cons b data ih =>
        rw [List.foldl_cons, ih, List.map_cons, Crc.run_cons, toBitVec_step]
  rw [crc32, UInt32.toBitVec_not, hfold]
  rfl

/-- A changed byte changes the checksum. -/
theorem crc32_set_eq_iff {data : List UInt8} {j : Nat} {b : UInt8} :
  crc32 (data.set j b) = crc32 data ↔ data.set j b = data
  := by
  constructor
  · intro h
    by_cases hj : j < data.length
    · have hj' : j < (data.map UInt8.toBitVec).length := by rwa [List.length_map]
      rw [← UInt32.toBitVec_inj, toBitVec_crc32, toBitVec_crc32, BitVec.not_inj, List.map_set,
        Crc.run_set_eq_iff (by decide) (by decide) hj', List.getElem_map, UInt8.toBitVec_inj] at h
      rw [h, List.set_getElem_self]
    · apply List.set_eq_of_length_le (Nat.not_lt.mp hj)
  · intro h
    rw [h]

/-! ### Records -/

/-- What the reader checks of a record. -/
def WalRecord.Intact (r : WalRecord) : Prop :=
  r.1.payloadLen.toNat = Order.layout.size ∧ crc32 (Order.layout.encode r.2) = r.1.crc32

instance : DecidablePred WalRecord.Intact :=
  fun r => inferInstanceAs (Decidable (r.1.payloadLen.toNat = Order.layout.size
    ∧ crc32 (Order.layout.encode r.2) = r.1.crc32))

/-- The record that `writeOrder` writes. -/
def WalRecord.of (seqId : UInt64) (e : Order × UInt64) : WalRecord :=
  ({ seqId := seqId, timestampNs := e.2, payloadLen := 48,
     crc32 := crc32 (Order.layout.encode e.1) }, e.1)

/-- What the writer appends is intact. -/
theorem WalRecord.intact_of (seqId : UInt64) (e : Order × UInt64) :
  (WalRecord.of seqId e).Intact
  := ⟨rfl, rfl⟩

/-- The order and the timestamp of a record. -/
def WalRecord.entry (r : WalRecord) : Order × UInt64 := (r.2, r.1.timestampNs)

/-- The records with consecutive sequence numbers. -/
def numbered : UInt64 → List (Order × UInt64) → List WalRecord
  | _, [] => []
  | seqId, e :: es => WalRecord.of seqId e :: numbered (seqId + 1) es

@[simp]
theorem length_numbered (seqId : UInt64) (es : List (Order × UInt64)) :
  (numbered seqId es).length = es.length
  := by
  induction es generalizing seqId with
  | nil => rfl
  | cons e es ih => rw [numbered, List.length_cons, ih, List.length_cons]

/-- A later batch goes on numbering where the earlier one stopped. -/
theorem numbered_append (seqId : UInt64) (es fs : List (Order × UInt64)) :
  numbered seqId (es ++ fs)
    = numbered seqId es ++ numbered (seqId + UInt64.ofNat es.length) fs
  := by
  induction es generalizing seqId with
  | nil => simp [numbered]
  | cons e es ih =>
      rw [List.cons_append, numbered, ih, numbered, List.cons_append, List.length_cons,
        UInt64.ofNat_add, UInt64.add_assoc, UInt64.add_comm 1]
      rfl

theorem numbered_take (seqId : UInt64) (es : List (Order × UInt64)) (k : Nat) :
  (numbered seqId es).take k = numbered seqId (es.take k)
  := by
  induction es generalizing seqId k with
  | nil => cases k <;> rfl
  | cons e es ih =>
      cases k with
      | zero => rfl
      | succ k => rw [numbered, List.take_succ_cons, ih, List.take_succ_cons, numbered]

/-- Numbering loses none of the orders and timestamps. -/
theorem map_entry_numbered (seqId : UInt64) (es : List (Order × UInt64)) :
  (numbered seqId es).map WalRecord.entry = es
  := by
  induction es generalizing seqId with
  | nil => rfl
  | cons e es ih =>
      rw [numbered, List.map_cons, ih]
      rfl

/-- The sequence numbers count up. -/
theorem map_seqId_numbered (seqId : UInt64) (es : List (Order × UInt64)) :
  (numbered seqId es).map (fun r => r.1.seqId)
    = (List.range es.length).map fun i => seqId + UInt64.ofNat i
  := by
  induction es generalizing seqId with
  | nil => rfl
  | cons e es ih =>
      rw [numbered, List.map_cons, ih, List.length_cons, List.range_succ_eq_map, List.map_cons,
        List.map_map]
      congr 1
      · simp [WalRecord.of]
      · apply List.map_congr_left
        intro i _
        rw [Function.comp_apply, Nat.succ_eq_add_one, UInt64.ofNat_add, UInt64.add_assoc,
          UInt64.add_comm 1]
        rfl

theorem intact_of_mem_numbered {seqId : UInt64} {es : List (Order × UInt64)} :
  ∀ r ∈ numbered seqId es, r.Intact
  := by
  induction es generalizing seqId with
  | nil =>
      intro r hr
      cases hr
  | cons e es ih =>
      intro r hr
      rcases List.mem_cons.mp hr with rfl | hr
      · apply WalRecord.intact_of
      · apply ih r hr

/-! ### Reading -/

/-- The records of a stream. -/
def records (bs : List UInt8) : List WalRecord := WalRecord.layout.frames WalRecord.Intact bs

/-- The header of a new file. -/
def fileHeader : List UInt8 :=
  WalFileHeader.layout.encode { magic := WAL_MAGIC, version := WAL_VERSION }

@[simp]
theorem length_fileHeader :
  fileHeader.length = 8
  := rfl

/-- A record decodes to its header and its order, each at its own offset. -/
theorem decode_take_record (bs : List UInt8) :
  WalRecord.layout.decode (bs.take 72)
    = (WalRecordHeader.layout.decode (bs.take 24), Order.layout.decode ((bs.drop 24).take 48))
  := by
  change (WalRecordHeader.layout.decode ((bs.take 72).take 24),
    Order.layout.decode ((bs.take 72).drop 24)) = _
  rw [List.take_take, List.drop_take]
  rfl

/-- The loop of the reader reads a stream of records. -/
theorem round_eq :
  WalReader.round = WalRecord.layout.frameRound WalRecord.Intact
  := by
  funext s
  obtain ⟨rs, bs⟩ := s
  simp only [WalReader.round, Codec.frameRound, Codec.readFrame, WalRecord.layout_size,
    WalRecordHeader.layout_size, Order.layout_size, decode_take_record, WalRecord.Intact,
    List.drop_drop, List.length_drop]
  by_cases h72 : bs.length < 72
  · rw [if_pos h72]
    by_cases h24 : bs.length < 24
    · rw [if_pos h24]
      rfl
    · rw [if_neg h24, if_pos (show bs.length - 24 < 48 by omega)]
      split <;> rfl
  · have hbuf : Order.layout.encode (Order.layout.decode ((bs.drop 24).take 48))
        = (bs.drop 24).take 48 := by
      apply Order.layout.encode_decode
      rw [List.length_take, List.length_drop, Order.layout_size]
      omega
    rw [if_neg h72, if_neg (show ¬ bs.length < 24 by omega),
      if_neg (show ¬ bs.length - 24 < 48 by omega), hbuf]
    by_cases hlen : (WalRecordHeader.layout.decode (bs.take 24)).payloadLen.toNat = 48
    · rw [if_neg (not_not.mpr hlen)]
      by_cases hcrc : crc32 ((bs.drop 24).take 48)
          = (WalRecordHeader.layout.decode (bs.take 24)).crc32
      · rw [if_neg (not_not.mpr hcrc), if_pos ⟨hlen, hcrc⟩]
        rfl
      · rw [if_pos hcrc, if_neg (fun h => hcrc h.2)]
        rfl
    · rw [if_pos hlen, if_neg (fun h => hlen h.1)]
      rfl

/-- Behind the file header the reader reads records. -/
theorem readAll_fileHeader_append (bs : List UInt8) :
  WalReader.readAll (fileHeader ++ bs) = .ok (records bs)
  := by
  have htake : (fileHeader ++ bs).take 8 = fileHeader := List.take_left' length_fileHeader
  have hdrop : (fileHeader ++ bs).drop 8 = bs := List.drop_left' length_fileHeader
  have hdecode : WalFileHeader.layout.decode fileHeader
      = { magic := WAL_MAGIC, version := WAL_VERSION } := WalFileHeader.layout.decode_encode _
  rw [WalReader.readAll, if_neg (by simp)]
  simp only [WalFileHeader.layout_size, htake, hdrop, hdecode, ne_eq, not_true, or_self, if_false,
    round_eq]
  rfl

/-- Records that have been written are read, whatever comes after. -/
theorem records_encodeAll_append {rs : List WalRecord} (h : ∀ r ∈ rs, r.Intact)
    (rest : List UInt8) :
  records (WalRecord.layout.encodeAll rs ++ rest) = rs ++ records rest
  := WalRecord.layout.frames_encodeAll_append (by decide) h rest

/-- Intact records written one after another are read back. -/
theorem records_encodeAll {rs : List WalRecord} (h : ∀ r ∈ rs, r.Intact) :
  records (WalRecord.layout.encodeAll rs) = rs
  := by
  have happend := records_encodeAll_append h []
  rwa [List.append_nil, show records [] = [] from rfl, List.append_nil] at happend

/-- Nothing is read from a record on that is not intact. -/
theorem records_of_not_intact {rs : List WalRecord} (h : ∀ r ∈ rs, r.Intact) {r : WalRecord}
    (hr : ¬ r.Intact) (rest : List UInt8) :
  records (WalRecord.layout.encodeAll rs ++ (WalRecord.layout.encode r ++ rest)) = rs
  := by
  rw [records_encodeAll_append h, records,
    WalRecord.layout.frames_of_none (WalRecord.layout.readFrame_of_not_intact hr rest),
    List.append_nil]

theorem records_of_lt {bs : List UInt8} (h : bs.length < 72) :
  records bs = []
  := WalRecord.layout.frames_of_none (WalRecord.layout.readFrame_of_lt h)

/-- What the reader returns stands, byte by byte, at the front of what it reads. -/
theorem isPrefix_encodeAll_records (bs : List UInt8) :
  WalRecord.layout.encodeAll (records bs) <+: bs
  := WalRecord.layout.isPrefix_encodeAll_frames (by decide) bs

end LimitOrderBook
