import LimitOrderBook.WalFormat

/-!
# The checksum of the log

The checksum is looked up in a table, a byte at a time.  It is the one of the IEEE 802.3
standard, which is fed a bit at a time (`crc32_eq_ieeeCrc32`), and no damage within 32
consecutive bits leaves it as it was (`crc32_ne_of_burst`).
-/

namespace LimitOrderBook

/-- The bits of a byte, the lowest first. -/
def byteBits (b : UInt8) : List Bool := (List.range 8).map b.toNat.testBit

/-- A bit of some data, the lowest of each byte first. -/
def bitAt (data : List UInt8) (i : Nat) : Bool :=
  (data.getD (i / 8) 0).toNat.testBit (i % 8)

/-! ### The standard -/

/-- The check after one more bit: a shift right, and an exclusive or with the polynomial if the
bit that falls out and the bit of the data differ. -/
def ieeeStep (crc : UInt32) (bit : Bool) : UInt32 :=
  if (crc &&& 1 == 1) ^^ bit then (crc >>> 1) ^^^ 0xEDB88320 else crc >>> 1

/-- The checksum of the IEEE 802.3 standard. -/
def ieeeCrc32 (data : List UInt8) : UInt32 :=
  ~~~ (data.flatMap byteBits).foldl ieeeStep 0xFFFFFFFF

theorem flatMap_byteBits (data : List UInt8) :
  data.flatMap byteBits = (data.map UInt8.toBitVec).flatMap Crc.bits
  := by
  rw [List.flatMap_map]
  rfl

/-- A bit of the published remainder is one bit step. -/
theorem toBitVec_ieeeStep (crc : UInt32) (bit : Bool) :
  (ieeeStep crc bit).toBitVec = Crc.bitStep CRC32_POLY crc.toBitVec bit
  := by
  have hone : (crc &&& 1).toBitVec = (BitVec.ofBool (crc.toBitVec.getLsbD 0)).setWidth 32 :=
    BitVec.and_one_eq_setWidth_ofBool_getLsbD
  have hlow : (crc &&& 1 == 1) = crc.toBitVec.getLsbD 0 := by
    rw [Bool.eq_iff_iff, beq_iff_eq, ← UInt32.toBitVec_inj, hone]
    cases crc.toBitVec.getLsbD 0 <;> decide
  unfold ieeeStep Crc.bitStep
  rw [hlow]
  split
  · rfl
  · exact BitVec.xor_zero.symm

/-- The published checksum is the remainder run over the bits. -/
theorem toBitVec_ieeeCrc32 (data : List UInt8) :
  (ieeeCrc32 data).toBitVec
    = ~~~ Crc.bitRun CRC32_POLY (BitVec.allOnes 32) ((data.map UInt8.toBitVec).flatMap Crc.bits)
  := by
  have hfold : ∀ (bits : List Bool) (crc : UInt32), (bits.foldl ieeeStep crc).toBitVec
      = Crc.bitRun CRC32_POLY crc.toBitVec bits := by
    intro bits
    induction bits with
    | nil => exact fun _ => rfl
    | cons bit bits ih =>
        intro crc
        rw [List.foldl_cons, ih, toBitVec_ieeeStep]
        rfl
  rw [ieeeCrc32, UInt32.toBitVec_not, hfold, flatMap_byteBits]
  rfl

/-- The checksum is the one of the standard. -/
theorem crc32_eq_ieeeCrc32 (data : List UInt8) :
  crc32 data = ieeeCrc32 data
  := by
  rw [← UInt32.toBitVec_inj, toBitVec_crc32, toBitVec_ieeeCrc32, Crc.run_eq_bitRun (by decide)]

/-- The check value of the standard, of the digits from one to nine. -/
example : ieeeCrc32 [0x31, 0x32, 0x33, 0x34, 0x35, 0x36, 0x37, 0x38, 0x39] = 0xCBF43926 := by
  decide +kernel

/-! ### Bursts -/

/-- A bit of the data, among all of its bits. -/
theorem getElem?_flatMap_bits {data : List UInt8} {i : Nat} (hi : i < 8 * data.length) :
  ((data.map UInt8.toBitVec).flatMap Crc.bits)[i]? = some (bitAt data i)
  := by
  have hlt : i / 8 < data.length := Nat.div_lt_of_lt_mul hi
  rw [Crc.getElem?_flatMap_bits, List.getElem?_map, bitAt, List.getD_eq_getElem?_getD,
    List.getElem?_eq_getElem hlt]
  rfl

/-- Data of one length with the same bits is the same. -/
theorem eq_of_bitAt {data data' : List UInt8} (hlen : data.length = data'.length)
    (h : ∀ i < 8 * data.length, bitAt data i = bitAt data' i) :
  data = data'
  := by
  apply List.ext_getElem hlen
  intro j hj hj'
  rw [← UInt8.toBitVec_inj]
  apply BitVec.eq_of_getLsbD_eq
  intro i hi
  have hbit := h (8 * j + i) (by omega)
  rw [bitAt, bitAt, Nat.mul_add_div (by decide), Nat.div_eq_of_lt hi, Nat.mul_add_mod_self_left,
    Nat.mod_eq_of_lt hi, Nat.add_zero, List.getD_eq_getElem?_getD, List.getD_eq_getElem?_getD,
    List.getElem?_eq_getElem hj, List.getElem?_eq_getElem hj'] at hbit
  apply hbit

/-- Data of one length whose bits differ, but within 32 consecutive ones only, have different
checksums. -/
theorem crc32_ne_of_burst {data data' : List UInt8} (hlen : data.length = data'.length)
    (hne : data ≠ data') {k : Nat}
    (hburst : ∀ i < 8 * data.length, bitAt data i ≠ bitAt data' i → k ≤ i ∧ i < k + 32) :
  crc32 data ≠ crc32 data'
  := by
  have hlength : ∀ data : List UInt8,
      ((data.map UInt8.toBitVec).flatMap Crc.bits).length = 8 * data.length := by
    intro data
    simp [Crc.bits, List.length_flatMap, Function.comp_def, Nat.mul_comm]
  rw [Ne, ← UInt32.toBitVec_inj, toBitVec_crc32, toBitVec_crc32, BitVec.not_inj,
    Crc.run_eq_bitRun (by decide), Crc.run_eq_bitRun (by decide)]
  apply Crc.bitRun_ne_of_window (by decide) (by decide)
  · rw [hlength, hlength, hlen]
  · intro heq
    apply hne
    apply eq_of_bitAt hlen
    intro i hi
    have hbit := congrArg (fun bits => bits[i]?) heq
    rw [getElem?_flatMap_bits hi, getElem?_flatMap_bits (hlen ▸ hi)] at hbit
    exact Option.some.inj hbit
  · intro i hdiff
    have hi : i < 8 * data.length := by
      by_contra hge
      apply hdiff
      rw [List.getElem?_eq_none (by rw [hlength]; omega),
        List.getElem?_eq_none (by rw [hlength]; omega)]
    rw [getElem?_flatMap_bits hi, getElem?_flatMap_bits (hlen ▸ hi)] at hdiff
    exact hburst i hi fun heq => hdiff (congrArg some heq)

/-- A window that straddles three bytes. -/
theorem crc32_ne_of_burst_sample :
  crc32 [0x00, 0x80, 0xFF, 0x01, 0x55] ≠ crc32 [0x00, 0x00, 0x00, 0x00, 0x55]
  := crc32_ne_of_burst (k := 15) rfl (by decide) (by decide)

end LimitOrderBook
