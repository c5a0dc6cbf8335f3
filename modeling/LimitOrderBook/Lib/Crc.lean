import Mathlib.Logic.Function.Iterate

/-!
# Cyclic redundancy checks

The reflected cyclic redundancy check of `w` bits with the polynomial `poly`.  `shift` moves the
state by a bit, `byteStep` feeds it a byte, lowest bit first, and `tableStep` does the same by a
look-up among 256 words.

The state moves linearly, and when the highest bit of `poly` is set no two states move to the
same one.  Hence a change of a single byte changes the check, whatever comes after it.

`bitStep` feeds the state a bit.  Up to `w` bits may as well be fed at once (`bitRun_eq`), so no
two words of that length lead from a state to the same one: a change within `w` bits changes the
check (`bitRun_ne_of_window`).
-/

namespace Crc

variable {w : Nat}

/-- The state moved by one bit. -/
def shift (poly c : BitVec w) : BitVec w :=
  (c >>> 1) ^^^ (if c.getLsbD 0 then poly else 0)

/-- The state after one more byte. -/
def byteStep (poly c : BitVec w) (b : BitVec 8) : BitVec w :=
  (shift poly)^[8] (c ^^^ b.setWidth w)

/-- The state after one more byte, by a look-up. -/
def tableStep (table : BitVec 8 → BitVec w) (c : BitVec w) (b : BitVec 8) : BitVec w :=
  (c >>> 8) ^^^ table (c.setWidth 8 ^^^ b)

/-- The words a table has to hold. -/
def word (poly : BitVec w) (i : BitVec 8) : BitVec w := (shift poly)^[8] (i.setWidth w)

/-- The state after the bytes of `data`. -/
def run (poly c : BitVec w) (data : List (BitVec 8)) : BitVec w := data.foldl (byteStep poly) c

variable (poly : BitVec w)

/-! ### Linearity -/

theorem shift_xor (c d : BitVec w) :
  shift poly (c ^^^ d) = shift poly c ^^^ shift poly d
  := by
  have hpoly (x y : Bool) :
      (if x ^^ y then poly else 0) = (if x then poly else 0) ^^^ (if y then poly else 0) := by
    cases x <;> cases y <;> simp
  unfold shift
  rw [BitVec.ushiftRight_xor_distrib, BitVec.getLsbD_xor, hpoly]
  ac_rfl

theorem iterate_shift_xor (k : Nat) (c d : BitVec w) :
  (shift poly)^[k] (c ^^^ d) = (shift poly)^[k] c ^^^ (shift poly)^[k] d
  := by
  induction k generalizing c d with
  | zero => rfl
  | succ k ih => rw [Function.iterate_succ_apply, shift_xor, ih, Function.iterate_succ_apply,
      Function.iterate_succ_apply]

/-- Bits that are not set only move down. -/
theorem iterate_shift_of_low {k : Nat} {c : BitVec w} (h : ∀ i < k, c.getLsbD i = false) :
  (shift poly)^[k] c = c >>> k
  := by
  induction k with
  | zero => rw [Function.iterate_zero, id, BitVec.ushiftRight_zero]
  | succ k ih =>
      have hk : (c >>> k).getLsbD 0 = false := by
        rw [BitVec.getLsbD_ushiftRight, Nat.add_zero]
        apply h k (Nat.lt_succ_self k)
      rw [Function.iterate_succ_apply', ih (fun i hi => h i (by omega)), shift, hk,
        BitVec.shiftRight_add]
      simp

/-! ### The table -/

/-- A look-up does the work of eight bits. -/
theorem byteStep_eq_tableStep :
  byteStep poly = tableStep (word poly)
  := by
  funext c b
  have hsplit :
      c ^^^ b.setWidth w = (c >>> 8) <<< 8 ^^^ (c.setWidth 8 ^^^ b).setWidth w := by
    apply BitVec.eq_of_getLsbD_eq
    intro i hi
    by_cases h8 : i < 8
    · simp [hi, h8]
    · simp [hi, h8, show 8 + (i - 8) = i by omega]
  have hlow : ∀ i < 8, ((c >>> 8) <<< 8).getLsbD i = false := by
    intro i hi
    simp [hi]
  rw [byteStep, hsplit, iterate_shift_xor, iterate_shift_of_low poly hlow, tableStep, word]
  congr 1
  apply BitVec.eq_of_getLsbD_eq
  intro i _
  by_cases h : 8 + i < w
  · simp [h]
  · simp [h, BitVec.getLsbD_of_ge c (8 + i) (by omega)]

/-! ### Injectivity -/

variable {poly}

theorem msb_shift (hpoly : poly.msb = true) (c : BitVec w) :
  (shift poly c).msb = c.getLsbD 0
  := by
  rw [shift, BitVec.msb_xor, BitVec.msb_ushiftRight]
  cases c.getLsbD 0 <;> simp [hpoly]

theorem shift_injective (hpoly : poly.msb = true) :
  Function.Injective (shift poly)
  := by
  intro c d h
  have hlow : c.getLsbD 0 = d.getLsbD 0 := by rw [← msb_shift hpoly, h, msb_shift hpoly]
  have hhigh : c >>> 1 = d >>> 1 := by
    rw [shift, shift, hlow] at h
    apply (BitVec.xor_left_inj _).mp h
  apply BitVec.eq_of_getLsbD_eq
  intro i _
  cases i with
  | zero => apply hlow
  | succ i =>
      have hi := congrArg (fun x => x.getLsbD i) hhigh
      rw [BitVec.getLsbD_ushiftRight, BitVec.getLsbD_ushiftRight, Nat.add_comm 1 i] at hi
      apply hi

theorem byteStep_left_inj (hpoly : poly.msb = true) {c d : BitVec w} (b : BitVec 8) :
  byteStep poly c b = byteStep poly d b ↔ c = d
  := by
  unfold byteStep
  rw [((shift_injective hpoly).iterate 8).eq_iff, BitVec.xor_left_inj]

theorem byteStep_right_inj (hw : 8 ≤ w) (hpoly : poly.msb = true) (c : BitVec w) {b b' : BitVec 8} :
  byteStep poly c b = byteStep poly c b' ↔ b = b'
  := by
  unfold byteStep
  rw [((shift_injective hpoly).iterate 8).eq_iff, BitVec.xor_right_inj]
  constructor
  · intro h
    rw [← BitVec.setWidth_eq b, ← BitVec.setWidth_eq b', ← BitVec.setWidth_setWidth_of_le b hw,
      h, BitVec.setWidth_setWidth_of_le b' hw]
  · rintro rfl
    rfl

/-! ### Runs -/

theorem run_cons (poly c : BitVec w) (b : BitVec 8) (data : List (BitVec 8)) :
  run poly c (b :: data) = run poly (byteStep poly c b) data
  := rfl

/-- States that differ stay different. -/
theorem run_left_inj (hpoly : poly.msb = true) {c d : BitVec w} (data : List (BitVec 8)) :
  run poly c data = run poly d data ↔ c = d
  := by
  induction data generalizing c d with
  | nil => rfl
  | cons b data ih => rw [run_cons, run_cons, ih, byteStep_left_inj hpoly]

/-- A changed byte changes the state for good. -/
theorem run_set_eq_iff (hw : 8 ≤ w) (hpoly : poly.msb = true) {c : BitVec w}
    {data : List (BitVec 8)} {j : Nat} (hj : j < data.length) (b : BitVec 8) :
  run poly c (data.set j b) = run poly c data ↔ b = data[j]
  := by
  induction data generalizing c j with
  | nil => cases hj
  | cons x data ih =>
      cases j with
      | zero =>
          rw [List.set_cons_zero, run_cons, run_cons, run_left_inj hpoly,
            byteStep_right_inj hw hpoly]
          rfl
      | succ j =>
          rw [List.set_cons_succ, run_cons, run_cons, ih (Nat.lt_of_succ_lt_succ hj)]
          rfl

/-! ### Bits -/

/-- The state after one more bit. -/
def bitStep (poly c : BitVec w) (b : Bool) : BitVec w :=
  (c >>> 1) ^^^ (if c.getLsbD 0 ^^ b then poly else 0)

/-- The state after a sequence of bits. -/
def bitRun (poly c : BitVec w) (bs : List Bool) : BitVec w := bs.foldl (bitStep poly) c

/-- The bits of a byte, the lowest first. -/
def bits (b : BitVec 8) : List Bool := (List.range 8).map b.getLsbD

/-- The word of a sequence of bits, the lowest first. -/
def ofBits (w : Nat) : List Bool → BitVec w
  | [] => 0
  | b :: bs => (BitVec.ofBool b).setWidth w ^^^ ofBits w bs <<< 1

theorem getLsbD_ofBits {bs : List Bool} {i : Nat} (hi : i < w) :
  (ofBits w bs).getLsbD i = bs[i]?.getD false
  := by
  induction bs generalizing i with
  | nil => simp [ofBits]
  | cons b bs ih =>
      have hrec := @ih (i - 1) (by omega)
      rw [ofBits, BitVec.getLsbD_xor, BitVec.getLsbD_shiftLeft, hrec]
      cases i with
      | zero => simp [hi]
      | succ i => simp [hi]

theorem ofBits_injective {bs bs' : List Bool} (hlen : bs.length = bs'.length)
    (hw : bs.length ≤ w) (h : ofBits w bs = ofBits w bs') :
  bs = bs'
  := by
  apply List.ext_getElem hlen
  intro i hi hi'
  have hbit := congrArg (fun x => x.getLsbD i) h
  simp only [getLsbD_ofBits (Nat.lt_of_lt_of_le hi hw), List.getElem?_eq_getElem hi,
    List.getElem?_eq_getElem hi'] at hbit
  apply hbit

/-- A bit is fed by changing the lowest bit of the state. -/
theorem bitStep_eq (hw : 0 < w) (c : BitVec w) (b : Bool) :
  bitStep poly c b = shift poly (c ^^^ (BitVec.ofBool b).setWidth w)
  := by
  have hhigh : (BitVec.ofBool b).setWidth w >>> 1 = 0#w := by
    apply BitVec.eq_of_getLsbD_eq
    intro i _
    simp
  have hlow : ((BitVec.ofBool b).setWidth w).getLsbD 0 = b := by
    simp [hw]
  rw [bitStep, shift, BitVec.ushiftRight_xor_distrib, hhigh, BitVec.xor_zero, BitVec.getLsbD_xor,
    hlow]

/-- Moving up and down again. -/
theorem shift_shiftLeft {c : BitVec w} (h : c.getLsbD (w - 1) = false) :
  shift poly (c <<< 1) = c
  := by
  have hlow : (c <<< 1).getLsbD 0 = false := by
    simp
  rw [shift, hlow]
  apply BitVec.eq_of_getLsbD_eq
  intro i hi
  by_cases hlast : i = w - 1
  · subst hlast
    simp [h]
  · simp [hi, show 1 + i < w by omega]

/-- Bits that fit the state may be fed at once. -/
theorem bitRun_eq {bs : List Bool} (hbs : bs.length ≤ w) (c : BitVec w) :
  bitRun poly c bs = (shift poly)^[bs.length] (c ^^^ ofBits w bs)
  := by
  induction bs generalizing c with
  | nil => simp [bitRun, ofBits]
  | cons b bs ih =>
      rw [List.length_cons] at hbs ⊢
      have hlast : (ofBits w bs).getLsbD (w - 1) = false := by
        rw [getLsbD_ofBits (by omega), List.getElem?_eq_none (by omega)]
        rfl
      have hrun : bitRun poly c (b :: bs) = bitRun poly (bitStep poly c b) bs := rfl
      rw [hrun, ih (by omega), bitStep_eq (by omega), ofBits, ← BitVec.xor_assoc,
        Function.iterate_succ_apply, shift_xor poly _ (ofBits w bs <<< 1), shift_shiftLeft hlast]

/-- A byte is fed bit by bit. -/
theorem byteStep_eq_bitRun (hw : 8 ≤ w) (c : BitVec w) (b : BitVec 8) :
  byteStep poly c b = bitRun poly c (bits b)
  := by
  have hlen : (bits b).length = 8 := by
    simp [bits]
  have hword : ofBits w (bits b) = b.setWidth w := by
    apply BitVec.eq_of_getLsbD_eq
    intro i hi
    rw [getLsbD_ofBits hi, BitVec.getLsbD_setWidth]
    by_cases h8 : i < 8
    · simp [bits, hi, h8]
    · simp [bits, h8, BitVec.getLsbD_of_ge b i (by omega)]
  rw [bitRun_eq (by omega), hlen, hword, byteStep]

theorem run_eq_bitRun (hw : 8 ≤ w) (c : BitVec w) (data : List (BitVec 8)) :
  run poly c data = bitRun poly c (data.flatMap bits)
  := by
  induction data generalizing c with
  | nil => rfl
  | cons b data ih =>
      rw [run_cons, ih, byteStep_eq_bitRun hw, List.flatMap_cons, bitRun, bitRun, bitRun,
        List.foldl_append]

/-- A bit of the data. -/
theorem getElem?_flatMap_bits (data : List (BitVec 8)) (i : Nat) :
  (data.flatMap bits)[i]? = data[i / 8]?.map fun b => b.getLsbD (i % 8)
  := by
  induction data generalizing i with
  | nil => simp
  | cons b data ih =>
      have hlen : (bits b).length = 8 := by
        simp [bits]
      rw [List.flatMap_cons]
      by_cases hi : i < 8
      · rw [List.getElem?_append_left (by omega), Nat.div_eq_of_lt hi, Nat.mod_eq_of_lt hi]
        simp [bits, hi]
      · obtain ⟨k, rfl⟩ := Nat.exists_eq_add_of_le (Nat.not_lt.mp hi)
        rw [List.getElem?_append_right (by omega), hlen, Nat.add_sub_cancel_left, ih,
          Nat.add_div_left k (by decide), Nat.add_mod_left]
        rfl

theorem bitStep_left_inj (hw : 0 < w) (hpoly : poly.msb = true) {c d : BitVec w} (b : Bool) :
  bitStep poly c b = bitStep poly d b ↔ c = d
  := by
  rw [bitStep_eq hw, bitStep_eq hw, (shift_injective hpoly).eq_iff, BitVec.xor_left_inj]

theorem bitRun_left_inj (hw : 0 < w) (hpoly : poly.msb = true) {c d : BitVec w} (bs : List Bool) :
  bitRun poly c bs = bitRun poly d bs ↔ c = d
  := by
  induction bs generalizing c d with
  | nil => rfl
  | cons b bs ih =>
      have hrun := ih (c := bitStep poly c b) (d := bitStep poly d b)
      rw [bitStep_left_inj hw hpoly] at hrun
      apply hrun

/-- Different bits that fit the state lead to different states. -/
theorem bitRun_right_inj (hpoly : poly.msb = true) {bs bs' : List Bool}
    (hlen : bs.length = bs'.length) (hbs : bs.length ≤ w) (c : BitVec w) :
  bitRun poly c bs = bitRun poly c bs' ↔ bs = bs'
  := by
  constructor
  · intro h
    rw [bitRun_eq hbs, bitRun_eq (hlen ▸ hbs), hlen,
      ((shift_injective hpoly).iterate _).eq_iff, BitVec.xor_right_inj] at h
    exact ofBits_injective hlen hbs h
  · rintro rfl
    rfl

/-- Bits that differ, but within a window that fits the state only, lead to different states. -/
theorem bitRun_ne_of_window (hw : 0 < w) (hpoly : poly.msb = true) {bs bs' : List Bool}
    (hlen : bs.length = bs'.length) (hne : bs ≠ bs') {k : Nat}
    (hwindow : ∀ i, bs[i]? ≠ bs'[i]? → k ≤ i ∧ i < k + w) (c : BitVec w) :
  bitRun poly c bs ≠ bitRun poly c bs'
  := by
  have hget : ∀ i, i < k ∨ k + w ≤ i → bs[i]? = bs'[i]? := by
    intro i hi
    by_contra hdiff
    obtain ⟨hge, hlt⟩ := hwindow i hdiff
    omega
  have hbefore : bs.take k = bs'.take k := by
    apply List.ext_getElem?
    intro i
    rw [List.getElem?_take, List.getElem?_take]
    split
    · next hi => apply hget i (Or.inl hi)
    · rfl
  have hafter : (bs.drop k).drop w = (bs'.drop k).drop w := by
    apply List.ext_getElem?
    intro i
    rw [List.drop_drop, List.drop_drop, List.getElem?_drop, List.getElem?_drop]
    apply hget _ (Or.inr (Nat.le_add_right _ _))
  have hsplit : ∀ l : List Bool, bitRun poly c l
      = bitRun poly (bitRun poly (bitRun poly c (l.take k)) ((l.drop k).take w))
        ((l.drop k).drop w) := by
    intro l
    unfold bitRun
    rw [← List.foldl_append, ← List.foldl_append, List.take_append_drop, List.take_append_drop]
  intro heq
  rw [hsplit bs, hsplit bs', hbefore, hafter, bitRun_left_inj hw hpoly,
    bitRun_right_inj hpoly (by simp [hlen]) (List.length_take_le _ _)] at heq
  apply hne
  rw [← List.take_append_drop k bs, ← List.take_append_drop k bs', hbefore,
    ← List.take_append_drop w (bs.drop k), ← List.take_append_drop w (bs'.drop k), heq, hafter]

end Crc
