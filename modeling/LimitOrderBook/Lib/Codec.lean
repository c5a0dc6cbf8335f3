import Mathlib.Data.List.Basic
import Mathlib.Logic.Equiv.Defs
import Mathlib.Algebra.Group.Nat.Defs
import LimitOrderBook.Lib.While

/-!
# Fixed-size layouts and streams of frames

`Codec α` is a layout of the values of `α` on a fixed number of bytes, every byte of which
matters: `encode` and `decode` are inverse to each other.  Words are laid out in little-endian
order, and a structure is laid out as its fields one after another.

`Codec.frames` reads a stream of values, one after another, up to the first that is incomplete
or fails a check.  `Codec.frames_encodeAll_append` and `Codec.isPrefix_encodeAll_frames` say that
reading undoes writing, and that what is read has been there.
-/

/-! ### Little-endian words -/

namespace LittleEndian

/-- The `n` lowest bytes of a number, the lowest first. -/
def bytes : Nat → Nat → List UInt8
  | 0, _ => []
  | n + 1, x => UInt8.ofNat x :: bytes n (x / 256)

/-- The number of which the bytes are the digits, the lowest first. -/
def value : List UInt8 → Nat
  | [] => 0
  | b :: bs => b.toNat + 256 * value bs

@[simp]
theorem length_bytes (n x : Nat) :
  (bytes n x).length = n
  := by
  induction n generalizing x with
  | zero => rfl
  | succ n ih => rw [bytes, List.length_cons, ih]

theorem value_lt (bs : List UInt8) :
  value bs < 256 ^ bs.length
  := by
  induction bs with
  | nil => exact Nat.one_pos
  | cons b bs ih =>
      have hb := b.toNat_lt
      rw [value, List.length_cons, Nat.pow_succ]
      omega

theorem value_bytes {n x : Nat} (h : x < 256 ^ n) :
  value (bytes n x) = x
  := by
  induction n generalizing x with
  | zero =>
      rw [Nat.pow_zero] at h
      rw [bytes, value]
      omega
  | succ n ih =>
      rw [Nat.pow_succ] at h
      rw [bytes, value, ih (by omega), UInt8.toNat_ofNat']
      omega

theorem bytes_value (bs : List UInt8) :
  bytes bs.length (value bs) = bs
  := by
  induction bs with
  | nil => rfl
  | cons b bs ih =>
      have hb := b.toNat_lt
      have hdiv : (b.toNat + 256 * value bs) / 256 = value bs := by omega
      rw [List.length_cons, bytes, value, hdiv, ih]
      congr 1
      apply UInt8.toNat_inj.mp
      rw [UInt8.toNat_ofNat']
      omega

end LittleEndian

/-! ### Layouts -/

/-- A layout of the values of `α` on `size` bytes. -/
structure Codec (α : Type*) where
  size : Nat
  encode : α → List UInt8
  decode : List UInt8 → α
  length_encode : ∀ a, (encode a).length = size
  decode_encode : ∀ a, decode (encode a) = a
  encode_decode : ∀ bs, bs.length = size → encode (decode bs) = bs

namespace Codec

open LittleEndian

variable {α β : Type*}

attribute [simp] length_encode decode_encode

/-- The layout of the numbers below `256 ^ n` through which a type is given. -/
def word (n : Nat) (toNat : α → Nat) (ofNat : Nat → α) (h_lt : ∀ a, toNat a < 256 ^ n)
    (h_ofNat : ∀ a, ofNat (toNat a) = a) (h_toNat : ∀ x < 256 ^ n, toNat (ofNat x) = x) :
    Codec α where
  size := n
  encode a := bytes n (toNat a)
  decode bs := ofNat (value bs)
  length_encode a := length_bytes n (toNat a)
  decode_encode a := by
    rw [value_bytes (h_lt a), h_ofNat]
  encode_decode bs hbs := by
    subst hbs
    rw [h_toNat _ (value_lt bs), bytes_value]

def u8 : Codec UInt8 :=
  word 1 UInt8.toNat UInt8.ofNat (fun a => a.toNat_lt) (fun _ => UInt8.ofNat_toNat)
    (fun _ h => UInt8.toNat_ofNat_of_lt' h)

def u16 : Codec UInt16 :=
  word 2 UInt16.toNat UInt16.ofNat (fun a => a.toNat_lt) (fun _ => UInt16.ofNat_toNat)
    (fun _ h => UInt16.toNat_ofNat_of_lt' h)

def u32 : Codec UInt32 :=
  word 4 UInt32.toNat UInt32.ofNat (fun a => a.toNat_lt) (fun _ => UInt32.ofNat_toNat)
    (fun _ h => UInt32.toNat_ofNat_of_lt' h)

def u64 : Codec UInt64 :=
  word 8 UInt64.toNat UInt64.ofNat (fun a => a.toNat_lt) (fun _ => UInt64.ofNat_toNat)
    (fun _ h => UInt64.toNat_ofNat_of_lt' h)

/-- One value laid out after the other. -/
def pair (A : Codec α) (B : Codec β) : Codec (α × β) where
  size := A.size + B.size
  encode p := A.encode p.1 ++ B.encode p.2
  decode bs := (A.decode (bs.take A.size), B.decode (bs.drop A.size))
  length_encode p := by simp
  decode_encode p := by
    rw [List.take_left' (A.length_encode p.1), List.drop_left' (A.length_encode p.1),
      A.decode_encode, B.decode_encode]
  encode_decode bs hbs := by
    rw [A.encode_decode _ (by rw [List.length_take]; omega),
      B.encode_decode _ (by rw [List.length_drop]; omega), List.take_append_drop]

/-- A layout carried along an equivalence. -/
def map (A : Codec α) (e : α ≃ β) : Codec β where
  size := A.size
  encode b := A.encode (e.symm b)
  decode bs := e (A.decode bs)
  length_encode b := A.length_encode (e.symm b)
  decode_encode b := by rw [A.decode_encode, e.apply_symm_apply]
  encode_decode bs hbs := by rw [e.symm_apply_apply, A.encode_decode bs hbs]

variable (C : Codec α)

theorem encode_inj {a b : α} :
  C.encode a = C.encode b ↔ a = b
  := by
  constructor
  · intro h
    rw [← C.decode_encode a, h, C.decode_encode]
  · rintro rfl
    rfl

/-! ### Damage -/

/-- The value read after the byte at `p` has been overwritten. -/
def damage (a : α) (p : Nat) (v : UInt8) : α := C.decode ((C.encode a).set p v)

theorem encode_damage (a : α) (p : Nat) (v : UInt8) :
  C.encode (C.damage a p v) = (C.encode a).set p v
  := by
  apply C.encode_decode
  rw [List.length_set, C.length_encode]

/-- Every byte matters. -/
theorem damage_eq_self_iff {a : α} {p : Nat} {v : UInt8} :
  C.damage a p v = a ↔ (C.encode a).set p v = C.encode a
  := by
  rw [← C.encode_damage, C.encode_inj]

theorem damage_pair_of_lt (A : Codec α) (B : Codec β) (a : α) (b : β) {p : Nat} (v : UInt8)
    (h : p < A.size) :
  (A.pair B).damage (a, b) p v = (A.damage a p v, b)
  := by
  apply (A.pair B).encode_inj.mp
  rw [encode_damage]
  change (A.encode a ++ B.encode b).set p v = A.encode (A.damage a p v) ++ B.encode b
  rw [encode_damage, List.set_append_left p v (by rwa [A.length_encode])]

theorem damage_pair_of_le (A : Codec α) (B : Codec β) (a : α) (b : β) {p : Nat} (v : UInt8)
    (h : A.size ≤ p) :
  (A.pair B).damage (a, b) p v = (a, B.damage b (p - A.size) v)
  := by
  apply (A.pair B).encode_inj.mp
  rw [encode_damage]
  change (A.encode a ++ B.encode b).set p v = A.encode a ++ B.encode (B.damage b (p - A.size) v)
  rw [encode_damage, List.set_append_right p v (by rwa [A.length_encode]), A.length_encode]

theorem damage_map (A : Codec α) (e : α ≃ β) (b : β) (p : Nat) (v : UInt8) :
  (A.map e).damage b p v = e (A.damage (e.symm b) p v)
  := rfl

/-! ### Streams -/

/-- The values laid out one after another. -/
def encodeAll (as : List α) : List UInt8 := as.flatMap C.encode

@[simp]
theorem encodeAll_nil :
  C.encodeAll [] = []
  := rfl

@[simp]
theorem encodeAll_cons (a : α) (as : List α) :
  C.encodeAll (a :: as) = C.encode a ++ C.encodeAll as
  := rfl

@[simp]
theorem encodeAll_append (as bs : List α) :
  C.encodeAll (as ++ bs) = C.encodeAll as ++ C.encodeAll bs
  := List.flatMap_append

@[simp]
theorem length_encodeAll (as : List α) :
  (C.encodeAll as).length = C.size * as.length
  := by
  induction as with
  | nil => rfl
  | cons a as ih =>
      rw [encodeAll_cons, List.length_append, ih, C.length_encode, List.length_cons,
        Nat.mul_succ, Nat.add_comm]

/-- A stream cut at any byte is the values that are complete in it, and less than one more
value. -/
theorem take_encodeAll (hC : 0 < C.size) (k : Nat) (as : List α) :
  ∃ tail, (C.encodeAll as).take k = C.encodeAll (as.take (k / C.size)) ++ tail
    ∧ tail.length < C.size
  := by
  induction as generalizing k with
  | nil => exact ⟨[], by simp, hC⟩
  | cons a as ih =>
      rw [encodeAll_cons]
      by_cases hk : k < C.size
      · use (C.encode a).take k
        rw [Nat.div_eq_of_lt hk, List.take_zero, encodeAll_nil, List.nil_append,
          List.take_append_of_le_length (by rw [C.length_encode]; omega)]
        refine ⟨rfl, ?_⟩
        rw [List.length_take, C.length_encode]
        omega
      · obtain ⟨tail, htail, hlt⟩ := ih (k - C.size)
        use tail
        refine ⟨?_, hlt⟩
        have hdiv : k / C.size = (k - C.size) / C.size + 1 := by
          rw [Nat.div_eq k, if_pos ⟨hC, Nat.not_lt.mp hk⟩]
        rw [List.take_append, List.take_of_length_le (by rw [C.length_encode]; omega),
          C.length_encode, htail, hdiv, List.take_succ_cons, encodeAll_cons, List.append_assoc]

/-- Any stream is values, and less than one more value. -/
theorem exists_encodeAll_append (hC : 0 < C.size) (bs : List UInt8) :
  ∃ as tail, bs = C.encodeAll as ++ tail ∧ tail.length < C.size
  := by
  induction hn : bs.length using Nat.strongRecOn generalizing bs with
  | ind n ih =>
      by_cases hlt : bs.length < C.size
      · exact ⟨[], bs, rfl, hlt⟩
      · have hle := Nat.not_lt.mp hlt
        obtain ⟨as, tail, hdrop, htail⟩ :=
          ih (bs.drop C.size).length (by rw [List.length_drop]; omega) (bs.drop C.size) rfl
        use C.decode (bs.take C.size) :: as, tail
        refine ⟨?_, htail⟩
        rw [encodeAll_cons, C.encode_decode _ (by rw [List.length_take]; omega), List.append_assoc,
          ← hdrop, List.take_append_drop]

/-- To overwrite a byte of a stream is to damage one of its values. -/
theorem set_encodeAll {as : List α} {p : Nat} (h : p < (C.encodeAll as).length) (v : UInt8) :
  ∃ front a back, as = front ++ a :: back
    ∧ (C.encodeAll as).set p v
      = C.encodeAll (front ++ C.damage a (p % C.size) v :: back)
  := by
  induction as generalizing p with
  | nil => cases h
  | cons a as ih =>
      by_cases hp : p < C.size
      · use [], a, as
        rw [List.nil_append, List.nil_append, encodeAll_cons, encodeAll_cons, encode_damage,
          Nat.mod_eq_of_lt hp, List.set_append_left p v (by rwa [C.length_encode])]
        exact ⟨rfl, rfl⟩
      · rw [encodeAll_cons, List.length_append, C.length_encode] at h
        obtain ⟨front, x, back, rfl, hset⟩ := ih (show p - C.size < _ by omega)
        use a :: front, x, back
        rw [encodeAll_cons, List.set_append_right p v (by rw [C.length_encode]; omega),
          C.length_encode, hset, ← Nat.mod_eq_sub_mod (Nat.not_lt.mp hp)]
        exact ⟨rfl, rfl⟩

variable (Intact : α → Prop) [DecidablePred Intact]

/-- The first value of a stream and the rest of the stream: `none` if there are not bytes
enough for a value, or if the value is not intact. -/
def readFrame (bs : List UInt8) : Option (α × List UInt8) :=
  if bs.length < C.size then none
  else if Intact (C.decode (bs.take C.size)) then
    some (C.decode (bs.take C.size), bs.drop C.size)
  else none

/-- One round of reading a stream: the values read so far, and the rest of the stream. -/
def frameRound (s : List α × List UInt8) : Option (List α × List UInt8) :=
  (C.readFrame Intact s.2).map fun (a, rest) => (s.1 ++ [a], rest)

/-- The values read from a stream. -/
def frames (bs : List UInt8) : List α :=
  (While.run (C.frameRound Intact) bs.length ([], bs)).1

variable {Intact}

theorem readFrame_eq_some_iff {bs rest : List UInt8} {a : α} :
  C.readFrame Intact bs = some (a, rest) ↔ Intact a ∧ bs = C.encode a ++ rest
  := by
  unfold readFrame
  constructor
  · intro h
    split at h
    · cases h
    · next hlen =>
        split at h
        · next hint =>
            obtain ⟨rfl, rfl⟩ := Prod.mk.inj (Option.some.inj h)
            refine ⟨hint, ?_⟩
            rw [C.encode_decode _ (by rw [List.length_take]; omega), List.take_append_drop]
        · cases h
  · rintro ⟨hint, rfl⟩
    have htake : (C.encode a ++ rest).take C.size = C.encode a :=
      List.take_left' (C.length_encode a)
    have hdrop : (C.encode a ++ rest).drop C.size = rest :=
      List.drop_left' (C.length_encode a)
    rw [htake, hdrop, C.decode_encode, if_neg, if_pos hint]
    rw [List.length_append, C.length_encode]
    omega

theorem readFrame_of_lt {bs : List UInt8} (h : bs.length < C.size) :
  C.readFrame Intact bs = none
  := if_pos h

/-- A value that is not intact is not read. -/
theorem readFrame_of_not_intact {a : α} (ha : ¬ Intact a) (rest : List UInt8) :
  C.readFrame Intact (C.encode a ++ rest) = none
  := by
  unfold readFrame
  rw [List.take_left' (C.length_encode a), C.decode_encode, if_neg ha]
  split <;> rfl

theorem frames_of_none {bs : List UInt8} (h : C.readFrame Intact bs = none) :
  C.frames Intact bs = []
  := by
  unfold frames
  rw [While.run_of_none]
  unfold frameRound
  rw [h]
  rfl

/-- The values read before do not matter to what is read next. -/
theorem run_frameRound (fuel : Nat) (as : List α) (bs : List UInt8) :
  (While.run (C.frameRound Intact) fuel (as, bs)).1
    = as ++ (While.run (C.frameRound Intact) fuel ([], bs)).1
  := by
  have hround (s : List α × List UInt8) :
      C.frameRound Intact (as ++ s.1, s.2)
        = (C.frameRound Intact s).map fun s => (as ++ s.1, s.2) := by
    unfold frameRound
    cases C.readFrame Intact s.2 with
    | none => rfl
    | some r => simp
  have h := While.map_run (fun s : List α × List UInt8 => (as ++ s.1, s.2)) hround fuel ([], bs)
  rw [List.append_nil] at h
  rw [← h]

/-- The loop reads to the end. -/
theorem frameRound_run (hC : 0 < C.size) {fuel : Nat} {bs : List UInt8}
    (h : bs.length ≤ fuel) (as : List α) :
  C.frameRound Intact (While.run (C.frameRound Intact) fuel (as, bs)) = none
  := by
  apply (While.run_spec (fun _ => True) (fun s => s.2.length) _ trivial h).2
  intro s s' _ hs
  refine ⟨trivial, ?_⟩
  unfold frameRound at hs
  obtain ⟨⟨a, rest⟩, hread, rfl⟩ := Option.map_eq_some_iff.mp hs
  obtain ⟨-, heq⟩ := C.readFrame_eq_some_iff.mp hread
  rw [heq, List.length_append, C.length_encode]
  dsimp only
  omega

theorem frames_encode_append (hC : 0 < C.size) {a : α} (ha : Intact a) (rest : List UInt8) :
  C.frames Intact (C.encode a ++ rest) = a :: C.frames Intact rest
  := by
  have hround : C.frameRound Intact ([], C.encode a ++ rest) = some ([a], rest) := by
    unfold frameRound
    rw [C.readFrame_eq_some_iff.mpr ⟨ha, rfl⟩]
    rfl
  have hlen : (C.encode a ++ rest).length = rest.length + (C.size - 1) + 1 := by
    rw [List.length_append, C.length_encode]
    omega
  rw [frames, hlen, While.run_of_some hround,
    While.run_add (C.frameRound_run hC (Nat.le_refl _) [a]), run_frameRound]
  rfl

/-- Reading undoes writing, whatever comes after. -/
theorem frames_encodeAll_append (hC : 0 < C.size) {as : List α} (has : ∀ a ∈ as, Intact a)
    (rest : List UInt8) :
  C.frames Intact (C.encodeAll as ++ rest) = as ++ C.frames Intact rest
  := by
  induction as with
  | nil => rfl
  | cons a as ih =>
      rw [encodeAll_cons, List.append_assoc,
        C.frames_encode_append hC (has a List.mem_cons_self), List.cons_append, ih]
      intro b hb
      apply has b (List.mem_cons_of_mem a hb)

/-- The values read are intact. -/
theorem intact_of_mem_frames (bs : List UInt8) :
  ∀ a ∈ C.frames Intact bs, Intact a
  := by
  have hround (s s' : List α × List UInt8) (hs : ∀ a ∈ s.1, Intact a)
      (h : C.frameRound Intact s = some s') : ∀ a ∈ s'.1, Intact a := by
    unfold frameRound at h
    obtain ⟨⟨a, rest⟩, hread, rfl⟩ := Option.map_eq_some_iff.mp h
    intro b hb
    rcases List.mem_append.mp hb with hb | hb
    · apply hs b hb
    · rw [List.mem_singleton.mp hb]
      exact (C.readFrame_eq_some_iff.mp hread).1
  have hnil : ∀ a ∈ (([], bs) : List α × List UInt8).1, Intact a := by
    intro a ha
    cases ha
  exact While.run_invariant (I := fun s : List α × List UInt8 => ∀ a ∈ s.1, Intact a) hround
    bs.length hnil

/-- The values read are laid out at the start of the stream. -/
theorem isPrefix_encodeAll_frames (hC : 0 < C.size) (bs : List UInt8) :
  C.encodeAll (C.frames Intact bs) <+: bs
  := by
  induction hn : bs.length using Nat.strongRecOn generalizing bs with
  | ind n ih =>
      cases hread : C.readFrame Intact bs with
      | none =>
          rw [C.frames_of_none hread]
          apply List.nil_prefix
      | some r =>
          obtain ⟨a, rest⟩ := r
          obtain ⟨ha, rfl⟩ := C.readFrame_eq_some_iff.mp hread
          rw [C.frames_encode_append hC ha, encodeAll_cons]
          apply (List.prefix_append_right_inj _).mpr
          apply ih rest.length _ rest rfl
          rw [← hn, List.length_append, C.length_encode]
          omega

/-! ### Loops over a stream -/

variable {σ : Type*} (f : σ → α → Option σ)

/-- One round of a loop that takes in the values of a stream. -/
def scanRound (s : σ × List UInt8) : Option (σ × List UInt8) :=
  if s.2.length < C.size then none
  else (f s.1 (C.decode (s.2.take C.size))).map fun s' => (s', s.2.drop C.size)

/-- The state after a loop that takes in the values of a stream. -/
def scan (s : σ) (bs : List UInt8) : σ := (While.run (C.scanRound f) bs.length (s, bs)).1

variable {f}

theorem scanRound_of_lt {s : σ} {bs : List UInt8} (h : bs.length < C.size) :
  C.scanRound f (s, bs) = none
  := if_pos h

theorem scanRound_encode_append (s : σ) (a : α) (rest : List UInt8) :
  C.scanRound f (s, C.encode a ++ rest) = (f s a).map fun s' => (s', rest)
  := by
  unfold scanRound
  dsimp only
  rw [List.take_left' (C.length_encode a), List.drop_left' (C.length_encode a), C.decode_encode,
    if_neg]
  rw [List.length_append, C.length_encode]
  omega

/-- A round takes off the bytes of a value. -/
theorem length_of_scanRound {s s' : σ × List UInt8} (h : C.scanRound f s = some s') :
  s'.2.length + C.size = s.2.length
  := by
  unfold scanRound at h
  split at h
  · cases h
  · obtain ⟨s₁, -, rfl⟩ := Option.map_eq_some_iff.mp h
    rw [List.length_drop]
    omega

/-- The loop scans to the end. -/
theorem scanRound_run (hC : 0 < C.size) {fuel : Nat} {bs : List UInt8} (h : bs.length ≤ fuel)
    (s : σ) :
  C.scanRound f (While.run (C.scanRound f) fuel (s, bs)) = none
  := by
  apply (While.run_spec (fun _ => True) (fun s => s.2.length) _ trivial h).2
  intro s s' _ hs
  have hlen := C.length_of_scanRound hs
  exact ⟨trivial, by omega⟩

theorem scan_of_lt {bs : List UInt8} (h : bs.length < C.size) (s : σ) :
  C.scan f s bs = s
  := by
  rw [scan, While.run_of_none (C.scanRound_of_lt h)]

theorem scan_encode_append (hC : 0 < C.size) (s : σ) (a : α) (rest : List UInt8) :
  C.scan f s (C.encode a ++ rest)
    = match f s a with
      | none => s
      | some s' => C.scan f s' rest
  := by
  have hround := C.scanRound_encode_append (f := f) s a rest
  have hlen : (C.encode a ++ rest).length = rest.length + (C.size - 1) + 1 := by
    rw [List.length_append, C.length_encode]
    omega
  cases hf : f s a with
  | none =>
      rw [hf] at hround
      rw [scan, While.run_of_none hround]
  | some s' =>
      rw [hf] at hround
      rw [scan, hlen, While.run_of_some hround,
        While.run_add (C.scanRound_run hC (Nat.le_refl _) s')]
      rfl

/-- To scan a stream is to loop over its values, whatever is incomplete after them. -/
theorem scan_encodeAll_append (hC : 0 < C.size) (s : σ) (as : List α) {tail : List UInt8}
    (h : tail.length < C.size) :
  C.scan f s (C.encodeAll as ++ tail) = While.fold f s as
  := by
  induction as generalizing s with
  | nil =>
      rw [encodeAll_nil, List.nil_append, C.scan_of_lt h]
      rfl
  | cons a as ih =>
      rw [encodeAll_cons, List.append_assoc, C.scan_encode_append hC, While.fold]
      cases f s a with
      | none => rfl
      | some s' => exact ih s'

/-- A stream cut at any byte scans as the values that are complete in it. -/
theorem scan_take_encodeAll (hC : 0 < C.size) (s : σ) (k : Nat) (as : List α) :
  C.scan f s ((C.encodeAll as).take k) = While.fold f s (as.take (k / C.size))
  := by
  obtain ⟨tail, htail, hlt⟩ := C.take_encodeAll hC k as
  rw [htail, C.scan_encodeAll_append hC s _ hlt]

end Codec
