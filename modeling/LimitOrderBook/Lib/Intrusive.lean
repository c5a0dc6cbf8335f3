import Mathlib.Logic.Function.Basic
import Mathlib.Data.List.Nodup
import Mathlib.Data.List.Range

/-!
# Intrusive linked lists

A list whose links live in the nodes of an arena, given by the functions `next` and
`prev` from indices to indices and by an index `null` of no node.

* `Chain next null h l`: following `next` from `h` visits the nodes `l` and reaches
  `null`.
* `Seg next prev p h l t n`: the nodes `l` are doubly linked, from the first node `h`,
  whose `prev` is `p`, to the last node `t`, whose `next` is `n`.

`Seg.insert` and `Seg.unlink` are the two surgeries on a doubly linked list: a node put
between two parts of it, and a node taken out.  Each holds at the head, in the middle
and at the tail alike.

`Pool` is an arena whose unused slots are chained into a free list; `Pool.take` and
`Pool.give` are its allocation and its deallocation.
-/

namespace Intrusive

variable {next next' prev prev' : Nat → Nat} {null : Nat}

/-- An update that keeps a field of the updated node keeps the field everywhere. -/
theorem comp_update_of_eq {α β : Type*} {g : α → β} {f : Nat → α} {i : Nat} {v : α}
    (h : g v = g (f i)) :
  g ∘ Function.update f i v = g ∘ f
  := by
  rw [Function.comp_update, h]
  apply Function.update_eq_self i (g ∘ f)

/-- An assignment to a node of `S`, or to none, does not concern a node outside `S`. -/
theorem ite_update_of_notMem {f : Nat → Nat} {p v i : Nat} {S : List Nat}
    (hp : p = null ∨ p ∈ S) (hi : i ∉ S) :
  (if p = null then f else Function.update f p v) i = f i
  := by
  split
  · rfl
  · next hne =>
      rw [Function.update_of_ne]
      rintro rfl
      exact hi (hp.resolve_left hne)

/-! ### Singly linked chains -/

def Chain (next : Nat → Nat) (null : Nat) : Nat → List Nat → Prop
  | h, [] => h = null
  | h, a :: l => h = a ∧ Chain next null (next a) l

/-- A chain depends on the links of its own members alone. -/
theorem Chain.congr {h : Nat} {l : List Nat} (hc : Chain next null h l)
    (heq : ∀ a ∈ l, next' a = next a) :
  Chain next' null h l
  := by
  induction l generalizing h with
  | nil => apply hc
  | cons a l ih =>
      obtain ⟨rfl, hc⟩ := hc
      refine ⟨rfl, ?_⟩
      rw [heq h List.mem_cons_self]
      apply ih hc
      intro b hb
      apply heq b (List.mem_cons_of_mem h hb)

/-- The chain through all indices below `n`, from `s` on. -/
theorem chain_range' {n : Nat} (k s : Nat) (hn : s + k + 1 = n) :
  Chain (fun i => if i + 1 < n then i + 1 else null) null s (List.range' s (k + 1))
  := by
  induction k generalizing s with
  | zero =>
      refine ⟨rfl, ?_⟩
      dsimp only
      rw [if_neg (by omega)]
      rfl
  | succ k ih =>
      rw [List.range'_succ]
      refine ⟨rfl, ?_⟩
      dsimp only
      rw [if_pos (by omega)]
      apply ih
      omega

/-- The nodes a walk along `next` from `h` visits, at most `fuel` of them. -/
def walk (next : Nat → Nat) (null : Nat) : Nat → Nat → List Nat
  | 0, _ => []
  | fuel + 1, h => if h = null then [] else h :: walk next null fuel (next h)

/-- With fuel for all of it, a walk along a chain visits its members. -/
theorem Chain.walk_eq {h : Nat} {l : List Nat} (hc : Chain next null h l) (hnull : null ∉ l)
    {fuel : Nat} (hfuel : l.length ≤ fuel) :
  walk next null fuel h = l
  := by
  induction l generalizing h fuel with
  | nil =>
      obtain rfl := hc
      cases fuel <;> simp [walk]
  | cons a l ih =>
      obtain ⟨rfl, hc⟩ := hc
      obtain ⟨hne, hnull⟩ := List.ne_and_not_mem_of_not_mem_cons hnull
      cases fuel with
      | zero => simp at hfuel
      | succ fuel =>
          rw [walk, if_neg hne.symm, ih hc hnull (by simpa using hfuel)]

/-! ### Doubly linked segments -/

def Seg (next prev : Nat → Nat) : Nat → Nat → List Nat → Nat → Nat → Prop
  | p, h, [], t, n => h = n ∧ t = p
  | p, h, a :: l, t, n => h = a ∧ prev a = p ∧ Seg next prev a (next a) l t n

/-- A doubly linked segment is a chain forwards. -/
theorem Seg.chain {p h t : Nat} {l : List Nat} (hs : Seg next prev p h l t null) :
  Chain next null h l
  := by
  induction l generalizing p h with
  | nil => apply hs.1
  | cons a l ih =>
      obtain ⟨rfl, -, hs⟩ := hs
      exact ⟨rfl, ih hs⟩

/-- A segment depends on the links of its own members alone. -/
theorem Seg.congr {p h t n : Nat} {l : List Nat} (hs : Seg next prev p h l t n)
    (hnext : ∀ a ∈ l, next' a = next a) (hprev : ∀ a ∈ l, prev' a = prev a) :
  Seg next' prev' p h l t n
  := by
  induction l generalizing p h with
  | nil => apply hs
  | cons a l ih =>
      obtain ⟨rfl, hp, hs⟩ := hs
      refine ⟨rfl, ?_, ?_⟩
      · rw [hprev h List.mem_cons_self, hp]
      · rw [hnext h List.mem_cons_self]
        apply ih hs
        · intro b hb
          apply hnext b (List.mem_cons_of_mem h hb)
        · intro b hb
          apply hprev b (List.mem_cons_of_mem h hb)

/-- A segment splits where its list does. -/
theorem seg_append {p h t n : Nat} {l₁ l₂ : List Nat} :
  Seg next prev p h (l₁ ++ l₂) t n
    ↔ ∃ k m, Seg next prev p h l₁ k m ∧ Seg next prev k m l₂ t n
  := by
  induction l₁ generalizing p h with
  | nil => simp [Seg]
  | cons a l ih => simp [Seg, ih, and_assoc]

theorem Seg.head_eq {p h t n a : Nat} {l : List Nat} (hs : Seg next prev p h (a :: l) t n) :
  h = a
  := hs.1

theorem Seg.last_eq {p h t n a : Nat} {l : List Nat} (hs : Seg next prev p h (l ++ [a]) t n) :
  t = a
  := by
  obtain ⟨k, m, -, -, -, -, rfl⟩ := seg_append.mp hs
  rfl

theorem Seg.tail_eq_or_mem {p h t n : Nat} {l : List Nat} (hs : Seg next prev p h l t n) :
  t = p ∨ t ∈ l
  := by
  rcases List.eq_nil_or_concat' l with rfl | ⟨l, a, rfl⟩
  · apply Or.inl hs.2
  · rw [hs.last_eq]
    simp

theorem Seg.head_eq_or_mem {p h t n : Nat} {l : List Nat} (hs : Seg next prev p h l t n) :
  h = n ∨ h ∈ l
  := by
  cases l with
  | nil => apply Or.inl hs.1
  | cons a l =>
      rw [hs.head_eq]
      simp

/-- The two parts of a segment around a node. -/
theorem Seg.split {p h t n x : Nat} {l₁ l₂ : List Nat}
    (hs : Seg next prev p h (l₁ ++ x :: l₂) t n) :
  Seg next prev p h l₁ (prev x) x ∧ Seg next prev x (next x) l₂ t n
  := by
  obtain ⟨k, m, hs₁, rfl, rfl, hs₂⟩ := seg_append.mp hs
  exact ⟨hs₁, hs₂⟩

/-- The node before `x` is among the nodes in front of it, if there is one. -/
theorem Seg.prev_eq_or_mem {p h t n x : Nat} {l₁ l₂ : List Nat}
    (hs : Seg next prev p h (l₁ ++ x :: l₂) t n) :
  prev x = p ∨ prev x ∈ l₁
  := hs.split.1.tail_eq_or_mem

/-- The node after `x` is among the nodes behind it, if there is one. -/
theorem Seg.next_eq_or_mem {p h t n x : Nat} {l₁ l₂ : List Nat}
    (hs : Seg next prev p h (l₁ ++ x :: l₂) t n) :
  next x = n ∨ next x ∈ l₂
  := hs.split.2.head_eq_or_mem

/-- A segment that ends at no node has a first node unless it is empty. -/
theorem Seg.head_eq_null_iff {p h t : Nat} {l : List Nat} (hs : Seg next prev p h l t null)
    (hnull : null ∉ l) :
  h = null ↔ l = []
  := by
  cases l with
  | nil => simp [hs.1]
  | cons a l =>
      obtain rfl := hs.head_eq
      simp only [reduceCtorEq, iff_false]
      rintro rfl
      simp at hnull

/-! ### Surgery -/

/-- Make a segment lead to `n'`: the link of its last node changes or, when it is empty,
its head. -/
theorem Seg.retarget {h t n : Nat} {l : List Nat} (hs : Seg next prev null h l t n)
    (hnull : null ∉ l) (hnd : l.Nodup) (n' : Nat) :
  Seg (if t = null then next else Function.update next t n') prev null
    (if t = null then n' else h) l t n'
  := by
  rcases List.eq_nil_or_concat' l with rfl | ⟨l, a, rfl⟩
  · obtain ⟨rfl, rfl⟩ := hs
    simp [Seg]
  · obtain rfl := hs.last_eq
    have hne : t ≠ null := by
      rintro rfl
      simp at hnull
    rw [if_neg hne, if_neg hne]
    obtain ⟨k, m, hs₁, rfl, hp, -⟩ := seg_append.mp hs
    have hmem : m ∉ l := by
      intro hm
      exact (List.nodup_append.mp hnd).2.2 m hm m (by simp) rfl
    apply seg_append.mpr
    use k, m
    constructor
    · apply hs₁.congr
      · intro b hb
        rw [Function.update_of_ne]
        rintro rfl
        exact hmem hb
      · intro b _
        rfl
    · refine ⟨rfl, hp, ?_, rfl⟩
      rw [Function.update_self]

/-- Make a segment start after `p'`: the back link of its first node changes or, when it is
empty, its last node. -/
theorem Seg.resource {p h t : Nat} {l : List Nat} (hs : Seg next prev p h l t null)
    (hnull : null ∉ l) (hnd : l.Nodup) (p' : Nat) :
  Seg next (if h = null then prev else Function.update prev h p') p' h l
    (if h = null then p' else t) null
  := by
  cases l with
  | nil =>
      obtain ⟨rfl, rfl⟩ := hs
      simp [Seg]
  | cons a l =>
      obtain ⟨rfl, rfl, hs⟩ := hs
      have hne : h ≠ null := by
        rintro rfl
        simp at hnull
      rw [if_neg hne, if_neg hne]
      refine ⟨rfl, ?_, ?_⟩
      · rw [Function.update_self]
      · apply hs.congr
        · intro b _
          rfl
        · intro b hb
          rw [Function.update_of_ne]
          rintro rfl
          simp [hb] at hnd

/-- Put the node `x` between two parts of a doubly linked list, after `p` and before `n`. -/
theorem Seg.insert {h t p n x : Nat} {l₁ l₂ : List Nat}
    (hs₁ : Seg next prev null h l₁ p n) (hs₂ : Seg next prev p n l₂ t null)
    (hnull : null ∉ l₁ ++ x :: l₂) (hnd : (l₁ ++ x :: l₂).Nodup) :
  Seg (Function.update (if p = null then next else Function.update next p x) x n)
    (Function.update (if n = null then prev else Function.update prev n x) x p)
    null (if p = null then x else h) (l₁ ++ x :: l₂) (if n = null then x else t) null
  := by
  obtain ⟨hnd₁, hnd₂, hdisj⟩ := List.nodup_append.mp hnd
  obtain ⟨hx₂, hnd₂⟩ := List.nodup_cons.mp hnd₂
  have hnull₁ : null ∉ l₁ := fun hm => hnull (List.mem_append_left _ hm)
  have hnull₂ : null ∉ l₂ := fun hm => hnull (List.mem_append_right _ (List.mem_cons_of_mem _ hm))
  have hp₁ : ∀ b ∈ l₂, p ≠ null → b ≠ p := by
    rintro b hb hp rfl
    rcases List.eq_nil_or_concat' l₁ with rfl | ⟨l, a, rfl⟩
    · exact hp hs₁.2
    · obtain rfl := hs₁.last_eq
      exact hdisj b (by simp) b (by simp [hb]) rfl
  have hn₂ : ∀ b ∈ l₁, n ≠ null → b ≠ n := by
    rintro b hb hn rfl
    cases l₂ with
    | nil => exact hn hs₂.1
    | cons a l =>
        obtain rfl := hs₂.head_eq
        exact hdisj b hb b (by simp) rfl
  apply seg_append.mpr
  use p, x
  constructor
  · apply (hs₁.retarget hnull₁ hnd₁ x).congr
    · intro b hb
      rw [Function.update_of_ne (hdisj b hb x (by simp))]
    · intro b hb
      rw [Function.update_of_ne (hdisj b hb x (by simp))]
      split
      · rfl
      · next hn => rw [Function.update_of_ne (hn₂ b hb hn)]
  · refine ⟨rfl, Function.update_self .., ?_⟩
    rw [Function.update_self]
    apply (hs₂.resource hnull₂ hnd₂ x).congr
    · intro b hb
      rw [Function.update_of_ne (by rintro rfl; exact hx₂ hb)]
      split
      · rfl
      · next hp => rw [Function.update_of_ne (hp₁ b hb hp)]
    · intro b hb
      rw [Function.update_of_ne (by rintro rfl; exact hx₂ hb)]

/-- Take the node `x` out of a doubly linked list. -/
theorem Seg.unlink {h t x : Nat} {l₁ l₂ : List Nat}
    (hs : Seg next prev null h (l₁ ++ x :: l₂) t null)
    (hnull : null ∉ l₁ ++ x :: l₂) (hnd : (l₁ ++ x :: l₂).Nodup) :
  Seg (if prev x = null then next else Function.update next (prev x) (next x))
    (if next x = null then prev else Function.update prev (next x) (prev x))
    null (if prev x = null then next x else h) (l₁ ++ l₂)
    (if next x = null then prev x else t) null
  := by
  obtain ⟨hs₁, hs₂⟩ := hs.split
  obtain ⟨hnd₁, hnd₂, hdisj⟩ := List.nodup_append.mp hnd
  obtain ⟨hx₂, hnd₂⟩ := List.nodup_cons.mp hnd₂
  have hnull₁ : null ∉ l₁ := fun hm => hnull (List.mem_append_left _ hm)
  have hnull₂ : null ∉ l₂ := fun hm => hnull (List.mem_append_right _ (List.mem_cons_of_mem _ hm))
  apply seg_append.mpr
  use prev x, next x
  constructor
  · apply (hs₁.retarget hnull₁ hnd₁ (next x)).congr
    · intro b _
      rfl
    · intro b hb
      split
      · rfl
      · next hn =>
          rw [Function.update_of_ne]
          rintro rfl
          cases l₂ with
          | nil => exact hn hs₂.1
          | cons a l => exact hdisj _ hb a (by simp) hs₂.head_eq
  · apply (hs₂.resource hnull₂ hnd₂ (prev x)).congr
    · intro b hb
      split
      · rfl
      · next hp =>
          rw [Function.update_of_ne]
          rintro rfl
          rcases List.eq_nil_or_concat' l₁ with rfl | ⟨l, a, rfl⟩
          · exact hp hs₁.2
          · exact hdisj a (by simp) _ (by simp [hb]) hs₁.last_eq.symm
    · intro b _
      rfl

/-! ### Free lists -/

/-- An arena of `cap` slots, of which `used` are in use and `free` are chained from `head`
through `next`. -/
structure Pool (next : Nat → Nat) (active : Nat → Bool) (null cap head : Nat)
    (used free : List Nat) : Prop where
  perm : (used ++ free).Perm (List.range cap)
  chain : Chain next null head free
  used_active : ∀ i ∈ used, active i = true
  free_inactive : ∀ i ∈ free, active i = false

namespace Pool

variable {active active' : Nat → Bool} {cap head : Nat} {used used' free : List Nat}

/-- In a new pool every slot is free. -/
theorem new (hcap : 0 < cap) :
  Pool (fun i => if i + 1 < cap then i + 1 else null) (fun _ => false) null cap 0 []
    (List.range cap) where
  perm := List.Perm.refl _
  chain := by
    rw [List.range_eq_range', ← Nat.sub_add_cancel hcap]
    apply chain_range'
    omega
  used_active := by simp
  free_inactive _ _ := rfl

theorem nodup (h : Pool next active null cap head used free) :
  (used ++ free).Nodup
  := h.perm.nodup_iff.mpr List.nodup_range

theorem lt_of_used (h : Pool next active null cap head used free) {i : Nat} (hi : i ∈ used) :
  i < cap
  := by
  rw [← List.mem_range, ← h.perm.mem_iff]
  apply List.mem_append_left _ hi

theorem lt_of_free (h : Pool next active null cap head used free) {i : Nat} (hi : i ∈ free) :
  i < cap
  := by
  rw [← List.mem_range, ← h.perm.mem_iff]
  apply List.mem_append_right _ hi

/-- Each slot is used or free. -/
theorem length_add (h : Pool next active null cap head used free) :
  used.length + free.length = cap
  := by
  rw [← List.length_append, h.perm.length_eq, List.length_range]

theorem ne_of_used_of_free (h : Pool next active null cap head used free) {i j : Nat}
    (hi : i ∈ used) (hj : j ∈ free) :
  i ≠ j
  := (List.nodup_append.mp h.nodup).2.2 i hi j hj

theorem perm_used (h : Pool next active null cap head used free) (hp : used.Perm used') :
  Pool next active null cap head used' free where
  perm := (hp.symm.append_right free).trans h.perm
  chain := h.chain
  used_active i hi := h.used_active i (hp.mem_iff.mpr hi)
  free_inactive := h.free_inactive

theorem congr (h : Pool next active null cap head used free)
    (hnext : ∀ i ∈ free, next' i = next i) (hactive : active' = active) :
  Pool next' active' null cap head used free
  := by
  subst hactive
  exact ⟨h.perm, h.chain.congr hnext, h.used_active, h.free_inactive⟩

/-- The free list's head is null exactly when no slot is free. -/
theorem head_eq_null_iff (h : Pool next active null cap head used free) (hnull : cap ≤ null) :
  head = null ↔ free = []
  := by
  cases free with
  | nil =>
      have hc : head = null := h.chain
      simp [hc]
  | cons a l =>
      obtain ⟨rfl, -⟩ := h.chain
      have hlt := h.lt_of_free List.mem_cons_self
      simp only [reduceCtorEq, iff_false]
      omega

/-- Allocation: the first free slot comes into use. -/
theorem take {i : Nat} (h : Pool next active null cap head used (i :: free)) (n : Nat) :
  Pool (Function.update next i n) (Function.update active i true) null cap (next i)
    (i :: used) free where
  perm := List.perm_middle.symm.trans h.perm
  chain := by
    obtain ⟨rfl, hc⟩ := h.chain
    apply hc.congr
    intro a ha
    rw [Function.update_of_ne]
    rintro rfl
    have hnd := (List.nodup_append.mp h.nodup).2.1
    exact (List.nodup_cons.mp hnd).1 ha
  used_active j hj := by
    rcases eq_or_ne j i with rfl | hne
    · rw [Function.update_self]
    · rw [Function.update_of_ne hne]
      apply h.used_active j ((List.mem_cons.mp hj).resolve_left hne)
  free_inactive j hj := by
    rw [Function.update_of_ne]
    · apply h.free_inactive j (List.mem_cons_of_mem i hj)
    · rintro rfl
      have hnd := (List.nodup_append.mp h.nodup).2.1
      exact (List.nodup_cons.mp hnd).1 hj

/-- Deallocation: a slot in use becomes the first free one. -/
theorem give {i : Nat} (h : Pool next active null cap head (i :: used) free) :
  Pool (Function.update next i head) (Function.update active i false) null cap i
    used (i :: free) where
  perm := List.perm_middle.trans h.perm
  chain := by
    refine ⟨rfl, ?_⟩
    rw [Function.update_self]
    apply h.chain.congr
    intro a ha
    rw [Function.update_of_ne]
    exact (h.ne_of_used_of_free List.mem_cons_self ha).symm
  used_active j hj := by
    rw [Function.update_of_ne]
    · apply h.used_active j (List.mem_cons_of_mem i hj)
    · rintro rfl
      have hnd := (List.nodup_append.mp h.nodup).1
      exact (List.nodup_cons.mp hnd).1 hj
  free_inactive j hj := by
    rcases eq_or_ne j i with rfl | hne
    · rw [Function.update_self]
    · rw [Function.update_of_ne hne]
      apply h.free_inactive j ((List.mem_cons.mp hj).resolve_left hne)

end Pool

end Intrusive
