import Mathlib.Algebra.Ring.Parity
import Mathlib.Data.List.GetD
import Mathlib.Logic.Function.Iterate
import Mathlib.Tactic.Common

/-!
# Linear feedback shift registers that read a bit at a time

A register of width `w` moves down one place and folds a bit that falls out back in through
its taps. Reading a bit adds it to the lowest place first. Both are linear, so that the
effect of an error pattern is the register fed with the pattern from zero: it is never zero
for a pattern that fits into a window of `w` bits, it keeps the parity of the pattern when
the number of taps is odd, and it vanishes on two bits only at a period of the register.
-/
namespace MctpSerial.ShiftRegisters

variable {w : ℕ}

/-- One move of the register. -/
def shift (taps x : BitVec w) : BitVec w := (x >>> 1) ^^^ if x.getLsbD 0 then taps else 0#w

/-- A bit in the lowest place. -/
def bit (b : Bool) : BitVec w := (BitVec.ofBool b).setWidth w

/-- The register after reading a sequence of bits. -/
def feed (taps x : BitVec w) (bs : List Bool) : BitVec w :=
  bs.foldl (fun x b => shift taps (x ^^^ bit b)) x

/-- The word with the given bits, lowest first. -/
def word : List Bool → BitVec w
  | [] => 0#w
  | b :: bs => bit b ^^^ (word bs <<< 1)

/-- The bits of a word, lowest first. -/
def bitsOf {n : ℕ} (x : BitVec n) : List Bool := List.ofFn fun i : Fin n => x.getLsbD i

@[simp] theorem length_bitsOf {n : ℕ} (x : BitVec n) : (bitsOf x).length = n := by
  simp [bitsOf]

theorem getD_bitsOf {n : ℕ} (x : BitVec n) (i : ℕ) : (bitsOf x).getD i false = x.getLsbD i := by
  by_cases hi : i < n
  · simp [bitsOf, hi]
  · rw [List.getD_eq_default _ _ (by simpa using hi), BitVec.getLsbD_of_ge x i (by omega)]

@[simp] theorem getLsbD_bit (b : Bool) (i : ℕ) :
    (bit b : BitVec w).getLsbD i = (decide (i < w) && (decide (i = 0) && b)) := by
  cases i with
  | zero => simp [bit]
  | succ i => simp [bit, BitVec.getLsbD_of_ge]

@[simp] theorem bit_false : (bit false : BitVec w) = 0#w := by
  apply BitVec.eq_of_getLsbD_eq
  simp

theorem getLsbD_word (bs : List Bool) (i : ℕ) :
    (word bs : BitVec w).getLsbD i = (decide (i < w) && bs.getD i false) := by
  induction bs generalizing i with
  | nil => simp [word]
  | cons b bs ih =>
    cases i with
    | zero => simp [word]
    | succ i =>
      by_cases hi : i + 1 < w
      · have hi' : i < w := by omega
        simp only [word, BitVec.getLsbD_xor, getLsbD_bit, BitVec.getLsbD_shiftLeft, ih,
          Nat.add_sub_cancel, hi']
        simp
      · simp only [word, BitVec.getLsbD_xor, getLsbD_bit, BitVec.getLsbD_shiftLeft, hi,
          decide_false, Bool.false_and, Bool.xor_self]

theorem bitsOf_injective {n : ℕ} : Function.Injective (bitsOf (n := n)) := by
  intro x y h
  apply BitVec.eq_of_getLsbD_eq
  intro i _
  rw [← getD_bitsOf, ← getD_bitsOf, h]

/-- A word is what its bits spell, in any register that is wide enough. -/
theorem word_bitsOf {n : ℕ} (x : BitVec n) : (word (bitsOf x) : BitVec w) = x.setWidth w := by
  apply BitVec.eq_of_getLsbD_eq
  intro i hi
  rw [getLsbD_word, getD_bitsOf, BitVec.getLsbD_setWidth]

section Shift

variable (taps : BitVec w)

theorem shift_xor (x y : BitVec w) : shift taps (x ^^^ y) = shift taps x ^^^ shift taps y := by
  apply BitVec.eq_of_getLsbD_eq
  intro i hi
  cases hx : x.getLsbD 0 <;> cases hy : y.getLsbD 0 <;>
    simp [shift, hx, hy] <;> grind

@[simp] theorem shift_zero : shift taps 0#w = 0#w := by
  simp [shift]

/-- A word with a free highest place survives being moved up and down again. -/
theorem shift_shiftLeft {y : BitVec w} (h : y.getLsbD (w - 1) = false) :
    shift taps (y <<< 1) = y := by
  apply BitVec.eq_of_getLsbD_eq
  intro i hi
  by_cases hlast : i = w - 1
  · subst hlast
    simp [shift, h, show ¬ 1 + (w - 1) < w by omega]
  · have hi' : 1 + i < w := by omega
    simp only [shift, BitVec.getLsbD_xor, BitVec.getLsbD_ushiftRight, BitVec.getLsbD_shiftLeft, hi']
    simp

theorem iterate_shift_zero (n : ℕ) : (shift taps)^[n] 0#w = 0#w :=
  Function.iterate_fixed (shift_zero taps) n

theorem iterate_shift_xor (n : ℕ) (x y : BitVec w) :
    (shift taps)^[n] (x ^^^ y) = (shift taps)^[n] x ^^^ (shift taps)^[n] y := by
  induction n generalizing x y with
  | zero => rfl
  | succ n ih =>
    rw [Function.iterate_succ_apply, Function.iterate_succ_apply, Function.iterate_succ_apply,
      shift_xor, ih]

/-- Zeros shifted in from below are shifted out again. -/
theorem iterate_shift_shiftLeft {n : ℕ} {y : BitVec w} (h : ∀ i, w ≤ n + i → y.getLsbD i = false) :
    (shift taps)^[n] (y <<< n) = y := by
  induction n with
  | zero => simp
  | succ n ih =>
    have htop : (y <<< n).getLsbD (w - 1) = false := by
      by_cases hn : w - 1 < n
      · simp [hn]
      · simp [h (w - 1 - n) (by omega)]
    rw [BitVec.shiftLeft_add, Function.iterate_succ_apply, shift_shiftLeft taps htop]
    exact ih fun i hi => h i (by omega)

variable {taps}

theorem eq_zero_of_shift_eq_zero (htaps : taps.getLsbD (w - 1) = true) {z : BitVec w}
    (h : shift taps z = 0#w) : z = 0#w := by
  have hbit (i : ℕ) : (shift taps z).getLsbD i = false := by simp [h]
  have hlow : z.getLsbD 0 = false := by
    by_contra hne
    have htop := hbit (w - 1)
    have hout : z.getLsbD (1 + (w - 1)) = false := BitVec.getLsbD_of_ge _ _ (by omega)
    rw [shift, if_pos (eq_true_of_ne_false hne), BitVec.getLsbD_xor, BitVec.getLsbD_ushiftRight,
      hout, htaps] at htop
    cases htop
  apply BitVec.eq_of_getLsbD_eq
  intro i hi
  cases i with
  | zero => simpa using hlow
  | succ i =>
    have hi' := hbit i
    simpa [shift, hlow, Nat.add_comm] using hi'

theorem shift_injective (htaps : taps.getLsbD (w - 1) = true) :
    Function.Injective (shift taps) := by
  intro x y h
  have hzero : shift taps (x ^^^ y) = 0#w := by rw [shift_xor, h, BitVec.xor_self]
  exact BitVec.xor_eq_zero_iff.mp (eq_zero_of_shift_eq_zero htaps hzero)

end Shift

section Feed

variable (taps : BitVec w)

@[simp] theorem feed_nil (x : BitVec w) : feed taps x [] = x := rfl

theorem feed_cons (x : BitVec w) (b : Bool) (bs : List Bool) :
    feed taps x (b :: bs) = feed taps (shift taps (x ^^^ bit b)) bs := rfl

theorem feed_append (x : BitVec w) (as bs : List Bool) :
    feed taps x (as ++ bs) = feed taps (feed taps x as) bs :=
  List.foldl_append

/-- Reading is linear in the register and in what is read. -/
theorem feed_xor {as bs : List Bool} (hlen : as.length = bs.length) (x y : BitVec w) :
    feed taps (x ^^^ y) (List.zipWith xor as bs) = feed taps x as ^^^ feed taps y bs := by
  induction as generalizing bs x y with
  | nil =>
    cases bs with
    | nil => rfl
    | cons b bs => cases hlen
  | cons a as ih =>
    cases bs with
    | nil => cases hlen
    | cons b bs =>
      have hbit : (bit (xor a b) : BitVec w) = bit a ^^^ bit b := by
        cases a <;> cases b <;> simp
      have hsplit : x ^^^ y ^^^ (bit a ^^^ bit b) = (x ^^^ bit a) ^^^ (y ^^^ bit b) := by
        ac_rfl
      rw [List.zipWith_cons_cons, feed_cons, feed_cons, feed_cons, hbit, hsplit, shift_xor,
        ih (Nat.succ.inj hlen)]

theorem feed_replicate_false (x : BitVec w) (n : ℕ) :
    feed taps x (List.replicate n false) = (shift taps)^[n] x := by
  induction n generalizing x with
  | zero => rfl
  | succ n ih => rw [List.replicate_succ, feed_cons, bit_false, BitVec.xor_zero, ih,
      Function.iterate_succ_apply]

/-- No more bits than places: they can be added at once. -/
theorem feed_eq_iterate {bs : List Bool} (hlen : bs.length ≤ w) (x : BitVec w) :
    feed taps x bs = (shift taps)^[bs.length] (x ^^^ word bs) := by
  induction bs generalizing x with
  | nil => simp [word]
  | cons b bs ih =>
    have htop : (word bs : BitVec w).getLsbD (w - 1) = false := by
      simp only [List.length_cons] at hlen
      rw [getLsbD_word, List.getD_eq_default _ _ (by omega), Bool.and_false]
    simp only [List.length_cons] at hlen
    rw [feed_cons, ih (by omega), word, List.length_cons, Function.iterate_succ_apply,
      ← BitVec.xor_assoc, shift_xor taps (x ^^^ bit b), shift_shiftLeft taps htop]

variable {taps}

theorem feed_zero_replicate_append (n : ℕ) (bs : List Bool) :
    feed taps 0#w (List.replicate n false ++ bs) = feed taps 0#w bs := by
  rw [feed_append, feed_replicate_false, iterate_shift_zero]

/-- Errors within one window as wide as the register are noticed, however far the register
runs on. -/
theorem feed_window_ne_zero (htaps : taps.getLsbD (w - 1) = true) {bs : List Bool}
    (hlen : bs.length ≤ w) (hmem : true ∈ bs) (n m : ℕ) :
    feed taps 0#w (List.replicate n false ++ bs ++ List.replicate m false) ≠ 0#w := by
  intro h
  have hinj := shift_injective htaps
  rw [feed_append, feed_zero_replicate_append, feed_replicate_false, feed_eq_iterate taps hlen,
    BitVec.zero_xor, ← Function.iterate_add_apply, ← iterate_shift_zero taps (m + bs.length)] at h
  have hword := hinj.iterate _ h
  obtain ⟨i, hi, hbit⟩ := List.getElem_of_mem hmem
  have hzero := congrArg (fun x : BitVec w => x.getLsbD i) hword
  simp only [getLsbD_word, BitVec.getLsbD_zero, List.getD_eq_getElem _ _ hi, hbit,
    show i < w by omega] at hzero
  cases hzero

theorem eq_replicate_false {bs : List Bool} (h : true ∉ bs) :
    bs = List.replicate bs.length false := by
  refine List.eq_replicate_iff.mpr ⟨rfl, fun b hb => ?_⟩
  cases b with
  | false => rfl
  | true => exact absurd hb h

/-- Errors that all lie in a window as wide as the register are noticed. -/
theorem feed_burst_ne_zero (htaps : taps.getLsbD (w - 1) = true) {bs : List Bool} {k : ℕ}
    (hwin : ∀ j, bs[j]? = some true → k ≤ j ∧ j < k + w) (hmem : true ∈ bs) :
    feed taps 0#w bs ≠ 0#w := by
  have hbefore : true ∉ bs.take k := fun h => by
    obtain ⟨i, hi, hbit⟩ := List.getElem_of_mem h
    rw [List.length_take] at hi
    have := (hwin i (by rw [List.getElem?_eq_getElem (by omega), ← hbit, List.getElem_take])).1
    omega
  have hafter : true ∉ bs.drop (k + w) := fun h => by
    obtain ⟨i, hi, hbit⟩ := List.getElem_of_mem h
    rw [List.length_drop] at hi
    have := (hwin (k + w + i)
      (by rw [List.getElem?_eq_getElem (by omega), ← hbit, List.getElem_drop])).2
    omega
  have hsplit : bs = bs.take k ++ (bs.drop k).take w ++ bs.drop (k + w) := by
    rw [← List.drop_drop, List.append_assoc, List.take_append_drop, List.take_append_drop]
  have hwindow : true ∈ (bs.drop k).take w := by
    rw [hsplit, List.mem_append, List.mem_append] at hmem
    exact (hmem.resolve_right hafter).resolve_left hbefore
  rw [hsplit, eq_replicate_false hbefore, eq_replicate_false hafter]
  exact feed_window_ne_zero htaps (by rw [List.length_take]; omega) hwindow _ _

theorem exists_first_true {bs : List Bool} (h : true ∈ bs) :
    ∃ n rest, bs = List.replicate n false ++ true :: rest := by
  induction bs with
  | nil => cases h
  | cons b bs ih =>
    cases b with
    | true => exact ⟨0, bs, rfl⟩
    | false =>
      obtain ⟨n, rest, rfl⟩ := ih (by simpa using h)
      exact ⟨n + 1, rest, rfl⟩

/-- Two errors cancel only if the register returns to one after their distance. -/
theorem iterate_of_two_errors (htaps : taps.getLsbD (w - 1) = true) {bs : List Bool}
    (hcount : bs.count true = 2) (h : feed taps 0#w bs = 0#w) :
    ∃ t, 0 < t ∧ t < bs.length ∧ (shift taps)^[t] (bit true) = bit true := by
  have hfirst : true ∈ bs := List.count_pos_iff.mp (by omega)
  obtain ⟨n, rest, rfl⟩ := exists_first_true hfirst
  have hrest : rest.count true = 1 := by
    simpa [List.count_append, List.count_replicate] using hcount
  have hsecond : true ∈ rest := List.count_pos_iff.mp (by omega)
  obtain ⟨m, last, rfl⟩ := exists_first_true hsecond
  have hlast : last.count true = 0 := by
    simpa [List.count_append, List.count_replicate] using hrest
  rw [eq_replicate_false (List.count_eq_zero.mp hlast)] at h
  refine ⟨m + 1, Nat.succ_pos m, by simp; omega, ?_⟩
  rw [feed_zero_replicate_append, feed_cons, feed_append, feed_replicate_false, feed_cons,
    feed_replicate_false, BitVec.zero_xor, ← Function.iterate_succ_apply,
    ← Function.iterate_succ_apply, ← iterate_shift_zero taps (last.length + 1)] at h
  exact BitVec.xor_eq_zero_iff.mp ((shift_injective htaps).iterate _ h)

end Feed

section Parity

/-- The parity of the first `n` values of a sequence of bits. -/
def xorBits (f : ℕ → Bool) : ℕ → Bool
  | 0 => false
  | n + 1 => xor (xorBits f n) (f n)

def parity (x : BitVec w) : Bool := xorBits x.getLsbD w

theorem xorBits_xor (f g : ℕ → Bool) (n : ℕ) :
    xorBits (fun i => xor (f i) (g i)) n = xor (xorBits f n) (xorBits g n) := by
  induction n with
  | zero => rfl
  | succ n ih =>
    rw [xorBits, xorBits, xorBits, ih, Bool.xor_assoc, Bool.xor_assoc,
      Bool.xor_left_comm (xorBits g n)]

theorem xorBits_false (n : ℕ) : xorBits (fun _ => false) n = false := by
  induction n with
  | zero => rfl
  | succ n ih => rw [xorBits, ih, Bool.xor_self]

theorem xorBits_succ (f : ℕ → Bool) (n : ℕ) :
    xorBits f (n + 1) = xor (f 0) (xorBits (fun i => f (1 + i)) n) := by
  induction n with
  | zero => simp [xorBits]
  | succ n ih => rw [xorBits, ih, xorBits, Bool.xor_assoc, Nat.add_comm n 1]

theorem parity_xor (x y : BitVec w) : parity (x ^^^ y) = xor (parity x) (parity y) := by
  have hbits : (x ^^^ y).getLsbD = fun i => xor (x.getLsbD i) (y.getLsbD i) := by
    funext i
    exact BitVec.getLsbD_xor
  rw [parity, hbits, xorBits_xor]
  rfl

theorem parity_zero : parity 0#w = false := by
  have hself := parity_xor (0#w) 0#w
  rwa [BitVec.xor_self, Bool.xor_self] at hself

/-- Moving down loses the lowest bit and nothing else. -/
theorem parity_ushiftRight (x : BitVec w) : parity (x >>> 1) = xor (parity x) (x.getLsbD 0) := by
  have hbits : (x >>> 1).getLsbD = fun i => x.getLsbD (1 + i) := by
    funext i
    exact BitVec.getLsbD_ushiftRight ..
  have htop : xorBits x.getLsbD (w + 1) = parity x := by
    rw [xorBits, BitVec.getLsbD_of_ge x w (Nat.le_refl w), Bool.xor_false, parity]
  rw [parity, hbits, ← htop, xorBits_succ, Bool.xor_comm (x.getLsbD 0), Bool.xor_assoc,
    Bool.xor_self, Bool.xor_false]

theorem parity_bit (hw : 0 < w) (b : Bool) : parity (bit b : BitVec w) = b := by
  obtain ⟨n, rfl⟩ : ∃ n, w = n + 1 := ⟨w - 1, by omega⟩
  have hrest : (fun i => (bit b : BitVec (n + 1)).getLsbD (1 + i)) = fun _ => false := by
    funext i
    simp
  rw [parity, xorBits_succ, hrest, xorBits_false, Bool.xor_false, getLsbD_bit]
  simp

variable {taps : BitVec w}

theorem parity_shift (htaps : parity taps = true) (x : BitVec w) :
    parity (shift taps x) = parity x := by
  rw [shift, parity_xor, parity_ushiftRight]
  cases x.getLsbD 0 with
  | false => simp [parity_zero]
  | true => simp [htaps]

/-- The register keeps the parity of everything it has read. -/
theorem parity_feed (hw : 0 < w) (htaps : parity taps = true) (x : BitVec w) (bs : List Bool) :
    parity (feed taps x bs) = xor (parity x) (decide (Odd (bs.count true))) := by
  induction bs generalizing x with
  | nil => simp
  | cons b bs ih =>
    rw [feed_cons, ih, parity_shift htaps, parity_xor, parity_bit hw]
    cases b with
    | false => simp
    | true =>
      have hflip : decide (Odd (bs.count true + 1)) = !decide (Odd (bs.count true)) := by
        rw [decide_eq_decide.mpr Nat.odd_add_one, decide_not]
      rw [List.count_cons_self, hflip, Bool.xor_true, Bool.not_xor, Bool.xor_not]

/-- An odd number of errors is noticed. -/
theorem feed_odd_ne_zero (hw : 0 < w) (htaps : parity taps = true) {bs : List Bool}
    (hodd : Odd (bs.count true)) : feed taps 0#w bs ≠ 0#w := by
  intro h
  have hparity := parity_feed hw htaps 0#w bs
  rw [h, parity_zero, Bool.false_xor] at hparity
  exact absurd hodd (of_decide_eq_false hparity.symm)

end Parity
end MctpSerial.ShiftRegisters
