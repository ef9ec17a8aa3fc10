import MctpSerial.AcceptedFrames
import MctpSerial.BitwiseChecksum

/-!
# Errors that the frame check sequence notices

`calcFcs` feeds a shift register bit by bit. With the two checksum bytes read after the
bytes they cover, low byte first, an accepted buffer leaves the register at zero. What two
buffers differ in is then seen by the register alone, started at zero.
-/
namespace MctpSerial.MctpFramer
open StreamTransducers ShiftRegisters

/-- Whether the next `n` states of the register all differ from one. -/
def avoidsOne : ℕ → BitVec 16 → Bool
  | 0, _ => true
  | n + 1, x => shift fcsTaps x != bit true && avoidsOne n (shift fcsTaps x)

theorem iterate_of_avoidsOne {n : ℕ} {x : BitVec 16} (h : avoidsOne n x = true) {t : ℕ}
    (hpos : 0 < t) (hle : t ≤ n) : (shift fcsTaps)^[t] x ≠ bit true := by
  induction n generalizing x t with
  | zero => omega
  | succ n ih =>
    rw [avoidsOne, Bool.and_eq_true, bne_iff_ne] at h
    obtain ⟨t, rfl⟩ : ∃ k, t = k + 1 := ⟨t - 1, by omega⟩
    rw [Function.iterate_succ_apply]
    cases t with
    | zero => exact h.1
    | succ t => exact ih h.2 (Nat.succ_pos t) (by omega)

/-- The register does not return to one within the bits of the longest frame. -/
theorem iterate_shift_ne_one {t : ℕ} (hpos : 0 < t) (hle : t ≤ 2072) :
    (shift fcsTaps)^[t] (bit true) ≠ bit true := by
  have hcheck : avoidsOne 2072 (bit true) = true := by decide +kernel
  exact iterate_of_avoidsOne hcheck hpos hle

/-- One, two, three or an odd number of errors in a frame never cancel out. -/
theorem feed_ne_zero_of_count {es : List Bool} (hlen : es.length ≤ 2073)
    (hcount : es.count true = 1 ∨ es.count true = 2 ∨ es.count true = 3 ∨
      Odd (es.count true)) : feed fcsTaps 0#16 es ≠ 0#16 := by
  intro hzero
  have hodd (h : Odd (es.count true)) : False :=
    feed_odd_ne_zero (by decide) parity_fcsTaps h hzero
  rcases hcount with h1 | h2 | h3 | h
  · exact hodd (h1 ▸ by decide)
  · obtain ⟨t, hpos, hlt, hback⟩ := iterate_of_two_errors fcsTaps_top h2 hzero
    exact iterate_shift_ne_one hpos (by omega) hback
  · exact hodd (h3 ▸ by decide)
  · exact hodd h

/-- The bits of a buffer, byte by byte, lowest bit first. -/
def wireBits (bytes : List Byte) : List Bool := bytes.flatMap bitsOf

/-- The positions in which two buffers of one length differ. -/
def errorBits (rx rx' : List Byte) : List Bool := List.zipWith xor (wireBits rx) (wireBits rx')

/-- The number of bits in which two buffers differ. -/
def errorCount (rx rx' : List Byte) : ℕ := (errorBits rx rx').count true

@[simp] theorem length_wireBits (bytes : List Byte) : (wireBits bytes).length = 8 * bytes.length := by
  induction bytes with
  | nil => rfl
  | cons c bytes ih =>
    simp only [wireBits, List.flatMap_cons, List.length_append, length_bitsOf,
      List.length_cons] at ih ⊢
    omega

@[simp] theorem wireBits_append (xs ys : List Byte) :
    wireBits (xs ++ ys) = wireBits xs ++ wireBits ys :=
  List.flatMap_append

theorem wireBits_injective {xs ys : List Byte} (h : wireBits xs = wireBits ys) : xs = ys := by
  induction xs generalizing ys with
  | nil =>
    cases ys with
    | nil => rfl
    | cons y ys => exact absurd (congrArg List.length h) (by simp)
  | cons x xs ih =>
    cases ys with
    | nil => exact absurd (congrArg List.length h) (by simp)
    | cons y ys =>
      obtain ⟨hx, hxs⟩ := List.append_inj h (by simp)
      rw [bitsOf_injective hx, ih hxs]

theorem errorBits_append {xs xs' : List Byte} (h : xs.length = xs'.length) (ys ys' : List Byte) :
    errorBits (xs ++ ys) (xs' ++ ys') = errorBits xs xs' ++ errorBits ys ys' := by
  rw [errorBits, wireBits_append, wireBits_append, List.zipWith_append (by simp [h])]
  rfl

theorem errorBits_cons (y y' : Byte) (ys ys' : List Byte) :
    errorBits (y :: ys) (y' :: ys') = errorBits [y] [y'] ++ errorBits ys ys' :=
  @errorBits_append [y] [y'] rfl ys ys'

theorem length_errorBits {xs xs' : List Byte} (h : xs.length = xs'.length) :
    (errorBits xs xs').length = 8 * xs.length := by
  simp [errorBits, h]

theorem eq_of_zipWith_xor {as bs : List Bool} (hlen : as.length = bs.length)
    (h : true ∉ List.zipWith xor as bs) : as = bs := by
  induction as generalizing bs with
  | nil => exact (List.eq_nil_of_length_eq_zero hlen.symm).symm
  | cons a as ih =>
    cases bs with
    | nil => cases hlen
    | cons b bs =>
      rw [List.zipWith_cons_cons, List.mem_cons, not_or] at h
      have hab : a = b := by
        cases a <;> cases b <;> simp_all
      rw [hab, ih (Nat.succ.inj hlen) h.2]

/-- Buffers without an error are the same. -/
theorem eq_of_errorBits {xs xs' : List Byte} (hlen : xs.length = xs'.length)
    (h : true ∉ errorBits xs xs') : xs = xs' :=
  wireBits_injective (eq_of_zipWith_xor (by simp [hlen]) h)

theorem errorBits_self (xs : List Byte) : true ∉ errorBits xs xs := by
  intro h
  obtain ⟨i, hi, hbit⟩ := List.getElem_of_mem h
  simp [errorBits] at hbit

/-- The two checksum bytes in the order of the bits of the checksum. -/
theorem joinFcs_eq_word (a b : Byte) : joinFcs a b = word (wireBits [b, a]) := by
  have hor : joinFcs a b = (a.setWidth 16 <<< 8) ||| b.setWidth 16 := by
    refine BitVec.add_eq_or_of_and_eq_zero _ _ ?_
    apply BitVec.eq_of_getLsbD_eq
    intro i hi
    rw [BitVec.getLsbD_and, BitVec.getLsbD_shiftLeft, BitVec.getLsbD_setWidth,
      BitVec.getLsbD_setWidth, BitVec.getLsbD_zero]
    by_cases h8 : i < 8
    · simp [h8]
    · rw [BitVec.getLsbD_of_ge b i (by omega), Bool.and_false, Bool.and_false]
  rw [hor]
  apply BitVec.eq_of_getLsbD_eq
  intro i hi
  rw [getLsbD_word, BitVec.getLsbD_or, BitVec.getLsbD_shiftLeft, BitVec.getLsbD_setWidth,
    BitVec.getLsbD_setWidth]
  have hbits : wireBits [b, a] = bitsOf b ++ bitsOf a := by simp [wireBits]
  rw [hbits]
  by_cases h8 : i < 8
  · rw [List.getD_append _ _ _ _ (by simpa using h8), getD_bitsOf]
    simp [h8, hi]
  · rw [List.getD_append_right _ _ _ _ (by simpa using h8), getD_bitsOf, length_bitsOf,
      BitVec.getLsbD_of_ge b i (by omega)]
    simp [h8, hi, show i - 8 < 16 by omega]

/-- The covered bytes and the checksum leave the register at zero. -/
theorem feed_eq_zero_iff (cov : List Byte) (a b : Byte) :
    feed fcsTaps initFcs (wireBits (cov ++ [b, a])) = 0#16 ↔
      joinFcs a b = cov.foldl fcsStep initFcs := by
  rw [wireBits_append, feed_append, feed_eq_iterate fcsTaps (by simp), ← joinFcs_eq_word,
    foldl_fcsStep, ← wireBits, ← iterate_shift_zero fcsTaps (wireBits [b, a]).length,
    ((shift_injective fcsTaps_top).iterate _).eq_iff, BitVec.xor_eq_zero_iff]
  exact eq_comm

/-- A buffer as `validateRx` takes it apart: a flag, the covered bytes, the checksum high
byte first, a flag. -/
theorem exists_parts {rx : List Byte} (h : 4 ≤ rx.length) :
    ∃ x cov a b c, rx = x :: (cov ++ [a, b, c]) := by
  obtain ⟨x, rest, rfl⟩ := List.exists_cons_of_length_pos (show 0 < rx.length by omega)
  have hlast : (rest.drop (rest.length - 3)).length = 3 := by
    simp only [List.length_cons, List.length_drop] at h ⊢
    omega
  obtain ⟨a, b, c, habc⟩ := List.length_eq_three.mp hlast
  exact ⟨x, rest.take (rest.length - 3), a, b, c, by rw [← habc, List.take_append_drop]⟩

/-- What an accepted buffer satisfies. -/
theorem validateRx_parts {s : Rx} {x : Byte} {cov : List Byte} {a b c : Byte}
    (hrx : s.rxInProgress = x :: (cov ++ [a, b, c])) (hlen : s.rxInProgress.length < 65536)
    (hacc : (validateRx s).2 = true) :
    cov.length ≤ 257 ∧ joinFcs a b = cov.foldl fcsStep initFcs := by
  have hsize : s.rxInProgress.length = cov.length + 4 := by simp [hrx]
  have ha : s.rxInProgress.getD (cov.length + 4 - 3) 0 = a := by
    rw [hrx, show cov.length + 4 - 3 = cov.length + 1 by omega, List.getD_cons_succ,
      List.getD_append_right _ _ _ _ (Nat.le_refl _)]
    simp
  have hb : s.rxInProgress.getD (cov.length + 4 - 2) 0 = b := by
    rw [hrx, show cov.length + 4 - 2 = cov.length + 1 + 1 by omega, List.getD_cons_succ,
      List.getD_append_right _ _ _ _ (by omega)]
    simp
  have hfcs : calcFcs initFcs (s.rxInProgress.drop 1) (intOfSize (cov.length + 4 - 4)) =
      cov.foldl fcsStep initFcs := by
    rw [intOfSize_of_lt (by omega), hrx, Nat.add_sub_cancel, List.drop_one, List.tail_cons,
      calcFcs_append, calcFcs]
    simp
  simp only [validateRx, hsize, ha, hb, hfcs] at hacc
  split at hacc
  next => cases hacc
  split at hacc
  next => cases hacc
  next hcount =>
    have hbyte := (s.rxInProgress.getD 2 0).isLt
    exact ⟨by omega, of_decide_eq_true hacc⟩

/-- The error patterns that the checksum is sure to notice: one, two, three or any odd number
of bits anywhere, a burst of at most sixteen bits in the covered bytes, or a change of the
checksum alone. -/
def Noticeable (rx rx' : List Byte) : Prop :=
  (errorCount rx rx' = 1 ∨ errorCount rx rx' = 2 ∨ errorCount rx rx' = 3 ∨
    Odd (errorCount rx rx')) ∨
  (∃ k, ∀ j, (errorBits rx rx')[j]? = some true →
    8 ≤ j ∧ j < 8 * (rx.length - 3) ∧ k ≤ j ∧ j < k + 16) ∨
  ∀ i, rx[i]? ≠ rx'[i]? → i = rx.length - 3 ∨ i = rx.length - 2

section Errors

variable {x a a' b b' c : Byte} {cov cov' : List Byte}

theorem errorBits_frame (hlen : cov.length = cov'.length) :
    errorBits (x :: (cov ++ [a, b, c])) (x :: (cov' ++ [a', b', c])) =
      errorBits [x] [x] ++ (errorBits cov cov' ++
        (errorBits [a] [a'] ++ (errorBits [b] [b'] ++ errorBits [c] [c]))) := by
  rw [errorBits_cons, errorBits_append hlen, errorBits_cons a, errorBits_cons b]

/-- The same errors in the order in which the register reads them. -/
theorem errorBits_code (hlen : cov.length = cov'.length) :
    errorBits (cov ++ [b, a]) (cov' ++ [b', a']) =
      errorBits cov cov' ++ (errorBits [b] [b'] ++ errorBits [a] [a']) := by
  rw [errorBits_append hlen, errorBits_cons b]

theorem errorCount_frame (hlen : cov.length = cov'.length) :
    errorCount (x :: (cov ++ [a, b, c])) (x :: (cov' ++ [a', b', c])) =
      errorCount (cov ++ [b, a]) (cov' ++ [b', a']) := by
  rw [errorCount, errorCount, errorBits_frame hlen, errorBits_code hlen]
  simp only [List.count_append, List.count_eq_zero.mpr (errorBits_self _)]
  omega

/-- The syndrome of the errors between two accepted buffers is zero. -/
theorem feed_errorBits (hlen : cov.length = cov'.length)
    (h : joinFcs a b = cov.foldl fcsStep initFcs)
    (h' : joinFcs a' b' = cov'.foldl fcsStep initFcs) :
    feed fcsTaps 0#16 (errorBits (cov ++ [b, a]) (cov' ++ [b', a'])) = 0#16 := by
  have hbits : (wireBits (cov ++ [b, a])).length = (wireBits (cov' ++ [b', a'])).length := by
    simp [hlen]
  have hxor := feed_xor fcsTaps hbits initFcs initFcs
  rwa [(feed_eq_zero_iff cov a b).mpr h, (feed_eq_zero_iff cov' a' b').mpr h', BitVec.xor_self,
    BitVec.xor_self] at hxor

theorem exists_error (hlen : cov.length = cov'.length)
    (hne : x :: (cov ++ [a, b, c]) ≠ x :: (cov' ++ [a', b', c])) :
    true ∈ errorBits (cov ++ [b, a]) (cov' ++ [b', a']) := by
  by_contra h
  have hcode := eq_of_errorBits (by simp [hlen]) h
  obtain ⟨hcov, hba⟩ := List.append_inj hcode hlen
  obtain ⟨rfl, rfl⟩ : b = b' ∧ a = a' := by simpa using hba
  rw [hcov] at hne
  exact hne rfl

/-- A burst in the covered bytes, as the register reads it. -/
theorem window_of_burst (hlen : cov.length = cov'.length) {k : ℕ}
    (hwin : ∀ j, (errorBits (x :: (cov ++ [a, b, c])) (x :: (cov' ++ [a', b', c])))[j]? =
      some true → 8 ≤ j ∧ j < 8 * (cov.length + 1) ∧ k ≤ j ∧ j < k + 16) (j : ℕ)
    (hj : (errorBits (cov ++ [b, a]) (cov' ++ [b', a']))[j]? = some true) :
    k - 8 ≤ j ∧ j < k - 8 + 16 := by
  have h8 (y y' : Byte) : (errorBits [y] [y']).length = 8 := length_errorBits rfl
  have hcov := length_errorBits hlen
  rw [errorBits_frame hlen] at hwin
  rw [errorBits_code hlen] at hj
  by_cases hlt : j < 8 * cov.length
  · rw [List.getElem?_append_left (by omega)] at hj
    have hpos := hwin (8 + j) (by
      rw [List.getElem?_append_right (by rw [h8]; omega), h8, Nat.add_sub_cancel_left,
        List.getElem?_append_left (by omega)]
      exact hj)
    omega
  · rw [List.getElem?_append_right (by omega), hcov] at hj
    have hlate : ∃ i : ℕ, (errorBits [a] [a'] ++ (errorBits [b] [b'] ++ errorBits [c] [c]))[i]? =
        some true := by
      refine List.mem_iff_getElem?.mp ?_
      rcases List.mem_append.mp (List.mem_of_getElem? hj) with hb | ha
      · exact List.mem_append_right _ (List.mem_append_left _ hb)
      · exact List.mem_append_left _ ha
    obtain ⟨i, hi⟩ := hlate
    have hpos := hwin (8 + (8 * cov.length + i)) (by
      rw [List.getElem?_append_right (by rw [h8]; omega), h8, Nat.add_sub_cancel_left,
        List.getElem?_append_right (by omega), hcov, Nat.add_sub_cancel_left]
      exact hi)
    omega

/-- A change of the checksum alone, as the register reads it. -/
theorem window_of_checksum (j : ℕ)
    (hj : (errorBits (cov ++ [b, a]) (cov ++ [b', a']))[j]? = some true) :
    8 * cov.length ≤ j ∧ j < 8 * cov.length + 16 := by
  have hbound := (List.getElem?_eq_some_iff.mp hj).1
  rw [length_errorBits (by simp)] at hbound
  simp only [List.length_append, List.length_cons, List.length_nil] at hbound
  refine ⟨?_, by omega⟩
  by_contra hlt
  rw [errorBits_code rfl, List.getElem?_append_left (by rw [length_errorBits rfl]; omega)] at hj
  exact errorBits_self cov (List.mem_of_getElem? hj)

theorem getElem?_last : (x :: (cov ++ [a, b, c]))[cov.length + 3]? = some c := by
  rw [List.getElem?_cons_succ, List.getElem?_append_right (by omega), Nat.add_sub_cancel_left]
  rfl

theorem covered_of_checksum (hlen : cov.length = cov'.length)
    (honly : ∀ i, (x :: (cov ++ [a, b, c]))[i]? ≠ (x :: (cov' ++ [a', b', c]))[i]? →
      i = (x :: (cov ++ [a, b, c])).length - 3 ∨ i = (x :: (cov ++ [a, b, c])).length - 2) :
    cov = cov' := by
  refine List.ext_getElem hlen fun i hi hi' => ?_
  by_contra hne
  have hpos := honly (i + 1) (by
    rw [List.getElem?_cons_succ, List.getElem?_cons_succ, List.getElem?_append_left hi,
      List.getElem?_append_left hi', List.getElem?_eq_getElem hi, List.getElem?_eq_getElem hi']
    exact fun h => hne (Option.some.inj h))
  simp only [List.length_cons, List.length_append, List.length_nil] at hpos
  omega

end Errors

theorem four_le_of_accepted {s : Rx} (hacc : (validateRx s).2 = true) :
    4 ≤ s.rxInProgress.length := by
  by_contra h4
  rw [validateRx] at hacc
  dsimp only at hacc
  rw [if_pos (by omega)] at hacc
  cases hacc

/-- A buffer that differs from an accepted one by a noticeable error is rejected. -/
theorem validateRx_notices (s s' : Rx) (hacc : (validateRx s).2 = true)
    (hsize : s.rxInProgress.length < 65536)
    (hlen : s'.rxInProgress.length = s.rxInProgress.length)
    (hends : ∀ i, i = 0 ∨ i = s.rxInProgress.length - 1 →
      s.rxInProgress[i]? = s'.rxInProgress[i]?)
    (hne : s.rxInProgress ≠ s'.rxInProgress)
    (herr : Noticeable s.rxInProgress s'.rxInProgress) : (validateRx s').2 = false := by
  have h4 := four_le_of_accepted hacc
  obtain ⟨x, cov, a, b, c, hrx⟩ := exists_parts h4
  obtain ⟨x', cov', a', b', c', hrx'⟩ := exists_parts (hlen ▸ h4)
  by_contra hrej
  obtain ⟨hcov, hfcs⟩ := validateRx_parts hrx hsize hacc
  obtain ⟨-, hfcs'⟩ := validateRx_parts hrx' (hlen ▸ hsize) (eq_true_of_ne_false hrej)
  rw [hrx, hrx'] at hlen hends hne herr
  have hsame : cov.length = cov'.length := by simpa using hlen.symm
  obtain rfl : x = x' := by simpa using hends 0 (Or.inl rfl)
  obtain rfl : c = c' := by
    have hlast := hends (cov.length + 3) (Or.inr (by simp))
    rwa [getElem?_last, hsame, getElem?_last, Option.some.injEq] at hlast
  have hzero := feed_errorBits hsame hfcs hfcs'
  have herror := exists_error hsame hne
  rcases herr with hcount | ⟨k, hwin⟩ | honly
  · have hbits : (errorBits (cov ++ [b, a]) (cov' ++ [b', a'])).length =
        8 * (cov ++ [b, a]).length :=
      length_errorBits (by simp [hsame])
    rw [List.length_append, List.length_cons, List.length_singleton] at hbits
    rw [errorCount_frame hsame] at hcount
    exact feed_ne_zero_of_count (by omega) hcount hzero
  · have hsize' : (x :: (cov ++ [a, b, c])).length - 3 = cov.length + 1 := by simp
    rw [hsize'] at hwin
    exact feed_burst_ne_zero fcsTaps_top (window_of_burst hsame hwin) herror hzero
  · obtain rfl := covered_of_checksum hsame honly
    exact feed_burst_ne_zero fcsTaps_top window_of_checksum herror hzero

/-- A frame with one wrong bit in its payload. -/
theorem validateRx_notices_flip :
    (validateRx ⟨.endFlag, fullMsg [1, 2, 3, 4, 5], 0⟩).2 = true ∧
      (validateRx ⟨.endFlag, (fullMsg [1, 2, 3, 4, 5]).set 4 3, 0⟩).2 = false := by
  have hacc : (validateRx ⟨.endFlag, fullMsg [1, 2, 3, 4, 5], 0⟩).2 = true := by decide +kernel
  refine ⟨hacc, validateRx_notices _ _ hacc (by decide +kernel) (by decide +kernel) ?_
    (by decide +kernel) (Or.inl (Or.inl (by decide +kernel)))⟩
  rintro i (rfl | rfl)
  · decide +kernel
  · decide +kernel

/-- The receive state machine validates only buffers of at most 261 bytes. -/
theorem length_le_of_endFlag {bs : List Byte}
    (h : (run updateRxFSM Rx.init bs).rxState = .endFlag) :
    (run updateRxFSM Rx.init bs).rxInProgress.length ≤ 261 := by
  obtain ⟨-, tail, -, -, htracks⟩ := parsed bs
  generalize run updateRxFSM Rx.init bs = s at h htracks
  cases htracks with
  | endFlag pre v n q a b hq hne =>
    have := n.isLt
    simp only [List.length_append, List.length_cons, List.length_nil]
    omega
  | _ => cases h

end MctpSerial.MctpFramer
