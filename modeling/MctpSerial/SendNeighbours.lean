import MctpSerial.Resynchronisation

/-!
# One send between two others

A `send` may encode a message whose length does not fit the length byte, and its
write loop may stop after any byte. `cut_run` follows the receiver through every
prefix of every encoded frame and says where it is left; `Harmless` is the exact
condition, on the message and the number of bytes written, for it to be left in a
state in which the next flag starts a frame.
-/
namespace MctpSerial.MctpFramer
open StreamTransducers

/-- Messages that the length byte describes and that are not empty. -/
def Short (b : Packet) : Prop := 1 ≤ b.length ∧ b.length ≤ 255

instance (b : Packet) : Decidable (Short b) := inferInstanceAs (Decidable (_ ∧ _))

/-- How many payload bytes the length byte of the frame announces. -/
def announced (b : Packet) : ℕ := b.length % 256

/-- Where a frame cut after `k` bytes does no harm: not after the flag or the version,
not within the three bytes after the announced payload (which the receiver takes for
checksum and flag), and only at the end when that is where the receiver expects it. -/
def Harmless (b : Packet) (k : ℕ) : Prop :=
  k = 0 ∨
  (3 ≤ k ∧ k ≤ (esc b).length + 3 ∧
    (announced b = 0 ∨ k < (esc (b.take (announced b))).length + 3 ∨
      (esc (b.take (announced b))).length + 5 < k)) ∨
  (k = (esc b).length + 4 ∧ ¬ Short b ∧ fcsHi b ≠ frameChar) ∨
  (k = (esc b).length + 5 ∧ ¬ Short b ∧ fcsHi b ≠ frameChar ∧ fcsLo b ≠ frameChar) ∨
  (k = (esc b).length + 6 ∧ (Short b ∨ fcsHi b = frameChar))

instance (b : Packet) (k : ℕ) : Decidable (Harmless b k) :=
  inferInstanceAs (Decidable (_ ∨ _ ∨ _ ∨ _ ∨ _))

theorem escByte_length (x : Byte) :
    escByte x = [escapeChar, x - 0x20#8] ∨ escByte x = [x] := by
  rw [escByte]
  split
  · exact Or.inl rfl
  · exact Or.inr rfl

/-- A payload cut before its end leaves the receiver in the body. -/
theorem body_cut (rx : List Byte) (c : ℤ) (q : Packet) (hc : q.length ≤ c) (j : ℕ)
    (hj : j < (esc q).length) :
    ∃ t : Rx, t.InStep ∧ Silent updateRxFSM ⟨.body, rx, c⟩ ((esc q).take j) t := by
  induction q generalizing rx c j with
  | nil => simp at hj
  | cons x q ih =>
    rw [esc_cons, List.length_append] at hj
    by_cases hlt : j < (escByte x).length
    · rw [esc_cons, List.take_append_of_le_length hlt.le]
      match j with
      | 0 => exact ⟨_, Or.inr (Or.inl rfl), .nil _⟩
      | j + 1 =>
        rcases escByte_length x with hx | hx
        · have hj0 : j = 0 := by simp only [hx, List.length_cons, List.length_nil] at hlt; omega
          subst hj0
          rw [hx]
          exact ⟨⟨.escape, rx, c⟩, Or.inr (Or.inr rfl), .single (by simp [updateRxFSM])⟩
        · simp [hx] at hlt
    · have hq : q ≠ [] := by
        rintro rfl
        simp only [esc_nil, List.length_nil] at hj
        omega
      have hpos : 0 < q.length := List.length_pos_iff.mpr hq
      simp only [List.length_cons] at hc
      have hne : c - 1 ≠ 0 := by omega
      have hx := body_byte rx c x
      have hbody : (⟨.body, rx, c⟩ : Rx).pushBody x = ⟨.body, rx ++ [x], c - 1⟩ := by
        simp [Rx.pushBody, hne]
      rw [hbody] at hx
      obtain ⟨t, ht, hr⟩ := ih (rx ++ [x]) (c - 1) (by omega) (j - (escByte x).length) (by omega)
      refine ⟨t, ht, ?_⟩
      rw [esc_cons, List.take_append, List.take_of_length_le (by omega)]
      exact hx.append hr

/-- After the announced payload, three bytes without a flag and the receiver waits. -/
theorem fcs1_gap (rx : List Byte) (c : ℤ) (g : List Byte) (hg : frameChar ∉ g) :
    ∃ t : Rx, Silent updateRxFSM ⟨.fcs1, rx, c⟩ g t ∧ (t.InStep ↔ 3 ≤ g.length) ∧
      (3 ≤ g.length → t.Idle) := by
  match g with
  | [] => exact ⟨_, .nil _, by simp [Rx.InStep], by simp⟩
  | [x] => exact ⟨_, .single rfl, by simp [Rx.InStep], by simp⟩
  | [x, y] => exact ⟨_, trailer_run rx c x y, by simp [Rx.InStep], by simp⟩
  | x :: y :: z :: g =>
    have hz : z ≠ frameChar := fun e => hg (by simp [e])
    have hrest : frameChar ∉ g := fun hm => hg (by simp [hm])
    have hend : updateRxFSM ⟨.endFlag, rx ++ [x, y, frameChar], c⟩ z =
        (⟨.waitingForSync, rx ++ [x, y, frameChar], c⟩, none) := by
      simp [updateRxFSM, hz]
    obtain ⟨t, ht, hr⟩ := idle_gap (Or.inl rfl : (⟨.waitingForSync, rx ++ [x, y, frameChar], c⟩ : Rx).Idle)
      hrest
    exact ⟨t, (trailer_run rx c x y).append (.cons hend hr), by simp [ht.inStep], fun _ => ht⟩

theorem esc_split (b : Packet) (r : ℕ) : esc b = esc (b.take r) ++ esc (b.drop r) := by
  rw [← esc_append, List.take_append_drop]

/-- A frame cut within its payload. -/
theorem payload_cut (rx : List Byte) (b : Packet) (j : ℕ) (hj : j ≤ (esc b).length) :
    ∃ t : Rx, Silent updateRxFSM ⟨.body, rx, announced b⟩ ((esc b).take j) t ∧
      (t.InStep ↔ announced b = 0 ∨ j < (esc (b.take (announced b))).length ∨
        (esc (b.take (announced b))).length + 2 < j) ∧
      (j = (esc b).length → ¬ Short b → t.Idle) := by
  have hclean : frameChar ∉ (esc b).take j :=
    fun hm => frameChar_notMem_esc b (List.mem_of_mem_take hm)
  by_cases hr : announced b = 0
  · have hidle : (⟨.body, rx, announced b⟩ : Rx).Idle := Or.inr ⟨Or.inl rfl, by simp [hr]⟩
    obtain ⟨t, ht, hs⟩ := idle_gap hidle hclean
    exact ⟨t, hs, by simp [hr, ht.inStep], fun _ _ => ht⟩
  · have hle : announced b ≤ b.length := Nat.mod_le _ _
    have hlen : (b.take (announced b)).length = announced b := by simp [hle]
    have hsplit := esc_split b (announced b)
    have hcat : (esc (b.take (announced b))).length + (esc (b.drop (announced b))).length =
        (esc b).length := by
      rw [← List.length_append, ← hsplit]
    by_cases hlt : j < (esc (b.take (announced b))).length
    · obtain ⟨t, ht, hs⟩ := body_cut rx (announced b) (b.take (announced b)) (by omega) j hlt
      refine ⟨t, ?_, by simp [ht, hlt], fun he => by omega⟩
      rw [hsplit, List.take_append_of_le_length hlt.le]
      exact hs
    · have hne : b.take (announced b) ≠ [] := by
        intro he
        simp [he] at hlen
        omega
      have hbody := body_run rx (announced b) (b.take (announced b)) hne (Or.inl (by omega))
      rw [hlen, sub_self, bodyPhase, if_pos rfl] at hbody
      obtain ⟨t, hs, hiff, hidle⟩ := fcs1_gap (rx ++ b.take (announced b)) 0
        ((esc (b.drop (announced b))).take (j - (esc (b.take (announced b))).length))
        (fun hm => frameChar_notMem_esc _ (List.mem_of_mem_take hm))
      have hglen : ((esc (b.drop (announced b))).take
          (j - (esc (b.take (announced b))).length)).length =
          j - (esc (b.take (announced b))).length := by
        rw [List.length_take]
        omega
      rw [hglen] at hiff hidle
      refine ⟨t, ?_, ?_, fun he hshort => hidle ?_⟩
      · rw [hsplit, List.take_append, List.take_of_length_le (by omega)]
        exact hbody.append hs
      · rw [hiff]
        omega
      · -- a message that is not short has at least 256 bytes beyond the announced ones
        have hdrop := length_le_length_esc (b.drop (announced b))
        have hdlen : (b.drop (announced b)).length = b.length - announced b := List.length_drop
        have hmod : announced b = b.length % 256 := rfl
        have hlong : ¬ (1 ≤ b.length ∧ b.length ≤ 255) := hshort
        omega

/-- Checksum and closing flag after a payload that ended with the receiver idle. -/
theorem idle_trailer {s : Rx} (h : s.Idle) (hi lo : Byte) (i : ℕ) (hi3 : i = 1 ∨ i = 2 ∨ i = 3) :
    ∃ t : Rx, Silent updateRxFSM s ([hi, lo, frameChar].take i) t ∧
      (t.InStep ↔ i = 1 ∧ hi ≠ frameChar ∨ i = 2 ∧ hi ≠ frameChar ∧ lo ≠ frameChar ∨
        i = 3 ∧ hi = frameChar) := by
  by_cases hhi : hi = frameChar
  · subst hhi
    have hflag := updateRxFSM_flag h.inStep
    rcases hi3 with rfl | rfl | rfl
    · exact ⟨_, .single hflag, by simp [Rx.InStep, Rx.restart]⟩
    · exact ⟨_, .cons hflag (.single rfl), by simp [Rx.InStep]⟩
    · exact ⟨_, .cons hflag (.cons rfl (.single rfl)), by simp [Rx.InStep]⟩
  · obtain ⟨hidle, hquiet⟩ := h.step hhi
    have hstep : updateRxFSM s hi = ((updateRxFSM s hi).1, none) := Prod.ext rfl hquiet
    by_cases hlo : lo = frameChar
    · subst hlo
      have hflag := updateRxFSM_flag hidle.inStep
      rcases hi3 with rfl | rfl | rfl
      · exact ⟨_, .single hstep, by simp [hhi, hidle.inStep]⟩
      · exact ⟨_, .cons hstep (.single hflag), by simp [Rx.InStep, Rx.restart]⟩
      · exact ⟨_, .cons hstep (.cons hflag (.single rfl)), by simp [Rx.InStep, hhi]⟩
    · obtain ⟨hidle', hquiet'⟩ := hidle.step hlo
      have hstep' : updateRxFSM (updateRxFSM s hi).1 lo =
          ((updateRxFSM (updateRxFSM s hi).1 lo).1, none) := Prod.ext rfl hquiet'
      rcases hi3 with rfl | rfl | rfl
      · exact ⟨_, .single hstep, by simp [hhi, hidle.inStep]⟩
      · exact ⟨_, .cons hstep (.single hstep'), by simp [hhi, hlo, hidle'.inStep]⟩
      · exact ⟨_, .cons hstep (.cons hstep' (.single (updateRxFSM_flag hidle'.inStep))),
          by simp [Rx.InStep, Rx.restart, hhi]⟩

theorem header_open {s : Rx} (hs : s.InStep) (b : Packet) :
    Silent updateRxFSM s [frameChar, 0x01#8, BitVec.ofNat 8 b.length]
      ⟨.body, [frameChar, 0x01#8, BitVec.ofNat 8 b.length], announced b⟩ := by
  have hheader := header_run s.byteCount 0x01#8 (BitVec.ofNat 8 b.length)
  rw [BitVec.toNat_ofNat] at hheader
  exact .cons (updateRxFSM_flag hs) hheader

theorem buildWire_length (b : Packet) : (buildWire b).length = (esc b).length + 6 := by
  rw [buildWire_eq]
  simp [wireFrame]

theorem take_header_payload (b : Packet) {k : ℕ} (h3 : 3 ≤ k) (hk : k ≤ (esc b).length + 3) :
    (buildWire b).take k =
      [frameChar, 0x01#8, BitVec.ofNat 8 b.length] ++ (esc b).take (k - 3) := by
  rw [buildWire_eq, wireFrame, List.take_append_of_le_length (by simp; omega), List.take_append,
    List.take_of_length_le (by simpa using h3)]
  rfl

theorem take_trailer (b : Packet) (i : ℕ) :
    (buildWire b).take ((esc b).length + 3 + i) =
      [frameChar, 0x01#8, BitVec.ofNat 8 b.length] ++ esc b ++
        [fcsHi b, fcsLo b, frameChar].take i := by
  have hlen : ([frameChar, 0x01#8, BitVec.ofNat 8 b.length] ++ esc b).length =
      (esc b).length + 3 := by simp
  rw [buildWire_eq, wireFrame, ← hlen, List.take_length_add_append]

/-- A frame that is not short, cut in its trailer. -/
theorem long_trailer_cut {s : Rx} (hs : s.InStep) {b : Packet} (hb : ¬ Short b) {i : ℕ}
    (hi : i = 1 ∨ i = 2 ∨ i = 3) :
    ∃ t : Rx, Silent updateRxFSM s ((buildWire b).take ((esc b).length + 3 + i)) t ∧
      (t.InStep ↔ Harmless b ((esc b).length + 3 + i)) := by
  obtain ⟨u, hu, _, hidle⟩ := payload_cut [frameChar, 0x01#8, BitVec.ofNat 8 b.length] b
    (esc b).length le_rfl
  rw [List.take_length] at hu
  obtain ⟨t, ht, hiff⟩ := idle_trailer (hidle rfl hb) (fcsHi b) (fcsLo b) i hi
  refine ⟨t, ?_, hiff.trans ?_⟩
  · rw [take_trailer]
    exact ((header_open hs b).append hu).append ht
  · unfold Harmless
    rcases hi with rfl | rfl | rfl <;> simp [hb]

/-- A short frame, cut in its trailer before the closing flag. -/
theorem short_trailer_cut {s : Rx} (hs : s.InStep) {b : Packet} (hb : Short b) {i : ℕ}
    (hi : i = 1 ∨ i = 2) :
    ∃ t : Rx, Silent updateRxFSM s ((buildWire b).take ((esc b).length + 3 + i)) t ∧
      (t.InStep ↔ Harmless b ((esc b).length + 3 + i)) := by
  have hann : announced b = b.length := Nat.mod_eq_of_lt (by have := hb.2; omega)
  have hheader := header_open hs b
  have hbody := body_run [frameChar, 0x01#8, BitVec.ofNat 8 b.length] b.length b
    (List.length_pos_iff.mp hb.1) (Or.inl le_rfl)
  rw [hann] at hheader
  rw [sub_self, bodyPhase, if_pos rfl] at hbody
  have hopen := hheader.append hbody
  rw [take_trailer]
  rcases hi with rfl | rfl
  · refine ⟨_, hopen.append (.single rfl), ?_⟩
    simp [Rx.InStep, Harmless, hb]
  · refine ⟨_, hopen.append (trailer_run _ 0 _ _), ?_⟩
    simp [Rx.InStep, Harmless, hb]

/-- A short frame up to its closing flag. -/
theorem short_whole {s : Rx} (hs : s.InStep) {b : Packet} (hb : Short b) :
    delivered s (buildWire b) = (if Sendable b then [b] else []) ∧
      (run updateRxFSM s (buildWire b)).InStep := by
  obtain ⟨t, ht, hr⟩ := frame_run hs 0x01#8 b (fcsHi b) (fcsLo b) hb.1 hb.2
  rw [← buildWire_eq] at hr
  refine ⟨?_, by rw [hr.2]; exact .waiting ht⟩
  rw [delivered, hr.emitted_eq, List.reduceOption_append, List.reduceOption_replicate_none]
  by_cases hsend : Sendable b
  · simp [hsend, accepts_own hsend, List.reduceOption_cons_of_some]
  · have hacc : ¬ Accepts 0x01#8 b (fcsHi b) (fcsLo b) := fun h => hsend ⟨h.1, hb.2⟩
    simp [hsend, hacc, List.reduceOption_cons_of_none]

/-- A cut of a frame that delivers nothing. -/
theorem silent_cut {s : Rx} {b : Packet} {k : ℕ}
    (h : ∃ t : Rx, Silent updateRxFSM s ((buildWire b).take k) t ∧ (t.InStep ↔ Harmless b k))
    (hb : k < (buildWire b).length ∨ ¬ Short b) :
    delivered s ((buildWire b).take k) =
        (if k = (buildWire b).length ∧ Sendable b then [b] else []) ∧
      ((run updateRxFSM s ((buildWire b).take k)).InStep ↔ Harmless b k) := by
  obtain ⟨t, ht, hiff⟩ := h
  have hne : ¬ (k = (buildWire b).length ∧ Sendable b) := by
    rintro ⟨he, h5, h255⟩
    rcases hb with hb | hb
    · omega
    · exact hb ⟨by omega, h255⟩
  exact ⟨by rw [delivered, ht.emitted_eq, if_neg hne], by rw [ht.2, hiff]⟩

/-- What the receiver has delivered, and whether it is in step, after any prefix of any
encoded frame. -/
theorem cut_run {s : Rx} (hs : s.InStep) (b : Packet) {k : ℕ} (hk : k ≤ (buildWire b).length) :
    delivered s ((buildWire b).take k) =
        (if k = (buildWire b).length ∧ Sendable b then [b] else []) ∧
      ((run updateRxFSM s ((buildWire b).take k)).InStep ↔ Harmless b k) := by
  have hlen := buildWire_length b
  have hpre : buildWire b = frameChar :: 0x01#8 :: (buildWire b).drop 2 := by
    rw [buildWire_eq]
    rfl
  by_cases h3 : k < 3
  · refine silent_cut ?_ (Or.inl (by omega))
    rw [hpre]
    match k with
    | 0 => exact ⟨s, .nil s, by simp [hs, Harmless]⟩
    | 1 => exact ⟨_, .single (updateRxFSM_flag hs), by simp [Rx.InStep, Rx.restart, Harmless]⟩
    | 2 =>
      exact ⟨_, .cons (updateRxFSM_flag hs) (.single rfl), by simp [Rx.InStep, Harmless]⟩
  by_cases hpay : k ≤ (esc b).length + 3
  · refine silent_cut ?_ (Or.inl (by omega))
    obtain ⟨t, ht, hiff, _⟩ := payload_cut [frameChar, 0x01#8, BitVec.ofNat 8 b.length] b (k - 3)
      (by omega)
    refine ⟨t, ?_, hiff.trans ?_⟩
    · rw [take_header_payload b (by omega) hpay]
      exact (header_open hs b).append ht
    · unfold Harmless
      omega
  · obtain ⟨i, rfl⟩ : ∃ i, k = (esc b).length + 3 + i := ⟨k - ((esc b).length + 3), by omega⟩
    have hi : i = 1 ∨ i = 2 ∨ i = 3 := by omega
    by_cases hb : Short b
    · by_cases hi3 : i = 3
      · subst hi3
        have hwhole := short_whole hs hb
        rw [List.take_of_length_le (by omega)]
        refine ⟨by simpa [hlen] using hwhole.1, ?_⟩
        simp [hwhole.2, Harmless, hb]
      · exact silent_cut (short_trailer_cut hs hb (by omega)) (Or.inl (by omega))
    · exact silent_cut (long_trailer_cut hs hb hi) (Or.inr hb)

/-- Two messages around the bytes `w` that one `send` of `b` left on the line come
through, and nothing else does but `b` itself when all of it was written. -/
def Unharmed (b : Packet) (w : List Byte) : Prop :=
  ∀ (s : Rx) (a c : Packet), s.rxState = .waitingForSync → Sendable a → Sendable c →
    delivered s (buildWire a ++ w ++ buildWire c) =
      [a] ++ (if w = buildWire b ∧ Sendable b then [b] else []) ++ [c]

/-- One of the two probes is not what a receiver out of step still has to hand over. -/
theorem exists_lost_probe {s : Rx} (hs : ¬ s.InStep) :
    ∃ c, Sendable c ∧ delivered s (buildWire c) ≠ [c] := by
  by_cases h : s.flagAnswer = some probe
  · refine ⟨probe', by decide, ?_⟩
    rw [(probe_slip hs (Or.inr rfl)).2, h]
    decide
  · refine ⟨probe, by decide, ?_⟩
    rw [(probe_slip hs (Or.inl rfl)).2]
    intro he
    cases hf : s.flagAnswer with
    | none => simp [hf] at he
    | some p => exact h (by rw [hf]; simpa [hf] using he)

/-- A `send`, however its writes go, leaves its neighbours unharmed exactly when it
stopped at a harmless place of its frame. -/
theorem send_unharmed_iff (b : Packet) (os : List WriteOutcome) :
    Unharmed b (send b os).written ↔ Harmless b (send b os).written.length := by
  have hpre := send_written_prefix_wire b os
  generalize (send b os).written = w at hpre ⊢
  have hk := hpre.length_le
  have hw : (buildWire b).take w.length = w := (List.prefix_iff_eq_take.mp hpre).symm
  have hwhole : w = buildWire b ↔ w.length = (buildWire b).length :=
    ⟨congrArg _, hpre.eq_of_length⟩
  -- between the two neighbours: the first one is delivered and leaves the receiver waiting
  have middle {s : Rx} (hs : s.rxState = .waitingForSync) {a : Packet} (ha : Sendable a) :
      ∃ t : Rx, (t.InStep ↔ Harmless b w.length) ∧
        ∀ c, delivered s (buildWire a ++ w ++ buildWire c) =
          [a] ++ (if w = buildWire b ∧ Sendable b then [b] else []) ++ delivered t (buildWire c) := by
    obtain ⟨u, hu, hrun, hdel⟩ := buildWire_run (.waiting hs) ha
    obtain ⟨hcut, hiff⟩ := cut_run (.waiting hu) b hk
    rw [hw] at hcut hiff
    refine ⟨_, hiff, fun c => ?_⟩
    rw [delivered, emitted_append, emitted_append, run_append, hrun, ← delivered, hdel,
      ← delivered, hcut]
    simp only [hwhole]
  constructor
  · intro h
    by_contra hharm
    have hprobe : Sendable probe := by decide
    obtain ⟨t, hiff, hdel⟩ := middle (s := Rx.init) rfl hprobe
    obtain ⟨c, hc, hlost⟩ := exists_lost_probe fun hin => hharm (hiff.mp hin)
    exact hlost (List.append_cancel_left ((hdel c).symm.trans (h Rx.init probe c rfl hprobe hc)))
  · intro hharm s a c hs ha hc
    obtain ⟨t, hiff, hdel⟩ := middle hs ha
    obtain ⟨_, _, _, hc'⟩ := buildWire_run (hiff.mpr hharm) hc
    rw [hdel, hc']

/-- An empty message, written completely, costs the message after it. -/
theorem send_empty_harms_neighbour :
    (send [] [.accepted 5]).ret = some 6 ∧ ¬ Unharmed [] (send [] [.accepted 5]).written := by
  refine ⟨by decide +kernel, fun h => ?_⟩
  have hlost := h Rx.init probe probe rfl (by decide) (by decide)
  exact absurd hlost (by decide +kernel)

end MctpSerial.MctpFramer
