import MctpSerial.FrameCheckSequence
import Mathlib.Data.List.Infix
import Mathlib.Tactic.Ring

/-!
# The transmit side of the framer

`buildWire` and `send` construct the same unescaped frame and run the same
escaping loop over it; `send` then pushes the result through the resumable write
loop `framerWriteAll`, whose system calls are given by a list of outcomes.
-/
namespace MctpSerial.MctpFramer

def frameChar : Byte := 0x7E#8

def escapeChar : Byte := 0x7D#8

/-- The unescaped frame of `send` and `buildWire`: flag, version, truncated
length, payload, checksum (high byte first), flag. -/
def fullMsg (msg : Packet) : List Byte :=
  let head := frameChar :: 0x01#8 :: BitVec.ofNat 8 msg.length :: msg
  let fcs := calcFcs initFcs (head.drop 1) (intOfSize (head.length - 1))
  head ++ [(fcs >>> 8).setWidth 8, (fcs &&& 0xff#16).setWidth 8, frameChar]

/-- What the escaping loops push for one byte of the payload. -/
def escByte (data : Byte) : List Byte :=
  if data = frameChar ∨ data = escapeChar then [escapeChar, data - 0x20#8] else [data]

/-- The escaping loop over a whole unescaped frame. Three bytes at either end are
copied as they are; every frame has at least six bytes, so `size() - 4` does not wrap. -/
def escapeLoop (full : List Byte) : List Byte :=
  full.zipIdx.flatMap fun (data, i) =>
    if i < 3 ∨ i > full.length - 4 then [data] else escByte data

def buildWire (msg : Packet) : List Byte := escapeLoop (fullMsg msg)

/-- What `poll` reports after a write that would block. -/
inductive PollOutcome where
  | writable | notWritable | timeout | failed
  deriving DecidableEq

/-- What one `write` reports. A successful write takes `more + 1` bytes, or all that
were offered if these are fewer. -/
inductive WriteOutcome where
  | accepted (more : ℕ)
  | zero
  | eintr
  | eagain (poll : PollOutcome)
  | failed
  deriving DecidableEq

/-- The bytes a descriptor accepted and the value returned; the value is `none`
while the loop waits for a further outcome. -/
structure WriteResult where
  written : List Byte
  ret : Option ℤ
  deriving DecidableEq

/-- `framer_write_all` from the position `sent` on. -/
def framerWriteAll (buf : List Byte) (sent : ℕ) : List WriteOutcome → WriteResult
  | [] => ⟨[], if sent < buf.length then none else some sent⟩
  | o :: os =>
    if sent < buf.length then
      match o with
      | .accepted more =>
        let n := min (more + 1) (buf.length - sent)
        let r := framerWriteAll buf (sent + n) os
        ⟨(buf.drop sent).take n ++ r.written, r.ret⟩
      | .zero => ⟨[], some (-1)⟩
      | .eintr => framerWriteAll buf sent os
      | .eagain poll =>
        if poll = .writable then framerWriteAll buf sent os else ⟨[], some (-1)⟩
      | .failed => ⟨[], some (-1)⟩
    else ⟨[], some sent⟩

def transmitFrame (msg : List Byte) (os : List WriteOutcome) : WriteResult :=
  framerWriteAll (escapeLoop msg) 0 os

def send (msg : Packet) (os : List WriteOutcome) : WriteResult :=
  transmitFrame (fullMsg msg) os

/-- What the descriptor is ready to take, up to the first outcome after which the loop gives
up. -/
def acceptedBytes : List WriteOutcome → ℕ
  | [] => 0
  | .accepted more :: os => more + 1 + acceptedBytes os
  | .eintr :: os => acceptedBytes os
  | .eagain .writable :: os => acceptedBytes os
  | _ :: _ => 0

/-- The escaped payload. -/
def esc (p : Packet) : List Byte := p.flatMap escByte

/-- A frame as it travels on the line: header and checksum are not escaped. -/
def wireFrame (v : Byte) (p : Packet) (a b : Byte) : List Byte :=
  [frameChar, v, BitVec.ofNat 8 p.length] ++ esc p ++ [a, b, frameChar]

/-- The checksum the encoders append to a message. -/
def msgFcs (msg : Packet) : BitVec 16 :=
  calcFcs initFcs (0x01#8 :: BitVec.ofNat 8 msg.length :: msg) (intOfSize (msg.length + 2))

def fcsHi (msg : Packet) : Byte := (msgFcs msg >>> 8).setWidth 8

def fcsLo (msg : Packet) : Byte := (msgFcs msg &&& 0xff#16).setWidth 8

/-- The 16-bit value `(a << 8) + b`. -/
def joinFcs (a b : Byte) : BitVec 16 := (a.setWidth 16 <<< 8) + b.setWidth 16

@[simp] theorem frameChar_ne_escapeChar : frameChar ≠ escapeChar := by decide

@[simp] theorem frameChar_not_escaped :
    ¬ (frameChar = escapeChar - 0x20#8 ∨ frameChar = frameChar - 0x20#8) := by decide

@[simp] theorem esc_nil : esc [] = [] := rfl

@[simp] theorem esc_cons (x : Byte) (p : Packet) : esc (x :: p) = escByte x ++ esc p := rfl

@[simp] theorem esc_append (p q : Packet) : esc (p ++ q) = esc p ++ esc q := by
  simp [esc]

theorem escByte_eq_self {x : Byte} (h : x ≠ frameChar) (h' : x ≠ escapeChar) :
    escByte x = [x] := by
  simp [escByte, h, h']

theorem frameChar_notMem_escByte (x : Byte) : frameChar ∉ escByte x := by
  rw [escByte]
  split
  · rename_i h
    rcases h with rfl | rfl <;> decide
  · rename_i h
    simp only [List.mem_singleton]
    exact fun e => h (Or.inl e.symm)

theorem frameChar_notMem_esc (p : Packet) : frameChar ∉ esc p := by
  intro h
  obtain ⟨x, _, hx⟩ := List.mem_flatMap.mp h
  exact frameChar_notMem_escByte x hx

theorem length_le_length_esc (p : Packet) : p.length ≤ (esc p).length := by
  induction p with
  | nil => simp
  | cons x p ih =>
    have hx : 1 ≤ (escByte x).length := by
      rw [escByte]
      split <;> simp
    simp only [esc_cons, List.length_append, List.length_cons]
    omega

private theorem flatMap_zipIdx_congr {α β : Type} (f g : α × ℕ → List β) (l : List α) (k : ℕ)
    (h : ∀ x i, k ≤ i → i < k + l.length → f (x, i) = g (x, i)) :
    (l.zipIdx k).flatMap f = (l.zipIdx k).flatMap g := by
  apply List.flatMap_congr
  rintro ⟨x, i⟩ hx
  obtain ⟨h1, h2⟩ := List.mk_mem_zipIdx_iff_le_and_getElem?_sub.mp hx
  have := (List.getElem?_eq_some_iff.mp h2).1
  exact h x i h1 (by omega)

private theorem flatMap_zipIdx_fst {α β : Type} (f : α → List β) (l : List α) (k : ℕ) :
    ((l.zipIdx k).flatMap fun x => f x.1) = l.flatMap f := by
  induction l generalizing k with
  | nil => rfl
  | cons x l ih => simp [List.zipIdx_cons, ih]

/-- The indices the loop leaves alone are exactly those of header and trailer. -/
theorem escapeLoop_frame (x y z : Byte) (p : Packet) (a b c : Byte) :
    escapeLoop ([x, y, z] ++ p ++ [a, b, c]) = [x, y, z] ++ esc p ++ [a, b, c] := by
  have hlen : ([x, y, z] ++ p ++ [a, b, c]).length = p.length + 6 := by simp
  have hmid : (p.zipIdx 3).flatMap (fun d : Byte × ℕ =>
      if d.2 < 3 ∨ d.2 > p.length + 6 - 4 then [d.1] else escByte d.1) = esc p := by
    rw [esc, ← flatMap_zipIdx_fst escByte p 3]
    apply flatMap_zipIdx_congr
    intro w i h1 h2
    have h : ¬ (i < 3 ∨ i > p.length + 6 - 4) := by omega
    simp only [h, if_false]
  have hend : ([a, b, c].zipIdx (p.length + 3)).flatMap (fun d : Byte × ℕ =>
      if d.2 < 3 ∨ d.2 > p.length + 6 - 4 then [d.1] else escByte d.1) = [a, b, c] := by
    simp [List.zipIdx_cons]
  have hpos : 0 + ([x, y, z] ++ p).length = p.length + 3 := by simp
  simp only [escapeLoop, hlen, List.zipIdx_append, List.flatMap_append, hpos, hend]
  congr 2

theorem fullMsg_eq (msg : Packet) :
    fullMsg msg = [frameChar, 0x01#8, BitVec.ofNat 8 msg.length] ++ msg ++
      [fcsHi msg, fcsLo msg, frameChar] := by
  simp [fullMsg, fcsHi, fcsLo, msgFcs]

/-- The encoder's output in the shape the receiver is analysed on. -/
theorem buildWire_eq (msg : Packet) :
    buildWire msg = wireFrame 0x01#8 msg (fcsHi msg) (fcsLo msg) := by
  rw [buildWire, fullMsg_eq, escapeLoop_frame]
  rfl

theorem msgFcs_eq {msg : Packet} (h : msg.length ≤ 255) :
    msgFcs msg = calcFcs initFcs (0x01#8 :: BitVec.ofNat 8 msg.length :: msg)
      (msg.length + 2 : ℕ) := by
  rw [msgFcs, intOfSize_of_lt (by omega)]

/-- Splitting a checksum into two bytes and joining them again. -/
theorem joinFcs_split (fcs : BitVec 16) :
    joinFcs ((fcs >>> 8).setWidth 8) ((fcs &&& 0xff#16).setWidth 8) = fcs := by
  apply BitVec.eq_of_toNat_eq
  have h := fcs.isLt
  have hand : fcs.toNat &&& 255 = fcs.toNat % 256 := Nat.and_two_pow_sub_one_eq_mod _ 8
  simp only [joinFcs, BitVec.toNat_add, BitVec.toNat_shiftLeft, BitVec.toNat_setWidth,
    BitVec.toNat_ushiftRight, BitVec.toNat_and, BitVec.toNat_ofNat, Nat.shiftLeft_eq,
    Nat.shiftRight_eq_div_pow]
  norm_num [hand]
  omega

theorem joinFcs_msgFcs (msg : Packet) : joinFcs (fcsHi msg) (fcsLo msg) = msgFcs msg :=
  joinFcs_split (msgFcs msg)

/-- How a run of the write loop ends: with the rest of the buffer written and its length
reported, or short of it with an error or a wait for the next outcome. -/
def WriteResult.Ends (r : WriteResult) (rest : List Byte) (len : ℕ) : Prop :=
  (r.written = rest ∧ r.ret = some (len : ℤ)) ∨
    (r.written ≠ rest ∧ (r.ret = none ∨ r.ret = some (-1)))

/-- Nothing is written, although bytes are left. -/
theorem WriteResult.ends_short {buf : List Byte} {sent : ℕ} (hlt : sent < buf.length)
    {ret : Option ℤ} (hret : ret = none ∨ ret = some (-1)) :
    [] <+: buf.drop sent ∧ (⟨[], ret⟩ : WriteResult).Ends (buf.drop sent) buf.length := by
  refine ⟨List.nil_prefix, Or.inr ⟨?_, hret⟩⟩
  rw [ne_comm, ne_eq, List.drop_eq_nil_iff]
  omega

/-- A part of the bytes that are left is written before the loop goes on. -/
theorem WriteResult.ends_append {part rest all : List Byte} (hall : part ++ rest = all)
    {r : WriteResult} {len : ℕ} (h : r.written <+: rest ∧ r.Ends rest len) :
    part ++ r.written <+: all ∧ (⟨part ++ r.written, r.ret⟩ : WriteResult).Ends all len := by
  subst hall
  obtain ⟨hfront, hends⟩ := h
  refine ⟨(List.prefix_append_right_inj part).mpr hfront, ?_⟩
  rcases hends with ⟨hw, hr⟩ | ⟨hw, hr⟩
  · exact Or.inl ⟨by rw [hw], hr⟩
  · exact Or.inr ⟨fun h => hw (List.append_cancel_left h), hr⟩

/-- Nothing is left to be written. -/
theorem framerWriteAll_ends_done {buf : List Byte} {sent : ℕ} (hs : sent ≤ buf.length)
    (hlt : ¬ sent < buf.length) (os : List WriteOutcome) :
    (framerWriteAll buf sent os).written <+: buf.drop sent ∧
      (framerWriteAll buf sent os).Ends (buf.drop sent) buf.length := by
  obtain rfl : sent = buf.length := by omega
  have hdone : framerWriteAll buf buf.length os = ⟨[], some (buf.length : ℤ)⟩ := by
    cases os <;> simp only [framerWriteAll, if_neg hlt]
  rw [hdone, List.drop_length]
  exact ⟨List.nil_prefix, Or.inl ⟨rfl, rfl⟩⟩

/-- The loop only ever appends the next bytes of the buffer, and it reports a
non-negative value exactly when none is left. -/
theorem framerWriteAll_spec (buf : List Byte) (sent : ℕ) (hs : sent ≤ buf.length)
    (os : List WriteOutcome) :
    (framerWriteAll buf sent os).written <+: buf.drop sent ∧
      (framerWriteAll buf sent os).Ends (buf.drop sent) buf.length := by
  induction os generalizing sent with
  | nil =>
    by_cases hlt : sent < buf.length
    · rw [framerWriteAll, if_pos hlt]
      exact WriteResult.ends_short hlt (Or.inl rfl)
    · exact framerWriteAll_ends_done hs hlt []
  | cons o os ih =>
    by_cases hlt : sent < buf.length
    · cases o with
      | accepted more =>
        simp only [framerWriteAll, if_pos hlt]
        have hnext := ih (sent + min (more + 1) (buf.length - sent)) (by omega)
        have hsplit := List.take_append_drop (min (more + 1) (buf.length - sent)) (buf.drop sent)
        rw [List.drop_drop] at hsplit
        exact WriteResult.ends_append hsplit hnext
      | zero =>
        simp only [framerWriteAll, if_pos hlt]
        exact WriteResult.ends_short hlt (Or.inr rfl)
      | eintr =>
        simp only [framerWriteAll, if_pos hlt]
        exact ih sent hs
      | eagain poll =>
        simp only [framerWriteAll, if_pos hlt]
        split
        · exact ih sent hs
        · exact WriteResult.ends_short hlt (Or.inr rfl)
      | failed =>
        simp only [framerWriteAll, if_pos hlt]
        exact WriteResult.ends_short hlt (Or.inr rfl)
    · exact framerWriteAll_ends_done hs hlt (o :: os)

/-- The loop passes on as many bytes as the descriptor takes, and stops at the end of the
buffer. -/
theorem framerWriteAll_length (buf : List Byte) (sent : ℕ) (os : List WriteOutcome) :
    (framerWriteAll buf sent os).written.length = min (acceptedBytes os) (buf.length - sent) := by
  induction os generalizing sent with
  | nil => simp [framerWriteAll, acceptedBytes]
  | cons o os ih =>
    by_cases hlt : sent < buf.length
    · cases o with
      | accepted more =>
        simp only [framerWriteAll, if_pos hlt, acceptedBytes, List.length_append, List.length_take,
          List.length_drop, ih]
        omega
      | zero => simp [framerWriteAll, if_pos hlt, acceptedBytes]
      | eintr => simp only [framerWriteAll, if_pos hlt, acceptedBytes, ih]
      | eagain poll =>
        cases poll with
        | writable => simp only [framerWriteAll, if_pos hlt, if_true, acceptedBytes, ih]
        | notWritable => simp [framerWriteAll, if_pos hlt, acceptedBytes]
        | timeout => simp [framerWriteAll, if_pos hlt, acceptedBytes]
        | failed => simp [framerWriteAll, if_pos hlt, acceptedBytes]
      | failed => simp [framerWriteAll, if_pos hlt, acceptedBytes]
    · have hdone : buf.length - sent = 0 := by omega
      simp [framerWriteAll, if_neg hlt, hdone]

theorem WriteResult.Ends.ret_nonneg_iff {r : WriteResult} {rest : List Byte} {len : ℕ}
    (h : r.Ends rest len) : r.written = rest ↔ ∃ n : ℤ, r.ret = some n ∧ 0 ≤ n := by
  rcases h with ⟨hw, hr⟩ | ⟨hw, hr | hr⟩
  · simp [hw, hr]
  · simp [hw, hr]
  · simp [hw, hr]

theorem WriteResult.Ends.ret_eq {r : WriteResult} {rest : List Byte} {len : ℕ}
    (h : r.Ends rest len) {n : ℤ} (hn : r.ret = some n) (h0 : 0 ≤ n) : n = len := by
  rcases h with ⟨-, hr⟩ | ⟨-, hr | hr⟩
  · exact Option.some.inj (hn.symm.trans hr)
  · cases hn.symm.trans hr
  · cases hn.symm.trans hr
    omega

/-- One `send` leaves a prefix of the encoded frame on the line. -/
theorem send_written_prefix_wire (msg : Packet) (os : List WriteOutcome) :
    (send msg os).written <+: buildWire msg :=
  (framerWriteAll_spec (buildWire msg) 0 (Nat.zero_le _) os).1

theorem send_ends (msg : Packet) (os : List WriteOutcome) :
    (send msg os).Ends (buildWire msg) (buildWire msg).length :=
  (framerWriteAll_spec (buildWire msg) 0 (Nat.zero_le _) os).2

/-- A `send` whose write loop succeeds puts the whole encoded frame on the line. -/
theorem send_written_of_ret {msg : Packet} {os : List WriteOutcome} {r : ℤ}
    (h : (send msg os).ret = some r) (h0 : 0 ≤ r) : (send msg os).written = buildWire msg :=
  (send_ends msg os).ret_nonneg_iff.mpr ⟨r, h, h0⟩

theorem send_written_length (msg : Packet) (os : List WriteOutcome) :
    (send msg os).written.length = min (acceptedBytes os) (buildWire msg).length :=
  framerWriteAll_length (buildWire msg) 0 os

/-- The bytes on the line are those of the encoded frame, as many as the descriptor takes. -/
theorem send_written_eq_take (msg : Packet) (os : List WriteOutcome) :
    (send msg os).written = (buildWire msg).take (acceptedBytes os) := by
  rw [List.prefix_iff_eq_take.mp (send_written_prefix_wire msg os), send_written_length,
    ← List.take_eq_take_min]

/-- `send` puts exactly the bytes of `buildWire` on the line: under any outcomes of `write` and
`poll` it writes a prefix of them, as long as what the writes accept before the loop gives up,
and all of them exactly when the write loop returns a non-negative value, which is then their
number. -/
theorem send_writes_buildWire (msg : Packet) (os : List WriteOutcome) :
    (send msg os).written <+: buildWire msg ∧
      (send msg os).written = (buildWire msg).take (acceptedBytes os) ∧
      ((send msg os).written = buildWire msg ↔ (buildWire msg).length ≤ acceptedBytes os) ∧
      ((send msg os).written = buildWire msg ↔ ∃ r : ℤ, (send msg os).ret = some r ∧ 0 ≤ r) ∧
      ∀ r : ℤ, (send msg os).ret = some r → 0 ≤ r → r = (buildWire msg).length := by
  refine ⟨send_written_prefix_wire msg os, send_written_eq_take msg os, ?_,
    (send_ends msg os).ret_nonneg_iff, fun _ h h0 => (send_ends msg os).ret_eq h h0⟩
  rw [send_written_eq_take, List.take_eq_self_iff]

/-- Every prefix can be left behind: the descriptor accepts it and then fails. -/
theorem exists_send_written {msg : Packet} {w : List Byte} (h : w <+: buildWire msg) :
    ∃ os, (send msg os).written = w := by
  have hw := List.prefix_iff_eq_take.mp h
  cases w with
  | nil => exact ⟨[], rfl⟩
  | cons x w =>
    refine ⟨[.accepted w.length], ?_⟩
    rw [send_written_eq_take]
    exact hw.symm

end MctpSerial.MctpFramer
