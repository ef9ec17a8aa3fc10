import MctpSerial.NetlinkReplyBounds
import MctpSerial.NetlinkRequests

/-!
# What appending does to a draft

Behind the end of a message, and with room enough in the buffer, each of the functions that
append leaves all that has been built before as it is, stores inside the buffer only, and
keeps `nlmsg_len` a multiple of four. `nlaNestEnd` stores the length of a nest when the
payload stands behind it already.
-/
namespace MctpSerial.MctpNetlink
open MemoryWalks

/-! ## What appending does -/

/-- A store is inside a buffer of the given size, `rta_len` counts its payload, and
`nlmsg_len` does not exceed the size. -/
def Effect.Within (size : ℕ) : Effect → Prop
  | .stored p count => count = 0 ∨ p + count ≤ size
  | .rtaLen len payload => len = rtattrSize + payload
  | .nlmsgLen len => len ≤ size

def Effect.Aligned : Effect → Prop
  | .nlmsgLen len => 4 ∣ len
  | _ => True

/-- Everything from the message header up to `n` is left as it was, and all that has been
done was inside the buffer. -/
structure Appends (n : ℕ) (d d' : Draft) : Prop where
  capacity : d'.capacity = d.capacity
  keeps : d'.mem.AgreeOn d.mem 4 n
  effects : ∃ es, d'.effects = d.effects ++ es ∧ ∀ e ∈ es, e.Within d.capacity ∧ e.Aligned

namespace Appends
variable {n : ℕ} {d d' d'' : Draft}

protected theorem refl (n : ℕ) (d : Draft) : Appends n d d :=
  ⟨rfl, .refl _ _ _, [], by simp, by simp⟩

protected theorem trans (h : Appends n d d') (h' : Appends n d' d'') : Appends n d d'' := by
  obtain ⟨es, hes, hall⟩ := h.effects
  obtain ⟨es', hes', hall'⟩ := h'.effects
  refine ⟨h'.capacity.trans h.capacity, h'.keeps.trans h.keeps, es ++ es', ?_, ?_⟩
  · rw [hes', hes, List.append_assoc]
  · intro e he
    rcases List.mem_append.mp he with he | he
    · exact hall e he
    · rw [← h.capacity]
      exact hall' e he

theorem mono (h : Appends n d d') {k : ℕ} (hk : k ≤ n) : Appends k d d' :=
  ⟨h.capacity, h.keeps.mono le_rfl hk, h.effects⟩

theorem store (h : Appends n d d') {p : ℕ} {bs : List (BitVec 8)}
    (hp : n ≤ p ∨ p + bs.length ≤ 4) (hcap : p + bs.length ≤ d.capacity) :
    Appends n d (d'.store p bs) :=
  h.trans ⟨rfl, Memory.agreeOn_write _ _ hp, [_], rfl,
    by simp [Effect.Within, Effect.Aligned, h.capacity, hcap]⟩

theorem record (h : Appends n d d') {e : Effect} (hwithin : e.Within d.capacity)
    (haligned : e.Aligned) : Appends n d (d'.record e) :=
  h.trans ⟨rfl, .refl _ _ _, [e], rfl, by simp [h.capacity, hwithin, haligned]⟩

end Appends

namespace Draft
variable {o : ByteOrder} {n : ℕ} {d : Draft}

theorem setNlmsgLen_natCast (d : Draft) {len : ℕ} (h : len < 2 ^ 32) :
    d.setNlmsgLen o len = (d.store 0 (o.encode 4 len)).record (.nlmsgLen len) := by
  have hlen : ((len : ℤ) % 2 ^ 32).toNat = len := by omega
  rw [setNlmsgLen, hlen]

theorem setRtaLen_natCast (d : Draft) (rta payload : ℕ) {len : ℕ} (h : len < 2 ^ 16) :
    d.setRtaLen o rta len payload =
      (d.store rta (o.encode 2 len)).record (.rtaLen len payload) := by
  have hlen : ((len : ℤ) % 2 ^ 16).toNat = len := by omega
  rw [setRtaLen, hlen]

theorem nlmsgLen_setNlmsgLen (d : Draft) {len : ℕ} (h : len < 2 ^ 32) :
    (d.setNlmsgLen o len).nlmsgLen o = len := by
  rw [setNlmsgLen_natCast d h]
  exact Memory.Holds.number (Memory.holds_write d.mem 0 (o.encode 4 len)) h

theorem agreeOn_setNlmsgLen (d : Draft) (len : ℤ) (b : ℕ) :
    (d.setNlmsgLen o len).mem.AgreeOn d.mem 4 b := by
  rw [setNlmsgLen, record_mem, store_mem]
  exact Memory.agreeOn_write _ _ (Or.inr (by simp))

theorem agreeOn_setRtaLen (d : Draft) (rta : ℕ) (len : ℤ) (payload b : ℕ) :
    (d.setRtaLen o rta len payload).mem.AgreeOn d.mem (rta + 2) b := by
  rw [setRtaLen, record_mem, store_mem]
  exact Memory.agreeOn_write _ _ (Or.inr (by simp))

theorem holds_setRtaLen (d : Draft) (rta payload : ℕ) {len : ℕ} (h : len < 2 ^ 16) :
    (d.setRtaLen o rta len payload).mem.Holds rta (o.encode 2 len) := by
  rw [setRtaLen_natCast d rta payload h]
  exact Memory.holds_write d.mem rta (o.encode 2 len)

/-- The whole of the data. -/
theorem copy_mem (d : Draft) (p : ℕ) (data : List (BitVec 8)) :
    (d.copy p data data.length).mem = d.mem.write p data := by
  rw [copy, Int.toNat_natCast, List.take_length]
  split
  · rfl
  · rename_i h
    have hnil : data = [] := List.eq_nil_of_length_eq_zero (by omega)
    rw [hnil, Memory.write_nil]

end Draft

namespace Appends
variable {o : ByteOrder} {n : ℕ} {d d' : Draft} (h : Appends n d d')
include h

theorem setNlmsgLen {len : ℕ} (h4 : 4 ∣ len) (hlt : len < 2 ^ 32) (hcap : len ≤ d.capacity)
    (hpos : 4 ≤ d.capacity) : Appends n d (d'.setNlmsgLen o len) := by
  rw [Draft.setNlmsgLen_natCast d' hlt]
  exact (h.store (Or.inr (by simp)) (by simpa using hpos)).record hcap h4

theorem setRtaLen {rta payload : ℕ} (hlt : rtattrSize + payload < 2 ^ 16) (hrta : n ≤ rta)
    (hcap : rta + 2 ≤ d.capacity) :
    Appends n d (d'.setRtaLen o rta ((rtattrSize + payload : ℕ) : ℤ) payload) := by
  rw [Draft.setRtaLen_natCast d' rta payload hlt]
  exact (h.store (Or.inl hrta) (by simpa using hcap)).record rfl trivial

theorem setRtaType {rta type : ℕ} (hrta : n ≤ rta) (hcap : rta + rtattrSize ≤ d.capacity) :
    Appends n d (d'.setRtaType o rta type) :=
  h.store (Or.inl (by omega)) (by rw [ByteOrder.length_encode]; exact hcap)

theorem copy {p : ℕ} {data : List (BitVec 8)} (hp : n ≤ p) (hcap : p + data.length ≤ d.capacity) :
    Appends n d (d'.copy p data data.length) := by
  rw [Draft.copy, Int.toNat_natCast, List.take_length]
  split
  · exact h.store (Or.inl hp) hcap
  · exact h

end Appends

theorem dvd_align (len : ℕ) : 4 ∣ align len := ⟨_, Nat.mul_comm _ 4⟩

theorem le_align_of_lt {len : ℕ} (h : len < 2 ^ 16) : len ≤ align len ∧ align len ≤ len + 3 :=
  le_align (h.trans (by decide))

theorem align_of_dvd {len : ℕ} (h4 : 4 ∣ len) (hlt : len < 2 ^ 32) : align len = len := by
  simp only [align]
  omega

/-- The header of an attribute. -/
def rtattr (o : ByteOrder) (len type : ℕ) : List (BitVec 8) := o.encode 2 len ++ o.encode 2 type

@[simp] theorem length_rtattr (o : ByteOrder) (len type : ℕ) :
    (rtattr o len type).length = rtattrSize := by
  simp [rtattr, rtattrSize]

section
variable {o : ByteOrder} {n : ℕ} {d : Draft}

/-- The three stores of `nlaPut`, in the order in which they are made. -/
theorem holds_attribute (m : Memory) (p len type : ℕ) (data : List (BitVec 8)) :
    (((m.write (p + 2) (o.encode 2 type)).write p (o.encode 2 len)).write
      (p + rtattrSize) data).Holds p (rtattr o len type ++ data) := by
  have hfixed : rtattrSize = 4 := rfl
  have hdata : ∀ m' : Memory, (m'.write (p + rtattrSize) data).AgreeOn m' 0 (p + rtattrSize) :=
    fun m' => m'.agreeOn_write data (Or.inl le_rfl)
  rw [Memory.holds_append, length_rtattr]
  refine ⟨(hdata _).holds ?_ (Nat.zero_le p) (by simp), Memory.holds_write _ _ _⟩
  rw [rtattr, Memory.holds_append, ByteOrder.length_encode]
  refine ⟨Memory.holds_write _ _ _, ?_⟩
  have hlen := Memory.agreeOn_write (m.write (p + 2) (o.encode 2 type)) (o.encode 2 len)
    (p := p) (a := p + 2) (b := p + 4) (by simp)
  exact hlen.holds (Memory.holds_write _ _ _) le_rfl (by simp)

/-- `nlaPut` for the whole of its data. -/
theorem nlaPut_appends (type : ℕ) {data : List (BitVec 8)} (hn : d.nlmsgLen o = n) (h4 : 4 ∣ n)
    (hpos : 4 ≤ n) (hlen : rtattrSize + data.length < 2 ^ 16)
    (hcap : n + align (rtattrSize + data.length) ≤ d.capacity)
    (hlt : n + align (rtattrSize + data.length) < 2 ^ 32) :
    let d' := nlaPut o type data data.length d
    d'.nlmsgLen o = n + align (rtattrSize + data.length) ∧
      d'.mem.Holds n (rtattr o (rtattrSize + data.length) type ++ data) ∧ Appends n d d' := by
  have hfixed : rtattrSize = 4 := rfl
  have halign := le_align_of_lt hlen
  have hcur : align n = n := align_of_dvd h4 (by omega)
  let d1 := d.setRtaType o n type
  let d2 := d1.setRtaLen o n ((rtattrSize + data.length : ℕ) : ℤ) data.length
  let d3 := d2.copy (n + rtattrSize) data data.length
  have hmem : d3.mem.Holds n (rtattr o (rtattrSize + data.length) type ++ data) := by
    have hd2 := Draft.setRtaLen_natCast (o := o) d1 n data.length hlen
    rw [Draft.copy_mem, show d2 = _ from hd2]
    exact holds_attribute d.mem n _ type data
  have hread : d3.rtaLen o n = rtattrSize + data.length := by
    rw [rtattr, List.append_assoc, Memory.holds_append] at hmem
    exact hmem.1.number hlen
  have hput : nlaPut o type data data.length d =
      d3.setNlmsgLen o ((n + align (rtattrSize + data.length) : ℕ) : ℤ) := by
    rw [nlaPut, hn, hcur, ← hread, Nat.cast_add]
    rfl
  have h1 : Appends n d d1 := (Appends.refl n d).setRtaType le_rfl (by omega)
  have h2 : Appends n d d2 := h1.setRtaLen hlen le_rfl (by omega)
  have h3 : Appends n d d3 := h2.copy (by omega) (by omega)
  have hdvd : 4 ∣ n + align (rtattrSize + data.length) := Nat.dvd_add h4 (dvd_align _)
  intro d'
  rw [show d' = _ from hput]
  refine ⟨Draft.nlmsgLen_setNlmsgLen d3 hlt, ?_, ?_⟩
  · exact (Draft.agreeOn_setNlmsgLen d3 _ _).holds hmem hpos le_rfl
  · exact h3.setNlmsgLen hdvd hlt hcap (by omega)

theorem nlaNestStart_appends (type : ℕ) (hn : d.nlmsgLen o = n) (h4 : 4 ∣ n) (hpos : 4 ≤ n)
    (hcap : n + rtattrSize ≤ d.capacity) (hlt : n + rtattrSize < 2 ^ 32) :
    let d' := (nlaNestStart o type d).1
    (nlaNestStart o type d).2 = n ∧ d'.nlmsgLen o = n + rtattrSize ∧
      d'.mem.Holds (n + 2) (o.encode 2 (type ||| nlaFNested)) ∧ Appends n d d' := by
  have hfixed : rtattrSize = 4 := rfl
  have hcur : align n = n := align_of_dvd h4 (by omega)
  let d1 := d.setRtaType o n (type ||| nlaFNested)
  let d2 := d1.setRtaLen o n ((rtattrSize + 0 : ℕ) : ℤ) 0
  have hstart : nlaNestStart o type d = (d2.setNlmsgLen o ((n + rtattrSize : ℕ) : ℤ), n) := by
    rw [nlaNestStart, hn, hcur]
    rfl
  have h1 : Appends n d d1 := (Appends.refl n d).setRtaType le_rfl hcap
  have h2 : Appends n d d2 := h1.setRtaLen (by norm_num [hfixed]) le_rfl (by omega)
  have htype : d2.mem.Holds (n + 2) (o.encode 2 (type ||| nlaFNested)) :=
    (Draft.agreeOn_setRtaLen d1 n _ 0 _).holds (Memory.holds_write d.mem _ _) le_rfl le_rfl
  intro d'
  rw [show d' = _ from congrArg Prod.fst hstart]
  refine ⟨congrArg Prod.snd hstart, Draft.nlmsgLen_setNlmsgLen d2 hlt, ?_, ?_⟩
  · exact (Draft.agreeOn_setNlmsgLen d2 _ _).holds htype (by omega) le_rfl
  · exact h2.setNlmsgLen (by omega) hlt hcap (by omega)

/-- `nlaNestEnd` counts the `k` bytes behind the header of the nest. -/
theorem nlaNestEnd_appends {k : ℕ} (hn : d.nlmsgLen o = n + rtattrSize + k) (h4 : 4 ∣ n)
    (hk : 4 ∣ k) (hpos : 4 ≤ n) (hlen : rtattrSize + k < 2 ^ 16)
    (hcap : n + rtattrSize + k ≤ d.capacity) (hlt : n + rtattrSize + k < 2 ^ 32) :
    let d' := nlaNestEnd o n d
    d'.nlmsgLen o = n + rtattrSize + k ∧ d'.mem.Holds n (o.encode 2 (rtattrSize + k)) ∧
      d'.mem.AgreeOn d.mem (n + 2) (n + rtattrSize + k) ∧ Appends n d d' := by
  have hfixed : rtattrSize = 4 := rfl
  have hcur : align n = n := align_of_dvd h4 (by omega)
  let d1 := d.setRtaLen o n ((rtattrSize + k : ℕ) : ℤ) k
  have hmem : d1.mem.Holds n (o.encode 2 (rtattrSize + k)) := d.holds_setRtaLen n k hlen
  have hread : d1.rtaLen o n = rtattrSize + k := hmem.number hlen
  have hbehind : (d.nlmsgLen o : ℤ) - (align n + rtaLength 0) = k := by
    rw [hn, hcur, rtaLength]
    push_cast
    ring
  have hend : nlaNestEnd o n d = d1.setNlmsgLen o ((n + rtattrSize + k : ℕ) : ℤ) := by
    have hbmod : (k : ℤ).bmod (2 ^ 32) = k := Int.bmod_eq_of_le (by omega) (by omega)
    have hd1 : d.setRtaLen o n (rtaLength k) k = d1 := by
      rw [rtaLength, ← Nat.cast_add]
    have hsum : (n : ℤ) + (align (rtattrSize + k) : ℕ) = ((n + rtattrSize + k : ℕ) : ℤ) := by
      rw [align_of_dvd (by omega) (by omega), ← Nat.cast_add, Nat.add_assoc]
    rw [nlaNestEnd, hbehind, hbmod, Int.toNat_natCast, hcur, hd1, hread, hsum]
  have h1 : Appends n d d1 := (Appends.refl n d).setRtaLen hlen le_rfl (by omega)
  intro d'
  rw [show d' = _ from hend]
  refine ⟨Draft.nlmsgLen_setNlmsgLen d1 hlt, ?_, ?_, ?_⟩
  · exact (Draft.agreeOn_setNlmsgLen d1 _ _).holds hmem hpos le_rfl
  · exact ((Draft.agreeOn_setNlmsgLen d1 _ _).mono (by omega) le_rfl).trans
      (Draft.agreeOn_setRtaLen d n _ k _)
  · exact h1.setNlmsgLen (by omega) hlt hcap (by omega)

end

end MctpSerial.MctpNetlink
