import Mathlib.Data.List.Basic
import Mathlib.Data.Nat.Digits.Defs
import Mathlib.Tactic.Common

/-!
# Programs that walk over memory

A walk reads memory at addresses that it computes from what it has read before. It is kept
with the list of all addresses it has read, so that staying inside a region is a statement
about the walk itself. Numbers are read in the byte order of the host, which is a parameter.
-/
namespace MctpSerial.MemoryWalks

/-- The order in which a host keeps the bytes of a number. -/
inductive ByteOrder where
  | little
  | big
  deriving DecidableEq

/-- The number that bytes spell, lowest first. -/
def spelled (bs : List (BitVec 8)) : ℕ := Nat.ofDigits 256 (bs.map BitVec.toNat)

/-- The lowest `k` bytes of a number, lowest first. -/
def spell : ℕ → ℕ → List (BitVec 8)
  | 0, _ => []
  | k + 1, v => BitVec.ofNat 8 v :: spell k (v / 256)

namespace ByteOrder

/-- The number that bytes in memory stand for. -/
def value : ByteOrder → List (BitVec 8) → ℕ
  | little, bs => spelled bs
  | big, bs => spelled bs.reverse

/-- A number as `k` bytes in memory. -/
def encode : ByteOrder → ℕ → ℕ → List (BitVec 8)
  | little, k, v => spell k v
  | big, k, v => (spell k v).reverse

end ByteOrder

@[simp] theorem length_spell (k v : ℕ) : (spell k v).length = k := by
  induction k generalizing v with
  | zero => rfl
  | succ k ih => simp [spell, ih]

theorem spelled_spell (k v : ℕ) (hv : v < 256 ^ k) : spelled (spell k v) = v := by
  induction k generalizing v with
  | zero =>
    have hv0 : v = 0 := by simpa using hv
    simp [spell, spelled, hv0]
  | succ k ih =>
    have hdiv : v / 256 < 256 ^ k := by
      rw [Nat.div_lt_iff_lt_mul (by decide)]
      simpa only [Nat.pow_succ] using hv
    have hrest := ih _ hdiv
    rw [spelled] at hrest
    rw [spelled, spell, List.map_cons, Nat.ofDigits_cons, hrest, BitVec.toNat_ofNat]
    exact Nat.mod_add_div v 256

theorem spelled_lt (bs : List (BitVec 8)) : spelled bs < 256 ^ bs.length := by
  have hbyte : ∀ d ∈ bs.map BitVec.toNat, d < 256 := by
    intro d hd
    obtain ⟨b, -, rfl⟩ := List.mem_map.mp hd
    exact b.isLt
  have h := Nat.ofDigits_lt_base_pow_length (by decide) hbyte
  rwa [List.length_map] at h

namespace ByteOrder

theorem value_lt (o : ByteOrder) (bs : List (BitVec 8)) : o.value bs < 256 ^ bs.length := by
  cases o with
  | little => exact spelled_lt bs
  | big =>
    have h := spelled_lt bs.reverse
    rwa [List.length_reverse] at h

@[simp] theorem value_singleton (o : ByteOrder) (b : BitVec 8) : o.value [b] = b.toNat := by
  cases o <;> simp [value, spelled]

@[simp] theorem length_encode (o : ByteOrder) (k v : ℕ) : (o.encode k v).length = k := by
  cases o <;> simp [encode]

/-- A number that fits is read back as it was written. -/
theorem value_encode (o : ByteOrder) (k v : ℕ) (hv : v < 256 ^ k) :
    o.value (o.encode k v) = v := by
  cases o <;> simp [value, encode, spelled_spell k v hv]

end ByteOrder

/-- What every address holds. -/
abbrev Memory := ℕ → BitVec 8

namespace Memory

/-- The bytes of `k` addresses from `p` on. -/
def bytesAt (m : Memory) (p k : ℕ) : List (BitVec 8) := (List.range' p k).map m

/-- The number that `k` bytes from `p` on stand for. -/
def number (m : Memory) (o : ByteOrder) (p k : ℕ) : ℕ := o.value (m.bytesAt p k)

/-- The given bytes stand at `p`. -/
def Holds (m : Memory) (p : ℕ) (bs : List (BitVec 8)) : Prop := m.bytesAt p bs.length = bs

/-- The given bytes from address zero on, and what a memory held before everywhere else. -/
def overlay (bs : List (BitVec 8)) (m : Memory) : Memory := fun p => bs.getD p (m p)

@[simp] theorem length_bytesAt (m : Memory) (p k : ℕ) : (m.bytesAt p k).length = k := by
  simp [bytesAt]

theorem number_lt (m : Memory) (o : ByteOrder) (p k : ℕ) : m.number o p k < 256 ^ k := by
  have h := o.value_lt (m.bytesAt p k)
  rwa [length_bytesAt] at h

theorem bytesAt_add (m : Memory) (p j k : ℕ) :
    m.bytesAt p (j + k) = m.bytesAt p j ++ m.bytesAt (p + j) k := by
  rw [bytesAt, bytesAt, bytesAt, ← List.map_append, List.range'_append_1]

theorem holds_append (m : Memory) (p : ℕ) (bs cs : List (BitVec 8)) :
    m.Holds p (bs ++ cs) ↔ m.Holds p bs ∧ m.Holds (p + bs.length) cs := by
  rw [Holds, List.length_append, bytesAt_add]
  constructor
  · intro h
    exact List.append_inj h (by simp)
  · intro ⟨hbs, hcs⟩
    rw [hbs, hcs]

theorem Holds.bytesAt_take {m : Memory} {p k : ℕ} {bs : List (BitVec 8)} (h : m.Holds p bs)
    (hk : k ≤ bs.length) : m.bytesAt p k = bs.take k := by
  rw [← List.take_append_drop k bs, holds_append, Holds, List.length_take_of_le hk] at h
  exact h.1

/-- A number is found where its encoding stands. -/
theorem Holds.number {o : ByteOrder} {m : Memory} {p k v : ℕ} (h : m.Holds p (o.encode k v))
    (hv : v < 256 ^ k) : m.number o p k = v := by
  have hbytes : m.bytesAt p k = o.encode k v := by
    simpa only [Holds, ByteOrder.length_encode] using h
  rw [Memory.number, hbytes, o.value_encode k v hv]

theorem holds_overlay (bs : List (BitVec 8)) (m : Memory) : (overlay bs m).Holds 0 bs := by
  apply List.ext_getElem
  · simp [bytesAt]
  · intro i _ hi
    simp [bytesAt, overlay, hi]

/-! ## Stores -/

/-- The given bytes from `p` on, and what a memory held before everywhere else. -/
def write (m : Memory) (p : ℕ) (bs : List (BitVec 8)) : Memory :=
  fun q => if q < p then m q else bs.getD (q - p) (m q)

/-- Two memories hold the same from address `a` on, up to `b`. -/
def AgreeOn (m m' : Memory) (a b : ℕ) : Prop := ∀ q, a ≤ q → q < b → m q = m' q

theorem holds_write (m : Memory) (p : ℕ) (bs : List (BitVec 8)) : (m.write p bs).Holds p bs := by
  apply List.ext_getElem
  · simp [bytesAt]
  · intro i _ hi
    simp [bytesAt, write, hi]

@[simp] theorem write_nil (m : Memory) (p : ℕ) : m.write p [] = m := by
  funext q
  simp [write]

theorem write_outside (m : Memory) (bs : List (BitVec 8)) {p q : ℕ}
    (h : q < p ∨ p + bs.length ≤ q) : m.write p bs q = m q := by
  rw [write]
  rcases h with h | h
  · rw [if_pos h]
  · rw [if_neg (by omega), List.getD, List.getElem?_eq_none (by omega), Option.getD_none]

theorem agreeOn_write (m : Memory) (bs : List (BitVec 8)) {p a b : ℕ}
    (h : b ≤ p ∨ p + bs.length ≤ a) : (m.write p bs).AgreeOn m a b :=
  fun _ ha hb => write_outside m bs (by omega)

namespace AgreeOn
variable {m m' m'' : Memory} {a b : ℕ}

protected theorem refl (m : Memory) (a b : ℕ) : m.AgreeOn m a b := fun _ _ _ => rfl

protected theorem trans (h : m.AgreeOn m' a b) (h' : m'.AgreeOn m'' a b) : m.AgreeOn m'' a b :=
  fun q ha hb => (h q ha hb).trans (h' q ha hb)

theorem mono (h : m.AgreeOn m' a b) {a' b' : ℕ} (ha : a ≤ a') (hb : b' ≤ b) :
    m.AgreeOn m' a' b' :=
  fun q hq hq' => h q (ha.trans hq) (hq'.trans_le hb)

theorem bytesAt (h : m.AgreeOn m' a b) {p k : ℕ} (ha : a ≤ p) (hb : p + k ≤ b) :
    m.bytesAt p k = m'.bytesAt p k := by
  rw [Memory.bytesAt, Memory.bytesAt]
  apply List.map_congr_left
  intro q hq
  obtain ⟨hp, hq⟩ := List.mem_range'_1.mp hq
  exact h q (ha.trans hp) (hq.trans_le hb)

theorem number (h : m.AgreeOn m' a b) (o : ByteOrder) {p k : ℕ} (ha : a ≤ p) (hb : p + k ≤ b) :
    m.number o p k = m'.number o p k := by
  rw [Memory.number, Memory.number, h.bytesAt ha hb]

/-- Bytes that stand where the memories agree. -/
theorem holds (h : m.AgreeOn m' a b) {p : ℕ} {bs : List (BitVec 8)} (hm : m'.Holds p bs)
    (ha : a ≤ p) (hb : p + bs.length ≤ b) : m.Holds p bs := by
  rw [Holds, h.bytesAt ha hb]
  exact hm

end AgreeOn

/-- The bytes of a region, put over any other memory. -/
theorem overlay_agreeOn (m m' : Memory) (n : ℕ) : (overlay (m.bytesAt 0 n) m').AgreeOn m 0 n := by
  intro q _ hq
  simp [overlay, bytesAt, hq]

theorem number_write {o : ByteOrder} (m : Memory) {p k v : ℕ} (hv : v < 256 ^ k) :
    (m.write p (o.encode k v)).number o p k = v :=
  (holds_write m p _).number hv

/-- A store of `j` bytes does not touch a number that ends before it or begins behind it. -/
theorem number_write_of_apart {o : ByteOrder} (m : Memory) {p j v q k : ℕ}
    (h : q + k ≤ p ∨ p + j ≤ q) : (m.write p (o.encode j v)).number o q k = m.number o q k :=
  (agreeOn_write m _ (by rwa [ByteOrder.length_encode])).number o le_rfl le_rfl

theorem number_zero (o : ByteOrder) (p k : ℕ) : number (fun _ => 0) o p k = 0 := by
  have hzero : ∀ k, spell k 0 = List.replicate k 0 := by
    intro k
    induction k with
    | zero => rfl
    | succ k ih =>
      rw [spell, Nat.zero_div, ih]
      rfl
  have hbytes : bytesAt (fun _ => 0) p k = o.encode k 0 := by
    cases o <;> simp [bytesAt, ByteOrder.encode, hzero]
  rw [number, hbytes, o.value_encode k 0 (Nat.pow_pos (by decide))]

end Memory

/-- A finished or interrupted run: the addresses it read, and its value if it has ended. -/
structure Walk (α : Type) where
  reads : List ℕ
  result : Option α

namespace Walk

variable {α β : Type}

/-- The second run starts when the first has ended. -/
protected def bind (w : Walk α) (f : α → Walk β) : Walk β :=
  match w.result with
  | none => ⟨w.reads, none⟩
  | some a => ⟨w.reads ++ (f a).reads, (f a).result⟩

instance : Monad Walk where
  pure a := ⟨[], some a⟩
  bind := Walk.bind

/-- A run that has used up its steps. -/
def unfinished : Walk α := ⟨[], none⟩

/-- Reads the number in `k` bytes from `p` on. -/
def load (o : ByteOrder) (m : Memory) (p k : ℕ) : Walk ℕ :=
  ⟨List.range' p k, some (m.number o p k)⟩

/-- Reads the `k` bytes from `p` on. -/
def loadBytes (m : Memory) (p k : ℕ) : Walk (List (BitVec 8)) :=
  ⟨List.range' p k, some (m.bytesAt p k)⟩

/-- The run ends with the value `a`, and reads nothing from address `n` on. -/
def Runs (w : Walk α) (n : ℕ) (a : α) : Prop := (∀ p ∈ w.reads, p < n) ∧ w.result = some a

@[simp] theorem runs_pure {n : ℕ} {a b : α} : (pure a : Walk α).Runs n b ↔ a = b := by
  simp [Runs, pure]

@[simp] theorem runs_bind {w : Walk α} {f : α → Walk β} {n : ℕ} {b : β} :
    (w >>= f).Runs n b ↔ ∃ a, w.Runs n a ∧ (f a).Runs n b := by
  obtain ⟨rs, r⟩ := w
  cases r with
  | none => simp [Runs, bind, Walk.bind]
  | some a =>
    simp only [Runs, bind, Walk.bind, List.mem_append, Option.some.injEq]
    constructor
    · intro ⟨hreads, hresult⟩
      exact ⟨a, ⟨fun p hp => hreads p (.inl hp), rfl⟩, fun p hp => hreads p (.inr hp), hresult⟩
    · rintro ⟨_, ⟨hreads, rfl⟩, hreads', hresult⟩
      exact ⟨fun p hp => hp.elim (hreads p) (hreads' p), hresult⟩

theorem Runs.unique {w : Walk α} {n : ℕ} {a b : α} (ha : w.Runs n a) (hb : w.Runs n b) :
    a = b :=
  Option.some.inj (ha.2.symm.trans hb.2)

/-- Once the value of the first run is known, only the second one matters. -/
theorem Runs.bind_iff {w : Walk α} {n : ℕ} {a : α} (h : w.Runs n a) {f : α → Walk β} {b : β} :
    (w >>= f).Runs n b ↔ (f a).Runs n b := by
  rw [runs_bind]
  constructor
  · rintro ⟨a', ha', hb⟩
    rwa [h.unique ha']
  · intro hb
    exact ⟨a, h, hb⟩

@[simp] theorem not_runs_unfinished {n : ℕ} {a : α} : ¬(unfinished : Walk α).Runs n a := by
  simp [Runs, unfinished]

/-- A read of `k + 1` bytes stays inside when its last byte does. -/
@[simp] theorem runs_load {o : ByteOrder} {m : Memory} {p k n v : ℕ} :
    (load o m p (k + 1)).Runs n v ↔ p + k < n ∧ m.number o p (k + 1) = v := by
  simp only [Runs, load, List.mem_range'_1, Option.some.injEq, and_congr_left_iff]
  intro _
  constructor
  · intro h
    exact h (p + k) (by omega)
  · intro h q hq
    omega

theorem loadBytes_runs {m : Memory} {p n : ℕ} {bs : List (BitVec 8)} (h : m.Holds p bs)
    (hn : p + bs.length ≤ n) : (loadBytes m p bs.length).Runs n bs := by
  refine ⟨fun q hq => ?_, congrArg some h⟩
  have := List.mem_range'_1.mp hq
  omega

end Walk

end MctpSerial.MemoryWalks
