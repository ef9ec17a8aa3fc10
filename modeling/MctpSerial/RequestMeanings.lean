import MctpSerial.RequestBounds

/-!
# What the requests say

A request is read back the way the receiver of a netlink message reads it: the header, the
structure that belongs to its type, and behind it the attributes, nests by their flag. Every
message that is sent says in all its fields what the call was asked for, and messages are sent
until one is accepted.
-/
namespace MctpSerial.MctpNetlink
open MemoryWalks

/-! ## Messages as values -/

def rtmGetlink : ℕ := 18

/-- What stands behind `nlmsghdr`: an `ifinfomsg`, an `ifaddrmsg` or an `rtmsg`. -/
inductive Body where
  | link (family type index flags change : ℕ)
  | addr (family prefixlen flags scope index : ℕ)
  | route (family dstLen srcLen tos table protocol scope type flags : ℕ)
  deriving DecidableEq

structure Request where
  type : ℕ
  flags : ℕ
  seq : ℕ
  pid : ℕ
  body : Body
  attributes : Forest
  deriving DecidableEq

/-- A number in a message: its place, its size in bytes, and its value. -/
structure Field where
  place : ℕ
  size : ℕ
  value : ℕ

namespace Body

def size : Body → ℕ
  | link .. => ifinfomsgSize
  | addr .. => ifaddrmsgSize
  | route .. => rtmsgSize

def fields : Body → List Field
  | link family type index flags change =>
    [⟨16, 1, family⟩, ⟨18, 2, type⟩, ⟨20, 4, index⟩, ⟨24, 4, flags⟩, ⟨28, 4, change⟩]
  | addr family prefixlen flags scope index =>
    [⟨16, 1, family⟩, ⟨17, 1, prefixlen⟩, ⟨18, 1, flags⟩, ⟨19, 1, scope⟩, ⟨20, 4, index⟩]
  | route family dstLen srcLen tos table protocol scope type flags =>
    [⟨16, 1, family⟩, ⟨17, 1, dstLen⟩, ⟨18, 1, srcLen⟩, ⟨19, 1, tos⟩, ⟨20, 1, table⟩,
      ⟨21, 1, protocol⟩, ⟨22, 1, scope⟩, ⟨23, 1, type⟩, ⟨24, 4, flags⟩]

theorem dvd_size (b : Body) : 4 ∣ b.size := by
  cases b with
  | link => exact (by decide : 4 ∣ ifinfomsgSize)
  | addr => exact (by decide : 4 ∣ ifaddrmsgSize)
  | route => exact (by decide : 4 ∣ rtmsgSize)

theorem le_place (b : Body) : ∀ f ∈ b.fields, headerSize ≤ f.place := by
  cases b <;> simp [fields, headerSize]

/-- The types of messages that have such a body. -/
def Belongs (type : ℕ) : Body → Prop
  | link .. => type = rtmNewlink ∨ type = rtmGetlink
  | addr .. => type = rtmNewaddr ∨ type = rtmDeladdr
  | route .. => type = rtmNewroute ∨ type = rtmDelroute

end Body

namespace Request

/-- All numbers behind `nlmsg_len`. -/
def fields (q : Request) : List Field :=
  [⟨4, 2, q.type⟩, ⟨6, 2, q.flags⟩, ⟨8, 4, q.seq⟩, ⟨12, 4, q.pid⟩] ++ q.body.fields

/-- With `NLA_F_NESTED` set on every nest. -/
def flagged (q : Request) : Request := { q with attributes := q.attributes.flagged }

/-- The fields lie behind `nlmsg_len` and before the attributes. -/
theorem field_bounds (q : Request) :
    ∀ f ∈ q.fields, 4 ≤ f.place ∧ f.place + f.size ≤ headerSize + q.body.size := by
  obtain ⟨type, flags, seq, pid, body, attributes⟩ := q
  cases body <;>
    simp [fields, Body.fields, Body.size, headerSize, ifinfomsgSize, ifaddrmsgSize, rtmsgSize]

end Request

/-! ## Reading -/

section
variable (o : ByteOrder) (m : Memory)

/-- The structure that belongs to a type; there is none for other types. -/
def readBody (type : ℕ) : Walk Body :=
  if type = rtmNewlink ∨ type = rtmGetlink then do
    let family ← Walk.load o m 16 1
    let type ← Walk.load o m 18 2
    let index ← Walk.load o m 20 4
    let flags ← Walk.load o m 24 4
    let change ← Walk.load o m 28 4
    pure (.link family type index flags change)
  else if type = rtmNewaddr ∨ type = rtmDeladdr then do
    let family ← Walk.load o m 16 1
    let prefixlen ← Walk.load o m 17 1
    let flags ← Walk.load o m 18 1
    let scope ← Walk.load o m 19 1
    let index ← Walk.load o m 20 4
    pure (.addr family prefixlen flags scope index)
  else if type = rtmNewroute ∨ type = rtmDelroute then do
    let family ← Walk.load o m 16 1
    let dstLen ← Walk.load o m 17 1
    let srcLen ← Walk.load o m 18 1
    let tos ← Walk.load o m 19 1
    let table ← Walk.load o m 20 1
    let protocol ← Walk.load o m 21 1
    let scope ← Walk.load o m 22 1
    let type ← Walk.load o m 23 1
    let flags ← Walk.load o m 24 4
    pure (.route family dstLen srcLen tos table protocol scope type flags)
  else Walk.unfinished

/-- The message in the first `len` bytes. It has no value unless attributes fill all that is
behind the body. -/
def readRequest (len : ℕ) : Walk Request := do
  if ← nlmsgOk o m 0 len then
    let l ← nlmsgLen o m 0
    let type ← nlmsgType o m 0
    let flags ← Walk.load o m 6 2
    let seq ← Walk.load o m 8 4
    let pid ← Walk.load o m 12 4
    let body ← readBody o m type
    let attributes ← walkForest o m (headerSize + body.size)
      ((l : ℤ) - (headerSize + body.size : ℕ))
    pure ⟨type, flags, seq, pid, body, attributes⟩
  else Walk.unfinished

/-- Whatever stands behind the message, reading it stays inside and gives the request. -/
def Decodes (o : ByteOrder) (msg : List (BitVec 8)) (q : Request) : Prop :=
  ∀ junk, (readRequest o (.overlay msg junk) msg.length).Runs msg.length q

end

section
variable {o : ByteOrder} {m m' : Memory} {n : ℕ} {q : Request}

/-- The numbers of a request stand in memory. -/
def FieldsAt (o : ByteOrder) (m : Memory) (fs : List Field) : Prop :=
  ∀ f ∈ fs, m.number o f.place f.size = f.value

theorem readBody_runs {type : ℕ} {body : Body} (hbelongs : body.Belongs type)
    (h : FieldsAt o m body.fields) (hn : headerSize + body.size ≤ n) :
    (readBody o m type).Runs n body := by
  cases body with
  | link family t index flags change =>
    have hlink : type = rtmNewlink ∨ type = rtmGetlink := hbelongs
    simp only [FieldsAt, Body.fields, List.forall_mem_cons] at h
    simp only [headerSize, Body.size, ifinfomsgSize] at hn
    rw [readBody, if_pos hlink]
    simp [h]
    omega
  | addr family prefixlen flags scope index =>
    have haddr : type = rtmNewaddr ∨ type = rtmDeladdr := hbelongs
    have hlink : ¬(type = rtmNewlink ∨ type = rtmGetlink) := by
      rcases haddr with rfl | rfl <;> decide
    simp only [FieldsAt, Body.fields, List.forall_mem_cons] at h
    simp only [headerSize, Body.size, ifaddrmsgSize] at hn
    rw [readBody, if_neg hlink, if_pos haddr]
    simp [h]
    omega
  | route family dstLen srcLen tos table protocol scope t flags =>
    have hroute : type = rtmNewroute ∨ type = rtmDelroute := hbelongs
    have hlink : ¬(type = rtmNewlink ∨ type = rtmGetlink) := by
      rcases hroute with rfl | rfl <;> decide
    have haddr : ¬(type = rtmNewaddr ∨ type = rtmDeladdr) := by
      rcases hroute with rfl | rfl <;> decide
    simp only [FieldsAt, Body.fields, List.forall_mem_cons] at h
    simp only [headerSize, Body.size, rtmsgSize] at hn
    rw [readBody, if_neg hlink, if_neg haddr, if_pos hroute]
    simp [h]
    omega

/-- A request that can be told from the bytes of its message. -/
structure Request.Plain (q : Request) : Prop where
  belongs : q.body.Belongs q.type
  representable : q.attributes.Representable
  leaves : q.attributes.PlainLeaves
  size : q.body.size + q.attributes.size ≤ 512

/-- The draft has been completed to a request. -/
structure Means (o : ByteOrder) (d : Draft) (q : Request) : Prop where
  nlmsgLen : d.nlmsgLen o = headerSize + q.body.size + q.attributes.size
  fields : FieldsAt o d.mem q.fields
  placed : Placed o d.mem (headerSize + q.body.size) q.attributes

/-- All that is behind `nlmsg_len` is found in the message as it is in the buffer. -/
theorem Means.decodes {d : Draft} (h : Means o d q) (hq : q.Plain) :
    Decodes o (d.message o) q.flagged := by
  intro junk
  have hheader : headerSize = 16 := rfl
  have hsize := hq.size
  have hlength : (d.message o).length = headerSize + q.body.size + q.attributes.size := by
    rw [Draft.message, Memory.length_bytesAt, h.nlmsgLen]
  have hagree := d.mem.overlay_agreeOn junk (d.nlmsgLen o)
  rw [Draft.message, Memory.length_bytesAt]
  rw [h.nlmsgLen] at hagree ⊢
  generalize hn : headerSize + q.body.size + q.attributes.size = n at hagree ⊢
  generalize Memory.overlay (d.mem.bytesAt 0 n) junk = m at hagree ⊢
  have hfields : FieldsAt o m q.fields := by
    intro f hf
    obtain ⟨-, hend⟩ := q.field_bounds f hf
    rw [hagree.number o (Nat.zero_le _) (by omega)]
    exact h.fields f hf
  have hlen : m.number o 0 4 = n := by
    rw [hagree.number o le_rfl (by omega), ← hn]
    exact h.nlmsgLen
  have hforest := ((h.placed.congr hagree hq.representable (Nat.zero_le _) (by omega)
    ).forestTurns_runs hq.representable hq.leaves (le_of_eq hn) le_rfl)
  have hat : MessageAt o m 0 n := by
    rw [MessageAt, hlen]
    omega
  have hok : (nlmsgOk o m 0 n).Runs n true := by
    have hruns := nlmsgOk_runs (o := o) (m := m) (Nat.zero_add n) (by omega)
    rwa [sizeT_natCast (by omega), decide_eq_true hat] at hruns
  have hnlmsgLen := nlmsgLen_runs (Nat.zero_add n) hat
  rw [hlen] at hnlmsgLen
  have hbody : (readBody o m q.type).Runs n q.body :=
    readBody_runs hq.belongs (fun f hf => hfields f (List.mem_append_right _ hf)) (by omega)
  have hbehind : (n : ℤ) - (headerSize + q.body.size : ℕ) = q.attributes.size := by
    omega
  simp only [FieldsAt, Request.fields, List.forall_mem_append, List.forall_mem_cons] at hfields
  obtain ⟨⟨htype, hflags, hseq, hpid, -⟩, -⟩ := hfields
  have hnlmsgType : (nlmsgType o m 0).Runs n q.type :=
    Walk.runs_load.mpr ⟨by omega, htype⟩
  have hflags' : (Walk.load o m 6 2).Runs n q.flags := Walk.runs_load.mpr ⟨by omega, hflags⟩
  have hseq' : (Walk.load o m 8 4).Runs n q.seq := Walk.runs_load.mpr ⟨by omega, hseq⟩
  have hpid' : (Walk.load o m 12 4).Runs n q.pid := Walk.runs_load.mpr ⟨by omega, hpid⟩
  rw [readRequest, hok.bind_iff, if_pos rfl, hnlmsgLen.bind_iff, hnlmsgType.bind_iff,
    hflags'.bind_iff, hseq'.bind_iff, hpid'.bind_iff, hbody.bind_iff, hbehind, walkForest,
    Int.toNat_natCast, hforest.bind_iff]
  exact Walk.runs_pure.mpr rfl

/-! ## Writing -/

theorem FieldsAt.congr {fs : List Field} {a b : ℕ} (hagree : m'.AgreeOn m a b)
    (h : FieldsAt o m fs) (hbounds : ∀ f ∈ fs, a ≤ f.place ∧ f.place + f.size ≤ b) :
    FieldsAt o m' fs := by
  intro f hf
  obtain ⟨ha, hb⟩ := hbounds f hf
  rw [hagree.number o ha hb]
  exact h f hf

/-- The attributes go behind a header that is complete. -/
theorem Means.build {d : Draft} (h : Means o d q) (hnil : q.attributes = .nil) {f : Forest}
    (hrep : f.Representable) (hcap : headerSize + q.body.size + f.size ≤ d.capacity)
    (hlt : d.capacity < 2 ^ 32) : Means o (build o f d) { q with attributes := f } := by
  have hnlmsgLen := h.nlmsgLen
  rw [hnil, Forest.size, Nat.add_zero] at hnlmsgLen
  have h4 : 4 ∣ headerSize + q.body.size := Nat.dvd_add (by decide) q.body.dvd_size
  have hpos : 4 ≤ headerSize + q.body.size := Nat.le_trans (by decide) (Nat.le_add_right _ _)
  have hbuilt := build_built hnlmsgLen h4 hpos hrep hcap (by omega)
  exact ⟨hbuilt.nlmsgLen, h.fields.congr hbuilt.appends.keeps q.field_bounds, hbuilt.placed⟩

/-- A number of a header is set. -/
theorem Means.store {d : Draft} (h : Means o d q) {p k v : ℕ} {q' : Request}
    (hbody : q'.body.size = q.body.size) (hattributes : q'.attributes = q.attributes)
    (hrep : q.attributes.Representable) (hp : 4 ≤ p) (hend : p + k ≤ headerSize + q.body.size)
    (hfields : ∀ f ∈ q'.fields, (f.place = p ∧ f.size = k ∧ f.value = v ∧ v < 256 ^ k) ∨
      (f ∈ q.fields ∧ (f.place + f.size ≤ p ∨ p + k ≤ f.place))) :
    Means o (d.store p (o.encode k v)) q' := by
  have hbefore : (d.mem.write p (o.encode k v)).AgreeOn d.mem 0 4 :=
    Memory.agreeOn_write _ _ (Or.inl hp)
  have hbehind : (d.mem.write p (o.encode k v)).AgreeOn d.mem (headerSize + q.body.size)
      (headerSize + q.body.size + q.attributes.size) :=
    Memory.agreeOn_write _ _ (Or.inr (by rwa [ByteOrder.length_encode]))
  refine ⟨?_, fun f hf => ?_, ?_⟩
  · rw [hbody, hattributes, Draft.nlmsgLen, Draft.store_mem, hbefore.number o le_rfl le_rfl]
    exact h.nlmsgLen
  · rw [Draft.store_mem]
    rcases hfields f hf with ⟨hplace, hsize, hvalue, hv⟩ | ⟨hf, happart⟩
    · rw [hplace, hsize, hvalue]
      exact Memory.number_write d.mem hv
    · rw [Memory.number_write_of_apart d.mem happart]
      exact h.fields f hf
  · rw [hbody, hattributes]
    exact h.placed.congr hbehind hrep le_rfl le_rfl

/-- A number that is set beside the body leaves the body. -/
theorem header_fields {p k v : ℕ} {q' : Request} (hp : p + k ≤ headerSize)
    (hbody : q'.body = q.body)
    (hheader : ∀ f ∈ q'.fields.take 4, (f.place = p ∧ f.size = k ∧ f.value = v ∧ v < 256 ^ k) ∨
      (f ∈ q.fields ∧ (f.place + f.size ≤ p ∨ p + k ≤ f.place))) :
    ∀ f ∈ q'.fields, (f.place = p ∧ f.size = k ∧ f.value = v ∧ v < 256 ^ k) ∨
      (f ∈ q.fields ∧ (f.place + f.size ≤ p ∨ p + k ≤ f.place)) := by
  intro f hf
  rcases List.mem_append.mp hf with hf | hf
  · exact hheader f hf
  · rw [hbody] at hf
    exact Or.inr ⟨List.mem_append_right _ hf, Or.inr (hp.trans (q.body.le_place f hf))⟩

/-- The header in a new buffer, before anything of the body is set. -/
theorem nlmsghdr_means (capacity : ℕ) {type flags : ℕ} (body : Body)
    (hblank : ∀ f ∈ body.fields, f.value = 0) (htype : type < 2 ^ 16) (hflags : flags < 2 ^ 16) :
    Means o (nlmsghdr o body.size flags type (.blank capacity))
      ⟨type, flags, 0, 0, body, .nil⟩ := by
  have hsize : nlmsgLength body.size < 2 ^ 32 := by
    cases body with
    | link => exact (by decide : nlmsgLength ifinfomsgSize < 2 ^ 32)
    | addr => exact (by decide : nlmsgLength ifaddrmsgSize < 2 ^ 32)
    | route => exact (by decide : nlmsgLength rtmsgSize < 2 ^ 32)
  have hstart : Means o ((Draft.blank capacity).setNlmsgLen o (nlmsgLength body.size))
      ⟨0, 0, 0, 0, body, .nil⟩ := by
    refine ⟨?_, fun f hf => ?_, trivial⟩
    · rw [Draft.nlmsgLen_setNlmsgLen _ hsize]
      exact Nat.add_comm _ _
    · have hvalue : f.value = 0 := by
        rcases List.mem_append.mp hf with hf | hf
        · simp only [List.mem_cons, List.not_mem_nil, or_false] at hf
          rcases hf with rfl | rfl | rfl | rfl <;> rfl
        · exact hblank f hf
      have hplace := (Request.field_bounds _ f hf).1
      rw [hvalue, ← Memory.number_zero o f.place f.size]
      exact Memory.number_write_of_apart _ (Or.inr (show 0 + 4 ≤ f.place by omega))
  have hend (k : ℕ) (hk : k ≤ headerSize) : k ≤ headerSize + body.size :=
    Nat.le_trans hk (Nat.le_add_right _ _)
  have hwithFlags : Means o (((Draft.blank capacity).setNlmsgLen o (nlmsgLength body.size)).store 6
      (o.encode 2 flags)) ⟨0, flags, 0, 0, body, .nil⟩ := by
    refine hstart.store rfl rfl trivial (by decide) (hend _ (by decide)) ?_
    exact header_fields (by decide) rfl (by simpa [Request.fields] using hflags)
  refine hwithFlags.store rfl rfl trivial (by decide) (hend _ (by decide)) ?_
  exact header_fields (by decide) rfl (by simpa [Request.fields] using htype)

end

section
variable {o : ByteOrder} {d : Draft} {type fl : ℕ} {f : Forest}

theorem Means.ifinfomsg (h : Means o d ⟨type, fl, 0, 0, .link 0 0 0 0 0, .nil⟩)
    (index : BitVec 32) :
    Means o (ifinfomsg o afUnspec index d)
      ⟨type, fl, 0, 0, .link afUnspec 0 index.toNat 0 0, .nil⟩ := by
  have hlt : index.toNat < 4294967296 := index.isLt
  have hfamily : Means o (d.store headerSize (o.encode 1 afUnspec))
      ⟨type, fl, 0, 0, .link afUnspec 0 0 0 0, .nil⟩ := by
    refine h.store rfl rfl trivial (by decide)
      (show headerSize + 1 ≤ headerSize + ifinfomsgSize by decide) ?_
    simp [Request.fields, Body.fields, headerSize, afUnspec]
  refine hfamily.store rfl rfl trivial (by decide)
    (show headerSize + 4 + 4 ≤ headerSize + ifinfomsgSize by decide) ?_
  simp [Request.fields, Body.fields, headerSize, hlt]

/-- Fields of a `link` that may be set at any time. -/
theorem Means.setIfiFlags {family typ index flags change : ℕ}
    (h : Means o d ⟨type, fl, 0, 0, .link family typ index flags change, f⟩)
    (hrep : f.Representable) (flags' : BitVec 32) : Means o (setIfiFlags o flags' d)
      ⟨type, fl, 0, 0, .link family typ index flags'.toNat change, f⟩ := by
  have hlt : flags'.toNat < 4294967296 := flags'.isLt
  refine h.store rfl rfl hrep (by decide)
    (show headerSize + 8 + 4 ≤ headerSize + ifinfomsgSize by decide) ?_
  simp [Request.fields, Body.fields, headerSize, hlt]

theorem Means.setIfiChange {family typ index flags change : ℕ}
    (h : Means o d ⟨type, fl, 0, 0, .link family typ index flags change, f⟩)
    (hrep : f.Representable) (change' : BitVec 32) : Means o (setIfiChange o change' d)
      ⟨type, fl, 0, 0, .link family typ index flags change'.toNat, f⟩ := by
  have hlt : change'.toNat < 4294967296 := change'.isLt
  refine h.store rfl rfl hrep (by decide)
    (show headerSize + 12 + 4 ≤ headerSize + ifinfomsgSize by decide) ?_
  simp [Request.fields, Body.fields, headerSize, hlt]

/-- The stores of a header are taken back from the last one to the first. -/
theorem Means.ifaddrmsg (h : Means o d ⟨type, fl, 0, 0, .addr 0 0 0 0 0, .nil⟩)
    (index : BitVec 32) :
    Means o (ifaddrmsg o afMctp 0 0 index d)
      ⟨type, fl, 0, 0, .addr afMctp 0 0 0 index.toNat, .nil⟩ := by
  have hlt : index.toNat < 4294967296 := index.isLt
  have hin {p k : ℕ} (hp : p + k ≤ 24) : p + k ≤ headerSize + ifaddrmsgSize := hp
  refine Means.store (?_ : Means o _ ⟨type, fl, 0, 0, .addr afMctp 0 0 0 index.toNat, .nil⟩) rfl rfl
    trivial (by decide) (hin (by decide)) (by simp [Request.fields, Body.fields, headerSize])
  refine Means.store (?_ : Means o _ ⟨type, fl, 0, 0, .addr afMctp 0 0 0 0, .nil⟩) rfl rfl
    trivial (by decide) (hin (by decide)) (by simp [Request.fields, Body.fields, headerSize, hlt])
  refine Means.store (?_ : Means o _ ⟨type, fl, 0, 0, .addr afMctp 0 0 0 0, .nil⟩) rfl rfl
    trivial (by decide) (hin (by decide)) (by simp [Request.fields, Body.fields, headerSize])
  exact h.store rfl rfl trivial (by decide) (hin (by decide))
    (by simp [Request.fields, Body.fields, headerSize, afMctp])

theorem Means.rtmsg (h : Means o d ⟨type, fl, 0, 0, .route 0 0 0 0 0 0 0 0 0, .nil⟩) :
    Means o (rtmsg o afMctp rtTableMain rtprotBoot rtScopeUniverse rtnUnicast 0 d)
      ⟨type, fl, 0, 0, .route afMctp 0 0 0 rtTableMain rtprotBoot rtScopeUniverse rtnUnicast 0,
        .nil⟩ := by
  have hin {p k : ℕ} (hp : p + k ≤ 28) : p + k ≤ headerSize + rtmsgSize := hp
  refine Means.store (?_ : Means o _ ⟨type, fl, 0, 0, .route afMctp 0 0 0 rtTableMain rtprotBoot
      rtScopeUniverse rtnUnicast 0, .nil⟩) rfl rfl
    trivial (by decide) (hin (by decide)) (by simp [Request.fields, Body.fields, headerSize])
  refine Means.store (?_ : Means o _ ⟨type, fl, 0, 0, .route afMctp 0 0 0 rtTableMain rtprotBoot
      rtScopeUniverse 0 0, .nil⟩) rfl rfl
    trivial (by decide) (hin (by decide))
    (by simp [Request.fields, Body.fields, headerSize, rtnUnicast])
  refine Means.store (?_ : Means o _ ⟨type, fl, 0, 0, .route afMctp 0 0 0 rtTableMain rtprotBoot
      0 0 0, .nil⟩) rfl rfl
    trivial (by decide) (hin (by decide))
    (by simp [Request.fields, Body.fields, headerSize, rtScopeUniverse])
  refine Means.store (?_ : Means o _ ⟨type, fl, 0, 0, .route afMctp 0 0 0 rtTableMain 0 0 0 0,
      .nil⟩) rfl rfl
    trivial (by decide) (hin (by decide))
    (by simp [Request.fields, Body.fields, headerSize, rtprotBoot])
  refine Means.store (?_ : Means o _ ⟨type, fl, 0, 0, .route afMctp 0 0 0 0 0 0 0 0, .nil⟩) rfl rfl
    trivial (by decide) (hin (by decide))
    (by simp [Request.fields, Body.fields, headerSize, rtTableMain])
  exact h.store rfl rfl trivial (by decide) (hin (by decide))
    (by simp [Request.fields, Body.fields, headerSize, afMctp])

end

/-! ## What is asked for -/

/-- Things are tried in turn until one is accepted: those that are tried, and whether the last
of them is accepted. -/
def untilAccepted {α : Type} (accepts : ℕ → Bool) : ℕ → List α → List α × Bool
  | _, [] => ([], false)
  | i, a :: as =>
    if accepts i then ([a], true)
    else (a :: (untilAccepted accepts (i + 1) as).1, (untilAccepted accepts (i + 1) as).2)

/-- The kernel accepts the message that is sent after `i` others. -/
def Host.accepts (host : Host) (i : ℕ) : Bool := (sendNetlinkMessage (host.acks i)).1

/-- A request for a link, with the fields that are used. -/
def linkRequest (index flags change : BitVec 32) (attributes : Forest) : Request :=
  ⟨rtmNewlink, nlmFRequest ||| nlmFAck, 0, 0,
    .link afUnspec 0 index.toNat flags.toNat change.toNat, attributes⟩

/-- A request for an address, which is given twice. -/
def addrRequest (type : ℕ) (index : BitVec 32) (eid : BitVec 8) : Request :=
  ⟨type, nlmFRequest ||| nlmFAck, 0, 0, .addr afMctp 0 0 0 index.toNat,
    .leaf ifaLocal [eid] (.leaf ifaAddress [eid] .nil)⟩

/-- A request for a unicast route over an interface. -/
def routeRequest (o : ByteOrder) (flags type : ℕ) (index : BitVec 32) (destEid : BitVec 8) :
    Request :=
  ⟨type, flags, 0, 0,
    .route afMctp 0 0 0 rtTableMain rtprotBoot rtScopeUniverse rtnUnicast 0,
    .leaf rtaDst [destEid] (.leaf rtaOif (o.encode 4 index.toNat) .nil)⟩

/-- What a call asks of the kernel, in the order of its attempts. -/
def Call.asks (o : ByteOrder) (host : Host) : Call → List Request
  | setMctpInterfaceName _ newname =>
    [linkRequest host.ifindex 0 0 (.leaf iflaIfname (newname ++ [0]) .nil)]
  | setMctpInterfaceNetId _ net =>
    let curFlags := if host.flags.found then host.flags.out else 0
    [0, curFlags ||| iffUp, 0xFFFFFFFF#32].map fun mask =>
      linkRequest host.ifindex curFlags mask (netForest o net)
  | setMctpInterfaceStatus _ up =>
    [linkRequest host.ifindex (if up then iffUp else 0) iffUp .nil]
  | setMctpLocalEid _ eid => [addrRequest rtmNewaddr host.ifindex eid]
  | deleteMctpLocalEid _ eid => [addrRequest rtmDeladdr host.ifindex eid]
  | addMctpRoute _ destEid =>
    [routeRequest o (nlmFRequest ||| nlmFCreate ||| nlmFExcl ||| nlmFAck) rtmNewroute
      host.ifindex destEid]
  | removeMctpRoute _ destEid =>
    [routeRequest o (nlmFRequest ||| nlmFAck) rtmDelroute host.ifindex destEid]

/-- Without an interface or a socket nothing is tried. -/
def Host.tries {α : Type} (host : Host) (qs : List α) : List α × Bool :=
  if host.ifindex = 0 then ([], false)
  else
    match host.opening with
    | .opened => untilAccepted host.accepts 0 qs
    | _ => ([], false)

/-- The messages that a call has sent say the given requests, and it has ended as given. -/
structure Sends (o : ByteOrder) (r : Outcome) (tried : List Request × Bool) : Prop where
  sent : List.Forall₂ (fun msg q => Decodes o msg q.flagged) r.sent tried.1
  ok : r.ok = tried.2

section
variable {o : ByteOrder} {host : Host} {d : Draft} {q : Request}

theorem Sends.request {ifname : String} {r : Outcome} {qs : List Request}
    (h : Sends o r (untilAccepted host.accepts 0 qs)) :
    Sends o (request ifname host r) (host.tries qs) := by
  unfold MctpNetlink.request Host.tries
  split
  next => exact ⟨.nil, rfl⟩
  next =>
    cases host.opening with
    | opened => exact h
    | socketFailed error => exact ⟨.nil, rfl⟩
    | bindFailed error => exact ⟨.nil, rfl⟩

theorem Means.send (h : Means o d q) (hq : q.Plain) :
    Sends o (d.send o host) (untilAccepted host.accepts 0 [q]) := by
  have hsent : List.Forall₂ (fun msg q => Decodes o msg q.flagged) [d.message o] [q] :=
    .cons (h.decodes hq) .nil
  rw [untilAccepted, untilAccepted]
  split
  next haccepts => exact ⟨hsent, haccepts⟩
  next hrejects => exact ⟨hsent, Bool.eq_false_iff.mpr hrejects⟩

/-- Each turn of the loop sends the draft with a mask of its own. -/
theorem Means.tryMasks {type fl family typ index flags change mi : ℕ} {f : Forest}
    (h : Means o d ⟨type, fl, 0, 0, .link family typ index flags change, f⟩)
    (hplain : (⟨type, fl, 0, 0, .link family typ index flags change, f⟩ : Request).Plain)
    (masks : List (BitVec 32)) :
    Sends o (tryMasks o host.acks mi masks d) (untilAccepted host.accepts mi
      (masks.map fun mask =>
        ⟨type, fl, 0, 0, .link family typ index flags mask.toNat, f⟩)) := by
  induction masks generalizing d change mi with
  | nil => exact ⟨.nil, rfl⟩
  | cons mask masks ih =>
    have hmask := h.setIfiChange hplain.representable mask
    have hplain' : (⟨type, fl, 0, 0, .link family typ index flags mask.toNat, f⟩ :
        Request).Plain :=
      ⟨hplain.belongs, hplain.representable, hplain.leaves, hplain.size⟩
    have hrest : Sends o (MctpNetlink.tryMasks o host.acks (mi + 1) masks _) _ := ih hmask hplain'
    rw [MctpNetlink.tryMasks, List.map_cons, untilAccepted]
    dsimp only
    split
    next haccepts =>
      rw [if_pos (show host.accepts mi = true from haccepts)]
      exact ⟨.cons (hmask.decodes hplain') .nil, rfl⟩
    next hrejects =>
      rw [if_neg (show ¬host.accepts mi = true from hrejects)]
      exact ⟨.cons (hmask.decodes hplain') hrest.sent, hrest.ok⟩

end

section
variable {o : ByteOrder} {host : Host}

theorem link_means (capacity : ℕ) (index : BitVec 32) :
    Means o (ifinfomsg o afUnspec index (nlmsghdr o ifinfomsgSize (nlmFRequest ||| nlmFAck)
      rtmNewlink (.blank capacity))) (linkRequest index 0 0 .nil) :=
  (nlmsghdr_means capacity _ (by simp [Body.fields]) (by decide) (by decide)).ifinfomsg index

theorem linkRequest_plain {index flags change : BitVec 32} {f : Forest} (hrep : f.Representable)
    (hleaves : f.PlainLeaves) (hsize : f.size ≤ 480) :
    (linkRequest index flags change f).Plain :=
  ⟨Or.inl rfl, hrep, hleaves, by
    change 16 + f.size ≤ 512
    omega⟩

/-- The zero behind the name is the last of at most 476 bytes. -/
theorem setMctpInterfaceName_sends (oldname : String) {newname : List (BitVec 8)}
    (hname : host.ifindex ≠ 0 → host.opening = .opened → newname.length ≤ 475) :
    Sends o (setMctpInterfaceName o oldname newname host)
      (host.tries ((Call.setMctpInterfaceName oldname newname).asks o host)) := by
  by_cases hfits : newname.length ≤ 475
  · have hfixed : rtattrSize = 4 := rfl
    have hlen : (newname ++ [0]).length = newname.length + 1 := by simp
    have hcast : (newname.length : ℤ).bmod (2 ^ 32) + 1 = (newname ++ [0]).length := by
      rw [Int.bmod_eq_of_le (by omega) (by omega), hlen, Nat.cast_add, Nat.cast_one]
    have hrep : (Forest.leaf iflaIfname (newname ++ [0]) .nil).Representable :=
      ⟨by decide, by omega, trivial⟩
    have hsize : (Forest.leaf iflaIfname (newname ++ [0]) .nil).size ≤ 480 := by
      simp only [Forest.size, align, hlen, hfixed]
      omega
    have hheader := (link_means (o := o) 512 host.ifindex).setIfiChange trivial 0
    have hmeans := hheader.build rfl hrep
      (show headerSize + ifinfomsgSize + _ ≤ 512 from Nat.add_le_add_left hsize 32)
      (show 512 < 2 ^ 32 by decide)
    refine Sends.request ?_
    dsimp only
    rw [hcast]
    exact hmeans.send (linkRequest_plain hrep ⟨by decide, trivial⟩ hsize)
  · unfold setMctpInterfaceName request Host.tries
    split
    next => exact ⟨.nil, rfl⟩
    next hindex =>
      cases hopening : host.opening with
      | opened => exact absurd (hname hindex hopening) hfits
      | socketFailed error => exact ⟨.nil, rfl⟩
      | bindFailed error => exact ⟨.nil, rfl⟩

theorem netForest_representable (net : BitVec 32) : (netForest o net).Representable := by
  simp [netForest, Forest.Representable, Forest.size, align, rtattrSize, iflaAfSpec, afMctp,
    iflaMctpNet, nlaFNested]

theorem netForest_size (net : BitVec 32) : (netForest o net).size = 16 := by
  simp [netForest, Forest.size, align, rtattrSize]

theorem setMctpInterfaceNetId_sends (ifname : String) (net : BitVec 32) :
    Sends o (setMctpInterfaceNetId o ifname net host)
      (host.tries ((Call.setMctpInterfaceNetId ifname net).asks o host)) := by
  have hsize := netForest_size (o := o) net
  have hheader := (link_means (o := o) 512 host.ifindex).setIfiFlags trivial
    (if host.flags.found then host.flags.out else 0)
  have hmeans := hheader.build rfl (netForest_representable net)
    (show headerSize + ifinfomsgSize + _ ≤ 512 by rw [hsize]; decide)
    (show 512 < 2 ^ 32 by decide)
  have hplain : (linkRequest host.ifindex (if host.flags.found then host.flags.out else 0) 0
      (netForest o net)).Plain :=
    linkRequest_plain (netForest_representable net) ⟨⟨⟨by decide, trivial⟩, trivial⟩, trivial⟩
      (by rw [hsize]; decide)
  refine Sends.request ?_
  dsimp only
  rw [nlaPut_word]
  obtain ⟨hsent, hok⟩ : Sends o (MctpNetlink.tryMasks o host.acks 0 _ _) _ := hmeans.tryMasks hplain
    [0, (if host.flags.found then host.flags.out else 0) ||| iffUp, 0xFFFFFFFF#32]
  exact ⟨hsent, hok⟩

theorem setMctpInterfaceStatus_sends (ifname : String) (up : Bool) :
    Sends o (setMctpInterfaceStatus o ifname up host)
      (host.tries ((Call.setMctpInterfaceStatus ifname up).asks o host)) := by
  have hmeans := ((link_means (o := o) 256 host.ifindex).setIfiFlags trivial
    (if up then iffUp else 0)).setIfiChange trivial iffUp
  exact Sends.request (hmeans.send (linkRequest_plain trivial trivial (Nat.zero_le _)))

theorem localEid_sends {type : ℕ} (htype : type = rtmNewaddr ∨ type = rtmDeladdr)
    (ifname : String) (eid : BitVec 8) : Sends o (localEid o type ifname eid host)
      (host.tries [addrRequest type host.ifindex eid]) := by
  have hlt : type < 2 ^ 16 := by
    rcases htype with rfl | rfl <;> decide
  have hrep : (Forest.leaf ifaLocal [eid] (.leaf ifaAddress [eid] .nil)).Representable := by
    simp [Forest.Representable, rtattrSize, ifaLocal, ifaAddress]
  have hsize : (Forest.leaf ifaLocal [eid] (.leaf ifaAddress [eid] .nil)).size = 16 := by
    simp [Forest.size, align, rtattrSize]
  have hheader := (nlmsghdr_means (o := o) 256 (.addr 0 0 0 0 0) (by simp [Body.fields])
    hlt (show nlmFRequest ||| nlmFAck < 2 ^ 16 by decide)).ifaddrmsg host.ifindex
  have hmeans := hheader.build rfl hrep
    (show headerSize + ifaddrmsgSize + _ ≤ 256 by rw [hsize]; decide)
    (show 256 < 2 ^ 32 by decide)
  refine Sends.request (hmeans.send ⟨htype, hrep, ⟨by decide, by decide, trivial⟩, ?_⟩)
  change 8 + _ ≤ 512
  rw [hsize]
  decide

theorem mctpRoute_sends {flags type : ℕ} (htype : type = rtmNewroute ∨ type = rtmDelroute)
    (hflags : flags < 2 ^ 16) (ifname : String) (destEid : BitVec 8) :
    Sends o (mctpRoute o flags type ifname destEid host)
      (host.tries [routeRequest o flags type host.ifindex destEid]) := by
  have hlt : type < 2 ^ 16 := by
    rcases htype with rfl | rfl <;> decide
  have hrep : (Forest.leaf rtaDst [destEid]
      (.leaf rtaOif (o.encode 4 host.ifindex.toNat) .nil)).Representable := by
    simp [Forest.Representable, rtattrSize, rtaDst, rtaOif]
  have hsize : (Forest.leaf rtaDst [destEid]
      (.leaf rtaOif (o.encode 4 host.ifindex.toNat) .nil)).size = 16 := by
    simp [Forest.size, align, rtattrSize]
  have hheader := (nlmsghdr_means (o := o) 512 (.route 0 0 0 0 0 0 0 0 0)
    (by simp [Body.fields]) hlt hflags).rtmsg
  have hmeans := hheader.build rfl hrep
    (show headerSize + rtmsgSize + _ ≤ 512 by rw [hsize]; decide)
    (show 512 < 2 ^ 32 by decide)
  refine Sends.request ?_
  dsimp only
  rw [addAttribute, addAttribute, nlaPut_word]
  refine hmeans.send ⟨htype, hrep, ⟨by decide, by decide, trivial⟩, ?_⟩
  change 12 + _ ≤ 512
  rw [hsize]
  decide

end

theorem Call.perform_sends (o : ByteOrder) (host : Host) (call : Call)
    (hname : call.NameFits host) :
    Sends o (call.perform o host) (host.tries (call.asks o host)) := by
  cases call with
  | setMctpInterfaceName oldname newname => exact setMctpInterfaceName_sends oldname hname
  | setMctpInterfaceNetId ifname net => exact setMctpInterfaceNetId_sends ifname net
  | setMctpInterfaceStatus ifname up => exact setMctpInterfaceStatus_sends ifname up
  | setMctpLocalEid ifname eid => exact localEid_sends (Or.inl rfl) ifname eid
  | deleteMctpLocalEid ifname eid => exact localEid_sends (Or.inr rfl) ifname eid
  | addMctpRoute ifname destEid => exact mctpRoute_sends (Or.inl rfl) (by decide) ifname destEid
  | removeMctpRoute ifname destEid =>
    exact mctpRoute_sends (Or.inr rfl) (by decide) ifname destEid

/-- The request that `getInterfaceFlags` and `getMctpInterfaceNetId` send. -/
def linkQuery (o : ByteOrder) (index : BitVec 32) : Draft :=
  ifinfomsg o afUnspec index (nlmsghdr o ifinfomsgSize nlmFRequest rtmGetlink (.blank 8192))

/-- Every message that a call sends, and the query, is read back without a look behind its
end as what is asked for, in all its fields. The requests of a call are tried in turn until
one is accepted, and it returns whether one was. Names of 476 bytes and more are left out. -/
theorem requests_say_what_is_asked (o : ByteOrder) (host : Host) (call : Call)
    (hname : call.NameFits host) :
    Sends o (call.perform o host) (host.tries (call.asks o host)) ∧
      Decodes o ((linkQuery o host.ifindex).message o)
        ⟨rtmGetlink, nlmFRequest, 0, 0, .link afUnspec 0 host.ifindex.toNat 0 0, .nil⟩ := by
  refine ⟨call.perform_sends o host hname, ?_⟩
  have hmeans := (nlmsghdr_means (o := o) 8192 (.link 0 0 0 0 0) (by simp [Body.fields])
    (show rtmGetlink < 2 ^ 16 by decide) (show nlmFRequest < 2 ^ 16 by decide)).ifinfomsg
      host.ifindex
  exact hmeans.decodes ⟨Or.inr rfl, trivial, trivial, by change 16 + 0 ≤ 512; decide⟩

/-- A kernel that does not accept the first message it gets. -/
def reluctantHost : Host where
  ifindex := 4
  opening := .opened
  flags := ⟨true, iffUp, []⟩
  acks := fun i => .received nlmsgError (if i = 0 then -22 else 0) "Invalid argument"

/-- The longest name that fits, and a network id that is accepted with the second mask. -/
theorem requests_say_what_is_asked_sample :
    Sends .little ((Call.setMctpInterfaceName "mctpserial0" (List.replicate 475 0x61#8)).perform
      .little willingHost)
      ([linkRequest 4 0 0 (.leaf iflaIfname (List.replicate 475 0x61#8 ++ [0]) .nil)], true) ∧
    Sends .little ((Call.setMctpInterfaceNetId "mctp0" 7).perform .little reluctantHost)
      ([linkRequest 4 1 0 (netForest .little 7), linkRequest 4 1 1 (netForest .little 7)], true) :=
  ⟨(requests_say_what_is_asked .little willingHost
      (.setMctpInterfaceName "mctpserial0" (List.replicate 475 0x61#8))
      fun _ _ => (List.length_replicate).le).1,
    (requests_say_what_is_asked .little reluctantHost (.setMctpInterfaceNetId "mctp0" 7)
      trivial).1⟩

end MctpSerial.MctpNetlink
