import Mathlib.Data.Nat.Bitwise
import MctpSerial.NetlinkDrafts

/-!
# Attributes built and read back

Attributes that stand one behind the other form a forest, since a nest has attributes in its
payload. Built behind the headers of a message, a forest is what a walk with `RTA_OK` and
`RTA_NEXT` finds there: the payload of each nest is filled by its children, and no bytes
remain behind the last attribute of any level.
-/
namespace MctpSerial.MctpNetlink
open MemoryWalks

/-- Attributes one behind the other. A nest has attributes in its payload. -/
inductive Forest where
  | nil
  | leaf (type : ℕ) (payload : List (BitVec 8)) (rest : Forest)
  | nest (type : ℕ) (children rest : Forest)
  deriving DecidableEq

namespace Forest

/-- The bytes that the attributes take up. -/
def size : Forest → ℕ
  | nil => 0
  | leaf _ payload rest => align (rtattrSize + payload.length) + rest.size
  | nest _ children rest => rtattrSize + children.size + rest.size

/-- Types and lengths have room in their 16 bits, and the type of a nest in 15. -/
def Representable : Forest → Prop
  | nil => True
  | leaf type payload rest =>
    type < 2 ^ 16 ∧ rtattrSize + payload.length < 2 ^ 16 ∧ rest.Representable
  | nest type children rest =>
    type < nlaFNested ∧ rtattrSize + children.size < 2 ^ 16 ∧ children.Representable ∧
      rest.Representable

/-- The forest with `NLA_F_NESTED` set on every nest. -/
def flagged : Forest → Forest
  | nil => nil
  | leaf type payload rest => leaf type payload rest.flagged
  | nest type children rest => nest (type ||| nlaFNested) children.flagged rest.flagged

/-- No leaf has the flag of a nest. -/
def PlainLeaves : Forest → Prop
  | nil => True
  | leaf type _ rest => type < nlaFNested ∧ rest.PlainLeaves
  | nest _ children rest => children.PlainLeaves ∧ rest.PlainLeaves

instance : (f : Forest) → Decidable f.Representable
  | nil => inferInstanceAs (Decidable True)
  | leaf _ _ rest =>
    have : Decidable rest.Representable := instDecidableRepresentable rest
    inferInstanceAs (Decidable (_ ∧ _ ∧ rest.Representable))
  | nest _ children rest =>
    have : Decidable children.Representable := instDecidableRepresentable children
    have : Decidable rest.Representable := instDecidableRepresentable rest
    inferInstanceAs (Decidable (_ ∧ _ ∧ children.Representable ∧ rest.Representable))

theorem dvd_size (f : Forest) : 4 ∣ f.size := by
  induction f with
  | nil => exact dvd_zero 4
  | leaf type payload rest ih => exact Nat.dvd_add (dvd_align _) ih
  | nest type children rest ihc ih => exact Nat.dvd_add (Nat.dvd_add (dvd_refl 4) ihc) ih

end Forest

/-! ## Building -/

/-- `nlaPut` for each leaf, `nlaNestStart` and `nlaNestEnd` around the children of a nest. -/
def build (o : ByteOrder) : Forest → Draft → Draft
  | .nil, d => d
  | .leaf type payload rest, d => build o rest (nlaPut o type payload payload.length d)
  | .nest type children rest, d =>
    let (d, start) := nlaNestStart o type d
    build o rest (nlaNestEnd o start (build o children d))

/-- The forest stands at `p`. -/
def Placed (o : ByteOrder) (m : Memory) : ℕ → Forest → Prop
  | _, .nil => True
  | p, .leaf type payload rest =>
    m.Holds p (rtattr o (rtattrSize + payload.length) type ++ payload) ∧
      Placed o m (p + align (rtattrSize + payload.length)) rest
  | p, .nest type children rest =>
    m.Holds p (rtattr o (rtattrSize + children.size) (type ||| nlaFNested)) ∧
      Placed o m (p + rtattrSize) children ∧ Placed o m (p + rtattrSize + children.size) rest

section
variable {o : ByteOrder} {m m' : Memory} {n : ℕ} {f : Forest} {d : Draft}

/-- Only the bytes of the forest matter. -/
theorem Placed.congr {p a b : ℕ} (hagree : m.AgreeOn m' a b) (h : Placed o m' p f)
    (hrep : f.Representable) (ha : a ≤ p) (hb : p + f.size ≤ b) : Placed o m p f := by
  have hfixed : rtattrSize = 4 := rfl
  induction f generalizing p with
  | nil => trivial
  | leaf type payload rest ih =>
    obtain ⟨-, hlen, hrest⟩ := hrep
    have halign := le_align_of_lt hlen
    rw [Forest.size] at hb
    refine ⟨hagree.holds h.1 ha ?_, ih h.2 hrest (by omega) (by omega)⟩
    rw [List.length_append, length_rtattr]
    omega
  | nest type children rest ihc ih =>
    obtain ⟨-, -, hchildren, hrest⟩ := hrep
    rw [Forest.size] at hb
    refine ⟨hagree.holds h.1 ha ?_, ihc h.2.1 hchildren (by omega) (by omega),
      ih h.2.2 hrest (by omega) (by omega)⟩
    rw [length_rtattr]
    omega

/-- What building a forest comes to. -/
structure Built (o : ByteOrder) (n : ℕ) (f : Forest) (d d' : Draft) : Prop where
  nlmsgLen : d'.nlmsgLen o = n + f.size
  placed : Placed o d'.mem n f
  appends : Appends n d d'

/-- A nest around children that have been built. Its header is complete once it is closed, and
its children are as they were. -/
theorem nest_built {type : ℕ} {children : Forest} (hn : d.nlmsgLen o = n) (h4 : 4 ∣ n)
    (hpos : 4 ≤ n) (hrep : children.Representable) (hlen : rtattrSize + children.size < 2 ^ 16)
    (hcap : n + rtattrSize + children.size ≤ d.capacity)
    (hlt : n + rtattrSize + children.size < 2 ^ 32)
    (hbuilt : Built o (n + rtattrSize) children (nlaNestStart o type d).1
      (build o children (nlaNestStart o type d).1)) :
    let d' := nlaNestEnd o n (build o children (nlaNestStart o type d).1)
    d'.nlmsgLen o = n + rtattrSize + children.size ∧
      d'.mem.Holds n (rtattr o (rtattrSize + children.size) (type ||| nlaFNested)) ∧
      Placed o d'.mem (n + rtattrSize) children ∧ Appends n d d' := by
  have hfixed : rtattrSize = 4 := rfl
  obtain ⟨-, -, htype, hstart⟩ :=
    nlaNestStart_appends type hn h4 hpos (by omega) (by omega)
  obtain ⟨hnlmsgLen, hrtaLen, hkeeps, hend⟩ := nlaNestEnd_appends hbuilt.nlmsgLen h4
    children.dvd_size hpos hlen
    (by rw [hbuilt.appends.capacity, hstart.capacity]; exact hcap) hlt
  have hheader : (nlaNestEnd o n (build o children (nlaNestStart o type d).1)).mem.AgreeOn
      (nlaNestStart o type d).1.mem (n + 2) (n + rtattrSize) :=
    (hkeeps.mono le_rfl (by omega)).trans (hbuilt.appends.keeps.mono (by omega) le_rfl)
  refine ⟨hnlmsgLen, ?_, hbuilt.placed.congr hkeeps hrep (by omega) le_rfl, ?_⟩
  · rw [rtattr, Memory.holds_append, ByteOrder.length_encode]
    exact ⟨hrtaLen, hheader.holds htype le_rfl (by simp [hfixed])⟩
  · exact (hstart.trans (hbuilt.appends.mono (by omega))).trans hend

theorem build_built (hn : d.nlmsgLen o = n) (h4 : 4 ∣ n) (hpos : 4 ≤ n) (hrep : f.Representable)
    (hcap : n + f.size ≤ d.capacity) (hlt : n + f.size < 2 ^ 32) : Built o n f d (build o f d) := by
  have hfixed : rtattrSize = 4 := rfl
  induction f generalizing d n with
  | nil => exact ⟨hn, trivial, .refl n d⟩
  | leaf type payload rest ih =>
    obtain ⟨htype, hlen, hrest⟩ := hrep
    rw [Forest.size] at hcap hlt
    have halign := le_align_of_lt hlen
    obtain ⟨hlen', hholds, happ⟩ :=
      nlaPut_appends type hn h4 hpos hlen (by omega) (by omega)
    have hbuilt := ih hlen' (Nat.dvd_add h4 (dvd_align _)) (by omega) hrest
      (by rw [happ.capacity]; omega) (by omega)
    refine ⟨?_, ⟨?_, hbuilt.placed⟩, happ.trans (hbuilt.appends.mono (by omega))⟩
    · rw [build, hbuilt.nlmsgLen, Forest.size, Nat.add_assoc]
    · refine hbuilt.appends.keeps.holds hholds hpos ?_
      rw [List.length_append, length_rtattr]
      omega
  | nest type children rest ihc ih =>
    obtain ⟨htype, hlen, hchildren, hrest⟩ := hrep
    rw [Forest.size] at hcap hlt
    obtain ⟨hstart, hlen1, -, happ1⟩ :=
      nlaNestStart_appends type hn h4 hpos (by omega) (by omega)
    have hinner := ihc hlen1 (by omega) (by omega) hchildren (by rw [happ1.capacity]; omega)
      (by omega)
    obtain ⟨hlen2, hheader, hplaced, happ2⟩ :=
      nest_built hn h4 hpos hchildren hlen (by omega) (by omega) hinner
    have hdvd : 4 ∣ n + rtattrSize + children.size :=
      Nat.dvd_add (by omega) children.dvd_size
    have hbuilt := ih hlen2 hdvd (by omega) hrest (by rw [happ2.capacity]; omega) (by omega)
    have hkeeps := hbuilt.appends.keeps
    rw [build]
    dsimp only
    rw [hstart]
    refine ⟨?_, ⟨?_, ?_, hbuilt.placed⟩, happ2.trans (hbuilt.appends.mono (by omega))⟩
    · rw [hbuilt.nlmsgLen, Forest.size]
      omega
    · exact hkeeps.holds hheader hpos (by rw [length_rtattr]; omega)
    · exact hplaced.congr hkeeps hchildren (by omega) le_rfl

end

/-! ## Walking -/

/-- A walk over `len` bytes from `rta` on, reading nothing from `n` on, meets the attributes
of the forest one behind the other, and the children of a nest in its payload. On every level
no bytes are left behind the last attribute. -/
inductive Recovers (o : ByteOrder) (m : Memory) (n : ℕ) : (rta : ℕ) → (len : ℤ) → Forest → Prop
  | nil {rta : ℕ} : (rtaOk o m rta 0).Runs n false → Recovers o m n rta 0 .nil
  | leaf {rta l type : ℕ} {len : ℤ} {payload : List (BitVec 8)} {rest : Forest} :
      (rtaOk o m rta len).Runs n true → (rtaType o m rta).Runs n type →
      (rtaPayload o m rta).Runs n payload.length →
      (Walk.loadBytes m (rta + rtattrSize) payload.length).Runs n payload →
      (rtaLen o m rta).Runs n l →
      Recovers o m n (rta + align l) (len - align l) rest →
      Recovers o m n rta len (.leaf type payload rest)
  | nest {rta l type : ℕ} {len payload : ℤ} {children rest : Forest} :
      (rtaOk o m rta len).Runs n true → (rtaType o m rta).Runs n type →
      (rtaPayload o m rta).Runs n payload →
      Recovers o m n (rta + rtattrSize) payload children →
      (rtaLen o m rta).Runs n l →
      Recovers o m n (rta + align l) (len - align l) rest →
      Recovers o m n rta len (.nest type children rest)

/-- A walk that goes into every attribute with the flag of a nest, for a number of turns. It
has no value when bytes are left behind the last attribute of a level. -/
def forestTurns (o : ByteOrder) (m : Memory) : (fuel rta : ℕ) → (len : ℤ) → Walk Forest
  | 0, _, _ => Walk.unfinished
  | fuel + 1, rta, len => do
    if ← rtaOk o m rta len then
      let type ← rtaType o m rta
      let payload ← rtaPayload o m rta
      let l ← rtaLen o m rta
      if type &&& nlaFNested = 0 then
        let bytes ← Walk.loadBytes m (rta + rtattrSize) payload.toNat
        let rest ← forestTurns o m fuel (rta + align l) (len - align l)
        pure (.leaf type bytes rest)
      else
        let children ← forestTurns o m fuel (rta + rtattrSize) payload
        let rest ← forestTurns o m fuel (rta + align l) (len - align l)
        pure (.nest type children rest)
    else if len = 0 then pure .nil
    else Walk.unfinished

/-- Every turn makes the length smaller, so that it bounds them. -/
def walkForest (o : ByteOrder) (m : Memory) (rta : ℕ) (len : ℤ) : Walk Forest :=
  forestTurns o m (len.toNat + 1) rta len

section
variable {o : ByteOrder} {m : Memory} {n : ℕ} {f : Forest}

theorem rtaOk_empty (rta : ℕ) : (rtaOk o m rta 0).Runs n false := by
  simp [rtaOk, rtattrSize]

/-- What the macros make of an attribute, with `l` as its length. -/
structure Reads (o : ByteOrder) (m : Memory) (n rta : ℕ) (len : ℤ) (l type : ℕ) : Prop where
  ok : (rtaOk o m rta len).Runs n true
  type : (rtaType o m rta).Runs n type
  payload : (rtaPayload o m rta).Runs n ((l : ℤ) - rtattrSize)
  len : (rtaLen o m rta).Runs n l

theorem reads_rtattr {p l type : ℕ} (len : ℕ) (hm : m.Holds p (rtattr o l type)) (htype : type < 2 ^ 16)
    (hl : l < 2 ^ 16) (hle : rtattrSize ≤ l) (hlen : l ≤ len) (hn : p + len ≤ n) :
    Reads o m n p len l type := by
  rw [rtattr, Memory.holds_append, ByteOrder.length_encode] at hm
  have hnumber : m.number o p 2 = l := hm.1.number hl
  have hfits : AttributeFits o m p len := by
    rw [AttributeFits, hnumber]
    omega
  have hread : p + rtattrSize ≤ n := by omega
  refine ⟨?_, ?_, ?_, ?_⟩
  · rw [← decide_eq_true hfits]
    exact rtaOk_runs (by omega)
  · rw [← hm.2.number htype]
    exact rtaType_runs hread
  · rw [← hnumber]
    exact rtaPayload_runs hread
  · rw [← hnumber]
    exact rtaLen_runs hread

theorem flagged_type_lt {type : ℕ} (h : type < nlaFNested) : type ||| nlaFNested < 2 ^ 16 :=
  Nat.or_lt_two_pow (h.trans (by decide)) (by decide)

theorem and_flag_of_lt {type : ℕ} (h : type < nlaFNested) : type &&& nlaFNested = 0 := by
  have hflag : nlaFNested = 2 ^ 15 := rfl
  rw [hflag] at h ⊢
  rw [Nat.and_two_pow, Nat.testBit_lt_two_pow h, Bool.toNat_false, Nat.zero_mul]

theorem or_flag_and_flag (type : ℕ) : (type ||| nlaFNested) &&& nlaFNested = nlaFNested := by
  have hflag : nlaFNested = 2 ^ 15 := rfl
  rw [hflag, Nat.and_two_pow, Nat.testBit_or, Nat.testBit_two_pow_self, Bool.or_true,
    Bool.toNat_true, Nat.one_mul]

theorem Placed.leaf_reads {p type : ℕ} {payload : List (BitVec 8)} {rest : Forest}
    (h : Placed o m p (.leaf type payload rest))
    (hrep : (Forest.leaf type payload rest).Representable)
    (hn : p + (Forest.leaf type payload rest).size ≤ n) :
    Reads o m n p (Forest.leaf type payload rest).size (rtattrSize + payload.length) type ∧
      (Walk.loadBytes m (p + rtattrSize) payload.length).Runs n payload := by
  have hfixed : rtattrSize = 4 := rfl
  obtain ⟨htype, hlen, -⟩ := hrep
  have hattr := h.1
  have halign := le_align_of_lt hlen
  rw [Memory.holds_append, length_rtattr] at hattr
  rw [Forest.size] at hn ⊢
  exact ⟨reads_rtattr _ hattr.1 htype hlen (by omega) (by omega) hn,
    Walk.loadBytes_runs hattr.2 (by omega)⟩

theorem Placed.nest_reads {p type : ℕ} {children rest : Forest}
    (h : Placed o m p (.nest type children rest))
    (hrep : (Forest.nest type children rest).Representable)
    (hn : p + (Forest.nest type children rest).size ≤ n) :
    Reads o m n p (Forest.nest type children rest).size (rtattrSize + children.size)
      (type ||| nlaFNested) := by
  obtain ⟨htype, hlen, -, -⟩ := hrep
  rw [Forest.size] at hn ⊢
  exact reads_rtattr _ h.1 (flagged_type_lt htype) hlen (by omega) (by omega) hn

theorem align_nest {children : Forest} (hlen : rtattrSize + children.size < 2 ^ 16) :
    align (rtattrSize + children.size) = rtattrSize + children.size :=
  align_of_dvd (Nat.dvd_add (by decide) children.dvd_size) (by omega)

theorem Placed.recovers {p : ℕ} (h : Placed o m p f) (hrep : f.Representable)
    (hn : p + f.size ≤ n) : Recovers o m n p f.size f.flagged := by
  induction f generalizing p with
  | nil => exact .nil (rtaOk_empty p)
  | leaf type payload rest ih =>
    obtain ⟨hreads, hbytes⟩ := h.leaf_reads hrep hn
    rw [Forest.size] at hreads hn ⊢
    refine .leaf hreads.ok hreads.type ?_ hbytes hreads.len ?_
    · simpa using hreads.payload
    · simpa using ih h.2 hrep.2.2 (by omega)
  | nest type children rest ihc ih =>
    have hreads := h.nest_reads hrep hn
    obtain ⟨-, hinner, hplaced⟩ := h
    obtain ⟨-, hlen, hchildren, hrest⟩ := hrep
    rw [Forest.size] at hreads hn ⊢
    refine .nest hreads.ok hreads.type hreads.payload ?_ hreads.len ?_
    · simpa using ihc hinner hchildren (by omega)
    · rw [align_nest hlen, ← Nat.add_assoc]
      simpa using ih hplaced hrest (by omega)

/-- The walk that looks at the flags takes every turn that there is. -/
theorem Placed.forestTurns_runs {p fuel : ℕ} (h : Placed o m p f) (hrep : f.Representable)
    (hplain : f.PlainLeaves) (hn : p + f.size ≤ n) (hfuel : f.size ≤ fuel) :
    (forestTurns o m (fuel + 1) p f.size).Runs n f.flagged := by
  have hfixed : rtattrSize = 4 := rfl
  induction f generalizing p fuel with
  | nil =>
    rw [forestTurns, Forest.size, Nat.cast_zero, (rtaOk_empty p).bind_iff]
    exact Walk.runs_pure.mpr rfl
  | leaf type payload rest ih =>
    obtain ⟨hreads, hbytes⟩ := h.leaf_reads hrep hn
    have halign := le_align_of_lt hrep.2.1
    rw [Forest.size] at hreads hn hfuel ⊢
    obtain ⟨fuel, rfl⟩ : ∃ k, fuel = k + 1 := ⟨fuel - 1, by omega⟩
    have hpayload : (((rtattrSize + payload.length : ℕ) : ℤ) - rtattrSize).toNat =
        payload.length := by
      omega
    have hbehind : ((align (rtattrSize + payload.length) + rest.size : ℕ) : ℤ) -
        align (rtattrSize + payload.length) = rest.size := by
      rw [Nat.cast_add, add_sub_cancel_left]
    have hrest : (forestTurns o m (fuel + 1) (p + align (rtattrSize + payload.length))
        rest.size).Runs n rest.flagged :=
      ih h.2 hrep.2.2 hplain.2 (by omega) (by omega)
    rw [forestTurns, hreads.ok.bind_iff, if_pos rfl, hreads.type.bind_iff,
      hreads.payload.bind_iff, hreads.len.bind_iff, if_pos (and_flag_of_lt hplain.1), hpayload,
      hbytes.bind_iff, hbehind, hrest.bind_iff, Walk.runs_pure, Forest.flagged]
  | nest type children rest ihc ih =>
    have hreads := h.nest_reads hrep hn
    obtain ⟨-, hinner, hplaced⟩ := h
    obtain ⟨-, hlen, hchildren, hrest⟩ := hrep
    rw [Forest.size] at hreads hn hfuel ⊢
    obtain ⟨fuel, rfl⟩ : ∃ k, fuel = k + 1 := ⟨fuel - 1, by omega⟩
    have hflag : ¬((type ||| nlaFNested) &&& nlaFNested = 0) := by
      rw [or_flag_and_flag]
      decide
    have hpayload : ((rtattrSize + children.size : ℕ) : ℤ) - rtattrSize = children.size := by
      rw [Nat.cast_add, add_sub_cancel_left]
    have hbehind : ((rtattrSize + children.size + rest.size : ℕ) : ℤ) -
        (rtattrSize + children.size : ℕ) = rest.size := by
      rw [Nat.cast_add, add_sub_cancel_left]
    have hinner' : (forestTurns o m (fuel + 1) (p + rtattrSize) children.size).Runs n
        children.flagged :=
      ihc hinner hchildren hplain.1 (by omega) (by omega)
    have hrest' : (forestTurns o m (fuel + 1) (p + rtattrSize + children.size) rest.size).Runs n
        rest.flagged :=
      ih hplaced hrest hplain.2 (by omega) (by omega)
    rw [forestTurns, hreads.ok.bind_iff, if_pos rfl, hreads.type.bind_iff,
      hreads.payload.bind_iff, hreads.len.bind_iff, if_neg hflag, hpayload, hinner'.bind_iff,
      align_nest hlen, hbehind, ← Nat.add_assoc, hrest'.bind_iff, Walk.runs_pure, Forest.flagged]

end

/-- A forest that is built behind the headers of a message is read back as it was given, with
the nests flagged: by a walk that knows the nests, and by one that tells them by their flag.
Every store is inside the buffer, and `nlmsg_len` is a multiple of four all the while. -/
theorem attributes_round_trip (o : ByteOrder) (f : Forest) (d : Draft) (hdr : ℕ)
    (hhdr : d.nlmsgLen o = hdr) (haligned : 4 ∣ hdr) (hsize : headerSize ≤ hdr)
    (hrep : f.Representable) (hcap : hdr + f.size ≤ d.capacity) (hlt : hdr + f.size < 2 ^ 32) :
    let d' := build o f d
    let len := d'.nlmsgLen o
    len = hdr + f.size ∧
      Recovers o d'.mem len hdr ((len : ℤ) - hdr) f.flagged ∧
      (f.PlainLeaves → (walkForest o d'.mem hdr ((len : ℤ) - hdr)).Runs len f.flagged) ∧
      ∃ es, d'.effects = d.effects ++ es ∧ ∀ e ∈ es, e.Within d.capacity ∧ e.Aligned := by
  have hfixed : headerSize = 16 := rfl
  have hbuilt := build_built hhdr haligned (by omega) hrep hcap hlt
  intro d' len
  have hlen : len = hdr + f.size := hbuilt.nlmsgLen
  have hbehind : (len : ℤ) - hdr = f.size := by
    rw [hlen, Nat.cast_add, add_sub_cancel_left]
  rw [hbehind, hlen]
  refine ⟨rfl, hbuilt.placed.recovers hrep le_rfl, fun hplain => ?_, hbuilt.appends.effects⟩
  rw [walkForest, Int.toNat_natCast]
  exact hbuilt.placed.forestTurns_runs hrep hplain le_rfl le_rfl

/-- Two nests, one inside the other, and a name of three bytes behind them. -/
def sampleForest : Forest :=
  .nest iflaAfSpec (.nest afMctp (.leaf iflaMctpNet [7, 0, 0, 0] .nil) .nil)
    (.leaf iflaIfname [0x6D, 0x30, 0] .nil)

theorem attributes_round_trip_sample :
    let d := (Draft.blank 512).setNlmsgLen .little (32 : ℕ)
    let d' := build .little sampleForest d
    let len := d'.nlmsgLen .little
    len = 32 + sampleForest.size ∧
      Recovers .little d'.mem len 32 ((len : ℤ) - 32) sampleForest.flagged ∧
      (walkForest .little d'.mem 32 ((len : ℤ) - 32)).Runs len sampleForest.flagged ∧
      ∃ es, d'.effects = d.effects ++ es ∧ ∀ e ∈ es, e.Within d.capacity ∧ e.Aligned := by
  have hplain : sampleForest.PlainLeaves :=
    ⟨⟨⟨by decide, trivial⟩, trivial⟩, by decide, trivial⟩
  obtain ⟨hlen, hrecovers, hwalk, heffects⟩ := attributes_round_trip .little sampleForest
    ((Draft.blank 512).setNlmsgLen .little (32 : ℕ)) 32 (Draft.nlmsgLen_setNlmsgLen _ (by decide))
    (by decide) (by decide) (by decide) (by decide) (by decide)
  exact ⟨hlen, hrecovers, hwalk hplain, heffects⟩

end MctpSerial.MctpNetlink
