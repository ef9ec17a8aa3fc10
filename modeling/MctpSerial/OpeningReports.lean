import MctpSerial.FramerSessions
import MctpSerial.GuardedRuns

/-!
# What the result of an opening call tells

Callers of `open` and `openFd` look at the sign of the result alone. Two slips make it
lie: `open` reports a device that cannot be opened by `return false`, which is the
descriptor 0, and both calls take a session on descriptor 0 for none at all. A third one
concerns what is left behind when the receive thread cannot be created. `Sane` describes
the framer between calls that heed these three.
-/
namespace MctpSerial.MctpFramer
open GuardedRuns

/-- A session: a serial descriptor, the flag for the receive thread, and that it was started.
Whether the thread comes to read anything is a matter of `Receives`. -/
def Active (f : MctpFramer) : Prop :=
  0 ≤ f.serialFd ∧ f.running = true ∧ f.recvThread = true

instance (f : MctpFramer) : Decidable f.Active := inferInstanceAs (Decidable (_ ∧ _ ∧ _))

/-- A call made on a framer; `thread` says whether a receive thread can be created. -/
inductive Call where
  | opening (call : OpenCall) (os : OpenCalls) (thread : Bool)
  | close

/-- The pipes that a call needs exist or can be made. -/
def HasPipes (f : MctpFramer) (os : OpenCalls) : Prop :=
  (0 ≤ f.pipeFds.1 ∨ os.socketpair ≠ none) ∧ (0 ≤ f.intrPipeFds.1 ∨ os.pipe ≠ none)

instance (f : MctpFramer) (os : OpenCalls) : Decidable (f.HasPipes os) :=
  inferInstanceAs (Decidable ((_ ∨ _) ∧ (_ ∨ _)))

/-- What else a call asks for before it starts the thread. -/
def OpenCall.Configures : OpenCall → OpenCalls → Prop
  | .openPath, os => os.tcgetattr = true ∧ os.tcsetattr = true
  | .openFd fd, _ => 0 ≤ fd

instance (call : OpenCall) (os : OpenCalls) : Decidable (call.Configures os) :=
  match call with
  | .openPath => inferInstanceAs (Decidable (_ ∧ _))
  | .openFd _ => inferInstanceAs (Decidable (_ ≤ _))

/-- The call gets as far as starting the receive thread. -/
def Reaches (f : MctpFramer) (call : OpenCall) (os : OpenCalls) : Prop :=
  f.serialFd ≤ 0 ∧ f.HasPipes os ∧ os.serial ≠ none ∧ call.Configures os

instance (f : MctpFramer) (call : OpenCall) (os : OpenCalls) : Decidable (f.Reaches call os) :=
  inferInstanceAs (Decidable (_ ∧ _ ∧ _ ∧ _))

/-- An opening call and the value it returns. When the thread cannot be created the
constructor of `std::thread` throws out of the call, with all other fields set. -/
def perform (f : MctpFramer) (call : OpenCall) (os : OpenCalls) (thread : Bool) :
    MctpFramer × Option ℤ :=
  if thread = false ∧ f.Reaches call os then
    ({ (call.apply f os).1 with recvThread := f.recvThread, terminated := f.terminated }, none)
  else ((call.apply f os).1, some (call.apply f os).2)

/-- A framer that has overwritten a joinable thread has ended its process. -/
def step (f : MctpFramer) : Call → Option MctpFramer
  | .opening call os thread => if f.terminated then none else some (f.perform call os thread).1
  | .close => if f.terminated then none else some f.close

/-- The returned value is that of a success. -/
def Succeeds (ret : Option ℤ) : Prop := ∃ v, ret = some v ∧ 0 ≤ v

/-- The call returns a non-negative value exactly when it started a session; it rejects and
leaves alone a session that is active, and after a failure a session can still be started. -/
def Truthful (f : MctpFramer) : Call → Prop
  | .opening call os thread =>
    let r := f.perform call os thread
    (Succeeds r.2 ↔ ¬ f.Active ∧ r.1.Active) ∧
      (f.Active → (∃ v, r.2 = some v ∧ v < 0) ∧ r.1 = f) ∧
      (¬ f.Active → ¬ Succeeds r.2 → ¬ r.1.Active ∧
        ∃ later os', Opened (OpenCall.apply later r.1 os'))
  | .close => True

/-- The call gives up before it assigns a descriptor. -/
def OpenCall.Rejects : OpenCall → OpenCalls → Prop
  | .openPath, _ => False
  | .openFd fd, os => fd < 0 ∨ os.serial = none

/-- Without a session a device path that gets as far as `::open` can be opened, and a thread
that is needed can be created, the descriptor 0 aside; with a session its descriptor is not
0, unless the call fails anyway. -/
def Heeds (f : MctpFramer) : Call → Prop
  | .opening call os thread =>
    (¬ f.Active → (call = .openPath → f.HasPipes os → os.serial ≠ none) ∧
      (thread = false → f.Reaches call os → os.serial = some 0)) ∧
      (f.Active → f.serialFd = 0 → call.Rejects os)
  | .close => True

/-- A framer with a receive thread has all a session needs, and one without has no
descriptor that the guard of the calls would notice. -/
structure Sane (f : MctpFramer) : Prop where
  session : f.recvThread = true → f.running = true ∧ 0 ≤ f.serialFd ∧
    0 ≤ f.pipeFds.1 ∧ 0 ≤ f.intrPipeFds.1
  rest : f.recvThread = false → f.serialFd ≤ 0
  alive : f.terminated = false

theorem sane_init : Sane init := ⟨nofun, fun _ => by decide, rfl⟩

theorem Sane.active_iff {f : MctpFramer} (h : Sane f) : f.Active ↔ f.recvThread = true :=
  ⟨fun hact => hact.2.2, fun ht => ⟨(h.session ht).2.1, (h.session ht).1, ht⟩⟩

theorem not_active {f : MctpFramer} (h : f.recvThread = false) : ¬ f.Active := fun hact => by
  rw [hact.2.2] at h
  cases h

theorem Sane.of_rest {f : MctpFramer} (hthread : f.recvThread = false) (hserial : f.serialFd ≤ 0)
    (halive : f.terminated = false) : Sane f := by
  refine ⟨fun ht => ?_, fun _ => hserial, halive⟩
  rw [hthread] at ht
  cases ht

theorem sane_close {f : MctpFramer} (h : Sane f) : Sane f.close := by
  refine .of_rest ?_ (by decide : (-1 : ℤ) ≤ 0) h.alive
  cases ht : f.recvThread with
  | false => simp [close, ht]
  | true => simp [close, (h.session ht).1]

section Pipes

variable {f : MctpFramer} {os : OpenCalls}

theorem openPipes_held (hp : 0 ≤ f.pipeFds.1) (hi : 0 ≤ f.intrPipeFds.1) :
    f.openPipes os = (f, true) := by
  simp [openPipes, not_lt.mpr hp, not_lt.mpr hi]

/-- What becomes of the pipes. -/
theorem openPipes_spec (f : MctpFramer) (os : OpenCalls) :
    ((f.openPipes os).2 = true ∧ f.HasPipes os ∧
      0 ≤ (f.openPipes os).1.pipeFds.1 ∧ 0 ≤ (f.openPipes os).1.intrPipeFds.1) ∨
    ((f.openPipes os).2 = false ∧ ¬ f.HasPipes os) := by
  by_cases hp : f.pipeFds.1 < 0
  · cases hs : os.socketpair with
    | none =>
      refine Or.inr ⟨by simp [openPipes, hp, hs], fun h => ?_⟩
      exact h.1.elim (not_le.mpr hp) fun hne => hne hs
    | some ab =>
      by_cases hi : f.intrPipeFds.1 < 0
      · cases hpipe : os.pipe with
        | none =>
          refine Or.inr ⟨by simp [openPipes, hp, hs, hi, hpipe], fun h => ?_⟩
          exact h.2.elim (not_le.mpr hi) fun hne => hne hpipe
        | some cd =>
          exact Or.inl ⟨by simp [openPipes, hp, hs, hi, hpipe],
            ⟨Or.inr (by simp [hs]), Or.inr (by simp [hpipe])⟩,
            by simp [openPipes, hp, hs, hi, hpipe], by simp [openPipes, hp, hs, hi, hpipe]⟩
      · exact Or.inl ⟨by simp [openPipes, hp, hs, hi],
          ⟨Or.inr (by simp [hs]), Or.inl (not_lt.mp hi)⟩, by simp [openPipes, hp, hs, hi],
          by simpa [openPipes, hp, hs, hi] using not_lt.mp hi⟩
  · by_cases hi : f.intrPipeFds.1 < 0
    · cases hpipe : os.pipe with
      | none =>
        refine Or.inr ⟨by simp [openPipes, hp, hi, hpipe], fun h => ?_⟩
        exact h.2.elim (not_le.mpr hi) fun hne => hne hpipe
      | some cd =>
        exact Or.inl ⟨by simp [openPipes, hp, hi, hpipe],
          ⟨Or.inl (not_lt.mp hp), Or.inr (by simp [hpipe])⟩,
          by simpa [openPipes, hp, hi, hpipe] using not_lt.mp hp, by simp [openPipes, hp, hi, hpipe]⟩
    · rw [openPipes_held (not_lt.mp hp) (not_lt.mp hi)]
      exact Or.inl ⟨rfl, ⟨Or.inl (not_lt.mp hp), Or.inl (not_lt.mp hi)⟩, not_lt.mp hp, not_lt.mp hi⟩

end Pipes

/-- What a call can come to on a framer without a thread: it fails and leaves none, it
starts one, or it is the path that cannot be opened. -/
inductive Result (f : MctpFramer) (call : OpenCall) (os : OpenCalls) (r : MctpFramer × ℤ) : Prop
  | failed (hret : r.2 < 0) (hthread : r.1.recvThread = false) (hsane : Sane r.1)
      (hno : ¬ f.Reaches call os) (hG : call = .openPath → f.HasPipes os → os.serial ≠ none)
  | started (hret : 0 ≤ r.2) (hthread : r.1.recvThread = true) (hsane : Sane r.1)
      (hserial : r.1.serialFd = fdOf os.serial) (hreach : f.Reaches call os)
  | unopened (hret : r.2 = 0) (hthread : r.1.recvThread = false) (hcall : call = .openPath)
      (hpipes : f.HasPipes os) (hserial : os.serial = none)

section Calls

variable {f : MctpFramer} {os : OpenCalls}

theorem startSession_nonneg (hp : 0 ≤ f.pipeFds.1) : 0 ≤ (f.startSession os).2 := by
  have hret (d : ℤ) : 0 ≤ if d ≥ 0 then d else f.pipeFds.1 := by
    split
    next h => exact h
    next => exact hp
  exact hret _

theorem Result.fail {call : OpenCall} {g : MctpFramer} (hthread : g.recvThread = false)
    (hserial : g.serialFd ≤ 0) (halive : g.terminated = false) (hno : ¬ f.Reaches call os)
    (hG : call = .openPath → f.HasPipes os → os.serial ≠ none) : Result f call os (g, -1) :=
  .failed (by decide : (-1 : ℤ) < 0) hthread (.of_rest hthread hserial halive) hno hG

/-- `startSession` on a framer with a descriptor and pipes, and no thread yet. -/
theorem Result.start {call : OpenCall} {g : MctpFramer} (hserial : g.serialFd = fdOf os.serial)
    (hfd : 0 ≤ g.serialFd) (hthread : g.recvThread = false) (halive : g.terminated = false)
    (hp : 0 ≤ g.pipeFds.1) (hi : 0 ≤ g.intrPipeFds.1) (hreach : f.Reaches call os) :
    Result f call os (g.startSession os) := by
  refine .started (startSession_nonneg hp) rfl ⟨fun _ => ⟨rfl, hfd, hp, hi⟩, nofun, ?_⟩ hserial
    hreach
  simp [startSession, halive, hthread]

theorem openPath_result (h : Sane f) (hthread : f.recvThread = false) :
    Result f .openPath os (f.openPath os) := by
  have hserial := h.rest hthread
  rw [openPath, if_neg (not_lt.mpr hserial)]
  dsimp only
  obtain ⟨hok, hpipes, hp, hi⟩ | ⟨hok, hno⟩ := openPipes_spec f os
  · rw [if_neg (by rw [hok]; decide)]
    rw [openPipes_frame f os]
    by_cases hnone : os.serial = none
    · rw [if_pos (not_le.mp fun h0 => fdOf_nonneg_iff.mp h0 hnone)]
      exact .unopened rfl hthread rfl hpipes hnone
    · have hfd := fdOf_nonneg_iff.mpr hnone
      have lost {g : MctpFramer} (hg : g.recvThread = false) (hs : g.serialFd = -1)
          (ha : g.terminated = false) (hno : ¬ OpenCall.openPath.Configures os) :
          Result f .openPath os (g, -1) :=
        .fail hg (by rw [hs]; decide) ha (fun hreach => hno hreach.2.2.2) fun _ _ => hnone
      rw [if_neg (not_lt.mpr hfd)]
      split
      next hget => exact lost hthread rfl h.alive fun hconf => by simp [hconf.1] at hget
      split
      next hset => exact lost hthread rfl h.alive fun hconf => by simp [hconf.2] at hset
      next hget hset =>
        refine .start rfl hfd hthread h.alive hp hi ⟨hserial, hpipes, hnone, ?_⟩
        exact ⟨by simpa using hget, by simpa using hset⟩
  · rw [if_pos (by rw [hok]; rfl), openPipes_frame f os]
    exact .fail hthread hserial h.alive (fun hreach => hno hreach.2.1)
      fun _ hpipes => absurd hpipes hno

theorem openFd_result (h : Sane f) (hthread : f.recvThread = false) (fd : ℤ) :
    Result f (.openFd fd) os (f.openFd fd os) := by
  have hserial := h.rest hthread
  have hother : OpenCall.openFd fd = .openPath → f.HasPipes os → os.serial ≠ none := by
    intro hcall
    cases hcall
  rw [openFd, if_neg (not_lt.mpr hserial)]
  dsimp only
  split
  next hneg =>
    exact .fail hthread hserial h.alive (fun hreach => absurd hreach.2.2.2 (not_le.mpr hneg)) hother
  next hnonneg =>
    obtain ⟨hok, hpipes, hp, hi⟩ | ⟨hok, hno⟩ := openPipes_spec f os
    · rw [if_neg (by rw [hok]; decide), openPipes_frame f os]
      split
      next hdup =>
        refine .fail hthread hserial h.alive (fun hreach => ?_) hother
        exact absurd (fdOf_nonneg_iff.mpr hreach.2.2.1) (not_le.mpr hdup)
      next hdup =>
        have hfd := not_lt.mp hdup
        exact .start rfl hfd hthread h.alive hp hi
          ⟨hserial, hpipes, fdOf_nonneg_iff.mp hfd, not_lt.mp hnonneg⟩
    · rw [if_pos (by rw [hok]; rfl), openPipes_frame f os]
      exact .fail hthread hserial h.alive (fun hreach => hno hreach.2.1) hother

theorem apply_result (os : OpenCalls) (h : Sane f) (hthread : f.recvThread = false)
    (call : OpenCall) :
    Result f call os (call.apply f os) := by
  cases call with
  | openPath => exact openPath_result h hthread
  | openFd fd => exact openFd_result h hthread fd

/-- With all calls successful a framer whose descriptor the guard lets pass can be opened. -/
theorem opened_goodCalls (hserial : f.serialFd ≤ 0) :
    Opened ((OpenCall.openFd 3).apply f goodCalls) := by
  have hpipes : f.HasPipes goodCalls := ⟨Or.inr nofun, Or.inr nofun⟩
  obtain ⟨hok, -, hp, hi⟩ | ⟨-, hno⟩ := openPipes_spec f goodCalls
  · rw [OpenCall.apply, openFd, if_neg (not_lt.mpr hserial), if_neg (by decide)]
    dsimp only
    rw [if_neg (by rw [hok]; decide), if_neg (by decide), openPipes_frame f goodCalls]
    exact ⟨startSession_nonneg hp, rfl⟩
  · exact absurd hpipes hno

theorem apply_guarded (hpos : 0 < f.serialFd) (call : OpenCall) : call.apply f os = (f, -1) := by
  cases call with
  | openPath => rw [OpenCall.apply, openPath, if_pos hpos]
  | openFd fd => rw [OpenCall.apply, openFd, if_pos hpos]

theorem exists_opened_iff :
    (∃ later os', Opened (OpenCall.apply later f os')) ↔ f.serialFd ≤ 0 := by
  constructor
  · rintro ⟨later, os', hopened⟩
    by_contra hpos
    rw [apply_guarded (not_le.mp hpos)] at hopened
    exact absurd hopened.1 (by decide : ¬ 0 ≤ (-1 : ℤ))
  · intro hserial
    exact ⟨.openFd 3, goodCalls, opened_goodCalls hserial⟩

theorem Reaches.not_rejects {call : OpenCall} (h : f.Reaches call os) : ¬ call.Rejects os := by
  obtain ⟨-, -, hserial, hconf⟩ := h
  cases call with
  | openPath => exact id
  | openFd fd =>
    rintro (hneg | hnone)
    · exact absurd hconf (not_le.mpr hneg)
    · exact hserial hnone

/-- An `open` overwrites the descriptor of a session on descriptor 0. -/
theorem openPath_zero (h : Sane f) (ht : f.recvThread = true) (hz : f.serialFd = 0) :
    ¬ ((f.openPath os).2 < 0 ∧ (f.openPath os).1 = f) := by
  obtain ⟨-, -, hp, hi⟩ := h.session ht
  rw [openPath, if_neg (by omega), openPipes_held hp hi]
  dsimp only
  rw [if_neg (by decide)]
  rintro ⟨hret, hsame⟩
  have hserial := congrArg serialFd hsame
  split at hret
  next => exact absurd hret (by decide : ¬ (0 : ℤ) < 0)
  next hfd =>
    rw [if_neg hfd] at hserial
    split at hret
    next hget =>
      rw [if_pos hget, hz] at hserial
      exact absurd hserial (by decide : (-1 : ℤ) ≠ 0)
    next hget =>
      rw [if_neg hget] at hserial
      split at hret
      next hset =>
        rw [if_pos hset, hz] at hserial
        exact absurd hserial (by decide : (-1 : ℤ) ≠ 0)
      next => exact absurd hret (not_lt.mpr (startSession_nonneg hp))

theorem openFd_zero_iff (h : Sane f) (ht : f.recvThread = true) (hz : f.serialFd = 0) (fd : ℤ) :
    ((f.openFd fd os).2 < 0 ∧ (f.openFd fd os).1 = f) ↔ fd < 0 ∨ os.serial = none := by
  obtain ⟨-, -, hp, hi⟩ := h.session ht
  rw [openFd, if_neg (by omega)]
  dsimp only
  split
  next hfd => exact iff_of_true ⟨(by decide : (-1 : ℤ) < 0), rfl⟩ (Or.inl hfd)
  next hfd =>
    rw [openPipes_held hp hi]
    dsimp only
    rw [if_neg (by decide)]
    split
    next hdup =>
      refine iff_of_true ⟨(by decide : (-1 : ℤ) < 0), rfl⟩ (Or.inr ?_)
      by_contra hne
      exact absurd (fdOf_nonneg_iff.mpr hne) (not_le.mpr hdup)
    next hdup =>
      refine iff_of_false (fun hcon => ?_) fun hcon => ?_
      · exact absurd hcon.1 (not_lt.mpr (startSession_nonneg hp))
      · exact hdup (not_le.mp fun hge => fdOf_nonneg_iff.mp hge (hcon.resolve_left hfd))

/-- A session on descriptor 0 survives a call only if the call fails early. -/
theorem apply_zero_iff (h : Sane f) (ht : f.recvThread = true) (hz : f.serialFd = 0)
    (call : OpenCall) :
    ((call.apply f os).2 < 0 ∧ (call.apply f os).1 = f) ↔ call.Rejects os := by
  cases call with
  | openPath => exact iff_of_false (openPath_zero h ht hz) id
  | openFd fd => exact openFd_zero_iff h ht hz fd

/-- A call made while a session is active. -/
theorem active_perform_iff (h : Sane f) (ht : f.recvThread = true) (call : OpenCall)
    (thread : Bool) :
    ((∃ v, (f.perform call os thread).2 = some v ∧ v < 0) ∧ (f.perform call os thread).1 = f) ↔
      (f.serialFd = 0 → call.Rejects os) := by
  have h0 := (h.session ht).2.1
  rw [perform]
  split
  next hthrow =>
    have hz : f.serialFd = 0 := le_antisymm hthrow.2.1 h0
    exact iff_of_false (fun hcon => by obtain ⟨v, hv, -⟩ := hcon.1; cases hv)
      fun hcon => hthrow.2.not_rejects (hcon hz)
  next =>
    simp only [Option.some.injEq, exists_eq_left']
    by_cases hz : f.serialFd = 0
    · rw [apply_zero_iff h ht hz, imp_iff_right hz]
    · rw [apply_guarded (lt_of_le_of_ne h0 (Ne.symm hz))]
      exact iff_of_true ⟨(by decide : (-1 : ℤ) < 0), rfl⟩ fun hcon => absurd hcon hz

theorem succeeds_some {v : ℤ} : Succeeds (some v) ↔ 0 ≤ v := by
  simp [Succeeds]

theorem not_succeeds_none : ¬ Succeeds none := fun ⟨_, hv, _⟩ => by cases hv

theorem fdOf_nonpos_iff {o : Option ℕ} (h : o ≠ none) : fdOf o ≤ 0 ↔ o = some 0 := by
  cases o with
  | none => exact absurd rfl h
  | some n => simp [fdOf]

/-- A call made without a session. -/
theorem rest_truthful_iff (h : Sane f) (ht : f.recvThread = false) (call : OpenCall)
    (thread : Bool) :
    Truthful f (.opening call os thread) ↔
      (call = .openPath → f.HasPipes os → os.serial ≠ none) ∧
        (thread = false → f.Reaches call os → os.serial = some 0) := by
  simp only [Truthful, not_active ht, not_false_eq_true, true_and, false_implies, true_implies,
    exists_opened_iff]
  rw [perform]
  split
  next hthrow =>
    have hsome := hthrow.2.2.2.1
    have hnone : ¬ ({ (call.apply f os).1 with
        recvThread := f.recvThread, terminated := f.terminated } : MctpFramer).Active := not_active ht
    simp only [not_succeeds_none, hnone, not_false_eq_true, true_and, true_implies, iff_self,
      hsome, ne_eq, implies_true, hthrow.1, hthrow.2]
    cases apply_result os h ht call with
    | failed hret hthread hsane hno hG => exact absurd hthrow.2 hno
    | started hret hthread hsane hserial hreach => rw [hserial, fdOf_nonpos_iff hsome]
    | unopened hret hthread hcall hpipes hserial => exact absurd hserial hsome
  next hnothrow =>
    have hrest : thread = false → f.Reaches call os → os.serial = some 0 :=
      fun hthread hreach => absurd ⟨hthread, hreach⟩ hnothrow
    rw [and_iff_left hrest, succeeds_some]
    cases apply_result os h ht call with
    | failed hret hthread hsane hno hG =>
      exact iff_of_true ⟨iff_of_false (not_le.mpr hret) (not_active hthread),
        fun _ => ⟨not_active hthread, hsane.rest hthread⟩⟩ hG
    | started hret hthread hsane hserial hreach =>
      exact iff_of_true ⟨iff_of_true hret (hsane.active_iff.mpr hthread),
        fun hneg => absurd hret hneg⟩ fun _ _ => hreach.2.2.1
    | unopened hret hthread hcall hpipes hserial =>
      exact iff_of_false (fun hcon => not_active hthread (hcon.1.mp hret.ge))
        fun hcon => hcon hcall hpipes hserial

/-- One call tells the truth exactly when it heeds the three slips. -/
theorem truthful_iff (h : Sane f) (l : Call) : Truthful f l ↔ Heeds f l := by
  cases l with
  | close => exact Iff.rfl
  | opening call os thread =>
    cases ht : f.recvThread with
    | true =>
      have hact : f.Active := h.active_iff.mpr ht
      rw [Heeds, ← active_perform_iff h ht call thread]
      simp only [Truthful, hact, not_true_eq_false, false_and, iff_false, false_implies,
        true_implies, true_and, and_true]
      refine and_iff_right_of_imp ?_
      rintro ⟨⟨v, hv, hneg⟩, -⟩ ⟨v', hv', hnonneg⟩
      rw [hv] at hv'
      cases hv'
      omega
    | false =>
      rw [rest_truthful_iff h ht, Heeds, imp_iff_right (not_active ht)]
      exact (and_iff_left fun hcon => absurd hcon (not_active ht)).symm

theorem sane_step {g : MctpFramer} {l : Call} (h : Sane f) (hG : Heeds f l)
    (hstep : f.step l = some g) : Sane g := by
  cases l with
  | close =>
    simp only [step, h.alive, Bool.false_eq_true, if_false, Option.some.injEq] at hstep
    rw [← hstep]
    exact sane_close h
  | opening call os thread =>
    simp only [step, h.alive, Bool.false_eq_true, if_false, Option.some.injEq] at hstep
    rw [← hstep]
    cases ht : f.recvThread with
    | true =>
      have hkeep := (active_perform_iff h ht call thread).mpr (hG.2 (h.active_iff.mpr ht))
      rw [hkeep.2]
      exact h
    | false =>
      obtain ⟨hopen, hcreate⟩ := hG.1 (not_active ht)
      rw [perform]
      split
      next hthrow =>
        have hsome := hthrow.2.2.2.1
        have hzero := (fdOf_nonpos_iff hsome).mpr (hcreate hthrow.1 hthrow.2)
        cases apply_result os h ht call with
        | failed hret hthread hsane hno hG => exact absurd hthrow.2 hno
        | started hret hthread hsane hserial hreach => exact .of_rest ht (hserial ▸ hzero) h.alive
        | unopened hret hthread hcall hpipes hserial => exact absurd hserial hsome
      next =>
        cases apply_result os h ht call with
        | failed hret hthread hsane hno hG => exact hsane
        | started hret hthread hsane hserial hreach => exact hsane
        | unopened hret hthread hcall hpipes hserial => exact absurd hserial (hopen hcall hpipes)

end Calls

/-- In a sequence of calls all opening calls report the truth exactly when no call meets a
device path that cannot be opened, a thread that cannot be created, or a session on
descriptor 0. -/
theorem opening_truthful_iff (ls : List Call) :
    Every step Truthful init ls ↔ Every step Heeds init ls :=
  every_congr Sane (fun _ _ _ h hG hstep => sane_step h hG hstep) (fun _ l h => truthful_iff h l)
    sane_init ls

/-- Calls on a device that does not exist. -/
def missingDevice : OpenCalls := { goodCalls with serial := none }

/-- Calls that hand out the descriptor 0. -/
def lowestFd : OpenCalls := { goodCalls with serial := some 0 }

/-- A missing device is reported as a success, and a session on descriptor 0 is overrun by
the next call, which ends the process. -/
theorem opening_reports_wrongly :
    ((init.perform .openPath missingDevice true).2 = some 0 ∧
      ¬ (init.perform .openPath missingDevice true).1.Active ∧
      ¬ Every step Truthful init [.opening .openPath missingDevice true]) ∧
    (init.perform (.openFd 3) lowestFd true).1.Active ∧
      ((init.perform (.openFd 3) lowestFd true).1.perform (.openFd 3) goodCalls true).1.terminated =
        true ∧
      ¬ Every step Truthful init
        [.opening (.openFd 3) lowestFd true, .opening (.openFd 3) goodCalls true] := by
  refine ⟨⟨by decide, by decide, fun h => ?_⟩, by decide, by decide, fun h => ?_⟩
  · have hstart : ¬ (init.perform .openPath missingDevice true).1.Active := by decide
    exact hstart (h.1.1.mp ⟨0, by decide, le_rfl⟩).2
  · obtain ⟨⟨v, hv, hneg⟩, -⟩ := (h.2 _ rfl).1.2.1 (by decide)
    have hret : ((init.perform (.openFd 3) lowestFd true).1.perform (.openFd 3) goodCalls true).2 =
        some 9 := by
      decide
    rw [hret] at hv
    cases hv
    exact absurd hneg (by decide)

end MctpSerial.MctpFramer
