import MctpSerial.ManagedUsbTty

/-!
# Physical descriptors under hot-plug

A step of the worker leaves `phys_fd` alone, closes it or assigns it. The assignment does
not look at what `phys_fd` held, so that a second matching device leaks the descriptor of
the first. `Undisturbed` excludes this, and nothing else goes wrong.
-/
namespace MctpSerial.ManagedUsbTty
open MctpFramer DescriptorLedgers GuardedRuns

/-- The device is opened, configured and assigned to `phys_fd`. -/
def Attaches (s : ManagedUsbTty) (dev : UdevDevice) (os : AttachCalls) : Prop :=
  dev.action = some "add" ∧ dev.subsystem = some "tty" ∧
    s.matchesSerialId dev.useTag = true ∧ dev.devnode.isSome = true ∧
    ∃ ofd ∈ os.openTty, configureSerial ofd os = musbOk

/-- A device is attached only while none is. -/
def Undisturbed (s : ManagedUsbTty) : Label → Prop
  | .event fd io => s.udevFd ≥ 0 → fd = s.udevFd →
      ∀ dev ∈ io.device, s.Attaches dev io.attach → s.physFd < 0
  | _ => True

instance (s : ManagedUsbTty) (dev : UdevDevice) (os : AttachCalls) :
    Decidable (s.Attaches dev os) :=
  inferInstanceAs (Decidable (_ ∧ _ ∧ _ ∧ _ ∧ ∃ ofd ∈ os.openTty, configureSerial ofd os = musbOk))

instance (s : ManagedUsbTty) : ∀ l, Decidable (Undisturbed s l)
  | .event fd io => inferInstanceAs (Decidable (s.udevFd ≥ 0 → fd = s.udevFd →
      ∀ dev ∈ io.device, s.Attaches dev io.attach → s.physFd < 0))
  | .workerEnds _ => isTrue trivial
  | .stop => isTrue trivial
  | .close => isTrue trivial

/-- The descriptors of physical ttys that are open are exactly `phys_fd`, the registered
ones too, no other was ever closed, and after `close` none is left. -/
structure Exact (s : ManagedUsbTty) : Prop where
  held : ∀ fd, s.ledger.held fd ≠ none ↔ 0 ≤ s.physFd ∧ fd = s.physFd
  registered : ∀ fd ∈ s.registered, 0 ≤ s.physFd ∧ fd = s.physFd
  strays : s.ledger.strays = []
  closed : s.closed = true → ∀ fd, s.ledger.held fd = none

/-- What a step does to the physical descriptors. Only the step `close` marks the object
as closed. -/
inductive Moves (s : ManagedUsbTty) (l : Label) (t : ManagedUsbTty) : Prop
  | keep (hp : t.physFd = s.physFd) (hl : t.ledger = s.ledger) (hr : t.registered ⊆ s.registered)
      (hc : t.closed = s.closed ∨ l = .close) (hG : Undisturbed s l)
  | detach (h0 : 0 ≤ s.physFd) (hp : t.physFd = -1)
      (hl : t.ledger = s.ledger.post (.closed s.physFd))
      (hr : t.registered ⊆ s.registered.filter (· ≠ s.physFd))
      (hc : t.closed = s.closed ∨ l = .close) (hG : Undisturbed s l)
  | attach (ofd : ℕ) (devnode : String) (hfresh : s.ledger.held ofd = none) (hp : t.physFd = ofd)
      (hl : t.ledger = s.ledger.post (.obtained ofd devnode))
      (hr : t.registered ⊆ (ofd : ℤ) :: s.registered) (hc : t.closed = s.closed)
      (hG : Undisturbed s l ↔ s.physFd < 0)

section Steps

variable {s t : ManagedUsbTty} {l : Label}

theorem Moves.closed (h : Moves s l t) (hl : l ≠ .close) : t.closed = s.closed := by
  cases h with
  | keep hp hl' hr hc hG => exact hc.resolve_right hl
  | detach h0 hp hl' hr hc hG => exact hc.resolve_right hl
  | attach ofd devnode hfresh hp hl' hr hc hG => exact hc

theorem Moves.closePhys (h0 : 0 ≤ s.physFd) (hG : Undisturbed s l) (u : ManagedUsbTty)
    (hp : u.physFd = s.physFd) (hl : u.ledger = s.ledger) (hr : u.registered ⊆ s.registered)
    (hc : u.closed = s.closed) : Moves s l u.closePhys := by
  refine .detach h0 rfl ?_ ?_ (Or.inl hc) hG
  · rw [ManagedUsbTty.closePhys, hl, hp]
  · rw [ManagedUsbTty.closePhys, hp]
    exact List.filter_subset _ hr

theorem Moves.handlePty {fd : ℤ} {io : EventCalls} {r : TtyRead} {os : List TtyWrite}
    (hG : Undisturbed s (.event fd io)) (h : s.handlePty r os = some t) :
    Moves s (.event fd io) t := by
  obtain rfl | ⟨h0, w, ok, -, u, rfl, rfl⟩ := handlePty_cases h
  · exact .keep rfl rfl (List.Subset.refl _) (Or.inl rfl) hG
  · cases ok with
    | true => exact .keep rfl rfl (List.Subset.refl _) (Or.inl rfl) hG
    | false => exact .closePhys h0 hG _ rfl rfl (List.filter_subset_self _) rfl

theorem Moves.handlePhys {fd : ℤ} {io : EventCalls} {r : TtyRead} {os : List TtyWrite}
    (h0 : 0 ≤ s.physFd) (hG : Undisturbed s (.event fd io)) (h : s.handlePhys r os = some t) :
    Moves s (.event fd io) t := by
  obtain ⟨-, w, ok, -, u, rfl, rfl⟩ | ⟨-, rfl⟩ := handlePhys_cases h
  · cases ok with
    | true => exact .keep rfl rfl (List.Subset.refl _) (Or.inl rfl) hG
    | false => exact .closePhys h0 hG _ rfl rfl (List.Subset.refl _) rfl
  · split
    · exact .keep rfl rfl (List.Subset.refl _) (Or.inl rfl) hG
    · exact .closePhys h0 hG _ rfl rfl (List.filter_subset_self _) rfl

/-- A udev event changes nothing, detaches the device, or opens a matching one. -/
theorem handleUdev_cases (s : ManagedUsbTty) (dev : UdevDevice) (os : AttachCalls) :
    (s.handleUdev (some dev) os = s ∧ ¬ s.Attaches dev os) ∨
    (0 ≤ s.physFd ∧ s.handleUdev (some dev) os = s.epollDel.closePhys ∧ ¬ s.Attaches dev os) ∨
    ∃ devnode, s.handleUdev (some dev) os = s.openDevice devnode os ∧
      (s.Attaches dev os ↔ ∃ ofd ∈ os.openTty, configureSerial ofd os = musbOk) := by
  obtain ⟨action, subsystem, devnode, idPathTag, probe⟩ := dev
  cases action with
  | none => exact Or.inl ⟨rfl, fun hatt => by cases hatt.1⟩
  | some action =>
    cases subsystem with
    | none => exact Or.inl ⟨rfl, fun hatt => by cases hatt.2.1⟩
    | some subsystem =>
      unfold handleUdev
      dsimp only
      split
      next hsub => exact Or.inl ⟨rfl, fun hatt => hsub (Option.some.inj hatt.2.1)⟩
      next hsub =>
        split
        next hremove =>
          have hnot : ¬ s.Attaches ⟨some action, some subsystem, devnode, idPathTag, probe⟩ os := by
            rintro ⟨hadd, -⟩
            simp [hremove] at hadd
          split
          next hmatch => exact Or.inr (Or.inl ⟨hmatch.2, rfl, hnot⟩)
          next => exact Or.inl ⟨rfl, hnot⟩
        next =>
          split
          next hadd =>
            split
            next _ _ node hmatch =>
              refine Or.inr (Or.inr ⟨node, rfl, fun hatt => hatt.2.2.2.2, fun hopen => ?_⟩)
              exact ⟨congrArg some hadd, congrArg some (not_not.mp hsub), hmatch, by simp, hopen⟩
            next hno =>
              refine Or.inl ⟨rfl, fun hatt => ?_⟩
              obtain ⟨node, hnode⟩ := Option.isSome_iff_exists.mp hatt.2.2.2.1
              exact hno node hatt.2.2.1 hnode
          next hadd => exact Or.inl ⟨rfl, fun hatt => hadd (Option.some.inj hatt.1)⟩

theorem Moves.handleUdev {fd : ℤ} {io : EventCalls} (hu : s.udevFd ≥ 0) (hfd : fd = s.udevFd)
    (hfresh : ∀ ofd ∈ io.attach.openTty, s.ledger.held ofd = none) :
    Moves s (.event fd io) (s.handleUdev io.device io.attach) := by
  cases hdev : io.device with
  | none =>
    exact .keep rfl rfl (List.Subset.refl _) (Or.inl rfl) fun _ _ dev h => by simp [hdev] at h
  | some dev =>
    have hiff : Undisturbed s (.event fd io) ↔ (s.Attaches dev io.attach → s.physFd < 0) :=
      ⟨fun h => h hu hfd dev hdev, fun h _ _ dev' hdev' =>
        (Option.some.inj (hdev.symm.trans hdev')) ▸ h⟩
    obtain ⟨hsame, hnot⟩ | ⟨h0, hclose, hnot⟩ | ⟨devnode, hopen, hatt⟩ :=
      handleUdev_cases s dev io.attach
    · rw [hsame]
      exact .keep rfl rfl (List.Subset.refl _) (Or.inl rfl) (hiff.mpr fun h => absurd h hnot)
    · rw [hclose]
      exact .closePhys h0 (hiff.mpr fun h => absurd h hnot) _ rfl rfl (List.filter_subset_self _) rfl
    · rw [hopen]
      rw [openDevice]
      cases hofd : io.attach.openTty with
      | none =>
        refine .keep rfl rfl (List.Subset.refl _) (Or.inl rfl) (hiff.mpr fun h => ?_)
        obtain ⟨ofd, hmem, -⟩ := hatt.mp h
        simp [hofd] at hmem
      | some ofd =>
        dsimp only
        split
        next hok =>
          have hattaches : s.Attaches dev io.attach := hatt.mpr ⟨ofd, hofd, hok⟩
          refine .attach ofd devnode (hfresh ofd hofd) rfl rfl ?_ rfl
            (hiff.trans ⟨fun h => h hattaches, fun h _ => h⟩)
          dsimp only [ManagedUsbTty.attach]
          split
          · exact List.Subset.refl _
          · exact List.subset_cons_self _ _
        next hfail =>
          refine .keep rfl (Ledger.post_obtained_closed (hfresh ofd hofd) devnode)
            (List.Subset.refl _) (Or.inl rfl) (hiff.mpr fun h => ?_)
          obtain ⟨ofd', hmem, hok⟩ := hatt.mp h
          cases hofd.symm.trans hmem
          exact absurd hok hfail

theorem moves_of_step (hstep : s.step l = some t) : Moves s l t := by
  cases l with
  | event fd io =>
    simp only [step, Option.ite_none_right_eq_some, Bool.and_eq_true] at hstep
    obtain ⟨⟨-, hfresh⟩, hstep⟩ := hstep
    have hfresh' (ofd : ℕ) (hmem : ofd ∈ io.attach.openTty) : s.ledger.held ofd = none := by
      have := hfresh
      simp only [Fresh, Option.mem_def.mp hmem, Option.all_some, decide_eq_true_eq] at this
      exact this.1
    rw [handleEvent] at hstep
    split at hstep
    next hu =>
      cases hstep
      exact .handleUdev hu.1 hu.2 hfresh'
    next hu =>
      have hG : Undisturbed s (.event fd io) := fun h0 hfd => absurd ⟨h0, hfd⟩ hu
      split at hstep
      next => exact .handlePty hG hstep
      next =>
        split at hstep
        next hphys => exact .handlePhys hphys.1 hG hstep
        next =>
          cases hstep
          exact .keep rfl rfl (List.Subset.refl _) (Or.inl rfl) hG
  | workerEnds waitFailed =>
    simp only [step, Option.ite_none_right_eq_some, Option.some.injEq] at hstep
    obtain ⟨-, rfl⟩ := hstep
    exact .keep rfl rfl (List.nil_subset _) (Or.inl rfl) trivial
  | stop =>
    cases hstep
    exact .keep rfl rfl (List.Subset.refl _) (Or.inl rfl) trivial
  | close =>
    simp only [step, Option.ite_none_right_eq_some, Option.some.injEq] at hstep
    obtain ⟨-, rfl⟩ := hstep
    rw [finishClose]
    split
    next h0 => exact .detach h0 rfl rfl (List.Subset.refl _) (Or.inr rfl) trivial
    next => exact .keep rfl rfl (List.Subset.refl _) (Or.inr rfl) trivial

/-- Facts about the physical descriptors that hold in every run. -/
structure Sound (s : ManagedUsbTty) : Prop where
  phys_held : 0 ≤ s.physFd → s.ledger.held s.physFd ≠ none
  held_nonneg : ∀ fd, s.ledger.held fd ≠ none → 0 ≤ fd
  registered_held : ∀ fd ∈ s.registered, s.ledger.held fd ≠ none
  strays : s.ledger.strays = []
  closed : s.closed = true → s.physFd < 0 ∧ s.worker = false

theorem sound_start (serialId : String) (pty : ℕ) (udev : Option ℕ) (epoll : Bool) :
    Sound (start serialId pty udev epoll) where
  phys_held h := absurd h (by simp [start])
  held_nonneg _ h := absurd rfl h
  registered_held := nofun
  strays := rfl
  closed := nofun

theorem Sound.closed_step (h : Sound s) (hstep : s.step l = some t) :
    t.closed = true → t.physFd < 0 ∧ t.worker = false := by
  intro ht
  have hmoves := moves_of_step hstep
  cases l with
  | event fd io =>
    simp only [step, Option.ite_none_right_eq_some, Bool.and_eq_true] at hstep
    obtain ⟨⟨hworker, -⟩, -⟩ := hstep
    rw [hmoves.closed nofun] at ht
    rw [(h.closed ht).2] at hworker
    cases hworker
  | workerEnds waitFailed =>
    simp only [step, Option.ite_none_right_eq_some, Option.some.injEq] at hstep
    obtain ⟨-, rfl⟩ := hstep
    exact ⟨(h.closed ht).1, rfl⟩
  | stop =>
    cases hstep
    exact h.closed ht
  | close =>
    simp only [step, Option.ite_none_right_eq_some, Option.some.injEq, Bool.and_eq_true,
      Bool.not_eq_true'] at hstep
    obtain ⟨⟨-, hworker⟩, rfl⟩ := hstep
    rw [finishClose]
    split
    next => exact ⟨(by decide : (-1 : ℤ) < 0), hworker⟩
    next h0 => exact ⟨not_le.mp h0, hworker⟩

theorem sound_step (h : Sound s) (hstep : s.step l = some t) : Sound t := by
  have hclosed := h.closed_step hstep
  cases moves_of_step hstep with
  | keep hp hl hr hc hG =>
    exact ⟨by rw [hp, hl]; exact h.phys_held, by rw [hl]; exact h.held_nonneg,
      by rw [hl]; exact fun fd hfd => h.registered_held fd (hr hfd), by rw [hl]; exact h.strays,
      hclosed⟩
  | detach h0 hp hl hr hc hG =>
    refine ⟨?_, ?_, ?_, ?_, hclosed⟩
    · intro h0'
      rw [hp] at h0'
      exact absurd h0' (by decide)
    · intro fd hfd
      rw [hl, Ledger.held_closed] at hfd
      by_cases heq : fd = s.physFd
      · exact heq ▸ h0
      · rw [Function.update_of_ne heq] at hfd
        exact h.held_nonneg fd hfd
    · intro fd hfd
      have hmem := List.mem_filter.mp (hr hfd)
      rw [hl, Ledger.held_closed, Function.update_of_ne (by simpa using hmem.2)]
      exact h.registered_held fd hmem.1
    · rw [hl, Ledger.strays_closed (Option.isSome_iff_ne_none.mpr (h.phys_held h0))]
      exact h.strays
  | attach ofd devnode hfresh hp hl hr hc hG =>
    refine ⟨?_, ?_, ?_, ?_, hclosed⟩
    · intro _
      rw [hp, hl, Ledger.held_obtained, Function.update_self]
      exact Option.some_ne_none _
    · intro fd hfd
      by_cases heq : fd = ofd
      · rw [heq]
        exact Int.natCast_nonneg ofd
      · rw [hl, Ledger.held_obtained, Function.update_of_ne heq] at hfd
        exact h.held_nonneg fd hfd
    · intro fd hfd
      by_cases heq : fd = ofd
      · rw [hl, heq, Ledger.held_obtained, Function.update_self]
        exact Option.some_ne_none _
      · rw [hl, Ledger.held_obtained, Function.update_of_ne heq]
        exact h.registered_held fd ((List.mem_cons.mp (hr hfd)).resolve_left heq)
    · rw [hl]
      exact h.strays

/-- Nothing is open but what `phys_fd` names. -/
def NoLeak (s : ManagedUsbTty) : Prop := ∀ fd, s.ledger.held fd ≠ none → fd = s.physFd

theorem Sound.exact_iff (h : Sound s) : Exact s ↔ NoLeak s := by
  constructor
  · intro hex fd hfd
    exact ((hex.held fd).mp hfd).2
  · intro hno
    have hheld (fd : ℤ) : s.ledger.held fd ≠ none ↔ 0 ≤ s.physFd ∧ fd = s.physFd := by
      constructor
      · intro hfd
        have heq := hno fd hfd
        exact ⟨heq ▸ h.held_nonneg fd hfd, heq⟩
      · rintro ⟨h0, rfl⟩
        exact h.phys_held h0
    refine ⟨hheld, fun fd hfd => (hheld fd).mp (h.registered_held fd hfd), h.strays, ?_⟩
    intro hclosed fd
    by_contra hne
    exact absurd ((hheld fd).mp hne).1 (not_le.mpr (h.closed hclosed).1)

/-- A step leaks nothing exactly when it does not overwrite an open `phys_fd`; and what is
leaked stays open. -/
theorem noLeak_step_iff (h : Sound s) (hstep : s.step l = some t) :
    NoLeak t ↔ NoLeak s ∧ Undisturbed s l := by
  cases moves_of_step hstep with
  | keep hp hl hr hc hG => rw [NoLeak, NoLeak, hp, hl, and_iff_left hG]
  | detach h0 hp hl hr hc hG =>
    rw [and_iff_left hG, NoLeak, hl, hp, Ledger.held_closed]
    constructor
    · intro hno fd hfd
      by_contra heq
      have hneg := hno fd (by rwa [Function.update_of_ne heq])
      exact absurd (h.held_nonneg fd hfd) (by rw [hneg]; decide)
    · intro hno fd hfd
      by_cases heq : fd = s.physFd
      · subst heq
        exact absurd (Function.update_self ..) hfd
      · rw [Function.update_of_ne heq] at hfd
        exact absurd (hno fd hfd) heq
  | attach ofd devnode hfresh hp hl hr hc hG =>
    rw [hG, NoLeak, hl, hp, Ledger.held_obtained]
    constructor
    · intro hno
      have hnone (fd : ℤ) : s.ledger.held fd = none := by
        by_cases heq : fd = ofd
        · rw [heq, hfresh]
        · by_contra hne
          exact heq (hno fd (by rwa [Function.update_of_ne heq]))
      refine ⟨fun fd hfd => absurd (hnone fd) hfd, ?_⟩
      by_contra h0
      exact h.phys_held (not_lt.mp h0) (hnone _)
    · rintro ⟨hno, hneg⟩ fd hfd
      by_contra heq
      rw [Function.update_of_ne heq] at hfd
      exact absurd (h.held_nonneg fd hfd) (by rw [hno fd hfd]; exact not_le.mpr hneg)

end Steps

/-- Over any sequence of events the open physical descriptors are exactly `phys_fd`, and
none after `close`, if and only if no matching device is attached while one is. -/
theorem hotplug_exact_iff (serialId : String) (pty : ℕ) (udev : Option ℕ) (epoll : Bool)
    (ls : List Label) (s : ManagedUsbTty)
    (hrun : exec step (start serialId pty udev epoll) ls = some s) :
    Exact s ↔ Every step Undisturbed (start serialId pty udev epoll) ls := by
  have always {ls : List Label} {s : ManagedUsbTty}
      (hrun : exec step (start serialId pty udev epoll) ls = some s) : Sound s :=
    invariant (fun _ s => Sound s) (sound_start serialId pty udev epoll)
      (fun _ _ _ _ h hstep => sound_step h hstep) hrun
  rw [(always hrun).exact_iff]
  exact iff_every (fun _ s => Sound s) (fun _ s => NoLeak s) (fun _ hfd => absurd rfl hfd) always
    (fun _ _ _ _ h hstep => noLeak_step_iff h hstep) hrun

/-- A tty node of the device with the tag `usb`. -/
def ttyNode (action devnode : String) : UdevDevice :=
  ⟨some action, some "tty", some devnode, some "usb", none⟩

/-- A udev event on descriptor 5, with the descriptor that opening the node would give. -/
def udevEvent (action devnode : String) (ofd : ℕ) : Label :=
  .event 5 ⟨some (ttyNode action devnode), ⟨some ofd, true, true, true⟩, .again, []⟩

/-- The device comes, is read from, goes, and comes back under another name. -/
def replug : List Label :=
  [udevEvent "add" "/dev/ttyUSB0" 10,
    .event 10 ⟨none, ⟨none, true, true, true⟩, .data [1, 2, 3], [.accepted 0, .again, .accepted 5]⟩,
    udevEvent "remove" "/dev/ttyUSB0" 11, udevEvent "add" "/dev/ttyUSB1" 10, .stop,
    .workerEnds false, .close]

theorem hotplug_exact_replug : ∃ s,
    exec step (start "usb" 4 (some 5) true) replug = some s ∧ s.closed = true ∧ Exact s := by
  have hclosed : (exec step (start "usb" 4 (some 5) true) replug).map closed = some true := by
    decide +kernel
  obtain ⟨s, hrun, hs⟩ := Option.map_eq_some_iff.mp hclosed
  exact ⟨s, hrun, hs, (hotplug_exact_iff "usb" 4 (some 5) true replug s hrun).mpr (by decide +kernel)⟩

/-- A second node with the tag of the first leaks the first descriptor past `close`. -/
theorem second_node_leaks : ∃ s,
    exec step (start "usb" 4 (some 5) true)
      [udevEvent "add" "/dev/ttyUSB0" 10, udevEvent "add" "/dev/ttyUSB1" 11, .stop,
        .workerEnds false, .close] = some s ∧
      s.closed = true ∧ s.ledger.held 10 = some "/dev/ttyUSB0" ∧ ¬ Exact s := by
  have hleak : (exec step (start "usb" 4 (some 5) true)
      [udevEvent "add" "/dev/ttyUSB0" 10, udevEvent "add" "/dev/ttyUSB1" 11, .stop,
        .workerEnds false, .close]).map (fun s => (s.closed, s.ledger.held 10)) =
      some (true, some "/dev/ttyUSB0") := by
    decide +kernel
  obtain ⟨s, hrun, hs⟩ := Option.map_eq_some_iff.mp hleak
  have hclosed : s.closed = true := congrArg Prod.fst hs
  have hheld : s.ledger.held 10 = some "/dev/ttyUSB0" := congrArg Prod.snd hs
  refine ⟨s, hrun, hclosed, hheld, fun hex => ?_⟩
  rw [hex.closed hclosed 10] at hheld
  cases hheld

end MctpSerial.ManagedUsbTty
