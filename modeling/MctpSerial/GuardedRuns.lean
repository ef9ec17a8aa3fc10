import Mathlib.Data.List.Induction
import Mathlib.Data.Option.Basic

/-!
# Runs of partial labelled steps

A step function answers a label with the next state, or with `none` when the label is
not possible in the current state. A run executes a list of labels. A guard speaks about
a label and the state in which it is taken; `Every` says that a run meets it throughout.
The two rules at the end turn facts about one step into facts about every run.
-/
namespace MctpSerial.GuardedRuns

variable {σ ι : Type} (step : σ → ι → Option σ)

/-- The state after a list of labels, if all of them are possible. -/
def exec : σ → List ι → Option σ
  | s, [] => some s
  | s, l :: ls => (step s l).bind fun t => exec t ls

/-- Every label of the run meets the guard in the state in which it is taken. -/
def Every (G : σ → ι → Prop) : σ → List ι → Prop
  | _, [] => True
  | s, l :: ls => G s l ∧ ∀ t ∈ step s l, Every G t ls

instance decidableEvery (G : σ → ι → Prop) [∀ s l, Decidable (G s l)] :
    ∀ s ls, Decidable (Every step G s ls)
  | _, [] => isTrue trivial
  | s, l :: ls =>
    have : ∀ t, Decidable (Every step G t ls) := fun t => decidableEvery G t ls
    inferInstanceAs (Decidable (G s l ∧ ∀ t ∈ step s l, Every step G t ls))

theorem exec_concat (s : σ) (ls : List ι) (l : ι) :
    exec step s (ls ++ [l]) = (exec step s ls).bind fun t => step t l := by
  induction ls generalizing s with
  | nil => cases h : step s l <;> simp [exec, h]
  | cons x xs ih => cases h : step s x <;> simp [exec, h, ih]

theorem exec_append (s : σ) (ls ls' : List ι) :
    exec step s (ls ++ ls') = (exec step s ls).bind fun t => exec step t ls' := by
  induction ls generalizing s with
  | nil => rfl
  | cons x xs ih => cases h : step s x <;> simp [exec, h, ih]

theorem every_concat (G : σ → ι → Prop) (s : σ) (ls : List ι) (l : ι) :
    Every step G s (ls ++ [l]) ↔ Every step G s ls ∧ ∀ t ∈ exec step s ls, G t l := by
  induction ls generalizing s with
  | nil => simp [Every, exec]
  | cons x xs ih => cases h : step s x <;> simp [exec, Every, h, ih, and_assoc]

theorem every_append (G : σ → ι → Prop) (s : σ) (ls ls' : List ι) :
    Every step G s (ls ++ ls') ↔
      Every step G s ls ∧ ∀ t ∈ exec step s ls, Every step G t ls' := by
  induction ls generalizing s with
  | nil => simp [Every, exec]
  | cons x xs ih => cases h : step s x <;> simp [exec, Every, h, ih, and_assoc]

/-- A run that meets the guard leads from one state to the other. -/
def Leads (G : σ → ι → Prop) (s : σ) (ls : List ι) (t : σ) : Prop :=
  exec step s ls = some t ∧ Every step G s ls

variable {step}

/-- A property of the labels taken so far and of the state reached by them holds along
every run that meets the guard, if it holds at the start and each guarded step keeps it. -/
theorem guarded_invariant {G : σ → ι → Prop} {s₀ : σ} (P : List ι → σ → Prop) (init : P [] s₀)
    (next : ∀ ls s l t, P ls s → G s l → step s l = some t → P (ls ++ [l]) t)
    {ls : List ι} {s : σ} (hrun : exec step s₀ ls = some s) (hG : Every step G s₀ ls) :
    P ls s := by
  induction ls using List.reverseRecOn generalizing s with
  | nil =>
    cases hrun
    exact init
  | append_singleton ls l ih =>
    rw [exec_concat, Option.bind_eq_some_iff] at hrun
    obtain ⟨t, ht, hstep⟩ := hrun
    rw [every_concat] at hG
    exact next ls t l s (ih ht hG.1) (hG.2 t ht) hstep

theorem every_and {G H : σ → ι → Prop} {s : σ} {ls : List ι} (hG : Every step G s ls)
    (hH : Every step H s ls) : Every step (fun s l => G s l ∧ H s l) s ls := by
  induction ls generalizing s with
  | nil => trivial
  | cons l ls ih => exact ⟨⟨hG.1, hH.1⟩, fun t ht => ih (hG.2 t ht) (hH.2 t ht)⟩

theorem every_true (s : σ) (ls : List ι) : Every step (fun _ _ => True) s ls := by
  induction ls generalizing s with
  | nil => trivial
  | cons l ls ih => exact ⟨trivial, fun t _ => ih t⟩

theorem invariant {s₀ : σ} (P : List ι → σ → Prop) (init : P [] s₀)
    (next : ∀ ls s l t, P ls s → step s l = some t → P (ls ++ [l]) t)
    {ls : List ι} {s : σ} (hrun : exec step s₀ ls = some s) : P ls s :=
  guarded_invariant P init (fun ls s l t h _ hstep => next ls s l t h hstep) hrun
    (every_true s₀ ls)

/-- If a step keeps a property exactly when it meets the guard, a run ends with the
property exactly when it met the guard throughout. `I` is an invariant of all runs. -/
theorem iff_every {G : σ → ι → Prop} {s₀ : σ} (I P : List ι → σ → Prop) (init : P [] s₀)
    (always : ∀ {ls s}, exec step s₀ ls = some s → I ls s)
    (next : ∀ ls s l t, I ls s → step s l = some t → (P (ls ++ [l]) t ↔ P ls s ∧ G s l))
    {ls : List ι} {s : σ} (hrun : exec step s₀ ls = some s) :
    P ls s ↔ Every step G s₀ ls := by
  induction ls using List.reverseRecOn generalizing s with
  | nil =>
    cases hrun
    exact iff_of_true init trivial
  | append_singleton ls l ih =>
    rw [exec_concat, Option.bind_eq_some_iff] at hrun
    obtain ⟨t, ht, hstep⟩ := hrun
    rw [every_concat, next ls t l s (always ht) hstep, ih ht, ht]
    simp

/-- Guards that agree in the states of an invariant, which guarded steps keep, are met by
the same runs. -/
theorem every_congr {G H : σ → ι → Prop} (I : σ → Prop)
    (keep : ∀ s l t, I s → G s l → step s l = some t → I t)
    (agree : ∀ s l, I s → (H s l ↔ G s l)) {s₀ : σ} (init : I s₀) (ls : List ι) :
    Every step H s₀ ls ↔ Every step G s₀ ls := by
  induction ls generalizing s₀ with
  | nil => exact Iff.rfl
  | cons l ls ih =>
    simp only [Every, agree s₀ l init]
    refine and_congr_right fun hG => forall₂_congr fun t ht => ?_
    exact ih (keep s₀ l t init hG ht)

/-- A guard that implies another in the states of an invariant, which it keeps. -/
theorem every_imp {G H : σ → ι → Prop} (I : σ → Prop)
    (keep : ∀ s l t, I s → G s l → step s l = some t → I t)
    (imp : ∀ s l, I s → G s l → H s l) {s₀ : σ} (init : I s₀) {ls : List ι}
    (h : Every step G s₀ ls) : Every step H s₀ ls := by
  induction ls generalizing s₀ with
  | nil => trivial
  | cons l ls ih =>
    refine ⟨imp s₀ l init h.1, fun t ht => ?_⟩
    exact ih (keep s₀ l t init h.1 ht) (h.2 t ht)

section Leading

variable {G H : σ → ι → Prop} {s t u : σ} {l : ι} {ls ls' : List ι}

theorem Leads.refl (s : σ) : Leads step G s [] s := ⟨rfl, trivial⟩

theorem Leads.cons (hG : G s l) (hstep : step s l = some t) (h : Leads step G t ls u) :
    Leads step G s (l :: ls) u := by
  refine ⟨?_, hG, fun v hv => ?_⟩
  · rw [exec, hstep]
    exact h.1
  · cases hstep.symm.trans hv
    exact h.2

theorem Leads.single (hG : G s l) (hstep : step s l = some t) : Leads step G s [l] t :=
  .cons hG hstep (.refl t)

theorem Leads.trans (h : Leads step G s ls t) (h' : Leads step G t ls' u) :
    Leads step G s (ls ++ ls') u := by
  refine ⟨?_, (every_append step G s ls ls').mpr ⟨h.2, fun v hv => ?_⟩⟩
  · rw [exec_append, h.1]
    exact h'.1
  · cases h.1.symm.trans hv
    exact h'.2

/-- What each step keeps is kept. -/
theorem Leads.keeps (P : σ → Prop)
    (next : ∀ s l t, P s → G s l → step s l = some t → P t) (hs : P s)
    (h : Leads step G s ls t) : P t :=
  guarded_invariant (fun _ => P) hs (fun _ s l t hP hG hstep => next s l t hP hG hstep) h.1 h.2

/-- If from every state with the property a run leads to a smaller one, a run leads to zero. -/
theorem leads_to_zero (P : σ → Prop) (μ : σ → ℕ)
    (next : ∀ s, P s → μ s ≠ 0 → ∃ ls t, Leads step G s ls t ∧ P t ∧ μ t < μ s) (hs : P s) :
    ∃ ls t, Leads step G s ls t ∧ P t ∧ μ t = 0 := by
  induction hn : μ s using Nat.strongRecOn generalizing s with
  | ind n ih =>
    by_cases hzero : μ s = 0
    · exact ⟨[], s, .refl s, hs, hzero⟩
    · obtain ⟨ls, t, hlead, ht, hlt⟩ := next s hs hzero
      obtain ⟨ls', u, hlead', hu⟩ := ih (μ t) (hn ▸ hlt) ht rfl
      exact ⟨ls ++ ls', u, hlead.trans hlead', hu⟩

end Leading

end MctpSerial.GuardedRuns
