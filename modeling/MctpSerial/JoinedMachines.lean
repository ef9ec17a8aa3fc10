import MctpSerial.GuardedRuns
import Mathlib.Data.List.Basic
import Mathlib.Data.Sum.Basic

/-!
# Machines joined by a pair of lines

Two machines of labelled steps have outputs that only grow, and some of their steps take
input. Joined, such a step is possible only with the symbols that are next on the line from
the other machine, so a line keeps every symbol and its place, and symbols are under way for
any time. A run of the joint machine is a run of each part, and what a part has taken is a
beginning of the other's output. The joint machine is a machine again and can be joined with
a third one.
-/
namespace MctpSerial.JoinedMachines
open GuardedRuns

/-- A machine with a port: an output that a line carries away, and the symbols that a step
takes from a line. -/
structure Ported (σ ι α β : Type) where
  step : σ → ι → Option σ
  out : σ → List α
  input : σ → ι → List β
  grows : ∀ s l t, step s l = some t → out s <+: out t

/-- The two machines, and how many symbols of each output have arrived at the other. -/
structure Joint (σ τ : Type) where
  left : σ
  right : τ
  rightward : ℕ
  leftward : ℕ

variable {σ τ ι κ α β γ δ : Type}

def lefts (ls : List (ι ⊕ κ)) : List ι := ls.filterMap Sum.getLeft?

def rights (ls : List (ι ⊕ κ)) : List κ := ls.filterMap Sum.getRight?

@[simp] theorem lefts_concat_inl (ls : List (ι ⊕ κ)) (l : ι) :
    lefts (ls ++ [.inl l]) = lefts ls ++ [l] := by
  simp [lefts]

@[simp] theorem lefts_concat_inr (ls : List (ι ⊕ κ)) (l : κ) :
    lefts (ls ++ [.inr l]) = lefts ls := by
  simp [lefts]

@[simp] theorem rights_concat_inl (ls : List (ι ⊕ κ)) (l : ι) :
    rights (ls ++ [.inl l]) = rights ls := by
  simp [rights]

@[simp] theorem rights_concat_inr (ls : List (ι ⊕ κ)) (l : κ) :
    rights (ls ++ [.inr l]) = rights ls ++ [l] := by
  simp [rights]

theorem lefts_append (ls ls' : List (ι ⊕ κ)) : lefts (ls ++ ls') = lefts ls ++ lefts ls' :=
  List.filterMap_append

theorem rights_append (ls ls' : List (ι ⊕ κ)) : rights (ls ++ ls') = rights ls ++ rights ls' :=
  List.filterMap_append

section Lists

variable {xs ys : List α} {n : ℕ}

theorem take_add_of_prefix_drop (h : ys <+: xs.drop n) :
    xs.take (n + ys.length) = xs.take n ++ ys := by
  obtain ⟨zs, hzs⟩ := h
  rw [List.take_add, ← hzs, List.take_left]

theorem take_of_grown (h : xs <+: ys) (hn : n ≤ xs.length) : ys.take n = xs.take n := by
  obtain ⟨zs, rfl⟩ := h
  exact List.take_append_of_le_length hn

theorem arrived_le (h : ys <+: xs.drop n) (hn : n ≤ xs.length) : n + ys.length ≤ xs.length := by
  have hlen := h.length_le
  rw [List.length_drop] at hlen
  omega

end Lists

namespace Ported

variable (M : Ported σ ι α β)

/-- What a run takes in. -/
def consumed : σ → List ι → List β
  | _, [] => []
  | s, l :: ls => M.input s l ++ (M.step s l).elim [] fun t => consumed t ls

theorem consumed_concat {s t : σ} {ls : List ι} (hrun : exec M.step s ls = some t) (l : ι) :
    M.consumed s (ls ++ [l]) = M.consumed s ls ++ M.input t l := by
  induction ls generalizing s with
  | nil =>
    cases hrun
    cases h : M.step t l <;> simp [consumed, h]
  | cons x xs ih =>
    obtain ⟨u, hu, hrun⟩ := Option.bind_eq_some_iff.mp hrun
    rw [List.cons_append, consumed, consumed, hu, Option.elim_some, Option.elim_some, ih hrun,
      List.append_assoc]

/-- Input that is written on the labels. -/
theorem consumed_eq_flatMap {f : ι → List β} (hf : ∀ s l, M.input s l = f l) {s t : σ}
    {ls : List ι} (hrun : exec M.step s ls = some t) : M.consumed s ls = ls.flatMap f := by
  induction ls generalizing s with
  | nil => rfl
  | cons x xs ih =>
    obtain ⟨u, hu, hrun⟩ := Option.bind_eq_some_iff.mp hrun
    rw [consumed, hu, Option.elim_some, ih hrun, hf, List.flatMap_cons]

/-- Input that the state remembers, in every state of an invariant. -/
theorem consumed_eq_of_log (log : σ → List β) (I : σ → Prop) {s₀ : σ} (init : I s₀)
    (keep : ∀ s l t, I s → M.step s l = some t → I t)
    (hlog : ∀ s l t, I s → M.step s l = some t → log t = log s ++ M.input s l)
    (hempty : log s₀ = []) {ls : List ι} {s : σ} (hrun : exec M.step s₀ ls = some s) :
    I s ∧ M.consumed s₀ ls = log s := by
  induction ls using List.reverseRecOn generalizing s with
  | nil =>
    cases hrun
    exact ⟨init, hempty.symm⟩
  | append_singleton ls l ih =>
    rw [exec_concat, Option.bind_eq_some_iff] at hrun
    obtain ⟨t, ht, hstep⟩ := hrun
    obtain ⟨hI, htaken⟩ := ih ht
    exact ⟨keep t l s hI hstep, by rw [M.consumed_concat ht, htaken, hlog t l s hI hstep]⟩

end Ported

variable [DecidableEq α] [DecidableEq β] (M : Ported σ ι α β) (N : Ported τ κ β α)

/-- A move of one part takes its input from what the other has sent and is still under way. -/
def jointStep (s : Joint σ τ) : ι ⊕ κ → Option (Joint σ τ)
  | .inl l =>
    if M.input s.left l <+: (N.out s.right).drop s.leftward then
      (M.step s.left l).map fun t =>
        { s with left := t, leftward := s.leftward + (M.input s.left l).length }
    else none
  | .inr l =>
    if N.input s.right l <+: (M.out s.left).drop s.rightward then
      (N.step s.right l).map fun t =>
        { s with right := t, rightward := s.rightward + (N.input s.right l).length }
    else none

/-- A guard for each part. -/
def jointGuard (G : σ → ι → Prop) (H : τ → κ → Prop) (s : Joint σ τ) : ι ⊕ κ → Prop :=
  Sum.elim (G s.left) (H s.right)

instance (G : σ → ι → Prop) (H : τ → κ → Prop) [∀ s l, Decidable (G s l)]
    [∀ s l, Decidable (H s l)] (s : Joint σ τ) : ∀ l, Decidable (jointGuard G H s l)
  | .inl l => inferInstanceAs (Decidable (G s.left l))
  | .inr l => inferInstanceAs (Decidable (H s.right l))

/-- The joint machine with another port `P` of its right part. -/
def Ported.joint (P : Ported τ κ γ δ) (h : P.step = N.step) :
    Ported (Joint σ τ) (ι ⊕ κ) γ δ where
  step := jointStep M N
  out s := P.out s.right
  input s := Sum.elim (fun _ => []) (P.input s.right)
  grows s l t hstep := by
    cases l with
    | inl l =>
      rw [jointStep, Option.ite_none_right_eq_some] at hstep
      obtain ⟨u, -, rfl⟩ := Option.map_eq_some_iff.mp hstep.2
      exact List.prefix_rfl
    | inr l =>
      rw [jointStep, Option.ite_none_right_eq_some, ← h] at hstep
      obtain ⟨u, hu, rfl⟩ := Option.map_eq_some_iff.mp hstep.2
      exact P.grows s.right l u hu

/-- Each part has run by itself, and has taken the beginning of what the other sent. -/
structure Projects (s₀ : σ) (t₀ : τ) (ls : List (ι ⊕ κ)) (s : Joint σ τ) : Prop where
  left : exec M.step s₀ (lefts ls) = some s.left
  right : exec N.step t₀ (rights ls) = some s.right
  rightward_le : s.rightward ≤ (M.out s.left).length
  leftward_le : s.leftward ≤ (N.out s.right).length
  to_right : N.consumed t₀ (rights ls) = (M.out s.left).take s.rightward
  to_left : M.consumed s₀ (lefts ls) = (N.out s.right).take s.leftward

variable {M N} {s₀ : σ} {t₀ : τ} {ls : List (ι ⊕ κ)} {s t : Joint σ τ}

theorem projects_step (h : Projects M N s₀ t₀ ls s) {l : ι ⊕ κ}
    (hstep : jointStep M N s l = some t) : Projects M N s₀ t₀ (ls ++ [l]) t := by
  cases l with
  | inl l =>
    rw [jointStep, Option.ite_none_right_eq_some] at hstep
    obtain ⟨htake, hstep⟩ := hstep
    obtain ⟨u, hu, rfl⟩ := Option.map_eq_some_iff.mp hstep
    have hgrow := M.grows _ _ _ hu
    refine ⟨?_, ?_, Nat.le_trans h.rightward_le hgrow.length_le, arrived_le htake h.leftward_le,
      ?_, ?_⟩
    · rw [lefts_concat_inl, exec_concat, h.left]
      exact hu
    · rw [rights_concat_inl]
      exact h.right
    · rw [rights_concat_inl, h.to_right, take_of_grown hgrow h.rightward_le]
    · rw [lefts_concat_inl, M.consumed_concat h.left, h.to_left, take_add_of_prefix_drop htake]
  | inr l =>
    rw [jointStep, Option.ite_none_right_eq_some] at hstep
    obtain ⟨htake, hstep⟩ := hstep
    obtain ⟨u, hu, rfl⟩ := Option.map_eq_some_iff.mp hstep
    have hgrow := N.grows _ _ _ hu
    refine ⟨?_, ?_, arrived_le htake h.rightward_le, Nat.le_trans h.leftward_le hgrow.length_le,
      ?_, ?_⟩
    · rw [lefts_concat_inr]
      exact h.left
    · rw [rights_concat_inr, exec_concat, h.right]
      exact hu
    · rw [rights_concat_inr, N.consumed_concat h.right, h.to_right, take_add_of_prefix_drop htake]
    · rw [lefts_concat_inr, h.to_left, take_of_grown hgrow h.leftward_le]

/-- Every run of the joint machine projects to its parts. -/
theorem projects (hrun : exec (jointStep M N) ⟨s₀, t₀, 0, 0⟩ ls = some s) :
    Projects M N s₀ t₀ ls s :=
  invariant (Projects M N s₀ t₀)
    ⟨rfl, rfl, Nat.zero_le _, Nat.zero_le _, rfl, rfl⟩
    (fun _ _ _ _ h hstep => projects_step h hstep) hrun

/-- Guards of the parts that hold in the joint run hold in the runs of the parts. -/
theorem every_parts {G : σ → ι → Prop} {H : τ → κ → Prop} {s u : Joint σ τ}
    (hrun : exec (jointStep M N) s ls = some u) (h : Every (jointStep M N) (jointGuard G H) s ls) :
    Every M.step G s.left (lefts ls) ∧ Every N.step H s.right (rights ls) := by
  induction ls generalizing s with
  | nil => exact ⟨trivial, trivial⟩
  | cons l ls ih =>
    obtain ⟨t, hstep, hrun⟩ := Option.bind_eq_some_iff.mp hrun
    obtain ⟨hleft, hright⟩ := ih hrun (h.2 t hstep)
    cases l with
    | inl l =>
      rw [jointStep, Option.ite_none_right_eq_some] at hstep
      obtain ⟨v, hv, rfl⟩ := Option.map_eq_some_iff.mp hstep.2
      refine ⟨⟨h.1, fun w hw => ?_⟩, hright⟩
      obtain rfl := Option.some.inj (hv.symm.trans hw)
      exact hleft
    | inr l =>
      rw [jointStep, Option.ite_none_right_eq_some] at hstep
      obtain ⟨v, hv, rfl⟩ := Option.map_eq_some_iff.mp hstep.2
      refine ⟨hleft, ⟨h.1, fun w hw => ?_⟩⟩
      obtain rfl := Option.some.inj (hv.symm.trans hw)
      exact hright

/-- Through its other port a joint machine takes what its right part takes. -/
theorem consumed_joint (P : Ported τ κ γ δ) (h : P.step = N.step) {s u : Joint σ τ}
    (hrun : exec (jointStep M N) s ls = some u) :
    (M.joint N P h).consumed s ls = P.consumed s.right (rights ls) := by
  induction ls generalizing s with
  | nil => rfl
  | cons l ls ih =>
    obtain ⟨t, hstep, hrun⟩ := Option.bind_eq_some_iff.mp hrun
    rw [Ported.consumed, show (M.joint N P h).step s l = some t from hstep, Option.elim_some,
      ih hrun]
    cases l with
    | inl l =>
      rw [jointStep, Option.ite_none_right_eq_some] at hstep
      obtain ⟨v, -, rfl⟩ := Option.map_eq_some_iff.mp hstep.2
      rfl
    | inr l =>
      rw [jointStep, Option.ite_none_right_eq_some] at hstep
      obtain ⟨v, hv, rfl⟩ := Option.map_eq_some_iff.mp hstep.2
      rw [← h] at hv
      show _ = P.input s.right l ++ (P.step s.right l).elim [] _
      rw [hv]
      rfl

/-! ## Continuations -/

/-- The same two machines the other way round. -/
def Joint.swap (s : Joint σ τ) : Joint τ σ := ⟨s.right, s.left, s.leftward, s.rightward⟩

theorem jointStep_swap (s : Joint σ τ) (l : ι ⊕ κ) :
    jointStep N M s.swap l.swap = (jointStep M N s l).map Joint.swap := by
  cases l with
  | inl l =>
    by_cases h : M.input s.left l <+: (N.out s.right).drop s.leftward
    · simp only [jointStep, Sum.swap_inl, Joint.swap, h, if_true]
      cases M.step s.left l <;> rfl
    · simp only [jointStep, Sum.swap_inl, Joint.swap, h, if_false, Option.map_none]
  | inr l =>
    by_cases h : N.input s.right l <+: (M.out s.left).drop s.rightward
    · simp only [jointStep, Sum.swap_inr, Joint.swap, h, if_true]
      cases N.step s.right l <;> rfl
    · simp only [jointStep, Sum.swap_inr, Joint.swap, h, if_false, Option.map_none]

variable {G : σ → ι → Prop} {H : τ → κ → Prop}

theorem leads_swap (h : Leads (jointStep M N) (jointGuard G H) s ls t) :
    Leads (jointStep N M) (jointGuard H G) s.swap (ls.map Sum.swap) t.swap := by
  induction ls generalizing s with
  | nil =>
    obtain ⟨hrun, -⟩ := h
    cases hrun
    exact .refl _
  | cons l ls ih =>
    obtain ⟨hrun, hG, hrest⟩ := h
    obtain ⟨u, hu, hrun⟩ := Option.bind_eq_some_iff.mp hrun
    refine .cons ?_ (by rw [jointStep_swap, hu]; rfl) (ih ⟨hrun, hrest u hu⟩)
    cases l with
    | inl l => exact hG
    | inr l => exact hG

/-- The right part goes on by itself. -/
theorem leads_right {ks : List κ} {v : τ}
    (h : Leads N.step (fun u l => H u l ∧ N.input u l = []) s.right ks v) :
    Leads (jointStep M N) (jointGuard G H) s (ks.map .inr) { s with right := v } := by
  induction ks generalizing s with
  | nil =>
    obtain ⟨hrun, -⟩ := h
    cases hrun
    exact .refl _
  | cons k ks ih =>
    obtain ⟨hrun, ⟨hH, hquiet⟩, hrest⟩ := h
    obtain ⟨u, hu, hrun⟩ := Option.bind_eq_some_iff.mp hrun
    have hstep : jointStep M N s (.inr k) = some { s with right := u } := by
      rw [jointStep, hquiet, if_pos List.nil_prefix, hu]
      rfl
    exact .cons hH hstep (ih (s := { s with right := u }) ⟨hrun, hrest u hu⟩)

theorem leads_left {is : List ι} {v : σ}
    (h : Leads M.step (fun u l => G u l ∧ M.input u l = []) s.left is v) :
    Leads (jointStep M N) (jointGuard G H) s (is.map .inl) { s with left := v } := by
  have hswapped := leads_swap (leads_right (M := N) (N := M) (G := H) (s := s.swap) h)
  rw [List.map_map] at hswapped
  exact hswapped

/-- A right part that can take every symbol gets all that is under way. -/
theorem leads_arrived (take : α → κ) (I : τ → Prop)
    (hfeed : ∀ u x, I u → H u (take x) ∧ N.input u (take x) = [x] ∧
      ∃ v, N.step u (take x) = some v ∧ I v)
    (hs : I s.right) (hle : s.rightward ≤ (M.out s.left).length) :
    ∃ ks v, Leads (jointStep M N) (jointGuard G H) s ks
      { s with right := v, rightward := (M.out s.left).length } ∧ I v := by
  generalize hxs : (M.out s.left).drop s.rightward = xs
  induction xs generalizing s with
  | nil =>
    have harrived : s.rightward = (M.out s.left).length :=
      Nat.le_antisymm hle (List.drop_eq_nil_iff.mp hxs)
    refine ⟨[], s.right, ?_, hs⟩
    rw [← harrived]
    exact .refl s
  | cons x xs ih =>
    obtain ⟨hH, htake, u, hu, hI⟩ := hfeed s.right x hs
    have hlt : s.rightward < (M.out s.left).length := by
      by_contra hge
      rw [List.drop_eq_nil_of_le (Nat.le_of_not_lt hge)] at hxs
      cases hxs
    have hstep : jointStep M N s (.inr (take x)) =
        some { s with right := u, rightward := s.rightward + 1 } := by
      have hnext : [x] <+: x :: xs := ⟨xs, rfl⟩
      rw [jointStep, htake, hxs, if_pos hnext, hu]
      rfl
    have hrest : (M.out s.left).drop (s.rightward + 1) = xs := by
      rw [← List.drop_drop, hxs]
      rfl
    obtain ⟨ks, v, hlead, hv⟩ :=
      ih (s := { s with right := u, rightward := s.rightward + 1 }) hI hlt hrest
    exact ⟨.inr (take x) :: ks, v, .cons hH hstep hlead, hv⟩

theorem leads_arrived_left (take : β → ι) (I : σ → Prop)
    (hfeed : ∀ u x, I u → G u (take x) ∧ M.input u (take x) = [x] ∧
      ∃ v, M.step u (take x) = some v ∧ I v)
    (hs : I s.left) (hle : s.leftward ≤ (N.out s.right).length) :
    ∃ ks v, Leads (jointStep M N) (jointGuard G H) s ks
      { s with left := v, leftward := (N.out s.right).length } ∧ I v := by
  obtain ⟨ks, v, hlead, hv⟩ :=
    leads_arrived (M := N) (N := M) (G := H) (H := G) (s := s.swap) take I hfeed hs hle
  exact ⟨ks.map Sum.swap, v, leads_swap hlead, hv⟩

end MctpSerial.JoinedMachines
