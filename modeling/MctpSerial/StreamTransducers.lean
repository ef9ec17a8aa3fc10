import Mathlib.Data.List.Induction
import Mathlib.Data.List.ReduceOption

/-!
# Transducers that read one symbol at a time

A transducer consumes a stream symbol by symbol and answers each symbol with at
most one output. Its trace keeps the silent answers, so that the position of an
output in the trace is the position of the symbol which triggered it. Finite
executions compose by `Runs.append`.
-/
namespace MctpSerial.StreamTransducers

variable {σ ι ο : Type} {step : σ → ι → σ × Option ο}

/-- The state reached after a whole input. -/
def run (step : σ → ι → σ × Option ο) : σ → List ι → σ
  | s, [] => s
  | s, x :: xs => run step (step s x).1 xs

/-- One answer for each symbol of the input. -/
def trace (step : σ → ι → σ × Option ο) : σ → List ι → List (Option ο)
  | _, [] => []
  | s, x :: xs => (step s x).2 :: trace step (step s x).1 xs

/-- The outputs of a whole input, in order. -/
def emitted (step : σ → ι → σ × Option ο) (s : σ) (xs : List ι) : List ο :=
  (trace step s xs).reduceOption

@[simp] theorem length_trace (s : σ) (xs : List ι) :
    (trace step s xs).length = xs.length := by
  induction xs generalizing s with
  | nil => rfl
  | cons x xs ih => simp [trace, ih]

theorem run_append (s : σ) (xs ys : List ι) :
    run step s (xs ++ ys) = run step (run step s xs) ys := by
  induction xs generalizing s with
  | nil => rfl
  | cons x xs ih => exact ih _

theorem trace_append (s : σ) (xs ys : List ι) :
    trace step s (xs ++ ys) = trace step s xs ++ trace step (run step s xs) ys := by
  induction xs generalizing s with
  | nil => rfl
  | cons x xs ih => simp [trace, run, ih]

theorem emitted_append (s : σ) (xs ys : List ι) :
    emitted step s (xs ++ ys) = emitted step s xs ++ emitted step (run step s xs) ys := by
  simp only [emitted, trace_append, List.reduceOption_append]

theorem emitted_concat (s : σ) (xs : List ι) (x : ι) :
    emitted step s (xs ++ [x]) =
      emitted step s xs ++ (step (run step s xs) x).2.toList := by
  rw [emitted_append]
  cases h : (step (run step s xs) x).2 <;>
    simp [emitted, trace, h, List.reduceOption_cons_of_some, List.reduceOption_cons_of_none]

theorem emitted_singleton (s : σ) (x : ι) : emitted step s [x] = (step s x).2.toList :=
  emitted_concat s [] x

@[simp] theorem run_concat (s : σ) (xs : List ι) (x : ι) :
    run step s (xs ++ [x]) = (step (run step s xs) x).1 := by
  rw [run_append]
  rfl

/-- A measure that drops with every symbol of a kind. -/
theorem run_le_sub {μ : σ → ℕ} {P : ι → Prop} (h : ∀ s x, P x → μ (step s x).1 ≤ μ s - 1)
    {xs : List ι} (hxs : ∀ x ∈ xs, P x) (s : σ) : μ (run step s xs) ≤ μ s - xs.length := by
  induction xs generalizing s with
  | nil => exact Nat.le_refl _
  | cons x xs ih =>
    have hrest := ih (fun y hy => hxs y (List.mem_cons_of_mem x hy)) (step s x).1
    have hfirst := h s x (hxs x List.mem_cons_self)
    rw [run, List.length_cons]
    omega

/-- An execution with its complete trace. -/
def Runs (step : σ → ι → σ × Option ο) (s : σ) (xs : List ι) (ys : List (Option ο))
    (t : σ) : Prop :=
  trace step s xs = ys ∧ run step s xs = t

theorem Runs.nil (s : σ) : Runs step s [] [] s := ⟨rfl, rfl⟩

theorem Runs.cons {s t u : σ} {x : ι} {y : Option ο} {xs : List ι} {ys : List (Option ο)}
    (h : step s x = (t, y)) (h' : Runs step t xs ys u) :
    Runs step s (x :: xs) (y :: ys) u := by
  obtain ⟨hy, hu⟩ := h'
  exact ⟨by simp [trace, h, hy], by simp [run, h, hu]⟩

theorem Runs.single {s t : σ} {x : ι} {y : Option ο} (h : step s x = (t, y)) :
    Runs step s [x] [y] t :=
  .cons h (.nil t)

theorem Runs.append {s t u : σ} {xs xs' : List ι} {ys ys' : List (Option ο)}
    (h : Runs step s xs ys t) (h' : Runs step t xs' ys' u) :
    Runs step s (xs ++ xs') (ys ++ ys') u := by
  obtain ⟨rfl, rfl⟩ := h
  obtain ⟨rfl, rfl⟩ := h'
  exact ⟨trace_append .., run_append ..⟩

theorem Runs.emitted_eq {s t : σ} {xs : List ι} {ys : List (Option ο)}
    (h : Runs step s xs ys t) : emitted step s xs = ys.reduceOption := by
  rw [emitted, h.1]

/-- An execution that answers no symbol. -/
abbrev Silent (step : σ → ι → σ × Option ο) (s : σ) (xs : List ι) (t : σ) : Prop :=
  Runs step s xs (List.replicate xs.length none) t

theorem Silent.cons {s t u : σ} {x : ι} {xs : List ι} (h : step s x = (t, none))
    (h' : Silent step t xs u) : Silent step s (x :: xs) u :=
  Runs.cons h h'

theorem Silent.append {s t u : σ} {xs ys : List ι} (h : Silent step s xs t)
    (h' : Silent step t ys u) : Silent step s (xs ++ ys) u := by
  simpa [Silent, List.replicate_append_replicate] using Runs.append h h'

theorem Silent.emitted_eq {s t : σ} {xs : List ι} (h : Silent step s xs t) :
    emitted step s xs = [] := by
  rw [Runs.emitted_eq h, List.reduceOption_replicate_none]

/-- Related states answer every input alike when related states answer one symbol
alike and stay related. -/
theorem trace_eq_of_simulation (R : σ → σ → Prop)
    (sim : ∀ s t x, R s t → (step s x).2 = (step t x).2 ∧ R (step s x).1 (step t x).1)
    {s t : σ} (h : R s t) (xs : List ι) : trace step s xs = trace step t xs := by
  induction xs generalizing s t with
  | nil => rfl
  | cons x xs ih =>
    obtain ⟨ho, hr⟩ := sim s t x h
    rw [trace, trace, ho, ih hr]

/-- A list merged from two others, each in its own order. -/
inductive Interleaving {α : Type} : List α → List α → List α → Prop
  | nil : Interleaving [] [] []
  | left {xs ys zs : List α} (x : α) (h : Interleaving xs ys zs) :
      Interleaving (xs ++ [x]) ys (zs ++ [x])
  | right {xs ys zs : List α} (y : α) (h : Interleaving xs ys zs) :
      Interleaving xs (ys ++ [y]) (zs ++ [y])

theorem Interleaving.filter {α : Type} {xs ys zs : List α} (h : Interleaving xs ys zs)
    (p : α → Bool) : Interleaving (xs.filter p) (ys.filter p) (zs.filter p) := by
  induction h with
  | nil => exact .nil
  | left x h ih =>
    rw [List.filter_append, List.filter_append]
    cases hx : p x with
    | false => simpa [hx] using ih
    | true => simpa [hx] using ih.left x
  | right y h ih =>
    rw [List.filter_append, List.filter_append]
    cases hy : p y with
    | false => simpa [hy] using ih
    | true => simpa [hy] using ih.right y

/-- Merged with nothing, a list stays as it is. -/
theorem Interleaving.eq_left {α : Type} {xs ys zs : List α} (h : Interleaving xs ys zs)
    (hys : ys = []) : zs = xs := by
  induction h with
  | nil => rfl
  | left x h ih => rw [ih hys]
  | right y h ih => simp at hys

/-- What is left of a merged list is merged from what is left of its parts. -/
theorem Interleaving.of_sublist {α : Type} {xs ys zs ws : List α} (h : Interleaving xs ys zs)
    (hws : ws.Sublist zs) :
    ∃ us vs, us.Sublist xs ∧ vs.Sublist ys ∧ Interleaving us vs ws := by
  induction h generalizing ws with
  | nil => exact ⟨[], [], .refl _, .refl _, List.sublist_nil.mp hws ▸ .nil⟩
  | left x h ih =>
    obtain ⟨as, bs, rfl, has, hbs⟩ := List.sublist_append_iff.mp hws
    obtain ⟨us, vs, hus, hvs, hmerged⟩ := ih has
    obtain rfl | rfl := List.sublist_singleton.mp hbs
    · exact ⟨us, vs, hus.trans (List.sublist_append_left _ _), hvs,
        (List.append_nil as).symm ▸ hmerged⟩
    · exact ⟨us ++ [x], vs, hus.append (.refl _), hvs, hmerged.left x⟩
  | right y h ih =>
    obtain ⟨as, bs, rfl, has, hbs⟩ := List.sublist_append_iff.mp hws
    obtain ⟨us, vs, hus, hvs, hmerged⟩ := ih has
    obtain rfl | rfl := List.sublist_singleton.mp hbs
    · exact ⟨us, vs, hus, hvs.trans (List.sublist_append_left _ _),
        (List.append_nil as).symm ▸ hmerged⟩
    · exact ⟨us, vs ++ [y], hus, hvs.append (.refl _), hmerged.right y⟩

theorem Interleaving.mem {α : Type} {xs ys zs : List α} {z : α} (h : Interleaving xs ys zs)
    (hz : z ∈ zs) : z ∈ xs ∨ z ∈ ys := by
  induction h with
  | nil => exact Or.inl hz
  | left x h ih =>
    rw [List.mem_append] at hz ⊢
    exact hz.elim (fun hz => (ih hz).imp_left Or.inl) fun hz => Or.inl (Or.inr hz)
  | right y h ih =>
    rw [List.mem_append] at hz ⊢
    exact hz.elim (fun hz => (ih hz).imp_right Or.inl) fun hz => Or.inr (Or.inr hz)

end MctpSerial.StreamTransducers
