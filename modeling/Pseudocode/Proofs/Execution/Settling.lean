import Pseudocode.Proofs.Execution.Safe
/-
# `Proofs.Execution.Settling` — results that do not depend on the bound

An action that is given a bound on its steps settles when every bound that is large enough leads
to the same result (`Settles`).
-/
namespace Pseudocode

variable {α β : Type} {env : Env} {w w' w₁ : World} {a : α} {b : β} {x : Nat → Eval α}

/-- With every bound that is large enough, this is the result. -/
def Settles (x : Nat → Eval α) (env : Env) (w : World) (a : α) (w' : World) : Prop :=
  ∃ least, ∀ n, least ≤ n → x n env w = .ok a w'

namespace Settles

theorem always (h : ∀ n, x n env w = .ok a w') : Settles x env w a w' := ⟨0, fun n _ => h n⟩

theorem bind {f : Nat → α → Eval β} (h : Settles x env w a w₁)
    (k : Settles (fun n => f n a) env w₁ b w') : Settles (fun n => x n >>= f n) env w b w' := by
  obtain ⟨m, first⟩ := h
  obtain ⟨m', second⟩ := k
  refine ⟨max m m', fun n enough => ?_⟩
  exact (Eval.bind_ok (first n (by omega)) _).trans (second n (by omega))

/-- What a bound leaves after one step. -/
theorem step (h : Settles (fun n => x (n + 1)) env w a w') : Settles x env w a w' := by
  obtain ⟨m, result⟩ := h
  refine ⟨m + 1, fun n enough => ?_⟩
  obtain ⟨k, rfl⟩ : ∃ k, n = k + 1 := ⟨n - 1, by omega⟩
  exact result k (by omega)

theorem later (h : Settles x env w a w') : Settles (fun n => x (n + 1)) env w a w' := by
  obtain ⟨m, result⟩ := h
  exact ⟨m, fun n enough => result (n + 1) (by omega)⟩

theorem of_eq {y : Nat → Eval α} (h : Settles x env w a w')
    (same : ∀ n, y n env w = x n env w) : Settles y env w a w' := by
  obtain ⟨m, result⟩ := h
  exact ⟨m, fun n enough => (same n).trans (result n enough)⟩

/-- There is one result. -/
theorem unique {c : α} {w'' : World} (h : Settles x env w a w') (k : Settles x env w c w'') :
    a = c ∧ w' = w'' := by
  obtain ⟨m, first⟩ := h
  obtain ⟨m', second⟩ := k
  have same := (first (max m m') (by omega)).symm.trans (second (max m m') (by omega))
  cases same
  exact ⟨rfl, rfl⟩

theorem placed {span : Span} (h : Settles x env w a w') :
    Settles (fun n => Eval.placed span (x n)) env w a w' := by
  obtain ⟨m, result⟩ := h
  exact ⟨m, fun n enough => Eval.tryCatch_ok (result n enough) _⟩

/-- Actions one after another, none of which changes anything. -/
theorem mapM {f : Nat → β → Eval α} {g : β → α} : ∀ {xs : List β},
    (∀ y ∈ xs, Settles (fun n => f n y) env w (g y) w) →
      Settles (fun n => xs.mapM (f n)) env w (xs.map g) w
  | [], _ => .always fun _ => rfl
  | y :: ys, each => by
    have first := each y List.mem_cons_self
    have rest := mapM fun z mem => each z (List.mem_cons_of_mem y mem)
    have both : Settles (fun n => f n y >>= fun b => ys.mapM (f n) >>= fun bs => pure (b :: bs))
        env w (g y :: ys.map g) w :=
      first.bind (rest.bind (.always fun _ => rfl))
    refine both.of_eq fun n => ?_
    rw [List.mapM_cons]

end Settles

end Pseudocode
