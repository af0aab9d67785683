import Libdomain.Program.Effects

/-! # Programs that ignore a component of the state

A component of the state is given by the function that fills it in. A program that ignores
it does the same whatever it holds, and may overwrite it.
-/
namespace Libdomain.Program

variable {σ ε α β ρ : Type} {put : ρ → σ → σ} {s : σ}

/-- Outcome and final state do not depend on the component. What the program leaves there may
depend on what it has found. -/
def IgnoresAt (put : ρ → σ → σ) (s : σ) (p : Prog σ ε α) : Prop :=
  ∃ outcome t, ∃ f : ρ → ρ, ∀ r, exec p (put r s) = (outcome, put (f r) t)

def Ignores (put : ρ → σ → σ) (p : Prog σ ε α) : Prop := ∀ s, IgnoresAt put s p

theorem Ignores.pure {a : α} : Ignores put (Pure.pure a : Prog σ ε α) :=
  fun s => ⟨.ok a, s, id, fun _ => rfl⟩

theorem Ignores.throw {e : ε} : Ignores put (throw e : Prog σ ε α) :=
  fun s => ⟨.error e, s, id, fun _ => rfl⟩

theorem Ignores.overwrite {f : σ → σ} (value : ρ) (h : ∀ r s, f (put r s) = put value s) :
    Ignores put (modify f : Prog σ ε PUnit) := by
  intro s
  refine ⟨.ok ⟨⟩, s, fun _ => value, fun r => ?_⟩
  rw [exec_modify, h]

theorem Ignores.modify {f : σ → σ} (h : ∀ r s, f (put r s) = put r (f s)) :
    Ignores put (modify f : Prog σ ε PUnit) := by
  intro s
  refine ⟨.ok ⟨⟩, f s, id, fun r => ?_⟩
  rw [exec_modify, h, id]

theorem IgnoresAt.bind {p : Prog σ ε α} {k : α → Prog σ ε β} (hp : IgnoresAt put s p)
    (hk : ∀ a, Ignores put (k a)) : IgnoresAt put s (p >>= k) := by
  obtain ⟨outcome, t, f, hp⟩ := hp
  cases outcome with
  | error e => exact ⟨.error e, t, f, fun r => exec_bind_error (hp r)⟩
  | ok a =>
    obtain ⟨outcome, u, g, hk⟩ := hk a t
    refine ⟨outcome, u, g ∘ f, fun r => ?_⟩
    rw [exec_bind_ok (hp r), hk (f r)]
    rfl

theorem Ignores.bind {p : Prog σ ε α} {k : α → Prog σ ε β} (hp : Ignores put p)
    (hk : ∀ a, Ignores put (k a)) : Ignores put (p >>= k) :=
  fun s => (hp s).bind hk

/-- A program may read the state for what it holds besides the component. -/
theorem IgnoresAt.get {k : σ → Prog σ ε β} (hput : ∀ r, k (put r s) = k s)
    (hk : IgnoresAt put s (k s)) : IgnoresAt put s (MonadState.get >>= k) := by
  obtain ⟨outcome, t, f, hk⟩ := hk
  refine ⟨outcome, t, f, fun r => ?_⟩
  rw [exec_bind_ok (exec_get _), hput, hk]

theorem Ignores.get {k : σ → Prog σ ε β} (hput : ∀ r s, k (put r s) = k s)
    (hk : ∀ s, Ignores put (k s)) : Ignores put (MonadState.get >>= k) :=
  fun s => .get (fun r => hput r s) (hk s s)

theorem Ignores.ite {c : Prop} [Decidable c] {p q : Prog σ ε α} (hp : Ignores put p)
    (hq : Ignores put q) : Ignores put (if c then p else q) := by
  by_cases hc : c
  · rw [if_pos hc]
    exact hp
  · rw [if_neg hc]
    exact hq

theorem Ignores.forM {γ : Type} {f : γ → Prog σ ε PUnit} {xs : List γ} (h : ∀ x, Ignores put (f x)) :
    Ignores put (xs.forM f) := by
  induction xs with
  | nil => exact Ignores.pure
  | cons x xs ih => exact Ignores.bind (h x) fun _ => ih

end Libdomain.Program
