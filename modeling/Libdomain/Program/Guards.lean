import Libdomain.Program.Effects

/-! # What a fault says

`Guarded` relates a fault to the state it is found in: from a state with the invariant a
program returns to one, or stops with a fault and a state that satisfy the error condition.
-/
namespace Libdomain.Program

variable {σ ε α β : Type}

def Guarded (I : σ → Prop) (E : ε → σ → Prop) (p : Prog σ ε α) : Prop :=
  ∀ s, I s → (∀ a t, exec p s = (.ok a, t) → I t) ∧ ∀ e t, exec p s = (.error e, t) → E e t

variable {I : σ → Prop} {E : ε → σ → Prop}

theorem Guarded.pure {a : α} : Guarded I E (Pure.pure a : Prog σ ε α) := by
  intro s hs
  refine ⟨?_, ?_⟩
  · rintro _ _ ⟨⟩
    exact hs
  · rintro _ _ ⟨⟩

theorem Guarded.throw {e : ε} (h : ∀ s, I s → E e s) : Guarded I E (throw e : Prog σ ε α) := by
  intro s hs
  refine ⟨?_, ?_⟩
  · rintro _ _ ⟨⟩
  · rintro _ _ ⟨⟩
    exact h s hs

theorem Guarded.modify {f : σ → σ} (h : ∀ s, I s → I (f s)) : Guarded I E (modify f : Prog σ ε PUnit) := by
  intro s hs
  refine ⟨?_, ?_⟩
  · rintro _ _ ⟨⟩
    exact h s hs
  · rintro _ _ ⟨⟩

theorem Guarded.bind {p : Prog σ ε α} {k : α → Prog σ ε β} (hp : Guarded I E p) (hk : ∀ a, Guarded I E (k a)) :
    Guarded I E (p >>= k) := by
  intro s hs
  obtain ⟨hok, herror⟩ := hp s hs
  rcases he : exec p s with ⟨e | a, t⟩
  · rw [exec_bind_error he]
    refine ⟨?_, ?_⟩
    · rintro _ _ ⟨⟩
    · rintro _ _ ⟨⟩
      exact herror e t he
  · rw [exec_bind_ok he]
    exact hk a t (hok a t he)

theorem Guarded.get {k : σ → Prog σ ε β} (hk : ∀ s, Guarded I E (k s)) : Guarded I E (MonadState.get >>= k) := by
  intro s hs
  rw [exec_bind_ok (exec_get s)]
  exact hk s s hs

theorem Guarded.ite {c : Prop} [Decidable c] {p q : Prog σ ε α} (hp : Guarded I E p) (hq : Guarded I E q) :
    Guarded I E (if c then p else q) := by
  by_cases hc : c
  · rw [if_pos hc]
    exact hp
  · rw [if_neg hc]
    exact hq

theorem Guarded.forM {γ : Type} {f : γ → Prog σ ε PUnit} {xs : List γ} (h : ∀ x, Guarded I E (f x)) :
    Guarded I E (xs.forM f) := by
  induction xs with
  | nil => exact Guarded.pure
  | cons x xs ih => exact Guarded.bind (h x) fun _ => ih

theorem Keeps.weaken {E F : ε → Prop} {p : Prog σ ε α} (h : Keeps I E p) (hE : ∀ e, E e → F e) : Keeps I F p :=
  fun s hs => ⟨(h s hs).1, fun e he => hE e ((h s hs).2 e he)⟩

end Libdomain.Program
