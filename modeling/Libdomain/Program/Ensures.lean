import Libdomain.Program.Effects

/-! # Programs that return

`Ensures` says of a stateful program that it returns, and in which state: started in a state
with the precondition it stops with no fault, and its value and the state it leaves satisfy
the postcondition.
-/
namespace Libdomain.Program

variable {σ ε α β : Type}

def Ensures (P : σ → Prop) (p : Prog σ ε α) (Q : α → σ → Prop) : Prop :=
  ∀ s, P s → ∃ a t, exec p s = (.ok a, t) ∧ Q a t

variable {P P' : σ → Prop} {Q Q' : α → σ → Prop} {S : β → σ → Prop}

theorem Ensures.pure {a : α} (h : ∀ s, P s → Q a s) : Ensures P (Pure.pure a : Prog σ ε α) Q :=
  fun s hs => ⟨a, s, rfl, h s hs⟩

theorem Ensures.modify {f : σ → σ} {Q : PUnit → σ → Prop} (h : ∀ s, P s → Q ⟨⟩ (f s)) :
    Ensures P (modify f : Prog σ ε PUnit) Q := fun s hs => ⟨⟨⟩, f s, rfl, h s hs⟩

theorem Ensures.bind {p : Prog σ ε α} {k : α → Prog σ ε β} (hp : Ensures P p Q)
    (hk : ∀ a, Ensures (Q a) (k a) S) : Ensures P (p >>= k) S := by
  intro s hs
  obtain ⟨a, t, hexec, ht⟩ := hp s hs
  rw [exec_bind_ok hexec]
  exact hk a t ht

theorem Ensures.bind_value {R : σ → Prop} {p : Prog σ ε α} {k : α → Prog σ ε β} {v : α}
    (hp : Ensures P p fun a s => a = v ∧ R s) (hk : Ensures R (k v) S) : Ensures P (p >>= k) S :=
  hp.bind fun _ s ⟨hv, hs⟩ => hv ▸ hk s hs

theorem Ensures.get {k : σ → Prog σ ε β} (hk : ∀ s, P s → Ensures (fun t => t = s) (k s) S) :
    Ensures P (MonadState.get >>= k) S := by
  intro s hs
  rw [exec_bind_ok (exec_get s)]
  exact hk s hs s rfl

theorem Ensures.consequence {p : Prog σ ε α} (h : Ensures P p Q) (hP : ∀ s, P' s → P s)
    (hQ : ∀ a s, Q a s → Q' a s) : Ensures P' p Q' := by
  intro s hs
  obtain ⟨a, t, hexec, ht⟩ := h s (hP s hs)
  exact ⟨a, t, hexec, hQ a t ht⟩

/-- What holds of the state that is read still holds afterwards. -/
theorem Ensures.read {k : σ → Prog σ ε β} (hk : ∀ s, P s → Ensures P (k s) S) :
    Ensures P (MonadState.get >>= k) S :=
  .get fun s hs => (hk s hs).consequence (by rintro _ rfl; exact hs) fun _ _ h => h

theorem Ensures.of_state {p : Prog σ ε α} (h : ∀ s, P s → Ensures (fun t => t = s) p Q) : Ensures P p Q :=
  fun s hs => h s hs s rfl

theorem Ensures.forM {γ : Type} {f : γ → Prog σ ε PUnit} {xs : List γ}
    (h : ∀ x ∈ xs, Ensures P (f x) fun _ => P) : Ensures P (xs.forM f) fun _ => P := by
  induction xs with
  | nil => exact .pure fun _ hs => hs
  | cons x xs ih =>
    change Ensures P (f x >>= fun _ => xs.forM f) _
    exact (h x List.mem_cons_self).bind fun _ => ih fun y hy => h y (List.mem_cons_of_mem x hy)

/-- A program without faults returns. -/
theorem Keeps.ensures {I : σ → Prop} {p : Prog σ ε α} (h : Keeps I (fun _ => False) p) : Ensures I p fun _ => I := by
  intro s hs
  obtain ⟨hkeep, hfault⟩ := h s hs
  rcases he : exec p s with ⟨e | a, t⟩
  · rw [he] at hfault
    exact (hfault e rfl).elim
  · rw [he] at hkeep
    exact ⟨a, t, rfl, hkeep⟩

end Libdomain.Program
