import Libdomain.Program.Effects

/-! # Programs that give up

A program makes calls that may be refused and gives up at the first one that is. When all
of them are granted, what it does is a function of the state.
-/
namespace Libdomain.Program

variable {κ σ ε : Type} {P Q : σ → Prop}

/-- The program updates the state if no call is refused, and else it gives up with the error.
Started in a state with `P` it leaves one with `Q` either way. -/
structure Attempts (refused : κ → Bool) (e : ε) (P Q : σ → Prop) (p : Prog σ ε Unit) (calls : List κ)
    (f : σ → σ) : Prop where
  granted : (∀ call ∈ calls, refused call = false) → ∀ s, exec p s = (.ok (), f s)
  gaveUp : (∃ call ∈ calls, refused call = true) → ∀ s, P s → ∃ t, exec p s = (.error e, t) ∧ Q t
  keeps : ∀ s, P s → Q (f s)

variable {refused : κ → Bool} {e : ε} {p q : Prog σ ε Unit} {calls calls' : List κ} {f g : σ → σ}

theorem granted_or_refused (refused : κ → Bool) (calls : List κ) :
    (∀ call ∈ calls, refused call = false) ∨ ∃ call ∈ calls, refused call = true := by
  by_cases h : ∃ call ∈ calls, refused call = true
  · exact .inr h
  · exact .inl fun call hc => Bool.eq_false_iff.mpr fun hr => h ⟨call, hc, hr⟩

/-- When the first calls are granted, a later one is the one that is refused. -/
theorem refused_behind (hgranted : ∀ call ∈ calls, refused call = false)
    (h : ∃ call ∈ calls ++ calls', refused call = true) : ∃ call ∈ calls', refused call = true := by
  obtain ⟨call, hmem, hrefused⟩ := h
  refine ⟨call, (List.mem_append.mp hmem).resolve_left ?_, hrefused⟩
  intro hc
  rw [hgranted call hc] at hrefused
  cases hrefused

theorem Attempts.of_eq (h : Attempts refused e P Q p calls f) (hcalls : calls = calls') (hf : f = g) :
    Attempts refused e P Q p calls' g := by
  rw [← hcalls, ← hf]
  exact h

theorem Attempts.pure : Attempts refused e P P (pure ()) [] id where
  granted _ _ := rfl
  gaveUp h := by simp at h
  keeps _ hs := hs

theorem Attempts.modify (h : ∀ s, P s → Q (f s)) : Attempts refused e P Q (modify f) [] f where
  granted _ _ := rfl
  gaveUp h := by simp at h
  keeps := h

theorem Attempts.check (call : κ) :
    Attempts refused e P P (if refused call then throw e else Pure.pure ()) [call] id where
  granted h s := by
    rw [if_neg (by simp [h call List.mem_cons_self])]
    rfl
  gaveUp h s hs := by
    obtain ⟨call', hmem, hrefused⟩ := h
    rw [List.mem_singleton.mp hmem] at hrefused
    rw [if_pos hrefused]
    exact ⟨s, rfl, hs⟩
  keeps _ hs := hs

theorem Attempts.bind (h : Attempts refused e P Q p calls f) (h' : Attempts refused e Q Q q calls' g) :
    Attempts refused e P Q (p >>= fun _ => q) (calls ++ calls') (g ∘ f) where
  granted hall s := by
    rw [exec_bind_ok (h.granted (fun call hc => hall call (List.mem_append_left _ hc)) s)]
    exact h'.granted (fun call hc => hall call (List.mem_append_right _ hc)) (f s)
  gaveUp hsome s hs := by
    rcases granted_or_refused refused calls with hgranted | hfirst
    · rw [exec_bind_ok (h.granted hgranted s)]
      exact h'.gaveUp (refused_behind hgranted hsome) (f s) (h.keeps s hs)
    · obtain ⟨t, ht, hQ⟩ := h.gaveUp hfirst s hs
      exact ⟨t, exec_bind_error ht, hQ⟩
  keeps s hs := h'.keeps (f s) (h.keeps s hs)

theorem Attempts.ite {c : Prop} [Decidable c] (h : c → Attempts refused e P P p calls f) :
    Attempts refused e P P (if c then p else Pure.pure ()) (if c then calls else []) (if c then f else id) := by
  by_cases hc : c
  · simp only [if_pos hc]
    exact h hc
  · simp only [if_neg hc]
    exact .pure

/-- A loop whose rounds make one call each and leave the state alone. -/
theorem Attempts.forM {body : κ → Prog σ ε Unit}
    (h : ∀ call ∈ calls, Attempts refused e P P (body call) [call] id) :
    Attempts refused e P P (calls.forM body) calls id := by
  induction calls with
  | nil => exact .pure
  | cons call calls ih =>
    exact (h call List.mem_cons_self).bind (ih fun c hc => h c (List.mem_cons_of_mem _ hc))

end Libdomain.Program
