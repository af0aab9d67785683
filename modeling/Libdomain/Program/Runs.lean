import Mathlib.Data.List.Basic

/-! # Runs of labelled steps

A run takes one step for each of its labels. A function between two kinds of states that
maps steps to steps maps runs to runs, and if every step of its image comes from one, so
does every run.
-/
namespace Libdomain.Program

variable {σ τ α β : Type}

inductive Runs (step : σ → α → σ → Prop) : σ → List α → σ → Prop
  | nil (s : σ) : Runs step s [] s
  | cons {s t u : σ} {a : α} {as : List α} (first : step s a t) (rest : Runs step t as u) : Runs step s (a :: as) u

variable {step : σ → α → σ → Prop} {step' : τ → α → τ → Prop} {s t : σ} {as : List α}

theorem Runs.cons_iff {a : α} : Runs step s (a :: as) t ↔ ∃ u, step s a u ∧ Runs step u as t := by
  constructor
  · intro h
    cases h with
    | cons first rest => exact ⟨_, first, rest⟩
  · rintro ⟨u, first, rest⟩
    exact .cons first rest

theorem Runs.nil_iff : Runs step s [] t ↔ t = s := by
  constructor
  · rintro ⟨⟩
    rfl
  · rintro rfl
    exact .nil t

theorem Runs.append {bs : List α} {u : σ} (h : Runs step s as t) (h' : Runs step t bs u) : Runs step s (as ++ bs) u := by
  induction h with
  | nil => exact h'
  | cons first _ ih => exact .cons first (ih h')

/-- What the steps with the labels of a run preserve, the run preserves. -/
theorem Runs.invariant {I : σ → Prop} (h : Runs step s as t) (hstep : ∀ a ∈ as, ∀ s t, step s a t → I s → I t)
    (hs : I s) : I t := by
  induction h with
  | nil => exact hs
  | cons first _ ih =>
    exact ih (fun a ha => hstep a (List.mem_cons_of_mem _ ha)) (hstep _ List.mem_cons_self _ _ first hs)

theorem Runs.map_iff {g : α → β} {step : σ → β → σ → Prop} :
    Runs step s (as.map g) t ↔ Runs (fun s a t => step s (g a) t) s as t := by
  induction as generalizing s with
  | nil => rw [List.map_nil, nil_iff, nil_iff]
  | cons a as ih =>
    rw [List.map_cons, cons_iff, cons_iff]
    exact exists_congr fun u => and_congr_right fun _ => ih

/-- A function that maps steps to steps maps runs to runs. -/
theorem Runs.simulated {f : σ → τ} (h : Runs step s as t)
    (hstep : ∀ a ∈ as, ∀ s t, step s a t → step' (f s) a (f t)) : Runs step' (f s) as (f t) := by
  induction h with
  | nil => exact .nil _
  | cons first _ ih =>
    exact .cons (hstep _ List.mem_cons_self _ _ first) (ih fun a ha => hstep a (List.mem_cons_of_mem _ ha))

/-- Where every step from the image of a good state is the image of a step to a good state, every
run from such an image is the image of a run. -/
theorem Runs.lifted_of {f : σ → τ} {I : σ → Prop} {t' : τ} (h : Runs step' (f s) as t') (hs : I s)
    (hstep : ∀ a ∈ as, ∀ s t', I s → step' (f s) a t' → ∃ t, step s a t ∧ I t ∧ f t = t') :
    ∃ t, Runs step s as t ∧ f t = t' := by
  induction as generalizing s with
  | nil => exact ⟨s, .nil s, (nil_iff.mp h).symm⟩
  | cons a as ih =>
    obtain ⟨u', first, rest⟩ := cons_iff.mp h
    obtain ⟨u, hfirst, hu, rfl⟩ := hstep a List.mem_cons_self s u' hs first
    obtain ⟨t, hrest, rfl⟩ := ih rest hu fun b hb => hstep b (List.mem_cons_of_mem _ hb)
    exact ⟨t, .cons hfirst hrest, rfl⟩

theorem Runs.lifted {f : σ → τ} {t' : τ} (h : Runs step' (f s) as t')
    (hstep : ∀ a ∈ as, ∀ s t', step' (f s) a t' → ∃ t, step s a t ∧ f t = t') : ∃ t, Runs step s as t ∧ f t = t' := by
  refine h.lifted_of (I := fun _ => True) trivial fun a ha s t' _ hs => ?_
  obtain ⟨t, ht, heq⟩ := hstep a ha s t' hs
  exact ⟨t, ht, trivial, heq⟩

end Libdomain.Program
