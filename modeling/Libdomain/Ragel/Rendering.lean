import Libdomain.Ragel.Machine

/-! # Renderings

A type of values with a text for each value describes an expression when these texts are
exactly the words of its language. Descriptions are composed as expressions are.
-/
namespace Libdomain.Ragel.Expr
variable {α A T S : Type} [LE α]

/-- The words of the expression are the texts of the values. -/
def Renders (e : Expr α A) (text : T → List α) : Prop := ∀ w, w ∈ e.language ↔ ∃ x, text x = w

theorem renders_self (e : Expr α A) : Renders e (Subtype.val : {u // u ∈ e.language} → List α) := by
  intro w
  simp

theorem renders_char [@Std.Refl α (· ≤ ·)] [@Std.Antisymm α (· ≤ ·)] (c : α) :
    Renders (char c : Expr α A) fun _ : Unit => [c] := by
  intro w
  constructor
  · rintro ⟨d, hlo, hhi, rfl⟩
    cases Std.Antisymm.antisymm (r := (· ≤ ·)) c d hlo hhi
    exact ⟨(), rfl⟩
  · rintro ⟨_, rfl⟩
    exact ⟨c, Std.Refl.refl c, Std.Refl.refl c, rfl⟩

theorem renders_nil : Renders (cat [] : Expr α A) fun _ : Unit => [] := by
  intro w
  have hnil : w ∈ (cat [] : Expr α A).language ↔ w = [] := Language.mem_one w
  rw [hnil]
  simp [eq_comm]

theorem Renders.leave {e : Expr α A} {text : T → List α} (h : Renders e text) (a : A) :
    Renders (e.leave a) text := h

theorem Renders.enter {e : Expr α A} {text : T → List α} (h : Renders e text) (a : A) :
    Renders (e.enter a) text := h

theorem Renders.cons {e : Expr α A} {es : List (Expr α A)} {text : T → List α} {texts : S → List α}
    (he : Renders e text) (hes : Renders (cat es) texts) :
    Renders (cat (e :: es)) fun x : T × S => text x.1 ++ texts x.2 := by
  have hcat : ∀ w, w ∈ (cat (e :: es)).language ↔ ∃ u ∈ e.language, ∃ v ∈ (cat es).language, u ++ v = w := by
    intro w
    cases es with
    | nil => simp [cat, language]
    | cons f es => exact Language.mem_mul
  intro w
  rw [hcat]
  constructor
  · rintro ⟨u, hu, v, hv, rfl⟩
    obtain ⟨x, rfl⟩ := (he u).mp hu
    obtain ⟨y, rfl⟩ := (hes v).mp hv
    exact ⟨(x, y), rfl⟩
  · rintro ⟨x, rfl⟩
    exact ⟨_, (he _).mpr ⟨x.1, rfl⟩, _, (hes _).mpr ⟨x.2, rfl⟩, rfl⟩

theorem Renders.alt {e f : Expr α A} {text : T → List α} {text' : S → List α} (he : Renders e text)
    (hf : Renders f text') : Renders (e.alt f) (Sum.elim text text') := by
  intro w
  rw [language, Language.mem_add, he, hf, Sum.exists]
  rfl

theorem Renders.opt {e : Expr α A} {text : T → List α} (h : Renders e text) :
    Renders e.opt fun x : Option T => x.elim [] text := by
  intro w
  rw [Expr.opt, language, Language.mem_add, h, Option.exists, or_comm]
  simp [language, eq_comm]

theorem Renders.star {e : Expr α A} {text : T → List α} (h : Renders e text) :
    Renders e.star fun xs : List T => xs.flatMap text := by
  intro w
  rw [language, Language.mem_kstar]
  constructor
  · rintro ⟨ws, rfl, hws⟩
    induction ws with
    | nil => exact ⟨[], rfl⟩
    | cons u ws ih =>
      obtain ⟨xs, hxs⟩ := ih fun v hv => hws v (List.mem_cons_of_mem u hv)
      obtain ⟨x, rfl⟩ := (h u).mp (hws u List.mem_cons_self)
      exact ⟨x :: xs, by simpa using hxs⟩
  · rintro ⟨xs, rfl⟩
    refine ⟨xs.map text, List.flatMap_def, ?_⟩
    intro u hu
    obtain ⟨x, -, rfl⟩ := List.mem_map.mp hu
    exact (h _).mpr ⟨x, rfl⟩

/-- The same texts may be given to other values. -/
theorem Renders.of_texts {e : Expr α A} {text : T → List α} {text' : S → List α} (h : Renders e text)
    (hto : ∀ x, ∃ y, text' y = text x) (hof : ∀ y, ∃ x, text x = text' y) : Renders e text' := by
  intro w
  rw [h]
  constructor
  · rintro ⟨x, rfl⟩
    exact hto x
  · rintro ⟨y, rfl⟩
    exact hof y

end Libdomain.Ragel.Expr
