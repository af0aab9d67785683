import Mathlib.Logic.Relation

/-! # Stateful programs that may get stuck

A program reads and writes a state and either returns a value or stops with a
fault; the state it had reached survives the fault. `Follows` says that every
execution is a path of a transition relation, so an invariant of the relation
is an invariant of each state the program passes through, faults included.
`Keeps` says that a program keeps an invariant and has no faults but the given.
-/
namespace Libdomain.Program

/-- Programs over the state `σ` whose faults are the values of `ε`. -/
abbrev Prog (σ ε : Type) (α : Type) := ExceptT ε (StateM σ) α

variable {σ ε α β : Type}

/-- The outcome of a program and the state it leaves behind. -/
def exec (p : Prog σ ε α) (s : σ) : Except ε α × σ := (ExceptT.run p).run s

@[simp] theorem exec_pure (a : α) (s : σ) : exec (pure a : Prog σ ε α) s = (.ok a, s) := rfl

@[simp] theorem exec_get (s : σ) : exec (get : Prog σ ε σ) s = (.ok s, s) := rfl

@[simp] theorem exec_modify (f : σ → σ) (s : σ) :
    exec (modify f : Prog σ ε PUnit) s = (.ok ⟨⟩, f s) := rfl

@[simp] theorem exec_throw (e : ε) (s : σ) : exec (throw e : Prog σ ε α) s = (.error e, s) := rfl

theorem exec_bind (p : Prog σ ε α) (k : α → Prog σ ε β) (s : σ) :
    exec (p >>= k) s = match exec p s with
      | (.ok a, t) => exec (k a) t
      | (.error e, t) => (.error e, t) := by
  change (ExceptT.run (p >>= k)).run s = _
  rw [ExceptT.run_bind, StateT.run_bind]
  unfold exec
  rcases h : (ExceptT.run p).run s with ⟨r, t⟩
  cases r <;> rfl

theorem exec_bind_ok {p : Prog σ ε α} {k : α → Prog σ ε β} {s t : σ} {a : α}
    (h : exec p s = (.ok a, t)) : exec (p >>= k) s = exec (k a) t := by rw [exec_bind, h]

theorem exec_bind_error {p : Prog σ ε α} {k : α → Prog σ ε β} {s t : σ} {e : ε}
    (h : exec p s = (.error e, t)) : exec (p >>= k) s = (.error e, t) := by rw [exec_bind, h]

/-- A result of a sequence is a result of the second program from the state left
by the first. -/
theorem exec_bind_eq_ok {p : Prog σ ε α} {k : α → Prog σ ε β} {s u : σ} {b : β}
    (h : exec (p >>= k) s = (.ok b, u)) : ∃ a t, exec p s = (.ok a, t) ∧ exec (k a) t = (.ok b, u) := by
  rw [exec_bind] at h
  rcases hp : exec p s with ⟨r, t⟩
  rw [hp] at h
  cases r with
  | error e => simp at h
  | ok a => exact ⟨a, t, rfl, h⟩

variable {R R' : σ → σ → Prop} {P P' : σ → Prop} {Q Q' : α → σ → Prop} {S : β → σ → Prop}

/-- From every state satisfying `P` the program moves along `R`, and a value it
returns satisfies `Q` in the final state. -/
def Follows (R : σ → σ → Prop) (P : σ → Prop) (p : Prog σ ε α) (Q : α → σ → Prop) : Prop :=
  ∀ s, P s → Relation.ReflTransGen R s (exec p s).2 ∧
    ∀ a, (exec p s).1 = .ok a → Q a (exec p s).2

theorem Follows.pure {a : α} (h : ∀ s, P s → Q a s) : Follows R P (Pure.pure a : Prog σ ε α) Q := by
  intro s hs
  refine ⟨.refl, ?_⟩
  intro b hb
  cases hb
  exact h s hs

theorem Follows.throw {e : ε} : Follows R P (throw e : Prog σ ε α) Q := by
  intro s hs
  refine ⟨.refl, ?_⟩
  intro b hb
  cases hb

theorem Follows.bind {p : Prog σ ε α} {k : α → Prog σ ε β} (hp : Follows R P p Q)
    (hk : ∀ a, Follows R (Q a) (k a) S) : Follows R P (p >>= k) S := by
  intro s hs
  obtain ⟨hpath, hpost⟩ := hp s hs
  rcases he : exec p s with ⟨r, t⟩
  rw [he] at hpath hpost
  cases r with
  | error e =>
    rw [exec_bind_error he]
    refine ⟨hpath, ?_⟩
    intro b hb
    cases hb
  | ok a =>
    rw [exec_bind_ok he]
    obtain ⟨hnext, hfinal⟩ := hk a t (hpost a rfl)
    exact ⟨hpath.trans hnext, hfinal⟩

/-- Reading the state binds it without moving. -/
theorem Follows.get {k : σ → Prog σ ε β} (hk : ∀ s, P s → Follows R (fun t => t = s) (k s) S) :
    Follows R P (MonadState.get >>= k) S := by
  intro s hs
  rw [exec_bind_ok (exec_get s)]
  exact hk s hs s rfl

theorem Follows.consequence {p : Prog σ ε α} (h : Follows R P p Q) (hP : ∀ s, P' s → P s)
    (hQ : ∀ a s, Q a s → Q' a s) : Follows R P' p Q' := by
  intro s hs
  obtain ⟨hpath, hpost⟩ := h s (hP s hs)
  exact ⟨hpath, fun a ha => hQ a _ (hpost a ha)⟩

theorem Follows.of_pre {p : Prog σ ε α} (h : Follows R P p Q) (hP : ∀ s, P' s → P s) :
    Follows R P' p Q := h.consequence hP fun _ _ hq => hq

theorem Follows.mono {p : Prog σ ε α} (h : Follows R P p Q) (hR : ∀ s t, R s t → R' s t) :
    Follows R' P p Q := by
  intro s hs
  obtain ⟨hpath, hpost⟩ := h s hs
  exact ⟨Relation.ReflTransGen.mono hR _ _ hpath, hpost⟩

theorem Follows.ite {c : Prop} [Decidable c] {p q : Prog σ ε α} (hp : c → Follows R P p Q)
    (hq : ¬c → Follows R P q Q) : Follows R P (if c then p else q) Q := by
  by_cases hc : c
  · rw [if_pos hc]; exact hp hc
  · rw [if_neg hc]; exact hq hc

theorem Follows.forM {γ : Type} {f : γ → Prog σ ε PUnit} {xs : List γ}
    (h : ∀ x ∈ xs, Follows R P (f x) (fun _ => P)) : Follows R P (xs.forM f) (fun _ => P) := by
  induction xs with
  | nil => exact Follows.pure (fun _ hs => hs)
  | cons x xs ih =>
    change Follows R P (f x >>= fun _ => xs.forM f) (fun _ => P)
    apply Follows.bind (h x List.mem_cons_self)
    intro _
    exact ih (fun y hy => h y (List.mem_cons_of_mem x hy))

theorem Follows.step {p : Prog σ ε α} (h : ∀ s, P s → R s (exec p s).2) :
    Follows R P p (fun a t => ∃ s, P s ∧ exec p s = (.ok a, t)) := by
  intro s hs
  refine ⟨.single (h s hs), ?_⟩
  intro a ha
  exact ⟨s, hs, Prod.ext ha rfl⟩

theorem Follows.atomic {p : Prog σ ε α} (h : ∀ s, P s → R s (exec p s).2)
    (hQ : ∀ s a t, P s → exec p s = (.ok a, t) → Q a t) : Follows R P p Q :=
  (Follows.step h).consequence (fun _ hs => hs) fun a t ⟨s, hs, he⟩ => hQ s a t hs he

/-- What the relation preserves may be assumed and concluded. -/
theorem Follows.keep {I : σ → Prop} {p : Prog σ ε α} (h : Follows R P p Q)
    (hI : ∀ s t, R s t → I s → I t) :
    Follows R (fun s => P s ∧ I s) p (fun a s => Q a s ∧ I s) := by
  intro s ⟨hs, hi⟩
  obtain ⟨hpath, hpost⟩ := h s hs
  refine ⟨hpath, fun a ha => ⟨hpost a ha, ?_⟩⟩
  generalize (exec p s).2 = t at hpath
  induction hpath with
  | refl => exact hi
  | tail _ hstep ih => exact hI _ _ hstep ih

/-- Every execution of the program is a path of the relation. -/
def Along (R : σ → σ → Prop) (p : Prog σ ε α) : Prop :=
  ∀ s, Relation.ReflTransGen R s (exec p s).2

theorem Along.follows {p : Prog σ ε α} (h : Along R p) : Follows R P p (fun _ _ => True) :=
  fun s _ => ⟨h s, fun _ _ => trivial⟩

theorem Follows.along {p : Prog σ ε α} (h : Follows R (fun _ => True) p Q) : Along R p :=
  fun s => (h s trivial).1

theorem Along.pure {a : α} : Along R (Pure.pure a : Prog σ ε α) := fun _ => .refl

theorem Along.throw {e : ε} : Along R (throw e : Prog σ ε α) := fun _ => .refl

theorem Along.step {p : Prog σ ε α} (h : ∀ s, R s (exec p s).2) : Along R p := fun s => .single (h s)

theorem Along.bind {p : Prog σ ε α} {k : α → Prog σ ε β} (hp : Along R p) (hk : ∀ a, Along R (k a)) :
    Along R (p >>= k) :=
  (Follows.bind hp.follows fun a => (hk a).follows).along

theorem Along.get {k : σ → Prog σ ε β} (hk : ∀ s, Along R (k s)) : Along R (MonadState.get >>= k) :=
  (Follows.get (P := fun _ => True) fun s _ => (hk s).follows).along

theorem Along.ite {c : Prop} [Decidable c] {p q : Prog σ ε α} (hp : Along R p) (hq : Along R q) :
    Along R (if c then p else q) := by
  by_cases hc : c
  · rw [if_pos hc]; exact hp
  · rw [if_neg hc]; exact hq

theorem Along.forM {γ : Type} {f : γ → Prog σ ε PUnit} {xs : List γ} (h : ∀ x, Along R (f x)) :
    Along R (xs.forM f) := by
  induction xs with
  | nil => exact Along.pure
  | cons x xs ih => exact Along.bind (h x) (fun _ => ih)

theorem Along.mono {p : Prog σ ε α} (h : Along R p) (hR : ∀ s t, R s t → R' s t) : Along R' p :=
  fun s => Relation.ReflTransGen.mono hR _ _ (h s)

theorem Along.keep {I : σ → Prop} {p : Prog σ ε α} (h : Along R p)
    (hI : ∀ s t, R s t → I s → I t) : Follows R I p (fun _ => I) := by
  apply Follows.consequence (Follows.keep (P := fun _ => True) h.follows hI)
  · exact fun s hs => ⟨trivial, hs⟩
  · exact fun _ s hs => hs.2

/-- An invariant of the relation holds wherever the program ends. -/
theorem Follows.invariant {I : σ → Prop} {p : Prog σ ε α} (h : Follows R P p Q)
    (hI : ∀ s t, R s t → I s → I t) {s : σ} (hs : P s) (hi : I s) : I (exec p s).2 := by
  have hpath := (h s hs).1
  generalize (exec p s).2 = t at hpath
  induction hpath with
  | refl => exact hi
  | tail _ hstep ih => exact hI _ _ hstep ih

/-- The program keeps the invariant `I`, and its faults satisfy `E`. -/
def Keeps (I : σ → Prop) (E : ε → Prop) (p : Prog σ ε α) : Prop :=
  ∀ s, I s → I (exec p s).2 ∧ ∀ e, (exec p s).1 = .error e → E e

variable {I : σ → Prop} {E : ε → Prop}

theorem Keeps.pure {a : α} : Keeps I E (Pure.pure a : Prog σ ε α) := by
  intro s hs
  exact ⟨hs, by simp⟩

theorem Keeps.throw {e : ε} (h : E e) : Keeps I E (throw e : Prog σ ε α) := by
  intro s hs
  refine ⟨hs, ?_⟩
  intro e' he
  have heq : e = e' := by simpa using he
  exact heq ▸ h

theorem Keeps.modify {f : σ → σ} (h : ∀ s, I s → I (f s)) :
    Keeps I E (modify f : Prog σ ε PUnit) := by
  intro s hs
  exact ⟨h s hs, by simp⟩

theorem Keeps.bind {p : Prog σ ε α} {k : α → Prog σ ε β} (hp : Keeps I E p)
    (hk : ∀ a, Keeps I E (k a)) : Keeps I E (p >>= k) := by
  intro s hs
  obtain ⟨hkeep, hfault⟩ := hp s hs
  rcases he : exec p s with ⟨r, t⟩
  rw [he] at hkeep hfault
  cases r with
  | error e =>
    rw [exec_bind_error he]
    refine ⟨hkeep, ?_⟩
    intro e' he'
    have heq : e = e' := by simpa using he'
    exact heq ▸ hfault e rfl
  | ok a =>
    rw [exec_bind_ok he]
    exact hk a t hkeep

/-- A program may use that the state it reads satisfies the invariant. -/
theorem Keeps.get {k : σ → Prog σ ε β} (hk : ∀ s, I s → Keeps I E (k s)) :
    Keeps I E (MonadState.get >>= k) := by
  intro s hs
  rw [exec_bind_ok (exec_get s)]
  exact hk s hs s hs

theorem Keeps.ite {c : Prop} [Decidable c] {p q : Prog σ ε α} (hp : c → Keeps I E p)
    (hq : ¬c → Keeps I E q) : Keeps I E (if c then p else q) := by
  by_cases hc : c
  · rw [if_pos hc]; exact hp hc
  · rw [if_neg hc]; exact hq hc

theorem Keeps.forM {γ : Type} {f : γ → Prog σ ε PUnit} {xs : List γ}
    (h : ∀ x ∈ xs, Keeps I E (f x)) : Keeps I E (xs.forM f) := by
  induction xs with
  | nil => exact Keeps.pure
  | cons x xs ih =>
    have hrest : Keeps I E (xs.forM f) := ih fun y hy => h y (List.mem_cons_of_mem x hy)
    exact Keeps.bind (h x List.mem_cons_self) fun _ => hrest

end Libdomain.Program
