import Mathlib.Computability.Language

/-! # Ragel machines

Regular expressions with embedded actions, and the machine that Ragel builds from
them. On a character the machine executes the actions of all paths through the
expression that are still alive, in the order in which they are embedded. It is in
its error state as soon as no path is left.
-/
namespace Libdomain.Ragel

/-- Whether something holds of the members of a list is decided by going through the list,
also where the type of the members is finite. -/
instance decidableForallMem {α : Type} {P : α → Prop} [DecidablePred P] (l : List α) : Decidable (∀ x ∈ l, P x) :=
  List.decidableBAll P l

/-- `enter a e` is `e >a`, and `leave e a` is `e %a`. -/
inductive Expr (α A : Type)
  | empty
  | range (lo hi : α)
  | seq (e f : Expr α A)
  | alt (e f : Expr α A)
  | star (e : Expr α A)
  | enter (a : A) (e : Expr α A)
  | leave (e : Expr α A) (a : A)

namespace Expr
variable {α A : Type}

def char (c : α) : Expr α A := range c c

/-- `e?` -/
def opt (e : Expr α A) : Expr α A := alt e empty

/-- `e+` -/
def plus (e : Expr α A) : Expr α A := seq e (star e)

def cat : List (Expr α A) → Expr α A
  | [] => empty
  | [e] => e
  | e :: es => seq e (cat es)

def any (e : Expr α A) : List (Expr α A) → Expr α A
  | [] => e
  | f :: es => alt e (any f es)

/-- The embedded actions in the order of their embedding: an entering action comes
before those of the expression it is attached to, a leaving action after them. -/
def actions : Expr α A → List A
  | empty => []
  | range _ _ => []
  | seq e f => e.actions ++ f.actions
  | alt e f => e.actions ++ f.actions
  | star e => e.actions
  | enter a e => a :: e.actions
  | leave e a => e.actions ++ [a]

def size (e : Expr α A) : ℕ := e.actions.length

def nullable : Expr α A → Bool
  | empty => true
  | range _ _ => false
  | seq e f => e.nullable && f.nullable
  | alt e f => e.nullable || f.nullable
  | star _ => true
  | enter _ e => e.nullable
  | leave e _ => e.nullable

/-- The leaving actions of a final start state, as positions in the list of all actions
that begins with those of the expression at `n`. -/
def outs (n : ℕ) : Expr α A → List ℕ
  | empty => []
  | range _ _ => []
  | seq e f => e.outs n ++ f.outs (n + e.size)
  | alt e f => (if e.nullable then e.outs n else []) ++ if f.nullable then f.outs (n + e.size) else []
  | star e => if e.nullable then e.outs n else []
  | enter _ e => e.outs (n + 1)
  | leave e _ => e.outs n ++ [n + e.size]

/-- The texts an expression describes. -/
def language [LE α] : Expr α A → Language α
  | empty => 1
  | range lo hi => {w | ∃ c, lo ≤ c ∧ c ≤ hi ∧ w = [c]}
  | seq e f => e.language * f.language
  | alt e f => e.language + f.language
  | star e => KStar.kstar e.language
  | enter _ e => e.language
  | leave e _ => e.language

/-- No class of characters is empty. -/
def Productive [LE α] : Expr α A → Prop
  | empty => True
  | range lo hi => lo ≤ hi
  | seq e f => e.Productive ∧ f.Productive
  | alt e f => e.Productive ∧ f.Productive
  | star e => e.Productive
  | enter _ e => e.Productive
  | leave e _ => e.Productive

instance [LE α] [DecidableLE α] : DecidablePred (Productive : Expr α A → Prop) := fun e =>
  decideProductive e
where
  decideProductive : (e : Expr α A) → Decidable e.Productive
    | empty => isTrue trivial
    | range lo hi => inferInstanceAs (Decidable (lo ≤ hi))
    | seq e f => @instDecidableAnd _ _ (decideProductive e) (decideProductive f)
    | alt e f => @instDecidableAnd _ _ (decideProductive e) (decideProductive f)
    | star e => decideProductive e
    | enter _ e => decideProductive e
    | leave e _ => decideProductive e

end Expr

/-- A state of the machine on one path: what is still to be read, each part with the
position of its first action. -/
abbrev Item (α A : Type) := List (ℕ × Expr α A)

/-- The parts that are read one after the other. A leaving action stands at the end of
what it is attached to. -/
def Expr.parts {α A : Type} : ℕ → Expr α A → Item α A
  | _, .empty => []
  | n, .seq e f => e.parts n ++ f.parts (n + e.size)
  | n, .leave e a => e.parts n ++ [(n + e.size, .leave .empty a)]
  | n, e => [(n, e)]

/-- A step of a path: the actions to execute and the next state. -/
abbrev Transition (α A : Type) := List ℕ × Item α A

def prepend {α A : Type} (stamps : List ℕ) (t : Transition α A) : Transition α A :=
  (stamps ++ t.1, t.2)

variable {α A : Type}

def Item.nullable (k : Item α A) : Bool := k.all fun x => x.2.nullable

def Item.language [LE α] : Item α A → Language α
  | [] => 1
  | (_, e) :: k => e.language * Item.language k

section Transitions

variable [LE α] [DecidableLE α]

/-- The transitions on a character that begin inside an expression. -/
def Expr.first (c : α) : ℕ → Item α A → Expr α A → List (Transition α A)
  | _, _, .empty => []
  | _, k, .range lo hi => if lo ≤ c ∧ c ≤ hi then [([], k)] else []
  | n, k, .seq e f => e.first c n (f.parts (n + e.size) ++ k) ++
      if e.nullable then (f.first c (n + e.size) k).map (prepend (e.outs n)) else []
  | n, k, .alt e f => e.first c n k ++ f.first c (n + e.size) k
  | n, k, .star e => e.first c n ((n, .star e) :: k)
  | n, k, .enter _ e => (e.first c (n + 1) k).map (prepend [n])
  | n, k, .leave e a => e.first c n ((n + e.size, .leave .empty a) :: k)

def next (c : α) : Item α A → List (Transition α A)
  | [] => []
  | (n, e) :: k => e.first c n k ++ if e.nullable then (next c k).map (prepend (e.outs n)) else []

def moves (alive : List (Item α A)) (c : α) : List (Transition α A) := alive.flatMap (next c)

def after : List (Item α A) → List α → List (Item α A)
  | alive, [] => alive
  | alive, c :: rest => after ((moves alive c).map Prod.snd) rest

/-- The machine is in a final state after a text. -/
def Expr.accepts (e : Expr α A) (input : List α) : Bool :=
  (after [e.parts 0] input).any Item.nullable

variable [DecidableEq A]

/-- The actions executed on a character: each one once, in the order of embedding. -/
def fired (actions : List A) (ts : List (Transition α A)) : List A :=
  ((actions.zipIdx.filter fun x => ts.any fun t => x.2 ∈ t.1).map Prod.fst).eraseDups

/-- The execution loop on the rest of a text. An action is given the part that has been
read: `p` is its length. The result is empty in the error state. -/
def exec {σ : Type} (actions : List A) (act : A → List α → σ → σ) :
    List (Item α A) → List α → List α → σ → Option σ
  | _, _, [], s => some s
  | alive, before, c :: rest, s =>
    if moves alive c = [] then none
    else exec actions act ((moves alive c).map Prod.snd) (before ++ [c]) rest
      ((fired actions (moves alive c)).foldl (fun s a => act a before s) s)

/-- The machine of an expression on a text. -/
def Expr.run {σ : Type} (e : Expr α A) (act : A → List α → σ → σ) (input : List α) (s : σ) : Option σ :=
  exec e.actions act [e.parts 0] [] input s

end Transitions

theorem cons_mem_mul {c : α} {u : List α} {l m : Language α} :
    c :: u ∈ l * m ↔ (∃ v w, v ++ w = u ∧ c :: v ∈ l ∧ w ∈ m) ∨ [] ∈ l ∧ c :: u ∈ m := by
  rw [Language.mem_mul]
  constructor
  · rintro ⟨v, hv, w, hw, h⟩
    cases v with
    | nil =>
      cases h
      exact .inr ⟨hv, hw⟩
    | cons d v =>
      cases h
      exact .inl ⟨v, w, rfl, hv, hw⟩
  · rintro (⟨v, w, rfl, hv, hw⟩ | ⟨hl, hm⟩)
    · exact ⟨c :: v, hv, w, hw, rfl⟩
    · exact ⟨[], hl, c :: u, hm, rfl⟩

/-- The first part of an iteration may be taken not to be empty. -/
theorem cons_mem_kstar {c : α} {u : List α} {l : Language α} :
    c :: u ∈ KStar.kstar l ↔ ∃ v w, v ++ w = u ∧ c :: v ∈ l ∧ w ∈ KStar.kstar l := by
  constructor
  · intro h
    rw [Language.mem_kstar_iff_exists_nonempty] at h
    obtain ⟨parts, hparts, hall⟩ := h
    cases parts with
    | nil => cases hparts
    | cons part parts =>
      obtain ⟨hpart, hne⟩ := hall part List.mem_cons_self
      cases part with
      | nil => exact absurd rfl hne
      | cons d v =>
        cases hparts
        refine ⟨v, parts.flatten, rfl, hpart, ?_⟩
        exact Language.mem_kstar.mpr ⟨parts, rfl, fun y hy => (hall y (List.mem_cons_of_mem _ hy)).1⟩
  · rintro ⟨v, w, rfl, hv, hw⟩
    obtain ⟨parts, rfl, hall⟩ := Language.mem_kstar.mp hw
    refine Language.mem_kstar.mpr ⟨(c :: v) :: parts, rfl, ?_⟩
    intro y hy
    rcases List.mem_cons.mp hy with rfl | hy
    · exact hv
    · exact hall y hy

variable [LE α]

theorem Expr.nil_mem_language (e : Expr α A) : [] ∈ e.language ↔ e.nullable = true := by
  induction e with
  | empty => simp [language, nullable]
  | range lo hi =>
    simp only [language, nullable, Bool.false_eq_true, iff_false]
    rintro ⟨c, -, -, h⟩
    cases h
  | seq e f ihe ihf => simp [language, nullable, Language.mem_mul, ihe, ihf]
  | alt e f ihe ihf => simp [language, nullable, Language.mem_add, ihe, ihf]
  | star e => simp [language, nullable, Language.nil_mem_kstar]
  | enter a e ih => exact ih
  | leave e a ih => exact ih

theorem Item.language_append (k l : Item α A) :
    Item.language (k ++ l : List _) = Item.language k * Item.language l := by
  induction k with
  | nil => simp [Item.language]
  | cons x k ih =>
    obtain ⟨n, e⟩ := x
    rw [List.cons_append, Item.language, ih, Item.language, mul_assoc]

theorem Expr.language_parts (n : ℕ) (e : Expr α A) : Item.language (e.parts n) = e.language := by
  induction e generalizing n with
  | seq e f ihe ihf => rw [parts, Item.language_append, ihe, ihf, language]
  | leave e a ih =>
    rw [parts, Item.language_append, ih]
    simp [Item.language, language]
  | range lo hi => exact mul_one _
  | _ => simp [parts, Item.language, language]

theorem Item.nil_mem_language (k : Item α A) : [] ∈ Item.language k ↔ Item.nullable k = true := by
  induction k with
  | nil => simp [Item.language, nullable]
  | cons x k ih =>
    obtain ⟨n, e⟩ := x
    rw [Item.language, Language.mem_mul]
    simpa [nullable, ← Expr.nil_mem_language, and_assoc] using fun _ => ih

theorem Expr.Productive.nonempty [@Std.Refl α (· ≤ ·)] {e : Expr α A} (h : e.Productive) : ∃ w, w ∈ e.language := by
  induction e with
  | empty => exact ⟨[], rfl⟩
  | range lo hi => exact ⟨[lo], lo, Std.Refl.refl lo, h, rfl⟩
  | seq e f ihe ihf =>
    obtain ⟨v, hv⟩ := ihe h.1
    obtain ⟨w, hw⟩ := ihf h.2
    exact ⟨v ++ w, Language.mem_mul.mpr ⟨v, hv, w, hw, rfl⟩⟩
  | alt e f ihe _ =>
    obtain ⟨v, hv⟩ := ihe h.1
    exact ⟨v, .inl hv⟩
  | star e => exact ⟨[], Language.nil_mem_kstar _⟩
  | enter a e ih => exact ih h
  | leave e a ih => exact ih h

def Item.Productive (k : Item α A) : Prop := ∀ x ∈ k, x.2.Productive

theorem Item.Productive.nonempty [@Std.Refl α (· ≤ ·)] {k : Item α A} (h : Item.Productive k) :
    ∃ w, w ∈ Item.language k := by
  induction k with
  | nil => exact ⟨[], rfl⟩
  | cons x k ih =>
    obtain ⟨u, hu⟩ := (h x List.mem_cons_self).nonempty
    obtain ⟨v, hv⟩ := ih fun y hy => h y (List.mem_cons_of_mem x hy)
    exact ⟨u ++ v, Language.mem_mul.mpr ⟨u, hu, v, hv, rfl⟩⟩

theorem Expr.Productive.parts {e : Expr α A} (h : e.Productive) (n : ℕ) : Item.Productive (e.parts n) := by
  induction e generalizing n with
  | empty => simp [Item.Productive, Expr.parts]
  | seq e f ihe ihf => exact List.forall_mem_append.mpr ⟨ihe h.1 n, ihf h.2 _⟩
  | leave e a ih =>
    refine List.forall_mem_append.mpr ⟨ih h n, ?_⟩
    simp [Expr.Productive]
  | _ => exact List.forall_mem_singleton.mpr h

theorem exists_prepend (stamps : List ℕ) (ts : List (Transition α A)) (w : List α) :
    (∃ t ∈ ts.map (prepend stamps), w ∈ Item.language t.2) ↔ ∃ t ∈ ts, w ∈ Item.language t.2 := by
  simp only [List.mem_map]
  constructor
  · rintro ⟨_, ⟨t, ht, rfl⟩, hw⟩
    exact ⟨t, ht, hw⟩
  · rintro ⟨t, ht, hw⟩
    exact ⟨_, ⟨t, ht, rfl⟩, hw⟩

variable [DecidableLE α]

/-- What can be read after a transition that begins inside an expression. -/
theorem Expr.first_language (c : α) (w : List α) (e : Expr α A) (n : ℕ) (k : Item α A) :
    (∃ t ∈ e.first c n k, w ∈ Item.language t.2) ↔
      ∃ u v, u ++ v = w ∧ c :: u ∈ e.language ∧ v ∈ Item.language k := by
  induction e generalizing n k w with
  | empty => simp [first, language]
  | range lo hi =>
    rw [first]
    split_ifs with h
    · simp only [List.mem_singleton, exists_eq_left]
      constructor
      · exact fun hw => ⟨[], w, rfl, ⟨c, h.1, h.2, rfl⟩, hw⟩
      · rintro ⟨u, v, rfl, ⟨d, -, -, hd⟩, hv⟩
        cases hd
        exact hv
    · simp only [List.not_mem_nil, false_and, exists_false, false_iff]
      rintro ⟨u, v, -, ⟨d, hlo, hhi, hd⟩, -⟩
      cases hd
      exact h ⟨hlo, hhi⟩
  | seq e f ihe ihf =>
    have hskip : (∃ t ∈ (if e.nullable = true then (f.first c (n + e.size) k).map (prepend (e.outs n))
        else []), w ∈ Item.language t.2) ↔
        e.nullable = true ∧ ∃ u v, u ++ v = w ∧ c :: u ∈ f.language ∧ v ∈ Item.language k := by
      split_ifs with h
      · rw [exists_prepend, ihf]
        simp [h]
      · simp [h]
    simp only [first, List.mem_append, or_and_right, exists_or]
    rw [ihe, hskip, ← nil_mem_language]
    simp only [language, cons_mem_mul, Item.language_append, language_parts]
    constructor
    · rintro (⟨u, _, rfl, hu, hrest⟩ | ⟨hnil, u, v, rfl, hu, hv⟩)
      · obtain ⟨v, hv, v', hv', rfl⟩ := Language.mem_mul.mp hrest
        exact ⟨u ++ v, v', by simp, .inl ⟨u, v, rfl, hu, hv⟩, hv'⟩
      · exact ⟨u, v, rfl, .inr ⟨hnil, hu⟩, hv⟩
    · rintro ⟨_, v', rfl, ⟨u, v, rfl, hu, hv⟩ | ⟨hnil, hu⟩, hv'⟩
      · exact .inl ⟨u, v ++ v', by simp, hu, Language.mem_mul.mpr ⟨v, hv, v', hv', rfl⟩⟩
      · exact .inr ⟨hnil, _, v', rfl, hu, hv'⟩
  | alt e f ihe ihf =>
    simp only [first, List.mem_append, or_and_right, exists_or, ihe, ihf, language, Language.mem_add,
      and_or_left]
  | star e ih =>
    rw [first, ih]
    simp only [language, cons_mem_kstar, Item.language, Language.mem_mul]
    constructor
    · rintro ⟨u, _, rfl, hu, v, hv, v', hv', rfl⟩
      exact ⟨u ++ v, v', by simp, ⟨u, v, rfl, hu, hv⟩, hv'⟩
    · rintro ⟨_, v', rfl, ⟨u, v, rfl, hu, hv⟩, hv'⟩
      exact ⟨u, v ++ v', by simp, hu, v, hv, v', hv', rfl⟩
  | enter a e ih =>
    rw [first, exists_prepend, ih]
    rfl
  | leave e a ih =>
    rw [first, ih]
    simp [Item.language, language]

theorem next_language (c : α) (w : List α) (k : Item α A) :
    (∃ t ∈ next c k, w ∈ Item.language t.2) ↔ c :: w ∈ Item.language k := by
  induction k with
  | nil => simp [next, Item.language]
  | cons x k ih =>
    obtain ⟨n, e⟩ := x
    have hskip : (∃ t ∈ (if e.nullable = true then (next c k).map (prepend (e.outs n)) else []),
        w ∈ Item.language t.2) ↔ e.nullable = true ∧ c :: w ∈ Item.language k := by
      split_ifs with h
      · rw [exists_prepend, ih]
        simp [h]
      · simp [h]
    simp only [next, List.mem_append, or_and_right, exists_or]
    rw [e.first_language, hskip, Item.language, cons_mem_mul, e.nil_mem_language]

theorem Expr.Productive.first {c : α} {e : Expr α A} (he : e.Productive) {n : ℕ} {k : Item α A}
    (hk : Item.Productive k) : ∀ t ∈ e.first c n k, Item.Productive t.2 := by
  induction e generalizing n k with
  | empty => simp [Expr.first]
  | range lo hi =>
    rw [Expr.first]
    split_ifs
    · simpa using hk
    · simp
  | seq e f ihe ihf =>
    rw [Expr.first]
    intro t ht
    rcases List.mem_append.mp ht with ht | ht
    · exact ihe he.1 (List.forall_mem_append.mpr ⟨he.2.parts _, hk⟩) t ht
    · split_ifs at ht
      · obtain ⟨t', ht', rfl⟩ := List.mem_map.mp ht
        exact ihf he.2 hk t' ht'
      · cases ht
  | alt e f ihe ihf =>
    intro t ht
    rcases List.mem_append.mp ht with ht | ht
    · exact ihe he.1 hk t ht
    · exact ihf he.2 hk t ht
  | star e ih => exact ih he (List.forall_mem_cons.mpr ⟨he, hk⟩)
  | enter a e ih =>
    intro t ht
    obtain ⟨t', ht', rfl⟩ := List.mem_map.mp ht
    exact ih he hk t' ht'
  | leave e a ih => exact ih he (List.forall_mem_cons.mpr ⟨trivial, hk⟩)

theorem Item.Productive.next {c : α} {k : Item α A} (h : Item.Productive k) :
    ∀ t ∈ next c k, Item.Productive t.2 := by
  induction k with
  | nil => simp [Ragel.next]
  | cons x k ih =>
    obtain ⟨n, e⟩ := x
    obtain ⟨he, hk⟩ := List.forall_mem_cons.mp h
    intro t ht
    rcases List.mem_append.mp ht with ht | ht
    · exact he.first hk t ht
    · split_ifs at ht
      · obtain ⟨t', ht', rfl⟩ := List.mem_map.mp ht
        exact ih hk t' ht'
      · cases ht

theorem mem_moves {alive : List (Item α A)} {c : α} {w : List α} :
    (∃ k ∈ (moves alive c).map Prod.snd, w ∈ Item.language k) ↔
      ∃ k ∈ alive, c :: w ∈ Item.language k := by
  constructor
  · rintro ⟨_, hk, hw⟩
    obtain ⟨t, ht, rfl⟩ := List.mem_map.mp hk
    obtain ⟨k, hk, ht⟩ := List.mem_flatMap.mp ht
    exact ⟨k, hk, (next_language c w k).mp ⟨t, ht, hw⟩⟩
  · rintro ⟨k, hk, hw⟩
    obtain ⟨t, ht, hw⟩ := (next_language c w k).mpr hw
    exact ⟨t.2, List.mem_map_of_mem (List.mem_flatMap.mpr ⟨k, hk, ht⟩), hw⟩

theorem mem_after {alive : List (Item α A)} {u v : List α} :
    (∃ k ∈ after alive u, v ∈ Item.language k) ↔ ∃ k ∈ alive, u ++ v ∈ Item.language k := by
  induction u generalizing alive with
  | nil => rfl
  | cons c u ih => rw [after, ih, mem_moves, List.cons_append]

theorem productive_after {alive : List (Item α A)} (h : ∀ k ∈ alive, Item.Productive k) (u : List α) :
    ∀ k ∈ after alive u, Item.Productive k := by
  induction u generalizing alive with
  | nil => exact h
  | cons c u ih =>
    apply ih
    intro _ hk
    obtain ⟨t, ht, rfl⟩ := List.mem_map.mp hk
    obtain ⟨k, hk, ht⟩ := List.mem_flatMap.mp ht
    exact (h k hk).next t ht

theorem after_nil (u : List α) : after ([] : List (Item α A)) u = [] := by
  induction u with
  | nil => rfl
  | cons c u ih => exact ih

/-- The machine is in a final state exactly on the texts that the expression describes. -/
theorem Expr.accepts_iff (e : Expr α A) (input : List α) :
    e.accepts input = true ↔ input ∈ e.language := by
  have hafter : (∃ k ∈ after [e.parts 0] input, [] ∈ Item.language k) ↔ input ∈ e.language := by
    rw [mem_after]
    simp [e.language_parts]
  rw [accepts, ← hafter, List.any_eq_true]
  simp only [Item.nil_mem_language]

variable {σ : Type} [DecidableEq A] {actions : List A} {act : A → List α → σ → σ}

theorem exec_isSome_iff {alive : List (Item α A)} (hne : alive ≠ []) (before rest : List α) (s : σ) :
    (exec actions act alive before rest s).isSome = true ↔ after alive rest ≠ [] := by
  induction rest generalizing alive before s with
  | nil => simpa [exec, after] using hne
  | cons c rest ih =>
    rw [exec, after]
    split_ifs with hdead
    · simp [hdead, after_nil]
    · exact ih (by simpa using hdead) _ _

/-- The machine avoids its error state exactly on the beginnings of the texts that the
expression describes. -/
theorem Expr.run_isSome_iff [@Std.Refl α (· ≤ ·)] {e : Expr α A} (h : e.Productive) (input : List α)
    (s : σ) : (e.run act input s).isSome = true ↔ ∃ w, input ++ w ∈ e.language := by
  have hitem : ∀ k ∈ [e.parts 0], Item.Productive k := by simpa using h.parts 0
  have hafter : ∀ w, (∃ k ∈ after [e.parts 0] input, w ∈ Item.language k) ↔ input ++ w ∈ e.language := by
    intro w
    rw [mem_after]
    simp [e.language_parts]
  rw [run, exec_isSome_iff (List.cons_ne_nil _ _)]
  constructor
  · intro hne
    obtain ⟨k, hk⟩ := List.exists_mem_of_ne_nil _ hne
    obtain ⟨w, hw⟩ := (productive_after hitem input k hk).nonempty
    exact ⟨w, (hafter w).mp ⟨k, hk, hw⟩⟩
  · rintro ⟨w, hw⟩ hnil
    obtain ⟨k, hk, -⟩ := (hafter w).mpr hw
    rw [hnil] at hk
    cases hk

end Libdomain.Ragel
