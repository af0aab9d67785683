import Libdomain.Ragel.Machine

/-! # Scanning

How the machine proceeds over the text of an expression. A rule rewrites the machine
at the beginning of a piece of text into the machine after it.
-/
namespace Libdomain.Ragel

variable {α A : Type} [LE α] [DecidableLE α]

/-- The parts of expressions that follow one another. -/
def frames : ℕ → List (Expr α A) → Item α A
  | _, [] => []
  | n, e :: es => e.parts n ++ frames (n + e.size) es

omit [LE α] [DecidableLE α] in
@[simp] theorem prepend_nil : prepend ([] : List ℕ) = (id : Transition α A → Transition α A) := rfl

omit [LE α] [DecidableLE α] in
theorem prepend_prepend (l m : List ℕ) (t : Transition α A) :
    prepend l (prepend m t) = prepend (l ++ m) t := by
  simp [prepend]

omit [LE α] [DecidableLE α] in
theorem parts_cat (n : ℕ) (es : List (Expr α A)) : (Expr.cat es).parts n = frames n es := by
  induction es generalizing n with
  | nil => rfl
  | cons e es ih =>
    cases es with
    | nil => simp [Expr.cat, frames]
    | cons f es =>
      change e.parts n ++ (Expr.cat (f :: es)).parts (n + e.size) = _
      rw [ih]
      rfl

theorem next_range (c : α) (n : ℕ) (lo hi : α) (k : Item α A) :
    next c ((n, .range lo hi) :: k) = if lo ≤ c ∧ c ≤ hi then [([], k)] else [] := by
  simp [next, Expr.first, Expr.nullable]

/-- An expression can be read as a whole or part by part. -/
theorem next_parts (c : α) (n : ℕ) (e : Expr α A) (k : Item α A) :
    next c (e.parts n ++ k) = next c ((n, e) :: k) := by
  induction e generalizing n k with
  | empty => simp [Expr.parts, next, Expr.first, Expr.nullable, Expr.outs]
  | seq e f ihe ihf =>
    rw [Expr.parts, List.append_assoc, ihe]
    by_cases he : e.nullable
    · by_cases hf : f.nullable
      · simp [next, ihf, Expr.first, Expr.nullable, Expr.outs, he, hf, prepend_prepend,
          Function.comp_def]
      · simp [next, ihf, Expr.first, Expr.nullable, he, hf]
    · simp [next, Expr.first, Expr.nullable, he]
  | leave e a ih =>
    rw [Expr.parts, List.append_assoc, ih]
    by_cases he : e.nullable
    · simp [next, Expr.first, Expr.nullable, Expr.outs, he, prepend_prepend, Function.comp_def,
        Expr.size, Expr.actions]
    · simp [next, Expr.first, Expr.nullable, he]
  | _ => rfl

theorem next_enter (c : α) (n : ℕ) {e : Expr α A} (he : e.nullable = false) (a : A) (k : Item α A) :
    next c ((Expr.enter a e).parts n ++ k) = (next c (e.parts (n + 1) ++ k)).map (prepend [n]) := by
  rw [next_parts, next_parts]
  simp [next, Expr.first, Expr.nullable, he]

theorem next_alt (c : α) (n : ℕ) {e f : Expr α A} (he : e.nullable = false) (k : Item α A) :
    next c ((Expr.alt e f).parts n ++ k) =
      next c (e.parts n ++ k) ++ next c (f.parts (n + e.size) ++ k) := by
  rw [next_parts, next_parts, next_parts]
  simp only [next, Expr.first, Expr.nullable, Expr.outs, he, Bool.false_or, Bool.false_eq_true, if_false,
    List.nil_append, List.append_nil, List.append_assoc]
  by_cases hf : f.nullable
  · simp [hf]
  · simp [hf]

theorem next_star (c : α) (n : ℕ) {e : Expr α A} (he : e.nullable = false) (k : Item α A) :
    next c ((Expr.star e).parts n ++ k) =
      next c (e.parts n ++ ((Expr.star e).parts n ++ k)) ++ next c k := by
  rw [next_parts, next_parts]
  simp [next, Expr.first, Expr.nullable, Expr.outs, he, Expr.parts]

theorem next_out (c : α) (n : ℕ) (a : A) (k : Item α A) :
    next c ((n, .leave .empty a) :: k) = (next c k).map (prepend [n]) := by
  simp [next, Expr.first, Expr.nullable, Expr.outs, Expr.size, Expr.actions]

/-- The first steps that an expression allows: for each the actions and the class of
characters. -/
def Expr.heads : ℕ → Expr α A → List (List ℕ × α × α)
  | _, .empty => []
  | _, .range lo hi => [([], lo, hi)]
  | n, .seq e f => e.heads n ++
      if e.nullable then (f.heads (n + e.size)).map fun h => (e.outs n ++ h.1, h.2) else []
  | n, .alt e f => e.heads n ++ f.heads (n + e.size)
  | n, .star e => e.heads n
  | n, .enter _ e => (e.heads (n + 1)).map fun h => (n :: h.1, h.2)
  | n, .leave e _ => e.heads n

def Item.heads : Item α A → List (List ℕ × α × α)
  | [] => []
  | (n, e) :: k => e.heads n ++ if e.nullable then (Item.heads k).map fun h => (e.outs n ++ h.1, h.2) else []

theorem Expr.mem_heads {c : α} {e : Expr α A} {n : ℕ} {k : Item α A} {t : Transition α A} (ht : t ∈ e.first c n k) :
    ∃ h ∈ e.heads n, t.1 = h.1 ∧ h.2.1 ≤ c ∧ c ≤ h.2.2 := by
  induction e generalizing n k t with
  | empty => cases ht
  | range lo hi =>
    obtain ⟨hc, ht⟩ := List.mem_ite_nil_right.mp ht
    rw [List.mem_singleton.mp ht]
    exact ⟨([], lo, hi), List.mem_singleton_self _, rfl, hc⟩
  | seq e f ihe ihf =>
    rcases List.mem_append.mp ht with ht | ht
    · obtain ⟨h, hh, hstep⟩ := ihe ht
      exact ⟨h, List.mem_append_left _ hh, hstep⟩
    · obtain ⟨hnull, hmem⟩ := List.mem_ite_nil_right.mp ht
      obtain ⟨t, hfirst, rfl⟩ := List.mem_map.mp hmem
      obtain ⟨h, hh, hstamps, hc⟩ := ihf hfirst
      refine ⟨(e.outs n ++ h.1, h.2), List.mem_append_right _ ?_, ?_, hc⟩
      · rw [if_pos hnull]
        exact List.mem_map_of_mem hh
      · rw [← hstamps]
        rfl
  | alt e f ihe ihf =>
    rcases List.mem_append.mp ht with ht | ht
    · obtain ⟨h, hh, hstep⟩ := ihe ht
      exact ⟨h, List.mem_append_left _ hh, hstep⟩
    · obtain ⟨h, hh, hstep⟩ := ihf ht
      exact ⟨h, List.mem_append_right _ hh, hstep⟩
  | star e ih => exact ih ht
  | enter a e ih =>
    obtain ⟨t, hfirst, rfl⟩ := List.mem_map.mp ht
    obtain ⟨h, hh, hstamps, hc⟩ := ih hfirst
    refine ⟨(n :: h.1, h.2), List.mem_map_of_mem hh, ?_, hc⟩
    rw [← hstamps]
    rfl
  | leave e a ih => exact ih ht

theorem Item.mem_heads {c : α} {k : Item α A} {t : Transition α A} (ht : t ∈ next c k) :
    ∃ h ∈ Item.heads k, t.1 = h.1 ∧ h.2.1 ≤ c ∧ c ≤ h.2.2 := by
  induction k generalizing t with
  | nil => cases ht
  | cons x k ih =>
    obtain ⟨n, e⟩ := x
    rcases List.mem_append.mp ht with ht | ht
    · obtain ⟨h, hh, hstep⟩ := Expr.mem_heads ht
      exact ⟨h, List.mem_append_left _ hh, hstep⟩
    · obtain ⟨hnull, hmem⟩ := List.mem_ite_nil_right.mp ht
      obtain ⟨t, hfirst, rfl⟩ := List.mem_map.mp hmem
      obtain ⟨h, hh, hstamps, hc⟩ := ih hfirst
      refine ⟨(e.outs n ++ h.1, h.2), List.mem_append_right _ ?_, ?_, hc⟩
      · rw [if_pos hnull]
        exact List.mem_map_of_mem hh
      · rw [← hstamps]
        rfl

omit [LE α] [DecidableLE α] in
theorem fired_congr [DecidableEq A] {actions : List A} {ts us : List (Transition α A)}
    (h : ∀ t, t ∈ ts ↔ t ∈ us) : fired actions ts = fired actions us := by
  have hany : ∀ m : ℕ, (ts.any fun t => m ∈ t.1) = us.any fun t => m ∈ t.1 := by
    intro m
    rw [Bool.eq_iff_iff, List.any_eq_true, List.any_eq_true]
    simp only [h]
  simp only [fired, hany]

variable {σ : Type} [DecidableEq A] {actions : List A} {act : A → List α → σ → σ}

theorem exec_cons (alive : List (Item α A)) (before rest : List α) (c : α) (s : σ) :
    exec actions act alive before (c :: rest) s = if moves alive c = [] then none
      else exec actions act ((moves alive c).map Prod.snd) (before ++ [c]) rest
        ((fired actions (moves alive c)).foldl (fun s a => act a before s) s) := rfl

/-- What the machine does depends only on what its paths can do. -/
theorem exec_congr {alive alive' : List (Item α A)} {before rest : List α} {s : σ}
    (h : ∀ c rest', rest = c :: rest' → ∀ t, t ∈ moves alive c ↔ t ∈ moves alive' c) :
    exec actions act alive before rest s = exec actions act alive' before rest s := by
  induction rest generalizing alive alive' before s with
  | nil => rfl
  | cons c rest ih =>
    have hmoves := h c rest rfl
    have hdead : moves alive c = [] ↔ moves alive' c = [] := by
      simp only [List.eq_nil_iff_forall_not_mem, hmoves]
    rw [exec_cons alive, exec_cons alive']
    by_cases hc : moves alive c = []
    · rw [if_pos hc, if_pos (hdead.mp hc)]
    · rw [if_neg hc, if_neg (hdead.not.mp hc), fired_congr hmoves]
      apply ih
      intro d rest' _ t
      simp only [moves, List.mem_flatMap, List.mem_map] at hmoves ⊢
      simp only [hmoves]

theorem exec_item {k k' : Item α A} {before rest : List α} {s : σ} (h : ∀ c, next c k = next c k') :
    exec actions act [k] before rest s = exec actions act [k'] before rest s := by
  apply exec_congr
  intro c _ _ t
  simp [moves, h c]

omit [LE α] [DecidableLE α] in
theorem fired_silent {ts : List (Transition α A)} (h : ∀ t ∈ ts, t.1 = []) : fired actions ts = [] := by
  have hany : ∀ m : ℕ, (ts.any fun t => m ∈ t.1) = false := by
    intro m
    rw [List.any_eq_false]
    intro t ht
    simp [h t ht]
  simp [fired, hany]

/-- A step on which no path has an action. -/
theorem exec_silent {alive : List (Item α A)} {before rest : List α} {c : α} {s : σ}
    (h : ∀ t ∈ moves alive c, t.1 = []) :
    exec actions act alive before (c :: rest) s =
      if moves alive c = [] then none
      else exec actions act ((moves alive c).map Prod.snd) (before ++ [c]) rest s := by
  rw [exec, fired_silent h]
  rfl

/-- A step that can only be made in one way. -/
theorem exec_step {alive : List (Item α A)} {k : Item α A} {before rest : List α} {c : α} {s : σ}
    (h : ∀ t, t ∈ moves alive c ↔ t = ([], k)) :
    exec actions act alive before (c :: rest) s = exec actions act [k] (before ++ [c]) rest s := by
  rw [exec_silent fun t ht => by rw [(h t).mp ht], if_neg (List.ne_nil_of_mem ((h _).mpr rfl))]
  apply exec_congr
  intro d _ _ t
  have hmem : ∀ x, x ∈ (moves alive c).map Prod.snd ↔ x = k := by
    intro x
    simp [h, eq_comm]
  rw [moves, List.mem_flatMap]
  simp only [hmem, exists_eq_left]
  simp [moves]

theorem exec_range {n : ℕ} {lo hi c : α} {k : Item α A} {before rest : List α} {s : σ}
    (h : lo ≤ c ∧ c ≤ hi) :
    exec actions act [(Expr.range lo hi).parts n ++ k] before (c :: rest) s =
      exec actions act [k] (before ++ [c]) rest s := by
  apply exec_step
  intro t
  rw [moves, List.flatMap_singleton, next_parts, next_range, if_pos h, List.mem_singleton]

theorem exec_char [@Std.Refl α (· ≤ ·)] {n : ℕ} {c : α} {k : Item α A} {before rest : List α} {s : σ} :
    exec actions act [(Expr.char c).parts n ++ k] before (c :: rest) s =
      exec actions act [k] (before ++ [c]) rest s :=
  exec_range ⟨Std.Refl.refl _, Std.Refl.refl _⟩

theorem exec_alt {n : ℕ} {e f : Expr α A} (he : e.nullable = false) {k : Item α A}
    {before rest : List α} {s : σ} :
    exec actions act [(Expr.alt e f).parts n ++ k] before rest s =
      exec actions act [e.parts n ++ k, f.parts (n + e.size) ++ k] before rest s := by
  apply exec_congr
  intro c _ _ t
  simp [moves, next_alt c n he k]

theorem exec_star {n : ℕ} {e : Expr α A} (he : e.nullable = false) {k : Item α A}
    {before rest : List α} {s : σ} :
    exec actions act [(Expr.star e).parts n ++ k] before rest s =
      exec actions act [e.parts n ++ ((Expr.star e).parts n ++ k), k] before rest s := by
  apply exec_congr
  intro c _ _ t
  simp [moves, next_star c n he k]

theorem exec_opt {n : ℕ} {e : Expr α A} (he : e.nullable = false) {k : Item α A}
    {before rest : List α} {s : σ} :
    exec actions act [e.opt.parts n ++ k] before rest s =
      exec actions act [e.parts n ++ k, k] before rest s :=
  exec_alt he

omit [DecidableEq A] in
theorem moves_append (alive dead : List (Item α A)) (c : α) :
    moves (alive ++ dead) c = moves alive c ++ moves dead c := List.flatMap_append

theorem exec_swap {alive dead : List (Item α A)} {before rest : List α} {s : σ} :
    exec actions act (dead ++ alive) before rest s = exec actions act (alive ++ dead) before rest s := by
  apply exec_congr
  intro c _ _ t
  simp [moves_append, or_comm]

/-- Paths that cannot read the next character can be left out. -/
theorem exec_drop {alive dead : List (Item α A)} {c : α} {before rest : List α} {s : σ}
    (h : moves dead c = []) :
    exec actions act (alive ++ dead) before (c :: rest) s =
      exec actions act alive before (c :: rest) s := by
  rw [exec, exec, moves_append, h, List.append_nil]

/-- Paths that cannot read the next two characters can be left out. -/
theorem exec_drop₂ {alive dead : List (Item α A)} {c d : α} {before rest : List α} {s : σ}
    (hsilent : ∀ t ∈ moves dead c, t.1 = []) (hdead : moves ((moves dead c).map Prod.snd) d = []) :
    exec actions act (alive ++ dead) before (c :: d :: rest) s =
      exec actions act alive before (c :: d :: rest) s := by
  have hfired : fired actions (moves alive c ++ moves dead c) = fired actions (moves alive c) := by
    have hany : ∀ m : ℕ, ((moves dead c).any fun t => m ∈ t.1) = false := by
      intro m
      rw [List.any_eq_false]
      intro t ht
      simp [hsilent t ht]
    simp only [fired, List.any_append, hany, Bool.or_false]
  rw [exec_cons (alive ++ dead), exec_cons alive, moves_append, hfired, List.map_append]
  by_cases halive : moves alive c = []
  · rw [if_pos halive, halive, List.nil_append]
    split_ifs
    · rfl
    · rw [List.map_nil, List.nil_append, exec, if_pos hdead]
  · rw [if_neg halive, if_neg (by simp [halive]), exec_drop hdead]

theorem exec_left {x y : Item α A} {c : α} {before rest : List α} {s : σ} (h : next c y = []) :
    exec actions act [x, y] before (c :: rest) s = exec actions act [x] before (c :: rest) s := by
  change exec actions act ([x] ++ [y]) before (c :: rest) s = _
  apply exec_drop
  rw [moves, List.flatMap_singleton, h]

theorem exec_right {x y : Item α A} {c : α} {before rest : List α} {s : σ} (h : next c x = []) :
    exec actions act [x, y] before (c :: rest) s = exec actions act [y] before (c :: rest) s := by
  change exec actions act ([x] ++ [y]) before (c :: rest) s = _
  rw [exec_swap]
  exact exec_left h

theorem exec_left₂ {x y : Item α A} {c d : α} {before rest : List α} {s : σ}
    (h : ∀ t ∈ next c y, t.1 = [] ∧ next d t.2 = []) :
    exec actions act [x, y] before (c :: d :: rest) s = exec actions act [x] before (c :: d :: rest) s := by
  change exec actions act ([x] ++ [y]) before (c :: d :: rest) s = _
  have hmoves : moves [y] c = next c y := by simp [moves]
  apply exec_drop₂
  · rw [hmoves]
    exact fun t ht => (h t ht).1
  · rw [hmoves, moves, List.flatMap_eq_nil_iff]
    intro z hz
    obtain ⟨t, ht, rfl⟩ := List.mem_map.mp hz
    exact (h t ht).2

theorem exec_right₂ {x y : Item α A} {c d : α} {before rest : List α} {s : σ}
    (h : ∀ t ∈ next c x, t.1 = [] ∧ next d t.2 = []) :
    exec actions act [x, y] before (c :: d :: rest) s = exec actions act [y] before (c :: d :: rest) s := by
  change exec actions act ([x] ++ [y]) before (c :: d :: rest) s = _
  rw [exec_swap]
  exact exec_left₂ h

omit [LE α] [DecidableLE α] in
theorem fired_of_mem {a : A} {ts : List (Transition α A)} {i : ℕ} (hi : actions[i]? = some a)
    {t : Transition α A} (ht : t ∈ ts) (hstamp : i ∈ t.1) : a ∈ fired actions ts := by
  rw [fired, List.mem_eraseDups, List.mem_map]
  refine ⟨(a, i), ?_, rfl⟩
  rw [List.mem_filter]
  refine ⟨List.mk_mem_zipIdx_iff_getElem?.mpr hi, ?_⟩
  rw [List.any_eq_true]
  exact ⟨t, ht, by simpa using hstamp⟩

/-- Only one of the paths gets past two characters. -/
theorem exec_only₂ {l m : List (Item α A)} {x : Item α A} {c d : α} {before rest : List α} {s : σ}
    (h : ∀ y ∈ l ++ m, ∀ t ∈ next c y, t.1 = [] ∧ next d t.2 = []) :
    exec actions act (l ++ x :: m) before (c :: d :: rest) s = exec actions act [x] before (c :: d :: rest) s := by
  have hmoves : ∀ t ∈ moves (l ++ m) c, t.1 = [] ∧ next d t.2 = [] := by
    intro t ht
    obtain ⟨y, hy, ht⟩ := List.mem_flatMap.mp ht
    exact h y hy t ht
  have hfront : exec actions act (l ++ x :: m) before (c :: d :: rest) s =
      exec actions act ([x] ++ (l ++ m)) before (c :: d :: rest) s := by
    apply exec_congr
    intro c _ _ t
    simp only [moves, List.flatMap_append, List.flatMap_cons, List.flatMap_nil, List.mem_append,
      List.append_nil]
    tauto
  rw [hfront]
  apply exec_drop₂
  · exact fun t ht => (hmoves t ht).1
  · rw [moves, List.flatMap_eq_nil_iff]
    intro y hy
    obtain ⟨t, ht, rfl⟩ := List.mem_map.mp hy
    exact (hmoves t ht).2

omit [LE α] [DecidableLE α] in
theorem mem_fired {a : A} {ts : List (Transition α A)} (h : a ∈ fired actions ts) :
    ∃ i, actions[i]? = some a ∧ ∃ t ∈ ts, i ∈ t.1 := by
  rw [fired, List.mem_eraseDups, List.mem_map] at h
  obtain ⟨⟨a, i⟩, hx, rfl⟩ := h
  obtain ⟨hx, ht⟩ := List.mem_filter.mp hx
  rw [List.any_eq_true] at ht
  obtain ⟨t, ht, hi⟩ := ht
  exact ⟨i, List.mem_zipIdx_iff_getElem?.mp hx, t, ht, of_decide_eq_true hi⟩

omit [LE α] [DecidableLE α] [DecidableEq A] in
theorem any_prepend {n : ℕ} {ts : List (Transition α A)} (hne : ts ≠ []) (m : ℕ) :
    ((ts.map (prepend [n])).any fun t => decide (m ∈ t.1)) =
      (decide (m = n) || ts.any fun t => decide (m ∈ t.1)) := by
  obtain ⟨t₀, ht₀⟩ := List.exists_mem_of_ne_nil ts hne
  rw [Bool.eq_iff_iff]
  simp only [List.any_map, List.any_eq_true, Function.comp, prepend, decide_eq_true_eq,
    List.cons_append, List.nil_append, List.mem_cons, Bool.or_eq_true]
  constructor
  · rintro ⟨t, ht, rfl | hm⟩
    · exact .inl rfl
    · exact .inr ⟨t, ht, hm⟩
  · rintro (rfl | ⟨t, ht, hm⟩)
    · exact ⟨t₀, ht₀, .inl rfl⟩
    · exact ⟨t, ht, .inr hm⟩

omit [DecidableEq A] in
/-- The indexes that are kept when those before `n` are not. -/
theorem filter_zipIdx {n : ℕ} {a : A} (ha : actions[n]? = some a) {p : ℕ → Bool} (hp : ∀ m < n, p m = false) :
    actions.zipIdx.filter (fun x => p x.2) =
      ((a, n) :: (actions.drop (n + 1)).zipIdx (n + 1)).filter fun x => p x.2 := by
  obtain ⟨hlt, hget⟩ := List.getElem?_eq_some_iff.mp ha
  have hdrop : actions.drop n = a :: actions.drop (n + 1) := by rw [List.drop_eq_getElem_cons hlt, hget]
  have hsplit : actions.zipIdx = (actions.take n).zipIdx ++ (a, n) :: (actions.drop (n + 1)).zipIdx (n + 1) := by
    conv_lhs => rw [← List.take_append_drop n actions, hdrop]
    rw [List.zipIdx_append, List.zipIdx_cons]
    simp [Nat.min_eq_left hlt.le]
  have hbefore : (actions.take n).zipIdx.filter (fun x => p x.2) = [] := by
    rw [List.filter_eq_nil_iff]
    rintro ⟨b, i⟩ hx
    have hi := (List.mem_zipIdx hx).2.1
    rw [hp i (by simp only [List.length_take] at hi; omega)]
    exact Bool.false_ne_true
  rw [hsplit, List.filter_append, hbefore, List.nil_append]

omit [LE α] [DecidableLE α] in
/-- An action that comes before those of all transitions. -/
theorem fired_prepend {n : ℕ} {a : A} (ha : actions[n]? = some a) {ts : List (Transition α A)}
    (hne : ts ≠ []) (hts : ∀ t ∈ ts, ∀ m ∈ t.1, n < m ∧ actions[m]? ≠ some a) :
    fired actions (ts.map (prepend [n])) = a :: fired actions ts := by
  have hnot : ∀ m, m ≤ n → (ts.any fun t => decide (m ∈ t.1)) = false := by
    intro m hm
    rw [List.any_eq_false]
    intro t ht hmem
    have := (hts t ht m (of_decide_eq_true hmem)).1
    omega
  have hafter : ((actions.drop (n + 1)).zipIdx (n + 1)).filter
        (fun x => decide (x.2 = n) || ts.any fun t => decide (x.2 ∈ t.1)) =
      ((actions.drop (n + 1)).zipIdx (n + 1)).filter fun x => ts.any fun t => decide (x.2 ∈ t.1) := by
    apply List.filter_congr
    rintro ⟨b, i⟩ hx
    have hi := (List.mem_zipIdx hx).1
    have hne : decide (i = n) = false := decide_eq_false (by omega)
    simp only [hne, Bool.false_or]
  have hfired : fired actions ts = ((((actions.drop (n + 1)).zipIdx (n + 1)).filter
      fun x => ts.any fun t => decide (x.2 ∈ t.1)).map Prod.fst).eraseDups := by
    rw [fired, filter_zipIdx ha (p := fun m => ts.any fun t => decide (m ∈ t.1)) fun m hm => hnot m hm.le,
      List.filter_cons_of_neg (by simp [hnot n le_rfl])]
  have hmem : a ∉ fired actions ts := by
    intro hmem
    obtain ⟨i, hi, t, ht, hstamp⟩ := mem_fired hmem
    exact (hts t ht i hstamp).2 hi
  rw [hfired] at hmem ⊢
  rw [List.mem_eraseDups] at hmem
  simp only [fired, any_prepend hne]
  rw [filter_zipIdx ha (p := fun m => decide (m = n) || ts.any fun t => decide (m ∈ t.1)) fun m hm => by
    simp [hnot m hm.le, hm.ne], List.filter_cons_of_pos (by simp), hafter, List.map_cons, List.eraseDups_cons]
  congr 2
  rw [List.filter_eq_self]
  intro b hb
  have hne : b ≠ a := fun h => hmem (h ▸ hb)
  simpa using hne

/-- A leaving action that comes before everything else on the character. -/
theorem exec_out {n : ℕ} {a : A} (ha : actions[n]? = some a) {k : Item α A} {c : α}
    (hk : ∀ t ∈ next c k, ∀ m ∈ t.1, n < m ∧ actions[m]? ≠ some a) {before rest : List α} {s : σ} :
    exec actions act [(n, .leave .empty a) :: k] before (c :: rest) s =
      exec actions act [k] before (c :: rest) (act a before s) := by
  have hmoves : moves [(n, .leave .empty a) :: k] c = (moves [k] c).map (prepend [n]) := by
    simp [moves, next_out]
  have hts : ∀ t ∈ moves [k] c, ∀ m ∈ t.1, n < m ∧ actions[m]? ≠ some a := by
    simpa [moves] using hk
  rw [exec_cons, exec_cons [k], hmoves]
  by_cases hne : moves [k] c = []
  · simp [hne]
  · rw [if_neg (by simpa using hne), if_neg hne, fired_prepend ha hne hts, List.map_map]
    rfl

/-- An entering action is executed as a leaving action in front of the expression. -/
theorem exec_in {n : ℕ} {e : Expr α A} (he : e.nullable = false) {a : A} {k : Item α A}
    {before rest : List α} {s : σ} :
    exec actions act [(Expr.enter a e).parts n ++ k] before rest s =
      exec actions act [(n, .leave .empty a) :: (e.parts (n + 1) ++ k)] before rest s := by
  apply exec_item
  intro c
  rw [next_enter c n he, next_out]

def Item.Silent (k : Item α A) : Prop := ∀ x ∈ k, x.2.actions = []

omit [LE α] [DecidableLE α] [DecidableEq A] in
theorem Item.Silent.parts {e : Expr α A} (h : e.actions = []) (n : ℕ) : Item.Silent (e.parts n) := by
  induction e generalizing n with
  | empty => simp [Silent, Expr.parts]
  | seq e f ihe ihf =>
    obtain ⟨he, hf⟩ := List.append_eq_nil_iff.mp h
    exact List.forall_mem_append.mpr ⟨ihe he n, ihf hf _⟩
  | leave e a => simp [Expr.actions] at h
  | _ => exact List.forall_mem_singleton.mpr h

omit [LE α] [DecidableLE α] [DecidableEq A] in
theorem outs_silent {e : Expr α A} (h : e.actions = []) (n : ℕ) : e.outs n = [] := by
  induction e generalizing n with
  | empty => rfl
  | range lo hi => rfl
  | seq e f ihe ihf =>
    obtain ⟨he, hf⟩ := List.append_eq_nil_iff.mp h
    simp [Expr.outs, ihe he, ihf hf]
  | alt e f ihe ihf =>
    obtain ⟨he, hf⟩ := List.append_eq_nil_iff.mp h
    simp [Expr.outs, ihe he, ihf hf]
  | star e ih => simp [Expr.outs, ih h]
  | enter a e => simp [Expr.actions] at h
  | leave e a => simp [Expr.actions] at h

omit [DecidableEq A] in
theorem first_silent {e : Expr α A} (h : e.actions = []) {c : α} {n : ℕ} {k : Item α A}
    (hk : Item.Silent k) : ∀ t ∈ e.first c n k, t.1 = [] ∧ Item.Silent t.2 := by
  induction e generalizing n k with
  | empty => simp [Expr.first]
  | range lo hi =>
    rw [Expr.first]
    split_ifs
    · simpa using hk
    · simp
  | seq e f ihe ihf =>
    obtain ⟨he, hf⟩ := List.append_eq_nil_iff.mp h
    rw [Expr.first, outs_silent he]
    intro t ht
    rcases List.mem_append.mp ht with ht | ht
    · exact ihe he (List.forall_mem_append.mpr ⟨Item.Silent.parts hf _, hk⟩) t ht
    · split_ifs at ht
      · exact ihf hf hk t (by simpa using ht)
      · cases ht
  | alt e f ihe ihf =>
    obtain ⟨he, hf⟩ := List.append_eq_nil_iff.mp h
    intro t ht
    rcases List.mem_append.mp ht with ht | ht
    · exact ihe he hk t ht
    · exact ihf hf hk t ht
  | star e ih => exact ih h (List.forall_mem_cons.mpr ⟨h, hk⟩)
  | enter a e => simp [Expr.actions] at h
  | leave e a => simp [Expr.actions] at h

omit [DecidableEq A] in
theorem Item.Silent.next {k : Item α A} (h : Item.Silent k) (c : α) :
    ∀ t ∈ next c k, t.1 = [] ∧ Item.Silent t.2 := by
  induction k with
  | nil => simp [Ragel.next]
  | cons x k ih =>
    obtain ⟨n, e⟩ := x
    obtain ⟨he, hk⟩ := List.forall_mem_cons.mp h
    rw [Ragel.next, outs_silent he]
    intro t ht
    rcases List.mem_append.mp ht with ht | ht
    · exact first_silent he hk t ht
    · split_ifs at ht
      · exact ih hk t (by simpa using ht)
      · cases ht

omit [DecidableEq A] in
theorem first_append (c : α) (e : Expr α A) (n : ℕ) (k l : Item α A) :
    e.first c n (k ++ l) = (e.first c n k).map fun t => (t.1, t.2 ++ l) := by
  induction e generalizing n k with
  | empty => rfl
  | range lo hi =>
    rw [Expr.first, Expr.first]
    split_ifs
    · rfl
    · rfl
  | seq e f ihe ihf =>
    rw [Expr.first, Expr.first, ← List.append_assoc, ihe, ihf, List.map_append]
    split_ifs
    · simp [prepend, Function.comp_def]
    · rfl
  | alt e f ihe ihf => rw [Expr.first, Expr.first, ihe, ihf, List.map_append]
  | star e ih => exact ih n ((n, .star e) :: k)
  | enter a e ih =>
    rw [Expr.first, Expr.first, ih]
    simp [prepend, Function.comp_def]
  | leave e a ih => exact ih n ((n + e.size, .leave .empty a) :: k)

omit [DecidableEq A] in
/-- A path followed by another one, which has its turn once the first has come to an end. -/
theorem next_append {k : Item α A} (h : Item.Silent k) (c : α) (l : Item α A) :
    next c (k ++ l : List _) = ((next c k).map fun t => (t.1, t.2 ++ l)) ++
      if Item.nullable k then next c l else [] := by
  induction k with
  | nil => simp [next, Item.nullable]
  | cons x k ih =>
    obtain ⟨n, e⟩ := x
    obtain ⟨he, hk⟩ := List.forall_mem_cons.mp h
    have hnullable : Item.nullable ((n, e) :: k) = (e.nullable && Item.nullable k) := rfl
    rw [List.cons_append, next, next, first_append, ih hk, outs_silent he, hnullable]
    by_cases hn : e.nullable
    · simp [hn]
    · simp [hn]

omit [DecidableEq A] in
/-- Paths without actions lead on to what follows from where they may end. -/
theorem moves_followed {alive : List (Item α A)} (hsilent : ∀ x ∈ alive, Item.Silent x) (c : α) (k : Item α A) :
    moves (alive.map (· ++ k)) c = alive.flatMap fun x => ((next c x).map fun t => (t.1, t.2 ++ k)) ++
      if Item.nullable x then next c k else [] := by
  rw [moves, List.flatMap_map]
  exact List.flatMap_congr fun x hx => next_append (hsilent x hx) c k

omit [DecidableEq A] in
/-- Where the paths go on, nothing that follows them is entered. -/
theorem moves_followed_of_next_eq_nil {alive : List (Item α A)} (hsilent : ∀ x ∈ alive, Item.Silent x) {c : α}
    {k : Item α A} (hk : (∃ x ∈ alive, Item.nullable x = true) → next c k = []) :
    moves (alive.map (· ++ k)) c = (moves alive c).map fun t => (t.1, t.2 ++ k) := by
  rw [moves_followed hsilent, moves, List.map_flatMap]
  apply List.flatMap_congr
  intro x hx
  by_cases hfinal : Item.nullable x = true
  · rw [if_pos hfinal, hk ⟨x, hx, hfinal⟩, List.append_nil]
  · rw [if_neg hfinal, List.append_nil]

/-- Text is read on paths without actions, before what follows on another path. -/
theorem exec_scan {alive : List (Item α A)} (hsilent : ∀ x ∈ alive, Item.Silent x) {u : List α}
    (hend : ∃ x ∈ after alive u, Item.nullable x = true) {k : Item α A}
    (hk : ∀ v c w, u = v ++ c :: w → (∃ x ∈ after alive v, Item.nullable x = true) → next c k = [])
    {rest : List α} (hrest : ∀ c w, rest = c :: w → moves (after alive u) c = [])
    {before : List α} {s : σ} :
    exec actions act (alive.map (· ++ k)) before (u ++ rest) s =
      exec actions act [k] (before ++ u) rest s := by
  induction u generalizing alive before with
  | nil =>
    rw [List.nil_append, List.append_nil]
    apply exec_congr
    intro c w hw t
    obtain ⟨x, hx, hfinal⟩ := hend
    have hdead : ∀ y ∈ alive, next c y = [] := by
      have h := hrest c w hw
      simpa [moves, after, List.flatMap_eq_nil_iff] using h
    rw [moves_followed hsilent]
    simp only [List.mem_flatMap, List.mem_append, moves, List.mem_singleton, exists_eq_left]
    constructor
    · rintro ⟨y, hy, ht | ht⟩
      · simp [hdead y hy] at ht
      · split_ifs at ht
        · exact ht
        · cases ht
    · intro ht
      exact ⟨x, hx, .inr (by simpa [hfinal] using ht)⟩
  | cons c u ih =>
    have hfollow := moves_followed_of_next_eq_nil hsilent (hk [] c u rfl)
    have hstamps : ∀ t ∈ moves alive c, t.1 = [] ∧ Item.Silent t.2 := by
      intro t ht
      obtain ⟨x, hx, ht⟩ := List.mem_flatMap.mp ht
      exact (hsilent x hx).next c t ht
    have hne : moves alive c ≠ [] := by
      intro h
      rw [after, h, List.map_nil, after_nil] at hend
      obtain ⟨x, hx, -⟩ := hend
      cases hx
    have hnext : ((moves alive c).map fun t => (t.1, t.2 ++ k)).map Prod.snd =
        ((moves alive c).map Prod.snd).map (· ++ k) := by simp
    rw [List.cons_append, exec_silent, hfollow, if_neg (by simpa using hne), hnext, ih]
    · simp
    · intro x hx
      obtain ⟨t, ht, rfl⟩ := List.mem_map.mp hx
      exact (hstamps t ht).2
    · exact hend
    · exact fun v d w hu hfinal => hk (c :: v) d w (by rw [hu]; rfl) hfinal
    · exact hrest
    · rw [hfollow]
      intro t ht
      obtain ⟨t, ht', rfl⟩ := List.mem_map.mp ht
      exact (hstamps t ht').1

omit [DecidableEq A] in
theorem final_after {e : Expr α A} {n : ℕ} {u : List α} :
    (∃ x ∈ after [e.parts n] u, Item.nullable x = true) ↔ u ∈ e.language := by
  have hafter : (∃ x ∈ after [e.parts n] u, [] ∈ Item.language x) ↔ u ∈ e.language := by
    rw [mem_after]
    simp [e.language_parts]
  simpa only [Item.nil_mem_language] using hafter

/-- An expression without actions is read when its text comes to an end with what can
be read of it, and what follows has no turn before. -/
theorem exec_read [@Std.Refl α (· ≤ ·)] {e : Expr α A} (hp : e.Productive) (ha : e.actions = [])
    {u : List α} (hu : u ∈ e.language) {n : ℕ} {k : Item α A}
    (hk : ∀ v c w, u = v ++ c :: w → v ∈ e.language → next c k = [])
    {rest : List α} (hrest : ∀ c w, rest = c :: w → ∀ v, u ++ c :: v ∉ e.language)
    {before : List α} {s : σ} :
    exec actions act [e.parts n ++ k] before (u ++ rest) s =
      exec actions act [k] (before ++ u) rest s := by
  change exec actions act ([e.parts n].map (· ++ k)) before (u ++ rest) s = _
  apply exec_scan
  · simpa using Item.Silent.parts ha n
  · exact final_after.mpr hu
  · exact fun v c w heq hfinal => hk v c w heq (final_after.mp hfinal)
  · intro c w hw
    by_contra hne
    have hproductive : ∀ x ∈ after [e.parts n] u, Item.Productive x :=
      productive_after (by simpa using hp.parts n) u
    obtain ⟨t, ht⟩ := List.exists_mem_of_ne_nil _ hne
    obtain ⟨x, hx, ht'⟩ := List.mem_flatMap.mp ht
    obtain ⟨v, hv⟩ := ((hproductive x hx).next t ht').nonempty
    have hlanguage : ∃ x ∈ [e.parts n], u ++ c :: v ∈ Item.language x :=
      mem_after.mp ⟨x, hx, (next_language c v x).mp ⟨t, ht', hv⟩⟩
    simp only [List.mem_singleton, exists_eq_left, e.language_parts] at hlanguage
    exact hrest c w hw v hlanguage

/-- The characters that occur in the texts of an expression. -/
def Expr.covers (c : α) : Expr α A → Bool
  | .empty => false
  | .range lo hi => lo ≤ c ∧ c ≤ hi
  | .seq e f => e.covers c || f.covers c
  | .alt e f => e.covers c || f.covers c
  | .star e => e.covers c
  | .enter _ e => e.covers c
  | .leave e _ => e.covers c

omit [DecidableEq A] in
theorem Expr.covers_of_mem {e : Expr α A} {u : List α} (h : u ∈ e.language) :
    ∀ c ∈ u, e.covers c = true := by
  induction e generalizing u with
  | empty =>
    rw [(Language.mem_one u).mp h]
    simp
  | range lo hi =>
    obtain ⟨d, hlo, hhi, rfl⟩ := h
    simp [covers, hlo, hhi]
  | seq e f ihe ihf =>
    obtain ⟨v, hv, w, hw, rfl⟩ := Language.mem_mul.mp h
    intro c hc
    rw [covers, Bool.or_eq_true]
    exact (List.mem_append.mp hc).imp (ihe hv c) (ihf hw c)
  | alt e f ihe ihf =>
    intro c hc
    rw [covers, Bool.or_eq_true]
    exact ((Language.mem_add _ _ u).mp h).imp (fun hu => ihe hu c hc) fun hu => ihf hu c hc
  | star e ih =>
    obtain ⟨parts, rfl, hparts⟩ := Language.mem_kstar.mp h
    intro c hc
    obtain ⟨part, hpart, hc⟩ := List.mem_flatten.mp hc
    exact ih (hparts part hpart) c hc
  | enter a e ih => exact ih h
  | leave e a ih => exact ih h

def Expr.classes : Expr α A → List (α × α)
  | .empty => []
  | .range lo hi => [(lo, hi)]
  | .seq e f => e.classes ++ f.classes
  | .alt e f => e.classes ++ f.classes
  | .star e => e.classes
  | .enter _ e => e.classes
  | .leave e _ => e.classes

omit [DecidableEq A] in
theorem Expr.covers_iff {c : α} {e : Expr α A} : e.covers c = true ↔ ∃ r ∈ e.classes, r.1 ≤ c ∧ c ≤ r.2 := by
  induction e with
  | empty => simp [covers, classes]
  | range lo hi => simp [covers, classes]
  | seq e f ihe ihf => simp [covers, classes, ihe, ihf, or_and_right, exists_or]
  | alt e f ihe ihf => simp [covers, classes, ihe, ihf, or_and_right, exists_or]
  | star e ih => exact ih
  | enter a e ih => exact ih
  | leave e a ih => exact ih

/-- A class of characters: a union of ranges. -/
def Expr.isClass : Expr α A → Bool
  | .range _ _ => true
  | .alt e f => e.isClass && f.isClass
  | _ => false

omit [DecidableLE α] [DecidableEq A] in
theorem mem_class {e : Expr α A} (h : e.isClass = true) {w : List α} (hw : w ∈ e.language) : ∃ c, w = [c] := by
  induction e with
  | range lo hi =>
    obtain ⟨c, -, -, rfl⟩ := hw
    exact ⟨c, rfl⟩
  | alt e f ihe ihf =>
    obtain ⟨he, hf⟩ := Bool.and_eq_true_iff.mp h
    rcases (Language.mem_add _ _ w).mp hw with hw | hw
    · exact ihe he hw
    · exact ihf hf hw
  | _ => cases h

omit [DecidableEq A] in
theorem class_language {e : Expr α A} (h : e.isClass = true) (w : List α) :
    w ∈ e.language ↔ ∃ c, e.covers c = true ∧ w = [c] := by
  induction e with
  | range lo hi =>
    simp only [Expr.covers, decide_eq_true_eq, and_assoc]
    rfl
  | alt e f ihe ihf =>
    obtain ⟨he, hf⟩ := Bool.and_eq_true_iff.mp h
    rw [Expr.language, Language.mem_add, ihe he, ihf hf]
    simp only [Expr.covers, Bool.or_eq_true, or_and_right, exists_or]
  | _ => cases h

omit [DecidableEq A] in
theorem mem_class_mul {e : Expr α A} (h : e.isClass = true) {l : Language α} {w : List α} :
    w ∈ e.language * l ↔ ∃ c v, e.covers c = true ∧ v ∈ l ∧ w = c :: v := by
  constructor
  · intro hw
    obtain ⟨u, hu, v, hv, rfl⟩ := Language.mem_mul.mp hw
    obtain ⟨c, hc, rfl⟩ := (class_language h u).mp hu
    exact ⟨c, v, hc, hv, rfl⟩
  · rintro ⟨c, v, hc, hv, rfl⟩
    exact Language.mem_mul.mpr ⟨[c], (class_language h [c]).mpr ⟨c, hc, rfl⟩, v, hv, rfl⟩

omit [DecidableEq A] in
/-- The texts of classes in a row have one character for each of them. -/
theorem cat_classes_language {es : List (Expr α A)} (h : ∀ e ∈ es, e.isClass = true) (w : List α) :
    w ∈ (Expr.cat es).language ↔ List.Forall₂ (fun e c => e.covers c = true) es w := by
  induction es generalizing w with
  | nil =>
    rw [List.forall₂_nil_left_iff]
    exact Language.mem_one w
  | cons e es ih =>
    obtain ⟨he, hes⟩ := List.forall_mem_cons.mp h
    rw [List.forall₂_cons_left_iff]
    cases es with
    | nil =>
      rw [Expr.cat, class_language he]
      simp
    | cons f fs =>
      change w ∈ e.language * (Expr.cat (f :: fs)).language ↔ _
      rw [mem_class_mul he]
      simp only [ih hes, exists_and_left]

omit [DecidableEq A] in
theorem star_class_language {e : Expr α A} (h : e.isClass = true) (w : List α) :
    w ∈ e.star.language ↔ ∀ c ∈ w, e.covers c = true := by
  constructor
  · exact fun hw => Expr.covers_of_mem (e := e.star) hw
  · intro hall
    refine Language.mem_kstar.mpr ⟨w.map fun c => [c], ?_, ?_⟩
    · rw [← List.flatMap_def, List.flatMap_singleton']
    intro part hpart
    obtain ⟨c, hc, rfl⟩ := List.mem_map.mp hpart
    exact (class_language h [c]).mpr ⟨c, hall c hc, rfl⟩

omit [DecidableEq A] in
theorem next_class {e : Expr α A} (h : e.isClass = true) (d : α) (n : ℕ) (k : Item α A) (t : Transition α A) :
    t ∈ next d (e.parts n ++ k) ↔ e.covers d = true ∧ t = ([], k) := by
  have hnull : ∀ {e : Expr α A}, e.isClass = true → e.nullable = false := by
    intro e
    induction e with
    | range lo hi => exact fun _ => rfl
    | alt e f ihe ihf =>
      intro h
      obtain ⟨he, hf⟩ := Bool.and_eq_true_iff.mp h
      rw [Expr.nullable, ihe he, ihf hf]
      rfl
    | _ => rintro ⟨⟩
  induction e generalizing n with
  | range lo hi =>
    rw [next_parts, next_range]
    simp [Expr.covers]
  | alt e f ihe ihf =>
    obtain ⟨he, hf⟩ := Bool.and_eq_true_iff.mp h
    have hleft := ihe he n
    have hright := ihf hf (n + e.size)
    simp only [next_alt d n (hnull he), List.mem_append, hleft, hright, Expr.covers, Bool.or_eq_true, or_and_right]
  | _ => cases h

omit [DecidableEq A] in
theorem next_skip {d : α} {n : ℕ} {e : Expr α A} (h : e.nullable = true) (ho : e.outs n = [])
    (k : Item α A) : next d k ⊆ next d (e.parts n ++ k) := by
  rw [next_parts, next, h, ho]
  simp

omit [DecidableEq A] in
theorem next_pad (d c : α) (n : ℕ) (k : Item α A) : next d ((n, .star (.char c)) :: k) =
    (if c ≤ d ∧ d ≤ c then [([], (n, .star (.char c)) :: k)] else []) ++ next d k := by
  simp [next, Expr.first, Expr.char, Expr.nullable, Expr.outs]

/-- A character may be repeated before paths that can do without it: where they can read
it, nothing is possible afterwards that has not been so before. -/
theorem exec_pad [@Std.Refl α (· ≤ ·)] [@Std.Antisymm α (· ≤ ·)] {c : α} {ks : List (ℕ × Item α A)}
    (hne : ks ≠ []) (habsorb : ∀ t ∈ moves (ks.map Prod.snd) c, t.1 = [] ∧
      ∀ d, next d t.2 ⊆ moves (ks.map Prod.snd) d) (m : ℕ) {before rest : List α}
    (hrest : ∀ w, rest ≠ c :: w) {s : σ} :
    exec actions act (ks.map fun k => (Expr.star (.char c)).parts k.1 ++ k.2) before
        (List.replicate m c ++ rest) s =
      exec actions act (ks.map Prod.snd) (before ++ List.replicate m c) rest s := by
  have hself : c ≤ c ∧ c ≤ c := ⟨Std.Refl.refl _, Std.Refl.refl _⟩
  suffices hgeneral : ∀ (alive : List (Item α A)),
      (∀ k ∈ ks, (k.1, Expr.star (.char c)) :: k.2 ∈ alive) →
      (∀ x ∈ alive, (∃ k ∈ ks, x = (k.1, Expr.star (.char c)) :: k.2) ∨
        ∀ d, next d x ⊆ moves (ks.map Prod.snd) d) →
      exec actions act alive before (List.replicate m c ++ rest) s =
        exec actions act (ks.map Prod.snd) (before ++ List.replicate m c) rest s by
    apply hgeneral
    · exact fun k hk => List.mem_map_of_mem hk
    · intro x hx
      obtain ⟨k, hk, rfl⟩ := List.mem_map.mp hx
      exact .inl ⟨k, hk, rfl⟩
  induction m generalizing before with
  | zero =>
    intro alive hpads hothers
    rw [List.replicate_zero, List.nil_append, List.append_nil]
    apply exec_congr
    intro d w hw t
    have hother : ¬(c ≤ d ∧ d ≤ c) := by
      intro h
      cases Std.Antisymm.antisymm (r := (· ≤ ·)) c d h.1 h.2
      exact hrest w hw
    constructor
    · intro ht
      obtain ⟨x, hx, ht⟩ := List.mem_flatMap.mp ht
      rcases hothers x hx with ⟨k, hk, rfl⟩ | hsub
      · rw [next_pad, if_neg hother, List.nil_append] at ht
        exact List.mem_flatMap.mpr ⟨k.2, List.mem_map_of_mem hk, ht⟩
      · exact hsub d ht
    · intro ht
      obtain ⟨_, hx, ht⟩ := List.mem_flatMap.mp ht
      obtain ⟨k, hk, rfl⟩ := List.mem_map.mp hx
      refine List.mem_flatMap.mpr ⟨_, hpads k hk, ?_⟩
      rw [next_pad]
      exact List.mem_append_right _ ht
  | succ m ih =>
    intro alive hpads hothers
    have hmoves : ∀ t ∈ moves alive c, t.1 = [] ∧
        ((∃ k ∈ ks, t.2 = (k.1, Expr.star (.char c)) :: k.2) ∨
          ∀ d, next d t.2 ⊆ moves (ks.map Prod.snd) d) := by
      intro t ht
      obtain ⟨x, hx, ht⟩ := List.mem_flatMap.mp ht
      rcases hothers x hx with ⟨k, hk, rfl⟩ | hsub
      · rw [next_pad, if_pos hself] at ht
        rcases List.mem_append.mp ht with ht | ht
        · rw [List.mem_singleton.mp ht]
          exact ⟨rfl, .inl ⟨k, hk, rfl⟩⟩
        · obtain ⟨hstamps, hsub⟩ := habsorb t (List.mem_flatMap.mpr ⟨k.2, List.mem_map_of_mem hk, ht⟩)
          exact ⟨hstamps, .inr hsub⟩
      · obtain ⟨hstamps, hsub'⟩ := habsorb t (hsub c ht)
        exact ⟨hstamps, .inr hsub'⟩
    have hstays : ∀ k ∈ ks, (([] : List ℕ), (k.1, Expr.star (.char c)) :: k.2) ∈ moves alive c := by
      intro k hk
      refine List.mem_flatMap.mpr ⟨_, hpads k hk, ?_⟩
      rw [next_pad, if_pos hself]
      exact List.mem_append_left _ (List.mem_singleton.mpr rfl)
    obtain ⟨k₀, hk₀⟩ := List.exists_mem_of_ne_nil ks hne
    rw [List.replicate_succ, List.cons_append, exec_silent fun t ht => (hmoves t ht).1,
      if_neg (List.ne_nil_of_mem (hstays k₀ hk₀)), ih]
    · simp
    · exact fun k hk => List.mem_map_of_mem (hstays k hk)
    · intro x hx
      obtain ⟨t, ht, rfl⟩ := List.mem_map.mp hx
      exact (hmoves t ht).2

/-- What the machine does on a character of a text it keeps to the end of this text. -/
theorem exec_induct {I : List α → List (Item α A) → σ → Prop} {before u rest : List α}
    (hstep : ∀ v c w alive s, u = v ++ c :: w → I v alive s → I (v ++ [c]) ((moves alive c).map Prod.snd)
      ((fired actions (moves alive c)).foldl (fun s a => act a (before ++ v) s) s))
    {alive : List (Item α A)} {s s' : σ} (h : I [] alive s)
    (he : exec actions act alive before (u ++ rest) s = some s') :
    ∃ alive' s₁, I u alive' s₁ ∧ exec actions act alive' (before ++ u) rest s₁ = some s' := by
  suffices hgeneral : ∀ w v alive s, u = v ++ w → I v alive s →
      exec actions act alive (before ++ v) (w ++ rest) s = some s' →
      ∃ alive' s₁, I u alive' s₁ ∧ exec actions act alive' (before ++ u) rest s₁ = some s' by
    exact hgeneral u [] alive s rfl h (by rw [List.append_nil]; exact he)
  intro w
  induction w with
  | nil =>
    intro v alive s hu hI hexec
    rw [List.append_nil] at hu
    subst hu
    exact ⟨alive, s, hI, hexec⟩
  | cons c w ih =>
    intro v alive s hu hI hexec
    rw [List.cons_append, exec_cons] at hexec
    split_ifs at hexec
    rw [List.append_assoc] at hexec
    exact ih (v ++ [c]) _ _ (by rw [hu]; simp) (hstep v c w alive s hu hI) hexec

omit [LE α] [DecidableLE α] [DecidableEq A] in
/-- What an action keeps, a sequence of actions keeps. -/
theorem foldl_keeps {I : σ → Prop} {before : List α} (l : List A) {s : σ} (hs : I s)
    (h : ∀ a ∈ l, ∀ s, I s → I (act a before s)) : I (l.foldl (fun s a => act a before s) s) := by
  induction l generalizing s with
  | nil => exact hs
  | cons a l ih =>
    exact ih (h a List.mem_cons_self s hs) fun b hb => h b (List.mem_cons_of_mem a hb)

omit [LE α] [DecidableLE α] [DecidableEq A] in
/-- What one of the actions brings about and none of them undoes holds at the end. -/
theorem foldl_reaches {I : σ → Prop} {before : List α} {l : List A} {a : A} (ha : a ∈ l)
    (hreach : ∀ s, I (act a before s)) (hkeeps : ∀ b s, I s → I (act b before s)) (s : σ) :
    I (l.foldl (fun s a => act a before s) s) := by
  induction l generalizing s with
  | nil => cases ha
  | cons b l ih =>
    rcases List.mem_cons.mp ha with rfl | ha
    · exact foldl_keeps l (hreach s) fun b _ => hkeeps b
    · exact ih ha _

/-- A word of the expression is read to its end. -/
theorem exec_word {e : Expr α A} {u : List α} (hu : u ∈ e.language) (n : ℕ) (before : List α) (s : σ) :
    ∃ s', exec actions act [e.parts n] before u s = some s' := by
  obtain ⟨x, hx, -⟩ := final_after.mpr hu
  exact Option.isSome_iff_exists.mp
    ((exec_isSome_iff (List.cons_ne_nil _ _) before u s).mpr (List.ne_nil_of_mem hx))

/-- Nothing on the path has an action before a position. -/
def Item.Above (m : ℕ) (k : Item α A) : Prop := ∀ x ∈ k, m ≤ x.1

omit [LE α] [DecidableLE α] [DecidableEq A] in
theorem above_parts {m n : ℕ} (h : m ≤ n) (e : Expr α A) : Item.Above m (e.parts n) := by
  induction e generalizing n with
  | empty => simp [Item.Above, Expr.parts]
  | seq e f ihe ihf => exact List.forall_mem_append.mpr ⟨ihe h, ihf (by omega)⟩
  | leave e a ih => exact List.forall_mem_append.mpr ⟨ih h, List.forall_mem_singleton.mpr (by omega)⟩
  | _ => exact List.forall_mem_singleton.mpr h

omit [LE α] [DecidableLE α] [DecidableEq A] in
theorem outs_above {m n : ℕ} (h : m ≤ n) (e : Expr α A) : ∀ i ∈ e.outs n, m ≤ i := by
  induction e generalizing n with
  | empty => simp [Expr.outs]
  | range lo hi => simp [Expr.outs]
  | seq e f ihe ihf => exact List.forall_mem_append.mpr ⟨ihe h, ihf (by omega)⟩
  | alt e f ihe ihf =>
    refine List.forall_mem_append.mpr ⟨?_, ?_⟩
    · split_ifs
      · exact ihe h
      · simp
    · split_ifs
      · exact ihf (by omega)
      · simp
  | star e ih =>
    rw [Expr.outs]
    split_ifs
    · exact ih h
    · simp
  | enter a e ih => exact ih (by omega)
  | leave e a ih => exact List.forall_mem_append.mpr ⟨ih h, List.forall_mem_singleton.mpr (by omega)⟩

omit [DecidableEq A] in
theorem first_above {m n : ℕ} (h : m ≤ n) {c : α} (e : Expr α A) {k : Item α A} (hk : Item.Above m k) :
    ∀ t ∈ e.first c n k, (∀ i ∈ t.1, m ≤ i) ∧ Item.Above m t.2 := by
  have hprepend : ∀ {l : List ℕ} {ts : List (Transition α A)}, (∀ i ∈ l, m ≤ i) →
      (∀ t ∈ ts, (∀ i ∈ t.1, m ≤ i) ∧ Item.Above m t.2) →
      ∀ t ∈ ts.map (prepend l), (∀ i ∈ t.1, m ≤ i) ∧ Item.Above m t.2 := by
    intro l ts hl hts t ht
    obtain ⟨t', ht', rfl⟩ := List.mem_map.mp ht
    exact ⟨List.forall_mem_append.mpr ⟨hl, (hts t' ht').1⟩, (hts t' ht').2⟩
  induction e generalizing n k with
  | empty => simp [Expr.first]
  | range lo hi =>
    rw [Expr.first]
    split_ifs
    · simpa using hk
    · simp
  | seq e f ihe ihf =>
    refine List.forall_mem_append.mpr ⟨ihe h (List.forall_mem_append.mpr ⟨above_parts (by omega) f, hk⟩), ?_⟩
    split_ifs
    · exact hprepend (outs_above h e) (ihf (by omega) hk)
    · simp
  | alt e f ihe ihf => exact List.forall_mem_append.mpr ⟨ihe h hk, ihf (by omega) hk⟩
  | star e ih => exact ih h (List.forall_mem_cons.mpr ⟨h, hk⟩)
  | enter a e ih => exact hprepend (List.forall_mem_singleton.mpr h) (ih (by omega) hk)
  | leave e a ih => exact ih h (List.forall_mem_cons.mpr ⟨by simp only; omega, hk⟩)

omit [DecidableEq A] in
theorem Item.Above.next {m : ℕ} {k : Item α A} (h : Item.Above m k) (c : α) :
    ∀ t ∈ next c k, (∀ i ∈ t.1, m ≤ i) ∧ Item.Above m t.2 := by
  induction k with
  | nil => simp [Ragel.next]
  | cons x k ih =>
    obtain ⟨n, e⟩ := x
    obtain ⟨hn, hk⟩ := List.forall_mem_cons.mp h
    refine List.forall_mem_append.mpr ⟨first_above hn e hk, ?_⟩
    split_ifs
    · intro t ht
      obtain ⟨t', ht', rfl⟩ := List.mem_map.mp ht
      exact ⟨List.forall_mem_append.mpr ⟨outs_above hn e, (ih hk t' ht').1⟩, (ih hk t' ht').2⟩
    · simp

/-- What the actions from a position on preserve is kept from there to the end. -/
theorem exec_keeps {I : σ → Prop} {m : ℕ} (hI : ∀ i a, m ≤ i → actions[i]? = some a →
    ∀ before s, I s → I (act a before s)) {alive : List (Item α A)}
    (habove : ∀ k ∈ alive, Item.Above m k) {before rest : List α} {s s' : σ} (hs : I s)
    (he : exec actions act alive before rest s = some s') : I s' := by
  induction rest generalizing alive before s with
  | nil =>
    cases he
    exact hs
  | cons c rest ih =>
    have hmoves : ∀ t ∈ moves alive c, (∀ i ∈ t.1, m ≤ i) ∧ Item.Above m t.2 := by
      intro t ht
      obtain ⟨k, hk, ht⟩ := List.mem_flatMap.mp ht
      exact (habove k hk).next c t ht
    have hfold : I ((fired actions (moves alive c)).foldl (fun s a => act a before s) s) := by
      apply foldl_keeps _ hs
      intro a ha s hs
      obtain ⟨i, hi, t, ht, hstamp⟩ := mem_fired ha
      exact hI i a ((hmoves t ht).1 i hstamp) hi before s hs
    rw [exec_cons] at he
    split_ifs at he
    refine ih ?_ hfold he
    intro k hk
    obtain ⟨t, ht, rfl⟩ := List.mem_map.mp hk
    exact (hmoves t ht).2

end Libdomain.Ragel
