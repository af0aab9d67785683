import Mathlib.Data.List.Forall2

/-! # Arrays of pointers

Arrays whose elements are read and written one by one. Allocated elements are not set, an
access outside the array or through a null pointer is a fault, and the end of an array is
marked by a null element. The loops go through an array up to that mark. An allocation that
gives null is a fault that the caller may handle.
-/
namespace Libdomain.Memory

inductive Fault
  | nullDereference
  | outOfBounds
  | uninitialised
  | allocation
  deriving DecidableEq, Repr

inductive Cell (α : Type)
  | unset
  | null
  | set (x : α)
  deriving DecidableEq, Repr

def Cell.ofPointer {α : Type} : Option α → Cell α
  | none => .null
  | some x => .set x

def Cell.update {α : Type} (f : α → α) : Cell α → Cell α
  | .set x => .set (f x)
  | c => c

/-- Access through a pointer that may not have been assigned. -/
def Cell.read {α : Type} : Cell α → Except Fault α
  | .unset => .error .uninitialised
  | .null => .error .nullDereference
  | .set x => .ok x

/-- The elements from some index on. -/
abbrev Cells (α : Type) := List (Cell α)

variable {α β γ σ : Type}

def alloc (n : ℕ) : Cells α := List.replicate n .unset

/-- Allocated elements, as some content of the memory has them. -/
def fresh (contents : ℕ → Cell α) (n : ℕ) : Cells α := (List.range n).map contents

def zeroed (n : ℕ) : Cells α := List.replicate n .null

def realloc (cells : Cells α) (n : ℕ) : Cells α := cells.take n ++ alloc (n - cells.length)

def write (cells : Cells α) (i : ℕ) (c : Cell α) : Except Fault (Cells α) :=
  if i < cells.length then .ok (cells.set i c) else .error .outOfBounds

/-- Access through a pointer that may be null. -/
def deref : Option α → Except Fault α
  | none => .error .nullDereference
  | some x => .ok x

/-- A copy of what a pointer leads to, where the copy of a null pointer is null. -/
def allocated : Option α → Except Fault α
  | none => .error .allocation
  | some x => .ok x

/-- The elements before the first null one, for a reader that stops there. -/
def elements : Cells α → List α
  | .set x :: rest => x :: elements rest
  | _ => []

/-- `for (; cells[i] != NULL; i++)`, where the elements from index `i` on are left: the index
of the null element and the state behind the loop. -/
def forEach (body : σ → ℕ → α → Except Fault σ) : ℕ → Cells α → σ → Except Fault (ℕ × σ)
  | _, [], _ => .error .outOfBounds
  | _, .unset :: _, _ => .error .uninitialised
  | i, .null :: _, s => .ok (i, s)
  | i, .set x :: rest, s => body s i x >>= forEach body (i + 1) rest

def count (cells : Cells α) : Except Fault ℕ := Prod.fst <$> forEach (fun s _ _ => .ok s) 0 cells ()

/-- Counts the elements of an array, allocates another one with place for the mark, fills it
in a second loop and marks its end. -/
def duplicate (f : α → Except Fault β) (cells : Cells α) : Except Fault (Cells β) := do
  let n ← count cells
  let (_, copy) ← forEach (fun copy i x => f x >>= fun y => write copy i (.set y)) 0 cells (alloc (n + 1))
  write copy n .null

/-- Allocates an array for `size` elements and the mark, and fills it with what an iteration
visits. -/
def collect (f : γ → Except Fault β) (size : ℕ) (visited : List γ) : Except Fault (Cells β) := do
  let (cells, _) ← visited.foldlM (fun s x => f x >>= fun y =>
    (write s.1 s.2 (.set y)).map fun cells => (cells, s.2 + 1)) (alloc (size + 1), 0)
  write cells size .null

/-- The elements up to the first null one. -/
def Terminated (cells : Cells α) (xs : List α) : Prop := ∃ rest, cells = xs.map .set ++ .null :: rest

/-- The array that holds the given elements and its mark, and nothing else. -/
def terminate (xs : List α) : Cells α := xs.map .set ++ [.null]

@[simp] theorem length_alloc (n : ℕ) : (alloc n : Cells α).length = n := List.length_replicate

theorem terminated_terminate (xs : List α) : Terminated (terminate xs) xs := ⟨[], rfl⟩

theorem Terminated.unique {cells : Cells α} {xs ys : List α} (hx : Terminated cells xs) (hy : Terminated cells ys) :
    xs = ys := by
  obtain ⟨rest, rfl⟩ := hx
  obtain ⟨rest', h⟩ := hy
  induction xs generalizing ys with
  | nil =>
    cases ys with
    | nil => rfl
    | cons y ys => cases h
  | cons x xs ih =>
    cases ys with
    | nil => cases h
    | cons y ys =>
      obtain ⟨hhead, htail⟩ := List.cons.inj h
      cases hhead
      rw [ih htail]

theorem Terminated.elements_eq {cells : Cells α} {xs : List α} (h : Terminated cells xs) : elements cells = xs := by
  obtain ⟨rest, rfl⟩ := h
  induction xs with
  | nil => rfl
  | cons x xs ih => rw [List.map_cons, List.cons_append, elements, ih]

theorem write_append (before after : Cells α) (c d : Cell α) :
    write (before ++ c :: after) before.length d = .ok (before ++ d :: after) := by
  rw [write, if_pos (by simp)]
  simp

theorem write_filled (ys : List α) (k : ℕ) (c : Cell α) :
    write (ys.map Cell.set ++ alloc (k + 1)) ys.length c = .ok (ys.map Cell.set ++ c :: alloc k) := by
  have h := write_append (ys.map Cell.set) (alloc k) .unset c
  rw [List.length_map] at h
  exact h

theorem realloc_filled {ys : List α} {k n : ℕ} (h : ys.length + k ≤ n) :
    realloc (ys.map Cell.set ++ alloc k) n = ys.map Cell.set ++ alloc (n - ys.length) := by
  have hlength : (ys.map Cell.set ++ alloc k : Cells α).length = ys.length + k := by simp
  rw [realloc, List.take_of_length_le (by omega), hlength, List.append_assoc, alloc, alloc, alloc,
    List.replicate_append_replicate]
  congr 2
  omega

theorem mapM_eq_ok {f : α → Except Fault β} {xs : List α} {ys : List β} :
    xs.mapM f = .ok ys ↔ List.Forall₂ (fun x y => f x = .ok y) xs ys := by
  induction xs generalizing ys with
  | nil =>
    rw [List.forall₂_nil_left_iff]
    exact ⟨fun h => by cases h; rfl, fun h => by rw [h]; rfl⟩
  | cons x xs ih =>
    rw [List.mapM_cons, List.forall₂_cons_left_iff]
    simp only [← ih]
    cases f x with
    | error e => simp [bind, Except.bind]
    | ok y =>
      cases xs.mapM f with
      | error e => simp [bind, Except.bind]
      | ok zs => simp [bind, Except.bind, pure, Except.pure, eq_comm]

theorem mapM_of_ok {f : α → Except Fault β} {g : α → β} {xs : List α} (h : ∀ x ∈ xs, f x = .ok (g x)) :
    xs.mapM f = .ok (xs.map g) := by
  rw [mapM_eq_ok, List.forall₂_map_right_iff, List.forall₂_same]
  exact h

theorem count_terminated {cells : Cells α} {xs : List α} (h : Terminated cells xs) : count cells = .ok xs.length := by
  obtain ⟨rest, rfl⟩ := h
  have hloop : ∀ i, forEach (fun s _ _ => .ok s) i (xs.map Cell.set ++ Cell.null :: rest) () =
      .ok (i + xs.length, ()) := by
    induction xs with
    | nil => exact fun i => rfl
    | cons x xs ih =>
      intro i
      rw [List.map_cons, List.cons_append, forEach]
      change forEach _ (i + 1) _ () = _
      rw [ih, List.length_cons, Nat.add_right_comm, Nat.add_assoc]
  rw [count, hloop]
  simp [Functor.map, Except.map]

/-- The second loop of a copy: what it writes are the images of the elements, in their order. -/
theorem forEach_copy (f : α → Except Fault β) (xs : List α) (rest : Cells α) (ys : List β) (k : ℕ) :
    forEach (fun copy i x => f x >>= fun y => write copy i (.set y)) ys.length (xs.map Cell.set ++ .null :: rest)
        (ys.map Cell.set ++ alloc (k + xs.length)) =
      (xs.mapM f).map fun zs => (ys.length + xs.length, (ys ++ zs).map Cell.set ++ alloc k) := by
  induction xs generalizing ys with
  | nil => simp [forEach, Except.map, pure, Except.pure]
  | cons x xs ih =>
    rw [List.map_cons, List.cons_append, forEach, List.mapM_cons]
    cases f x with
    | error e => rfl
    | ok y =>
      change (write _ _ _ >>= forEach _ (ys.length + 1) _) = _
      have hk : k + (x :: xs).length = k + xs.length + 1 := rfl
      rw [hk, write_filled]
      change forEach _ _ _ _ = _
      have hys : ys.map Cell.set ++ Cell.set y :: alloc (k + xs.length) =
          (ys ++ [y]).map Cell.set ++ alloc (k + xs.length) := by simp
      have hlength : ys.length + 1 = (ys ++ [y]).length := by simp
      rw [hys, hlength, ih]
      cases xs.mapM f with
      | error e => rfl
      | ok zs =>
        simp [Except.map, bind, Except.bind, pure, Except.pure]
        omega

/-- A copy of a marked array holds the images of its elements, and is marked behind them. -/
theorem duplicate_terminated {cells : Cells α} {xs : List α} (h : Terminated cells xs) (f : α → Except Fault β) :
    duplicate f cells = (xs.mapM f).map terminate := by
  have hcount := count_terminated h
  obtain ⟨rest, rfl⟩ := h
  have hloop := forEach_copy f xs rest [] 1
  simp only [List.length_nil, List.map_nil, List.nil_append] at hloop
  rw [duplicate, hcount]
  change (forEach _ 0 _ (alloc (xs.length + 1)) >>= _) = _
  rw [Nat.add_comm xs.length 1, hloop]
  cases hxs : xs.mapM f with
  | error e => rfl
  | ok ys =>
    have hlength := (mapM_eq_ok.mp hxs).length_eq
    change write (ys.map Cell.set ++ alloc 1) _ _ = _
    rw [hlength, write_filled]
    rfl

theorem forEach_eq_ok {body : σ → ℕ → α → Except Fault σ} {i n : ℕ} {cells : Cells α} {s t : σ}
    (h : forEach body i cells s = .ok (n, t)) : ∃ xs, Terminated cells xs := by
  induction cells generalizing i s with
  | nil => cases h
  | cons c cells ih =>
    cases c with
    | unset => cases h
    | null => exact ⟨[], cells, rfl⟩
    | set x =>
      rw [forEach] at h
      cases hbody : body s i x with
      | error fault =>
        rw [hbody] at h
        cases h
      | ok s' =>
        rw [hbody] at h
        obtain ⟨xs, rest, hcells⟩ := ih h
        exact ⟨x :: xs, rest, by rw [hcells]; rfl⟩

/-- Only marked arrays are copied, element by element. -/
theorem duplicate_eq_ok {f : α → Except Fault β} {cells : Cells α} {copy : Cells β}
    (h : duplicate f cells = .ok copy) :
    ∃ xs ys, Terminated cells xs ∧ List.Forall₂ (fun x y => f x = .ok y) xs ys ∧ copy = terminate ys := by
  have hterminated : ∃ xs, Terminated cells xs := by
    cases hcount : count cells with
    | error fault =>
      rw [duplicate, hcount] at h
      cases h
    | ok n =>
      rw [count] at hcount
      cases hloop : forEach (fun s _ _ => .ok s) 0 cells () with
      | error fault =>
        rw [hloop] at hcount
        cases hcount
      | ok result => exact forEach_eq_ok hloop
  obtain ⟨xs, hxs⟩ := hterminated
  rw [duplicate_terminated hxs] at h
  cases hys : xs.mapM f with
  | error fault =>
    rw [hys] at h
    cases h
  | ok ys =>
    rw [hys] at h
    exact ⟨xs, ys, hxs, mapM_eq_ok.mp hys, (Except.ok.inj h).symm⟩

theorem foldlM_collect (f : γ → Except Fault β) (visited : List γ) (ys : List β) (k : ℕ) :
    visited.foldlM (fun s x => f x >>= fun y =>
        (write s.1 s.2 (.set y)).map fun cells => (cells, s.2 + 1))
      (ys.map Cell.set ++ alloc (k + visited.length), ys.length) =
        (visited.mapM f).map fun zs => ((ys ++ zs).map Cell.set ++ alloc k, (ys ++ zs).length) := by
  induction visited generalizing ys with
  | nil => simp [Except.map, pure, Except.pure]
  | cons x xs ih =>
    rw [List.foldlM_cons, List.mapM_cons]
    cases f x with
    | error e => rfl
    | ok y =>
      have hk : k + (x :: xs).length = k + xs.length + 1 := rfl
      have hys : ys.map Cell.set ++ Cell.set y :: alloc (k + xs.length) =
          (ys ++ [y]).map Cell.set ++ alloc (k + xs.length) := by simp
      have hlength : ys.length + 1 = (ys ++ [y]).length := by simp
      change ((write _ _ _).map _ >>= _) = _
      rw [hk, write_filled, hys, hlength]
      change List.foldlM _ _ _ = _
      rw [ih]
      cases xs.mapM f with
      | error e => rfl
      | ok zs => simp [Except.map, bind, Except.bind, pure, Except.pure]

/-- An iteration that visits as many values as the array was allocated for fills the array. -/
theorem collect_visited (f : γ → Except Fault β) {size : ℕ} {visited : List γ} (h : visited.length = size) :
    collect f size visited = (visited.mapM f).map terminate := by
  subst h
  have hloop := foldlM_collect f visited [] 1
  simp only [List.length_nil, List.map_nil, List.nil_append] at hloop
  rw [collect, Nat.add_comm visited.length 1, hloop]
  cases hys : visited.mapM f with
  | error e => rfl
  | ok ys =>
    have hlength := (mapM_eq_ok.mp hys).length_eq
    change write (ys.map Cell.set ++ alloc 1) _ _ = _
    rw [hlength, write_filled]
    rfl

end Libdomain.Memory
