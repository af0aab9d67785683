import Mathlib.Data.List.Nodup
import Mathlib.Logic.Function.Basic

/-! # Intrusive singly linked lists

The links live in the linked objects, so a list is a start address and a map
from addresses to the next one. Nothing here depends on what an address is.
-/
namespace Libdomain.Queue
variable {α : Type*}

/-- Following `links` from `start` visits exactly the given addresses and then
reaches the null link. -/
def Chain (links : α → Option α) : Option α → List α → Prop
  | start, [] => start = none
  | start, x :: xs => start = some x ∧ Chain links (links x) xs

@[simp] theorem chain_nil {links : α → Option α} {start : Option α} :
    Chain links start [] ↔ start = none := Iff.rfl

@[simp] theorem chain_cons {links : α → Option α} {start : Option α} {x : α} {xs : List α} :
    Chain links start (x :: xs) ↔ start = some x ∧ Chain links (links x) xs := Iff.rfl

theorem Chain.congr {links links' : α → Option α} {start : Option α} {xs : List α}
    (h : Chain links start xs) (he : ∀ x ∈ xs, links' x = links x) : Chain links' start xs := by
  induction xs generalizing start with
  | nil => exact h
  | cons x xs ih =>
    obtain ⟨hx, hrest⟩ := h
    refine ⟨hx, ?_⟩
    rw [he x List.mem_cons_self]
    exact ih hrest (fun y hy => he y (List.mem_cons_of_mem x hy))

/-- Linking a fresh address behind the last one extends the chain at its end. -/
theorem Chain.link [DecidableEq α] {links : α → Option α} {start : Option α} {xs : List α}
    {last node : α} (h : Chain links start (xs ++ [last])) (hd : (xs ++ [last]).Nodup)
    (hn : node ∉ xs ++ [last]) :
    Chain (Function.update (Function.update links node none) last (some node)) start
      (xs ++ [last] ++ [node]) := by
  induction xs generalizing start with
  | nil =>
    obtain ⟨hs, -⟩ := h
    have hne : node ≠ last := fun he => hn (by simp [he])
    simp [hs, Function.update_of_ne hne]
  | cons x xs ih =>
    obtain ⟨hs, hrest⟩ := h
    obtain ⟨hx, hd⟩ := List.nodup_cons.mp hd
    have hxl : x ≠ last := fun he => hx (by simp [he])
    have hxn : x ≠ node := fun he => hn (by simp [he])
    refine ⟨hs, ?_⟩
    rw [Function.update_of_ne hxl, Function.update_of_ne hxn]
    exact ih hrest hd (fun hm => hn (List.mem_cons_of_mem x hm))

/-- Linking the last address of a chain to the first one of another joins the two. -/
theorem Chain.join [DecidableEq α] {links : α → Option α} {start : Option α} {xs ys : List α} {last first : α}
    (h : Chain links start (xs ++ [last])) (hys : Chain links (some first) ys) (hd : (xs ++ [last]).Nodup)
    (hlast : last ∉ ys) :
    Chain (Function.update links last (some first)) start (xs ++ [last] ++ ys) := by
  induction xs generalizing start with
  | nil =>
    obtain ⟨hs, -⟩ := h
    have hne : ∀ y ∈ ys, y ≠ last := by
      intro y hy heq
      exact hlast (heq ▸ hy)
    have hkept := hys.congr fun y hy => Function.update_of_ne (hne y hy) (some first) links
    exact ⟨hs, by simpa using hkept⟩
  | cons x xs ih =>
    obtain ⟨hs, hrest⟩ := h
    obtain ⟨hx, hd⟩ := List.nodup_cons.mp hd
    have hxl : x ≠ last := fun he => hx (by simp [he])
    refine ⟨hs, ?_⟩
    rw [Function.update_of_ne hxl]
    exact ih hrest hd

/-- The addresses met by following at most `fuel` links. -/
def walk (links : α → Option α) : ℕ → Option α → List α
  | 0, _ => []
  | _ + 1, none => []
  | fuel + 1, some x => x :: walk links fuel (links x)

/-- Walking as many links as a chain is long recovers its addresses. -/
theorem Chain.walk_eq {links : α → Option α} {start : Option α} {xs : List α}
    (h : Chain links start xs) : walk links xs.length start = xs := by
  induction xs generalizing start with
  | nil => rfl
  | cons x xs ih =>
    obtain ⟨rfl, hrest⟩ := h
    simp [walk, ih hrest]

end Libdomain.Queue
