import Libdomain.Queue.RequestQueue
import Mathlib.Algebra.BigOperators.Fin
import Mathlib.Algebra.Order.BigOperators.Group.Finset

/-! # Several queues over the same nodes

Any number of request queues share the links of their nodes, and nodes move between
them. Together they behave as one list for each queue, with a bound on its length.
-/
namespace Libdomain.Queue
variable {ι α : Type} [DecidableEq ι] [DecidableEq α]

inductive QueueOperation (ι α : Type)
  | push (queue : ι) (node : α)
  | pop (queue : ι)
  | peek (queue : ι)
  | empty (queue : ι)
  | move (source target : ι)

inductive QueueResult (α : Type)
  | code (code : RequestQueueErrorCode)
  | node (node : Option α)
  | flag (flag : Bool)
  deriving DecidableEq

structure QueueFamily (ι α : Type) where
  queues : ι → RequestQueue α
  links : α → Option α

def QueueFamily.new (capacity : ι → ℕ) (links : α → Option α) : QueueFamily ι α where
  queues := fun i => requestQueueNew (capacity i)
  links := links

def QueueFamily.perform (s : QueueFamily ι α) : QueueOperation ι α → QueueResult α × QueueFamily ι α
  | .push i node =>
    let (code, queue, links) := requestQueuePush (s.queues i) s.links node
    (.code code, ⟨Function.update s.queues i queue, links⟩)
  | .pop i =>
    let (node, queue) := requestQueuePop (s.queues i) s.links
    (.node node, ⟨Function.update s.queues i queue, s.links⟩)
  | .peek i => (.node (requestQueuePeek (s.queues i)), s)
  | .empty i => (.flag (requestQueueEmpty (s.queues i)), s)
  | .move i j =>
    let (code, source, target, links) := requestQueueMove (s.queues i) (s.queues j) s.links
    (.code code, ⟨Function.update (Function.update s.queues i source) j target, links⟩)

/-- An operation on a list for each queue. -/
def performOnLists (capacity : ι → ℕ) (lists : ι → List α) :
    QueueOperation ι α → QueueResult α × (ι → List α)
  | .push i node =>
    if capacity i ≤ (lists i).length then (.code .full, lists)
    else (.code .success, Function.update lists i (lists i ++ [node]))
  | .pop i => (.node (lists i).head?, Function.update lists i (lists i).tail)
  | .peek i => (.node (lists i).head?, lists)
  | .empty i => (.flag (lists i).isEmpty, lists)
  | .move i j =>
    if lists i = [] then (.code .fault, lists)
    else if capacity j < (lists j).length + (lists i).length then (.code .full, lists)
    else (.code .success, Function.update (Function.update lists i []) j (lists j ++ lists i))

/-- A pushed node is in no queue, and a queue is not moved to itself. -/
def QueueOperation.Allowed (lists : ι → List α) : QueueOperation ι α → Prop
  | .push _ node => ∀ i, node ∉ lists i
  | .move i j => i ≠ j
  | _ => True

def performAll {σ : Type} (step : σ → QueueOperation ι α → QueueResult α × σ) (s : σ) :
    List (QueueOperation ι α) → List (QueueResult α) × σ
  | [] => ([], s)
  | operation :: rest =>
    let (result, t) := step s operation
    let (results, u) := performAll step t rest
    (result :: results, u)

def AllAllowed (capacity : ι → ℕ) : (ι → List α) → List (QueueOperation ι α) → Prop
  | _, [] => True
  | lists, operation :: rest =>
    operation.Allowed lists ∧ AllAllowed capacity (performOnLists capacity lists operation).2 rest

/-- The lists are those of the queues, and no node is in two of them. -/
structure QueueFamily.Refines (s : QueueFamily ι α) (capacity : ι → ℕ) (lists : ι → List α) : Prop where
  represents : ∀ i, Represents (s.queues i) s.links (lists i)
  capacity_eq : ∀ i, (s.queues i).capacity = capacity i
  length_le : ∀ i, (lists i).length ≤ capacity i
  disjoint : ∀ i j, i ≠ j → ∀ x ∈ lists i, x ∉ lists j

omit [DecidableEq ι] [DecidableEq α] in
theorem refines_new (capacity : ι → ℕ) (links : α → Option α) :
    (QueueFamily.new capacity links).Refines capacity fun _ => [] where
  represents := fun i => represents_new (capacity i) links
  capacity_eq := fun _ => rfl
  length_le := fun _ => Nat.zero_le _
  disjoint := fun _ _ _ _ hx => absurd hx List.not_mem_nil

variable {s : QueueFamily ι α} {capacity : ι → ℕ} {lists : ι → List α}

namespace QueueFamily.Refines

omit [DecidableEq α] in
/-- One queue changes, and the links of no node in another one do. -/
theorem update (h : s.Refines capacity lists) {i : ι} {queue : RequestQueue α} {links : α → Option α} {nodes : List α}
    (hi : Represents queue links nodes) (hcapacity : queue.capacity = capacity i) (hlength : nodes.length ≤ capacity i)
    (hlinks : ∀ j, j ≠ i → ∀ x ∈ lists j, links x = s.links x) (hapart : ∀ j, j ≠ i → ∀ x ∈ nodes, x ∉ lists j) :
    (⟨Function.update s.queues i queue, links⟩ : QueueFamily ι α).Refines capacity (Function.update lists i nodes) := by
  refine ⟨fun j => ?_, fun j => ?_, fun j => ?_, fun j k hjk => ?_⟩
  · by_cases hj : j = i
    · subst hj
      simpa using hi
    · simpa [Function.update_of_ne hj] using (h.represents j).congr (hlinks j hj)
  · by_cases hj : j = i
    · subst hj
      simpa using hcapacity
    · simpa [Function.update_of_ne hj] using h.capacity_eq j
  · by_cases hj : j = i
    · subst hj
      simpa using hlength
    · simpa [Function.update_of_ne hj] using h.length_le j
  · by_cases hj : j = i
    · subst hj
      simpa [Function.update_of_ne hjk.symm] using hapart k hjk.symm
    · by_cases hk : k = i
      · subst hk
        simp only [Function.update_self, Function.update_of_ne hj]
        exact fun x hx hmem => hapart j hj x hmem hx
      · simpa [Function.update_of_ne hj, Function.update_of_ne hk] using h.disjoint j k hjk

omit [DecidableEq ι] [DecidableEq α] in
theorem length_eq (h : s.Refines capacity lists) (i : ι) : (s.queues i).size = (lists i).length :=
  (h.represents i).size_eq

theorem push (h : s.Refines capacity lists) (i : ι) {node : α} (hnode : ∀ i, node ∉ lists i) :
    (s.perform (.push i node)).1 = (performOnLists capacity lists (.push i node)).1 ∧
      (s.perform (.push i node)).2.Refines capacity (performOnLists capacity lists (.push i node)).2 := by
  by_cases hfull : capacity i ≤ (lists i).length
  · have hpush : requestQueuePush (s.queues i) s.links node = (.full, s.queues i, s.links) := by
      rw [requestQueuePush, if_pos (by rw [h.capacity_eq, h.length_eq]; exact hfull)]
    simp only [QueueFamily.perform, performOnLists, hpush, if_pos hfull, Function.update_eq_self]
    exact ⟨trivial, h⟩
  · obtain ⟨queue, links, hpush, hrepresents, hcapacity⟩ :=
      (h.represents i).push (hnode i) (by rw [h.capacity_eq]; omega)
    simp only [QueueFamily.perform, performOnLists, hpush, if_neg hfull]
    refine ⟨trivial, h.update hrepresents (hcapacity.trans (h.capacity_eq i)) ?_ ?_ ?_⟩
    · simp only [List.length_append, List.length_singleton]
      omega
    · intro j hj x hx
      have hne : x ≠ node := by
        rintro rfl
        exact hnode j hx
      have hlinks := (h.represents i).links_push (h.disjoint j i hj x hx) hne
      rw [hpush] at hlinks
      exact hlinks
    · intro j hj x hx
      rcases List.mem_append.mp hx with hx | hx
      · exact h.disjoint i j hj.symm x hx
      · rw [List.mem_singleton.mp hx]
        exact hnode j

theorem pop (h : s.Refines capacity lists) (i : ι) :
    (s.perform (.pop i)).1 = (performOnLists capacity lists (.pop i)).1 ∧
      (s.perform (.pop i)).2.Refines capacity (performOnLists capacity lists (.pop i)).2 := by
  have hi := h.represents i
  cases hnodes : lists i with
  | nil =>
    rw [hnodes] at hi
    have hsame : Function.update lists i [] = lists := by rw [← hnodes, Function.update_eq_self]
    simp only [QueueFamily.perform, performOnLists, hnodes, hi.pop_nil, Function.update_eq_self, List.head?_nil,
      List.tail_nil, hsame]
    exact ⟨trivial, h⟩
  | cons node rest =>
    rw [hnodes] at hi
    obtain ⟨queue, hpop, hrepresents, hcapacity⟩ := hi.pop
    have hlength := h.length_le i
    rw [hnodes, List.length_cons] at hlength
    simp only [QueueFamily.perform, performOnLists, hnodes, hpop, List.head?_cons, List.tail_cons]
    refine ⟨trivial, h.update hrepresents (hcapacity.trans (h.capacity_eq i)) (by omega) (fun _ _ _ _ => rfl) ?_⟩
    intro j hj x hx
    exact h.disjoint i j hj.symm x (by simp [hnodes, hx])

theorem move (h : s.Refines capacity lists) {i j : ι} (hij : i ≠ j) (hint : capacity i + capacity j < 2 ^ 31) :
    (s.perform (.move i j)).1 = (performOnLists capacity lists (.move i j)).1 ∧
      (s.perform (.move i j)).2.Refines capacity (performOnLists capacity lists (.move i j)).2 := by
  have hi := h.represents i
  have hj := h.represents j
  by_cases hnil : lists i = []
  · rw [hnil] at hi
    simp only [QueueFamily.perform, performOnLists, if_pos hnil, hi.move_nil, Function.update_eq_self]
    exact ⟨trivial, h⟩
  · have hli := h.length_le i
    have hlj := h.length_le j
    by_cases hfull : capacity j < (lists j).length + (lists i).length
    · have hmove := hi.move_full hj hnil (by omega) (by rw [h.capacity_eq]; exact hfull)
      simp only [QueueFamily.perform, performOnLists, if_neg hnil, if_pos hfull, hmove, Function.update_eq_self]
      exact ⟨trivial, h⟩
    · obtain ⟨source, target, links, hmove, hsource, htarget, hsourceCapacity, htargetCapacity, hlinks⟩ :=
        hi.move hj hnil (by omega) (by rw [h.capacity_eq]; omega) (h.disjoint j i hij.symm)
      simp only [QueueFamily.perform, performOnLists, if_neg hnil, if_neg hfull, hmove]
      have hempty : Represents source s.links [] := hsource.congr fun x hx => absurd hx List.not_mem_nil
      have hemptied := h.update hempty (hsourceCapacity.trans (h.capacity_eq i)) (Nat.zero_le _) (fun _ _ _ _ => rfl)
        fun _ _ x hx => absurd hx List.not_mem_nil
      have hothers : ∀ k, k ≠ j → ∀ x ∈ Function.update lists i [] k, k ≠ i ∧ x ∈ lists k := by
        intro k _ x hx
        by_cases hk : k = i
        · subst hk
          simp at hx
        · rw [Function.update_of_ne hk] at hx
          exact ⟨hk, hx⟩
      refine ⟨trivial, hemptied.update htarget (htargetCapacity.trans (h.capacity_eq j)) ?_ ?_ ?_⟩
      · rw [List.length_append]
        omega
      · intro k hk x hx
        exact hlinks x (h.disjoint k j hk x (hothers k hk x hx).2)
      · intro k hk x hx hmem
        obtain ⟨hki, hmem⟩ := hothers k hk x hmem
        rcases List.mem_append.mp hx with hx | hx
        · exact h.disjoint j k hk.symm x hx hmem
        · exact h.disjoint i k hki.symm x hx hmem

/-- Every operation has the result it has on the lists, and the same effect. -/
theorem perform (h : s.Refines capacity lists) (hint : ∀ i j, i ≠ j → capacity i + capacity j < 2 ^ 31)
    {operation : QueueOperation ι α} (hallowed : operation.Allowed lists) :
    (s.perform operation).1 = (performOnLists capacity lists operation).1 ∧
      (s.perform operation).2.Refines capacity (performOnLists capacity lists operation).2 := by
  cases operation with
  | push i node => exact h.push i hallowed
  | pop i => exact h.pop i
  | peek i => exact ⟨congrArg QueueResult.node (h.represents i).peek, h⟩
  | empty i =>
    refine ⟨congrArg QueueResult.flag ?_, h⟩
    rw [Bool.eq_iff_iff, requestQueueEmpty_iff (h.represents i), List.isEmpty_iff]
  | move i j => exact h.move hallowed (hint i j hallowed)

theorem performAll (h : s.Refines capacity lists) (hint : ∀ i j, i ≠ j → capacity i + capacity j < 2 ^ 31)
    {operations : List (QueueOperation ι α)} (hallowed : AllAllowed capacity lists operations) :
    (Queue.performAll QueueFamily.perform s operations).1 =
        (Queue.performAll (performOnLists capacity) lists operations).1 ∧
      (Queue.performAll QueueFamily.perform s operations).2.Refines capacity
        (Queue.performAll (performOnLists capacity) lists operations).2 := by
  induction operations generalizing s lists with
  | nil => exact ⟨rfl, h⟩
  | cons operation rest ih =>
    obtain ⟨hresult, hrefines⟩ := h.perform hint hallowed.1
    obtain ⟨hresults, hrest⟩ := ih hrefines hallowed.2
    exact ⟨congrArg₂ List.cons hresult hresults, hrest⟩

end QueueFamily.Refines

/-- Queues whose capacities add up to an `int` refine a map from queues to lists. -/
theorem queueFamily_refines [Fintype ι] (capacity : ι → ℕ) (links : α → Option α)
    (hcapacity : ∑ i, capacity i ≤ 2 ^ 31 - 1) (operations : List (QueueOperation ι α))
    (hallowed : AllAllowed capacity (fun _ => []) operations) :
    (performAll QueueFamily.perform (.new capacity links) operations).1 =
        (performAll (performOnLists capacity) (fun _ => []) operations).1 ∧
      (performAll QueueFamily.perform (.new capacity links) operations).2.Refines capacity
        (performAll (performOnLists capacity) (fun _ => []) operations).2 := by
  have hint : ∀ i j, i ≠ j → capacity i + capacity j < 2 ^ 31 := by
    intro i j hij
    have hpair : ∑ k ∈ {i, j}, capacity k ≤ ∑ k, capacity k := Finset.sum_le_sum_of_subset (Finset.subset_univ _)
    rw [Finset.sum_pair hij] at hpair
    omega
  exact (refines_new capacity links).performAll hint hallowed

/-- A node that was moved and popped is pushed again. -/
theorem queueFamily_refines_reused :
    let operations : List (QueueOperation Bool ℕ) :=
      [.push false 1, .push false 2, .move false true, .pop true, .push false 1, .peek true, .empty false]
    AllAllowed (fun _ => 2) (fun _ => []) operations ∧
      (performAll QueueFamily.perform (.new (fun _ => 2) fun _ => none) operations).1 =
        (performAll (performOnLists fun _ => 2) (fun _ => []) operations).1 := by
  have hallowed : AllAllowed (fun _ : Bool => 2) (fun _ => []) [.push false 1, .push false 2, .move false true,
      .pop true, .push false 1, .peek true, .empty false] := by
    simp [AllAllowed, QueueOperation.Allowed, performOnLists, Function.update]
  exact ⟨hallowed, (queueFamily_refines (fun _ => 2) (fun _ => none) (by simp) _ hallowed).1⟩

end Libdomain.Queue
