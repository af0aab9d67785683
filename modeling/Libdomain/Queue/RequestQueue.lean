import Libdomain.Queue.Chain
import Mathlib.Algebra.Group.Nat.Defs

/-! # The request queue

The queue of `request_queue.c`: a head, a tail and two counters over nodes that
carry their own link. The model keeps the links apart from the queue, as the
map of the nodes' `prev` fields; `Represents` reads a queue as a list.
-/
namespace Libdomain.Queue
variable {α : Type*}

inductive RequestQueueErrorCode
  | success
  | full
  | invalidParameter
  | fault
  deriving DecidableEq, Repr

structure RequestQueue (α : Type*) where
  head : Option α
  tail : Option α
  size : ℕ
  capacity : ℕ

def requestQueueNew (capacity : ℕ) : RequestQueue α where
  head := none
  tail := none
  size := 0
  capacity := capacity

def requestQueuePush [DecidableEq α] (queue : RequestQueue α) (links : α → Option α) (node : α) :
    RequestQueueErrorCode × RequestQueue α × (α → Option α) :=
  if queue.capacity ≤ queue.size then (.full, queue, links)
  else
    let links := Function.update links node none
    if queue.size = 0 then
      (.success, { queue with head := some node, tail := some node, size := queue.size + 1 }, links)
    else
      match queue.tail with
      | none => (.fault, queue, links)
      | some tail =>
        (.success, { queue with tail := some node, size := queue.size + 1 },
          Function.update links tail (some node))

def requestQueuePop (queue : RequestQueue α) (links : α → Option α) : Option α × RequestQueue α :=
  if queue.size = 0 then (none, queue)
  else
    match queue.head with
    | none => (none, queue)
    | some result => (some result, { queue with head := links result, size := queue.size - 1 })

def requestQueuePeek (queue : RequestQueue α) : Option α := queue.head

def requestQueueEmpty (queue : RequestQueue α) : Bool := queue.size = 0

/-- The sum of two numbers of type `int`. -/
def intAdd (a b : ℕ) : Int := Int.bmod (a + b) (2 ^ 32)

/-- The results are the code, the source queue, the target queue and the links. -/
def requestQueueMove [DecidableEq α] (source target : RequestQueue α) (links : α → Option α) :
    RequestQueueErrorCode × RequestQueue α × RequestQueue α × (α → Option α) :=
  match source.head, source.tail with
  | some first, some last =>
    if target.tail = none ∧ 0 < target.size then (.fault, source, target, links)
    else if target.capacity < intAdd target.size source.size then (.full, source, target, links)
    else
      let emptied := { source with head := none, tail := none, size := 0 }
      if 0 < target.size then
        (.success, emptied,
          { target with tail := some last, size := (intAdd target.size source.size).toNat },
          match target.tail with
          | none => links
          | some tail => Function.update links tail (some first))
      else
        (.success, emptied, { target with head := some first, tail := some last, size := source.size }, links)
  | _, _ => (.fault, source, target, links)

/-- A pop fails on an empty queue or a missing head, and then changes nothing. -/
theorem requestQueuePop_eq_none {queue queue' : RequestQueue α} {links : α → Option α}
    (h : requestQueuePop queue links = (none, queue')) :
    requestQueueEmpty queue = true ∨ queue.head = none := by
  unfold requestQueuePop at h
  split at h
  case isTrue hs => exact .inl (decide_eq_true hs)
  case isFalse hs =>
    cases hh : queue.head with
    | none => exact .inr rfl
    | some node => simp [hh] at h

theorem size_of_requestQueuePop {queue queue' : RequestQueue α} {links : α → Option α} {node : α}
    (h : requestQueuePop queue links = (some node, queue')) : queue.size = queue'.size + 1 := by
  unfold requestQueuePop at h
  split at h
  case isTrue => cases h
  case isFalse hs =>
    cases hh : queue.head with
    | none => simp [hh] at h
    | some first =>
      simp only [hh, Prod.mk.injEq] at h
      rw [← h.2]
      exact (Nat.succ_pred_eq_of_ne_zero hs).symm

/-- The queue holds exactly the given nodes, oldest first. A queue that has run
empty keeps a stale tail, so the tail is only read off a non-empty list. -/
structure Represents (queue : RequestQueue α) (links : α → Option α) (nodes : List α) : Prop where
  chain : Chain links queue.head nodes
  nodup : nodes.Nodup
  size_eq : queue.size = nodes.length
  tail_eq : nodes ≠ [] → queue.tail = nodes.getLast?

theorem represents_new (capacity : ℕ) (links : α → Option α) :
    Represents (requestQueueNew capacity) links [] where
  chain := rfl
  nodup := List.nodup_nil
  size_eq := rfl
  tail_eq := fun h => absurd rfl h

variable {queue : RequestQueue α} {links links' : α → Option α} {nodes nodes' : List α}

theorem Represents.congr (h : Represents queue links nodes) (he : ∀ x ∈ nodes, links' x = links x) :
    Represents queue links' nodes :=
  { h with chain := h.chain.congr he }

/-- The represented list, computed by following the links. -/
def contents (queue : RequestQueue α) (links : α → Option α) : List α :=
  walk links queue.size queue.head

theorem Represents.contents_eq (h : Represents queue links nodes) :
    contents queue links = nodes := by
  unfold contents
  rw [h.size_eq]
  exact h.chain.walk_eq

@[simp] theorem requestQueueEmpty_iff (h : Represents queue links nodes) :
    requestQueueEmpty queue = true ↔ nodes = [] := by
  simp [requestQueueEmpty, h.size_eq, List.length_eq_zero_iff]

/-- Below capacity a push appends the node and touches no link but its own and
the former tail's. -/
theorem Represents.push [DecidableEq α] (h : Represents queue links nodes) {node : α}
    (hn : node ∉ nodes) (hc : nodes.length < queue.capacity) :
    ∃ queue' links', requestQueuePush queue links node = (.success, queue', links') ∧
      Represents queue' links' (nodes ++ [node]) ∧ queue'.capacity = queue.capacity := by
  have hfull : ¬queue.capacity ≤ queue.size := by rw [h.size_eq]; omega
  rcases List.eq_nil_or_concat nodes with rfl | ⟨xs, last, rfl⟩
  · have hs : queue.size = 0 := h.size_eq
    refine ⟨{ queue with head := some node, tail := some node, size := queue.size + 1 },
      Function.update links node none, ?_, ?_, rfl⟩
    · simp only [requestQueuePush, if_neg hfull, if_pos hs]
    · exact { chain := by simp, nodup := by simp, size_eq := by simp [hs], tail_eq := by simp }
  · rw [List.concat_eq_append] at h hn hc ⊢
    have hs : ¬queue.size = 0 := by simp [h.size_eq]
    have ht : queue.tail = some last := by simpa using h.tail_eq
    refine ⟨{ queue with tail := some node, size := queue.size + 1 },
      Function.update (Function.update links node none) last (some node), ?_, ?_, rfl⟩
    · simp only [requestQueuePush, if_neg hfull, if_neg hs, ht]
    · exact { chain := h.chain.link h.nodup hn, nodup := by simpa using h.nodup.concat hn,
              size_eq := by simp [h.size_eq], tail_eq := by simp }

theorem Represents.pop_nil (h : Represents queue links []) :
    requestQueuePop queue links = (none, queue) := by
  have hs : queue.size = 0 := h.size_eq
  rw [requestQueuePop, if_pos hs]

theorem Represents.pop {node : α} (h : Represents queue links (node :: nodes)) :
    ∃ queue', requestQueuePop queue links = (some node, queue') ∧
      Represents queue' links nodes ∧ queue'.capacity = queue.capacity := by
  obtain ⟨hhead, hrest⟩ := h.chain
  have hs : ¬queue.size = 0 := by simp [h.size_eq]
  refine ⟨{ queue with head := links node, size := queue.size - 1 }, ?_, ?_, rfl⟩
  · simp only [requestQueuePop, if_neg hs, hhead]
  · refine { chain := hrest, nodup := (List.nodup_cons.mp h.nodup).2,
             size_eq := by simp [h.size_eq], tail_eq := ?_ }
    intro hne
    rw [h.tail_eq (List.cons_ne_nil _ _), List.getLast?_cons_of_ne_nil hne]

theorem Represents.peek (h : Represents queue links nodes) : requestQueuePeek queue = nodes.head? := by
  cases nodes with
  | nil => exact h.chain
  | cons x xs => exact h.chain.1

/-- A push links the new node and the former last one only. -/
theorem Represents.links_push [DecidableEq α] (h : Represents queue links nodes) {node x : α} (hx : x ∉ nodes)
    (hne : x ≠ node) : (requestQueuePush queue links node).2.2 x = links x := by
  unfold requestQueuePush
  split_ifs with hfull hs
  · rfl
  · exact Function.update_of_ne hne _ _
  · cases ht : queue.tail with
    | none => exact Function.update_of_ne hne _ _
    | some tail =>
      have hnodes : nodes ≠ [] := by
        rintro rfl
        exact hs h.size_eq
      have hlast : nodes.getLast? = some tail := (h.tail_eq hnodes).symm.trans ht
      have hmem : tail ∈ nodes := List.mem_of_getLast? hlast
      have hxt : x ≠ tail := fun he => hx (he ▸ hmem)
      simp only [Function.update_of_ne hxt, Function.update_of_ne hne]

theorem intAdd_eq {a b : ℕ} (h : a + b < 2 ^ 31) : intAdd a b = a + b := by
  unfold intAdd
  have hmod : ((a : Int) + b) % (2 ^ 32 : ℕ) = a + b := Int.emod_eq_of_lt (by omega) (by omega)
  rw [Int.bmod, hmod, if_pos (by omega)]

theorem Represents.move_nil [DecidableEq α] (h : Represents queue links []) (target : RequestQueue α) :
    requestQueueMove queue target links = (.fault, queue, target, links) := by
  have hhead : queue.head = none := h.chain
  rw [requestQueueMove, hhead]

theorem Represents.exists_ends (h : Represents queue links nodes) (hne : nodes ≠ []) :
    ∃ first last, queue.head = some first ∧ queue.tail = some last ∧ nodes.getLast? = some last := by
  obtain ⟨first, rest, rfl⟩ := List.exists_cons_of_ne_nil hne
  have hlast := List.getLast?_eq_getLast_of_ne_nil hne
  exact ⟨first, _, h.chain.1, (h.tail_eq hne).trans hlast, hlast⟩

variable [DecidableEq α] {target : RequestQueue α} {targets : List α}

theorem Represents.move_full (h : Represents queue links nodes) (ht : Represents target links targets)
    (hne : nodes ≠ []) (hint : targets.length + nodes.length < 2 ^ 31)
    (hc : target.capacity < targets.length + nodes.length) :
    requestQueueMove queue target links = (.full, queue, target, links) := by
  obtain ⟨first, last, hhead, htail, -⟩ := h.exists_ends hne
  have hvalid : ¬(target.tail = none ∧ 0 < target.size) := by
    rintro ⟨hnone, hpos⟩
    have htargets : targets ≠ [] := List.ne_nil_of_length_pos (ht.size_eq ▸ hpos)
    obtain ⟨_, _, _, hsome, _⟩ := ht.exists_ends htargets
    rw [hnone] at hsome
    cases hsome
  have hsum : intAdd target.size queue.size = targets.length + nodes.length := by
    rw [ht.size_eq, h.size_eq]
    exact intAdd_eq hint
  have hfull : (target.capacity : Int) < intAdd target.size queue.size := by omega
  simp only [requestQueueMove, hhead, htail, if_neg hvalid, if_pos hfull]

/-- Within the capacity a move appends the nodes in their order, empties the source and
touches no links but those of the target. -/
theorem Represents.move (h : Represents queue links nodes) (ht : Represents target links targets)
    (hne : nodes ≠ []) (hint : targets.length + nodes.length < 2 ^ 31)
    (hc : targets.length + nodes.length ≤ target.capacity) (hd : ∀ x ∈ targets, x ∉ nodes) :
    ∃ source' target' links', requestQueueMove queue target links = (.success, source', target', links') ∧
      Represents source' links' [] ∧ Represents target' links' (targets ++ nodes) ∧
      source'.capacity = queue.capacity ∧ target'.capacity = target.capacity ∧
      ∀ x, x ∉ targets → links' x = links x := by
  obtain ⟨first, last, hhead, htail, hlast⟩ := h.exists_ends hne
  have hchain : Chain links (some first) nodes := hhead ▸ h.chain
  have hsum : intAdd target.size queue.size = targets.length + nodes.length := by
    rw [ht.size_eq, h.size_eq]
    exact intAdd_eq hint
  have hroom : ¬(target.capacity : Int) < intAdd target.size queue.size := by omega
  have hempty : Represents ({ queue with head := none, tail := none, size := 0 } : RequestQueue α) links [] :=
    ⟨rfl, List.nodup_nil, rfl, fun hnil => absurd rfl hnil⟩
  rcases List.eq_nil_or_concat targets with rfl | ⟨xs, end_, rfl⟩
  · have hs : ¬0 < target.size := by simp [ht.size_eq]
    have hvalid : ¬(target.tail = none ∧ 0 < target.size) := fun hbad => hs hbad.2
    refine ⟨{ queue with head := none, tail := none, size := 0 },
      { target with head := some first, tail := some last, size := queue.size }, links, ?_, hempty, ?_, rfl, rfl,
      fun _ _ => rfl⟩
    · simp only [requestQueueMove, hhead, htail, if_neg hvalid, if_neg hroom, if_neg hs]
    · exact { chain := hchain, nodup := h.nodup, size_eq := h.size_eq, tail_eq := fun _ => hlast.symm }
  · rw [List.concat_eq_append] at ht hd hsum ⊢
    have hs : 0 < target.size := by simp [ht.size_eq]
    have htarget : target.tail = some end_ := by simpa using ht.tail_eq
    have hsize : (intAdd target.size queue.size).toNat = (xs ++ [end_]).length + nodes.length := by omega
    refine ⟨{ queue with head := none, tail := none, size := 0 },
      { target with tail := some last, size := (intAdd target.size queue.size).toNat },
      Function.update links end_ (some first), ?_, ?_, ?_, rfl, rfl, ?_⟩
    · simp only [requestQueueMove, hhead, htail, htarget, reduceCtorEq, false_and, if_false, if_neg hroom, if_pos hs]
    · exact hempty.congr fun x hx => absurd hx List.not_mem_nil
    · have hlast' : end_ ∉ nodes := hd end_ (by simp)
      have hnodup : (xs ++ [end_] ++ nodes).Nodup := ht.nodup.append h.nodup (List.disjoint_left.mpr hd)
      have hlength : (intAdd target.size queue.size).toNat = (xs ++ [end_] ++ nodes).length := by
        simp only [hsize, List.length_append]
      have hends : some last = (xs ++ [end_] ++ nodes).getLast? := by
        rw [List.getLast?_append_of_ne_nil _ hne, hlast]
      refine ⟨ht.chain.join hchain ht.nodup hlast', hnodup, ?_, fun _ => hends⟩
      dsimp only
      rw [hlength]
    · intro x hx
      exact Function.update_of_ne (fun he => hx (by simp [he])) _ _

end Libdomain.Queue
