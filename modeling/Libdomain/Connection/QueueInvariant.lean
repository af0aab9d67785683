import Libdomain.Connection.Simulation

/-! # The representation of the call queue

At every point where the connection hands over control, the call queue is a
chain of distinct slots in use, and a submission always finds a slot outside
the queue and outside the hands of the running handler.
-/
namespace Libdomain.Connection
open Libdomain.Queue Libdomain.Program

/-- The chain from the head along the links has as many nodes as the queue counts,
ends at the tail with a null link, and consists of distinct slots in use. -/
def LdapConnectionCtx.WellQueued (c : LdapConnectionCtx) : Prop :=
  ∃ slots, Represents c.callqueue c.links slots ∧ ∀ i ∈ slots, i < c.nReadRequests

def Event.WellQueued : Event → Prop
  | .submission slot _ _ dispatching c =>
    c.WellQueued ∧ slot ∉ contents c.callqueue c.links ∧ dispatching ≠ some slot
  | .pushed _ _ _ code c => code = .success ∧ c.WellQueued
  | .passBegin c | .passEnd c | .passAbandoned _ c | .dispatch _ _ _ _ c
  | .searchCallback _ _ _ _ _ _ c | .searchRemoved _ c | .errorCallback c => c.WellQueued
  | _ => True

variable {w w' : World} {l : Ledger} {slots : List ℕ}

theorem Queued.wellQueued (h : Queued w slots) : w.connection.WellQueued :=
  ⟨slots, h.represents, h.used⟩

theorem Tracks.wellQueued (h : Tracks w l) : w.connection.WellQueued := by
  obtain ⟨slots, hs, -⟩ := h
  exact hs.wellQueued

theorem Queued.submission (h : Queued w slots) (handler : OperationCallback) (msgid : Int) :
    (Event.submission w.connection.nReadRequests handler msgid w.top w.connection).WellQueued := by
  refine ⟨h.wellQueued, ?_, ?_⟩
  · rw [h.represents.contents_eq]
    exact h.notMem
  · intro ht
    exact lt_irrefl _ (h.top _ ht).1

def WellQueuedTrace (events : List Event) : Prop := ∀ e ∈ events, e.WellQueued

theorem WellQueuedTrace.cons {e : Event} {events : List Event} (h : WellQueuedTrace events)
    (he : e.WellQueued) : WellQueuedTrace (e :: events) := List.forall_mem_cons.mpr ⟨he, h⟩

theorem Event.Quiet.wellQueued {e : Event} (h : e.Quiet w) (hw : w.connection.WellQueued) :
    e.WellQueued := by
  cases e with
  | errorCallback c =>
    cases h
    exact hw
  | submission => exact h.elim
  | pushed => exact h.elim
  | passBegin => exact h.elim
  | passEnd => exact h.elim
  | passAbandoned => exact h.elim
  | dispatch => exact h.elim
  | searchCallback => exact h.elim
  | searchRemoved => exact h.elim
  | _ => trivial

theorem WellQueuedTrace.announced (h : WellQueuedTrace w.trace) (hw : Tracks w l)
    (handler : OperationCallback) (msgid : Int) :
    WellQueuedTrace (w.announced handler msgid).trace := by
  obtain ⟨slots, hs, -⟩ := hw
  exact (h.cons (hs.submission handler msgid)).cons trivial

theorem WellQueuedTrace.tracked (h : WellQueuedTrace w.trace) (hw : Tracks w l)
    (hn : w.connection.nReadRequests < maxRequests) (handler : OperationCallback) (msgid : Int) :
    WellQueuedTrace (w.tracked handler msgid).trace := by
  have hann := h.announced hw handler msgid
  obtain ⟨slots, hs, -⟩ := hw
  obtain ⟨hcode, htracked⟩ := hs.track hn handler msgid
  exact hann.cons ⟨hcode, htracked.wellQueued⟩

theorem WellQueuedTrace.issued (h : WellQueuedTrace w.trace) (callback : SearchCallback)
    (userData : UserData) (msgid : Int) :
    WellQueuedTrace (w.issued callback userData msgid).trace := h.cons trivial

theorem WellQueuedTrace.registered (h : WellQueuedTrace w.trace) (request : LdapSearchRequest) :
    WellQueuedTrace (w.registered request).trace := by
  refine WellQueuedTrace.cons (WellQueuedTrace.cons h ?_) ?_ <;> trivial

theorem Effect.wellQueued (h : Effect w w') (hw : Simulated w) (hi : WellQueuedTrace w.trace) :
    WellQueuedTrace w'.trace := by
  have hc := Tracks.wellQueued hw
  have hc' := Tracks.wellQueued (h.simulated hw)
  have hissued : ∀ callback userData msgid,
      Tracks (w.issued callback userData msgid) (replay w.trace) := fun _ _ _ =>
    hw.congr (by constructor <;> rfl)
  cases h with
  | quiet _ trace => rw [trace]; exact hi
  | event e quiet _ trace => rw [trace]; exact hi.cons (quiet.wellQueued hc)
  | overflow handler msgid _ => exact hi.announced hw handler msgid
  | tracked handler msgid _ room => exact hi.tracked hw room handler msgid
  | searchOverflow callback userData msgid _ =>
    exact (hi.issued callback userData msgid).announced (hissued callback userData msgid) _ _
  | searchFull callback userData msgid room _ =>
    exact (hi.issued callback userData msgid).tracked (hissued callback userData msgid) room _ _
  | searched callback userData msgid room _ =>
    exact ((hi.issued callback userData msgid).tracked (hissued callback userData msgid) room _
      _).registered _
  | answer step =>
    cases step with
    | callback => exact hi.cons hc
    | write => exact hi.cons trivial
    | remove => exact hi.cons hc
  | configured _ _ _ trace => rw [trace]; exact hi.cons trivial
  | eventBase _ _ _ trace => rw [trace]; exact hi.cons trivial
  | begin => exact hi.cons hc
  | pop => exact hi.cons trivial
  | resultError => exact hi.cons trivial
  | defer => refine WellQueuedTrace.cons (WellQueuedTrace.cons hi ?_) ?_ <;> trivial
  | dispatch => exact hi.cons hc'
  | release => exact hi.cons trivial
  | finish => exact (restoreWrites_induction (fun j events h => h.cons trivial) 0 _ hi).cons hc'
  | abandon => exact hi.cons hc

/-- Before and after every submission and every pass, also an abandoned one, and
whenever a handler or a callback is called, the call queue is well formed; a
submission takes a slot that is neither queued nor being dispatched, and its push
succeeds. A run ends at the first submission without a slot, and in none of them does the
allocation of the queue itself fail. -/
theorem run_wellQueued (config : LdapConnectionConfig) (path : Option Bytes) (steps : List Step) :
    (run config path steps).2.connection.WellQueued ∧
      ∀ e ∈ (run config path steps).2.trace, e.WellQueued := by
  have hinit : WellQueuedTrace (World.initial config path).trace := by
    intro e he
    rw [List.mem_singleton.mp he]
    trivial
  obtain ⟨hs, hi⟩ := run_invariant_of_effects (I := fun w => WellQueuedTrace w.trace) hinit
    (fun _ _ hs h hi => h.wellQueued hs hi) steps
  exact ⟨Tracks.wellQueued hs, hi⟩

end Libdomain.Connection
