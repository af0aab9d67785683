import Libdomain.Connection.Conservation
import Mathlib.Algebra.Order.Group.Multiset
import Mathlib.Tactic.Abel

/-! # The account of a run

Over a whole run, with its abandoned passes and reconfigurations, every request that was
tracked is in one place: its handler has run, `ldap_result` has failed for it, the connection
still holds it, or it has been dropped. So no handler runs more often than its request was tracked.
-/
namespace Libdomain.Connection
open Libdomain.Queue Libdomain.Program

/-- The requests whose fate is open: in the call queue, set aside, or in hand. -/
def outstanding (events : List Event) : Multiset Payload :=
  (replay events).queue + (replay events).pending + (delivery events).undecided (replay events).top

/-- The requests nobody answers any more: those an abandoned pass has set aside or in hand, and
those held when the connection is emptied. -/
def dropped : List Event → Multiset Payload
  | [] => 0
  | .passAbandoned lost _ :: events => lost.map LdapRequest.payload + dropped events
  | .configured :: events => outstanding events + dropped events
  | .configureFailed .eventBase :: events => outstanding events + dropped events
  | _ :: events => dropped events

def World.held (w : World) : Multiset Payload :=
  w.connection.queuedRequests.map LdapRequest.payload + w.pendingRequests.map LdapRequest.payload +
    (delivery w.trace).undecided (w.top.map fun slot => (w.connection.readRequests slot).payload)

/-- Every tracked request is in one place. -/
def Balanced (events : List Event) : Prop :=
  (chronicle Event.issued events : Multiset Payload) =
    chronicle Event.ran events + chronicle Event.failed events + outstanding events + dropped events

def Event.Retains : Event → Prop
  | .passAbandoned .. | .configured | .configureFailed .eventBase => False
  | _ => True

variable {events : List Event} {e : Event} {w w' : World}

theorem Event.Retains.dropped_cons (h : e.Retains) (events : List Event) : dropped (e :: events) = dropped events := by
  cases e with
  | passAbandoned => exact h.elim
  | configured => exact h.elim
  | configureFailed failure => cases failure <;> first | rfl | exact h.elim
  | _ => rfl

theorem replay_top_eq (hw : Simulated w) :
    (replay w.trace).top = w.top.map fun slot => (w.connection.readRequests slot).payload := by
  cases ht : w.top with
  | none => rw [Tracks.top_eq_none hw ht, Option.map_none]
  | some slot => rw [Tracks.top_eq hw ht, Option.map_some]

theorem outstanding_eq (hw : Simulated w) : outstanding w.trace = w.held := by
  rw [outstanding, Tracks.queue_eq hw, Tracks.pending_eq hw, replay_top_eq hw, World.held]

theorem Balanced.neutral (h : Balanced events) (he : e.Neutral) (hretains : e.Retains)
    (hq : (replay (e :: events)).queue = (replay events).queue)
    (hp : (replay (e :: events)).pending = (replay events).pending)
    (hu : (delivery (e :: events)).undecided (replay (e :: events)).top =
      (delivery events).undecided (replay events).top) : Balanced (e :: events) := by
  obtain ⟨hissued, hran, hfailed, -⟩ := he.fields
  rw [Balanced, hretains.dropped_cons, outstanding, hq, hp, hu]
  simp only [chronicle_cons, hissued, hran, hfailed, Option.toList_none, List.append_nil]
  exact h

theorem Balanced.pushed (h : Balanced events) (slot : ℕ) (handler : OperationCallback) (msgid : Int)
    (code : RequestQueueErrorCode) (c : LdapConnectionCtx) : Balanced (.pushed slot handler msgid code c :: events) := by
  have hdelivery : delivery (.pushed slot handler msgid code c :: events) = delivery events := rfl
  have hqueue : (replay (.pushed slot handler msgid code c :: events)).queue =
      (replay events).queue ++ [(msgid, some handler)] := rfl
  rw [Balanced, outstanding] at h ⊢
  rw [hdelivery, hqueue]
  simp only [chronicle_cons, Event.issued, Event.ran, Event.failed, Option.toList_some, Option.toList_none,
    List.append_nil, ← Multiset.coe_add]
  rw [h]
  change _ = _ + _ + (_ + _ + (replay events).pending + (delivery events).undecided (replay events).top) + dropped events
  abel

theorem Balanced.popped (h : Balanced events) (htop : (replay events).top = none) (slot : ℕ) :
    Balanced (.popped slot :: events) := by
  have hqueue : ((replay events).queue : Multiset Payload) =
      ((replay events).queue.tail : Multiset Payload) + ((replay events).queue.head?.toList : Multiset Payload) := by
    cases hq : (replay events).queue with
    | nil => rfl
    | cons p rest => exact Multiset.coe_eq_coe.mpr (List.perm_append_singleton p rest).symm
  rw [Balanced, outstanding, htop, Delivery.undecided_none, hqueue] at h
  rw [Balanced, outstanding]
  change _ = _ + _ + (((replay events).queue.tail : Multiset Payload) + (replay events).pending +
    ((replay events).queue.head?.toList : Multiset Payload)) + dropped events
  simp only [chronicle_cons, Event.issued, Event.ran, Event.failed, Option.toList_none, List.append_nil]
  rw [h, Multiset.coe_nil]
  abel

theorem Balanced.inHand (h : Balanced events) {p : Payload} (htop : (replay events).top = some p)
    (hidle : delivery events = .idle) :
    (chronicle Event.issued events : Multiset Payload) = chronicle Event.ran events + chronicle Event.failed events +
      ((replay events).queue + (replay events).pending + ([p] : List Payload)) + dropped events := by
  rw [Balanced, outstanding, hidle, htop] at h
  exact h

theorem Balanced.resultError (h : Balanced events) {request : LdapRequest}
    (htop : (replay events).top = some request.payload) (hidle : delivery events = .idle) :
    Balanced (.resultError request :: events) := by
  rw [Balanced, outstanding]
  change _ = _ + _ + (((replay events).queue : Multiset Payload) + (replay events).pending + ([] : List Payload)) +
    dropped events
  simp only [chronicle_cons, Event.issued, Event.ran, Event.failed, Option.toList_none, Option.toList_some,
    List.append_nil, ← Multiset.coe_add]
  rw [h.inHand htop hidle, Multiset.coe_nil]
  abel

theorem Balanced.deferred (h : Balanced events) {request : LdapRequest}
    (htop : (replay events).top = some request.payload) (hidle : delivery events = .idle) :
    Balanced (.deferred request :: events) := by
  have hpending : (replay (.deferred request :: events)).pending =
      (replay events).pending ++ [request.payload] := by
    rw [replay, Ledger.apply, htop, Option.toList_some]
  rw [Balanced, outstanding, hpending]
  change _ = _ + _ + (((replay events).queue : Multiset Payload) + _ + (delivery events).undecided none) +
    dropped events
  simp only [chronicle_cons, Event.issued, Event.ran, Event.failed, Option.toList_none, List.append_nil,
    Delivery.undecided_none, ← Multiset.coe_add]
  rw [h.inHand htop hidle, Multiset.coe_nil]
  abel

theorem Balanced.dispatched (h : Balanced events) {request : LdapRequest}
    (htop : (replay events).top = some request.payload) (hidle : delivery events = .idle) (slot : ℕ) (r : Response)
    (pending : List LdapRequest) (c : LdapConnectionCtx) : Balanced (.dispatch slot request r pending c :: events) := by
  rw [Balanced, outstanding]
  change _ = _ + _ + (((replay events).queue : Multiset Payload) + (replay events).pending + ([] : List Payload)) +
    dropped events
  simp only [chronicle_cons, Event.issued, Event.ran, Event.failed, Option.toList_none, Option.toList_some,
    List.append_nil, ← Multiset.coe_add]
  rw [h.inHand htop hidle, Multiset.coe_nil]
  abel

theorem Balanced.passEnd (h : Balanced events) (hqueue : (replay events).queue = [])
    (htop : (replay events).top = none) (c : LdapConnectionCtx) : Balanced (.passEnd c :: events) := by
  rw [Balanced, outstanding, hqueue, htop, Delivery.undecided_none] at h
  rw [Balanced, outstanding]
  change _ = _ + _ + (((replay events).pending : Multiset Payload) + ([] : List Payload) +
    (delivery events).undecided none) + dropped events
  simp only [chronicle_cons, Event.issued, Event.ran, Event.failed, Option.toList_none, List.append_nil,
    Delivery.undecided_none]
  rw [h, Multiset.coe_nil]
  abel

theorem Balanced.passAbandoned (h : Balanced events) {lost : List LdapRequest}
    (hlost : lost.map LdapRequest.payload = (replay events).pending ++ (replay events).top.toList)
    (hidle : delivery events = .idle) (c : LdapConnectionCtx) : Balanced (.passAbandoned lost c :: events) := by
  rw [Balanced, outstanding, hidle] at h
  rw [Balanced, outstanding, dropped, hlost]
  change _ = _ + _ + (((replay events).queue : Multiset Payload) + ([] : List Payload) +
    (delivery events).undecided none) + _
  change _ = _ + _ + (_ + _ + ((replay events).top.toList : Multiset Payload)) + _ at h
  simp only [chronicle_cons, Event.issued, Event.ran, Event.failed, Option.toList_none, List.append_nil,
    Delivery.undecided_none, ← Multiset.coe_add]
  rw [h, Multiset.coe_nil]
  abel

theorem Balanced.emptied (h : Balanced events) (he : e.Neutral) (hreplay : replay (e :: events) = .empty)
    (hdropped : dropped (e :: events) = outstanding events + dropped events) : Balanced (e :: events) := by
  obtain ⟨hissued, hran, hfailed, -⟩ := he.fields
  rw [Balanced] at h ⊢
  rw [hdropped, outstanding, hreplay]
  change _ = _ + _ + (([] : List Payload) + (([] : List Payload) : Multiset Payload) +
    (delivery (e :: events)).undecided none) + _
  simp only [chronicle_cons, hissued, hran, hfailed, Option.toList_none, List.append_nil, Delivery.undecided_none]
  rw [h, Multiset.coe_nil]
  abel

theorem Event.Quiet.retains (h : e.Quiet w) : e.Retains := by
  cases e with
  | passAbandoned => exact h.elim
  | configured => exact h.elim
  | configureFailed failure => cases failure <;> trivial
  | _ => trivial

theorem Balanced.announced (h : Balanced w.trace) (handler : OperationCallback) (msgid : Int) :
    Balanced (w.announced handler msgid).trace := by
  have hsubmission : Balanced
      (.submission w.connection.nReadRequests handler msgid w.top w.connection :: w.trace) :=
    h.neutral trivial trivial rfl rfl rfl
  exact hsubmission.neutral trivial trivial rfl rfl rfl

theorem Balanced.tracked (h : Balanced w.trace) (handler : OperationCallback) (msgid : Int) :
    Balanced (w.tracked handler msgid).trace := (h.announced handler msgid).pushed _ _ _ _ _

theorem Balanced.issued (h : Balanced w.trace) (callback : SearchCallback) (userData : UserData) (msgid : Int) :
    Balanced (w.issued callback userData msgid).trace := h.neutral trivial trivial rfl rfl rfl

theorem Balanced.registered (h : Balanced w.trace) (request : LdapSearchRequest) :
    Balanced (w.registered request).trace := by
  have hwrite : Balanced (.write .searchRequests w.connection.nSearchRequests :: w.trace) :=
    h.neutral trivial trivial rfl rfl rfl
  exact hwrite.neutral trivial trivial rfl rfl rfl

theorem Balanced.restoreWrites (h : Balanced events) (i n : ℕ) : Balanced (restoreWrites i n ++ events) :=
  restoreWrites_induction (fun _ _ h => h.neutral trivial trivial rfl rfl rfl) i n h

theorem Effect.balanced (h : Effect w w') (hw : Simulated w) (hi : Balanced w.trace) : Balanced w'.trace := by
  cases h with
  | quiet same trace =>
    rw [trace]
    exact hi
  | event e quiet same trace =>
    have hreplay : replay (e :: w.trace) = replay w.trace := by rw [replay, apply_quiet quiet]
    have hdelivery : delivery (e :: w.trace) = delivery w.trace := quiet.delivery w.trace
    rw [trace]
    exact hi.neutral quiet.neutral quiet.retains (by rw [hreplay]) (by rw [hreplay]) (by rw [hreplay, hdelivery])
  | overflow handler msgid _ => exact hi.announced handler msgid
  | tracked handler msgid _ _ => exact hi.tracked handler msgid
  | searchOverflow callback userData msgid _ => exact (hi.issued callback userData msgid).announced _ _
  | searchFull callback userData msgid _ _ => exact (hi.issued callback userData msgid).tracked _ _
  | searched callback userData msgid _ _ => exact ((hi.issued callback userData msgid).tracked _ _).registered _
  | answer step =>
    cases step with
    | callback index callback request r entries dispatched _ _ _ _ =>
      refine hi.neutral trivial trivial rfl rfl ?_
      rw [dispatched]
      rfl
    | write => exact hi.neutral trivial trivial rfl rfl rfl
    | remove index live answering =>
      refine hi.neutral trivial trivial rfl rfl ?_
      rw [answering]
      rfl
  | configured _ _ _ trace =>
    rw [trace]
    exact hi.emptied trivial rfl rfl
  | eventBase _ _ _ trace =>
    rw [trace]
    exact hi.emptied trivial rfl rfl
  | begin frame =>
    refine hi.neutral trivial trivial rfl rfl ?_
    have htop : (replay w.trace).top = none := Tracks.top_eq_none hw (top_eq_none_of_frame frame)
    change Delivery.undecided _ (replay w.trace).top = _
    rw [htop, Delivery.undecided_none, Delivery.undecided_none]
  | pop slot queue _ top _ _ => exact hi.popped (Tracks.top_eq_none hw top) slot
  | resultError slot top idle => exact hi.resultError (Tracks.top_eq hw top) idle
  | defer slot top idle =>
    have hwrite : Balanced (.write .pendingRequests w.pendingRequests.length :: w.trace) :=
      hi.neutral trivial trivial rfl rfl rfl
    exact hwrite.deferred (Tracks.top_eq hw top) idle
  | dispatch slot r top idle => exact hi.dispatched (Tracks.top_eq hw top) idle slot r _ _
  | release _ completed =>
    refine hi.neutral trivial trivial rfl rfl ?_
    change (delivery w.trace).undecided none = _
    cases hd : delivery w.trace with
    | idle =>
      rw [hd] at completed
      exact completed.elim
    | _ => rfl
  | finish _ top _ drained =>
    have hreplay := replay_restoreWrites 0 w.pendingRequests.length w.trace
    refine (hi.restoreWrites 0 w.pendingRequests.length).passEnd ?_ ?_ _
    · rw [hreplay]
      exact (Tracks.finished hw drained).2.1
    · rw [hreplay]
      exact Tracks.top_eq_none hw top
  | abandon slot top idle =>
    refine hi.passAbandoned ?_ idle _
    rw [Tracks.pending_eq hw, Tracks.top_eq hw top, top, List.map_append]
    rfl

/-- The requests of a ledger in the order of their turns: those set aside, the one in hand and
those in the queue. -/
def Ledger.line (l : Ledger) : List Payload := l.pending ++ l.top.toList ++ l.queue

def World.line (w : World) : List Payload :=
  w.pendingRequests.map LdapRequest.payload ++
    (w.top.map fun slot => (w.connection.readRequests slot).payload).toList ++
    w.connection.queuedRequests.map LdapRequest.payload

/-- A request joins the line at its end, and no event lets one overtake another. -/
theorem Ledger.line_apply (l : Ledger) (e : Event) : (l.apply e).line.Sublist (l.line ++ e.issued.toList) := by
  have hkept : ∀ xs : List Payload, xs.Sublist l.line → xs.Sublist (l.line ++ e.issued.toList) :=
    fun xs h => h.trans (List.sublist_append_left _ _)
  cases e with
  | pushed slot handler msgid code c =>
    rw [apply, line, line, ← List.append_assoc]
    exact .refl _
  | popped slot =>
    refine hkept _ ?_
    have hqueue : l.queue.head?.toList ++ l.queue.tail = l.queue := by cases l.queue <;> rfl
    rw [apply, line, line, List.append_assoc, hqueue]
    exact (List.sublist_append_left _ _).append (.refl _)
  | deferred request =>
    refine hkept _ ?_
    rw [apply, line, line, Option.toList_none, List.append_nil]
  | released =>
    refine hkept _ ?_
    rw [apply, line, line, Option.toList_none, List.append_nil]
    exact (List.sublist_append_left _ _).append (.refl _)
  | passEnd c =>
    refine hkept _ ?_
    change l.pending.Sublist l.line
    rw [line, List.append_assoc]
    exact List.sublist_append_left _ _
  | passAbandoned lost c =>
    refine hkept _ ?_
    rw [apply, line, line]
    exact List.sublist_append_right _ _
  | configured => exact List.nil_sublist _
  | configureFailed failure =>
    cases failure with
    | eventBase => exact List.nil_sublist _
    | _ => exact hkept _ (.refl _)
  | _ => exact hkept _ (.refl _)

theorem line_replay (events : List Event) : (replay events).line.Sublist (chronicle Event.issued events) := by
  induction events with
  | nil => exact .refl _
  | cons e events ih =>
    rw [replay, chronicle_cons]
    exact ((replay events).line_apply e).trans (ih.append (.refl _))

theorem line_eq (hw : Simulated w) : (replay w.trace).line = w.line := by
  rw [Ledger.line, Tracks.queue_eq hw, Tracks.pending_eq hw, replay_top_eq hw, World.line]

/-- Wherever a run ends up, each request it has tracked is in one place, and no more handlers have
run than requests were tracked. -/
theorem run_accounts (config : LdapConnectionConfig) (path : Option Bytes) (steps : List Step) :
    let w := (run config path steps).2
    (chronicle Event.issued w.trace : Multiset Payload) =
        chronicle Event.ran w.trace + chronicle Event.failed w.trace + w.held + dropped w.trace ∧
      (chronicle Event.ran w.trace : Multiset Payload) ≤ chronicle Event.issued w.trace := by
  intro w
  have hinit : Balanced (World.initial config path).trace := by
    change (0 : Multiset Payload) = _
    rfl
  obtain ⟨hw, hbalanced⟩ : Simulated w ∧ Balanced w.trace :=
    run_invariant_of_effects (I := fun w => Balanced w.trace) hinit (fun _ _ hs h hi => h.balanced hs hi) steps
  have haccount : (chronicle Event.issued w.trace : Multiset Payload) =
      chronicle Event.ran w.trace + chronicle Event.failed w.trace + w.held + dropped w.trace := by
    rw [← outstanding_eq hw]
    exact hbalanced
  refine ⟨haccount, ?_⟩
  rw [haccount, add_assoc, add_assoc]
  exact Multiset.le_add_right _ _

/-- At every moment of a run the requests that wait for their turn wait in the order in which
they were tracked, across passes and whatever has been dropped. -/
theorem run_ordered (config : LdapConnectionConfig) (path : Option Bytes) (steps : List Step) :
    (run config path steps).2.line.Sublist (chronicle Event.issued (run config path steps).2.trace) := by
  rw [← line_eq (run_simulated config path steps)]
  exact line_replay _

end Libdomain.Connection
