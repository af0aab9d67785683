import Libdomain.Connection.Simulation
import Libdomain.Connection.Faults

/-! # What a read pass does with the requests

Requests leave the call queue in the order in which they entered it, those of
the pass itself included. So the pass assigns a fate to one request after the
other, and what it has not got to yet is what the queue still holds. Without an
index out of bounds, and with a finite number of further requests, the pass
gets to all of them.
-/
namespace Libdomain.Connection
open Libdomain.Queue Libdomain.Program

/-- What becomes of a request in a pass: its handler ran, `ldap_result` failed for
it, or there was no answer yet. -/
inductive Fate
  | ran
  | failed
  | waiting
  deriving DecidableEq, Repr

def Event.issued : Event → Option Payload
  | .pushed _ handler msgid _ _ => some (msgid, some handler)
  | _ => none

def Event.ran : Event → Option Payload
  | .dispatch _ request _ _ _ => some request.payload
  | _ => none

def Event.failed : Event → Option Payload
  | .resultError request => some request.payload
  | _ => none

/-- The requests some events are about, in the order of the events. -/
def chronicle (f : Event → Option Payload) (events : List Event) : List Payload :=
  events.reverse.filterMap f

def withFate (fate : Fate) (fates : List (Payload × Fate)) : List Payload :=
  (fates.filter fun p => p.2 = fate).map Prod.fst

/-- The handler that runs is the request's own, and the connection has the message id
of the request. -/
def Event.faithful : Event → Prop
  | .dispatch _ request _ _ c => request.onReadOperation.isSome = true ∧ c.msgid = request.msgid
  | _ => True

/-- Every request that was queued at the start or issued since has met one fate, and
those still waiting are what the queue holds, in the order of issue. -/
def Conserved (w w' : World) : Prop :=
  ∃ (new : List Event) (fates : List (Payload × Fate)),
    w'.trace = new ++ w.trace ∧
    fates.map Prod.fst =
      w.connection.queuedRequests.map LdapRequest.payload ++ chronicle Event.issued new ∧
    withFate .ran fates = chronicle Event.ran new ∧
    withFate .failed fates = chronicle Event.failed new ∧
    withFate .waiting fates = w'.connection.queuedRequests.map LdapRequest.payload ∧
    w'.connection.nReadRequests = w'.connection.queuedRequests.length ∧
    ∀ e ∈ new, e.faithful

@[simp] theorem chronicle_nil (f : Event → Option Payload) : chronicle f [] = [] := rfl

@[simp] theorem chronicle_cons (f : Event → Option Payload) (e : Event) (events : List Event) :
    chronicle f (e :: events) = chronicle f events ++ (f e).toList := by
  rw [chronicle, List.reverse_cons, List.filterMap_append, chronicle]
  cases h : f e <;> simp [h]

@[simp] theorem withFate_append (fate : Fate) (xs ys : List (Payload × Fate)) :
    withFate fate (xs ++ ys) = withFate fate xs ++ withFate fate ys := by
  simp [withFate]

theorem withFate_singleton (fate fate' : Fate) (p : Payload) :
    withFate fate [(p, fate')] = if fate' = fate then [p] else [] := by
  by_cases h : fate' = fate <;> simp [withFate, h]

def Delivery.undecided (d : Delivery) (top : Option Payload) : List Payload :=
  match d with
  | .idle => top.toList
  | _ => []

@[simp] theorem Delivery.undecided_none (d : Delivery) : d.undecided none = [] := by
  cases d <;> rfl

/-- The events of a pass so far, and the fates they have decided. -/
structure Account (start : List Payload) (new : List Event) (fates : List (Payload × Fate))
    (l : Ledger) (d : Delivery) : Prop where
  requests : start ++ chronicle Event.issued new = fates.map Prod.fst ++ d.undecided l.top ++ l.queue
  ran : withFate .ran fates = chronicle Event.ran new
  failed : withFate .failed fates = chronicle Event.failed new
  waiting : withFate .waiting fates = l.pending
  faithful : ∀ e ∈ new, e.faithful

def Event.Neutral : Event → Prop
  | .pushed .. | .dispatch .. | .resultError _ => False
  | _ => True

variable {start : List Payload} {new : List Event} {fates : List (Payload × Fate)}
variable {l l' : Ledger} {d d' : Delivery} {e : Event} {w w' : World}

theorem Event.Neutral.fields (h : e.Neutral) :
    e.issued = none ∧ e.ran = none ∧ e.failed = none ∧ e.faithful := by
  cases e with
  | pushed => exact h.elim
  | dispatch => exact h.elim
  | resultError => exact h.elim
  | _ => exact ⟨rfl, rfl, rfl, trivial⟩

theorem Account.neutral (h : Account start new fates l d) (he : e.Neutral)
    (hq : l'.queue = l.queue) (hp : l'.pending = l.pending)
    (hu : d'.undecided l'.top = d.undecided l.top) : Account start (e :: new) fates l' d' := by
  obtain ⟨hissued, hran, hfailed, hfaithful⟩ := he.fields
  refine ⟨?_, ?_, ?_, ?_, ?_⟩
  · simpa [hissued, hq, hu] using h.requests
  · simpa [hran] using h.ran
  · simpa [hfailed] using h.failed
  · rw [hp]
    exact h.waiting
  · exact List.forall_mem_cons.mpr ⟨hfaithful, h.faithful⟩

theorem Account.pushed (h : Account start new fates l d) (slot : ℕ) (handler : OperationCallback)
    (msgid : Int) (code : RequestQueueErrorCode) (c : LdapConnectionCtx) :
    Account start (.pushed slot handler msgid code c :: new) fates
      (l.apply (.pushed slot handler msgid code c)) d := by
  refine ⟨?_, ?_, ?_, h.waiting, ?_⟩
  · have hrequests := congrArg (· ++ [(msgid, some handler)]) h.requests
    simpa [Event.issued, Ledger.apply] using hrequests
  · simpa [Event.ran] using h.ran
  · simpa [Event.failed] using h.failed
  · exact List.forall_mem_cons.mpr ⟨trivial, h.faithful⟩

theorem Account.popped (h : Account start new fates l d) (htop : l.top = none) (slot : ℕ) :
    Account start (.popped slot :: new) fates (l.apply (.popped slot)) .idle := by
  refine ⟨?_, ?_, ?_, h.waiting, ?_⟩
  · have hrequests := h.requests
    rw [htop, Delivery.undecided_none] at hrequests
    cases hq : l.queue with
    | nil => simpa [Event.issued, Ledger.apply, Delivery.undecided, hq] using hrequests
    | cons p rest => simpa [Event.issued, Ledger.apply, Delivery.undecided, hq] using hrequests
  · simpa [Event.ran] using h.ran
  · simpa [Event.failed] using h.failed
  · exact List.forall_mem_cons.mpr ⟨trivial, h.faithful⟩

theorem Account.decided (h : Account start new fates l .idle) {p : Payload} (htop : l.top = some p)
    (fate : Fate) : start ++ chronicle Event.issued new = (fates ++ [(p, fate)]).map Prod.fst ++ l.queue := by
  have hrequests := h.requests
  simpa [Delivery.undecided, htop] using hrequests

theorem Account.resultError (h : Account start new fates l .idle) {request : LdapRequest}
    (htop : l.top = some request.payload) :
    Account start (.resultError request :: new) (fates ++ [(request.payload, .failed)]) l
      (.failed request) := by
  refine ⟨?_, ?_, ?_, ?_, ?_⟩
  · simpa [Event.issued, Delivery.undecided] using h.decided htop .failed
  · simpa [Event.ran, withFate_singleton] using h.ran
  · simpa [Event.failed, withFate_singleton] using h.failed
  · simpa [withFate_singleton] using h.waiting
  · exact List.forall_mem_cons.mpr ⟨trivial, h.faithful⟩

theorem Account.deferred (h : Account start new fates l .idle) {request : LdapRequest}
    (htop : l.top = some request.payload) :
    Account start (.deferred request :: new) (fates ++ [(request.payload, .waiting)])
      (l.apply (.deferred request)) .idle := by
  refine ⟨?_, ?_, ?_, ?_, ?_⟩
  · simpa [Event.issued, Delivery.undecided, Ledger.apply] using h.decided htop .waiting
  · simpa [Event.ran, withFate_singleton] using h.ran
  · simpa [Event.failed, withFate_singleton] using h.failed
  · simpa [withFate_singleton, Ledger.apply, htop] using h.waiting
  · exact List.forall_mem_cons.mpr ⟨trivial, h.faithful⟩

theorem Account.dispatched (h : Account start new fates l .idle) {request : LdapRequest}
    (htop : l.top = some request.payload) (slot : ℕ) (r : Response) (pending : List LdapRequest)
    {c : LdapConnectionCtx} (hfaithful : Event.faithful (.dispatch slot request r pending c)) :
    Account start (.dispatch slot request r pending c :: new) (fates ++ [(request.payload, .ran)]) l
      (.dispatched request r c) := by
  refine ⟨?_, ?_, ?_, ?_, ?_⟩
  · simpa [Event.issued, Delivery.undecided] using h.decided htop .ran
  · simpa [Event.ran, withFate_singleton] using h.ran
  · simpa [Event.failed, withFate_singleton] using h.failed
  · simpa [withFate_singleton] using h.waiting
  · exact List.forall_mem_cons.mpr ⟨hfaithful, h.faithful⟩

def Accounted (start : List Payload) (old : List Event) (w : World) : Prop :=
  ∃ new fates, w.trace = new ++ old ∧ Account start new fates (replay w.trace) (delivery w.trace)

variable {old : List Event}

theorem Accounted.neutral (h : Accounted start old w) (ht : w'.trace = e :: w.trace) (he : e.Neutral)
    (hq : (replay w'.trace).queue = (replay w.trace).queue)
    (hp : (replay w'.trace).pending = (replay w.trace).pending)
    (hu : (delivery w'.trace).undecided (replay w'.trace).top =
      (delivery w.trace).undecided (replay w.trace).top) : Accounted start old w' := by
  obtain ⟨new, fates, hnew, ha⟩ := h
  exact ⟨e :: new, fates, by rw [ht, hnew, List.cons_append], ha.neutral he hq hp hu⟩

theorem Event.Quiet.neutral (h : e.Quiet w) : e.Neutral := by
  cases e with
  | pushed => exact h.elim
  | dispatch => exact h.elim
  | resultError => exact h.elim
  | _ => trivial

theorem Accounted.announced (h : Accounted start old w) (handler : OperationCallback) (msgid : Int) :
    Accounted start old (w.announced handler msgid) := by
  have hsubmission : Accounted start old
      (w.record (.submission w.connection.nReadRequests handler msgid w.top w.connection)) :=
    h.neutral rfl trivial rfl rfl rfl
  exact hsubmission.neutral rfl trivial rfl rfl rfl

theorem Accounted.tracked (h : Accounted start old w) (handler : OperationCallback) (msgid : Int) :
    Accounted start old (w.tracked handler msgid) := by
  obtain ⟨new, fates, hnew, ha⟩ := h.announced handler msgid
  have hpushed := ha.pushed w.connection.nReadRequests handler msgid
    (w.connection.track handler msgid).1 (w.connection.track handler msgid).2
  exact ⟨_ :: new, fates, congrArg _ hnew, hpushed⟩

theorem Accounted.issued (h : Accounted start old w) (callback : SearchCallback) (userData : UserData)
    (msgid : Int) : Accounted start old (w.issued callback userData msgid) :=
  h.neutral rfl trivial rfl rfl rfl

theorem Accounted.registered (h : Accounted start old w) (request : LdapSearchRequest) :
    Accounted start old (w.registered request) := by
  have hwrite : Accounted start old
      (w.record (.write .searchRequests w.connection.nSearchRequests)) :=
    h.neutral rfl trivial rfl rfl rfl
  exact hwrite.neutral rfl trivial rfl rfl rfl

theorem Effect.accounted (h : Effect w w') (hw : Simulated w) (hf : w.frame.isSome = true)
    (hf' : w'.frame.isSome = true) (ha : Accounted start old w) : Accounted start old w' := by
  cases h with
  | quiet same trace =>
    unfold Accounted
    rw [trace]
    exact ha
  | event e quiet same trace =>
    have hreplay : replay w'.trace = replay w.trace := by rw [trace, replay, apply_quiet quiet]
    have hdelivery : delivery w'.trace = delivery w.trace := by rw [trace, quiet.delivery]
    exact ha.neutral trace quiet.neutral (by rw [hreplay]) (by rw [hreplay])
      (by rw [hreplay, hdelivery])
  | overflow handler msgid _ => exact ha.announced handler msgid
  | tracked handler msgid _ _ => exact ha.tracked handler msgid
  | searchOverflow callback userData msgid _ => exact (ha.issued callback userData msgid).announced _ _
  | searchFull callback userData msgid _ _ => exact (ha.issued callback userData msgid).tracked _ _
  | searched callback userData msgid _ _ =>
    exact ((ha.issued callback userData msgid).tracked _ _).registered _
  | answer step =>
    cases step with
    | callback index callback request r entries dispatched _ _ _ _ =>
      refine ha.neutral rfl trivial rfl rfl ?_
      rw [dispatched]
      rfl
    | write => exact ha.neutral rfl trivial rfl rfl rfl
    | remove index live answering =>
      refine ha.neutral rfl trivial rfl rfl ?_
      rw [answering]
      rfl
  | configured frame => simp [frame] at hf
  | eventBase frame => simp [frame] at hf
  | begin frame => simp [frame] at hf
  | pop slot queue frame top settled popped =>
    obtain ⟨new, fates, hnew, ha⟩ := ha
    exact ⟨_ :: new, fates, congrArg _ hnew, ha.popped (Tracks.top_eq_none hw top) slot⟩
  | resultError slot top idle =>
    obtain ⟨new, fates, hnew, ha⟩ := ha
    rw [idle] at ha
    exact ⟨_ :: new, _, congrArg _ hnew, ha.resultError (Tracks.top_eq hw top)⟩
  | defer slot top idle =>
    have hwrite : Accounted start old
        (w.record (.write .pendingRequests w.pendingRequests.length)) :=
      ha.neutral rfl trivial rfl rfl rfl
    obtain ⟨new, fates, hnew, ha⟩ := hwrite
    have hdeferred : Account start new fates (replay w.trace) .idle := by
      rw [← idle]
      exact ha
    have hnext := hdeferred.deferred (Tracks.top_eq hw top)
    rw [← idle] at hnext
    exact ⟨_ :: new, _, congrArg _ hnew, hnext⟩
  | dispatch slot r top idle =>
    obtain ⟨new, fates, hnew, ha⟩ := ha
    rw [idle] at ha
    have hhandler : (w.connection.readRequests slot).onReadOperation.isSome = true :=
      replay_handled (.inr (.inr (Tracks.top_eq hw top)))
    exact ⟨_ :: new, _, congrArg _ hnew,
      ha.dispatched (Tracks.top_eq hw top) slot r w.pendingRequests ⟨hhandler, rfl⟩⟩
  | release _ completed =>
    refine ha.neutral rfl trivial rfl rfl ?_
    change (delivery w.trace).undecided none = _
    cases hd : delivery w.trace with
    | idle =>
      rw [hd] at completed
      exact completed.elim
    | _ => rfl
  | finish => cases hf'
  | abandon => cases hf'

theorem Serving.frame_isSome (h : Serving w w') (hf : w.frame.isSome = true) :
    w'.frame.isSome = true := by
  cases h with
  | handling h =>
    rw [h.frame]
    exact hf
  | serve h =>
    obtain ⟨f, hf⟩ := Option.isSome_iff_exists.mp hf
    cases h with
    | pop => simp [World.popped, hf]
    | resultError => simp [World.record, hf]
    | defer slot =>
      rw [exec_deferRequest]
      split_ifs <;> simp [World.deferred, World.record, hf]
    | dispatch =>
      change w.frame.isSome = true
      simp [hf]
    | release =>
      change (w.frame.map _).isSome = true
      simp [hf]

theorem Serving.simulated (h : Serving w w') (hw : Simulated w) : Simulated w' :=
  (h.effect hw).simulated hw

theorem accounted_beginPass (hw : Simulated w) (hf : w.frame = none) :
    Accounted (w.connection.queuedRequests.map LdapRequest.payload) w.trace (exec beginPass w).2 := by
  refine ⟨[.passBegin w.connection], [], rfl, ?_⟩
  change Account _ _ _ (replay w.trace) .idle
  have htop := Tracks.top_eq_none hw (top_eq_none_of_frame hf)
  have hpending : w.pendingRequests = [] := by rw [World.pendingRequests, hf]; rfl
  refine ⟨?_, rfl, rfl, ?_, by simp [Event.faithful]⟩
  · simp [Delivery.undecided, htop, Tracks.queue_eq hw, Event.issued]
  · simp [withFate, Tracks.pending_eq hw, hpending]

theorem Accounted.finished (h : Accounted start old w) (hw : Simulated w) (htop : w.top = none)
    (hd : w.Drained) : ∃ new fates, w.finished.trace = new ++ old ∧
      fates.map Prod.fst = start ++ chronicle Event.issued new ∧
      withFate .ran fates = chronicle Event.ran new ∧
      withFate .failed fates = chronicle Event.failed new ∧
      withFate .waiting fates = w.finished.connection.queuedRequests.map LdapRequest.payload ∧
      w.finished.connection.nReadRequests = w.finished.connection.queuedRequests.length ∧
      ∀ e ∈ new, e.faithful := by
  obtain ⟨new, fates, hnew, ha⟩ := h
  obtain ⟨-, hqueue, hfinished⟩ := Tracks.finished hw hd
  have hrestored : ∀ f : Event → Option Payload, (∀ i, f (.write .readRequests i) = none) →
      chronicle f (restoreWrites 0 w.pendingRequests.length ++ new) = chronicle f new := by
    intro f hf
    have hnone : (restoreWrites 0 w.pendingRequests.length).reverse.filterMap f = [] := by
      rw [List.filterMap_eq_nil_iff]
      intro e he
      obtain ⟨j, -, -, rfl⟩ := mem_restoreWrites (List.mem_reverse.mp he)
      exact hf j
    rw [chronicle, List.reverse_append, List.filterMap_append, hnone, List.append_nil]
    rfl
  refine ⟨.passEnd (w.connection.finished w.pendingRequests) ::
    (restoreWrites 0 w.pendingRequests.length ++ new), fates, ?_, ?_, ?_, ?_, ?_, ?_, ?_⟩
  · change _ :: (restoreWrites 0 _ ++ w.trace) = _
    rw [hnew, List.cons_append, List.append_assoc]
  · have hrequests := ha.requests
    rw [Tracks.top_eq_none hw htop, hqueue] at hrequests
    rw [chronicle_cons, hrestored _ fun _ => rfl]
    simpa [Event.issued] using hrequests.symm
  · rw [chronicle_cons, hrestored _ fun _ => rfl, ha.ran]
    simp [Event.ran]
  · rw [chronicle_cons, hrestored _ fun _ => rfl, ha.failed]
    simp [Event.failed]
  · rw [ha.waiting]
    exact hfinished.queue_eq
  · have hlength := congrArg List.length hfinished.queue_eq
    rw [List.length_map] at hlength
    rw [← hlength]
    exact hfinished.used_eq.symm
  · intro e he
    rcases List.mem_cons.mp he with rfl | he
    · trivial
    · rcases List.mem_append.mp he with he | he
      · obtain ⟨j, -, -, rfl⟩ := mem_restoreWrites he
        trivial
      · exact ha.faithful e he

/-- The state between two iterations of the read loop. -/
structure Ready (w : World) : Prop where
  idle : w.Idle
  simulated : Simulated w
  steady : Steady none w

/-- However many answers the loop gets, from the given one on, no index is out of bounds. -/
def NoOverrun (responses : ℕ → Response) (k : ℕ) (w : World) : Prop :=
  ∀ n array index,
    (exec (readLoop ((List.range' k n).map responses)) w).1 ≠ .error (.outOfBounds array index)

variable {responses : ℕ → Response} {k slot : ℕ} {queue : RequestQueue ℕ}

/-- One iteration goes through, and without further requests it shortens the queue. -/
theorem Ready.advance (hw : Ready w) (hdiagnostics : (responses k).diagnostics.succeed = true)
    (hbounds : NoOverrun responses k w)
    (hpop : requestQueuePop w.connection.callqueue w.connection.links = (some slot, queue)) :
    ∃ w', (∀ n, exec (readLoop ((List.range' k (n + 1)).map responses)) w =
        exec (readLoop ((List.range' (k + 1) n).map responses)) w') ∧
      Ready w' ∧ NoOverrun responses (k + 1) w' ∧
      (¬(responses k).Issues → w'.connection.callqueue = queue) := by
  have hserve : Serve w (w.popped slot queue) :=
    .pop w slot queue hw.idle.1 hw.idle.2.1 hw.idle.2.2 hpop
  have hprocessing : (w.popped slot queue).Processing slot := hw.idle.popped hpop
  have hsteady := keeps_processRequest (r := responses k) slot (.inl rfl) (w.popped slot queue)
    (hserve.steady hw.steady)
  have hsimulated := (follows_processRequest slot (responses k)).invariant
    (fun _ _ h hs => h.simulated hs) hprocessing (Serving.simulated (.serve hserve) hw.simulated)
  have hidle := (follows_processRequest slot (responses k) _ hprocessing).2
  rcases hrun : exec (processRequest slot (responses k)) (w.popped slot queue) with ⟨outcome, w'⟩
  rw [hrun] at hsteady hsimulated hidle
  have hloop : ∀ n, (List.range' k (n + 1)).map responses =
      responses k :: (List.range' (k + 1) n).map responses := by
    intro n
    rw [List.range'_succ, List.map_cons]
  cases outcome with
  | error e =>
    have hfault := hsteady.2 e rfl
    cases e with
    | outOfBounds array index =>
      refine absurd ?_ (hbounds 1 array index)
      rw [hloop 0, exec_readLoop_some hpop, exec_bind_error hrun]
    | invalidPointer => exact hfault.elim
    | divergence => exact hfault.elim
    | starved => exact hfault.elim
  | ok more =>
    have hmore : more = true :=
      processRequest_continues slot hdiagnostics (w := w.popped slot queue) (by rw [hrun])
    subst hmore
    have hnext : ∀ n, exec (readLoop ((List.range' k (n + 1)).map responses)) w =
        exec (readLoop ((List.range' (k + 1) n).map responses)) w' := by
      intro n
      rw [hloop n, exec_readLoop_some hpop, exec_bind_ok hrun]
      rfl
    refine ⟨w', hnext, ⟨hidle true rfl, hsimulated, hsteady.1⟩, ?_, ?_⟩
    · intro n array index
      rw [← hnext n]
      exact hbounds (n + 1) array index
    · intro hissues
      have hkeep := keeps_processRequest slot (.inr hissues) (w.popped slot queue)
        ⟨(hserve.steady hw.steady).stateMachine, (hserve.steady hw.steady).ldapDefaults,
          (hserve.steady hw.steady).attempts, fun q hq => Option.some.inj hq⟩
      rw [hrun] at hkeep
      exact hkeep.1.callqueue queue rfl

theorem Ready.drains (hdiagnostics : ∀ k, (responses k).diagnostics.succeed = true) {K : ℕ}
    (hquiet : ∀ k ≥ K, ¬(responses k).Issues) (hk : K ≤ k) (hw : Ready w)
    (hbounds : NoOverrun responses k w) :
    ∃ n w', exec (readLoop ((List.range' k n).map responses)) w = (.ok true, w') := by
  generalize hsize : w.connection.callqueue.size = size
  induction size generalizing k w with
  | zero =>
    have hpop : requestQueuePop w.connection.callqueue w.connection.links =
        (none, w.connection.callqueue) := if_pos hsize
    exact ⟨0, w, exec_readLoop_none hpop _⟩
  | succ size ih =>
    cases hpop : requestQueuePop w.connection.callqueue w.connection.links with
    | mk top queue =>
      cases top with
      | none => exact ⟨0, w, exec_readLoop_none hpop _⟩
      | some slot =>
        obtain ⟨w', hnext, hw', hbounds', hqueue⟩ := hw.advance (hdiagnostics k) hbounds hpop
        have hshorter := size_of_requestQueuePop hpop
        obtain ⟨n, w'', hrun⟩ := ih (by omega) hw' hbounds' (by rw [hqueue (hquiet k hk)]; omega)
        exact ⟨n + 1, w'', (hnext n).trans hrun⟩

/-- The loop ends: up to then by counting answers, from then on by counting requests. -/
theorem Ready.returns (hdiagnostics : ∀ k, (responses k).diagnostics.succeed = true) {K : ℕ}
    (hquiet : ∀ k ≥ K, ¬(responses k).Issues) (hw : Ready w) (hbounds : NoOverrun responses k w) :
    ∃ n w', exec (readLoop ((List.range' k n).map responses)) w = (.ok true, w') := by
  generalize hleft : K - k = left
  induction left generalizing k w with
  | zero => exact hw.drains hdiagnostics hquiet (by omega) hbounds
  | succ left ih =>
    cases hpop : requestQueuePop w.connection.callqueue w.connection.links with
    | mk top queue =>
      cases top with
      | none => exact ⟨0, w, exec_readLoop_none hpop _⟩
      | some slot =>
        obtain ⟨w', hnext, hw', hbounds', -⟩ := hw.advance (hdiagnostics k) hbounds hpop
        obtain ⟨n, w'', hrun⟩ := ih hw' hbounds' (by omega)
        exact ⟨n + 1, w'', (hnext n).trans hrun⟩

/-- In a state reached by a run whose reconfigurations succeeded, a pass that gets readable
diagnostics, issues finitely many further requests and stays within the arrays ends,
and it has conserved the requests. -/
theorem connectionOnRead_conserves {config : LdapConnectionConfig} {path : Option Bytes}
    {steps : List Step} {w : World} (hrun : run config path steps = (.ok (), w))
    (hconfigure : ∀ i, .tick i ∈ steps → i.configure = none) (responses : ℕ → Response)
    (hdiagnostics : ∀ k, (responses k).diagnostics.succeed = true)
    (hissues : ∃ K, ∀ k ≥ K, ¬(responses k).Issues)
    (hbounds : ∀ n array index, (exec (connectionOnRead ((List.range n).map responses)) w).1 ≠
      .error (.outOfBounds array index)) :
    ∃ n w', exec (connectionOnRead ((List.range n).map responses)) w = (.ok (), w') ∧
      Conserved w w' := by
  obtain ⟨K, hquiet⟩ := hissues
  have hframe : w.frame = none := Reachable.frame ⟨steps, hrun⟩
  have hsimulated : Simulated w := by
    have hsim := run_simulated config path steps
    rwa [hrun] at hsim
  have hbegin : exec beginPass w = (.ok (), (exec beginPass w).2) := rfl
  have hready : Ready (exec beginPass w).2 :=
    ⟨⟨rfl, rfl, .inl rfl⟩, Effect.simulated (.begin w hframe) hsimulated,
      (run_steady hrun hconfigure).congr rfl rfl rfl rfl⟩
  have hoverrun : NoOverrun responses 0 (exec beginPass w).2 := by
    intro n array index hfault
    refine hbounds n array index ?_
    rw [List.range_eq_range', connectionOnRead, exec_bind_ok hbegin, exec_bind_error (Prod.ext hfault rfl)]
  obtain ⟨n, w₁, hloop⟩ := hready.returns hdiagnostics hquiet hoverrun
  obtain ⟨hpath, hpost⟩ := ((follows_readLoop ((List.range' 0 n).map responses)).keep
    (I := fun t => Simulated t ∧ t.frame.isSome = true ∧
      Accounted (w.connection.queuedRequests.map LdapRequest.payload) w.trace t)
    (fun s t hst ⟨hs, hf, ha⟩ => ⟨hst.simulated hs, hst.frame_isSome hf,
      (hst.effect hs).accounted hs hf (hst.frame_isSome hf) ha⟩))
    (exec beginPass w).2 ⟨hready.idle, hready.simulated, rfl, accounted_beginPass hsimulated hframe⟩
  rw [hloop] at hpost
  obtain ⟨⟨hidle, hdrained⟩, hsim, -, haccount⟩ := hpost true rfl
  have hfinish := exec_finishPass w₁ (Tracks.finished hsim hdrained).1
  refine ⟨n, w₁.finished, ?_, haccount.finished hsim hidle.2.1 hdrained⟩
  rw [List.range_eq_range', connectionOnRead, exec_bind_ok hbegin, exec_bind_ok hloop]
  exact hfinish

/-- Answers beyond the last request are never asked for. -/
theorem exec_readLoop_append {answers : List Response} {w' : World}
    (h : exec (readLoop answers) w = (.ok true, w')) (rest : List Response) :
    exec (readLoop (answers ++ rest)) w = (.ok true, w') := by
  let P (answers : List Response) (w : World) (outcome : Except Fault Bool × World) : Prop :=
    outcome = (.ok true, w') → exec (readLoop (answers ++ rest)) w = (.ok true, w')
  have hloop : ∀ answers w, P answers w (exec (readLoop answers) w) := by
    intro answers w
    induction answers, w using readLoop_induction with
    | drained hpop =>
      intro hdone
      cases hdone
      exact exec_readLoop_none hpop _
    | starved => rintro ⟨⟩
    | failed => rintro ⟨⟩
    | goesOn hpop hprocess ih =>
      intro hrest
      rw [List.cons_append, exec_readLoop_some hpop, exec_bind_ok hprocess, if_pos rfl]
      exact ih hrest
    | givesUp => rintro ⟨⟩
  exact hloop answers w h

theorem exec_connectionOnRead_append {answers : List Response}
    (h : (exec (readLoop answers) (exec beginPass w).2).1 = .ok true) (rest : List Response) :
    exec (connectionOnRead (answers ++ rest)) w = exec (connectionOnRead answers) w := by
  have hbegin : exec beginPass w = (.ok (), (exec beginPass w).2) := rfl
  have hloop : exec (readLoop answers) (exec beginPass w).2 = (.ok true, _) := Prod.ext h rfl
  rw [connectionOnRead, exec_bind_ok hbegin, exec_bind_ok (exec_readLoop_append hloop rest),
    connectionOnRead, exec_bind_ok hbegin, exec_bind_ok hloop]

section Runs

-- Only the kernel is to evaluate the runs.
attribute [local irreducible] run

/-- A search and an operation the server is slow to answer. -/
def waitingSteps : List Step :=
  [.submit ⟨.whoami, ⟨ldapSuccess, 1⟩⟩,
    .submit ⟨.search ⟨[], 0, [], [], false⟩ (some (.application 1)) (.application 10), ⟨ldapSuccess, 2⟩⟩]

/-- The callback of the search issues a request of its own, which fails. -/
def waitingResponses : ℕ → Response
  | 0 => { rc := ldapResUnsolicited }
  | 1 => { rc := ldapResSearchResult, msgid := 2, submissions := [⟨.whoami, ⟨ldapSuccess, 3⟩⟩] }
  | _ => { rc := ldapResAny }

theorem waitingResponses_inBounds (n : ℕ) (array : RequestArray) (index : ℕ) :
    (exec (connectionOnRead ((List.range n).map waitingResponses))
      (run ⟨false, .simple⟩ none waitingSteps).2).1 ≠ .error (.outOfBounds array index) := by
  have hloop : (exec (readLoop ((List.range 3).map waitingResponses))
      (exec beginPass (run ⟨false, .simple⟩ none waitingSteps).2).2).1 = .ok true := by decide +kernel
  have hshort : ∀ m < 4, (exec (connectionOnRead ((List.range m).map waitingResponses))
      (run ⟨false, .simple⟩ none waitingSteps).2).1 ∈ [.ok (), .error .starved] := by decide +kernel
  have hlong : ∃ m < 4, exec (connectionOnRead ((List.range n).map waitingResponses))
      (run ⟨false, .simple⟩ none waitingSteps).2 =
      exec (connectionOnRead ((List.range m).map waitingResponses))
        (run ⟨false, .simple⟩ none waitingSteps).2 := by
    by_cases hn : n < 4
    · exact ⟨n, hn, rfl⟩
    · obtain ⟨m, rfl⟩ : ∃ m, n = 3 + m := ⟨n - 3, by omega⟩
      refine ⟨3, by decide, ?_⟩
      rw [List.range_add, List.map_append]
      exact exec_connectionOnRead_append hloop _
  obtain ⟨m, hm, he⟩ := hlong
  rw [he]
  intro hfault
  have hmem := hshort m hm
  rw [hfault] at hmem
  simp at hmem

theorem connectionOnRead_conserves_waiting :
    ∃ n w', exec (connectionOnRead ((List.range n).map waitingResponses))
        (run ⟨false, .simple⟩ none waitingSteps).2 = (.ok (), w') ∧
      Conserved (run ⟨false, .simple⟩ none waitingSteps).2 w' := by
  have hrun : (run ⟨false, .simple⟩ none waitingSteps).1 = .ok () := by decide +kernel
  refine connectionOnRead_conserves (Prod.ext hrun rfl) (by simp [waitingSteps]) waitingResponses ?_ ?_
    waitingResponses_inBounds
  · intro k
    rcases k with _ | _ | k <;> rfl
  · refine ⟨2, fun k hk => ?_⟩
    obtain ⟨m, rfl⟩ : ∃ m, k = m + 2 := ⟨k - 2, by omega⟩
    simp [waitingResponses, Response.Issues, ldapResAny, ldapResBind]

end Runs

end Libdomain.Connection
