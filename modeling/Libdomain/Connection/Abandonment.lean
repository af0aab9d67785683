import Libdomain.Connection.Conservation
import Libdomain.Connection.Machine

/-! # Abandoned read passes

A diagnostics query that fails makes `connection_on_read` jump to its end. What the queue
still holds stays there; what the pass has set aside is held by a local array only.
-/
namespace Libdomain.Connection
open Libdomain.Queue Libdomain.Program

/-- `ldap_result` fails, and so does a query for its diagnostics. -/
def Response.Abandons (r : Response) : Prop := r.rc = ldapResAny ∧ r.diagnostics.succeed = false

instance : DecidablePred Response.Abandons := fun _ => inferInstanceAs (Decidable (_ ∧ _))

def Event.examines : Event → Bool
  | .popped _ => true
  | _ => false

def Event.setAside : Event → Option Payload
  | .deferred request => some request.payload
  | _ => none

def World.since (w w' : World) : List Event := w'.trace.take (w'.trace.length - w.trace.length)

/-- The requests that were queued at the start or have been issued since, without those examined. -/
def unexamined (start : List Payload) (new : List Event) : List Payload :=
  (start ++ chronicle Event.issued new).drop (new.countP Event.examines)

/-- What a pass still owes an answer: the requests found not ready and those not examined. -/
def World.due (w w' : World) : List Payload :=
  chronicle Event.setAside (w.since w') ++
    unexamined (w.connection.queuedRequests.map LdapRequest.payload) (w.since w')

/-- Every request still owed an answer is in the queue, as often as it is owed one. -/
def LosesNothing (w w' : World) : Prop :=
  ∀ p ∈ w.due w', (w'.connection.queuedRequests.map LdapRequest.payload).count p = (w.due w').count p

instance (w w' : World) : Decidable (LosesNothing w w') :=
  inferInstanceAs (Decidable (∀ p ∈ w.due w', _ = _))

/-- Events that neither take a request from the queue, set one aside nor end the pass. -/
def Event.Apart : Event → Prop
  | .popped _ | .deferred _ | .passEnd _ | .passAbandoned .. | .configured | .configureFailed _ => False
  | _ => True

variable {start : List Payload} {new old : List Event} {l : Ledger} {e : Event} {w w' : World}

/-- The ledger holds what has not been examined and what has been set aside. -/
structure Audit (start : List Payload) (new : List Event) (l : Ledger) : Prop where
  examined : new.countP Event.examines ≤ (start ++ chronicle Event.issued new).length
  queue : unexamined start new = l.queue
  pending : chronicle Event.setAside new = l.pending

theorem Audit.apart (h : Audit start new l) (he : e.Apart) : Audit start (e :: new) (l.apply e) := by
  obtain ⟨hexamined, hqueue, hpending⟩ := h
  unfold unexamined at hqueue
  cases e with
  | pushed slot handler msgid code c =>
    refine ⟨?_, ?_, ?_⟩
    · simp [Event.examines, Event.issued]
      simp at hexamined
      omega
    · simp only [unexamined, chronicle_cons, Event.issued, Option.toList_some, ← List.append_assoc,
        List.countP_cons, Event.examines, Ledger.apply]
      rw [List.drop_append_of_le_length (by simpa using hexamined)]
      simpa using hqueue
    · simpa [Event.setAside, Ledger.apply] using hpending
  | popped => exact he.elim
  | deferred => exact he.elim
  | passEnd => exact he.elim
  | passAbandoned => exact he.elim
  | configured => exact he.elim
  | configureFailed => exact he.elim
  | _ =>
    refine ⟨?_, ?_, ?_⟩
    · simpa [Event.examines, Event.issued] using hexamined
    · simpa [unexamined, Event.examines, Event.issued, Ledger.apply] using hqueue
    · simpa [Event.setAside, Ledger.apply] using hpending

theorem Audit.popped (h : Audit start new l) (hl : l.queue ≠ []) (slot : ℕ) :
    Audit start (.popped slot :: new) (l.apply (.popped slot)) := by
  obtain ⟨-, hqueue, hpending⟩ := h
  unfold unexamined at hqueue
  refine ⟨?_, ?_, ?_⟩
  · have hshort : new.countP Event.examines < (start ++ chronicle Event.issued new).length := by
      by_contra hlong
      rw [List.drop_eq_nil_of_le (by omega)] at hqueue
      exact hl hqueue.symm
    simp only [List.countP_cons, Event.examines, chronicle_cons, Event.issued, Option.toList_none,
      List.append_nil, if_true]
    omega
  · simp only [unexamined, chronicle_cons, Event.issued, Option.toList_none, List.append_nil,
      List.countP_cons, Event.examines, Ledger.apply, if_true]
    rw [← hqueue, List.tail_drop]
  · simpa [Event.setAside, Ledger.apply] using hpending

theorem Audit.deferred (h : Audit start new l) {request : LdapRequest}
    (htop : l.top = some request.payload) :
    Audit start (.deferred request :: new) (l.apply (.deferred request)) := by
  obtain ⟨hexamined, hqueue, hpending⟩ := h
  refine ⟨?_, ?_, ?_⟩
  · simpa [Event.examines, Event.issued] using hexamined
  · simpa [unexamined, Event.examines, Event.issued, Ledger.apply] using hqueue
  · simp [Event.setAside, Ledger.apply, htop, hpending]

def Audited (start : List Payload) (old : List Event) (w : World) : Prop :=
  ∃ new, w.trace = new ++ old ∧ Audit start new (replay w.trace)

theorem Audited.one (h : Audited start old w) (ht : w'.trace = e :: w.trace)
    (hstep : ∀ new, Audit start new (replay w.trace) → Audit start (e :: new) ((replay w.trace).apply e)) :
    Audited start old w' := by
  obtain ⟨new, hnew, ha⟩ := h
  refine ⟨e :: new, by rw [ht, hnew, List.cons_append], ?_⟩
  rw [ht]
  exact hstep new ha

theorem Audited.grows (h : Audited start old w) (hg : w.Grows w' Event.Apart) : Audited start old w' := by
  obtain ⟨new, hnew, ha⟩ := h
  obtain ⟨more, hmore, hp⟩ := hg
  refine ⟨more ++ new, by rw [hmore, hnew, List.append_assoc], ?_⟩
  rw [hmore]
  clear hmore
  induction more with
  | nil => exact ha
  | cons e more ih =>
    have hrest := ih fun e' he => hp e' (List.mem_cons_of_mem e he)
    exact hrest.apart (hp e List.mem_cons_self)

theorem Handling.apart (h : Handling w w') : w.Grows w' Event.Apart := by
  cases h with
  | inner h =>
    cases h with
    | calm h =>
      refine h.grows.mono fun e he => ?_
      cases e <;> trivial
    | setState state _ =>
      rw [exec_csmSetState]
      cases w.connection.stateMachine with
      | live current => exact .one rfl trivial
      | null => exact .none rfl
      | dangling => exact .none rfl
    | bindAnswered => exact .one rfl trivial
    | _ => exact .none rfl
  | answer h => cases h <;> exact .one rfl trivial

theorem Serving.audited (h : Serving w w') (hw : Simulated w) (ha : Audited start old w) :
    Audited start old w' := by
  cases h with
  | handling h => exact ha.grows h.apart
  | serve h =>
    cases h with
    | pop slot queue frame top _ popped =>
      obtain ⟨payload, rest, hqueue, -, -⟩ := Tracks.popped hw frame top popped
      refine ha.one rfl fun new h => h.popped ?_ slot
      simp [hqueue]
    | resultError => exact ha.grows (.one rfl trivial)
    | defer slot top _ =>
      rw [exec_deferRequest, if_pos (Tracks.deferred hw top).1]
      have hwrite : Audited start old (w.record (.write .pendingRequests w.pendingRequests.length)) :=
        ha.grows (.one rfl trivial)
      exact hwrite.one rfl fun new h => h.deferred (Tracks.top_eq hw top)
    | dispatch => exact ha.grows (.one rfl trivial)
    | release => exact ha.grows (.one rfl trivial)

theorem pendingRequests_releaseTop (w : World) :
    (exec releaseTop w).2.pendingRequests = w.pendingRequests := by
  change ((w.frame.map _).map _).getD [] = (w.frame.map _).getD []
  cases w.frame <;> rfl

theorem pendingRequests_optionalTransition (w : World) :
    (exec connectionOptionalTransitionOnError w).2.pendingRequests = w.pendingRequests := by
  have hframe := (along_connectionOptionalTransitionOnError.keep (I := fun t => t.frame = w.frame)
    fun _ _ hst hs => hst.frame.trans hs).invariant (I := fun t => t.frame = w.frame)
      (fun _ _ hst hs => hst.frame.trans hs) (s := w) rfl rfl
  rw [World.pendingRequests, hframe, World.pendingRequests]

theorem pendingRequests_dispatchRequest {slot : ℕ} {request : LdapRequest} (r : Response)
    (hw : w.Processing slot) (hr : w.connection.readRequests slot = request) :
    (exec (dispatchRequest slot request r) w).2.pendingRequests = w.pendingRequests := by
  have hannounce : exec (announce slot request r) w = (.ok (), (exec (announce slot request r) w).2) := rfl
  rw [dispatchRequest, exec_bind_ok hannounce]
  cases hh : request.onReadOperation with
  | none => exact pendingRequests_releaseTop _
  | some handler =>
    have hstart : Starts handler request r (exec (announce slot request r) w).2 :=
      ⟨⟨slot, hw.1, by rw [← hh, ← hr]; rfl, by rw [← hr]; rfl⟩, hh, rfl⟩
    have hframe : (exec (handler.handle r) (exec (announce slot request r) w).2).2.frame = w.frame :=
      (follows_handle handler request r).invariant (I := fun t => t.frame = w.frame)
        (fun s t hst hs => hst.frame.trans hs) hstart rfl
    have hpending : (exec (handler.handle r) (exec (announce slot request r) w).2).2.pendingRequests =
        w.pendingRequests := by
      rw [World.pendingRequests, hframe]
      rfl
    rcases hrun : exec (handler.handle r) (exec (announce slot request r) w).2 with ⟨outcome, t⟩
    rw [hrun] at hpending
    cases outcome with
    | ok code =>
      rw [exec_bind_ok hrun, pendingRequests_releaseTop]
      exact hpending
    | error e =>
      rw [exec_bind_error hrun]
      exact hpending

/-- One iteration gives up exactly on an abandoning answer, and sets its request aside exactly if
there is no answer yet. -/
theorem processRequest_outcome {slot : ℕ} {r : Response} {more : Bool} (hw : w.Processing slot)
    (h : exec (processRequest slot r) w = (.ok more, w')) :
    (more = true ↔ ¬r.Abandons) ∧
      (w'.pendingRequests = [] ↔ w.pendingRequests = [] ∧ r.rc ≠ ldapResUnsolicited) := by
  rw [processRequest, exec_bind_ok (exec_get w), exec_bind_ok (exec_call _ w)] at h
  generalize ht : w.record _ = t at h
  have htop : t.Processing slot := by
    rw [← ht]
    exact hw
  have hrequest : t.connection.readRequests slot = w.connection.readRequests slot := by
    rw [← ht]
    rfl
  have hpending : t.pendingRequests = w.pendingRequests := by
    rw [← ht]
    rfl
  by_cases hany : r.rc = ldapResAny
  · have hready : r.rc ≠ ldapResUnsolicited := by
      rw [hany]
      decide
    rw [if_pos hany] at h
    cases hd : r.diagnostics.succeed with
    | true =>
      rw [hd, if_pos rfl, exec_bind_ok (exec_emit _ t)] at h
      obtain ⟨_, u, htransition, h⟩ := exec_bind_eq_ok h
      obtain ⟨_, v, hrelease, h⟩ := exec_bind_eq_ok h
      cases h
      have hkept := pendingRequests_optionalTransition
        (t.record (.resultError (w.connection.readRequests slot)))
      have hreleased := pendingRequests_releaseTop u
      rw [htransition] at hkept
      rw [hrelease] at hreleased
      have hsame : w'.pendingRequests = w.pendingRequests := hreleased.trans (hkept.trans hpending)
      exact ⟨by simp [Response.Abandons, hd], by simp [hready, hsame]⟩
    | false =>
      rw [hd, if_neg (by decide), exec_pure] at h
      cases h
      exact ⟨by simp [Response.Abandons, hany, hd], by simp [hready, hpending]⟩
  · have hgoes : ¬r.Abandons := fun h => hany h.1
    rw [if_neg hany] at h
    by_cases hnone : r.rc = ldapResUnsolicited
    · rw [if_pos hnone] at h
      obtain ⟨_, u, hdefer, h⟩ := exec_bind_eq_ok h
      cases h
      obtain ⟨f, hf⟩ := Option.isSome_iff_exists.mp (frame_of_top htop.1)
      rw [exec_deferRequest] at hdefer
      split_ifs at hdefer
      · cases hdefer
        exact ⟨by simp [hgoes], by simp [World.pendingRequests, World.deferred, World.record, hf, hnone]⟩
      · cases hdefer
    · rw [if_neg hnone] at h
      obtain ⟨_, u, hdispatch, h⟩ := exec_bind_eq_ok h
      cases h
      have hkept := pendingRequests_dispatchRequest r htop hrequest
      rw [hdispatch, hpending] at hkept
      exact ⟨by simp [hgoes], by simp [hnone, hkept]⟩

/-- A pass that is given up has set requests aside exactly if an answer before the abandoning one
was missing. -/
theorem readLoop_abandoned {responses : List Response} (hw : w.Idle)
    (h : exec (readLoop responses) w = (.ok false, w')) :
    w'.pendingRequests = [] ↔ w.pendingRequests = [] ∧
      ∀ r ∈ responses.takeWhile fun r => ¬r.Abandons, r.rc ≠ ldapResUnsolicited := by
  let P (responses : List Response) (w : World) (outcome : Except Fault Bool × World) : Prop :=
    w.Idle → outcome = (.ok false, w') → (w'.pendingRequests = [] ↔ w.pendingRequests = [] ∧
      ∀ r ∈ responses.takeWhile fun r => ¬r.Abandons, r.rc ≠ ldapResUnsolicited)
  have hpopped : ∀ (s : World) (slot : ℕ) (queue : RequestQueue ℕ),
      (s.popped slot queue).pendingRequests = s.pendingRequests := by
    intro s slot queue
    change ((s.frame.map _).map _).getD [] = (s.frame.map _).getD []
    cases s.frame <;> rfl
  have hloop : ∀ responses w, P responses w (exec (readLoop responses) w) := by
    intro responses w
    induction responses, w using readLoop_induction with
    | drained => rintro _ ⟨⟩
    | starved => rintro _ ⟨⟩
    | failed => rintro _ ⟨⟩
    | goesOn hpop hprocess ih =>
      intro hs hdone
      have hprocessing := hs.popped hpop
      obtain ⟨hmore, haside⟩ := processRequest_outcome hprocessing hprocess
      have hidle := (follows_processRequest _ _ _ hprocessing).2 true (by rw [hprocess])
      rw [hprocess] at hidle
      have hgoes := hmore.mp rfl
      rw [hpopped] at haside
      rw [ih hidle hdone, haside, List.takeWhile_cons_of_pos (by simpa using hgoes)]
      simp [and_assoc]
    | @givesUp r rest s t slot queue hpop hprocess =>
      intro hs hdone
      have hprocessing := hs.popped hpop
      obtain ⟨hmore, haside⟩ := processRequest_outcome hprocessing hprocess
      cases hdone
      have hgivesUp : r.Abandons := by simpa using hmore
      have hready : r.rc ≠ ldapResUnsolicited := by
        rw [hgivesUp.1]
        decide
      rw [hpopped] at haside
      rw [haside, List.takeWhile_cons_of_neg (by simpa using hgivesUp)]
      simp [hready]
  exact hloop responses w hw h

theorem since_append {new : List Event} (h : w'.trace = new ++ w.trace) : w.since w' = new := by
  rw [World.since, h, List.length_append, Nat.add_sub_cancel, List.take_left']
  rfl

theorem audited_beginPass (hw : Simulated w) (hframe : w.frame = none) :
    Audited (w.connection.queuedRequests.map LdapRequest.payload) w.trace (exec beginPass w).2 := by
  have hnone : w.pendingRequests = [] := by
    rw [World.pendingRequests, hframe]
    rfl
  have hpending : (replay w.trace).pending = [] := by
    rw [Tracks.pending_eq hw, hnone]
    rfl
  refine ⟨[.passBegin w.connection], rfl, by simp [Event.examines], ?_, ?_⟩
  · change _ = (replay w.trace).queue
    simp [unexamined, Event.examines, Event.issued, Tracks.queue_eq hw]
  · exact hpending.symm

theorem losesNothing_abandoned {t : World} (ht : Simulated t) (htrace : t.trace = new ++ w.trace)
    (haudit : Audit (w.connection.queuedRequests.map LdapRequest.payload) new (replay t.trace)) :
    LosesNothing w (exec abandonPass t).2 ↔ t.pendingRequests = [] := by
  have hsince : w.since (exec abandonPass t).2 = _ :: new := since_append (congrArg _ htrace)
  have hqueue : ((exec abandonPass t).2.connection.queuedRequests.map LdapRequest.payload) =
      unexamined (w.connection.queuedRequests.map LdapRequest.payload) new :=
    (Tracks.queue_eq ht).symm.trans haudit.queue.symm
  have hdue : w.due (exec abandonPass t).2 = t.pendingRequests.map LdapRequest.payload ++
      unexamined (w.connection.queuedRequests.map LdapRequest.payload) new := by
    rw [World.due, hsince, ← Tracks.pending_eq ht, ← haudit.pending]
    simp [unexamined, Event.examines, Event.issued, Event.setAside]
  unfold LosesNothing
  rw [hdue, hqueue]
  constructor
  · intro hkept
    cases hp : t.pendingRequests with
    | nil => rfl
    | cons request rest =>
      have hcount := hkept request.payload (by simp [hp])
      rw [List.count_append, hp, List.map_cons, List.count_cons_self] at hcount
      omega
  · intro hp p _
    rw [hp, List.map_nil, List.nil_append]

/-- In a state between two steps of a run: a pass that is abandoned returns, and it loses nothing
exactly if `ldap_result` has found an answer for each request before the abandoning one. -/
theorem connectionOnRead_losesNothing_iff {config : LdapConnectionConfig} {path : Option Bytes}
    {w : World} (hw : Reachable config path w) {responses : List Response}
    (habandoned : (exec (readLoop responses) (exec beginPass w).2).1 = .ok false) :
    ∃ w', exec (connectionOnRead responses) w = (.ok (), w') ∧
      (LosesNothing w w' ↔
        ∀ r ∈ responses.takeWhile fun r => ¬r.Abandons, r.rc ≠ ldapResUnsolicited) := by
  obtain ⟨steps, hrun⟩ := hw
  have hframe : w.frame = none := Reachable.frame ⟨steps, hrun⟩
  have hsimulated : Simulated w := by
    have hsim := run_simulated config path steps
    rwa [hrun] at hsim
  have hbegin : exec beginPass w = (.ok (), (exec beginPass w).2) := rfl
  have hidle : (exec beginPass w).2.Idle := ⟨rfl, rfl, .inl rfl⟩
  have hfollows := (follows_readLoop responses).invariant
    (I := fun t => Simulated t ∧ Audited (w.connection.queuedRequests.map LdapRequest.payload) w.trace t)
    (fun _ _ hst hs => ⟨hst.simulated hs.1, hst.audited hs.1 hs.2⟩) hidle
    ⟨Effect.simulated (.begin w hframe) hsimulated, audited_beginPass hsimulated hframe⟩
  rcases hloop : exec (readLoop responses) (exec beginPass w).2 with ⟨outcome, t⟩
  rw [hloop] at hfollows habandoned
  cases habandoned
  obtain ⟨hsim, new, htrace, haudit⟩ := hfollows
  have hnone : (exec beginPass w).2.pendingRequests = [] := rfl
  refine ⟨(exec abandonPass t).2, ?_, ?_⟩
  · rw [connectionOnRead, exec_bind_ok hbegin, exec_bind_ok hloop]
    rfl
  · rw [losesNothing_abandoned hsim htrace haudit, readLoop_abandoned hidle hloop, hnone]
    simp

section Runs

-- Only the kernel is to evaluate the runs.
attribute [local irreducible] run

/-- Three operations, and what `ldap_result` makes of them: the given answer to the first, and a
failure whose result code cannot be queried to the second. -/
def abandonedSteps : List Step := (List.range 3).map fun i => .submit ⟨.whoami, ⟨ldapSuccess, i⟩⟩

def abandonedResponses (rc : Int) : List Response :=
  [{ rc := rc }, { rc := ldapResAny, diagnostics := { resultCode := none } }]

theorem connectionOnRead_losesNothing_iff_answered :
    ∃ w', exec (connectionOnRead (abandonedResponses ldapResExtended))
        (run ⟨false, .simple⟩ none abandonedSteps).2 = (.ok (), w') ∧
      (LosesNothing (run ⟨false, .simple⟩ none abandonedSteps).2 w' ↔
        ∀ r ∈ (abandonedResponses ldapResExtended).takeWhile fun r => ¬r.Abandons,
          r.rc ≠ ldapResUnsolicited) := by
  have hrun : (run ⟨false, .simple⟩ none abandonedSteps).1 = .ok () ∧
      (exec (readLoop (abandonedResponses ldapResExtended))
        (exec beginPass (run ⟨false, .simple⟩ none abandonedSteps).2).2).1 = .ok false := by decide +kernel
  exact connectionOnRead_losesNothing_iff ⟨abandonedSteps, Prod.ext hrun.1 rfl⟩ hrun.2

/-- The first request is not ready when the query for the second one fails: it is gone. -/
theorem notReady_lost :
    (run ⟨false, .simple⟩ none abandonedSteps).1 = .ok () ∧
      (exec (readLoop (abandonedResponses ldapResUnsolicited))
        (exec beginPass (run ⟨false, .simple⟩ none abandonedSteps).2).2).1 = .ok false ∧
      ¬LosesNothing (run ⟨false, .simple⟩ none abandonedSteps).2
        (exec (connectionOnRead (abandonedResponses ldapResUnsolicited))
          (run ⟨false, .simple⟩ none abandonedSteps).2).2 := by
  decide +kernel

end Runs

end Libdomain.Connection
