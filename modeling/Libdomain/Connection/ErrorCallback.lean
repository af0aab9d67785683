import Libdomain.Connection.Conservation
import Libdomain.Connection.Reporting
import Libdomain.Connection.Upkeep
import Mathlib.Data.List.TakeWhile

/-! # Entering the error state

The error callback is called by the handlers of operations, of searches and of the search for
the root entry. The state machine enters the error state in a tick, in the handlers of StartTLS
and of the bind, and after an error of `ldap_result`. No request does both.
-/
namespace Libdomain.Connection
open Libdomain.Queue Libdomain.Program

def Event.entersError : Event → Bool
  | .transition _ .error => true
  | _ => false

def Event.isBoundary : Event → Bool
  | .passBegin _ | .popped _ | .passEnd _ | .passAbandoned .. => true
  | _ => false

def nearby (events : List Event) : List Event := events.takeWhile fun e => !e.isBoundary

/-- The error callback has been called before or after a transition, without a read pass having
begun, gone on to another request or ended in between. -/
def Accompanied (later earlier : List Event) : Prop :=
  (nearby earlier).any Event.isErrorCallback = true ∨ (nearby later.reverse).any Event.isErrorCallback = true

/-- No transition into the error state is accompanied by a call of the error callback. -/
def NeverAccompanied (events : List Event) : Prop :=
  ∀ later source earlier, events = later ++ .transition source .error :: earlier → ¬Accompanied later earlier

/-- Between two boundaries the callback is called or the error state entered, not both. -/
def Exclusive (events : List Event) : Prop :=
  ∀ part, part <:+ events →
    (nearby part).any Event.isErrorCallback = true → (nearby part).any Event.entersError = false

variable {w w' : World} {events new : List Event} {f : Event → Bool} {r : Response}

theorem any_nearby_append (hnew : ∀ e ∈ new, f e = false) (h : (nearby events).any f = false) :
    (nearby (new ++ events)).any f = false := by
  induction new with
  | nil => exact h
  | cons e new ih =>
    have hrest := ih fun e' he => hnew e' (List.mem_cons_of_mem e he)
    have he := hnew e List.mem_cons_self
    rw [nearby, List.cons_append, List.takeWhile_cons]
    split_ifs
    · simp only [List.any_cons, he, Bool.false_or]
      exact hrest
    · rfl

theorem Exclusive.cons (h : Exclusive events) {e : Event}
    (he : (nearby (e :: events)).any Event.isErrorCallback = true →
      (nearby (e :: events)).any Event.entersError = false) : Exclusive (e :: events) := by
  intro part hpart
  rcases List.suffix_cons_iff.mp hpart with rfl | hpart
  · exact he
  · exact h part hpart

theorem Exclusive.silent (h : Exclusive events) (hnew : ∀ e ∈ new, e.isErrorCallback = false)
    (hevents : (nearby events).any Event.isErrorCallback = false) : Exclusive (new ++ events) := by
  induction new with
  | nil => exact h
  | cons e new ih =>
    apply (ih fun e' he => hnew e' (List.mem_cons_of_mem e he)).cons
    intro hreported
    rw [← List.cons_append, any_nearby_append hnew hevents] at hreported
    cases hreported

theorem Exclusive.firm (h : Exclusive events) (hnew : ∀ e ∈ new, e.entersError = false)
    (hevents : (nearby events).any Event.entersError = false) : Exclusive (new ++ events) := by
  induction new with
  | nil => exact h
  | cons e new ih =>
    apply (ih fun e' he => hnew e' (List.mem_cons_of_mem e he)).cons
    intro _
    rw [← List.cons_append]
    exact any_nearby_append hnew hevents

theorem any_nearby_of_inner (hnew : ∀ e ∈ new, e.isBoundary = false) (h : (nearby events).any f = true) :
    (nearby (new ++ events)).any f = true := by
  have hsplit : nearby (new ++ events) = new ++ nearby events :=
    List.takeWhile_append_of_pos fun e he => by simp [hnew e he]
  rw [hsplit, List.any_append, h, Bool.or_true]

theorem Exclusive.idle (h : Exclusive events)
    (hnew : ∀ e ∈ new, e.isErrorCallback = false ∧ e.entersError = false) : Exclusive (new ++ events) := by
  induction new with
  | nil => exact h
  | cons e new ih =>
    have hrest := ih fun e' he => hnew e' (List.mem_cons_of_mem e he)
    obtain ⟨hcallback, hentered⟩ := hnew e List.mem_cons_self
    apply hrest.cons
    cases hb : e.isBoundary with
    | true => simp [nearby, hb]
    | false => simpa [nearby, hb, hcallback, hentered] using hrest _ (List.suffix_refl _)

theorem Exclusive.idle_cons (h : Exclusive events) {e : Event} (hcallback : e.isErrorCallback = false)
    (hentered : e.entersError = false) : Exclusive (e :: events) :=
  idle h fun _ he => List.mem_singleton.mp he ▸ ⟨hcallback, hentered⟩

theorem Exclusive.neverAccompanied (h : Exclusive events) : NeverAccompanied events := by
  intro later source earlier hevents haccompanied
  have hentered : (nearby (.transition source .error :: earlier)).any Event.entersError = true := rfl
  rcases haccompanied with hearlier | hlater
  · have hpart : .transition source .error :: earlier <:+ events := ⟨later, hevents.symm⟩
    have hfalse := h _ hpart hearlier
    rw [hentered] at hfalse
    cases hfalse
  · obtain ⟨e, he, hcallback⟩ := List.any_eq_true.mp hlater
    obtain ⟨first, rest, hsplit⟩ := List.append_of_mem he
    have hinner : ∀ e' ∈ e :: first.reverse, e'.isBoundary = false := by
      intro e' he'
      have hmem : e' ∈ nearby later.reverse := by
        rw [hsplit]
        simp only [List.mem_cons, List.mem_reverse] at he'
        simp only [List.mem_append, List.mem_cons]
        tauto
      simpa using (List.mem_takeWhile_imp hmem)
    obtain ⟨behind, hlist⟩ : ∃ behind, nearby later.reverse ++ behind = later.reverse :=
      ⟨_, List.takeWhile_append_dropWhile⟩
    -- the trace from the call of the callback back to its start
    have hpart : e :: first.reverse ++ .transition source .error :: earlier <:+ events := by
      refine ⟨(rest ++ behind).reverse, ?_⟩
      have hreverse := congrArg List.reverse hlist
      rw [List.reverse_reverse, hsplit] at hreverse
      rw [hevents, ← hreverse]
      simp
    have hreported : (nearby (e :: first.reverse ++ .transition source .error :: earlier)).any
        Event.isErrorCallback = true := by
      have hboundary := hinner e List.mem_cons_self
      simp [nearby, hboundary, hcallback]
    have hfalse := h _ hpart hreported
    rw [any_nearby_of_inner hinner hentered] at hfalse
    cases hfalse

abbrev World.Avoids (f : Event → Bool) (w w' : World) : Prop := w.Grows w' fun e => f e = false

theorem World.Within.silent (h : w.Within Event.Sends w') : w.Avoids Event.isErrorCallback w' := by
  refine h.grows.mono fun e he => ?_
  cases e <;> first | exact he.elim | rfl

theorem World.Straight.firm (h : w.Straight w') : w.Avoids Event.entersError w' := by
  refine h.grows.mono fun e he => ?_
  cases e <;> first | exact he.elim | rfl

theorem silent_dispatchRequest {slot : ℕ} {request : LdapRequest} {handler : OperationCallback}
    (h : request.onReadOperation = some handler) (hsends : Confined Event.Sends (handler.handle r)) :
    w.Avoids Event.isErrorCallback (exec (dispatchRequest slot request r) w).2 := by
  have hannounce : exec (announce slot request r) w = (.ok (), w.dispatched slot request r) := rfl
  have hdispatched : w.Avoids Event.isErrorCallback (w.dispatched slot request r) := .one rfl rfl
  have hhandled := (hsends.within (w.dispatched slot request r)).silent
  rw [dispatchRequest, exec_bind_ok hannounce, h]
  dsimp only
  rw [exec_bind]
  rcases he : exec (handler.handle r) (w.dispatched slot request r) with ⟨result, t⟩
  rw [he] at hhandled
  have hreleased : t.Avoids Event.isErrorCallback (exec releaseTop t).2 := .one rfl rfl
  cases result with
  | error fault => exact hdispatched.trans hhandled
  | ok code => exact (hdispatched.trans hhandled).trans hreleased

/-- A handler either sets the machine or calls the callback. -/
theorem dispatchRequest_exclusive (slot : ℕ) (request : LdapRequest) (r : Response) (w : World) :
    w.Avoids Event.isErrorCallback (exec (dispatchRequest slot request r) w).2 ∨
      w.Avoids Event.entersError (exec (dispatchRequest slot request r) w).2 := by
  have hdispatched := straight_dispatched w slot request r
  cases hh : request.onReadOperation with
  | none =>
    have hannounce : exec (announce slot request r) w = (.ok (), w.dispatched slot request r) := rfl
    rw [dispatchRequest, exec_bind_ok hannounce, hh]
    exact .inr (hdispatched.trans (straight_releaseTop _)).firm
  | some handler =>
    have hstraight : (w.dispatched slot request r).Straight
        (exec (handler.handle r) (w.dispatched slot request r)).2 →
        w.Avoids Event.entersError (exec (dispatchRequest slot request r) w).2 := fun hs =>
      ((hdispatched.trans hs).trans (straight_dispatchRequest slot hh r w)).firm
    have hissue : Along Issue (handler.handle r) →
        w.Avoids Event.entersError (exec (dispatchRequest slot request r) w).2 := fun hi =>
      hstraight (along_straight (hi.mono fun _ _ h => h.straight) _)
    cases handler with
    | connectionStartTlsOnRead => exact .inl (silent_dispatchRequest hh (sends_connectionStartTlsOnRead r))
    | connectionBindOnRead => exact .inl (silent_dispatchRequest hh (sends_connectionBindOnRead r))
    | searchOnRead => exact .inr (hstraight (straight_searchOnRead rfl rfl))
    | directoryParseResult => exact .inr (hstraight (straight_directoryParseResult r _))
    | whoamiOnRead => exact .inr (hissue Along.pure)
    | addOnRead => exact .inr (hissue (along_resultOnRead _ _ r))
    | modifyOnRead => exact .inr (hissue (along_resultOnRead _ _ r))
    | deleteOnRead => exact .inr (hissue (along_resultOnRead _ _ r))
    | renameOnRead => exact .inr (hissue (along_resultOnRead _ _ r))

def Event.Silent (_ : Option ℕ) (e : Event) : Prop := e.isErrorCallback = false

theorem silent_of_sends {α : Type} {program : Action α} (h : Confined Event.Sends program) :
    Confined Event.Silent program := by
  refine h.mono fun _ _ hw => hw.mono fun e he => ?_
  cases e <;> first | exact he.elim | rfl

theorem processRequest_exclusive (slot : ℕ) (r : Response) (w : World) :
    w.Avoids Event.isErrorCallback (exec (processRequest slot r) w).2 ∨
      w.Avoids Event.entersError (exec (processRequest slot r) w).2 := by
  let request := w.connection.readRequests slot
  let called := w.record (.call w.connection.ldap (.result request.msgid))
  have hcalled : ∀ f : Event → Bool, f (.call w.connection.ldap (.result request.msgid)) = false →
      w.Avoids f called := fun f hf => .one rfl hf
  have hreleased : Confined Event.Silent releaseTop :=
    Along.step fun _ => ⟨rfl, rfl, rfl, rfl, rfl, rfl, .one rfl rfl⟩
  rw [processRequest, exec_bind_ok (exec_get w), exec_bind_ok (exec_call _ w)]
  by_cases hany : r.rc = ldapResAny
  · rw [if_pos hany]
    have hsilent : Confined Event.Silent (if r.diagnostics.succeed then do
        emit (.resultError request)
        connectionOptionalTransitionOnError
        releaseTop
        return true
      else return false : Action Bool) := by
      apply Along.ite _ Along.pure
      apply Along.bind (confined_emit (p := Event.Silent) (e := .resultError request) fun _ => rfl)
      intro _
      apply Along.bind (silent_of_sends sends_connectionOptionalTransitionOnError)
      intro _
      exact Along.bind hreleased fun _ => Along.pure
    exact .inl ((hcalled _ rfl).trans (hsilent.within called).grows)
  · rw [if_neg hany]
    by_cases hlater : r.rc = ldapResUnsolicited
    · rw [if_pos hlater]
      have hsilent : Confined Event.Silent (do deferRequest request; return true) := by
        unfold deferRequest
        refine Along.bind (Along.get fun w => ?_) fun _ => Along.pure
        apply Along.bind (confined_selectIndex (p := Event.Silent) _ _ fun _ => rfl)
        exact fun _ => Along.step fun _ => ⟨rfl, rfl, rfl, rfl, rfl, rfl, .one rfl rfl⟩
      exact .inl ((hcalled _ rfl).trans (hsilent.within called).grows)
    · rw [if_neg hlater]
      have hdispatch := dispatchRequest_exclusive slot request r called
      have hreturn : (exec (do dispatchRequest slot request r; return true) called).2 =
          (exec (dispatchRequest slot request r) called).2 := by
        rw [exec_bind]
        rcases exec (dispatchRequest slot request r) called with ⟨result, t⟩
        cases result <;> rfl
      rw [hreturn]
      exact hdispatch.imp (hcalled _ rfl).trans (hcalled _ rfl).trans

theorem Exclusive.processRequest (h : Exclusive w.trace) (slot : ℕ) (r : Response)
    (hreported : (nearby w.trace).any Event.isErrorCallback = false)
    (hentered : (nearby w.trace).any Event.entersError = false) :
    Exclusive (exec (processRequest slot r) w).2.trace := by
  rcases processRequest_exclusive slot r w with ⟨new, ht, hnew⟩ | ⟨new, ht, hnew⟩
  · rw [ht]
    exact h.silent hnew hreported
  · rw [ht]
    exact h.firm hnew hentered

theorem Exclusive.readLoop (h : Exclusive w.trace) (responses : List Response) :
    Exclusive (exec (readLoop responses) w).2.trace := by
  let P (_ : List Response) (w : World) (outcome : Except Fault Bool × World) : Prop :=
    Exclusive w.trace → Exclusive outcome.2.trace
  have hprocess : ∀ {w w' : World} {slot : ℕ} {queue : RequestQueue ℕ} {r : Response} {result : Except Fault Bool},
      exec (Connection.processRequest slot r) (w.popped slot queue) = (result, w') → Exclusive w.trace →
        Exclusive w'.trace := by
    intro w w' slot queue r result he h
    have hpopped : Exclusive (w.popped slot queue).trace := h.idle_cons rfl rfl
    have hprocessed := hpopped.processRequest slot r rfl rfl
    rwa [he] at hprocessed
  have hloop : ∀ responses w, P responses w (exec (Connection.readLoop responses) w) := by
    intro responses w
    induction responses, w using readLoop_induction with
    | drained => exact id
    | starved => exact fun h => h.idle_cons rfl rfl
    | failed _ he => exact hprocess he
    | goesOn _ he ih => exact fun h => ih (hprocess he h)
    | givesUp _ he => exact hprocess he
  exact hloop responses w h

theorem World.Avoids.exclusive (hg : w.Avoids Event.isErrorCallback w') (h : Exclusive w.trace)
    (hreported : (nearby w.trace).any Event.isErrorCallback = false) :
    Exclusive w'.trace ∧ (nearby w'.trace).any Event.isErrorCallback = false := by
  obtain ⟨new, ht, hnew⟩ := hg
  rw [ht]
  exact ⟨h.silent hnew hreported, any_nearby_append hnew hreported⟩

theorem Exclusive.finishPass (h : Exclusive w.trace) : Exclusive (exec finishPass w).2.trace ∧
    ((exec finishPass w).1 = .ok () → nearby (exec finishPass w).2.trace = []) := by
  have hidle : Confined (fun _ e => e.isErrorCallback = false ∧ e.entersError = false) (do
      modifyConnection fun c => { c with nReadRequests := 0 }
      requeue w.pendingRequests) := by
    apply Along.bind
    · exact confined_modifyConnection fun _ => ⟨rfl, rfl, rfl, rfl⟩
    · exact fun _ => confined_requeue _ fun _ _ => ⟨rfl, rfl⟩
  have hexec : exec Connection.finishPass w = exec (do
      (do modifyConnection fun c => { c with nReadRequests := 0 }
          requeue w.pendingRequests)
      endPass) w := by
    rw [Connection.finishPass, exec_bind_ok (exec_get w), exec_bind_ok (exec_modifyConnection _ w), exec_bind,
      exec_bind, exec_bind_ok (exec_modifyConnection _ w)]
  obtain ⟨new, ht, hnew⟩ := (hidle.within w).grows
  have hqueued := h.idle hnew
  rw [← ht] at hqueued
  rw [hexec, exec_bind]
  rcases he : exec (do
    modifyConnection fun c => { c with nReadRequests := 0 }
    requeue w.pendingRequests) w with ⟨result, t⟩
  rw [he] at hqueued
  cases result with
  | error fault => exact ⟨hqueued, by simp⟩
  | ok _ =>
    exact ⟨hqueued.idle_cons rfl rfl, fun _ => rfl⟩

theorem Exclusive.connectionOnRead (h : Exclusive w.trace) (responses : List Response) :
    Exclusive (exec (connectionOnRead responses) w).2.trace ∧
      ((exec (connectionOnRead responses) w).1 = .ok () →
        nearby (exec (connectionOnRead responses) w).2.trace = []) := by
  have hbegin : exec beginPass w = (.ok (), (exec beginPass w).2) := rfl
  have hbegun : Exclusive (exec beginPass w).2.trace := h.idle_cons rfl rfl
  have hloop := hbegun.readLoop responses
  rw [Connection.connectionOnRead, exec_bind_ok hbegin]
  rcases he : exec (Connection.readLoop responses) (exec beginPass w).2 with ⟨result, t⟩
  rw [he] at hloop
  cases result with
  | error fault =>
    rw [exec_bind_error he]
    exact ⟨hloop, by simp⟩
  | ok drained =>
    rw [exec_bind_ok he]
    cases drained with
    | true => exact hloop.finishPass
    | false => exact ⟨hloop.idle_cons rfl rfl, fun _ => rfl⟩

theorem silent_reconnect (hs : w.connection.stateMachine = .live .error) (i : TickInput) :
    w.Avoids Event.isErrorCallback (exec (reconnect i) w).2 := by
  by_cases hd : w.connection.ldapDefaults = .dangling
  · rw [exec_reconnect_dangling hd]
    exact .none rfl
  · have hclosed : w.Avoids Event.isErrorCallback w.closed := by
      refine ⟨_, (List.append_assoc ..).symm, ?_⟩
      intro e he
      simp only [List.mem_append, Option.mem_toList, Option.map_eq_some_iff] at he
      rcases he with ⟨event, -, rfl⟩ | ⟨event, -, rfl⟩ <;> rfl
    have hreconnected : w.closed.Avoids Event.isErrorCallback (w.reconnected i.configure) := by
      cases i.configure with
      | none => exact .two rfl rfl rfl
      | some failure => cases failure <;> exact .two rfl rfl rfl
    rw [exec_reconnect hs hd]
    dsimp only
    split_ifs
    · exact hclosed.trans hreconnected
    · exact hclosed

theorem World.Prepares.silent (h : w.Prepares w') : w.Avoids Event.isErrorCallback w' := by
  cases h with
  | sends h => exact h.silent
  | installs t h _ h' =>
    have hinstalled : t.Avoids Event.isErrorCallback t.installed := .two rfl rfl rfl
    exact (h.silent.trans hinstalled).trans h'.silent

theorem silent_tick (i : TickInput) : w.Avoids Event.isErrorCallback (exec (Step.tick i).perform w).2 := by
  have hunbound : ∀ t : World, t.Avoids Event.isErrorCallback t.unbound := fun _ => .one rfl rfl
  have hgivesUp : ∀ {s t : World}, s.GivesUp t → s.Avoids Event.isErrorCallback t := fun hg =>
    World.Within.silent (hg.within.mono fun _ => Event.Notes.sends)
  by_cases hs : w.connection.stateMachine = .live .error
  · rw [exec_tick_reconnect hs]
    exact silent_reconnect hs i
  · cases upkeep_tick i hs with
    | kept hprepares => exact hprepares.silent
    | released t ht hg => exact (ht.silent.trans (hunbound t)).trans (hgivesUp hg)
    | twice t ht _ _ hg => exact ((ht.silent.trans (hunbound t)).trans (hunbound _)).trans (hgivesUp hg)

theorem Exclusive.step (h : Exclusive w.trace)
    (hreported : (nearby w.trace).any Event.isErrorCallback = false) (step : Step) :
    Exclusive (exec step.perform w).2.trace ∧ ((exec step.perform w).1 = .ok () →
      (nearby (exec step.perform w).2.trace).any Event.isErrorCallback = false) := by
  cases step with
  | tick i =>
    have htick := (silent_tick i).exclusive h hreported
    exact ⟨htick.1, fun _ => htick.2⟩
  | read responses =>
    obtain ⟨hexclusive, hend⟩ := h.connectionOnRead responses
    refine ⟨hexclusive, fun hok => ?_⟩
    have hnearby := hend hok
    change (nearby (exec (Connection.connectionOnRead responses) w).2.trace).any _ = false
    rw [hnearby]
    rfl
  | submit submission =>
    have hsends : Confined Event.Sends (Step.submit submission).perform :=
      Along.bind (sends_perform submission) fun _ => Along.pure
    have hsubmit := (hsends.within w).silent.exclusive h hreported
    exact ⟨hsubmit.1, fun _ => hsubmit.2⟩
  | installErrorHandler => exact ⟨h, fun _ => hreported⟩

/-- In every run, with or without an error callback, no transition into the error state is
accompanied by a call of it. -/
theorem run_neverAccompanied (config : LdapConnectionConfig) (path : Option Bytes) (steps : List Step) :
    NeverAccompanied (run config path steps).2.trace := by
  have hinit : Exclusive (World.initial config path).trace := by
    intro part hpart hreported
    rcases List.suffix_cons_iff.mp hpart with rfl | hpart
    · rfl
    · rw [List.suffix_nil.mp hpart]
      rfl
  have hrun : Exclusive (run config path steps).2.trace := performSteps_ends
    (I := fun w => Exclusive w.trace ∧ (nearby w.trace).any Event.isErrorCallback = false)
    (J := fun w => Exclusive w.trace) (C := fun _ _ => True) (fun _ hi => hi.1)
    (fun w step _ hi => by
      obtain ⟨hexclusive, hend⟩ := hi.1.step hi.2 step
      exact ⟨hexclusive, fun hok => ⟨hexclusive, hend hok⟩⟩)
    steps (eachStep_of_forall (fun _ _ _ => trivial) _) ⟨hinit, rfl⟩
  exact hrun.neverAccompanied

/-- A refused StartTLS is not reported, although there is a callback. -/
theorem startTls_unreported : ∃ w, run ⟨true, .simple⟩ none [.installErrorHandler, .tick { startTls := ⟨1, 0⟩ }] =
      (.ok (), w) ∧ w.connection.onErrorOperation = true ∧
    .transition .init .error ∈ w.trace ∧ w.trace.any Event.isErrorCallback = false := by
  refine ⟨_, rfl, rfl, List.mem_cons_self, rfl⟩

end Libdomain.Connection
