import Libdomain.Connection.Machine

/-! # Binds and the states behind them

Only a bind that is still in progress after its submission makes the machine
wait: `LDAP_SASL_BIND_IN_PROGRESS` leads to the state that the response handler
leaves. A submission that returns success sends the machine on to the detection
of the directory at once, with the response outstanding.
-/
namespace Libdomain.Connection
open Libdomain.Queue Libdomain.Program

def Event.Configures : Event → Prop
  | .configured | .configureFailed _ => True
  | _ => False

/-- The last call of `connection_configure` was successful. -/
def Configured : List Event → Prop
  | [] => False
  | .configured :: _ => True
  | .configureFailed _ :: _ => False
  | _ :: events => Configured events

def BindSent (msgid : Int) : List Event → Prop
  | [] | .configured :: _ | .configureFailed _ :: _ => False
  | .submission _ handler id _ _ :: events =>
    (handler = .connectionBindOnRead ∧ id = msgid) ∨ BindSent msgid events
  | _ :: events => BindSent msgid events

/-- `connection_bind_on_read` has processed the success of a bind sent since the last
`connection_configure`. -/
def Authenticated : List Event → Prop
  | [] | .configured :: _ | .configureFailed _ :: _ => False
  | .bindAnswered msgid code :: events => (code = ldapSuccess ∧ BindSent msgid events) ∨ Authenticated events
  | _ :: events => Authenticated events

/-- No bind submission has returned success before the connection was authenticated,
so the machine has never gone on without a response. -/
def BindsWait : List Event → Prop
  | [] => True
  | .bindReturned code :: events => (code = .success → Authenticated events) ∧ BindsWait events
  | _ :: events => BindsWait events

variable {w w' : World} {e : Event} {events new : List Event} {msgid : Int}

theorem BindSent.cons (h : BindSent msgid events) (he : ¬e.Configures) : BindSent msgid (e :: events) := by
  cases e with
  | configured => exact absurd trivial he
  | configureFailed => exact absurd trivial he
  | submission => exact .inr h
  | _ => exact h

theorem Authenticated.cons (h : Authenticated events) (he : ¬e.Configures) :
    Authenticated (e :: events) := by
  cases e with
  | configured => exact absurd trivial he
  | configureFailed => exact absurd trivial he
  | bindAnswered => exact .inr h
  | _ => exact h

theorem Authenticated.append (h : Authenticated events) (hn : ∀ e ∈ new, ¬e.Configures) :
    Authenticated (new ++ events) := by
  induction new with
  | nil => exact h
  | cons e new ih =>
    exact (ih fun e he => hn e (List.mem_cons_of_mem _ he)).cons (hn e List.mem_cons_self)

theorem configured_cons (he : ¬e.Configures) : Configured (e :: events) ↔ Configured events := by
  cases e with
  | configured => exact absurd trivial he
  | configureFailed => exact absurd trivial he
  | _ => exact Iff.rfl

theorem configured_append (hn : ∀ e ∈ new, ¬e.Configures) :
    Configured (new ++ events) ↔ Configured events := by
  induction new with
  | nil => exact Iff.rfl
  | cons e new ih =>
    exact (configured_cons (hn e List.mem_cons_self)).trans
      (ih fun e he => hn e (List.mem_cons_of_mem _ he))

theorem BindsWait.of_cons (h : BindsWait (e :: events)) : BindsWait events := by
  cases e with
  | bindReturned => exact h.2
  | _ => exact h

theorem BindsWait.of_append (h : BindsWait (new ++ events)) : BindsWait events := by
  induction new with
  | nil => exact h
  | cons e new ih => exact ih h.of_cons

/-- After a successful configuration, each bind the connection tracks has been sent
since then. -/
def BindsTracked (events : List Event) : Prop :=
  Configured events → ∀ msgid,
    (replay events).Holds (msgid, some .connectionBindOnRead) → BindSent msgid events

theorem BindsTracked.cons (h : BindsTracked events)
    (he : ∀ slot id code c, e = .pushed slot .connectionBindOnRead id code c → BindSent id events) :
    BindsTracked (e :: events) := by
  intro hc msgid hm
  by_cases hconf : e.Configures
  · cases e with
    | configured => rcases hm with hm | hm | hm <;> cases hm
    | configureFailed => exact hc.elim
    | _ => exact hconf.elim
  · apply BindSent.cons _ hconf
    rcases hm.of_apply with hm | ⟨slot, handler, id, code, c, rfl, hp⟩
    · exact h ((configured_cons hconf).mp hc) msgid hm
    · cases hp
      exact he slot msgid code c rfl

def Event.NoBindPushed (e : Event) : Prop :=
  ∀ slot id code c, e ≠ .pushed slot .connectionBindOnRead id code c

theorem BindsTracked.grows (h : BindsTracked w.trace) (grows : w.Grows w' Event.NoBindPushed) :
    BindsTracked w'.trace := by
  obtain ⟨new, ht, hnew⟩ := grows
  rw [ht]
  clear ht
  induction new with
  | nil => exact h
  | cons e new ih =>
    apply (ih fun e he => hnew e (List.mem_cons_of_mem _ he)).cons
    intro slot id code c he
    exact absurd he (hnew e List.mem_cons_self slot id code c)

theorem BindsTracked.announced (h : BindsTracked w.trace) (handler : OperationCallback) (msgid : Int) :
    BindsTracked (w.announced handler msgid).trace := by
  apply BindsTracked.cons (h.cons _)
  · rintro _ _ _ _ ⟨⟩
  · rintro _ _ _ _ ⟨⟩

theorem BindsTracked.tracked (h : BindsTracked w.trace) (handler : OperationCallback) (msgid : Int) :
    BindsTracked (w.tracked handler msgid).trace := by
  apply (h.announced handler msgid).cons
  rintro slot id code c he
  cases he
  exact .inl ⟨rfl, rfl⟩

theorem BindsTracked.calm (h : BindsTracked w.trace) (step : Calm w w') : BindsTracked w'.trace := by
  cases step with
  | event e plain =>
    apply h.cons
    rintro _ _ _ _ rfl
    exact plain.elim
  | «local» => exact h
  | bindInvoked => exact h.cons (by rintro _ _ _ _ ⟨⟩)
  | errorCallback => exact h.cons (by rintro _ _ _ _ ⟨⟩)
  | schema => exact h
  | track handler msgid _ =>
    rw [exec_track]
    split_ifs
    · exact h.tracked handler msgid
    · exact h.announced handler msgid
  | search callback userData msgid =>
    have hissued : BindsTracked (w.issued callback userData msgid).trace :=
      h.cons (by rintro _ _ _ _ ⟨⟩)
    rw [exec_trackSearch]
    dsimp only
    split_ifs
    · apply BindsTracked.cons (BindsTracked.cons (hissued.tracked _ _) _)
      · rintro _ _ _ _ ⟨⟩
      · rintro _ _ _ _ ⟨⟩
    · exact hissued.tracked _ _
    · exact hissued.announced _ _

theorem BindsTracked.turn (h : BindsTracked w.trace) (turn : Turn w w') : BindsTracked w'.trace := by
  cases turn with
  | inner step =>
    cases step with
    | calm step => exact h.calm step
    | setState state _ =>
      rw [exec_csmSetState]
      cases w.connection.stateMachine with
      | live current => exact h.cons (by rintro _ _ _ _ ⟨⟩)
      | null => exact h
      | dangling => exact h
    | bindAnswered => exact h.cons (by rintro _ _ _ _ ⟨⟩)
    | tlsInplace => exact h
    | directory => exact h
    | running => exact h
  | lifecycle step =>
    cases step with
    | configure failure _ _ _ =>
      cases failure with
      | none => exact h.cons (by rintro _ _ _ _ ⟨⟩)
      | some failure =>
        change BindsTracked (.configureFailed failure :: (failedConfiguration w failure).trace)
        rw [trace_failedConfiguration]
        exact h.cons (by rintro _ _ _ _ ⟨⟩)
    | reset => exact h.cons (by rintro _ _ _ _ ⟨⟩)
    | _ => exact h
  | aside _ grows =>
    apply h.grows (grows.mono _)
    rintro e he _ _ _ _ rfl
    exact he.elim

def LdapConnectionState.Bound : LdapConnectionState → Prop
  | .bound | .detectDirectory | .requestSchema | .checkSchema | .run => True
  | _ => False

structure Bindings (w : World) : Prop where
  tracked : BindsTracked w.trace
  configured : w.connection.ldapDefaults = .live () → Configured w.trace
  answered : ∀ msgid code events, w.trace = .bindAnswered msgid code :: events →
    w.connection.ldapDefaults = .live () → BindSent msgid events
  bound : ∀ state, w.connection.stateMachine = .live state → state.Bound → Authenticated w.trace

def Event.Unrelated (e : Event) : Prop :=
  ¬e.Configures ∧ ∀ msgid code, e ≠ .bindAnswered msgid code

theorem Bindings.grows (h : Bindings w) (grows : w.Grows w' Event.Unrelated)
    (tracked : BindsTracked w'.trace)
    (hdefaults : w'.connection.ldapDefaults = .live () → w.connection.ldapDefaults = .live ())
    (hstate : ∀ state, w'.connection.stateMachine = .live state → state.Bound →
      Authenticated w.trace) : Bindings w' := by
  obtain ⟨new, ht, hnew⟩ := grows
  have hconf : ∀ e ∈ new, ¬e.Configures := fun e he => (hnew e he).1
  refine ⟨tracked, ?_, ?_, ?_⟩
  · intro hd
    rw [ht]
    exact (configured_append hconf).mpr (h.configured (hdefaults hd))
  · intro msgid code events hevents hd
    cases new with
    | nil => exact h.answered msgid code events (ht.symm.trans hevents) (hdefaults hd)
    | cons e new =>
      rw [ht] at hevents
      exact absurd (List.cons.inj hevents).1 ((hnew e List.mem_cons_self).2 msgid code)
  · intro state hs hb
    rw [ht]
    exact (hstate state hs hb).append hconf

theorem Bindings.same (h : Bindings w) (same : w.SameMachine w') (tracked : BindsTracked w'.trace)
    (grows : w.Grows w' Event.Unrelated) : Bindings w' := by
  apply h.grows grows tracked
  · rw [same.ldapDefaults]
    exact id
  · rw [same.stateMachine]
    exact h.bound

theorem stateAfterBind_bound {code : OperationReturnCode} (h : (stateAfterBind code).Bound) :
    code = .success := by
  cases code <;> first | rfl | exact h.elim

/-- Unless a bind returned success early, the machine gets past the bind only with the
answer at hand. -/
theorem Bindings.enters (h : Bindings w) (hwait : BindsWait w.trace) {state : LdapConnectionState}
    (enters : Enters w state) (hb : state.Bound) : Authenticated w.trace := by
  cases enters with
  | bind code live returned =>
    obtain ⟨events, ht⟩ : ∃ events, w.trace = .bindReturned code :: events :=
      ⟨w.trace.tail, (List.cons_head?_tail returned).symm⟩
    rw [ht] at hwait ⊢
    exact (hwait.1 (stateAfterBind_bound hb)).cons id
  | bound msgid answered defaults =>
    obtain ⟨events, ht⟩ : ∃ events, w.trace = .bindAnswered msgid ldapSuccess :: events :=
      ⟨w.trace.tail, (List.cons_head?_tail answered).symm⟩
    rw [ht]
    exact .inl ⟨rfl, h.answered msgid ldapSuccess events ht defaults⟩
  | detect live => exact h.bound _ live trivial
  | detecting live => exact h.bound _ live trivial
  | detected live _ => exact h.bound _ live trivial
  | requesting live => exact h.bound _ live trivial
  | requested live => exact h.bound _ live trivial
  | checked live _ => exact h.bound _ live trivial
  | startTls => exact hb.elim
  | plain => exact hb.elim
  | secured => exact hb.elim
  | error => exact hb.elim

theorem Bindings.bindSent (h : Bindings w) (hw : Simulated w)
    (dispatching : w.Dispatching .connectionBindOnRead) (hd : w.connection.ldapDefaults = .live ()) :
    BindSent w.connection.msgid w.trace := by
  obtain ⟨slot, htop, hhandler, hmsgid⟩ := dispatching
  apply h.tracked (h.configured hd)
  right; right
  rw [Tracks.top_eq hw htop, LdapRequest.payload, hhandler, hmsgid]

theorem Bindings.inner (h : Bindings w) (hw : Simulated w) (hwait : BindsWait w.trace)
    (step : Inner w w') (tracked : BindsTracked w'.trace) : Bindings w' := by
  cases step with
  | calm step =>
    apply h.same step.agrees.sameMachine tracked
    apply step.grows.mono
    intro e he
    constructor
    · intro hc
      cases e <;> trivial
    · rintro msgid code rfl
      exact he.elim
  | setState state enters =>
    rw [exec_csmSetState] at tracked ⊢
    cases hs : w.connection.stateMachine with
    | live current =>
      rw [hs] at tracked
      refine h.grows (.one rfl ⟨id, by rintro _ _ ⟨⟩⟩) tracked id ?_
      intro state' hs' hb
      cases hs'
      exact h.enters hwait enters hb
    | null => exact h
    | dangling => exact h
  | bindAnswered code dispatching =>
    refine ⟨tracked, h.configured, ?_, ?_⟩
    · intro msgid code' events hevents hd
      cases hevents
      exact h.bindSent hw dispatching hd
    · intro state hs hb
      exact .inr (h.bound state hs hb)
  | tlsInplace => exact ⟨h.tracked, h.configured, h.answered, h.bound⟩
  | directory => exact ⟨h.tracked, h.configured, h.answered, h.bound⟩
  | running => exact ⟨h.tracked, h.configured, h.answered, h.bound⟩

/-- The connection is only reconfigured once its defaults are gone and the machine is
in the error state. -/
theorem Bindings.lifecycle (h : Bindings w) (step : Lifecycle w w') (tracked : BindsTracked w'.trace) :
    Bindings w' := by
  cases step with
  | closed =>
    exact ⟨h.tracked, by rintro ⟨⟩, by rintro _ _ _ _ ⟨⟩, h.bound⟩
  | configure failure state _ closed =>
    cases failure with
    | none =>
      refine ⟨tracked, fun _ => trivial, by rintro _ _ _ ⟨⟩, ?_⟩
      rintro state ⟨⟩ hb
      exact hb.elim
    | some failure =>
      have hdefaults : (failedConfiguration w failure).connection.ldapDefaults ≠ .live () := by
        cases failure <;> first | exact closed ▸ (by rintro ⟨⟩) | rintro ⟨⟩
      refine ⟨tracked, fun hd => absurd hd hdefaults, ?_, ?_⟩
      · intro _ _ _ _ hd
        exact absurd hd hdefaults
      · intro state' hs hb
        cases failure with
        | tallocNew =>
          cases state.symm.trans hs
          exact hb.elim
        | ldapInitialize =>
          cases state.symm.trans hs
          exact hb.elim
        | _ => cases hs
  | attempt => exact ⟨h.tracked, h.configured, h.answered, h.bound⟩
  | reset =>
    refine h.grows (.one rfl ⟨id, by rintro _ _ ⟨⟩⟩) tracked id ?_
    intro state hs hb
    change w.connection.stateMachine.assign .init = _ at hs
    cases hm : w.connection.stateMachine <;> rw [hm] at hs <;> cases hs
    exact hb.elim
  | errorHandler => exact ⟨h.tracked, h.configured, h.answered, h.bound⟩

theorem Turn.bindings (turn : Turn w w') (hw : Simulated w) (hwait : BindsWait w.trace)
    (h : Bindings w) : Bindings w' := by
  have tracked := h.tracked.turn turn
  cases turn with
  | inner step => exact h.inner hw hwait step tracked
  | lifecycle step => exact h.lifecycle step tracked
  | aside same grows =>
    apply h.same same tracked
    apply grows.mono
    intro e he
    constructor
    · intro hc
      cases e <;> trivial
    · rintro msgid code rfl
      exact he.elim

/-- In a run in which no bind submission returned success before the connection was
authenticated, the machine runs only once the success of a bind sent since the last
`connection_configure` has been processed. -/
theorem run_authenticated (config : LdapConnectionConfig) (path : Option Bytes) (steps : List Step)
    (hwait : BindsWait (run config path steps).2.trace)
    (hrun : (run config path steps).2.connection.stateMachine = .live .run) :
    Authenticated (run config path steps).2.trace := by
  have hinit : Bindings (.initial config path) := by
    refine ⟨?_, fun _ => trivial, by rintro _ _ _ ⟨⟩, ?_⟩
    · rintro - msgid (hm | hm | hm) <;> cases hm
    · rintro state ⟨⟩ hb
      exact hb.elim
  have hinv := (run_invariant_while (C := BindsWait) (fun _ _ h => h.of_append) hinit
    (fun s t hs hst hwait' hi => ?_) steps hwait).2
  · exact hinv.bound _ hrun trivial
  · obtain ⟨new, ht, -⟩ := hst.grows hs
    exact (hst.turn hs).bindings hs (ht ▸ hwait').of_append hi

def Event.isBindReturned (code : OperationReturnCode) : Event → Bool
  | .bindReturned code' => code' = code
  | _ => false

def Event.isBindAnswered : Event → Bool
  | .bindAnswered .. => true
  | _ => false

theorem bindsWait_of_all (h : events.all (fun e => !e.isBindReturned .success) = true) :
    BindsWait events := by
  induction events with
  | nil => trivial
  | cons e events ih =>
    rw [List.all_cons, Bool.and_eq_true] at h
    cases e with
    | bindReturned code =>
      refine ⟨?_, ih h.2⟩
      rintro rfl
      exact absurd h.1 (by decide)
    | _ => exact ih h.2

theorem not_authenticated_of_all (h : events.all (fun e => !e.isBindAnswered) = true) :
    ¬Authenticated events := by
  induction events with
  | nil => exact id
  | cons e events ih =>
    rw [List.all_cons, Bool.and_eq_true] at h
    cases e with
    | bindAnswered => exact absurd h.1 Bool.false_ne_true
    | configured => exact id
    | configureFailed => exact id
    | _ => exact ih h.2

def rootDse : LdapMessage := ⟨some [], [(ascii "vendorName", [])]⟩

/-- An interactive bind, answered before the machine goes on. -/
def answeredSteps : List Step :=
  [.tick {}, .tick { bind := ⟨ldapSaslBindInProgress, 1⟩ },
    .read [{ rc := ldapResBind, msgid := 1, bind := ⟨ldapSuccess, 1⟩ }],
    .tick {}, .tick { directory := ⟨ldapSuccess, 2⟩ },
    .read [{ rc := ldapResSearchEntry, msgid := 2, chain := [rootDse] }],
    .tick {}, .tick {}, .tick {}]

section Runs

-- Only the kernel is to evaluate the runs.
attribute [local irreducible] run

theorem run_authenticated_answered :
    (run ⟨false, .interactive⟩ none answeredSteps).2.connection.stateMachine = .live .run ∧
      Authenticated (run ⟨false, .interactive⟩ none answeredSteps).2.trace :=
  have hrun : (run ⟨false, .interactive⟩ none answeredSteps).2.connection.stateMachine = .live .run := by
    decide +kernel
  ⟨hrun, run_authenticated ⟨false, .interactive⟩ none answeredSteps
    (bindsWait_of_all (by decide +kernel)) hrun⟩

/-- A simple bind without an answer: the response to the root DSE search arrives, the
one to the bind does not. -/
def unansweredSteps : List Step :=
  [.tick {}, .tick { bind := ⟨ldapSuccess, 1⟩ }, .tick { directory := ⟨ldapSuccess, 2⟩ },
    .read [{ rc := ldapResUnsolicited }, { rc := ldapResSearchEntry, msgid := 2, chain := [rootDse] }],
    .tick {}, .tick {}, .tick {}]

/-- The machine runs although the bind has not been answered. -/
theorem run_unanswered :
    (run ⟨false, .simple⟩ none unansweredSteps).2.connection.stateMachine = .live .run ∧
      ¬Authenticated (run ⟨false, .simple⟩ none unansweredSteps).2.trace :=
  ⟨by decide +kernel, not_authenticated_of_all (by decide +kernel)⟩

end Runs

end Libdomain.Connection
