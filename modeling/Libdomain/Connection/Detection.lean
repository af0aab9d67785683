import Libdomain.Connection.Waiting

/-! # Detection before the schema

The handler of the root DSE search writes the type of the directory, a tick tests it, and a
reconfiguration resets it together with the machine and the queue. Whatever the other
handlers do to the machine, the type is always one that a response of the current
configuration stands for, and the schema is not asked for without it.
-/
namespace Libdomain.Connection
open Libdomain.Queue Libdomain.Program Relation

def Response.detectedType (r : Response) : LdapDirectoryType :=
  let type := directoryOfChain .uninitialized r.chain
  if type = .uninitialized then .unknown else type

def Event.Detects (type : LdapDirectoryType) : Event → Prop
  | .dispatch _ request r _ _ =>
    request.onReadOperation = some .directoryParseResult ∧
      (r.rc = ldapResSearchEntry ∨ r.rc = ldapResSearchResult) ∧ r.detectedType = type
  | _ => False

/-- The type has been detected since the connection was last configured. -/
def Detected (type : LdapDirectoryType) : List Event → Prop
  | [] => False
  | .configured :: _ => False
  | e :: events => e.Detects type ∨ Detected type events

def loadingStates : List LdapConnectionState := [.requestSchema, .checkSchema, .run]

variable {w w' : World} {type : LdapDirectoryType} {events : List Event}

/-- Either a marker decides the type, or the chain leaves it as it was. -/
theorem directoryOfChain_cases (a b : LdapDirectoryType) (chain : List LdapMessage) :
    directoryOfChain a chain = directoryOfChain b chain ∨
      (directoryOfChain a chain = a ∧ directoryOfChain b chain = b) := by
  induction chain generalizing a b with
  | nil => exact .inr ⟨rfl, rfl⟩
  | cons message rest ih =>
    have hstep : ∀ current, directoryOfChain current (message :: rest) = directoryOfChain
        ((message.attributes.findSome? fun a => directoryProcessAttribute a.1).getD current) rest :=
      fun _ => rfl
    rw [hstep, hstep]
    cases message.attributes.findSome? fun a => directoryProcessAttribute a.1 with
    | none => exact ih a b
    | some _ => exact .inl rfl

theorem directoryType_cases (r : Response) (c : LdapConnectionCtx) :
    r.directoryType c = r.detectedType ∨
      (c.directoryType ≠ .uninitialized ∧ r.directoryType c = c.directoryType) := by
  rw [Response.directoryType, Response.detectedType]
  rcases directoryOfChain_cases c.directoryType .uninitialized r.chain with heq | ⟨hkept, hnone⟩
  · rw [heq]
    exact .inl rfl
  · rw [hkept, hnone]
    by_cases hc : c.directoryType = .uninitialized
    · rw [hc]
      exact .inl rfl
    · rw [if_neg hc]
      exact .inr ⟨hc, rfl⟩

theorem Detected.cons {e : Event} (he : e ≠ .configured) (h : Detected type events) :
    Detected type (e :: events) := by
  cases e with
  | configured => exact absurd rfl he
  | _ => exact .inr h

theorem Detected.append {new : List Event} (hnew : ∀ e ∈ new, e ≠ .configured) (h : Detected type events) :
    Detected type (new ++ events) := by
  induction new with
  | nil => exact h
  | cons e new ih =>
    exact (ih fun e he => hnew e (List.mem_cons_of_mem _ he)).cons (hnew e List.mem_cons_self)

theorem World.Grows.detected (h : w.Grows w' (· ≠ .configured)) (hd : Detected type w.trace) :
    Detected type w'.trace := by
  obtain ⟨new, ht, hnew⟩ := h
  rw [ht]
  exact hd.append hnew

theorem Event.Straight.ne_configured {e : Event} (h : e.Straight) : e ≠ .configured := by
  rintro rfl
  exact h

theorem Detected.exists_dispatch (h : Detected type events) : ∃ new slot request r pending c old,
    events = new ++ .dispatch slot request r pending c :: old ∧ .configured ∉ new ∧
      (Event.dispatch slot request r pending c).Detects type := by
  induction events with
  | nil => exact h.elim
  | cons e events ih =>
    have hlater : e ≠ .configured → Detected type events → ∃ new slot request r pending c old,
        e :: events = new ++ .dispatch slot request r pending c :: old ∧ .configured ∉ new ∧
          (Event.dispatch slot request r pending c).Detects type := by
      intro he hd
      obtain ⟨new, slot, request, r, pending, c, old, rfl, hnew, hdetects⟩ := ih hd
      refine ⟨e :: new, slot, request, r, pending, c, old, rfl, ?_, hdetects⟩
      simpa using ⟨he.symm, hnew⟩
    cases e with
    | configured => exact h.elim
    | dispatch slot request r pending c =>
      rcases h with hdetects | hd
      · exact ⟨[], slot, request, r, pending, c, events, rfl, by simp, hdetects⟩
      · exact hlater (by simp) hd
    | _ => exact hlater (by simp) (h.resolve_left id)

/-- What a stride does about the type of the directory. -/
inductive Detecting (w w' : World) : Prop
  | kept (type : w'.connection.directoryType = w.connection.directoryType)
  | detected (slot : ℕ) (request : LdapRequest) (r : Response)
      (handler : request.onReadOperation = some .directoryParseResult)
      (answer : r.rc = ldapResSearchEntry ∨ r.rc = ldapResSearchResult)
      (type : w'.connection.directoryType = r.directoryType w.connection)
      (trace : w'.trace = .released :: (w.dispatched slot request r).trace)

theorem directoryType_release {α : Type} (p : Action α) (w : World) :
    (exec (p >>= fun _ => releaseTop) w).2.connection.directoryType =
      (exec p w).2.connection.directoryType := by
  rw [exec_bind]
  rcases exec p w with ⟨result, t⟩
  cases result <;> rfl

theorem detecting_failRequest (request : LdapRequest) (w : World) : Detecting w (exec (failRequest request) w).2 := by
  have hrecorded : exec (failRequest request) w =
      exec (connectionOptionalTransitionOnError >>= fun _ => releaseTop) (w.record (.resultError request)) := by
    rw [failRequest, exec_bind_ok (exec_emit _ w)]
  have hupholds := upholds_along (S := fun _ => True) upholds_connectionOptionalTransitionOnError
    (w.record (.resultError request))
  apply Detecting.kept
  rw [hrecorded, directoryType_release, hupholds.directoryType]
  rfl

theorem detecting_serve {slot : ℕ} {request : LdapRequest} {r : Response}
    (settles : w.connection.Settles request r) :
    Detecting w (exec (dispatchRequest slot request r) w).2 := by
  cases hh : request.onReadOperation with
  | none =>
    rw [LdapConnectionCtx.Settles, hh] at settles
    exact settles.elim
  | some handler =>
    rw [exec_dispatchRequest hh]
    by_cases hdirectory : handler = .directoryParseResult
    · subst hdirectory
      rw [LdapConnectionCtx.Settles, hh] at settles
      have hparse : exec (directoryParseResult r) (w.dispatched slot request r) = (.ok .success,
          { w.dispatched slot request r with connection := { (w.dispatched slot request r).connection with
              directoryType := r.directoryType w.connection } }) := by
        rw [directoryParseResult, if_pos settles]
        rfl
      rw [OperationCallback.handle, exec_bind_ok hparse]
      exact .detected slot request r hh settles rfl rfl
    · apply Detecting.kept
      rw [directoryType_release,
        (upholds_along (upholds_handle hdirectory fun s _ => permitted_true s) _).directoryType]
      rfl

theorem ReadStride.detecting (h : ReadStride w w') (hw : Simulated w) : Detecting w w' := by
  cases h with
  | reply h =>
    cases h with
    | issue h => exact .kept h.upholds.directoryType
    | callback => exact .kept rfl
    | write => exact .kept rfl
    | remove index => exact .kept (upholds_removed (S := fun _ => True) w index).directoryType
  | pass h =>
    cases h with
    | begin => exact .kept rfl
    | abandon => exact .kept rfl
    | finish _ _ _ drained =>
      rw [exec_finishPass w (Tracks.finished hw drained).1]
      obtain ⟨queue, readRequests, he⟩ := LdapConnectionCtx.restored_eq
        { w.connection with nReadRequests := 0 } 0 w.pendingRequests
      apply Detecting.kept
      rw [World.finished, LdapConnectionCtx.finished, he]
  | pop => exact .kept rfl
  | defer slot top _ =>
    rw [exec_deferRequest, if_pos (hw.deferred top).1]
    exact .kept rfl
  | fail slot _ _ => exact detecting_failRequest _ w
  | serve slot r _ _ settles => exact detecting_serve settles
  | dispatch => exact .kept rfl
  | release => exact .kept rfl

theorem Stride.detecting (h : Stride w w') (hw : Simulated w) : Detecting w w' := by
  cases h with
  | tick h =>
    cases h with
    | issue h => exact .kept h.upholds.directoryType
    | enter state _ =>
      apply Detecting.kept
      rw [exec_csmSetState]
      cases w.connection.stateMachine <;> rfl
    | running => exact .kept rfl
  | read h => exact h.detecting hw
  | errorHandler => exact .kept rfl

/-- A stride configures nothing. -/
theorem Stride.unconfigured (h : Stride w w') (hw : Simulated w) : w.Grows w' (· ≠ .configured) := by
  have hstraight : ∀ {s t : World}, s.Straight t → s.Grows t (· ≠ .configured) :=
    fun h => h.grows.mono fun _ he => he.ne_configured
  have hturned : ∀ {s t : World} {state}, s.Turned t state → s.Grows t (· ≠ .configured) := by
    intro s t state h
    rcases h.passes with ⟨source, hpasses⟩ | hst
    · obtain ⟨new, old, ht, hnew, hold⟩ := hpasses.trace
      refine ⟨new ++ .transition source state :: old, by simp [ht], ?_⟩
      intro e he
      rcases List.mem_append.mp he with he | he
      · exact (hnew e he).ne_configured
      rcases List.mem_cons.mp he with rfl | he
      · simp
      · exact (hold e he).ne_configured
    · exact hstraight hst
  apply h.induct hw
  · exact fun t hst => hstraight hst
  · exact fun state _ => hturned (turned_enter state w)
  · exact fun _ => .none rfl
  · intro t hsteers
    rcases hsteers.turns with hst | ⟨state, -, turned⟩
    · exact hstraight hst
    · exact hturned turned

theorem Detecting.ne_uninitialized (h : Detecting w w') (hw : w.connection.directoryType ≠ .uninitialized) :
    w'.connection.directoryType ≠ .uninitialized := by
  cases h with
  | kept type => rwa [type]
  | detected slot request r _ _ type =>
    rw [type, Response.directoryType]
    split_ifs with hr
    · decide
    · exact hr

/-- A tick enters a state in which the schema is loaded from another such state, or with a
type at hand. -/
theorem TickEnters.loads {state : LdapConnectionState} (h : TickEnters w state) (hstate : state ∈ loadingStates) :
    (∃ source ∈ loadingStates, w.connection.stateMachine = .live source) ∨
      w.connection.directoryType ≠ .uninitialized := by
  cases h with
  | detected _ type => exact .inr type
  | requesting live => exact .inl ⟨_, by decide, live⟩
  | requested live => exact .inl ⟨_, by decide, live⟩
  | checked live => exact .inl ⟨_, by decide, live⟩
  | bind code => cases code <;> exact absurd hstate (by decide)
  | _ => exact absurd hstate (by decide)

theorem Stride.loads (h : Stride w w') (hw : Simulated w) {state : LdapConnectionState}
    (hstate : state ∈ loadingStates) (hs : w'.connection.stateMachine = .live state) :
    (∃ source ∈ loadingStates, w.connection.stateMachine = .live source) ∨
      w.connection.directoryType ≠ .uninitialized := by
  revert hs
  apply h.induct (Q := fun t => t.connection.stateMachine = .live state →
    (∃ source ∈ loadingStates, w.connection.stateMachine = .live source) ∨
      w.connection.directoryType ≠ .uninitialized) hw
  · exact fun t hst ht => .inl ⟨state, hstate, hst.stateMachine.symm.trans ht⟩
  · intro target enters ht
    rw [exec_csmSetState] at ht
    cases hmachine : w.connection.stateMachine with
    | live current =>
      rw [hmachine] at ht
      cases ht
      exact hmachine ▸ enters.loads hstate
    | null =>
      rw [hmachine] at ht
      cases hmachine.symm.trans ht
    | dangling =>
      rw [hmachine] at ht
      cases hmachine.symm.trans ht
  · exact fun live _ => .inl ⟨_, by decide, live⟩
  · intro t hsteers ht
    rcases hsteers.turns with hst | ⟨target, htarget, turned⟩
    · exact .inl ⟨state, hstate, hst.stateMachine.symm.trans ht⟩
    rcases turned.passes with ⟨source, hpasses⟩ | hst
    · cases hpasses.after.symm.trans ht
      have hnever : ∀ target ∈ [LdapConnectionState.transportReady, .bound, .error], target ∉ loadingStates := by
        decide
      exact absurd hstate (hnever state htarget)
    · exact .inl ⟨state, hstate, hst.stateMachine.symm.trans ht⟩

/-- A known type has been detected, and the schema is loaded with a known type only. -/
structure DetectsFirst (w : World) : Prop where
  detected : w.connection.directoryType ≠ .uninitialized → Detected w.connection.directoryType w.trace
  loading : ∀ state ∈ loadingStates, w.connection.stateMachine = .live state →
    w.connection.directoryType ≠ .uninitialized

theorem Stride.detectsFirst (h : Stride w w') (hw : Simulated w) (hi : DetectsFirst w) : DetectsFirst w' := by
  have hgrows := h.unconfigured hw
  have hdetecting := h.detecting hw
  refine ⟨fun htype => ?_, fun state hstate hs => ?_⟩
  · cases hdetecting with
    | kept type =>
      rw [type] at htype ⊢
      exact hgrows.detected (hi.detected htype)
    | detected slot request r handler answer type trace =>
      rcases directoryType_cases r w.connection with hown | ⟨hknown, hkept⟩
      · rw [trace, type, hown]
        exact .inr (.inl ⟨handler, answer, rfl⟩)
      · rw [type, hkept]
        exact hgrows.detected (hi.detected hknown)
  · apply hdetecting.ne_uninitialized
    rcases h.loads hw hstate hs with ⟨source, hsource, hlive⟩ | htype
    · exact hi.loading source hsource hlive
    · exact htype

theorem directoryType_reconnected (w : World) (failure : Option ConfigureFailure) :
    (w.reconnected failure).connection.directoryType = .uninitialized ∨
      (failure ≠ none ∧ (w.reconnected failure).connection.directoryType = w.connection.directoryType) := by
  cases failure with
  | none => exact .inl rfl
  | some failure =>
    cases failure with
    | eventBase => exact .inl rfl
    | _ => exact .inr ⟨by simp, rfl⟩

theorem DetectsFirst.reconnect (h : DetectsFirst w) (hs : w.connection.stateMachine = .live .error)
    (i : TickInput) : DetectsFirst (exec (Connection.reconnect i) w).2 := by
  refine ⟨?_, fun state hstate hlive => ?_⟩
  · have hclosed : w.Grows w.closed (· ≠ .configured) := (grows_closed w).mono fun _ he => he.straight.ne_configured
    by_cases hd : w.connection.ldapDefaults = .dangling
    · rw [exec_reconnect_dangling hd]
      exact h.detected
    rw [exec_reconnect hs hd]
    dsimp only
    split_ifs with hn
    · intro htype
      rcases directoryType_reconnected w i.configure with hreset | ⟨hfailed, hkept⟩
      · exact absurd hreset htype
      · obtain ⟨failure, hfailure⟩ := Option.ne_none_iff_exists'.mp hfailed
        rw [hkept] at htype ⊢
        have htrace : (w.reconnected i.configure).trace =
            .transition .error .init :: .configureFailed failure :: w.closed.trace := by
          rw [hfailure, ← trace_failedConfiguration w.closed failure]
          rfl
        rw [htrace]
        exact .inr (.inr (hclosed.detected (h.detected htype)))
    · exact fun htype => hclosed.detected (h.detected htype)
  · rcases live_reconnect hs i hlive with rfl | rfl <;> exact absurd hstate (by decide)

/-- In every state a run can be in, the schema is loaded or in use only with the type that a
response to the root DSE search stands for, processed since the connection was last
configured. -/
theorem run_detected (config : LdapConnectionConfig) (path : Option Bytes) (steps : List Step)
    (state : LdapConnectionState) (hstate : state ∈ loadingStates)
    (hs : (run config path steps).2.connection.stateMachine = .live state) :
    (run config path steps).2.connection.directoryType ≠ .uninitialized ∧
      ∃ new slot request r pending c old,
        (run config path steps).2.trace = new ++ .dispatch slot request r pending c :: old ∧
          .configured ∉ new ∧ request.onReadOperation = some .directoryParseResult ∧
          (r.rc = ldapResSearchEntry ∨ r.rc = ldapResSearchResult) ∧
          r.detectedType = (run config path steps).2.connection.directoryType := by
  have hinit : DetectsFirst (.initial config path) := by
    refine ⟨fun h => absurd rfl h, ?_⟩
    rintro state hstate ⟨⟩
    exact absurd hstate (by decide)
  have hinvariant : DetectsFirst (run config path steps).2 :=
    (steps_invariant (C := fun _ _ => True) (fun _ _ hs hst hi => hst.detectsFirst hs hi)
      (fun _ i _ hstate _ _ hi => hi.reconnect hstate i) steps (simulated_initial config path) rfl
      (eachStep_of_forall (fun _ _ _ => trivial) _) hinit).2
  have htype := hinvariant.loading state hstate hs
  exact ⟨htype, (hinvariant.detected htype).exists_dispatch⟩

section Runs

-- Only the kernel is to evaluate the runs.
attribute [local irreducible] run

/-- An OpenLDAP directory is detected, the search for its schema cannot be sent, and the
connection is set up anew, this time to an Active Directory. -/
def redetectedSteps : List Step :=
  [.tick {}, .tick { bind := ⟨ldapSuccess, 1⟩ }, .tick { directory := ⟨ldapSuccess, 2⟩ },
    .read [{ rc := ldapResUnsolicited },
      { rc := ldapResSearchEntry, msgid := 2, chain := [⟨some [], [(ascii "objectClass", [])]⟩] }],
    .tick {}, .tick { firstSearch := ⟨ldapLocalError, 0⟩ }, .tick {},
    .tick {}, .tick { bind := ⟨ldapSuccess, 1⟩ }, .tick { directory := ⟨ldapSuccess, 2⟩ },
    .read [{ rc := ldapResUnsolicited },
      { rc := ldapResSearchEntry, msgid := 2, chain := [⟨some [], [(ascii "isGlobalCatalogReady", [])]⟩] }],
    .tick {}]

theorem run_detected_redetected :
    (run ⟨false, .simple⟩ none redetectedSteps).2.connection.stateMachine = .live .requestSchema ∧
      (run ⟨false, .simple⟩ none redetectedSteps).2.connection.directoryType = .activeDirectory ∧
      (run ⟨false, .simple⟩ none redetectedSteps).2.connection.directoryType ≠ .uninitialized ∧
      ∃ new slot request r pending c old,
        (run ⟨false, .simple⟩ none redetectedSteps).2.trace = new ++ .dispatch slot request r pending c :: old ∧
          .configured ∉ new ∧ request.onReadOperation = some .directoryParseResult ∧
          (r.rc = ldapResSearchEntry ∨ r.rc = ldapResSearchResult) ∧
          r.detectedType = (run ⟨false, .simple⟩ none redetectedSteps).2.connection.directoryType :=
  have hs : (run ⟨false, .simple⟩ none redetectedSteps).2.connection.stateMachine = .live .requestSchema := by
    decide +kernel
  ⟨hs, by decide +kernel, run_detected ⟨false, .simple⟩ none redetectedSteps .requestSchema (by decide) hs⟩

end Runs

end Libdomain.Connection
