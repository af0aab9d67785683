import Libdomain.Connection.Faults
import Libdomain.Connection.Stages

/-! # The default driver

`ld_install_default_handlers` installs a timer that ticks the state machine. The
timer deletes itself when it finds the machine running or failed, although the
branch of the machine that reconnects is run by nothing else.
-/
namespace Libdomain.Connection
open Libdomain.Queue Libdomain.Program Relation

/-- `connection_update`; the result tells whether the timer has deleted itself. -/
def connectionUpdate (i : TickInput) : Action Bool := do
  let _ ← csmNextState i
  let state ← dereference (← get).connection.stateMachine
  return state = .run ∨ state = .error

inductive DefaultStep
  | timer (input : TickInput)
  | read (responses : List Response)

/-- The event loop; the flag tells whether the timer is registered. -/
def drive : List DefaultStep → Bool → Action Bool
  | [], registered => return registered
  | .timer i :: rest, registered => do
    if registered then
      let deleted ← connectionUpdate i
      drive rest (!deleted)
    else drive rest false
  | .read responses :: rest, registered => do
    connectionOnRead responses
    drive rest registered

def LdapConnectionCtx.HandlersReady (c : LdapConnectionCtx) (descriptor : Option Int) : Prop :=
  c.handlersInstalled = true ∨ ∃ fd, descriptor = some fd ∧ 0 ≤ fd

def TickInput.Binds (i : TickInput) (c : LdapConnectionCtx) : Prop :=
  i.bind.rc = ldapXConnecting ∨ i.bind.rc ∈ c.bindType.accepts ∧ c.HandlersReady i.descriptor

def LdapConnectionCtx.SearchRoom (c : LdapConnectionCtx) (n : ℕ) : Prop :=
  c.nSearchRequests + n < maxRequests

def TickInput.SearchesDefinitions (i : TickInput) (c : LdapConnectionCtx) : Prop :=
  i.firstSearch.rc = ldapSuccess ∧ i.secondSearch.rc = ldapSuccess ∧ c.SearchRoom 2

def TickInput.LoadsSchema (i : TickInput) (w : World) : Prop :=
  match w.connection.directoryType, w.schemaEntryPath with
  | .openldap, _ => i.SearchesDefinitions w.connection
  | .activeDirectory, none => i.firstSearch.rc = ldapSuccess ∧ w.connection.SearchRoom 1
  | .activeDirectory, some _ => i.SearchesDefinitions w.connection
  | .freeIpa, _ => False
  | _, _ => True

/-- What the tick submits in the state of the machine is accepted. -/
def TickInput.Succeeds (i : TickInput) (w : World) : Prop :=
  match w.connection.stateMachine with
  | .live .init => w.connection.config.useStartTls = true →
      i.startTls.rc = ldapSuccess ∧ w.connection.HandlersReady i.descriptor
  | .live .transportReady => i.Binds w.connection
  | .live .detectDirectory => w.connection.directoryType = .uninitialized →
      i.directory.rc = ldapSuccess
  | .live .requestSchema => i.LoadsSchema w
  | _ => True

variable {w w' : World} {P : World → Prop}

abbrev Returns {α : Type} (P : World → Prop) (p : Action α) (Q : α → World → Prop) : Prop :=
  Follows (fun _ _ => True) P p Q

theorem returns_same {α : Type} {p : Action α} (Q : LdapConnectionCtx → Prop)
    (h : ∀ w a t, exec p w = (.ok a, t) → t.connection = w.connection) :
    Returns (fun w => Q w.connection) p (fun _ w => Q w.connection) := by
  apply Follows.atomic
  · exact fun _ _ => trivial
  · intro w a t hw he
    rw [h w a t he]
    exact hw

theorem returns_emit (e : Event) (Q : LdapConnectionCtx → Prop) :
    Returns (fun w => Q w.connection) (emit e) (fun _ w => Q w.connection) :=
  returns_same Q fun _ _ _ he => by cases he; rfl

theorem returns_call (c : LdapCall) (Q : LdapConnectionCtx → Prop) :
    Returns (fun w => Q w.connection) (call c) (fun _ w => Q w.connection) :=
  returns_same Q fun _ _ _ he => by cases he; rfl

theorem returns_dereference {α : Type} (pointer : Pointer α) (Q : LdapConnectionCtx → Prop) :
    Returns (fun w => Q w.connection) (dereference pointer) (fun _ w => Q w.connection) :=
  returns_same Q fun _ _ _ he => by cases pointer <;> cases he; rfl

theorem returns_trackWithHandlers (handler : OperationCallback) (msgid : Int) {descriptor : Option Int}
    (code : OperationReturnCode) :
    Returns (fun w => w.connection.HandlersReady descriptor)
      (trackWithHandlers handler msgid descriptor code) (fun rc _ => rc = code) := by
  unfold trackWithHandlers ensureHandlers
  apply Follows.bind (Q := fun rc _ => rc = .success)
  · apply Follows.get
    rintro w hw
    apply Follows.ite
    · exact fun _ => Follows.pure fun _ _ => rfl
    · intro hinstalled
      rcases hw with hw | ⟨fd, rfl, hfd⟩
      · exact absurd hw hinstalled
      · unfold connectionInstallHandlers
        dsimp only
        rw [if_neg (by omega)]
        exact Follows.bind (follows_any _) fun _ => Follows.bind (follows_any _) fun _ =>
          Follows.bind (follows_any _) fun _ => Follows.bind (follows_any _) fun _ =>
          Follows.pure fun _ _ => rfl
  · intro rc
    apply Follows.ite
    · intro hrc t ht
      exact absurd ht hrc
    · exact fun _ => Follows.bind (follows_any _) fun _ => Follows.pure fun _ _ => rfl

theorem returns_connectionStartTls {sent : Sent} (h : sent.rc = ldapSuccess) {descriptor : Option Int} :
    Returns (fun w => w.connection.HandlersReady descriptor) (connectionStartTls sent descriptor)
      (fun rc _ => rc = .success) := by
  unfold connectionStartTls
  apply Follows.bind (returns_call _ (·.HandlersReady descriptor))
  intro _
  rw [if_neg (not_not.mpr h)]
  exact returns_trackWithHandlers _ _ _

theorem returns_bindSent {sent : Sent} {descriptor : Option Int} {code : OperationReturnCode}
    {refused : Prop} [Decidable refused] (hcode : stateAfterBind code ≠ .error)
    (hrefused : sent.rc ≠ ldapXConnecting → ¬refused) :
    Returns (fun w => sent.rc = ldapXConnecting ∨ w.connection.HandlersReady descriptor) (do
      if sent.rc = ldapXConnecting then return OperationReturnCode.repeatLastOperation
      else if refused then
        ldapUnbind
        return .failure
      else trackWithHandlers .connectionBindOnRead sent.msgid descriptor code)
      (fun rc _ => stateAfterBind rc ≠ .error) := by
  apply Follows.ite
  · exact fun _ => Follows.pure fun _ _ => by decide
  · intro hconnecting
    rw [if_neg (hrefused hconnecting)]
    apply (returns_trackWithHandlers _ _ code).consequence
    · exact fun w hw => hw.resolve_left hconnecting
    · rintro _ _ rfl
      exact hcode

theorem returns_bindInvoked (c : LdapCall) {Q : LdapConnectionCtx → Prop} {p : Action OperationReturnCode}
    {S : OperationReturnCode → World → Prop} (h : Returns (fun w => Q w.connection) p S) :
    Returns (fun w => Q w.connection) (do
      emit (.bindInvoked (← get).tlsInplace)
      let _ ← dereference (← get).connection.ldapDefaults
      call c
      p) S := by
  apply Follows.get
  intro w hw
  apply Follows.bind ((returns_emit _ Q).of_pre (by rintro _ rfl; exact hw))
  intro _
  apply Follows.get
  intro w' hw'
  apply Follows.bind ((returns_dereference _ Q).of_pre (by rintro _ rfl; exact hw'))
  intro _
  apply Follows.bind (returns_call _ Q)
  intro _
  exact h

theorem returns_connectionBind (i : TickInput) :
    Returns (fun w => i.Binds w.connection) (connectionBind i)
      (fun rc _ => stateAfterBind rc ≠ .error) := by
  unfold connectionBind
  apply Follows.get
  intro w hw
  let Q (c : LdapConnectionCtx) : Prop := i.bind.rc = ldapXConnecting ∨ c.HandlersReady i.descriptor
  have hready : ∀ t : World, t = w → Q t.connection := by
    rintro _ rfl
    exact hw.imp_right And.right
  have haccepts : i.bind.rc ≠ ldapXConnecting → i.bind.rc ∈ w.connection.bindType.accepts :=
    fun hne => (hw.resolve_left hne).1
  cases hb : w.connection.bindType with
  | interactive =>
    rw [hb] at haccepts
    apply Follows.of_pre (P := fun t => Q t.connection) _ hready
    apply returns_bindInvoked .saslInteractiveBind
    apply returns_bindSent
    · split_ifs <;> decide
    · intro hne hrefused
      have hmem := haccepts hne
      simp only [BindType.accepts, List.mem_cons, List.not_mem_nil, or_false] at hmem
      tauto
  | simple =>
    rw [hb] at haccepts
    apply Follows.of_pre (P := fun t => Q t.connection) _ hready
    apply returns_bindInvoked .saslBind
    apply returns_bindSent (by decide)
    intro hne hrefused
    have hmem := haccepts hne
    simp only [BindType.accepts, List.mem_cons, List.not_mem_nil, or_false] at hmem
    exact hrefused hmem

theorem returns_submit (request : LdapCall) (handler : OperationCallback) {sent : Sent}
    (h : sent.rc = ldapSuccess) : Returns P (submit request handler sent) (fun rc _ => rc = .success) := by
  unfold submit
  apply Follows.bind (follows_any _)
  intro _
  rw [if_neg (not_not.mpr h)]
  exact Follows.bind (follows_any _) fun _ => Follows.pure fun _ _ => rfl

theorem returns_search (arguments : SearchArguments) (callback : Option SearchCallback)
    (userData : UserData) {sent : Sent} (h : sent.rc = ldapSuccess) (n : ℕ) :
    Returns (fun w => w.connection.SearchRoom (n + 1)) (search arguments callback userData sent)
      (fun rc w => rc = .success ∧ w.connection.SearchRoom n) := by
  unfold search
  apply Follows.bind (returns_call _ (·.SearchRoom (n + 1)))
  intro _
  rw [if_neg (not_not.mpr h)]
  apply Follows.atomic
  · exact fun _ _ => trivial
  · intro w rc t hroom he
    unfold LdapConnectionCtx.SearchRoom at hroom
    rw [exec_trackSearch] at he
    dsimp only at he
    split_ifs at he with hread hsearch
    · cases he
      refine ⟨rfl, ?_⟩
      change w.connection.nSearchRequests + 1 + n < maxRequests
      omega
    · omega
    · cases he

theorem returns_searchDefinitions (base : Bytes) {first second : Sent} (hfirst : first.rc = ldapSuccess)
    (hsecond : second.rc = ldapSuccess) :
    Returns (fun w => w.connection.SearchRoom 2) (searchDefinitions base first second)
      (fun rc _ => rc = .success) := by
  unfold searchDefinitions
  apply Follows.bind (returns_search _ _ _ hfirst 1)
  intro rc
  apply Follows.ite
  · intro hrc t ht
    exact absurd ht.1 hrc
  · intro _
    apply Follows.bind ((returns_search _ _ _ hsecond 0).of_pre fun _ ht => ht.2)
    intro rc'
    apply Follows.ite
    · intro hrc t ht
      exact absurd ht.1 hrc
    · exact fun _ => Follows.pure fun _ _ => rfl

theorem returns_ldapSchemaLoad (i : TickInput) :
    Returns i.LoadsSchema (ldapSchemaLoad i.firstSearch i.secondSearch)
      (fun rc _ => rc = .success ∨ rc = .operationInProgress) := by
  unfold ldapSchemaLoad
  apply Follows.get
  intro w hw
  rw [TickInput.LoadsSchema] at hw
  have hdefinitions : ∀ base, i.SearchesDefinitions w.connection →
      Returns (fun t => t = w) (searchDefinitions base i.firstSearch i.secondSearch)
        (fun rc _ => rc = .success ∨ rc = .operationInProgress) := by
    rintro base ⟨hfirst, hsecond, hroom⟩
    apply (returns_searchDefinitions base hfirst hsecond).consequence
    · rintro _ rfl
      exact hroom
    · exact fun _ _ hrc => .inl hrc
  cases htype : w.connection.directoryType with
  | openldap =>
    rw [htype] at hw
    exact hdefinitions _ hw
  | activeDirectory =>
    rw [htype] at hw
    apply Follows.get
    rintro _ rfl
    cases hpath : World.schemaEntryPath _ with
    | none =>
      rw [hpath] at hw
      apply Follows.bind ((returns_search _ _ _ hw.1 0).of_pre (by rintro _ rfl; exact hw.2))
      intro rc
      apply Follows.ite
      · intro hrc t ht
        exact absurd ht.1 hrc
      · exact fun _ => Follows.pure fun _ _ => .inr rfl
    | some path =>
      rw [hpath] at hw
      exact hdefinitions path hw
  | freeIpa =>
    rw [htype] at hw
    exact hw.elim
  | unknown => exact Follows.pure fun _ _ => .inl rfl
  | uninitialized => exact Follows.pure fun _ _ => .inl rfl

theorem returns_enter_now {state : LdapConnectionState} {code : OperationReturnCode}
    (h : ∀ w, P w → state ≠ .error) :
    Returns P (do csmSetState state; return code)
      (fun _ w => w.connection.stateMachine ≠ .live .error) := by
  apply Follows.bind (Q := fun _ w => w.connection.stateMachine ≠ .live .error)
  · apply Follows.atomic
    · exact fun _ _ => trivial
    · intro w _ t hw he
      have hstate := h w hw
      rw [exec_csmSetState] at he
      cases hs : w.connection.stateMachine with
      | live current =>
        rw [hs] at he
        cases he
        simpa using hstate
      | null =>
        rw [hs] at he
        cases he
      | dangling =>
        rw [hs] at he
        cases he
  · exact fun _ => Follows.pure fun _ hw => hw

theorem returns_enter {α : Type} {p : Action α} {Q : α → World → Prop}
    {state : α → LdapConnectionState} {code : α → OperationReturnCode} (hp : Returns P p Q)
    (h : ∀ a w, Q a w → state a ≠ .error) :
    Returns P (do let a ← p; csmSetState (state a); return code a)
      (fun _ w => w.connection.stateMachine ≠ .live .error) :=
  hp.bind fun a => returns_enter_now (h a)

/-- Outside the error state a tick that succeeds does not fail the machine. -/
theorem returns_csmNextState (i : TickInput) :
    Returns (fun w => i.Succeeds w ∧ w.connection.stateMachine ≠ .live .error) (csmNextState i)
      (fun _ w => w.connection.stateMachine ≠ .live .error) := by
  unfold csmNextState
  apply Follows.get
  rintro w ⟨hw, hne⟩
  rw [TickInput.Succeeds] at hw
  apply Follows.bind (follows_dereference _)
  intro state
  cases state with
  | init =>
    apply Follows.get
    rintro _ ⟨rfl, hs⟩
    rw [hs] at hw
    apply Follows.ite
    · intro htls
      apply returns_enter ((returns_connectionStartTls (hw htls).1).of_pre _)
      · rintro _ _ rfl
        decide
      · rintro _ rfl
        exact (hw htls).2
    · exact fun _ => returns_enter_now fun _ _ => by decide
  | transportReady =>
    apply Follows.bind ((returns_connectionBind i).of_pre _)
    · intro rc
      apply Follows.bind (Q := fun _ _ => stateAfterBind rc ≠ .error)
      · exact Follows.atomic (fun _ _ => trivial) fun _ _ _ hrc _ => hrc
      · intro _
        exact returns_enter_now fun _ hrc => hrc
    · rintro _ ⟨rfl, hs⟩
      rw [hs] at hw
      exact hw
  | bound => exact returns_enter_now fun _ _ => by decide
  | detectDirectory =>
    apply Follows.get
    rintro _ ⟨rfl, hs⟩
    rw [hs] at hw
    apply Follows.ite
    · intro htype
      apply returns_enter (returns_submit _ _ (hw htype))
      rintro _ _ rfl
      decide
    · exact fun _ => returns_enter_now fun _ _ => by decide
  | requestSchema =>
    apply returns_enter ((returns_ldapSchemaLoad i).of_pre _)
    · rintro _ _ (rfl | rfl)
      · decide
      · decide
    · rintro _ ⟨rfl, hs⟩
      rw [hs] at hw
      exact hw
  | checkSchema =>
    apply Follows.get
    rintro _ ⟨rfl, hs⟩
    apply Follows.ite
    · exact fun _ => returns_enter_now fun _ _ => by decide
    · exact fun _ => Follows.pure fun t ht => ht ▸ hne
  | run =>
    apply Follows.bind (Q := fun _ t => t.connection.stateMachine ≠ .live .error)
    · apply Follows.atomic
      · exact fun _ _ => trivial
      · rintro _ _ _ ⟨rfl, -⟩ he
        cases he
        exact hne
    · exact fun _ => Follows.pure fun _ ht => ht
  | error =>
    rintro t ⟨-, hs⟩
    exact absurd hs hne
  | tlsNegotiation => exact Follows.pure fun t ht => ht.1 ▸ hne
  | bindInProgress => exact Follows.pure fun t ht => ht.1 ▸ hne

def World.NoneFails (w : World) (events : List Event) : Prop :=
  ∀ slot request r pending c old, .dispatch slot request r pending c :: old <:+ events →
    w.trace <:+ old →
    (request.onReadOperation = some .connectionStartTlsOnRead → ¬r.Insecure (tlsOf old)) ∧
    (request.onReadOperation = some .connectionBindOnRead → ¬r.Refuses c)

theorem World.NoneFails.of_suffix {events events' : List Event} (h : w.NoneFails events)
    (hsuffix : events' <:+ events) : w.NoneFails events' :=
  fun slot request r pending c old hold => h slot request r pending c old (hold.trans hsuffix)

/-- The machine neither has failed nor waits for a response. -/
def World.AtEase (w : World) : Prop :=
  ∀ state, w.connection.stateMachine = .live state →
    state ∉ [.error, .tlsNegotiation, .bindInProgress]

theorem World.AtEase.straight (h : w.AtEase) (hst : w.Straight w') : w'.AtEase := by
  rw [World.AtEase, hst.stateMachine]
  exact h

theorem World.AtEase.turned (h : w.AtEase) {state : LdapConnectionState} (ht : w.Turned w' state)
    (hstate : state ∉ [.error, .tlsNegotiation, .bindInProgress]) : w'.AtEase := by
  rcases ht.passes with ⟨source, hpasses⟩ | hst
  · intro state' hs
    cases hpasses.after.symm.trans hs
    exact hstate
  · exact h.straight hst

theorem Steers.atEase {w₀ : World} (h : Steers w w') (hgrown : w₀.trace <:+ w.trace)
    (htls : tlsOf w.trace = w.tlsInplace) (hnone : w₀.NoneFails w'.trace) (hi : w.AtEase) :
    w'.AtEase := by
  cases h with
  | straight hst => exact hi.straight hst
  | stopped state live waiting _ =>
    have hstate := hi state live
    rcases waiting with rfl | rfl
    · exact absurd (by decide) hstate
    · exact absurd (by decide) hstate
  | secured slot request r _ _ turned =>
    exact (hi.straight (straight_dispatched w slot request r)).turned turned (by decide)
  | insecure slot request r handler insecure turned =>
    obtain ⟨new, htrace⟩ := turned.grows
    have hnot := (hnone slot request r w.pendingRequests _ w.trace ⟨new, htrace.symm⟩
      hgrown).1 handler
    exact absurd insecure (htls ▸ hnot)
  | bound slot request r _ _ turned =>
    exact (hi.straight (straight_dispatched w slot request r)).turned turned (by decide)
  | refused slot request r handler refuses turned =>
    obtain ⟨new, htrace⟩ := turned.grows
    have hnot := (hnone slot request r w.pendingRequests _ w.trace ⟨new, htrace.symm⟩
      hgrown).2 handler
    exact absurd refuses hnot

theorem World.Turned.nReconnectAttempts {state : LdapConnectionState} (h : w.Turned w' state) :
    w'.connection.nReconnectAttempts = w.connection.nReconnectAttempts := by
  rcases h.passes with ⟨source, hpasses⟩ | hst
  · exact hpasses.nReconnectAttempts
  · exact hst.nReconnectAttempts

theorem Steers.nReconnectAttempts (h : Steers w w') :
    w'.connection.nReconnectAttempts = w.connection.nReconnectAttempts := by
  cases h with
  | straight hst => exact hst.nReconnectAttempts
  | stopped _ _ _ turned => exact turned.nReconnectAttempts
  | secured _ _ _ _ _ turned => exact turned.nReconnectAttempts
  | insecure _ _ _ _ _ turned => exact turned.nReconnectAttempts
  | bound _ _ _ _ _ turned => exact turned.nReconnectAttempts
  | refused _ _ _ _ _ turned => exact turned.nReconnectAttempts

def World.Exhausted (w : World) : Prop := maxReconnectAttempts ≤ w.connection.nReconnectAttempts

/-- What holds of the world when the timer has been deleted. -/
def World.Dispensable (w : World) : Prop := w.Exhausted ∨ w.AtEase

theorem dispensable_connectionOnRead (responses : List Response) (hw : Simulated w)
    (hf : w.frame = none) (htls : tlsOf w.trace = w.tlsInplace) (hi : w.Dispensable)
    (hnone : w.Exhausted ∨ w.NoneFails (exec (connectionOnRead responses) w).2.trace) :
    (exec (connectionOnRead responses) w).2.Dispensable := by
  let I (t : World) : Prop := Simulated t ∧ w.trace <:+ t.trace ∧ tlsOf t.trace = t.tlsInplace ∧
    t.connection.nReconnectAttempts = w.connection.nReconnectAttempts ∧
    (w.AtEase → w.NoneFails t.trace → t.AtEase)
  have hstep : ∀ s t, ReadStride s t → I s → I t := by
    intro s t hst ⟨hs, hgrown, htls, hcount, hease⟩
    have hstride : Stride s t := .read hst
    have hsteers := hst.steers hs
    obtain ⟨new, hnew, -⟩ := hstride.grows hs
    have hsuffix : s.trace <:+ t.trace := ⟨new, hnew.symm⟩
    refine ⟨hstride.simulated hs, hgrown.trans hsuffix, hsteers.tls htls,
      hsteers.nReconnectAttempts.trans hcount, fun hw hnone => ?_⟩
    exact hsteers.atEase hgrown htls hnone (hease hw (hnone.of_suffix hsuffix))
  obtain ⟨-, -, -, hcount, hease⟩ := (strides_connectionOnRead responses).invariant (I := I) hstep hf
    ⟨hw, List.suffix_refl _, htls, rfl, fun h _ => h⟩
  by_cases hexhausted : w.Exhausted
  · left
    rw [World.Exhausted, hcount]
    exact hexhausted
  · right
    exact hease (hi.resolve_left hexhausted) (hnone.resolve_left hexhausted)

/-- The timer deletes itself when it finds the machine running or failed. -/
theorem exec_connectionUpdate {i : TickInput} {deleted : Bool}
    (he : exec (connectionUpdate i) w = (.ok deleted, w')) :
    ∃ code state, exec (csmNextState i) w = (.ok code, w') ∧
      w'.connection.stateMachine = .live state ∧
      (deleted = true → state = .run ∨ state = .error) := by
  rw [connectionUpdate] at he
  obtain ⟨code, t, htick, he⟩ := exec_bind_eq_ok he
  rw [exec_bind_ok (exec_get t)] at he
  obtain ⟨state, t', hstate, he⟩ := exec_bind_eq_ok he
  cases hs : t.connection.stateMachine with
  | live _ =>
    rw [hs] at hstate
    cases hstate
    cases he
    exact ⟨code, state, htick, hs, of_decide_eq_true⟩
  | null =>
    rw [hs] at hstate
    cases hstate
  | dangling =>
    rw [hs] at hstate
    cases hstate

theorem TickEnters.ne_run {state : LdapConnectionState} (h : TickEnters w state) :
    w.connection.stateMachine ≠ .live .run := by
  intro hs
  cases h with
  | failed source live sending =>
    cases hs.symm.trans live
    exact absurd sending (by decide)
  | startTls live => cases hs.symm.trans live
  | plain live => cases hs.symm.trans live
  | bind _ live => cases hs.symm.trans live
  | detect live => cases hs.symm.trans live
  | detecting live => cases hs.symm.trans live
  | detected live => cases hs.symm.trans live
  | requesting live => cases hs.symm.trans live
  | requested live => cases hs.symm.trans live
  | checked live => cases hs.symm.trans live

/-- Only a tick that finds the machine running clears the counter. -/
theorem TickStride.exhausted (h : TickStride w w')
    (hi : w.Exhausted ∨ w.connection.stateMachine = .live .run) :
    w'.Exhausted ∨ w'.connection.stateMachine = .live .run := by
  cases h with
  | issue h =>
    have hst := h.straight
    rw [World.Exhausted, hst.nReconnectAttempts, hst.stateMachine]
    exact hi
  | enter state enters =>
    left
    rw [World.Exhausted, (turned_enter state w).nReconnectAttempts]
    exact hi.resolve_right enters.ne_run
  | running state => exact .inr state

theorem exhausted_csmNextState {i : TickInput} {code : OperationReturnCode}
    (he : exec (csmNextState i) w = (.ok code, w')) (hi : i.Succeeds w ∨ w.Exhausted)
    (hs : w'.connection.stateMachine = .live .error) : w'.Exhausted := by
  by_cases hstate : w.connection.stateMachine = .live .error
  · by_cases hd : w.connection.ldapDefaults = .dangling
    · rw [exec_csmNextState_error hstate, exec_bind_error (exec_reconnect_dangling hd i)] at he
      cases he
    · rw [exec_csmNextState_error hstate, exec_bind_ok (exec_reconnect hstate hd i)] at he
      cases he
      split_ifs at hs ⊢ with hn
      · cases hi : i.configure with
        | none =>
          rw [hi] at hs
          cases hs
        | some failure =>
          rw [hi, stateMachine_reconnected, hstate] at hs
          cases failure <;> cases hs
      · exact Nat.not_lt.mp hn
  · have hfinal : (exec (csmNextState i) w).2 = w' := by rw [he]
    rcases hi with hi | hi
    · have hne := (returns_csmNextState i w ⟨hi, hstate⟩).2 code (by rw [he])
      rw [hfinal] at hne
      exact absurd hs hne
    · have hkept := (strides_csmNextState i).invariant (fun _ _ h => h.exhausted) hstate
        (.inl hi : w.Exhausted ∨ w.connection.stateMachine = .live .run)
      rw [hfinal, hs] at hkept
      exact hkept.resolve_right (by decide)

/-- What the timer submits is accepted, and once the timer is gone no response fails the
machine; once the attempts are used up both may fail. -/
def Attended : List DefaultStep → Bool → World → Prop
  | [], _, _ => True
  | .timer i :: rest, true, w => (i.Succeeds w ∨ w.Exhausted) ∧
      ∀ deleted w', exec (connectionUpdate i) w = (.ok deleted, w') → Attended rest (!deleted) w'
  | .timer _ :: rest, false, w => Attended rest false w
  | .read responses :: rest, registered, w =>
      (registered = false → w.Exhausted ∨ w.NoneFails (exec (connectionOnRead responses) w).2.trace) ∧
      ∀ w', exec (connectionOnRead responses) w = (.ok (), w') → Attended rest registered w'

/-- What holds between two calls of the event loop. -/
structure Driven (w : World) (registered : Bool) : Prop where
  simulated : Simulated w
  frame : w.frame = none
  tls : tlsOf w.trace = w.tlsInplace
  dispensable : registered = false → w.Dispensable

theorem Driven.step {registered : Bool} (h : Driven w registered) {step : Step}
    (he : exec step.perform w = (.ok (), w')) {registered' : Bool}
    (hi : registered' = false → w'.Dispensable) : Driven w' registered' := by
  have hfinal : (exec step.perform w).2 = w' := by rw [he]
  have hnext := step_invariant (I := fun t => tlsOf t.trace = t.tlsInplace) (C := fun _ _ => True)
    (fun s t hs hst hi => hst.tls hs hi) (fun s i _ hstate _ _ hi => tls_reconnect hstate i hi)
    step h.simulated h.frame trivial h.tls
  have hframe := (follows_stepPerform step w h.frame).2 () (by rw [he])
  rw [hfinal] at hnext hframe
  exact ⟨hnext.1, hframe, hnext.2, hi⟩

theorem Driven.timer (h : Driven w true) {i : TickInput} {deleted : Bool}
    (he : exec (connectionUpdate i) w = (.ok deleted, w')) (hi : i.Succeeds w ∨ w.Exhausted) :
    Driven w' (!deleted) := by
  obtain ⟨code, state, htick, hs, hdeleted⟩ := exec_connectionUpdate he
  have hperform : exec (Step.tick i).perform w = (.ok (), w') := by
    change exec (csmNextState i >>= fun _ => pure ()) w = _
    rw [exec_bind_ok htick]
    rfl
  apply h.step hperform
  intro hregistered
  have hfound := hdeleted (by simpa using hregistered)
  rcases hfound with rfl | rfl
  · right
    intro state' hs'
    cases hs.symm.trans hs'
    decide
  · exact .inl (exhausted_csmNextState htick hi hs)

theorem Driven.read {registered : Bool} (h : Driven w registered) {responses : List Response}
    (he : exec (connectionOnRead responses) w = (.ok (), w'))
    (hnone : registered = false →
      w.Exhausted ∨ w.NoneFails (exec (connectionOnRead responses) w).2.trace) :
    Driven w' registered := by
  have hperform : exec (Step.read responses).perform w = (.ok (), w') := he
  apply h.step hperform
  intro hregistered
  have hkept := dispensable_connectionOnRead responses h.simulated h.frame h.tls
    (h.dispensable hregistered) (hnone hregistered)
  rwa [he] at hkept

theorem Driven.drive {steps : List DefaultStep} {registered registered' : Bool}
    (h : Driven w registered) (hattended : Attended steps registered w)
    (he : exec (drive steps registered) w = (.ok registered', w')) : Driven w' registered' := by
  induction steps generalizing w registered with
  | nil =>
    cases he
    exact h
  | cons step rest ih =>
    cases step with
    | timer i =>
      cases registered with
      | false => exact ih h hattended he
      | true =>
        obtain ⟨deleted, t, hupdate, hrest⟩ := exec_bind_eq_ok he
        exact ih (h.timer hupdate hattended.1) (hattended.2 deleted t hupdate) hrest
    | read responses =>
      obtain ⟨_, t, hread, hrest⟩ := exec_bind_eq_ok he
      exact ih (h.read hread hattended.1) (hattended.2 t hread) hrest

/-- While what it does is accepted, the default driver keeps its timer as long as a
failed connection may be started anew. -/
theorem drive_registered (config : LdapConnectionConfig) (path : Option Bytes)
    {steps : List DefaultStep} {registered : Bool}
    (hattended : Attended steps true (.initial config path))
    (he : exec (drive steps true) (.initial config path) = (.ok registered, w))
    (hs : w.connection.stateMachine = .live .error)
    (hn : w.connection.nReconnectAttempts < maxReconnectAttempts) : registered = true := by
  have hinit : Driven (.initial config path) true :=
    ⟨simulated_initial config path, rfl, rfl, fun h => by cases h⟩
  have hdriven := hinit.drive hattended he
  by_contra hregistered
  rcases hdriven.dispensable (by simpa using hregistered) with hexhausted | hease
  · exact absurd hn (Nat.not_lt.mpr hexhausted)
  · exact absurd (by decide) (hease .error hs)

/-- StartTLS is sent, and the server's answer does not put TLS in place. -/
def refusedSteps : List DefaultStep :=
  [.timer { startTls := ⟨ldapSuccess, 1⟩ },
    .read [{ rc := ldapResExtended, msgid := 1, installTls := 1 }]]

section Runs

-- Only the kernel is to evaluate the runs.
attribute [local irreducible] drive

/-- A refused StartTLS leaves the timer in place. -/
theorem drive_registered_refused :
    ∃ registered, (exec (drive refusedSteps true) (.initial ⟨true, .simple⟩ none)).1 = .ok registered ∧
      registered = true := by
  have hupdate : (exec (connectionUpdate { startTls := ⟨ldapSuccess, 1⟩ })
      (.initial ⟨true, .simple⟩ none)).1 = .ok false := by decide +kernel
  have hattended : Attended refusedSteps true (.initial ⟨true, .simple⟩ none) := by
    refine ⟨.inl fun _ => ⟨rfl, .inr ⟨0, rfl, by decide⟩⟩, ?_⟩
    intro deleted w' he
    rw [he] at hupdate
    cases hupdate
    exact ⟨fun h => absurd h (by decide), fun _ _ => trivial⟩
  have hreturn : (exec (drive refusedSteps true) (.initial ⟨true, .simple⟩ none)).1 = .ok true := by
    decide +kernel
  exact ⟨true, hreturn, drive_registered ⟨true, .simple⟩ none hattended (Prod.ext hreturn rfl)
    (by decide +kernel) (by decide +kernel)⟩

/-- A StartTLS that cannot be sent costs the connection its timer, with all attempts left. -/
theorem drive_abandons :
    (exec (drive [.timer { startTls := ⟨1, 0⟩ }] true) (.initial ⟨true, .simple⟩ none)).1 = .ok false ∧
      (exec (drive [.timer { startTls := ⟨1, 0⟩ }] true)
        (.initial ⟨true, .simple⟩ none)).2.connection.stateMachine = .live .error ∧
      (exec (drive [.timer { startTls := ⟨1, 0⟩ }] true)
        (.initial ⟨true, .simple⟩ none)).2.connection.nReconnectAttempts = 0 := by
  refine ⟨by decide +kernel, by decide +kernel, by decide +kernel⟩

end Runs

end Libdomain.Connection
