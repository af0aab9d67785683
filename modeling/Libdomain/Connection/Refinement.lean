import Libdomain.Connection.Transitions

/-! # The code follows the transition relation

Every function of the connection code is shown to be a path of the relation it
belongs to, from the operations up to whole runs.
-/
namespace Libdomain.Connection
open Libdomain.Queue Libdomain.Program Relation

theorem along_emit {e : Event} (h : e.Routine) : Along Issue (emit e) :=
  Along.step fun w => Issue.event w e h

theorem along_call (c : LdapCall) : Along Issue (call c) :=
  Along.step fun w => Issue.event w _ trivial

theorem along_track {handler : OperationCallback} (h : handler ≠ .searchOnRead) (msgid : Int) :
    Along Issue (track handler msgid) := Along.step fun w => Issue.track w handler msgid h

theorem along_submit (request : LdapCall) {handler : OperationCallback}
    (h : handler ≠ .searchOnRead) (sent : Sent) : Along Issue (submit request handler sent) := by
  unfold submit
  apply Along.bind (along_call request)
  intro _
  apply Along.ite Along.pure
  exact Along.bind (along_track h sent.msgid) (fun _ => Along.pure)

theorem along_search (arguments : SearchArguments) (callback : Option SearchCallback)
    (userData : UserData) (sent : Sent) : Along Issue (search arguments callback userData sent) := by
  unfold search
  apply Along.bind (along_call _)
  intro _
  apply Along.ite Along.pure
  exact Along.step fun w => Issue.search w _ userData sent.msgid

theorem along_perform (s : Submission) : Along Issue (perform s) := by
  unfold perform
  cases s.operation with
  | add dn attrs => exact along_submit _ (by decide) s.sent
  | modify dn attrs => exact along_submit _ (by decide) s.sent
  | ldDelete dn => exact along_submit _ (by decide) s.sent
  | ldRename olddn newdn newParent deleteOriginal => exact along_submit _ (by decide) s.sent
  | whoami => exact along_submit _ (by decide) s.sent
  | search arguments callback userData => exact along_search arguments callback userData s.sent
  | directoryGetType => exact along_submit _ (by decide) s.sent

theorem along_performAll (submissions : List Submission) : Along Issue (performAll submissions) :=
  Along.forM fun s => Along.bind (along_perform s) (fun _ => Along.pure)

theorem along_onErrorOperation (r : Response) : Along Issue (onErrorOperation r) := by
  unfold onErrorOperation
  apply Follows.along (Q := fun _ _ => True)
  apply Follows.get
  intro w _
  apply Follows.ite
  · intro _
    refine Follows.bind (Follows.step ?_) fun _ => (along_performAll r.submissions).follows
    rintro _ rfl
    exact Issue.errorCallback _
  · intro _
    exact Along.pure.follows

theorem along_calm {α : Type} {p : Action α} (h : Along Issue p) : Along Calm p :=
  h.mono fun _ _ => Issue.calm

theorem along_untilFailure {α : Type} {R : World → World → Prop} {callback : α → Action OperationReturnCode}
    (h : ∀ x, Along R (callback x)) (xs : List α) : Along R (untilFailure callback xs) := by
  induction xs with
  | nil => exact Along.pure
  | cons x xs ih =>
    unfold untilFailure
    apply Along.bind (h x)
    intro code
    exact Along.ite Along.pure ih

theorem along_appendValueCallback (append : LdapSchema → SchemaDefinition → Bool × LdapSchema)
    (parse : Bytes → Option SchemaDefinition) (value : Bytes) :
    Along Load (appendValueCallback append parse value) := by
  unfold appendValueCallback
  cases parse value with
  | none => exact Along.pure
  | some d =>
    apply Along.get
    intro w
    dsimp only
    apply Along.bind (Along.step fun w => Load.schema w _)
    intro _
    exact Along.pure

theorem along_subschemaSubentryCallback (value : Bytes) :
    Along Load (subschemaSubentryCallback value) := by
  unfold subschemaSubentryCallback
  apply Along.bind (Along.step fun w => Load.path w (some value))
  intro _
  exact Along.pure

theorem along_ldapSchemaCallbackCommon {R : World → World → Prop}
    {callback : Bytes → Action OperationReturnCode} (h : ∀ value, Along R (callback value))
    (entries : List LdEntry) : Along R (ldapSchemaCallbackCommon callback entries) := by
  apply along_untilFailure
  intro entry
  apply along_untilFailure
  intro a
  cases a.values with
  | none => exact Along.throw
  | some values => exact along_untilFailure h values

def SearchCallback.Fills : SearchCallback → Prop
  | .attributeTypesSearchCallback | .objectClassesSearchCallback | .subschemaSubentrySearchCallback =>
    True
  | _ => False

theorem along_callSearchCallback_fills {callback : SearchCallback} (h : callback.Fills)
    (entries : List LdEntry) (r : Response) : Along Load (callSearchCallback callback entries r) := by
  unfold callSearchCallback
  cases callback with
  | printSearchCallback => exact h.elim
  | attributeTypesSearchCallback =>
    exact along_ldapSchemaCallbackCommon (along_appendValueCallback _ _) entries
  | objectClassesSearchCallback =>
    exact along_ldapSchemaCallbackCommon (along_appendValueCallback _ _) entries
  | subschemaSubentrySearchCallback =>
    exact along_ldapSchemaCallbackCommon along_subschemaSubentryCallback entries
  | application _ => exact h.elim

theorem along_callSearchCallback (callback : SearchCallback) (entries : List LdEntry) (r : Response) :
    Along Calm (callSearchCallback callback entries r) := by
  cases callback with
  | printSearchCallback => exact Along.pure
  | application _ => exact Along.bind (along_calm (along_performAll r.submissions)) fun _ => Along.pure
  | attributeTypesSearchCallback =>
    exact (along_callSearchCallback_fills (by trivial) entries r).mono fun _ _ => Load.calm
  | objectClassesSearchCallback =>
    exact (along_callSearchCallback_fills (by trivial) entries r).mono fun _ _ => Load.calm
  | subschemaSubentrySearchCallback =>
    exact (along_callSearchCallback_fills (by trivial) entries r).mono fun _ _ => Load.calm

theorem along_ldapUnbind : Along Issue ldapUnbind := Along.step fun w => Issue.event w _ trivial

theorem along_vertoAddIo : Along Issue vertoAddIo := by
  unfold vertoAddIo
  apply Along.get
  intro w
  apply Along.bind
  · exact along_emit trivial
  · intro _
    exact Along.bind (Along.step fun w => Issue.local w _ _ _ (_ + 1)) fun _ => Along.pure

theorem along_connectionInstallHandlers (descriptor : Option Int) :
    Along Issue (connectionInstallHandlers descriptor) := by
  have hfail : Along Issue (do ldapUnbind; return .failure : Action OperationReturnCode) :=
    Along.bind along_ldapUnbind fun _ => Along.pure
  unfold connectionInstallHandlers
  cases descriptor with
  | none => exact hfail
  | some fd =>
    apply Along.ite hfail
    apply Along.bind along_vertoAddIo
    intro readEvent
    apply Along.bind (Along.step fun w => Issue.local w _ (some readEvent) _ _)
    intro _
    apply Along.bind along_vertoAddIo
    intro writeEvent
    apply Along.bind (Along.step fun w => Issue.local w true _ (some writeEvent) _)
    intro _
    exact Along.pure

theorem along_trackWithHandlers {handler : OperationCallback} (h : handler ≠ .searchOnRead)
    (msgid : Int) (descriptor : Option Int) (code : OperationReturnCode) :
    Along Issue (trackWithHandlers handler msgid descriptor code) := by
  unfold trackWithHandlers ensureHandlers
  apply Along.bind
  · apply Along.get
    intro w
    exact Along.ite Along.pure (along_connectionInstallHandlers descriptor)
  · intro installed
    apply Along.ite
    · exact Along.bind along_ldapUnbind fun _ => Along.pure
    · exact Along.bind (along_track h msgid) fun _ => Along.pure

theorem along_connectionStartTls (sent : Sent) (descriptor : Option Int) :
    Along Issue (connectionStartTls sent descriptor) := by
  unfold connectionStartTls
  apply Along.bind (along_call _)
  intro _
  apply Along.ite
  · exact Along.bind along_ldapUnbind fun _ => Along.pure
  · exact along_trackWithHandlers (by decide) _ _ _

theorem along_dereference {α : Type} {R : World → World → Prop} (p : Pointer α) :
    Along R (dereference p) := by
  cases p with
  | live a => exact Along.pure
  | null => exact Along.throw
  | dangling => exact Along.throw

theorem follows_bindInvoked {k : Unit → Action OperationReturnCode} (hk : Along Issue (k ())) :
    Follows Issue (fun w => w.connection.stateMachine = .live .transportReady)
      (MonadState.get >>= fun w => emit (.bindInvoked w.tlsInplace) >>= k) (fun _ _ => True) := by
  apply Follows.get
  intro w hw
  refine Follows.bind (Follows.step ?_) fun _ => hk.follows
  rintro _ rfl
  exact Issue.bindInvoked _ hw

/-- Both binds, which differ in the call and in what counts as a refusal. -/
theorem follows_sendBind (c : LdapCall) (sent : Sent) (descriptor : Option Int) (code : OperationReturnCode)
    (refused : Prop) [Decidable refused] :
    Follows Issue (fun w => w.connection.stateMachine = .live .transportReady) (do
      emit (.bindInvoked (← get).tlsInplace)
      let _ ← dereference (← get).connection.ldapDefaults
      call c
      if sent.rc = ldapXConnecting then return OperationReturnCode.repeatLastOperation
      else if refused then
        ldapUnbind
        return .failure
      else trackWithHandlers .connectionBindOnRead sent.msgid descriptor code) (fun _ _ => True) := by
  apply follows_bindInvoked
  apply Along.get
  intro w
  apply Along.bind (along_dereference _)
  intro _
  apply Along.bind (along_call _)
  intro _
  apply Along.ite Along.pure
  apply Along.ite
  · exact Along.bind along_ldapUnbind fun _ => Along.pure
  · exact along_trackWithHandlers (by decide) _ _ _

theorem follows_connectionSaslBind (sent : Sent) (descriptor : Option Int) :
    Follows Issue (fun w => w.connection.stateMachine = .live .transportReady)
      (connectionSaslBind sent descriptor) (fun _ _ => True) := follows_sendBind .saslBind sent descriptor _ _

theorem follows_connectionLdapBind (sent : Sent) (descriptor : Option Int) :
    Follows Issue (fun w => w.connection.stateMachine = .live .transportReady)
      (connectionLdapBind sent descriptor) (fun _ _ => True) := follows_sendBind .saslInteractiveBind sent descriptor _ _

theorem follows_agrees {α : Type} {P : World → Prop} {p : Action α} (h : Along Issue p) :
    Follows Inner P p (fun _ t => ∃ s, P s ∧ s.Agrees t) := by
  intro w hw
  have hrun := (h.keep (I := w.Agrees) fun s t hst hs => hs.trans hst.calm.agrees) w (by constructor <;> rfl)
  exact ⟨ReflTransGen.mono (fun _ _ h => Inner.calm h.calm) _ _ hrun.1, fun a ha => ⟨w, hw, hrun.2 a ha⟩⟩

theorem along_inner {α : Type} {p : Action α} (h : Along Issue p) : Along Inner p :=
  h.mono fun _ _ h => Inner.calm h.calm

theorem follows_csmSetState {P : World → Prop} {state : LdapConnectionState}
    (h : ∀ w, P w → Enters w state) : Follows Inner P (csmSetState state) (fun _ _ => True) :=
  (Follows.step fun w hw => Inner.setState w state (h w hw)).consequence (fun _ hw => hw)
    (fun _ _ _ => trivial)

theorem along_searchDefinitions (base : Bytes) (first second : Sent) :
    Along Issue (searchDefinitions base first second) := by
  unfold searchDefinitions
  apply Along.bind (along_search _ _ _ _)
  intro code
  apply Along.ite Along.pure
  apply Along.bind (along_search _ _ _ _)
  intro code
  exact Along.ite Along.pure Along.pure

theorem along_ldapSchemaLoad (first second : Sent) : Along Issue (ldapSchemaLoad first second) := by
  unfold ldapSchemaLoad
  apply Along.get
  intro w
  cases w.connection.directoryType with
  | openldap => exact along_searchDefinitions _ _ _
  | activeDirectory =>
    apply Along.get
    intro w
    cases w.schemaEntryPath with
    | none =>
      apply Along.bind (along_search _ _ _ _)
      intro code
      exact Along.ite Along.pure Along.pure
    | some path => exact along_searchDefinitions path _ _
  | freeIpa => exact Along.pure
  | unknown => exact Along.pure
  | uninitialized => exact Along.pure

theorem follows_connectionBind (i : TickInput) :
    Follows Issue (fun w => w.connection.stateMachine = .live .transportReady) (connectionBind i)
      (fun _ w => w.connection.stateMachine = .live .transportReady) := by
  apply Follows.consequence (P := fun w => w.connection.stateMachine = .live .transportReady ∧
    w.connection.stateMachine = .live .transportReady)
    (Q := fun _ w => True ∧ w.connection.stateMachine = .live .transportReady)
  · apply Follows.keep
    · unfold connectionBind
      apply Follows.get
      intro w hw
      cases w.connection.bindType with
      | interactive =>
        exact (follows_connectionLdapBind _ _).consequence (by rintro _ rfl; exact hw)
          (fun _ _ _ => trivial)
      | simple =>
        exact (follows_connectionSaslBind _ _).consequence (by rintro _ rfl; exact hw)
          (fun _ _ _ => trivial)
    · intro s t hst hs
      rw [hst.calm.agrees.stateMachine, hs]
  · exact fun w hw => ⟨hw, hw⟩
  · exact fun _ w hw => hw.2

theorem follows_dereference {α : Type} {R : World → World → Prop} {P : World → Prop} (p : Pointer α) :
    Follows R P (dereference p) (fun a w => P w ∧ p = .live a) := by
  cases p with
  | live a => exact Follows.pure fun _ hw => ⟨hw, rfl⟩
  | null => exact Follows.throw
  | dangling => exact Follows.throw

theorem follows_csmSetState_after {α : Type} {P : World → Prop} {p : Action α} (hp : Along Issue p)
    {next : α → LdapConnectionState} {result : α → OperationReturnCode}
    (h : ∀ s, P s → ∀ a t, s.Agrees t → Enters t (next a)) :
    Follows Inner P (do let a ← p; csmSetState (next a); return result a) (fun _ _ => True) := by
  apply Follows.bind (follows_agrees hp)
  intro a
  apply Follows.bind
  · apply follows_csmSetState
    rintro t ⟨s, hs, ha⟩
    exact h s hs a t ha
  · intro _
    exact Along.pure.follows

theorem follows_csmSetState_now {P : World → Prop} {state : LdapConnectionState}
    {code : OperationReturnCode} (h : ∀ w, P w → Enters w state) :
    Follows Inner P (do csmSetState state; return code) (fun _ _ => True) :=
  Follows.bind (follows_csmSetState h) fun _ => Along.pure.follows

theorem follows_transportReady (i : TickInput) :
    Follows Inner (fun w => w.connection.stateMachine = .live .transportReady)
      (do
        let rc ← connectionBind i
        emit (.bindReturned rc)
        csmSetState (stateAfterBind rc)
        return rc)
      (fun _ _ => True) := by
  apply Follows.bind ((follows_connectionBind i).mono fun _ _ h => Inner.calm h.calm)
  intro rc
  apply Follows.bind (Follows.step fun w _ => Inner.calm (Calm.event w (.bindReturned rc) trivial))
  intro _
  apply Follows.bind
  · apply follows_csmSetState
    rintro _ ⟨w, hw, he⟩
    cases he
    exact Enters.bind rc hw rfl
  · intro _
    exact Along.pure.follows

theorem follows_csmNextState (i : TickInput) :
    Follows Inner (fun w => w.connection.stateMachine ≠ .live .error) (csmNextState i)
      (fun _ _ => True) := by
  unfold csmNextState
  apply Follows.get
  intro w hw
  apply Follows.bind (follows_dereference _)
  intro state
  cases state with
  | init =>
    apply Follows.get
    rintro _ ⟨rfl, hs⟩
    apply Follows.ite
    · intro htls
      apply follows_csmSetState_after (along_connectionStartTls _ _)
      rintro _ rfl rc t ha
      split
      · exact .startTls (ha.stateMachine.trans hs) (by rw [ha.config]; exact htls)
      · exact .error
    · intro htls
      apply follows_csmSetState_now
      rintro _ rfl
      exact .plain hs (Bool.eq_false_iff.mpr htls)
  | transportReady =>
    exact (follows_transportReady i).consequence (fun _ hs => hs.1 ▸ hs.2) (fun _ _ _ => trivial)
  | bound =>
    apply follows_csmSetState_now
    rintro _ ⟨rfl, hs⟩
    exact .detect hs
  | detectDirectory =>
    apply Follows.get
    rintro _ ⟨rfl, hs⟩
    apply Follows.ite
    · intro _
      apply follows_csmSetState_after (along_submit _ (by decide) _)
      rintro _ rfl rc t ha
      split
      · exact .detecting (ha.stateMachine.trans hs)
      · exact .error
    · intro htype
      apply follows_csmSetState_now
      rintro _ rfl
      exact .detected hs htype
  | requestSchema =>
    apply follows_csmSetState_after (along_ldapSchemaLoad _ _)
    rintro _ ⟨rfl, hs⟩ rc t ha
    cases rc with
    | success => exact .requested (ha.stateMachine.trans hs)
    | operationInProgress => exact .requesting (ha.stateMachine.trans hs)
    | _ => exact .error
  | checkSchema =>
    apply Follows.get
    rintro _ ⟨rfl, hs⟩
    apply Follows.ite
    · intro hready
      apply follows_csmSetState_now
      rintro _ rfl
      exact .checked hs hready
    · intro _
      exact Along.pure.follows
  | run =>
    refine Follows.bind (Follows.step (R := Inner) ?_) fun _ => Along.pure.follows
    rintro _ ⟨rfl, hs⟩
    exact Inner.running _ hs
  | error =>
    intro s hs
    exact absurd hs.2 hw
  | _ => exact Along.pure.follows

def World.Failed (w : World) (ldapDefaults : Pointer Unit) : Prop :=
  w.connection.stateMachine = .live .error ∧ w.frame = none ∧ w.connection.ldapDefaults = ldapDefaults

theorem follows_failed {α : Type} {p : Action α} {ldapDefaults : Pointer Unit} (h : Along Issue p) :
    Follows Tick (World.Failed · ldapDefaults) p (fun _ => (World.Failed · ldapDefaults)) := by
  apply Follows.mono (R := Issue) _ fun _ _ hst => Tick.inner (Inner.calm hst.calm)
  exact h.keep fun s t hst hs => ⟨hst.calm.agrees.stateMachine.trans hs.1,
    hst.calm.agrees.frame.trans hs.2.1, hst.calm.agrees.ldapDefaults.trans hs.2.2⟩

theorem along_vertoDel (event : Option ℕ) : Along Issue (vertoDel event) := by
  cases event with
  | none => exact Along.pure
  | some event => exact along_emit trivial

theorem follows_connectionClose (ldapDefaults : Pointer Unit) :
    Follows Tick (World.Failed · ldapDefaults) connectionClose (fun _ => (World.Failed · .null)) := by
  unfold connectionClose
  apply Follows.get
  intro w hw
  apply Follows.of_pre (P := (World.Failed · ldapDefaults)) _ (by rintro _ rfl; exact hw)
  apply Follows.bind (follows_failed (Along.ite Along.pure (along_dereference _)))
  intro _
  apply Follows.bind (follows_failed (along_vertoDel _))
  intro _
  apply Follows.bind (follows_failed (along_vertoDel _))
  intro _
  apply Follows.bind (follows_failed (along_dereference _))
  intro state
  apply Follows.bind (follows_failed (Along.ite Along.pure along_ldapUnbind))
  intro _
  apply Follows.ite
  · intro hnull
    exact Follows.pure fun _ hs => ⟨hs.1, hs.2.1, hs.2.2.trans (hw.2.2.symm.trans hnull)⟩
  · intro _
    apply Follows.bind (Follows.step fun s hs => Tick.lifecycle (Lifecycle.closed s hs.1))
    intro _
    apply Follows.pure
    rintro _ ⟨s, hs, he⟩
    cases he
    exact ⟨hs.1, hs.2.1, rfl⟩

theorem follows_reconnect (i : TickInput) (ldapDefaults : Pointer Unit) :
    Follows Tick (World.Failed · ldapDefaults) (reconnect i) (fun _ _ => True) := by
  unfold reconnect
  apply Follows.bind (follows_connectionClose ldapDefaults)
  intro _
  apply Follows.get
  intro w hw
  apply Follows.ite
  · intro _
    refine Follows.bind (Follows.step (R := Tick) ?_) fun _ => Along.follows ?_
    · rintro _ rfl
      exact Tick.lifecycle (Lifecycle.configure _ _ hw.1 hw.2.1 hw.2.2)
    · apply Along.bind (Along.step fun w => Tick.lifecycle (Lifecycle.attempt w))
      intro _
      exact Along.step fun w => Tick.lifecycle (Lifecycle.reset w)
  · intro _
    exact Along.pure.follows

theorem follows_tick (i : TickInput) :
    Follows Tick (fun w => w.frame = none) (csmNextState i) (fun _ _ => True) := by
  intro w hw
  by_cases hs : w.connection.stateMachine = .live .error
  · have hrun : exec (csmNextState i) w = exec (reconnect i >>= fun _ => pure .success) w := by
      rw [csmNextState, exec_bind_ok (exec_get w), hs]
      rfl
    rw [hrun]
    exact Follows.bind (follows_reconnect i _) (fun _ => Along.pure.follows) w ⟨hs, hw, rfl⟩
  · exact (follows_csmNextState i).mono (fun _ _ => Tick.inner) w hs

theorem along_resultOnRead (type : Int) (accepted : List Int) (r : Response) :
    Along Issue (resultOnRead type accepted r) := by
  unfold resultOnRead
  apply Along.ite Along.pure
  exact Along.bind (along_onErrorOperation r) fun _ => Along.pure

theorem along_directoryParseResult (r : Response) : Along Inner (directoryParseResult r) := by
  unfold directoryParseResult
  apply Along.ite
  · refine Along.bind (Along.step fun w => ?_) fun _ => Along.pure
    dsimp only [exec_modifyConnection]
    apply Inner.directory
    split
    · decide
    · assumption
  · apply Along.ite Along.pure
    exact Along.bind (along_inner (along_onErrorOperation r)) fun _ => Along.pure

theorem along_csmSetState_error : Along Inner (csmSetState .error) :=
  (follows_csmSetState fun _ _ => .error).along

theorem along_fail (code : OperationReturnCode) :
    Along Inner (do csmSetState .error; return code : Action OperationReturnCode) :=
  Along.bind along_csmSetState_error fun _ => Along.pure

theorem follows_ldapInstallTls {P : World → Prop} (code : Int) :
    Follows Inner P (ldapInstallTls code) (fun rc w =>
      (rc = ldapSuccess → w.tlsInplace = true) ∧
      (rc = ldapLocalError → .tlsInstalled ldapLocalError ∈ w.trace)) := by
  unfold ldapInstallTls
  apply Follows.bind (along_inner (along_call _)).follows
  intro _
  apply Follows.bind
    (Follows.step fun w _ => Inner.calm (Calm.event w (.tlsInstalled code) trivial))
  intro _
  apply Follows.ite
  · rintro rfl
    apply Follows.bind (Follows.step fun w _ => Inner.tlsInplace w)
    intro _
    apply Follows.pure
    rintro _ ⟨w, -, he⟩
    cases he
    exact ⟨fun _ => rfl, fun he => absurd he (by decide)⟩
  · intro hcode
    apply Follows.pure
    rintro _ ⟨w, -, he⟩
    cases he
    refine ⟨fun hs => absurd hs hcode, ?_⟩
    rintro rfl
    exact List.mem_cons_self

theorem follows_ensureTls {P : World → Prop} (code : Int) :
    Follows Inner P (ensureTls code) (fun rc w =>
      (rc = ldapSuccess → w.tlsInplace = true) ∧
      (rc = ldapLocalError → .tlsInstalled ldapLocalError ∈ w.trace)) := by
  unfold ensureTls
  apply Follows.get
  intro w _
  apply Follows.ite
  · intro htls
    apply Follows.pure
    rintro _ rfl
    exact ⟨fun _ => htls, fun he => absurd he (by decide)⟩
  · intro _
    exact follows_ldapInstallTls code

theorem along_connectionStartTlsOnRead (r : Response) : Along Inner (connectionStartTlsOnRead r) := by
  unfold connectionStartTlsOnRead
  apply Along.ite _ Along.pure
  apply Follows.along (Q := fun _ _ => True)
  apply Follows.bind (follows_ensureTls r.installTls)
  intro rc
  apply Follows.ite
  · intro _
    exact (Along.ite (along_fail _) Along.pure).follows
  · intro hrc
    apply follows_csmSetState_now
    rintro w ⟨hs, hl⟩
    by_cases he : rc = ldapSuccess
    · exact .secured (.inl (hs he))
    · exact .secured (.inr (hl (by tauto)))

theorem follows_bindOutcome (rc : Int) (r : Response) :
    Follows Inner (fun w => rc = ldapSuccess → Enters w .bound) (bindOutcome rc r)
      (fun _ _ => True) := by
  unfold bindOutcome
  apply Follows.ite
  · intro _
    apply Along.follows
    apply Along.get
    intro w
    exact Along.bind (along_inner (along_track (by decide) _)) fun _ => Along.pure
  · intro _
    apply Follows.ite
    · intro hrc
      exact follows_csmSetState_now fun w hw => hw hrc
    · intro _
      apply Along.follows
      cases r.diagnostics.resultCode with
      | none => exact Along.pure
      | some code => exact Along.ite (along_fail _) Along.pure

theorem follows_connectionBindOnRead (r : Response) :
    Follows Inner (fun w => w.Dispatching .connectionBindOnRead) (connectionBindOnRead r)
      (fun _ _ => True) := by
  unfold connectionBindOnRead
  apply Follows.ite
  · intro htype
    apply Follows.get
    intro w hw
    dsimp only
    cases w.connection.bindType with
    | interactive =>
      apply Follows.bind (follows_dereference _)
      intro _
      refine Follows.bind (Follows.step (R := Inner) ?_) fun _ => ?_
      · exact fun w _ => Inner.calm (Calm.event w _ trivial)
      refine Follows.bind (Follows.step (R := Inner) ?_) fun _ => ?_
      · rintro _ ⟨s, ⟨rfl, hd⟩, he⟩
        cases he
        exact Inner.bindAnswered _ r.bind.rc hw
      refine Follows.bind (Follows.step (R := Inner) ?_) fun _ => ?_
      · exact fun w _ => Inner.calm (Calm.local w _ _ _ r.bind.msgid _ _)
      apply (follows_bindOutcome r.bind.rc r).of_pre
      rintro _ ⟨s, ⟨s', ⟨s'', ⟨rfl, hd⟩, he''⟩, he'⟩, he⟩ hrc
      cases he''
      cases he'
      cases he
      exact .bound s''.connection.msgid (by rw [hrc]; rfl) hd
    | simple =>
      refine Follows.bind (Follows.step (R := Inner) ?_) fun _ => ?_
      · rintro _ rfl
        exact Inner.bindAnswered _ r.resultCode hw
      apply (follows_bindOutcome r.rc r).of_pre
      intro _ _ hrc
      rw [htype] at hrc
      exact absurd hrc (by decide)
  · intro _
    exact Along.pure.follows

theorem Calm.nSearchRequests_le {w w' : World} (h : Calm w w') :
    w.connection.nSearchRequests ≤ w'.connection.nSearchRequests := by
  cases h with
  | track handler msgid _ =>
    rw [exec_track]
    split_ifs <;> exact le_refl w.connection.nSearchRequests
  | search callback userData msgid =>
    rw [exec_trackSearch]
    dsimp only
    split_ifs
    · exact Nat.le_succ w.connection.nSearchRequests
    · exact le_refl w.connection.nSearchRequests
    · exact le_refl w.connection.nSearchRequests
  | _ => exact le_refl _

theorem findSearchRequest_lt {c : LdapConnectionCtx} {msgid : Int} {index : ℕ}
    (h : c.findSearchRequest msgid = some index) : index < c.nSearchRequests :=
  List.mem_range.mp (List.mem_of_find?_eq_some h)

theorem Handling.of_calm {w w' : World} (h : Calm w w') : Handling w w' := .inner (.calm h)

variable {request : LdapRequest} {r : Response} {c : LdapConnectionCtx}

/-- After an error has been reported the delivery is complete if the response could
not have been answered. -/
theorem follows_onErrorOperation {R : World → World → Prop} (hissue : ∀ w w', Issue w w' → R w w')
    (hno : request.onReadOperation = some .searchOnRead → ¬Answerable c r) :
    Follows R (fun w => w.connection = c ∧ delivery w.trace = .dispatched request r c)
      (do onErrorOperation r; return .failure : Action OperationReturnCode)
      (fun _ w => (delivery w.trace).Completed) := by
  apply Follows.bind (Q := fun _ w => delivery w.trace = .dispatched request r c)
  · apply Follows.mono (R := Issue) _ hissue
    exact ((along_onErrorOperation r).keep fun s t hst hs => hst.calm.delivery.trans hs).of_pre
      fun w hw => hw.2
  · intro _
    apply Follows.pure
    intro w hw
    rw [hw]
    exact hno

section Answers

variable {R : World → World → Prop}
  (hwrite : ∀ (w : World) (index : ℕ), index < w.connection.nSearchRequests →
    R w (w.record (.write .searchRequests index)))
  (hremove : ∀ (w : World) (index : ℕ), index < w.connection.nSearchRequests →
    delivery w.trace = .answering index → R w (w.removed index))
include hwrite

theorem follows_selectSearch {c : LdapConnectionCtx} {d : Delivery} {index : ℕ}
    (h : index < c.nSearchRequests) :
    Follows R (fun w => w.connection = c ∧ delivery w.trace = d)
      (selectIndex .searchRequests index) (fun _ w => w.connection = c ∧ delivery w.trace = d) := by
  unfold selectIndex
  apply Follows.bind (Q := fun _ w => w.connection = c ∧ delivery w.trace = d)
  · apply Follows.atomic
    · rintro w ⟨rfl, -⟩
      exact hwrite w index h
    · intro w _ _ hw he
      cases he
      exact hw
  · intro _
    exact Follows.ite (fun _ => Follows.pure fun _ hw => hw) (fun _ => Follows.throw)

include hremove

theorem follows_connectionRemoveSearchRequest (index : ℕ) :
    Follows R
      (fun w => index < w.connection.nSearchRequests ∧ delivery w.trace = .answering index)
      (connectionRemoveSearchRequest index) (fun _ w => delivery w.trace = .answered) := by
  unfold connectionRemoveSearchRequest
  apply Follows.get
  rintro w ⟨hlt, hd⟩
  apply Follows.bind
  · exact (Follows.forM fun i hi => follows_selectSearch hwrite
      (LdapConnectionCtx.writtenSearches_lt hlt hi)).of_pre (by rintro _ rfl; exact ⟨rfl, hd⟩)
  intro _
  apply Follows.atomic
  · rintro t ⟨hc, ht⟩
    exact hremove t index (by rw [hc]; exact hlt) ht
  · intro _ _ _ _ he
    cases he
    rfl

/-- The answer to a search, for any relation the callback and the removal follow. -/
theorem follows_answerSearch {index : ℕ}
    (hcallback : ∀ (w : World) (callback : SearchCallback) (entries : List LdEntry), w.connection = c →
      delivery w.trace = .dispatched request r c →
      (c.searchRequests index).onSearchOperation = some callback → readEntries r = some entries →
      R w (w.record (.searchCallback index w.epoch r.msgid callback
        (c.searchRequests index).userData entries c)))
    (hcall : ∀ (callback : SearchCallback) (entries : List LdEntry),
      (c.searchRequests index).onSearchOperation = some callback → readEntries r = some entries →
      Along (fun w w' => R w w' ∧ Calm w w') (callSearchCallback callback entries r))
    (hfound : c.findSearchRequest r.msgid = some index) :
    Follows R (fun w => w.connection = c ∧ delivery w.trace = .dispatched request r c)
      (answerSearch index r) (fun _ w => (delivery w.trace).Completed) := by
  have hgiveUp : ¬Answerable c r → Follows R
      (fun w => w.connection = c ∧ delivery w.trace = .dispatched request r c)
      (pure .failure : Action OperationReturnCode) (fun _ w => (delivery w.trace).Completed) := by
    intro hno
    apply Follows.pure
    rintro w ⟨-, hd⟩
    rw [hd]
    exact fun _ => hno
  unfold answerSearch
  apply Follows.get
  rintro w ⟨rfl, hd⟩
  dsimp only
  cases hc : (w.connection.searchRequests index).onSearchOperation with
  | none =>
    apply (hgiveUp _).of_pre (by rintro _ rfl; exact ⟨rfl, hd⟩)
    rintro ⟨-, index', callback, entries, hfound', hc', -⟩
    cases hfound.symm.trans hfound'
    rw [hc] at hc'
    cases hc'
  | some callback =>
    cases he : readEntries r with
    | none =>
      apply (hgiveUp _).of_pre (by rintro _ rfl; exact ⟨rfl, hd⟩)
      rintro ⟨-, index', callback, entries, -, -, he'⟩
      rw [he] at he'
      cases he'
    | some entries =>
      dsimp only
      apply Follows.bind (Q := fun _ t => index < t.connection.nSearchRequests ∧
        delivery t.trace = .answering index)
      · apply Follows.atomic
        · rintro _ rfl
          exact hcallback _ callback entries rfl hd hc he
        · rintro _ _ _ rfl he
          cases he
          exact ⟨findSearchRequest_lt hfound, rfl⟩
      intro _
      apply Follows.bind (Q := fun _ t => index < t.connection.nSearchRequests ∧
        delivery t.trace = .answering index)
      · apply Follows.mono (R := fun w w' => R w w' ∧ Calm w w') _ fun _ _ h => h.1
        exact (hcall callback entries hc he).keep fun s t hst hs =>
          ⟨lt_of_lt_of_le hs.1 hst.2.nSearchRequests_le, hst.2.delivery.trans hs.2⟩
      intro code
      apply Follows.bind (follows_connectionRemoveSearchRequest hwrite hremove index)
      intro _
      apply Follows.pure
      intro t ht
      rw [ht]
      trivial

theorem follows_searchOnRead (hissue : ∀ w w', Issue w w' → R w w')
    (hcallback : ∀ (w : World) (index : ℕ) (callback : SearchCallback) (entries : List LdEntry),
      w.connection = c → delivery w.trace = .dispatched request r c →
      (r.rc = ldapResSearchEntry ∨ r.rc = ldapResSearchResult) →
      c.findSearchRequest r.msgid = some index →
      (c.searchRequests index).onSearchOperation = some callback → readEntries r = some entries →
      R w (w.record (.searchCallback index w.epoch r.msgid callback
        (c.searchRequests index).userData entries c)))
    (hcall : ∀ (index : ℕ) (callback : SearchCallback) (entries : List LdEntry),
      (r.rc = ldapResSearchEntry ∨ r.rc = ldapResSearchResult) →
      c.findSearchRequest r.msgid = some index →
      (c.searchRequests index).onSearchOperation = some callback → readEntries r = some entries →
      Along (fun w w' => R w w' ∧ Calm w w') (callSearchCallback callback entries r)) :
    Follows R (fun w => w.connection = c ∧ delivery w.trace = .dispatched request r c)
      (searchOnRead r) (fun _ w => (delivery w.trace).Completed) := by
  unfold searchOnRead
  apply Follows.ite
  · intro htype
    apply Follows.get
    rintro w ⟨rfl, hd⟩
    cases hf : w.connection.findSearchRequest r.msgid with
    | none =>
      apply (follows_onErrorOperation hissue _).of_pre (by rintro _ rfl; exact ⟨rfl, hd⟩)
      rintro - ⟨-, index, callback, entries, hfound, -⟩
      rw [hf] at hfound
      cases hfound
    | some index =>
      apply (follows_answerSearch hwrite hremove _ _ hf).of_pre (by rintro _ rfl; exact ⟨rfl, hd⟩)
      · exact fun t callback entries hc hd => hcallback t index callback entries hc hd htype hf
      · exact fun callback entries => hcall index callback entries htype hf
  · intro htype
    have hno : request.onReadOperation = some .searchOnRead → ¬Answerable c r :=
      fun _ hanswer => htype hanswer.1
    apply Follows.ite
    · intro _
      apply Follows.pure
      rintro w ⟨-, hd⟩
      rw [hd]
      exact hno
    · intro _
      exact follows_onErrorOperation hissue hno

end Answers

/-- `search_on_read` is a path of inner and answer steps. -/
theorem follows_searchOnRead_handling (hhandler : request.onReadOperation = some .searchOnRead) :
    Follows Handling (fun w => w.connection = c ∧ delivery w.trace = .dispatched request r c)
      (searchOnRead r) (fun _ w => (delivery w.trace).Completed) := by
  apply follows_searchOnRead
  · exact fun w index live => .answer (.write w index live)
  · exact fun w index live answering => .answer (.remove w index live answering)
  · exact fun _ _ h => .of_calm h.calm
  · rintro w index callback entries rfl hd htype hfound hc he
    exact .answer (.callback w index callback request r entries hd hhandler hfound hc
      ⟨htype, index, callback, entries, hfound, hc, he⟩)
  · intro _ callback entries _ _ _ _
    exact (along_callSearchCallback callback entries r).mono fun _ _ h => ⟨.of_calm h, h⟩

/-- The start of a handler: the request is in hand and its response has just been
recorded. -/
def Starts (handler : OperationCallback) (request : LdapRequest) (r : Response) (w : World) : Prop :=
  w.Dispatching handler ∧ request.onReadOperation = some handler ∧
    delivery w.trace = .dispatched request r w.connection

theorem follows_inner_handler {handler : OperationCallback} {p : Action OperationReturnCode}
    (hne : handler ≠ .searchOnRead)
    (h : Follows Inner (fun w => w.Dispatching handler) p (fun _ _ => True)) :
    Follows Handling (Starts handler request r) p (fun _ w => (delivery w.trace).Completed) := by
  intro w ⟨hd, hh, hdel⟩
  have hrun := (h.keep (I := fun s => delivery s.trace = .dispatched request r w.connection)
    fun s t hst hs => hst.delivery.trans hs) w ⟨hd, hdel⟩
  refine ⟨Relation.ReflTransGen.mono (fun _ _ => Handling.inner) _ _ hrun.1, fun a ha => ?_⟩
  change (delivery (exec p w).2.trace).Completed
  rw [(hrun.2 a ha).2]
  intro hs
  exact absurd (Option.some.inj (hh.symm.trans hs)) hne

/-- Every handler is a path of inner and answer steps and completes the delivery. -/
theorem follows_handle (handler : OperationCallback) (request : LdapRequest) (r : Response) :
    Follows Handling (Starts handler request r) (handler.handle r)
      (fun _ w => (delivery w.trace).Completed) := by
  cases handler with
  | addOnRead =>
    exact follows_inner_handler (by decide) (along_inner (along_resultOnRead _ _ r)).follows
  | searchOnRead =>
    intro w hw
    exact follows_searchOnRead_handling hw.2.1 w ⟨rfl, hw.2.2⟩
  | modifyOnRead =>
    exact follows_inner_handler (by decide) (along_inner (along_resultOnRead _ _ r)).follows
  | deleteOnRead =>
    exact follows_inner_handler (by decide) (along_inner (along_resultOnRead _ _ r)).follows
  | whoamiOnRead => exact follows_inner_handler (by decide) Along.pure.follows
  | renameOnRead =>
    exact follows_inner_handler (by decide) (along_inner (along_resultOnRead _ _ r)).follows
  | directoryParseResult =>
    exact follows_inner_handler (by decide) (along_directoryParseResult r).follows
  | connectionBindOnRead => exact follows_inner_handler (by decide) (follows_connectionBindOnRead r)
  | connectionStartTlsOnRead =>
    exact follows_inner_handler (by decide) (along_connectionStartTlsOnRead r).follows

def World.Processing (w : World) (slot : ℕ) : Prop := w.top = some slot ∧ delivery w.trace = .idle

def World.Idle (w : World) : Prop :=
  w.frame.isSome = true ∧ w.top = none ∧ (delivery w.trace).Settled

theorem frame_of_top {w : World} {slot : ℕ} (h : w.top = some slot) : w.frame.isSome = true := by
  obtain ⟨f, hf, -⟩ := Option.bind_eq_some_iff.mp h
  rw [hf, Option.isSome_some]

theorem follows_releaseTop :
    Follows Serving (fun w => (delivery w.trace).Completed ∧ w.frame.isSome = true) releaseTop
      (fun _ => World.Idle) := by
  apply Follows.atomic
  · exact fun w hw => .serve (.release w hw.2 hw.1)
  · rintro w _ _ ⟨hs, hw⟩ he
    cases he
    obtain ⟨f, hf⟩ := Option.isSome_iff_exists.mp hw
    refine ⟨?_, ?_, .inr hs⟩
    · simp only [hf, Option.map_some, Option.isSome_some]
    · simp only [World.top, hf, Option.map_some, Option.bind_some]

theorem follows_dispatchRequest {slot : ℕ} {request : LdapRequest} (r : Response) :
    Follows Serving (fun w => w.Processing slot ∧ w.connection.readRequests slot = request)
      (dispatchRequest slot request r) (fun _ => World.Idle) := by
  unfold dispatchRequest
  apply Follows.bind (Q := fun _ w => w.top = some slot ∧ w.connection.readRequests slot = request ∧
    w.connection.msgid = request.msgid ∧ delivery w.trace = .dispatched request r w.connection)
  · apply Follows.atomic
    · rintro w ⟨hw, rfl⟩
      exact .serve (.dispatch w slot r hw.1 hw.2)
    · rintro w _ _ ⟨hw, hr⟩ he
      cases he
      exact ⟨hw.1, hr, rfl, rfl⟩
  intro _
  cases hh : request.onReadOperation with
  | none =>
    apply follows_releaseTop.of_pre
    rintro w ⟨hw, -, -, hd⟩
    refine ⟨?_, frame_of_top hw⟩
    rw [hd]
    intro hs
    rw [hh] at hs
    cases hs
  | some handler =>
    have hrun := (follows_handle handler request r).keep
      (I := fun w => w.frame.isSome = true) fun s t hst hs => by rw [hst.frame]; exact hs
    apply Follows.bind ((hrun.mono fun _ _ => Serving.handling).of_pre _)
    · intro _
      exact follows_releaseTop
    · rintro w ⟨hw, rfl, hm, hd⟩
      exact ⟨⟨⟨slot, hw, hh, hm.symm⟩, hh, hd⟩, frame_of_top hw⟩

theorem along_connectionOptionalTransitionOnError :
    Along Inner connectionOptionalTransitionOnError := by
  unfold connectionOptionalTransitionOnError
  apply Along.get
  intro w
  apply Along.bind (along_dereference _)
  intro state
  exact Along.ite along_csmSetState_error Along.pure

theorem follows_deferRequest {slot : ℕ} {request : LdapRequest} :
    Follows Serving (fun w => w.Processing slot ∧ w.connection.readRequests slot = request)
      (deferRequest request) (fun _ => World.Idle) := by
  apply Follows.atomic
  · rintro w ⟨hw, rfl⟩
    exact .serve (.defer w slot hw.1 hw.2)
  · rintro w _ t ⟨hw, -⟩ he
    obtain ⟨f, hf⟩ := Option.isSome_iff_exists.mp (frame_of_top hw.1)
    rw [exec_deferRequest] at he
    split_ifs at he
    · cases he
      refine ⟨?_, ?_, .inl hw.2⟩
      · simp only [World.deferred, World.record, hf, Option.map_some, Option.isSome_some]
      · simp only [World.top, World.deferred, World.record, hf, Option.map_some, Option.bind_some]
    · cases he

theorem follows_processRequest (slot : ℕ) (r : Response) :
    Follows Serving (fun w => w.Processing slot) (processRequest slot r)
      (fun more w => if more then w.Idle else w.Processing slot) := by
  unfold processRequest
  apply Follows.get
  intro w hw
  apply Follows.bind (Q := fun _ t => t.Processing slot ∧
    t.connection.readRequests slot = w.connection.readRequests slot)
  · apply Follows.atomic
    · exact fun s _ => .handling (.inner (.calm (Calm.event s _ trivial)))
    · rintro _ _ _ rfl he
      cases he
      exact ⟨hw, rfl⟩
  intro _
  apply Follows.ite
  · intro _
    apply Follows.ite
    · intro _
      apply Follows.bind (Q := fun _ t => (delivery t.trace).Completed ∧ t.frame.isSome = true)
      · apply Follows.atomic
        · rintro s ⟨hs, hr⟩
          rw [← hr]
          exact .serve (.resultError s slot hs.1 hs.2)
        · rintro s _ _ ⟨⟨htop, hd⟩, -⟩ he
          cases he
          exact ⟨trivial, frame_of_top htop⟩
      intro _
      apply Follows.bind (Q := fun _ t => (delivery t.trace).Completed ∧ t.frame.isSome = true)
      · apply Follows.mono _ fun _ _ h => Serving.handling (.inner h)
        exact along_connectionOptionalTransitionOnError.keep fun s t hst hs => by
          rw [hst.frame, hst.delivery]; exact hs
      intro _
      exact Follows.bind follows_releaseTop fun _ => Follows.pure fun t ht => ht
    · intro _
      exact Follows.pure fun t ht => ht.1
  · intro _
    apply Follows.ite
    · intro _
      apply Follows.bind follows_deferRequest
      exact fun _ => Follows.pure fun t ht => ht
    · intro _
      apply Follows.bind (follows_dispatchRequest r)
      exact fun _ => Follows.pure fun t ht => ht

def World.Drained (w : World) : Prop :=
  requestQueueEmpty w.connection.callqueue = true ∨ w.connection.callqueue.head = none

theorem follows_popRequest :
    Follows Serving World.Idle popRequest (fun top w => match top with
      | none => w.Idle ∧ w.Drained
      | some slot => w.Processing slot) := by
  intro w hw
  cases hp : requestQueuePop w.connection.callqueue w.connection.links with
  | mk top queue =>
    cases top with
    | none =>
      rw [exec_popRequest_none hp]
      refine ⟨.refl, ?_⟩
      rintro _ ⟨⟩
      exact ⟨hw, requestQueuePop_eq_none hp⟩
    | some slot =>
      rw [exec_popRequest_some hp]
      refine ⟨.single (.serve (.pop w slot queue hw.1 hw.2.1 hw.2.2 hp)), ?_⟩
      rintro _ ⟨⟩
      obtain ⟨f, hf⟩ := Option.isSome_iff_exists.mp hw.1
      refine ⟨?_, rfl⟩
      simp only [World.top, World.popped, hf, Option.map_some, Option.bind_some]

theorem World.Idle.popped {w : World} (hw : w.Idle) {slot : ℕ} {queue : RequestQueue ℕ}
    (hpop : requestQueuePop w.connection.callqueue w.connection.links = (some slot, queue)) :
    (w.popped slot queue).Processing slot := by
  have hfollows := (follows_popRequest w hw).2 (some slot)
  rw [exec_popRequest_some hpop] at hfollows
  exact hfollows rfl

theorem follows_readLoop (responses : List Response) :
    Follows Serving World.Idle (readLoop responses)
      (fun drained w => if drained then w.Idle ∧ w.Drained else ∃ slot, w.Processing slot) := by
  induction responses with
  | nil =>
    apply Follows.bind follows_popRequest
    intro top
    cases top with
    | none => exact Follows.pure fun _ hw => hw
    | some slot => exact Follows.throw
  | cons r rest ih =>
    apply Follows.bind follows_popRequest
    intro top
    cases top with
    | none => exact Follows.pure fun _ hw => hw
    | some slot =>
      apply Follows.bind (follows_processRequest slot r)
      intro more
      cases more with
      | true => exact ih
      | false => exact Follows.pure fun _ hw => ⟨slot, hw⟩

theorem follows_connectionOnRead (responses : List Response) :
    Follows Move (fun w => w.frame = none) (connectionOnRead responses) (fun _ w => w.frame = none) := by
  unfold connectionOnRead
  apply Follows.bind (Q := fun _ => World.Idle)
  · apply Follows.atomic
    · exact fun w hw => .pass (.begin w hw)
    · intro w _ _ _ he
      cases he
      exact ⟨rfl, rfl, .inl rfl⟩
  intro _
  apply Follows.bind ((follows_readLoop responses).mono fun _ _ => Move.serving)
  intro drained
  cases drained with
  | true =>
    apply Follows.atomic
    · exact fun w hw => .pass (.finish w hw.1.1 hw.1.2.1 hw.1.2.2 hw.2)
    · intro w _ t _ he
      obtain ⟨_, w₁, -, he⟩ := exec_bind_eq_ok he
      obtain ⟨_, w₂, -, he⟩ := exec_bind_eq_ok he
      obtain ⟨_, w₃, -, he⟩ := exec_bind_eq_ok he
      cases he
      rfl
  | false =>
    apply Follows.atomic
    · exact fun w ⟨slot, htop, hidle⟩ => .pass (.abandon w slot htop hidle)
    · intro w _ _ _ he
      cases he
      rfl

theorem follows_stepPerform (step : Step) :
    Follows Move (fun w => w.frame = none) step.perform (fun _ w => w.frame = none) := by
  have keep : ∀ {p : Action OperationReturnCode}, Follows Tick (fun w => w.frame = none) p
      (fun _ _ => True) → Follows Move (fun w => w.frame = none) (do let _ ← p : Action Unit)
      (fun _ w => w.frame = none) := by
    intro p hp
    apply Follows.bind (Q := fun _ w => w.frame = none)
    · apply Follows.mono _ fun _ _ => Move.tick
      exact (hp.keep (I := fun w => w.frame = none) fun s t hst hs => hst.frame.trans hs).consequence
        (fun _ hw => ⟨hw, hw⟩) fun _ _ hw => hw.2
    · exact fun _ => Follows.pure fun _ hw => hw
  cases step with
  | tick input => exact keep (follows_tick input)
  | read responses => exact follows_connectionOnRead responses
  | submit submission =>
    exact keep ((along_perform submission).mono fun _ _ h => Tick.inner (.calm h.calm)).follows
  | installErrorHandler =>
    apply Follows.atomic
    · exact fun w _ => .tick (.lifecycle (.errorHandler w))
    · intro w _ _ hw he
      cases he
      exact hw

/-- A run is a path of the transition relation. -/
theorem follows_performSteps (steps : List Step) :
    Follows Move (fun w => w.frame = none) (performSteps steps) (fun _ w => w.frame = none) :=
  Follows.forM fun step _ => follows_stepPerform step

/-- An invariant of the transition relation holds wherever a run ends up. -/
theorem run_invariant {config : LdapConnectionConfig} {path : Option Bytes} {I : World → Prop}
    (hinit : I (.initial config path)) (hmove : ∀ s t, Move s t → I s → I t) (steps : List Step) :
    I (run config path steps).2 :=
  (follows_performSteps steps).invariant hmove rfl hinit

theorem Reachable.frame {config : LdapConnectionConfig} {path : Option Bytes} {w : World}
    (h : Reachable config path w) : w.frame = none := by
  obtain ⟨steps, hsteps⟩ := h
  have hrun := (follows_performSteps steps (.initial config path) rfl).2 ()
  rw [run] at hsteps
  rw [hsteps] at hrun
  exact hrun rfl

end Libdomain.Connection
