import Libdomain.Connection.Reading
import Libdomain.Program.Ignorance

/-! # What depends on the schema entry path

The variable of `ad_schema.c` is read when the schema of Active Directory is requested and
nowhere else. All other functions do the same whatever it holds.
-/
namespace Libdomain.Connection
open Libdomain.Queue Libdomain.Program

def World.withPath (path : Option Bytes) (w : World) : World := { w with schemaEntryPath := path }

/-- A program that does the same whatever the schema entry path. -/
abbrev IgnoresPath {α : Type} (p : Action α) : Prop := Ignores World.withPath p

theorem ignores_modifyWorld {f : World → World} (h : ∀ path w, f (w.withPath path) = (f w).withPath path) :
    IgnoresPath (modifyWorld f) := .modify h

theorem ignores_emit (e : Event) : IgnoresPath (emit e) := ignores_modifyWorld fun _ _ => rfl

theorem ignores_modifyConnection (f : LdapConnectionCtx → LdapConnectionCtx) :
    IgnoresPath (modifyConnection f) := ignores_modifyWorld fun _ _ => rfl

theorem ignores_call (c : LdapCall) : IgnoresPath (call c) := ignores_modifyWorld fun _ _ => rfl

theorem ignores_selectIndex (array : RequestArray) (index : ℕ) : IgnoresPath (selectIndex array index) := by
  unfold selectIndex
  apply Ignores.bind (ignores_emit _)
  intro _
  exact Ignores.ite .pure .throw

theorem ignores_dereference {α : Type} (p : Pointer α) : IgnoresPath (dereference p) := by
  cases p with
  | live value => exact Ignores.pure
  | null => exact Ignores.throw
  | dangling => exact Ignores.throw

theorem ignores_track (handler : OperationCallback) (msgid : Int) : IgnoresPath (track handler msgid) := by
  unfold track
  refine Ignores.get (fun _ _ => rfl) fun w => ?_
  apply Ignores.bind (ignores_emit _)
  intro _
  apply Ignores.bind (ignores_selectIndex _ _)
  intro _
  apply Ignores.bind (ignores_modifyConnection _)
  intro _
  exact ignores_emit _

theorem ignores_submit (request : LdapCall) (handler : OperationCallback) (sent : Sent) :
    IgnoresPath (submit request handler sent) := by
  unfold submit
  apply Ignores.bind (ignores_call _)
  intro _
  exact Ignores.ite .pure (Ignores.bind (ignores_track _ _) fun _ => .pure)

theorem ignores_search (arguments : SearchArguments) (callback : Option SearchCallback)
    (userData : UserData) (sent : Sent) : IgnoresPath (search arguments callback userData sent) := by
  unfold search
  apply Ignores.bind (ignores_call _)
  intro _
  apply Ignores.ite .pure
  unfold trackSearch
  refine Ignores.get (fun _ _ => rfl) fun w => ?_
  apply Ignores.bind (ignores_emit _)
  intro _
  apply Ignores.bind (ignores_track _ _)
  intro _
  refine Ignores.get (fun _ _ => rfl) fun w => ?_
  apply Ignores.ite .pure
  apply Ignores.bind (ignores_selectIndex _ _)
  intro _
  apply Ignores.bind (ignores_emit _)
  intro _
  exact Ignores.bind (ignores_modifyConnection _) fun _ => .pure

theorem ignores_perform (s : Submission) : IgnoresPath (perform s) := by
  unfold perform
  cases s.operation with
  | search arguments callback userData => exact ignores_search arguments callback userData s.sent
  | _ => exact ignores_submit _ _ s.sent

theorem ignores_performAll (submissions : List Submission) : IgnoresPath (performAll submissions) :=
  Ignores.forM fun s => Ignores.bind (ignores_perform s) fun _ => .pure

theorem ignores_connectionRemoveSearchRequest (index : ℕ) :
    IgnoresPath (connectionRemoveSearchRequest index) := by
  unfold connectionRemoveSearchRequest
  refine Ignores.get (fun _ _ => rfl) fun w => ?_
  apply Ignores.bind (Ignores.forM fun i => ignores_selectIndex _ i)
  intro _
  exact ignores_modifyWorld fun _ _ => rfl

theorem ignores_untilFailure {α : Type} {callback : α → Action OperationReturnCode}
    (h : ∀ x, IgnoresPath (callback x)) (xs : List α) : IgnoresPath (untilFailure callback xs) := by
  induction xs with
  | nil => exact Ignores.pure
  | cons x xs ih =>
    apply Ignores.bind (h x)
    intro code
    exact Ignores.ite .pure ih

theorem ignores_ldapSchemaCallbackCommon {callback : Bytes → Action OperationReturnCode}
    (h : ∀ value, IgnoresPath (callback value)) (entries : List LdEntry) :
    IgnoresPath (ldapSchemaCallbackCommon callback entries) := by
  apply ignores_untilFailure
  intro entry
  apply ignores_untilFailure
  intro a
  cases a.values with
  | none => exact Ignores.throw
  | some values => exact ignores_untilFailure h values

theorem ignores_appendValueCallback (append : LdapSchema → SchemaDefinition → Bool × LdapSchema)
    (parse : Bytes → Option SchemaDefinition) (value : Bytes) :
    IgnoresPath (appendValueCallback append parse value) := by
  unfold appendValueCallback
  cases parse value with
  | none => exact Ignores.pure
  | some d =>
    refine Ignores.get (fun _ _ => rfl) fun w => ?_
    exact Ignores.bind (ignores_modifyConnection _) fun _ => .pure

theorem ignores_subschemaSubentryCallback (value : Bytes) : IgnoresPath (subschemaSubentryCallback value) :=
  Ignores.bind (Ignores.overwrite (some value) fun _ _ => rfl) fun _ => .pure

theorem ignores_callSearchCallback (callback : SearchCallback) (entries : List LdEntry) (r : Response) :
    IgnoresPath (callSearchCallback callback entries r) := by
  cases callback with
  | printSearchCallback => exact Ignores.pure
  | attributeTypesSearchCallback =>
    exact ignores_ldapSchemaCallbackCommon (ignores_appendValueCallback _ _) entries
  | objectClassesSearchCallback =>
    exact ignores_ldapSchemaCallbackCommon (ignores_appendValueCallback _ _) entries
  | subschemaSubentrySearchCallback =>
    exact ignores_ldapSchemaCallbackCommon ignores_subschemaSubentryCallback entries
  | application => exact Ignores.bind (ignores_performAll _) fun _ => .pure

theorem ignores_csmSetState (state : LdapConnectionState) : IgnoresPath (csmSetState state) := by
  unfold csmSetState
  refine Ignores.get (fun _ _ => rfl) fun w => ?_
  apply Ignores.bind (ignores_dereference _)
  intro current
  exact Ignores.bind (ignores_emit _) fun _ => ignores_modifyConnection _

theorem ignores_setState (state : LdapConnectionState) (code : OperationReturnCode) :
    IgnoresPath (do csmSetState state; return code) :=
  Ignores.bind (ignores_csmSetState state) fun _ => .pure

theorem ignores_reportError (r : Response) :
    IgnoresPath (do onErrorOperation r; return .failure : Action OperationReturnCode) := by
  unfold onErrorOperation
  refine Ignores.bind (Ignores.get (fun _ _ => rfl) fun w => ?_) fun _ => .pure
  exact Ignores.ite (Ignores.bind (ignores_emit _) fun _ => ignores_performAll _) .pure

theorem ignores_resultOnRead (type : Int) (accepted : List Int) (r : Response) :
    IgnoresPath (resultOnRead type accepted r) := .ite .pure (ignores_reportError r)

theorem ignores_answerSearch (index : ℕ) (r : Response) : IgnoresPath (answerSearch index r) := by
  unfold answerSearch
  refine Ignores.get (fun _ _ => rfl) fun w => ?_
  dsimp only
  cases (w.connection.searchRequests index).onSearchOperation with
  | none => exact Ignores.pure
  | some callback =>
    cases readEntries r with
    | none => exact Ignores.pure
    | some entries =>
      apply Ignores.bind (ignores_emit _)
      intro _
      apply Ignores.bind (ignores_callSearchCallback callback entries r)
      intro code
      exact Ignores.bind (ignores_connectionRemoveSearchRequest index) fun _ => .pure

theorem ignores_searchOnRead (r : Response) : IgnoresPath (searchOnRead r) := by
  unfold searchOnRead
  apply Ignores.ite _ (Ignores.ite .pure (ignores_reportError r))
  refine Ignores.get (fun _ _ => rfl) fun w => ?_
  cases w.connection.findSearchRequest r.msgid with
  | none => exact ignores_reportError r
  | some index => exact ignores_answerSearch index r

theorem ignores_directoryParseResult (r : Response) : IgnoresPath (directoryParseResult r) := by
  unfold directoryParseResult
  apply Ignores.ite _ (Ignores.ite .pure (ignores_reportError r))
  exact Ignores.bind (ignores_modifyConnection _) fun _ => .pure

theorem ignores_connectionStartTlsOnRead (r : Response) : IgnoresPath (connectionStartTlsOnRead r) := by
  unfold connectionStartTlsOnRead
  apply Ignores.ite _ .pure
  refine Ignores.bind (Ignores.get (fun _ _ => rfl) fun w => Ignores.ite .pure ?_) fun tlsRc => ?_
  · unfold ldapInstallTls
    apply Ignores.bind (ignores_call _)
    intro _
    apply Ignores.bind (ignores_emit _)
    intro _
    exact Ignores.ite (Ignores.bind (ignores_modifyWorld fun _ _ => rfl) fun _ => .pure) .pure
  · exact Ignores.ite (Ignores.ite (ignores_setState _ _) .pure) (ignores_setState _ _)

theorem ignores_bindOutcome (rc : Int) (r : Response) : IgnoresPath (bindOutcome rc r) := by
  unfold bindOutcome
  apply Ignores.ite
  · refine Ignores.get (fun _ _ => rfl) fun w => ?_
    exact Ignores.bind (ignores_track _ _) fun _ => .pure
  · apply Ignores.ite (ignores_setState _ _)
    cases r.diagnostics.resultCode with
    | none => exact Ignores.pure
    | some code => exact Ignores.ite (ignores_setState _ _) .pure

theorem ignores_connectionBindOnRead (r : Response) : IgnoresPath (connectionBindOnRead r) := by
  unfold connectionBindOnRead
  apply Ignores.ite _ .pure
  refine Ignores.get (fun _ _ => rfl) fun w => ?_
  dsimp only
  cases w.connection.bindType with
  | interactive =>
    apply Ignores.bind (ignores_dereference _)
    intro _
    apply Ignores.bind (ignores_call _)
    intro _
    apply Ignores.bind (ignores_emit _)
    intro _
    exact Ignores.bind (ignores_modifyConnection _) fun _ => ignores_bindOutcome _ r
  | simple => exact Ignores.bind (ignores_emit _) fun _ => ignores_bindOutcome _ r

theorem ignores_handle (handler : OperationCallback) (r : Response) : IgnoresPath (handler.handle r) := by
  cases handler with
  | addOnRead => exact ignores_resultOnRead _ _ r
  | searchOnRead => exact ignores_searchOnRead r
  | modifyOnRead => exact ignores_resultOnRead _ _ r
  | deleteOnRead => exact ignores_resultOnRead _ _ r
  | whoamiOnRead => exact Ignores.pure
  | renameOnRead => exact ignores_resultOnRead _ _ r
  | directoryParseResult => exact ignores_directoryParseResult r
  | connectionBindOnRead => exact ignores_connectionBindOnRead r
  | connectionStartTlsOnRead => exact ignores_connectionStartTlsOnRead r

theorem ignores_releaseTop : IgnoresPath releaseTop := ignores_modifyWorld fun _ _ => rfl

theorem ignores_dispatchRequest (slot : ℕ) (request : LdapRequest) (r : Response) :
    IgnoresPath (dispatchRequest slot request r) := by
  unfold dispatchRequest announce
  refine Ignores.bind (Ignores.bind (ignores_modifyConnection _) fun _ => ?_) fun _ => ?_
  · exact Ignores.get (fun _ _ => rfl) fun w => ignores_emit _
  · cases request.onReadOperation with
    | none => exact ignores_releaseTop
    | some handler => exact Ignores.bind (ignores_handle handler r) fun _ => ignores_releaseTop

theorem ignores_deferRequest (request : LdapRequest) : IgnoresPath (deferRequest request) := by
  unfold deferRequest
  refine Ignores.get (fun _ _ => rfl) fun w => ?_
  exact Ignores.bind (ignores_selectIndex _ _) fun _ => ignores_modifyWorld fun _ _ => rfl

theorem ignores_connectionOptionalTransitionOnError : IgnoresPath connectionOptionalTransitionOnError := by
  unfold connectionOptionalTransitionOnError
  refine Ignores.get (fun _ _ => rfl) fun w => ?_
  apply Ignores.bind (ignores_dereference _)
  intro state
  exact Ignores.ite (ignores_csmSetState _) .pure

theorem ignores_processRequest (slot : ℕ) (r : Response) : IgnoresPath (processRequest slot r) := by
  unfold processRequest
  refine Ignores.get (fun _ _ => rfl) fun w => ?_
  apply Ignores.bind (ignores_call _)
  intro _
  apply Ignores.ite
  · refine Ignores.ite ?_ .pure
    apply Ignores.bind (ignores_emit _)
    intro _
    apply Ignores.bind ignores_connectionOptionalTransitionOnError
    intro _
    exact Ignores.bind ignores_releaseTop fun _ => .pure
  · apply Ignores.ite
    · exact Ignores.bind (ignores_deferRequest _) fun _ => .pure
    · exact Ignores.bind (ignores_dispatchRequest slot _ r) fun _ => .pure

theorem ignores_popRequest : IgnoresPath popRequest := by
  unfold popRequest
  refine Ignores.get (fun _ _ => rfl) fun w => ?_
  refine Ignores.ite .pure ?_
  rcases requestQueuePop w.connection.callqueue w.connection.links with ⟨top, queue⟩
  cases top with
  | none => exact Ignores.pure
  | some slot => exact Ignores.bind (ignores_modifyWorld fun _ _ => rfl) fun _ => .pure

theorem ignores_readLoop (responses : List Response) : IgnoresPath (readLoop responses) := by
  induction responses with
  | nil =>
    apply Ignores.bind ignores_popRequest
    intro top
    cases top with
    | none => exact Ignores.pure
    | some slot => exact Ignores.throw
  | cons r rest ih =>
    apply Ignores.bind ignores_popRequest
    intro top
    cases top with
    | none => exact Ignores.pure
    | some slot => exact Ignores.bind (ignores_processRequest slot r) fun _ => Ignores.ite ih .pure

theorem ignores_restoreRequests (requests : List LdapRequest) (i : ℕ) :
    IgnoresPath (restoreRequests i requests) := by
  induction requests generalizing i with
  | nil => exact Ignores.pure
  | cons request rest ih =>
    apply Ignores.bind (ignores_selectIndex _ _)
    intro _
    exact Ignores.bind (ignores_modifyConnection _) fun _ => ih (i + 1)

theorem ignores_finishPass : IgnoresPath finishPass := by
  unfold finishPass requeue
  refine Ignores.get (fun _ _ => rfl) fun w => ?_
  apply Ignores.bind (ignores_modifyConnection _)
  intro _
  refine Ignores.bind (Ignores.ite ?_ .pure) fun _ => ignores_modifyWorld fun _ _ => rfl
  exact Ignores.bind (ignores_restoreRequests _ _) fun _ => ignores_modifyConnection _

theorem ignores_connectionOnRead (responses : List Response) : IgnoresPath (connectionOnRead responses) := by
  unfold connectionOnRead
  apply Ignores.bind (ignores_modifyWorld fun _ _ => rfl)
  intro _
  apply Ignores.bind (ignores_readLoop responses)
  intro _
  exact Ignores.ite ignores_finishPass (ignores_modifyWorld fun _ _ => rfl)

theorem ignores_connectionInstallHandlers (descriptor : Option Int) :
    IgnoresPath (connectionInstallHandlers descriptor) := by
  have hadd : IgnoresPath vertoAddIo := by
    unfold vertoAddIo
    refine Ignores.get (fun _ _ => rfl) fun w => ?_
    apply Ignores.bind (ignores_emit _)
    intro _
    exact Ignores.bind (ignores_modifyWorld fun _ _ => rfl) fun _ => .pure
  have hfail : IgnoresPath (do ldapUnbind; return .failure : Action OperationReturnCode) :=
    Ignores.bind (ignores_modifyWorld fun _ _ => rfl) fun _ => .pure
  unfold connectionInstallHandlers
  cases descriptor with
  | none => exact hfail
  | some fd =>
    apply Ignores.ite hfail
    apply Ignores.bind hadd
    intro readEvent
    apply Ignores.bind (ignores_modifyConnection _)
    intro _
    apply Ignores.bind hadd
    intro writeEvent
    exact Ignores.bind (ignores_modifyConnection _) fun _ => .pure

theorem ignores_trackWithHandlers (handler : OperationCallback) (msgid : Int) (descriptor : Option Int)
    (code : OperationReturnCode) : IgnoresPath (trackWithHandlers handler msgid descriptor code) := by
  unfold trackWithHandlers ensureHandlers
  refine Ignores.bind (Ignores.get (fun _ _ => rfl) fun w => ?_) fun installed => ?_
  · exact Ignores.ite .pure (ignores_connectionInstallHandlers descriptor)
  · apply Ignores.ite
    · exact Ignores.bind (ignores_modifyWorld fun _ _ => rfl) fun _ => .pure
    · exact Ignores.bind (ignores_track _ _) fun _ => .pure

theorem ignores_connectionStartTls (sent : Sent) (descriptor : Option Int) :
    IgnoresPath (connectionStartTls sent descriptor) := by
  unfold connectionStartTls
  apply Ignores.bind (ignores_call _)
  intro _
  apply Ignores.ite
  · exact Ignores.bind (ignores_modifyWorld fun _ _ => rfl) fun _ => .pure
  · exact ignores_trackWithHandlers _ _ _ _

theorem ignores_ldapUnbind (code : OperationReturnCode) : IgnoresPath (do ldapUnbind; return code) :=
  Ignores.bind (ignores_modifyWorld fun _ _ => rfl) fun _ => .pure

theorem ignores_bind {request : LdapCall} {rc : Int} {refused : Prop} [Decidable refused]
    {tail : Action OperationReturnCode} (htail : IgnoresPath tail) :
    IgnoresPath (do
      emit (.bindInvoked (← get).tlsInplace)
      let _ ← dereference (← get).connection.ldapDefaults
      call request
      if rc = ldapXConnecting then return .repeatLastOperation
      else if refused then
        ldapUnbind
        return .failure
      else tail) := by
  refine Ignores.get (fun _ _ => rfl) fun w => ?_
  apply Ignores.bind (ignores_emit _)
  intro _
  refine Ignores.get (fun _ _ => rfl) fun w => ?_
  apply Ignores.bind (ignores_dereference _)
  intro _
  apply Ignores.bind (ignores_call _)
  intro _
  exact Ignores.ite .pure (Ignores.ite (ignores_ldapUnbind _) htail)

theorem ignores_connectionBind (i : TickInput) : IgnoresPath (connectionBind i) := by
  unfold connectionBind
  refine Ignores.get (fun _ _ => rfl) fun w => ?_
  cases w.connection.bindType with
  | interactive => exact ignores_bind (ignores_trackWithHandlers _ _ _ _)
  | simple => exact ignores_bind (ignores_trackWithHandlers _ _ _ _)

theorem ignores_connectionConfigure (failure : Option ConfigureFailure) :
    IgnoresPath (connectionConfigure failure) := by
  unfold connectionConfigure
  cases failure with
  | none => exact Ignores.bind (ignores_modifyWorld fun _ _ => rfl) fun _ => .pure
  | some failure =>
    refine Ignores.bind (ignores_modifyWorld fun path w => ?_) fun _ => ?_
    · cases failure <;> rfl
    · exact Ignores.bind (ignores_emit _) fun _ => .pure

theorem ignores_connectionClose : IgnoresPath connectionClose := by
  have hfree : ∀ p, IgnoresPath (freeDefaults p) := fun p => Ignores.ite .pure (ignores_dereference p)
  have hdel : ∀ event, IgnoresPath (vertoDel event) := by
    intro event
    cases event with
    | none => exact Ignores.pure
    | some event => exact ignores_emit _
  have hrelease : ∀ state, IgnoresPath (releaseHandle state) := fun state =>
    Ignores.ite .pure (ignores_modifyWorld fun _ _ => rfl)
  unfold connectionClose
  refine Ignores.get (fun _ _ => rfl) fun w => ?_
  apply Ignores.bind (hfree _)
  intro _
  apply Ignores.bind (hdel _)
  intro _
  apply Ignores.bind (hdel _)
  intro _
  apply Ignores.bind (ignores_dereference _)
  intro state
  apply Ignores.bind (hrelease state)
  intro _
  exact Ignores.ite .pure (Ignores.bind (ignores_modifyConnection _) fun _ => .pure)

theorem ignores_reconnect (i : TickInput) : IgnoresPath (reconnect i) := by
  unfold reconnect resetState
  apply Ignores.bind ignores_connectionClose
  intro _
  refine Ignores.get (fun _ _ => rfl) fun w => ?_
  refine Ignores.ite ?_ .pure
  apply Ignores.bind (ignores_connectionConfigure _)
  intro _
  apply Ignores.bind (ignores_modifyConnection _)
  intro _
  exact Ignores.bind (ignores_emit _) fun _ => ignores_modifyConnection _

theorem ignores_searchDefinitions (base : Bytes) (first second : Sent) :
    IgnoresPath (searchDefinitions base first second) := by
  unfold searchDefinitions
  apply Ignores.bind (ignores_search _ _ _ _)
  intro _
  apply Ignores.ite .pure
  apply Ignores.bind (ignores_search _ _ _ _)
  intro _
  exact Ignores.ite .pure .pure

def World.RequestsActiveDirectory (w : World) : Prop :=
  w.connection.stateMachine = .live .requestSchema ∧ w.connection.directoryType = .activeDirectory

instance (w : World) : Decidable w.RequestsActiveDirectory := inferInstanceAs (Decidable (_ ∧ _))

theorem ignoresAt_ldapSchemaLoad {w : World} (h : w.connection.directoryType ≠ .activeDirectory)
    (first second : Sent) : IgnoresAt World.withPath w (ldapSchemaLoad first second) := by
  unfold ldapSchemaLoad
  refine IgnoresAt.get (fun _ => rfl) ?_
  cases hd : w.connection.directoryType with
  | activeDirectory => exact absurd hd h
  | openldap => exact ignores_searchDefinitions _ first second w
  | freeIpa => exact Ignores.pure w
  | unknown => exact Ignores.pure w
  | uninitialized => exact Ignores.pure w

theorem ignoresAt_csmNextState {w : World} (h : ¬w.RequestsActiveDirectory) (i : TickInput) :
    IgnoresAt World.withPath w (csmNextState i) := by
  unfold csmNextState
  refine IgnoresAt.get (fun _ => rfl) ?_
  cases hs : w.connection.stateMachine with
  | null => exact Ignores.throw w
  | dangling => exact Ignores.throw w
  | live state =>
    change IgnoresAt World.withPath w (pure state >>= _)
    rw [pure_bind]
    cases state with
    | init =>
      refine IgnoresAt.get (fun _ => rfl) (Ignores.ite ?_ ?_ w)
      · apply Ignores.bind (ignores_connectionStartTls _ _)
        exact fun _ => ignores_setState _ _
      · exact ignores_setState _ _
    | tlsNegotiation => exact Ignores.pure w
    | transportReady =>
      refine Ignores.bind (ignores_connectionBind i) (fun rc => ?_) w
      apply Ignores.bind (ignores_emit _)
      exact fun _ => ignores_setState _ _
    | bindInProgress => exact Ignores.pure w
    | bound => exact ignores_setState _ _ w
    | detectDirectory =>
      refine IgnoresAt.get (fun _ => rfl) (Ignores.ite ?_ ?_ w)
      · apply Ignores.bind (ignores_submit _ _ _)
        exact fun _ => ignores_setState _ _
      · exact ignores_setState _ _
    | requestSchema =>
      have htype : w.connection.directoryType ≠ .activeDirectory := fun hd => h ⟨hs, hd⟩
      exact (ignoresAt_ldapSchemaLoad htype _ _).bind fun _ => ignores_setState _ _
    | checkSchema =>
      exact IgnoresAt.get (fun _ => rfl) (Ignores.ite (ignores_setState _ _) .pure w)
    | run => exact Ignores.bind (ignores_modifyConnection _) (fun _ => .pure) w
    | error => exact Ignores.bind (ignores_reconnect i) (fun _ => .pure) w

def Step.RequestsActiveDirectory (w : World) : Step → Prop
  | .tick _ => w.RequestsActiveDirectory
  | _ => False

instance (w : World) : DecidablePred (Step.RequestsActiveDirectory w)
  | .tick _ => inferInstanceAs (Decidable w.RequestsActiveDirectory)
  | .read _ => isFalse id
  | .submit _ => isFalse id
  | .installErrorHandler => isFalse id

/-- No other step depends on the path. -/
theorem ignoresAt_perform {w : World} {step : Step} (h : ¬step.RequestsActiveDirectory w) :
    IgnoresAt World.withPath w step.perform := by
  cases step with
  | tick i => exact (ignoresAt_csmNextState h i).bind fun _ => .pure
  | read responses => exact ignores_connectionOnRead responses w
  | submit submission => exact Ignores.bind (ignores_perform submission) (fun _ => .pure) w
  | installErrorHandler => exact ignores_modifyConnection (fun c => { c with onErrorOperation := true }) w

end Libdomain.Connection
