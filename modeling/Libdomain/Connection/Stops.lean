import Libdomain.Connection.Bounds
import Libdomain.Connection.Faults
import Libdomain.Program.Guards

/-! # What stops a run

An index out of bounds is the fault of a submission that finds all slots taken. A run whose
reconfigurations succeed keeps its state machine and its SASL defaults and has no endless loop,
so a pass that still waits for a response is all else it can stop at.
-/
namespace Libdomain.Connection
open Libdomain.Queue Libdomain.Program

/-- A program whose faults tell a write out of bounds from all others. -/
abbrev Watched {α : Type} (p : Action α) : Prop :=
  Guarded (fun w => WritesInBounds w.trace) (fun e w => e.OutOfBounds ↔ ¬WritesInBounds w.trace) p

variable {w : World}

theorem watched_throw {α : Type} {e : Fault} (h : ¬e.OutOfBounds) : Watched (throw e : Action α) :=
  Guarded.throw fun _ hs => iff_of_false h (not_not.mpr hs)

theorem watched_modifyWorld {f : World → World} (h : ∀ w, WritesInBounds w.trace → WritesInBounds (f w).trace) :
    Watched (modifyWorld f) := Guarded.modify h

theorem watched_modifyConnection (f : LdapConnectionCtx → LdapConnectionCtx) : Watched (modifyConnection f) :=
  watched_modifyWorld fun _ hw => hw

theorem watched_emit {e : Event} (h : ∀ array index, e ≠ .write array index) : Watched (emit e) :=
  watched_modifyWorld fun w hw => (writesInBounds_cons h w.trace).mpr hw

theorem watched_call (c : LdapCall) : Watched (call c) :=
  watched_modifyWorld fun w hw => (writesInBounds_cons (by rintro _ _ ⟨⟩) w.trace).mpr hw

theorem watched_selectIndex (array : RequestArray) (index : ℕ) : Watched (selectIndex array index) := by
  intro w hw
  by_cases hi : index < maxRequests
  · rw [exec_selectIndex hi]
    refine ⟨?_, ?_⟩
    · rintro _ _ ⟨⟩
      exact (writesInBounds_write array index w.trace).mpr ⟨hi, hw⟩
    · rintro _ _ ⟨⟩
  · rw [exec_selectIndex_outOfBounds hi]
    refine ⟨?_, ?_⟩
    · rintro _ _ ⟨⟩
    · rintro _ _ ⟨⟩
      exact iff_of_true trivial fun h => hi ((writesInBounds_write array index w.trace).mp h).1

theorem watched_dereference {α : Type} (p : Pointer α) : Watched (dereference p) := by
  cases p with
  | live value => exact Guarded.pure
  | null => exact watched_throw id
  | dangling => exact watched_throw id

theorem watched_ldapUnbind : Watched ldapUnbind :=
  watched_modifyWorld fun w hw => (writesInBounds_cons (by rintro _ _ ⟨⟩) w.trace).mpr hw

theorem watched_track (handler : OperationCallback) (msgid : Int) : Watched (track handler msgid) := by
  unfold track
  refine Guarded.get fun w => ?_
  apply Guarded.bind (watched_emit (by rintro _ _ ⟨⟩))
  intro _
  apply Guarded.bind (watched_selectIndex _ _)
  intro _
  apply Guarded.bind (watched_modifyConnection _)
  intro _
  exact watched_emit (by rintro _ _ ⟨⟩)

theorem watched_submit (request : LdapCall) (handler : OperationCallback) (sent : Sent) :
    Watched (submit request handler sent) := by
  unfold submit
  apply Guarded.bind (watched_call _)
  intro _
  exact Guarded.ite .pure (Guarded.bind (watched_track _ _) fun _ => .pure)

theorem watched_search (arguments : SearchArguments) (callback : Option SearchCallback)
    (userData : UserData) (sent : Sent) : Watched (search arguments callback userData sent) := by
  unfold search
  apply Guarded.bind (watched_call _)
  intro _
  apply Guarded.ite .pure
  unfold trackSearch
  refine Guarded.get fun w => ?_
  apply Guarded.bind (watched_emit (by rintro _ _ ⟨⟩))
  intro _
  apply Guarded.bind (watched_track _ _)
  intro _
  refine Guarded.get fun w => ?_
  apply Guarded.ite .pure
  apply Guarded.bind (watched_selectIndex _ _)
  intro _
  apply Guarded.bind (watched_emit (by rintro _ _ ⟨⟩))
  intro _
  exact Guarded.bind (watched_modifyConnection _) fun _ => .pure

theorem watched_perform (s : Submission) : Watched (perform s) := by
  unfold perform
  cases s.operation with
  | search arguments callback userData => exact watched_search arguments callback userData s.sent
  | _ => exact watched_submit _ _ s.sent

theorem watched_performAll (submissions : List Submission) : Watched (performAll submissions) :=
  Guarded.forM fun s => Guarded.bind (watched_perform s) fun _ => .pure

theorem watched_connectionRemoveSearchRequest (index : ℕ) : Watched (connectionRemoveSearchRequest index) := by
  unfold connectionRemoveSearchRequest
  refine Guarded.get fun w => ?_
  apply Guarded.bind (Guarded.forM fun i => watched_selectIndex _ i)
  intro _
  exact watched_modifyWorld fun w hw => (writesInBounds_cons (by rintro _ _ ⟨⟩) w.trace).mpr hw

theorem watched_untilFailure {α : Type} {callback : α → Action OperationReturnCode}
    (h : ∀ x, Watched (callback x)) (xs : List α) : Watched (untilFailure callback xs) := by
  induction xs with
  | nil => exact Guarded.pure
  | cons x xs ih =>
    apply Guarded.bind (h x)
    intro code
    exact Guarded.ite .pure ih

theorem watched_ldapSchemaCallbackCommon {callback : Bytes → Action OperationReturnCode}
    (h : ∀ value, Watched (callback value)) (entries : List LdEntry) :
    Watched (ldapSchemaCallbackCommon callback entries) := by
  apply watched_untilFailure
  intro entry
  apply watched_untilFailure
  intro a
  cases a.values with
  | none => exact watched_throw id
  | some values => exact watched_untilFailure h values

theorem watched_appendValueCallback (append : LdapSchema → SchemaDefinition → Bool × LdapSchema)
    (parse : Bytes → Option SchemaDefinition) (value : Bytes) :
    Watched (appendValueCallback append parse value) := by
  unfold appendValueCallback
  cases parse value with
  | none => exact Guarded.pure
  | some d =>
    refine Guarded.get fun w => ?_
    exact Guarded.bind (watched_modifyConnection _) fun _ => .pure

theorem watched_callSearchCallback (callback : SearchCallback) (entries : List LdEntry) (r : Response) :
    Watched (callSearchCallback callback entries r) := by
  cases callback with
  | printSearchCallback => exact Guarded.pure
  | attributeTypesSearchCallback =>
    exact watched_ldapSchemaCallbackCommon (watched_appendValueCallback _ _) entries
  | objectClassesSearchCallback =>
    exact watched_ldapSchemaCallbackCommon (watched_appendValueCallback _ _) entries
  | subschemaSubentrySearchCallback =>
    refine watched_ldapSchemaCallbackCommon (fun value => ?_) entries
    exact Guarded.bind (watched_modifyWorld fun _ hw => hw) fun _ => .pure
  | application => exact Guarded.bind (watched_performAll _) fun _ => .pure

theorem watched_csmSetState (state : LdapConnectionState) : Watched (csmSetState state) := by
  unfold csmSetState
  refine Guarded.get fun w => ?_
  apply Guarded.bind (watched_dereference _)
  intro current
  exact Guarded.bind (watched_emit (by rintro _ _ ⟨⟩)) fun _ => watched_modifyConnection _

theorem watched_setState (state : LdapConnectionState) (code : OperationReturnCode) :
    Watched (do csmSetState state; return code) :=
  Guarded.bind (watched_csmSetState state) fun _ => .pure

theorem watched_reportError (r : Response) :
    Watched (do onErrorOperation r; return .failure : Action OperationReturnCode) := by
  unfold onErrorOperation
  refine Guarded.bind (Guarded.get fun w => ?_) fun _ => .pure
  exact Guarded.ite (Guarded.bind (watched_emit (by rintro _ _ ⟨⟩)) fun _ => watched_performAll _) .pure

theorem watched_resultOnRead (type : Int) (accepted : List Int) (r : Response) :
    Watched (resultOnRead type accepted r) := Guarded.ite .pure (watched_reportError r)

theorem watched_answerSearch (index : ℕ) (r : Response) : Watched (answerSearch index r) := by
  unfold answerSearch
  refine Guarded.get fun w => ?_
  dsimp only
  cases (w.connection.searchRequests index).onSearchOperation with
  | none => exact Guarded.pure
  | some callback =>
    cases readEntries r with
    | none => exact Guarded.pure
    | some entries =>
      apply Guarded.bind (watched_emit (by rintro _ _ ⟨⟩))
      intro _
      apply Guarded.bind (watched_callSearchCallback callback entries r)
      intro code
      exact Guarded.bind (watched_connectionRemoveSearchRequest index) fun _ => .pure

theorem watched_searchOnRead (r : Response) : Watched (searchOnRead r) := by
  unfold searchOnRead
  apply Guarded.ite _ (Guarded.ite .pure (watched_reportError r))
  refine Guarded.get fun w => ?_
  cases w.connection.findSearchRequest r.msgid with
  | none => exact watched_reportError r
  | some index => exact watched_answerSearch index r

theorem watched_directoryParseResult (r : Response) : Watched (directoryParseResult r) := by
  unfold directoryParseResult
  apply Guarded.ite _ (Guarded.ite .pure (watched_reportError r))
  exact Guarded.bind (watched_modifyConnection _) fun _ => .pure

theorem watched_connectionStartTlsOnRead (r : Response) : Watched (connectionStartTlsOnRead r) := by
  unfold connectionStartTlsOnRead
  apply Guarded.ite _ .pure
  refine Guarded.bind (Guarded.get fun w => Guarded.ite .pure ?_) fun tlsRc => ?_
  · unfold ldapInstallTls
    apply Guarded.bind (watched_call _)
    intro _
    apply Guarded.bind (watched_emit (by rintro _ _ ⟨⟩))
    intro _
    exact Guarded.ite (Guarded.bind (watched_modifyWorld fun _ hw => hw) fun _ => .pure) .pure
  · exact Guarded.ite (Guarded.ite (watched_setState _ _) .pure) (watched_setState _ _)

theorem watched_bindOutcome (rc : Int) (r : Response) : Watched (bindOutcome rc r) := by
  unfold bindOutcome
  apply Guarded.ite
  · refine Guarded.get fun w => ?_
    exact Guarded.bind (watched_track _ _) fun _ => .pure
  · apply Guarded.ite (watched_setState _ _)
    cases r.diagnostics.resultCode with
    | none => exact Guarded.pure
    | some code => exact Guarded.ite (watched_setState _ _) .pure

theorem watched_connectionBindOnRead (r : Response) : Watched (connectionBindOnRead r) := by
  unfold connectionBindOnRead
  apply Guarded.ite _ .pure
  refine Guarded.get fun w => ?_
  dsimp only
  cases w.connection.bindType with
  | interactive =>
    apply Guarded.bind (watched_dereference _)
    intro _
    apply Guarded.bind (watched_call _)
    intro _
    apply Guarded.bind (watched_emit (by rintro _ _ ⟨⟩))
    intro _
    exact Guarded.bind (watched_modifyConnection _) fun _ => watched_bindOutcome _ r
  | simple => exact Guarded.bind (watched_emit (by rintro _ _ ⟨⟩)) fun _ => watched_bindOutcome _ r

theorem watched_handle (handler : OperationCallback) (r : Response) : Watched (handler.handle r) := by
  cases handler with
  | addOnRead => exact watched_resultOnRead _ _ r
  | searchOnRead => exact watched_searchOnRead r
  | modifyOnRead => exact watched_resultOnRead _ _ r
  | deleteOnRead => exact watched_resultOnRead _ _ r
  | whoamiOnRead => exact Guarded.pure
  | renameOnRead => exact watched_resultOnRead _ _ r
  | directoryParseResult => exact watched_directoryParseResult r
  | connectionBindOnRead => exact watched_connectionBindOnRead r
  | connectionStartTlsOnRead => exact watched_connectionStartTlsOnRead r

theorem watched_releaseTop : Watched releaseTop :=
  watched_modifyWorld fun w hw => (writesInBounds_cons (by rintro _ _ ⟨⟩) w.trace).mpr hw

theorem watched_dispatchRequest (slot : ℕ) (request : LdapRequest) (r : Response) :
    Watched (dispatchRequest slot request r) := by
  unfold dispatchRequest announce
  refine Guarded.bind (Guarded.bind (watched_modifyConnection _) fun _ => ?_) fun _ => ?_
  · exact Guarded.get fun w => watched_emit (by rintro _ _ ⟨⟩)
  · cases request.onReadOperation with
    | none => exact watched_releaseTop
    | some handler => exact Guarded.bind (watched_handle handler r) fun _ => watched_releaseTop

theorem watched_deferRequest (request : LdapRequest) : Watched (deferRequest request) := by
  unfold deferRequest
  refine Guarded.get fun w => ?_
  apply Guarded.bind (watched_selectIndex _ _)
  intro _
  exact watched_modifyWorld fun w hw => (writesInBounds_cons (by rintro _ _ ⟨⟩) w.trace).mpr hw

theorem watched_connectionOptionalTransitionOnError : Watched connectionOptionalTransitionOnError := by
  unfold connectionOptionalTransitionOnError
  refine Guarded.get fun w => ?_
  apply Guarded.bind (watched_dereference _)
  intro state
  exact Guarded.ite (watched_csmSetState _) .pure

theorem watched_processRequest (slot : ℕ) (r : Response) : Watched (processRequest slot r) := by
  unfold processRequest
  refine Guarded.get fun w => ?_
  apply Guarded.bind (watched_call _)
  intro _
  apply Guarded.ite
  · refine Guarded.ite ?_ .pure
    apply Guarded.bind (watched_emit (by rintro _ _ ⟨⟩))
    intro _
    apply Guarded.bind watched_connectionOptionalTransitionOnError
    intro _
    exact Guarded.bind watched_releaseTop fun _ => .pure
  · apply Guarded.ite
    · exact Guarded.bind (watched_deferRequest _) fun _ => .pure
    · exact Guarded.bind (watched_dispatchRequest slot _ r) fun _ => .pure

theorem watched_popRequest : Watched popRequest := by
  unfold popRequest
  refine Guarded.get fun w => ?_
  refine Guarded.ite .pure ?_
  rcases requestQueuePop w.connection.callqueue w.connection.links with ⟨top, queue⟩
  cases top with
  | none => exact Guarded.pure
  | some slot =>
    refine Guarded.bind ?_ fun _ => .pure
    exact watched_modifyWorld fun w hw => (writesInBounds_cons (by rintro _ _ ⟨⟩) w.trace).mpr hw

theorem watched_readLoop (responses : List Response) : Watched (readLoop responses) := by
  induction responses with
  | nil =>
    apply Guarded.bind watched_popRequest
    intro top
    cases top with
    | none => exact Guarded.pure
    | some slot => exact watched_throw id
  | cons r rest ih =>
    apply Guarded.bind watched_popRequest
    intro top
    cases top with
    | none => exact Guarded.pure
    | some slot => exact Guarded.bind (watched_processRequest slot r) fun _ => Guarded.ite ih .pure

theorem watched_restoreRequests (requests : List LdapRequest) (i : ℕ) : Watched (restoreRequests i requests) := by
  induction requests generalizing i with
  | nil => exact Guarded.pure
  | cons request rest ih =>
    apply Guarded.bind (watched_selectIndex _ _)
    intro _
    exact Guarded.bind (watched_modifyConnection _) fun _ => ih (i + 1)

theorem watched_finishPass : Watched finishPass := by
  unfold finishPass requeue
  refine Guarded.get fun w => ?_
  apply Guarded.bind (watched_modifyConnection _)
  intro _
  refine Guarded.bind (Guarded.ite ?_ .pure) fun _ => ?_
  · exact Guarded.bind (watched_restoreRequests _ _) fun _ => watched_modifyConnection _
  · exact watched_modifyWorld fun w hw => (writesInBounds_cons (by rintro _ _ ⟨⟩) w.trace).mpr hw

theorem watched_connectionOnRead (responses : List Response) : Watched (connectionOnRead responses) := by
  unfold connectionOnRead
  apply Guarded.bind
  · exact watched_modifyWorld fun w hw => (writesInBounds_cons (by rintro _ _ ⟨⟩) w.trace).mpr hw
  intro _
  apply Guarded.bind (watched_readLoop responses)
  intro _
  refine Guarded.ite watched_finishPass ?_
  exact watched_modifyWorld fun w hw => (writesInBounds_cons (by rintro _ _ ⟨⟩) w.trace).mpr hw

theorem watched_connectionInstallHandlers (descriptor : Option Int) :
    Watched (connectionInstallHandlers descriptor) := by
  have hadd : Watched vertoAddIo := by
    unfold vertoAddIo
    refine Guarded.get fun w => ?_
    apply Guarded.bind (watched_emit (by rintro _ _ ⟨⟩))
    intro _
    exact Guarded.bind (watched_modifyWorld fun _ hw => hw) fun _ => .pure
  have hfail : Watched (do ldapUnbind; return .failure : Action OperationReturnCode) :=
    Guarded.bind watched_ldapUnbind fun _ => .pure
  unfold connectionInstallHandlers
  cases descriptor with
  | none => exact hfail
  | some fd =>
    apply Guarded.ite hfail
    apply Guarded.bind hadd
    intro readEvent
    apply Guarded.bind (watched_modifyConnection _)
    intro _
    apply Guarded.bind hadd
    intro writeEvent
    exact Guarded.bind (watched_modifyConnection _) fun _ => .pure

theorem watched_trackWithHandlers (handler : OperationCallback) (msgid : Int) (descriptor : Option Int)
    (code : OperationReturnCode) : Watched (trackWithHandlers handler msgid descriptor code) := by
  unfold trackWithHandlers ensureHandlers
  refine Guarded.bind (Guarded.get fun w => ?_) fun installed => ?_
  · exact Guarded.ite .pure (watched_connectionInstallHandlers descriptor)
  · apply Guarded.ite
    · exact Guarded.bind watched_ldapUnbind fun _ => .pure
    · exact Guarded.bind (watched_track _ _) fun _ => .pure

theorem watched_connectionStartTls (sent : Sent) (descriptor : Option Int) :
    Watched (connectionStartTls sent descriptor) := by
  unfold connectionStartTls
  apply Guarded.bind (watched_call _)
  intro _
  apply Guarded.ite
  · exact Guarded.bind watched_ldapUnbind fun _ => .pure
  · exact watched_trackWithHandlers _ _ _ _

theorem watched_bind {request : LdapCall} {rc : Int} {refused : Prop} [Decidable refused]
    {tail : Action OperationReturnCode} (htail : Watched tail) :
    Watched (do
      emit (.bindInvoked (← get).tlsInplace)
      let _ ← dereference (← get).connection.ldapDefaults
      call request
      if rc = ldapXConnecting then return .repeatLastOperation
      else if refused then
        ldapUnbind
        return .failure
      else tail) := by
  refine Guarded.get fun w => ?_
  apply Guarded.bind (watched_emit (by rintro _ _ ⟨⟩))
  intro _
  refine Guarded.get fun w => ?_
  apply Guarded.bind (watched_dereference _)
  intro _
  apply Guarded.bind (watched_call _)
  intro _
  exact Guarded.ite .pure (Guarded.ite (Guarded.bind watched_ldapUnbind fun _ => .pure) htail)

theorem watched_connectionBind (i : TickInput) : Watched (connectionBind i) := by
  unfold connectionBind
  refine Guarded.get fun w => ?_
  cases w.connection.bindType with
  | interactive => exact watched_bind (watched_trackWithHandlers _ _ _ _)
  | simple => exact watched_bind (watched_trackWithHandlers _ _ _ _)

theorem watched_connectionConfigure (failure : Option ConfigureFailure) :
    Watched (connectionConfigure failure) := by
  unfold connectionConfigure
  cases failure with
  | none =>
    refine Guarded.bind ?_ fun _ => .pure
    exact watched_modifyWorld fun w hw => (writesInBounds_cons (by rintro _ _ ⟨⟩) w.trace).mpr hw
  | some failure =>
    refine Guarded.bind (watched_modifyWorld fun w hw => ?_) fun _ => ?_
    · cases failure <;> exact hw
    · exact Guarded.bind (watched_emit (by rintro _ _ ⟨⟩)) fun _ => .pure

theorem watched_connectionClose : Watched connectionClose := by
  have hfree : ∀ p, Watched (freeDefaults p) := fun p => Guarded.ite .pure (watched_dereference p)
  have hdel : ∀ event, Watched (vertoDel event) := by
    intro event
    cases event with
    | none => exact Guarded.pure
    | some event => exact watched_emit (by rintro _ _ ⟨⟩)
  have hrelease : ∀ state, Watched (releaseHandle state) := fun state => Guarded.ite .pure watched_ldapUnbind
  unfold connectionClose
  refine Guarded.get fun w => ?_
  apply Guarded.bind (hfree _)
  intro _
  apply Guarded.bind (hdel _)
  intro _
  apply Guarded.bind (hdel _)
  intro _
  apply Guarded.bind (watched_dereference _)
  intro state
  apply Guarded.bind (hrelease state)
  intro _
  exact Guarded.ite .pure (Guarded.bind (watched_modifyConnection _) fun _ => .pure)

theorem watched_reconnect (i : TickInput) : Watched (reconnect i) := by
  unfold reconnect resetState
  apply Guarded.bind watched_connectionClose
  intro _
  refine Guarded.get fun w => ?_
  refine Guarded.ite ?_ .pure
  apply Guarded.bind (watched_connectionConfigure _)
  intro _
  apply Guarded.bind (watched_modifyConnection _)
  intro _
  exact Guarded.bind (watched_emit (by rintro _ _ ⟨⟩)) fun _ => watched_modifyConnection _

theorem watched_searchDefinitions (base : Bytes) (first second : Sent) :
    Watched (searchDefinitions base first second) := by
  unfold searchDefinitions
  apply Guarded.bind (watched_search _ _ _ _)
  intro _
  apply Guarded.ite .pure
  apply Guarded.bind (watched_search _ _ _ _)
  intro _
  exact Guarded.ite .pure .pure

theorem watched_ldapSchemaLoad (first second : Sent) : Watched (ldapSchemaLoad first second) := by
  unfold ldapSchemaLoad
  refine Guarded.get fun w => ?_
  cases w.connection.directoryType with
  | openldap => exact watched_searchDefinitions _ first second
  | activeDirectory =>
    refine Guarded.get fun w => ?_
    cases w.schemaEntryPath with
    | none => exact Guarded.bind (watched_search _ _ _ _) fun _ => Guarded.ite .pure .pure
    | some path => exact watched_searchDefinitions path first second
  | freeIpa => exact Guarded.pure
  | unknown => exact Guarded.pure
  | uninitialized => exact Guarded.pure

theorem watched_csmNextState (i : TickInput) : Watched (csmNextState i) := by
  unfold csmNextState
  refine Guarded.get fun w => ?_
  apply Guarded.bind (watched_dereference _)
  intro state
  cases state with
  | init =>
    refine Guarded.get fun w => Guarded.ite ?_ (watched_setState _ _)
    exact Guarded.bind (watched_connectionStartTls _ _) fun _ => watched_setState _ _
  | tlsNegotiation => exact Guarded.pure
  | transportReady =>
    apply Guarded.bind (watched_connectionBind i)
    intro rc
    exact Guarded.bind (watched_emit (by rintro _ _ ⟨⟩)) fun _ => watched_setState _ _
  | bindInProgress => exact Guarded.pure
  | bound => exact watched_setState _ _
  | detectDirectory =>
    refine Guarded.get fun w => Guarded.ite ?_ (watched_setState _ _)
    exact Guarded.bind (watched_submit _ _ _) fun _ => watched_setState _ _
  | requestSchema => exact Guarded.bind (watched_ldapSchemaLoad _ _) fun _ => watched_setState _ _
  | checkSchema => exact Guarded.get fun w => Guarded.ite (watched_setState _ _) .pure
  | run => exact Guarded.bind (watched_modifyConnection _) fun _ => .pure
  | error => exact Guarded.bind (watched_reconnect i) fun _ => .pure

theorem watched_stepPerform (step : Step) : Watched step.perform := by
  cases step with
  | tick i => exact Guarded.bind (watched_csmNextState i) fun _ => .pure
  | read responses => exact watched_connectionOnRead responses
  | submit submission => exact Guarded.bind (watched_perform submission) fun _ => .pure
  | installErrorHandler => exact watched_modifyConnection fun c => { c with onErrorOperation := true }

/-- A fault of the requests, not of the objects of the connection. -/
def Fault.OfRequests : Fault → Prop
  | .outOfBounds .. | .starved => True
  | _ => False

theorem Fault.OutOfBounds.ofRequests {fault : Fault} (h : fault.OutOfBounds) : fault.OfRequests := by
  cases fault with
  | outOfBounds => trivial
  | _ => exact h.elim

theorem keeps_ldapUnbind (code : OperationReturnCode) :
    KeepsSteady none (do ldapUnbind; return code : Action OperationReturnCode) :=
  Keeps.bind (keeps_modifyWorld fun _ hw => hw.congr rfl rfl rfl rfl) fun _ => Keeps.pure

theorem keeps_connectionInstallHandlers (descriptor : Option Int) :
    KeepsSteady none (connectionInstallHandlers descriptor) := by
  have hadd : KeepsSteady none vertoAddIo := by
    unfold vertoAddIo
    apply Keeps.get
    intro w _
    apply Keeps.bind (keeps_emit _)
    intro _
    exact Keeps.bind (keeps_modifyWorld fun _ hw => hw.congr rfl rfl rfl rfl) fun _ => Keeps.pure
  unfold connectionInstallHandlers
  cases descriptor with
  | none => exact keeps_ldapUnbind _
  | some fd =>
    apply Keeps.ite (fun _ => keeps_ldapUnbind _)
    intro _
    apply Keeps.bind hadd
    intro readEvent
    apply Keeps.bind
    · exact keeps_modifyWorld fun _ hw => hw.congr rfl rfl rfl rfl
    intro _
    apply Keeps.bind hadd
    intro writeEvent
    exact Keeps.bind (keeps_modifyWorld fun _ hw => hw.congr rfl rfl rfl rfl) fun _ => Keeps.pure

theorem keeps_trackWithHandlers (handler : OperationCallback) (msgid : Int) (descriptor : Option Int)
    (code : OperationReturnCode) : KeepsSteady none (trackWithHandlers handler msgid descriptor code) := by
  have hensure : KeepsSteady none (ensureHandlers descriptor) := by
    unfold ensureHandlers
    apply Keeps.get
    intro w _
    exact Keeps.ite (fun _ => Keeps.pure) fun _ => keeps_connectionInstallHandlers descriptor
  unfold trackWithHandlers
  apply Keeps.bind hensure
  intro installed
  apply Keeps.ite (fun _ => keeps_ldapUnbind _)
  intro _
  exact Keeps.bind (keeps_track handler msgid) fun _ => Keeps.pure

theorem keeps_connectionStartTls (sent : Sent) (descriptor : Option Int) :
    KeepsSteady none (connectionStartTls sent descriptor) := by
  unfold connectionStartTls
  apply Keeps.bind (keeps_call _)
  intro _
  exact Keeps.ite (fun _ => keeps_ldapUnbind _) fun _ => keeps_trackWithHandlers _ _ _ _

theorem keeps_bind {request : LdapCall} {rc : Int} {refused : Prop} [Decidable refused]
    {tail : Action OperationReturnCode} (htail : KeepsSteady none tail) :
    KeepsSteady none (do
      emit (.bindInvoked (← get).tlsInplace)
      let _ ← dereference (← get).connection.ldapDefaults
      call request
      if rc = ldapXConnecting then return .repeatLastOperation
      else if refused then
        ldapUnbind
        return .failure
      else tail) := by
  apply Keeps.get
  intro _ _
  apply Keeps.bind (keeps_emit _)
  intro _
  apply Keeps.get
  intro w hw
  rw [hw.ldapDefaults]
  apply Keeps.bind Keeps.pure
  intro _
  apply Keeps.bind (keeps_call _)
  intro _
  exact Keeps.ite (fun _ => Keeps.pure) fun _ => Keeps.ite (fun _ => keeps_ldapUnbind _) fun _ => htail

theorem keeps_connectionBind (i : TickInput) : KeepsSteady none (connectionBind i) := by
  unfold connectionBind
  apply Keeps.get
  intro w _
  cases w.connection.bindType with
  | interactive => exact keeps_bind (keeps_trackWithHandlers _ _ _ _)
  | simple => exact keeps_bind (keeps_trackWithHandlers _ _ _ _)

theorem keeps_searchDefinitions (base : Bytes) (first second : Sent) :
    KeepsSteady none (searchDefinitions base first second) := by
  unfold searchDefinitions
  apply Keeps.bind (keeps_search _ _ _ _)
  intro _
  apply Keeps.ite (fun _ => Keeps.pure)
  intro _
  apply Keeps.bind (keeps_search _ _ _ _)
  intro _
  exact Keeps.ite (fun _ => Keeps.pure) fun _ => Keeps.pure

theorem keeps_ldapSchemaLoad (first second : Sent) : KeepsSteady none (ldapSchemaLoad first second) := by
  unfold ldapSchemaLoad
  apply Keeps.get
  intro w _
  cases w.connection.directoryType with
  | openldap => exact keeps_searchDefinitions _ first second
  | activeDirectory =>
    unfold schemaLoadActiveDirectory
    apply Keeps.get
    intro w _
    cases w.schemaEntryPath with
    | none =>
      apply Keeps.bind (keeps_search _ _ _ _)
      intro _
      exact Keeps.ite (fun _ => Keeps.pure) fun _ => Keeps.pure
    | some path => exact keeps_searchDefinitions path first second
  | freeIpa => exact Keeps.pure
  | unknown => exact Keeps.pure
  | uninitialized => exact Keeps.pure

theorem keeps_setState (state : LdapConnectionState) (code : OperationReturnCode) :
    KeepsSteady none (do csmSetState state; return code : Action OperationReturnCode) :=
  Keeps.bind (keeps_csmSetState state) fun _ => Keeps.pure

/-- A tick keeps the objects of the connection, whatever it submits. -/
theorem keeps_csmNextState {i : TickInput} (hi : i.configure = none) : KeepsSteady none (csmNextState i) := by
  intro w hw
  obtain ⟨state, hs⟩ := hw.stateMachine
  rw [csmNextState, exec_bind_ok (exec_get w), hs, exec_bind_ok (exec_dereference_live state w)]
  cases state with
  | init =>
    refine Keeps.get (fun w _ => Keeps.ite (fun _ => ?_) fun _ => keeps_setState _ _) w hw
    exact Keeps.bind (keeps_connectionStartTls _ _) fun _ => keeps_setState _ _
  | tlsNegotiation => exact Keeps.pure w hw
  | transportReady =>
    refine Keeps.bind (keeps_connectionBind i) (fun rc => ?_) w hw
    exact Keeps.bind (keeps_emit _) fun _ => keeps_setState _ _
  | bindInProgress => exact Keeps.pure w hw
  | bound => exact keeps_setState _ _ w hw
  | detectDirectory =>
    refine Keeps.get (fun w _ => Keeps.ite (fun _ => ?_) fun _ => keeps_setState _ _) w hw
    exact Keeps.bind (keeps_submit _ _ _) fun _ => keeps_setState _ _
  | requestSchema => exact Keeps.bind (keeps_ldapSchemaLoad _ _) (fun _ => keeps_setState _ _) w hw
  | checkSchema =>
    refine Keeps.get (fun w _ => Keeps.ite (fun _ => ?_) fun _ => ?_) w hw
    · exact keeps_setState _ _
    · exact Keeps.pure
  | run =>
    have hattempts : KeepsSteady none (modifyConnection fun c => { c with nReconnectAttempts := 0 }) :=
      keeps_modifyWorld fun _ hw => ⟨hw.stateMachine, hw.ldapDefaults, show 0 < maxReconnectAttempts by decide, by simp⟩
    exact Keeps.bind hattempts (fun _ => Keeps.pure) w hw
  | error =>
    obtain ⟨hreturn, hsteady⟩ := hw.reconnect hs hi
    change Steady none (exec (reconnect i >>= fun _ => pure OperationReturnCode.success) w).2 ∧ _
    rw [exec_bind_ok (Prod.ext hreturn rfl)]
    exact ⟨hsteady, by simp⟩

theorem keeps_readLoop (responses : List Response) : Keeps (Steady none) Fault.OfRequests (readLoop responses) := by
  have hpop : KeepsSteady none popRequest := by
    unfold popRequest
    apply Keeps.get
    intro w _
    apply Keeps.ite (fun _ => Keeps.pure)
    intro _
    rcases requestQueuePop w.connection.callqueue w.connection.links with ⟨top, queue⟩
    cases top with
    | none => exact Keeps.pure
    | some slot =>
      refine Keeps.bind (keeps_modifyWorld fun _ hw => ?_) fun _ => Keeps.pure
      exact ⟨hw.stateMachine, hw.ldapDefaults, hw.attempts, by simp⟩
  have hpop := hpop.weaken fun _ => Fault.OutOfBounds.ofRequests
  induction responses with
  | nil =>
    apply Keeps.bind hpop
    intro top
    cases top with
    | none => exact Keeps.pure
    | some slot => exact Keeps.throw trivial
  | cons r rest ih =>
    apply Keeps.bind hpop
    intro top
    cases top with
    | none => exact Keeps.pure
    | some slot =>
      apply Keeps.bind ((keeps_processRequest slot (.inl rfl)).weaken fun _ => Fault.OutOfBounds.ofRequests)
      intro more
      exact Keeps.ite (fun _ => ih) fun _ => Keeps.pure

theorem keeps_stepPerform {step : Step} (h : ∀ i, step = .tick i → i.configure = none) :
    Keeps (Steady none) Fault.OfRequests step.perform := by
  cases step with
  | tick i =>
    have htick : KeepsSteady none (Step.tick i).perform := Keeps.bind (keeps_csmNextState (h i rfl)) fun _ => Keeps.pure
    exact htick.weaken fun _ => Fault.OutOfBounds.ofRequests
  | read responses =>
    have hplain : ∀ {f : World → World}, (∀ w, (f w).connection = w.connection) →
        Keeps (Steady none) Fault.OfRequests (modifyWorld f) :=
      fun hf => Keeps.modify fun w hw => hw.congr (by rw [hf]) (by rw [hf]) (by rw [hf]) (by rw [hf])
    change Keeps _ _ (connectionOnRead responses)
    unfold connectionOnRead
    apply Keeps.bind
    · exact hplain fun _ => rfl
    intro _
    apply Keeps.bind (keeps_readLoop responses)
    intro drained
    apply Keeps.ite
    · exact fun _ => keeps_finishPass.weaken fun _ => Fault.OutOfBounds.ofRequests
    · exact fun _ => hplain fun _ => rfl
  | submit submission =>
    have hperform : KeepsSteady none (Step.submit submission).perform :=
      Keeps.bind (keeps_perform submission) fun _ => Keeps.pure
    exact hperform.weaken fun _ => Fault.OutOfBounds.ofRequests
  | installErrorHandler => exact Keeps.modify fun _ hw => hw.congr rfl rfl rfl rfl

theorem run_loaded (config : LdapConnectionConfig) (path : Option Bytes) (steps : List Step) :
    Loaded (run config path steps).2 := by
  have hinit : Loaded (.initial config path) := by
    refine ⟨⟨fun _ => ?_, fun _ => trivial⟩, fun _ => rfl⟩
    intro array index hm
    cases List.mem_singleton.mp hm
  exact (run_invariant_of_effects hinit (fun _ _ hs h hi => h.loaded hs hi) steps).2

theorem run_outOfBounds_iff (config : LdapConnectionConfig) (path : Option Bytes) (steps : List Step) :
    (∃ array index, (run config path steps).1 = .error (.outOfBounds array index)) ↔
      ¬WithinLoad (run config path steps).2.trace := by
  have hinit : WritesInBounds (World.initial config path).trace := by
    intro array index hm
    cases List.mem_singleton.mp hm
  obtain ⟨hok, herror⟩ : (∀ a t, run config path steps = (.ok a, t) → WritesInBounds t.trace) ∧
      ∀ e t, run config path steps = (.error e, t) → (e.OutOfBounds ↔ ¬WritesInBounds t.trace) :=
    Guarded.forM watched_stepPerform (World.initial config path) hinit
  rw [(run_loaded config path steps).iff]
  generalize run config path steps = outcome at hok herror ⊢
  rcases outcome with ⟨e | a, t⟩
  · rw [← herror e t rfl]
    cases e with
    | outOfBounds array index => exact iff_of_true ⟨array, index, rfl⟩ trivial
    | _ => exact iff_of_false (by rintro ⟨_, _, ⟨⟩⟩) id
  · exact iff_of_false (by rintro ⟨_, _, ⟨⟩⟩) (not_not.mpr (hok a t rfl))

/-- A run stops at an index out of bounds exactly if a submission found all slots taken. If its
reconfigurations succeed, the state machine and the SASL defaults are there however it ends,
and what else may stop it is a pass that lacks a response. -/
theorem run_stops (config : LdapConnectionConfig) (path : Option Bytes) (steps : List Step) :
    ((∃ array index, (run config path steps).1 = .error (.outOfBounds array index)) ↔
        ¬WithinLoad (run config path steps).2.trace) ∧
      ((∀ i, .tick i ∈ steps → i.configure = none) →
        (WithinLoad (run config path steps).2.trace →
          (run config path steps).1 = .ok () ∨ (run config path steps).1 = .error .starved) ∧
        (∃ state, (run config path steps).2.connection.stateMachine = .live state) ∧
        (run config path steps).2.connection.ldapDefaults = .live ()) := by
  have hload := run_outOfBounds_iff config path steps
  refine ⟨hload, fun hconfigure => ?_⟩
  have hinit : Steady none (.initial config path) :=
    ⟨⟨.init, rfl⟩, rfl, show 0 < maxReconnectAttempts by decide, by simp⟩
  have hkeeps : Keeps (Steady none) Fault.OfRequests (performSteps steps) :=
    Keeps.forM fun step hstep => keeps_stepPerform fun i hi => hconfigure i (hi ▸ hstep)
  obtain ⟨hsteady, hfault⟩ := hkeeps (.initial config path) hinit
  refine ⟨fun hwithin => ?_, hsteady.stateMachine, hsteady.ldapDefaults⟩
  change ∀ e, (run config path steps).1 = .error e → e.OfRequests at hfault
  cases houtcome : (run config path steps).1 with
  | ok => exact .inl rfl
  | error e =>
    cases e with
    | outOfBounds array index => exact absurd hwithin (hload.mp ⟨array, index, houtcome⟩)
    | starved => exact .inr rfl
    | invalidPointer => exact (hfault _ houtcome).elim
    | divergence => exact (hfault _ houtcome).elim

def unansweredPass : List Step := [.tick {}, .tick {}, .read []]

theorem run_stops_unanswered :
    (run ⟨false, .simple⟩ none unansweredPass).1 = .error .starved ∧
      ∃ state, (run ⟨false, .simple⟩ none unansweredPass).2.connection.stateMachine = .live state := by
  have hconfigure : ∀ i, .tick i ∈ unansweredPass → i.configure = none := by
    intro i hi
    simp only [unansweredPass, List.mem_cons, Step.tick.injEq, reduceCtorEq, List.not_mem_nil, or_false, or_self] at hi
    rw [hi]
  obtain ⟨-, hsteady⟩ := run_stops ⟨false, .simple⟩ none unansweredPass
  obtain ⟨-, hstate, -⟩ := hsteady hconfigure
  exact ⟨rfl, hstate⟩

end Libdomain.Connection
