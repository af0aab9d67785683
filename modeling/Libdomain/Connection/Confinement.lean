import Libdomain.Connection.Machine

/-! # What operations and read passes leave alone

Only ticks release the handle of a connection, replace it or register event sources. An
operation of the application and a whole read pass, with everything its handlers and the
callbacks of the application do, work on the current handle and leave the rest as it is.
-/
namespace Libdomain.Connection
open Libdomain.Queue Libdomain.Program Relation

/-- Events of sending requests over a handle and of setting the machine. -/
def Event.Sends (handle : Option ℕ) : Event → Prop
  | .call h _ => h = handle
  | .bindInvoked _ | .bindReturned _ | .bindAnswered .. | .tlsInstalled _ | .submission .. | .pushed ..
  | .write .. | .searchIssued .. | .searchRegistered _ | .transition .. => True
  | _ => False

def Event.Serves (handle : Option ℕ) : Event → Prop
  | .call h _ => h = handle
  | .unbind _ | .vertoAdd _ | .vertoDel _ | .configured | .configureFailed _ => False
  | _ => True

theorem Event.Sends.serves {handle : Option ℕ} {e : Event} (h : e.Sends handle) : e.Serves handle := by
  cases e <;> first | exact h | exact h.elim

/-- The handle and the event sources are as before, and so are the next ones; the trace has
grown by events of the given kind. -/
structure World.Within (p : Option ℕ → Event → Prop) (w w' : World) : Prop where
  ldap : w'.connection.ldap = w.connection.ldap
  handles : w'.handles = w.handles
  handlersInstalled : w'.connection.handlersInstalled = w.connection.handlersInstalled
  readEvent : w'.connection.readEvent = w.connection.readEvent
  writeEvent : w'.connection.writeEvent = w.connection.writeEvent
  events : w'.events = w.events
  grows : w.Grows w' (p w.connection.ldap)

variable {p q : Option ℕ → Event → Prop} {w w' w'' : World}

theorem World.Within.refl (w : World) : w.Within p w := ⟨rfl, rfl, rfl, rfl, rfl, rfl, .none rfl⟩

theorem World.Within.trans (h : w.Within p w') (h' : w'.Within p w'') : w.Within p w'' := by
  have hgrows := h'.grows
  rw [h.ldap] at hgrows
  exact ⟨h'.ldap.trans h.ldap, h'.handles.trans h.handles, h'.handlersInstalled.trans h.handlersInstalled,
    h'.readEvent.trans h.readEvent, h'.writeEvent.trans h.writeEvent, h'.events.trans h.events,
    h.grows.trans hgrows⟩

theorem World.Within.of_path (h : ReflTransGen (World.Within p) w w') : w.Within p w' := by
  induction h with
  | refl => exact .refl w
  | tail _ hstep ih => exact ih.trans hstep

theorem World.Within.mono (h : w.Within p w') (hp : ∀ e, p w.connection.ldap e → q w.connection.ldap e) :
    w.Within q w' :=
  ⟨h.ldap, h.handles, h.handlersInstalled, h.readEvent, h.writeEvent, h.events, h.grows.mono hp⟩

/-- A program whose executions stay within the given events. -/
abbrev Confined (p : Option ℕ → Event → Prop) {α : Type} (program : Action α) : Prop :=
  Along (World.Within p) program

theorem Confined.within {α : Type} {program : Action α} (h : Confined p program) (w : World) :
    w.Within p (exec program w).2 := .of_path (h w)

theorem Confined.serves {α : Type} {program : Action α} (h : Confined Event.Sends program) :
    Confined Event.Serves program :=
  h.mono fun _ _ hw => hw.mono fun _ => Event.Sends.serves

theorem confined_emit {e : Event} (h : ∀ handle, p handle e) : Confined p (emit e) :=
  Along.step fun w => ⟨rfl, rfl, rfl, rfl, rfl, rfl, .one rfl (h w.connection.ldap)⟩

theorem confined_modifyConnection {f : LdapConnectionCtx → LdapConnectionCtx}
    (h : ∀ c, (f c).ldap = c.ldap ∧ (f c).handlersInstalled = c.handlersInstalled ∧
      (f c).readEvent = c.readEvent ∧ (f c).writeEvent = c.writeEvent) :
    Confined p (modifyConnection f) :=
  Along.step fun w => ⟨(h w.connection).1, rfl, (h w.connection).2.1, (h w.connection).2.2.1,
    (h w.connection).2.2.2, rfl, .none rfl⟩

theorem confined_selectIndex (array : RequestArray) (index : ℕ) (h : ∀ handle, p handle (.write array index)) :
    Confined p (selectIndex array index) := by
  unfold selectIndex
  apply Along.bind (confined_emit h)
  intro _
  exact Along.ite Along.pure Along.throw

theorem sends_call (c : LdapCall) : Confined Event.Sends (call c) :=
  Along.step fun _ => ⟨rfl, rfl, rfl, rfl, rfl, rfl, .one rfl rfl⟩

theorem within_announced (w : World) (handler : OperationCallback) (msgid : Int) :
    w.Within Event.Sends (w.announced handler msgid) :=
  ⟨rfl, rfl, rfl, rfl, rfl, rfl, .two rfl trivial trivial⟩

theorem within_tracked (w : World) (handler : OperationCallback) (msgid : Int) :
    w.Within Event.Sends (w.tracked handler msgid) :=
  (within_announced w handler msgid).trans ⟨rfl, rfl, rfl, rfl, rfl, rfl, .one rfl trivial⟩

theorem sends_track (handler : OperationCallback) (msgid : Int) :
    Confined Event.Sends (track handler msgid) := by
  apply Along.step
  intro w
  rw [exec_track]
  split_ifs
  · exact within_tracked w handler msgid
  · exact within_announced w handler msgid

theorem sends_trackSearch (callback : SearchCallback) (userData : UserData) (msgid : Int) :
    Confined Event.Sends (trackSearch callback userData msgid) := by
  apply Along.step
  intro w
  have hissued : w.Within Event.Sends (w.issued callback userData msgid) :=
    ⟨rfl, rfl, rfl, rfl, rfl, rfl, .one rfl trivial⟩
  have hregistered : ∀ t request, World.Within Event.Sends t (t.registered request) := fun t request =>
    ⟨rfl, rfl, rfl, rfl, rfl, rfl, .two rfl trivial trivial⟩
  rw [exec_trackSearch]
  dsimp only
  split_ifs
  · exact (hissued.trans (within_tracked _ _ _)).trans (hregistered _ _)
  · exact hissued.trans (within_tracked _ _ _)
  · exact hissued.trans (within_announced _ _ _)

theorem sends_submit (request : LdapCall) (handler : OperationCallback) (sent : Sent) :
    Confined Event.Sends (submit request handler sent) := by
  unfold submit
  apply Along.bind (sends_call request)
  intro _
  apply Along.ite Along.pure
  exact Along.bind (sends_track handler sent.msgid) fun _ => Along.pure

theorem sends_search (arguments : SearchArguments) (callback : Option SearchCallback)
    (userData : UserData) (sent : Sent) :
    Confined Event.Sends (search arguments callback userData sent) := by
  unfold search
  apply Along.bind (sends_call _)
  intro _
  exact Along.ite Along.pure (sends_trackSearch _ userData sent.msgid)

theorem sends_perform (s : Submission) : Confined Event.Sends (perform s) := by
  unfold perform
  cases s.operation with
  | search arguments callback userData => exact sends_search arguments callback userData s.sent
  | _ => exact sends_submit _ _ s.sent

theorem sends_performAll (submissions : List Submission) : Confined Event.Sends (performAll submissions) :=
  Along.forM fun s => Along.bind (sends_perform s) fun _ => Along.pure

theorem sends_csmSetState (state : LdapConnectionState) : Confined Event.Sends (csmSetState state) := by
  apply Along.step
  intro w
  rw [exec_csmSetState]
  cases w.connection.stateMachine with
  | live current => exact ⟨rfl, rfl, rfl, rfl, rfl, rfl, .one rfl trivial⟩
  | null => exact .refl w
  | dangling => exact .refl w

theorem sends_setState (state : LdapConnectionState) (code : OperationReturnCode) :
    Confined Event.Sends (do csmSetState state; return code) :=
  Along.bind (sends_csmSetState state) fun _ => Along.pure

theorem sends_ensureTls (code : Int) : Confined Event.Sends (ensureTls code) := by
  unfold ensureTls
  apply Along.get
  intro w
  apply Along.ite Along.pure
  unfold ldapInstallTls
  apply Along.bind (sends_call _)
  intro _
  apply Along.bind (confined_emit fun _ => trivial)
  intro _
  refine Along.ite (Along.bind (Along.step fun w => ?_) fun _ => Along.pure) Along.pure
  exact ⟨rfl, rfl, rfl, rfl, rfl, rfl, .none rfl⟩

theorem sends_connectionStartTlsOnRead (r : Response) :
    Confined Event.Sends (connectionStartTlsOnRead r) := by
  unfold connectionStartTlsOnRead
  apply Along.ite _ Along.pure
  apply Along.bind (sends_ensureTls r.installTls)
  intro tlsRc
  apply Along.ite
  · exact Along.ite (sends_setState _ _) Along.pure
  · exact sends_setState _ _

theorem sends_bindOutcome (rc : Int) (r : Response) : Confined Event.Sends (bindOutcome rc r) := by
  unfold bindOutcome
  apply Along.ite
  · apply Along.get
    intro w
    exact Along.bind (sends_track _ _) fun _ => Along.pure
  · apply Along.ite (sends_setState _ _)
    cases r.diagnostics.resultCode with
    | none => exact Along.pure
    | some code => exact Along.ite (sends_setState _ _) Along.pure

theorem sends_connectionBindOnRead (r : Response) : Confined Event.Sends (connectionBindOnRead r) := by
  unfold connectionBindOnRead
  apply Along.ite _ Along.pure
  apply Along.get
  intro w
  dsimp only
  cases w.connection.bindType with
  | interactive =>
    apply Along.bind (along_dereference _)
    intro _
    apply Along.bind (sends_call _)
    intro _
    apply Along.bind (confined_emit fun _ => trivial)
    intro _
    apply Along.bind
    · exact confined_modifyConnection fun _ => ⟨rfl, rfl, rfl, rfl⟩
    · exact fun _ => sends_bindOutcome r.bind.rc r
  | simple =>
    apply Along.bind (confined_emit fun _ => trivial)
    intro _
    exact sends_bindOutcome r.rc r

theorem serves_onErrorOperation (r : Response) : Confined Event.Serves (onErrorOperation r) := by
  unfold onErrorOperation
  apply Along.get
  intro w
  apply Along.ite _ Along.pure
  apply Along.bind (confined_emit fun _ => trivial)
  intro _
  exact (sends_performAll r.submissions).serves

theorem serves_reportError (r : Response) :
    Confined Event.Serves (do onErrorOperation r; return .failure : Action OperationReturnCode) :=
  Along.bind (serves_onErrorOperation r) fun _ => Along.pure

theorem serves_resultOnRead (type : Int) (accepted : List Int) (r : Response) :
    Confined Event.Serves (resultOnRead type accepted r) := by
  unfold resultOnRead
  exact Along.ite Along.pure (serves_reportError r)

theorem serves_callSearchCallback (callback : SearchCallback) (entries : List LdEntry) (r : Response) :
    Confined Event.Serves (callSearchCallback callback entries r) := by
  by_cases hfills : callback.Fills
  · apply (along_callSearchCallback_fills hfills entries r).mono
    intro s t h
    cases h with
    | schema => exact ⟨rfl, rfl, rfl, rfl, rfl, rfl, .none rfl⟩
    | path => exact ⟨rfl, rfl, rfl, rfl, rfl, rfl, .none rfl⟩
  · cases callback with
    | printSearchCallback => exact Along.pure
    | application _ => exact Along.bind (sends_performAll r.submissions).serves fun _ => Along.pure
    | _ => exact absurd trivial hfills

theorem serves_connectionRemoveSearchRequest (index : ℕ) :
    Confined Event.Serves (connectionRemoveSearchRequest index) := by
  unfold connectionRemoveSearchRequest
  apply Along.get
  intro w
  apply Along.bind (Along.forM fun i => confined_selectIndex .searchRequests i fun _ => trivial)
  intro _
  apply Along.step
  intro w
  obtain ⟨searchRequests, he⟩ := w.connection.removeSearchRequest_eq index
  rw [exec_modifyWorld, World.removed, he]
  exact ⟨rfl, rfl, rfl, rfl, rfl, rfl, .one rfl trivial⟩

theorem serves_answerSearch (index : ℕ) (r : Response) : Confined Event.Serves (answerSearch index r) := by
  unfold answerSearch
  apply Along.get
  intro w
  dsimp only
  cases (w.connection.searchRequests index).onSearchOperation with
  | none => exact Along.pure
  | some callback =>
    cases readEntries r with
    | none => exact Along.pure
    | some entries =>
      apply Along.bind (confined_emit fun _ => trivial)
      intro _
      apply Along.bind (serves_callSearchCallback callback entries r)
      intro _
      exact Along.bind (serves_connectionRemoveSearchRequest index) fun _ => Along.pure

theorem serves_searchOnRead (r : Response) : Confined Event.Serves (searchOnRead r) := by
  unfold searchOnRead
  apply Along.ite
  · apply Along.get
    intro w
    cases w.connection.findSearchRequest r.msgid with
    | none => exact serves_reportError r
    | some index => exact serves_answerSearch index r
  · exact Along.ite Along.pure (serves_reportError r)

theorem serves_directoryParseResult (r : Response) : Confined Event.Serves (directoryParseResult r) := by
  unfold directoryParseResult
  apply Along.ite
  · exact Along.bind (confined_modifyConnection fun _ => ⟨rfl, rfl, rfl, rfl⟩) fun _ => Along.pure
  · exact Along.ite Along.pure (serves_reportError r)

theorem serves_handle (handler : OperationCallback) (r : Response) :
    Confined Event.Serves (handler.handle r) := by
  cases handler with
  | addOnRead => exact serves_resultOnRead _ _ r
  | searchOnRead => exact serves_searchOnRead r
  | modifyOnRead => exact serves_resultOnRead _ _ r
  | deleteOnRead => exact serves_resultOnRead _ _ r
  | whoamiOnRead => exact Along.pure
  | renameOnRead => exact serves_resultOnRead _ _ r
  | directoryParseResult => exact serves_directoryParseResult r
  | connectionBindOnRead => exact (sends_connectionBindOnRead r).serves
  | connectionStartTlsOnRead => exact (sends_connectionStartTlsOnRead r).serves

theorem serves_releaseTop : Confined Event.Serves releaseTop :=
  Along.step fun _ => ⟨rfl, rfl, rfl, rfl, rfl, rfl, .one rfl trivial⟩

theorem sends_connectionOptionalTransitionOnError :
    Confined Event.Sends connectionOptionalTransitionOnError := by
  unfold connectionOptionalTransitionOnError
  apply Along.get
  intro w
  apply Along.bind (along_dereference _)
  intro state
  exact Along.ite (sends_csmSetState _) Along.pure

theorem serves_dispatchRequest (slot : ℕ) (request : LdapRequest) (r : Response) :
    Confined Event.Serves (dispatchRequest slot request r) := by
  have hannounce : Confined Event.Serves (announce slot request r) :=
    Along.step fun _ => ⟨rfl, rfl, rfl, rfl, rfl, rfl, .one rfl trivial⟩
  unfold dispatchRequest
  apply Along.bind hannounce
  intro _
  cases request.onReadOperation with
  | none => exact serves_releaseTop
  | some handler => exact Along.bind (serves_handle handler r) fun _ => serves_releaseTop

theorem serves_deferRequest (request : LdapRequest) : Confined Event.Serves (deferRequest request) := by
  unfold deferRequest
  apply Along.get
  intro w
  apply Along.bind (confined_selectIndex _ _ fun _ => trivial)
  intro _
  exact Along.step fun _ => ⟨rfl, rfl, rfl, rfl, rfl, rfl, .one rfl trivial⟩

theorem serves_processRequest (slot : ℕ) (r : Response) : Confined Event.Serves (processRequest slot r) := by
  unfold processRequest
  apply Along.get
  intro w
  apply Along.bind (sends_call _).serves
  intro _
  apply Along.ite
  · apply Along.ite _ Along.pure
    apply Along.bind (confined_emit fun _ => trivial)
    intro _
    apply Along.bind sends_connectionOptionalTransitionOnError.serves
    intro _
    exact Along.bind serves_releaseTop fun _ => Along.pure
  · apply Along.ite
    · exact Along.bind (serves_deferRequest _) fun _ => Along.pure
    · exact Along.bind (serves_dispatchRequest slot _ r) fun _ => Along.pure

theorem serves_popRequest : Confined Event.Serves popRequest := by
  unfold popRequest
  apply Along.get
  intro w
  apply Along.ite Along.pure
  rcases requestQueuePop w.connection.callqueue w.connection.links with ⟨top, queue⟩
  cases top with
  | none => exact Along.pure
  | some slot =>
    refine Along.bind (Along.step fun w => ?_) fun _ => Along.pure
    exact ⟨rfl, rfl, rfl, rfl, rfl, rfl, .one rfl trivial⟩

theorem serves_readLoop (responses : List Response) : Confined Event.Serves (readLoop responses) := by
  induction responses with
  | nil =>
    unfold readLoop
    apply Along.bind serves_popRequest
    intro top
    cases top with
    | none => exact Along.pure
    | some _ => exact Along.throw
  | cons r rest ih =>
    unfold readLoop
    apply Along.bind serves_popRequest
    intro top
    cases top with
    | none => exact Along.pure
    | some slot =>
      apply Along.bind (serves_processRequest slot r)
      intro more
      exact Along.ite ih Along.pure

theorem confined_requeue (pending : List LdapRequest)
    (h : ∀ handle index, p handle (.write .readRequests index)) : Confined p (requeue pending) := by
  have hrestore : ∀ i, Confined p (restoreRequests i pending) := by
    induction pending with
    | nil => exact fun _ => Along.pure
    | cons request rest ih =>
      intro i
      unfold restoreRequests
      apply Along.bind (confined_selectIndex _ _ fun handle => h handle i)
      intro _
      apply Along.bind
      · exact confined_modifyConnection fun _ => ⟨rfl, rfl, rfl, rfl⟩
      · exact fun _ => ih (i + 1)
  unfold requeue
  apply Along.ite _ Along.pure
  apply Along.bind (hrestore 0)
  exact fun _ => confined_modifyConnection fun _ => ⟨rfl, rfl, rfl, rfl⟩

theorem serves_finishPass : Confined Event.Serves finishPass := by
  unfold finishPass
  apply Along.get
  intro w
  apply Along.bind
  · exact confined_modifyConnection fun _ => ⟨rfl, rfl, rfl, rfl⟩
  intro _
  apply Along.bind (confined_requeue _ fun _ _ => trivial)
  exact fun _ => Along.step fun _ => ⟨rfl, rfl, rfl, rfl, rfl, rfl, .one rfl trivial⟩

theorem serves_connectionOnRead (responses : List Response) :
    Confined Event.Serves (connectionOnRead responses) := by
  unfold connectionOnRead
  refine Along.bind (Along.step fun _ => ⟨rfl, rfl, rfl, rfl, rfl, rfl, .one rfl trivial⟩) fun _ => ?_
  apply Along.bind (serves_readLoop responses)
  intro drained
  apply Along.ite serves_finishPass
  exact Along.step fun _ => ⟨rfl, rfl, rfl, rfl, rfl, rfl, .one rfl trivial⟩

end Libdomain.Connection
