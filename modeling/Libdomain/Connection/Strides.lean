import Libdomain.Connection.Machine

/-! # Coarser steps

The moves of a run say little about who sets the state machine. A `Stride` is
either a move that leaves the machine alone or everything one of the functions
does that set it: the tail of a tick, the whole processing of an error of
`ldap_result` and that of a response to StartTLS, a bind, the root DSE search or
a schema search. A tick comes with evidence of the requests it has just queued.
An attempt to reconnect is a step of its own.
-/
namespace Libdomain.Connection
open Libdomain.Queue Libdomain.Program Relation

def World.Queues (w : World) (handler : OperationCallback) : Prop :=
  ∃ msgid, (msgid, some handler) ∈ (replay w.trace).queue

def World.Awaits (w : World) (callback : SearchCallback) : Prop :=
  ∃ msgid, (msgid, some .searchOnRead) ∈ (replay w.trace).queue ∧
    .searchIssued w.epoch msgid callback .schema ∈ w.trace

/-- What holds when a tick sets the machine to a state. -/
inductive TickEnters (w : World) : LdapConnectionState → Prop
  | startTls (state : w.connection.stateMachine = .live .init)
      (config : w.connection.config.useStartTls = true)
      (queued : w.Queues .connectionStartTlsOnRead) : TickEnters w .tlsNegotiation
  | plain (state : w.connection.stateMachine = .live .init)
      (config : w.connection.config.useStartTls = false) : TickEnters w .transportReady
  | bind (code : OperationReturnCode) (state : w.connection.stateMachine = .live .transportReady)
      (returned : w.trace.head? = some (.bindReturned code))
      (queued : code = .success ∨ code = .operationInProgress → w.Queues .connectionBindOnRead) :
      TickEnters w (stateAfterBind code)
  | detect (state : w.connection.stateMachine = .live .bound) : TickEnters w .detectDirectory
  | detecting (state : w.connection.stateMachine = .live .detectDirectory)
      (queued : w.Queues .directoryParseResult) : TickEnters w .detectDirectory
  | detected (state : w.connection.stateMachine = .live .detectDirectory)
      (type : w.connection.directoryType ≠ .uninitialized) : TickEnters w .requestSchema
  | requesting (state : w.connection.stateMachine = .live .requestSchema)
      (type : w.connection.directoryType = .activeDirectory) : TickEnters w .requestSchema
  | requested (state : w.connection.stateMachine = .live .requestSchema)
      (loaded : w.connection.directoryType = .openldap ∨
          w.connection.directoryType = .activeDirectory →
        w.Awaits .attributeTypesSearchCallback ∧ w.Awaits .objectClassesSearchCallback) :
      TickEnters w .checkSchema
  | checked (state : w.connection.stateMachine = .live .checkSchema)
      (ready : ldapSchemaReady w.connection = true) : TickEnters w .run
  | failed (source : LdapConnectionState) (state : w.connection.stateMachine = .live source)
      (sending : source ∈ [.init, .transportReady, .detectDirectory, .requestSchema]) :
      TickEnters w .error

def failRequest (request : LdapRequest) : Action Unit := do
  emit (.resultError request)
  connectionOptionalTransitionOnError
  releaseTop

/-- The response concerns the machine or the schema; its handler submits nothing of
the application. -/
def LdapConnectionCtx.Settles (c : LdapConnectionCtx) (request : LdapRequest) (r : Response) : Prop :=
  match request.onReadOperation with
  | some .connectionStartTlsOnRead => True
  | some .connectionBindOnRead => True
  | some .directoryParseResult => r.rc = ldapResSearchEntry ∨ r.rc = ldapResSearchResult
  | some .searchOnRead =>
    (r.rc = ldapResSearchEntry ∨ r.rc = ldapResSearchResult) ∧
      ∃ index callback entries, c.findSearchRequest r.msgid = some index ∧
        (c.searchRequests index).onSearchOperation = some callback ∧ callback.Fills ∧
        readEntries r = some entries
  | _ => False

/-- Steps of the handlers of other responses. -/
inductive Reply : World → World → Prop
  | issue {w w' : World} (step : Issue w w') : Reply w w'
  | callback (w : World) (index : ℕ) (callback : SearchCallback) (request : LdapRequest) (r : Response)
      (entries : List LdEntry) (dispatched : delivery w.trace = .dispatched request r w.connection)
      (handler : request.onReadOperation = some .searchOnRead)
      (found : w.connection.findSearchRequest r.msgid = some index)
      (registered : (w.connection.searchRequests index).onSearchOperation = some callback)
      (answerable : Answerable w.connection r) (other : ¬callback.Fills) :
      Reply w (w.record (.searchCallback index w.epoch r.msgid callback
        (w.connection.searchRequests index).userData entries w.connection))
  | write (w : World) (index : ℕ) (live : index < w.connection.nSearchRequests) :
      Reply w (w.record (.write .searchRequests index))
  | remove (w : World) (index : ℕ) (live : index < w.connection.nSearchRequests)
      (answering : delivery w.trace = .answering index) : Reply w (w.removed index)

/-- Steps of a tick. -/
inductive TickStride : World → World → Prop
  | issue {w w' : World} (step : Issue w w') : TickStride w w'
  | enter (w : World) (state : LdapConnectionState) (enters : TickEnters w state) :
      TickStride w (exec (csmSetState state) w).2
  | running (w : World) (state : w.connection.stateMachine = .live .run) :
      TickStride w { w with connection := { w.connection with nReconnectAttempts := 0 } }

/-- Steps of a read pass. -/
inductive ReadStride : World → World → Prop
  | reply {w w' : World} (step : Reply w w') : ReadStride w w'
  | pass {w w' : World} (step : Pass w w') : ReadStride w w'
  | pop (w : World) (slot : ℕ) (queue : RequestQueue ℕ) (frame : w.frame.isSome = true)
      (top : w.top = none) (settled : (delivery w.trace).Settled)
      (popped : requestQueuePop w.connection.callqueue w.connection.links = (some slot, queue)) :
      ReadStride w (w.popped slot queue)
  | defer (w : World) (slot : ℕ) (top : w.top = some slot) (idle : delivery w.trace = .idle) :
      ReadStride w (exec (deferRequest (w.connection.readRequests slot)) w).2
  | fail (w : World) (slot : ℕ) (top : w.top = some slot) (idle : delivery w.trace = .idle) :
      ReadStride w (exec (failRequest (w.connection.readRequests slot)) w).2
  | serve (w : World) (slot : ℕ) (r : Response) (top : w.top = some slot)
      (idle : delivery w.trace = .idle)
      (settles : w.connection.Settles (w.connection.readRequests slot) r) :
      ReadStride w (exec (dispatchRequest slot (w.connection.readRequests slot) r) w).2
  | dispatch (w : World) (slot : ℕ) (r : Response) (top : w.top = some slot)
      (idle : delivery w.trace = .idle)
      (other : ¬w.connection.Settles (w.connection.readRequests slot) r) :
      ReadStride w (exec (announce slot (w.connection.readRequests slot) r) w).2
  | release (w : World) (frame : w.frame.isSome = true) (completed : (delivery w.trace).Completed) :
      ReadStride w (exec releaseTop w).2

/-- Steps of a run besides the attempts to reconnect. -/
inductive Stride : World → World → Prop
  | tick {w w' : World} (step : TickStride w w') : Stride w w'
  | read {w w' : World} (step : ReadStride w w') : Stride w w'
  | errorHandler (w : World) :
      Stride w { w with connection := { w.connection with onErrorOperation := true } }

variable {w w' : World} {P : World → Prop}

theorem replay_plain {e : Event} (h : e.Plain) (events : List Event) :
    replay (e :: events) = replay events := apply_quiet (h.quiet (w := .initial ⟨false, .simple⟩ none)) _

structure World.Extends (w w' : World) : Prop where
  queue : ∀ p ∈ (replay w.trace).queue, p ∈ (replay w'.trace).queue
  trace : ∀ e ∈ w.trace, e ∈ w'.trace
  agrees : w.Agrees w'

theorem World.Extends.refl (w : World) : w.Extends w :=
  ⟨fun _ h => h, fun _ h => h, by constructor <;> rfl⟩

theorem World.Extends.trans {w'' : World} (h : w.Extends w') (h' : w'.Extends w'') : w.Extends w'' :=
  ⟨fun p hp => h'.queue p (h.queue p hp), fun e he => h'.trace e (h.trace e he),
    h.agrees.trans h'.agrees⟩

theorem extends_announced (w : World) (handler : OperationCallback) (msgid : Int) :
    w.Extends (w.announced handler msgid) :=
  ⟨fun _ h => h, fun _ h => List.mem_cons_of_mem _ (List.mem_cons_of_mem _ h), by constructor <;> rfl⟩

theorem extends_tracked (w : World) (handler : OperationCallback) (msgid : Int) :
    w.Extends (w.tracked handler msgid) := by
  refine ⟨fun p hp => List.mem_append_left _ hp, fun e he => ?_, by constructor <;> rfl⟩
  exact List.mem_cons_of_mem _ (List.mem_cons_of_mem _ (List.mem_cons_of_mem _ he))

theorem extends_trackSearch (w : World) (callback : SearchCallback) (userData : UserData) (msgid : Int) :
    w.Extends (exec (trackSearch callback userData msgid) w).2 := by
  have hissued : w.Extends (w.issued callback userData msgid) :=
    ⟨fun _ h => h, fun _ h => List.mem_cons_of_mem _ h, by constructor <;> rfl⟩
  have hregistered : ∀ t request, World.Extends t (t.registered request) := fun t request =>
    ⟨fun _ h => h, fun _ h => List.mem_cons_of_mem _ (List.mem_cons_of_mem _ h),
      by constructor <;> rfl⟩
  rw [exec_trackSearch]
  dsimp only
  split_ifs
  · exact (hissued.trans (extends_tracked _ _ _)).trans (hregistered _ _)
  · exact hissued.trans (extends_tracked _ _ _)
  · exact hissued.trans (extends_announced _ _ _)

theorem Issue.extends (h : Issue w w') : w.Extends w' := by
  cases h with
  | event e routine =>
    refine ⟨fun p hp => ?_, fun _ h => List.mem_cons_of_mem _ h, by constructor <;> rfl⟩
    change p ∈ (replay (e :: w.trace)).queue
    rw [replay_plain routine.plain]
    exact hp
  | «local» => exact ⟨fun _ h => h, fun _ h => h, by constructor <;> rfl⟩
  | bindInvoked =>
    exact ⟨fun _ h => h, fun _ h => List.mem_cons_of_mem _ h, by constructor <;> rfl⟩
  | errorCallback =>
    exact ⟨fun _ h => h, fun _ h => List.mem_cons_of_mem _ h, by constructor <;> rfl⟩
  | track handler msgid _ =>
    rw [exec_track]
    split_ifs
    · exact extends_tracked w handler msgid
    · exact extends_announced w handler msgid
  | search callback userData msgid => exact extends_trackSearch w callback userData msgid

theorem World.Extends.awaits {callback : SearchCallback} (h : w.Extends w') (ha : w.Awaits callback) :
    w'.Awaits callback := by
  obtain ⟨msgid, hqueue, htrace⟩ := ha
  refine ⟨msgid, h.queue _ hqueue, ?_⟩
  rw [h.agrees.epoch]
  exact h.trace _ htrace

theorem follows_extends {α : Type} {p : Action α} {Q : α → World → Prop} (h : Follows Issue P p Q) :
    Follows Issue P p (fun a t => Q a t ∧ ∃ s, P s ∧ s.Extends t) := by
  intro w hw
  have hrun := (h.keep (I := w.Extends) fun s t hst hs => hs.trans hst.extends) w ⟨hw, .refl w⟩
  exact ⟨hrun.1, fun a ha => ⟨(hrun.2 a ha).1, w, hw, (hrun.2 a ha).2⟩⟩

theorem follows_track {handler : OperationCallback} (h : handler ≠ .searchOnRead) (msgid : Int) :
    Follows Issue P (track handler msgid) (fun _ w => w.Queues handler) := by
  apply Follows.atomic
  · exact fun w _ => .track w handler msgid h
  · intro w _ t _ he
    rw [exec_track] at he
    split_ifs at he
    · cases he
      exact ⟨msgid, List.mem_append_right _ List.mem_cons_self⟩
    · cases he

theorem follows_submit (request : LdapCall) {handler : OperationCallback}
    (h : handler ≠ .searchOnRead) (sent : Sent) :
    Follows Issue P (submit request handler sent) (fun rc w => rc = .success → w.Queues handler) := by
  unfold submit
  apply Follows.bind (along_call request).follows
  intro _
  apply Follows.ite
  · intro _
    exact Follows.pure fun _ _ h => by cases h
  · intro _
    exact Follows.bind (follows_track h sent.msgid) fun _ => Follows.pure fun _ hw _ => hw

theorem follows_trackWithHandlers {handler : OperationCallback} (h : handler ≠ .searchOnRead)
    (msgid : Int) (descriptor : Option Int) (code : OperationReturnCode) :
    Follows Issue P (trackWithHandlers handler msgid descriptor code)
      (fun rc w => rc = .failure ∨ rc = code ∧ w.Queues handler) := by
  unfold trackWithHandlers ensureHandlers
  apply Follows.bind (Q := fun _ _ => True)
  · apply Along.follows
    apply Along.get
    intro w
    exact Along.ite Along.pure (along_connectionInstallHandlers descriptor)
  · intro installed
    apply Follows.ite
    · intro _
      exact Follows.bind along_ldapUnbind.follows fun _ => Follows.pure fun _ _ => .inl rfl
    · intro _
      exact Follows.bind (follows_track h msgid) fun _ => Follows.pure fun _ hw => .inr ⟨rfl, hw⟩

theorem follows_connectionStartTls (sent : Sent) (descriptor : Option Int) :
    Follows Issue P (connectionStartTls sent descriptor)
      (fun rc w => rc = .success → w.Queues .connectionStartTlsOnRead) := by
  unfold connectionStartTls
  apply Follows.bind (along_call _).follows
  intro _
  apply Follows.ite
  · intro _
    exact Follows.bind along_ldapUnbind.follows fun _ => Follows.pure fun _ _ h => by cases h
  · intro _
    apply (follows_trackWithHandlers (by decide) _ _ _).consequence fun _ _ => trivial
    rintro rc w (rfl | ⟨-, hw⟩) hrc
    · cases hrc
    · exact hw

def BindQueued (rc : OperationReturnCode) (w : World) : Prop :=
  rc = .success ∨ rc = .operationInProgress → w.Queues .connectionBindOnRead

theorem follows_bindSent (c : LdapCall) (ldapDefaults : World → Pointer Unit) (sent : Sent)
    (descriptor : Option Int) {code : OperationReturnCode} {refused : Prop} [Decidable refused]
    (tlsInplace : Bool)
    (hP : ∀ w, P w → w.connection.stateMachine = .live .transportReady ∧ w.tlsInplace = tlsInplace) :
    Follows Issue P (do
      emit (.bindInvoked tlsInplace)
      let _ ← dereference (ldapDefaults (← get))
      call c
      if sent.rc = ldapXConnecting then return OperationReturnCode.repeatLastOperation
      else if refused then
        ldapUnbind
        return .failure
      else trackWithHandlers .connectionBindOnRead sent.msgid descriptor code) BindQueued := by
  have hfail : ∀ rc, rc ≠ .success → rc ≠ .operationInProgress → ∀ w, BindQueued rc w :=
    fun rc h₁ h₂ w h => (h.elim h₁ h₂).elim
  apply Follows.bind (Q := fun _ _ => True)
  · apply Follows.atomic
    · intro w hw
      obtain ⟨hs, rfl⟩ := hP w hw
      exact .bindInvoked w hs
    · exact fun _ _ _ _ _ => trivial
  intro _
  apply Follows.get
  intro w _
  apply Follows.bind (along_dereference _).follows
  intro _
  apply Follows.bind (along_call c).follows
  intro _
  apply Follows.ite
  · intro _
    exact Follows.pure fun _ _ => hfail _ (by decide) (by decide) _
  · intro _
    apply Follows.ite
    · intro _
      exact Follows.bind along_ldapUnbind.follows fun _ =>
        Follows.pure fun _ _ => hfail _ (by decide) (by decide) _
    · intro _
      apply (follows_trackWithHandlers (by decide) _ _ _).consequence fun _ _ => trivial
      rintro rc w (rfl | ⟨-, hw⟩)
      · exact hfail _ (by decide) (by decide) _
      · exact fun _ => hw

theorem follows_connectionBind_queued (i : TickInput) :
    Follows Issue (fun w => w.connection.stateMachine = .live .transportReady) (connectionBind i)
      BindQueued := by
  unfold connectionBind
  apply Follows.get
  intro w hw
  cases w.connection.bindType with
  | interactive =>
    unfold connectionLdapBind
    apply Follows.get
    intro w' hw'
    apply follows_bindSent _ (fun t => t.connection.ldapDefaults)
    rintro _ rfl
    rw [hw']
    exact ⟨hw, rfl⟩
  | simple =>
    unfold connectionSaslBind
    apply Follows.get
    intro w' hw'
    apply follows_bindSent _ (fun t => t.connection.ldapDefaults)
    rintro _ rfl
    rw [hw']
    exact ⟨hw, rfl⟩

theorem follows_search (arguments : SearchArguments) (callback : SearchCallback) (sent : Sent) :
    Follows Issue P (search arguments (some callback) .schema sent)
      (fun rc w => rc = .success → w.Awaits callback) := by
  unfold search
  apply Follows.bind (along_call _).follows
  intro _
  apply Follows.ite
  · intro _
    exact Follows.pure fun _ _ h => by cases h
  · intro _
    apply Follows.atomic
    · exact fun w _ => .search w callback .schema sent.msgid
    · intro w rc t _ he hrc
      rw [Option.getD_some, exec_trackSearch] at he
      dsimp only at he
      split_ifs at he
      · cases he
        refine ⟨sent.msgid, List.mem_append_right _ List.mem_cons_self, ?_⟩
        simp [World.registered, World.tracked, World.announced, World.issued, World.record]
      · cases he
        cases hrc
      · cases he

theorem follows_searchDefinitions (base : Bytes) (first second : Sent) :
    Follows Issue P (searchDefinitions base first second) (fun rc w =>
      (rc = .success → w.Awaits .attributeTypesSearchCallback ∧
        w.Awaits .objectClassesSearchCallback) ∧ rc ≠ .operationInProgress) := by
  unfold searchDefinitions
  apply Follows.bind (follows_search _ .attributeTypesSearchCallback first)
  intro rc
  apply Follows.ite
  · intro _
    exact Follows.pure fun _ _ => ⟨by simp, by simp⟩
  · intro hrc
    apply Follows.bind (follows_extends (follows_search _ .objectClassesSearchCallback second))
    intro rc'
    apply Follows.ite
    · intro _
      exact Follows.pure fun _ _ => ⟨by simp, by simp⟩
    · intro hrc'
      apply Follows.pure
      rintro w ⟨hsecond, s, hfirst, hs⟩
      refine ⟨fun _ => ?_, by simp⟩
      exact ⟨hs.awaits (hfirst (not_not.mp hrc)), hsecond (not_not.mp hrc')⟩

/-- What a load of the schema has done when it returns a code. -/
def SchemaRequested (type : LdapDirectoryType) (rc : OperationReturnCode) (w : World) : Prop :=
  (rc = .success → type = .openldap ∨ type = .activeDirectory →
    w.Awaits .attributeTypesSearchCallback ∧ w.Awaits .objectClassesSearchCallback) ∧
  (rc = .operationInProgress → type = .activeDirectory)

theorem follows_ldapSchemaLoad {type : LdapDirectoryType} (first second : Sent)
    (hP : ∀ w, P w → w.connection.directoryType = type) :
    Follows Issue P (ldapSchemaLoad first second) (SchemaRequested type) := by
  unfold ldapSchemaLoad
  apply Follows.get
  intro w hw
  rw [hP w hw]
  have hdefinitions : ∀ {Q : World → Prop} base type, Follows Issue Q (searchDefinitions base first second)
      (SchemaRequested type) := fun base type =>
    (follows_searchDefinitions base first second).consequence (fun _ hq => hq)
      fun rc t ht => ⟨fun hrc _ => ht.1 hrc, fun hrc => absurd hrc ht.2⟩
  cases type with
  | openldap => exact hdefinitions _ _
  | activeDirectory =>
    apply Follows.get
    intro t _
    cases t.schemaEntryPath with
    | none =>
      apply Follows.bind (along_search _ _ _ _).follows
      intro rc
      apply Follows.ite
      · intro _
        exact Follows.pure fun _ _ => ⟨by simp, by simp⟩
      · intro _
        exact Follows.pure fun _ _ => ⟨by simp, fun _ => rfl⟩
    | some path => exact hdefinitions path _
  | freeIpa => exact Follows.pure fun _ _ => ⟨by simp, by simp⟩
  | unknown => exact Follows.pure fun _ _ => ⟨by simp, by simp⟩
  | uninitialized => exact Follows.pure fun _ _ => ⟨by simp, by simp⟩

theorem TickStride.of_issue {α : Type} {p : Action α} {Q : α → World → Prop} (h : Follows Issue P p Q) :
    Follows TickStride P p Q := h.mono fun _ _ hst => TickStride.issue hst

theorem strides_enter {state : LdapConnectionState} {code : OperationReturnCode}
    (h : ∀ w, P w → TickEnters w state) :
    Follows TickStride P (do csmSetState state; return code) (fun _ _ => True) := by
  apply Follows.bind (Q := fun _ _ => True)
  · apply Follows.atomic
    · exact fun w hw => .enter w state (h w hw)
    · exact fun _ _ _ _ _ => trivial
  · exact fun _ => Along.pure.follows

theorem strides_enter_after {α : Type} {p : Action α} {Q : α → World → Prop}
    {next : α → LdapConnectionState} {result : α → OperationReturnCode} (hp : Follows Issue P p Q)
    (h : ∀ s, P s → ∀ a t, s.Extends t → Q a t → TickEnters t (next a)) :
    Follows TickStride P (do let a ← p; csmSetState (next a); return result a) (fun _ _ => True) := by
  apply Follows.bind (TickStride.of_issue (follows_extends hp))
  intro a
  apply strides_enter
  rintro t ⟨hq, s, hs, hst⟩
  exact h s hs a t hst hq

theorem strides_transportReady (i : TickInput) :
    Follows TickStride (fun w => w.connection.stateMachine = .live .transportReady)
      (do
        let rc ← connectionBind i
        emit (.bindReturned rc)
        csmSetState (stateAfterBind rc)
        return rc)
      (fun _ _ => True) := by
  apply Follows.bind (TickStride.of_issue (follows_extends (follows_connectionBind_queued i)))
  intro rc
  apply Follows.bind (Q := fun _ w => TickEnters w (stateAfterBind rc))
  · apply Follows.atomic
    · exact fun w _ => .issue (.event w (.bindReturned rc) trivial)
    · rintro w _ _ ⟨hq, s, hs, hst⟩ he
      cases he
      exact .bind rc (hst.agrees.stateMachine.trans hs) rfl hq
  · intro _
    exact strides_enter fun _ hw => hw

theorem strides_requestSchema (i : TickInput) (type : LdapDirectoryType) :
    Follows TickStride (fun w => w.connection.stateMachine = .live .requestSchema ∧
        w.connection.directoryType = type)
      (do
        let rc ← ldapSchemaLoad i.firstSearch i.secondSearch
        csmSetState (match rc with
          | .success => .checkSchema
          | .operationInProgress => .requestSchema
          | _ => .error)
        return OperationReturnCode.success)
      (fun _ _ => True) := by
  apply strides_enter_after (follows_ldapSchemaLoad _ _ fun w hw => hw.2)
  rintro s ⟨hs, htype⟩ rc t hst ⟨hloaded, hprogress⟩
  have hstate := hst.agrees.stateMachine.trans hs
  have ht := hst.agrees.directoryType.trans htype
  cases rc with
  | success => exact .requested hstate (by rw [ht]; exact hloaded rfl)
  | operationInProgress => exact .requesting hstate (by rw [ht]; exact hprogress rfl)
  | failure => exact .failed _ hstate (by decide)
  | missingAttribute => exact .failed _ hstate (by decide)
  | repeatLastOperation => exact .failed _ hstate (by decide)

theorem strides_csmNextState (i : TickInput) :
    Follows TickStride (fun w => w.connection.stateMachine ≠ .live .error) (csmNextState i)
      (fun _ _ => True) := by
  unfold csmNextState
  apply Follows.get
  intro w hstate
  apply Follows.bind (follows_dereference _)
  intro state
  cases state with
  | init =>
    apply Follows.get
    rintro _ ⟨rfl, hs⟩
    apply Follows.ite
    · intro htls
      apply strides_enter_after (follows_connectionStartTls _ _)
      rintro _ rfl rc t hst hq
      have hstate := hst.agrees.stateMachine.trans hs
      split_ifs with hrc
      · exact .startTls hstate (by rw [hst.agrees.config]; exact htls) (hq hrc)
      · exact .failed _ hstate (by decide)
    · intro htls
      apply strides_enter
      rintro _ rfl
      exact .plain hs (Bool.eq_false_iff.mpr htls)
  | transportReady => exact (strides_transportReady i).of_pre fun _ hs => hs.1 ▸ hs.2
  | bound =>
    apply strides_enter
    rintro _ ⟨rfl, hs⟩
    exact .detect hs
  | detectDirectory =>
    apply Follows.get
    rintro _ ⟨rfl, hs⟩
    apply Follows.ite
    · intro _
      apply strides_enter_after (follows_submit _ (by decide) _)
      rintro _ rfl rc t hst hq
      have hstate := hst.agrees.stateMachine.trans hs
      split_ifs with hrc
      · exact .detecting hstate (hq hrc)
      · exact .failed _ hstate (by decide)
    · intro htype
      apply strides_enter
      rintro _ rfl
      exact .detected hs htype
  | requestSchema =>
    apply (strides_requestSchema i w.connection.directoryType).of_pre
    rintro _ ⟨rfl, hs⟩
    exact ⟨hs, rfl⟩
  | checkSchema =>
    apply Follows.get
    rintro _ ⟨rfl, hs⟩
    apply Follows.ite
    · intro hready
      apply strides_enter
      rintro _ rfl
      exact .checked hs hready
    · intro _
      exact Along.pure.follows
  | run =>
    apply Follows.bind (Q := fun _ _ => True)
    · apply Follows.atomic
      · rintro _ ⟨rfl, hs⟩
        exact .running _ hs
      · exact fun _ _ _ _ _ => trivial
    · exact fun _ => Along.pure.follows
  | error =>
    intro t ht
    exact absurd ht.2 hstate
  | tlsNegotiation => exact Along.pure.follows
  | bindInProgress => exact Along.pure.follows

theorem Reply.handling (h : Reply w w') : Handling w w' := by
  cases h with
  | issue h => exact .of_calm h.calm
  | callback index callback request r entries dispatched handler found registered answerable _ =>
    exact .answer (.callback w index callback request r entries dispatched handler found registered
      answerable)
  | write index live => exact .answer (.write w index live)
  | remove index live answering => exact .answer (.remove w index live answering)

variable {request : LdapRequest} {r : Response} {c : LdapConnectionCtx} {handler : OperationCallback}

/-- A handler that only submits completes the delivery of anything but a search. -/
theorem replies_issue {p : Action OperationReturnCode} (h : Along Issue p)
    (hhandler : request.onReadOperation = some handler) (hne : handler ≠ .searchOnRead) :
    Follows Reply (fun w => w.connection = c ∧ delivery w.trace = .dispatched request r c) p
      (fun _ w => (delivery w.trace).Completed) := by
  apply Follows.mono (R := Issue) _ fun _ _ => Reply.issue
  apply (h.keep (I := fun w => delivery w.trace = .dispatched request r c)
    fun s t hst hs => hst.calm.delivery.trans hs).consequence fun w hw => hw.2
  intro _ w hw
  rw [hw]
  intro hs
  exact absurd (Option.some.inj (hhandler.symm.trans hs)) hne

theorem replies_searchOnRead (hhandler : request.onReadOperation = some .searchOnRead)
    (hother : ¬c.Settles request r) :
    Follows Reply (fun w => w.connection = c ∧ delivery w.trace = .dispatched request r c)
      (searchOnRead r) (fun _ w => (delivery w.trace).Completed) := by
  have hfills : ∀ index callback entries, (r.rc = ldapResSearchEntry ∨ r.rc = ldapResSearchResult) →
      c.findSearchRequest r.msgid = some index →
      (c.searchRequests index).onSearchOperation = some callback → readEntries r = some entries →
      ¬callback.Fills := by
    intro index callback entries htype hfound hc he hfills
    apply hother
    rw [LdapConnectionCtx.Settles, hhandler]
    exact ⟨htype, index, callback, entries, hfound, hc, hfills, he⟩
  apply follows_searchOnRead
  · exact fun w index live => .write w index live
  · exact fun w index live answering => .remove w index live answering
  · exact fun _ _ h => .issue h
  · rintro w index callback entries rfl hd htype hfound hc he
    exact .callback w index callback request r entries hd hhandler hfound hc
      ⟨htype, index, callback, entries, hfound, hc, he⟩ (hfills index callback entries htype hfound hc he)
  · intro index callback entries htype hfound hc he
    have hnot := hfills index callback entries htype hfound hc he
    cases callback with
    | printSearchCallback => exact Along.pure
    | application _ =>
      refine Along.bind (Along.mono (along_performAll r.submissions) ?_) fun _ => Along.pure
      exact fun _ _ h => ⟨.issue h, h.calm⟩
    | attributeTypesSearchCallback => exact absurd trivial hnot
    | objectClassesSearchCallback => exact absurd trivial hnot
    | subschemaSubentrySearchCallback => exact absurd trivial hnot

/-- The handlers of responses that do not settle their request. -/
theorem replies_handle (hhandler : request.onReadOperation = some handler)
    (hother : ¬c.Settles request r) :
    Follows Reply (fun w => w.connection = c ∧ delivery w.trace = .dispatched request r c)
      (handler.handle r) (fun _ w => (delivery w.trace).Completed) := by
  cases handler with
  | addOnRead => exact replies_issue (along_resultOnRead _ _ r) hhandler (by decide)
  | modifyOnRead => exact replies_issue (along_resultOnRead _ _ r) hhandler (by decide)
  | deleteOnRead => exact replies_issue (along_resultOnRead _ _ r) hhandler (by decide)
  | renameOnRead => exact replies_issue (along_resultOnRead _ _ r) hhandler (by decide)
  | whoamiOnRead => exact replies_issue Along.pure hhandler (by decide)
  | searchOnRead => exact replies_searchOnRead hhandler hother
  | directoryParseResult =>
    rw [LdapConnectionCtx.Settles, hhandler] at hother
    apply replies_issue _ hhandler (by decide)
    rw [OperationCallback.handle, directoryParseResult, if_neg hother]
    apply Along.ite Along.pure
    exact Along.bind (along_onErrorOperation r) fun _ => Along.pure
  | connectionBindOnRead =>
    rw [LdapConnectionCtx.Settles, hhandler] at hother
    exact absurd trivial hother
  | connectionStartTlsOnRead =>
    rw [LdapConnectionCtx.Settles, hhandler] at hother
    exact absurd trivial hother

theorem strides_atomic {α : Type} {R : World → World → Prop} {p : Action α} {Q : α → World → Prop}
    (hp : Follows R P p Q) (h : ∀ w, P w → ReadStride w (exec p w).2) : Follows ReadStride P p Q := by
  intro w hw
  exact ⟨.single (h w hw), (hp w hw).2⟩

theorem strides_releaseTop :
    Follows ReadStride (fun w => (delivery w.trace).Completed ∧ w.frame.isSome = true) releaseTop
      (fun _ => World.Idle) :=
  strides_atomic follows_releaseTop fun w hw => .release w hw.2 hw.1

theorem strides_dispatchRequest {slot : ℕ} {request : LdapRequest} (r : Response) :
    Follows ReadStride (fun w => w.Processing slot ∧ w.connection.readRequests slot = request)
      (dispatchRequest slot request r) (fun _ => World.Idle) := by
  intro w hw
  by_cases hsettles : w.connection.Settles request r
  · refine ⟨.single ?_, (follows_dispatchRequest r w hw).2⟩
    obtain ⟨hw, rfl⟩ := hw
    exact .serve w slot r hw.1 hw.2 hsettles
  · obtain ⟨hw, rfl⟩ := hw
    rw [dispatchRequest]
    refine Follows.bind (P := fun t => t = w) (Q := fun _ t =>
      t.frame.isSome = true ∧ t.connection = { w.connection with
        msgid := (w.connection.readRequests slot).msgid } ∧
        delivery t.trace = .dispatched (w.connection.readRequests slot) r t.connection) ?_ ?_ w rfl
    · apply Follows.atomic
      · rintro _ rfl
        exact .dispatch _ slot r hw.1 hw.2 hsettles
      · rintro _ _ _ rfl he
        cases he
        exact ⟨frame_of_top hw.1, rfl, rfl⟩
    intro _
    cases hh : (w.connection.readRequests slot).onReadOperation with
    | none =>
      apply strides_releaseTop.of_pre
      rintro t ⟨hframe, -, hd⟩
      refine ⟨?_, hframe⟩
      rw [hd]
      intro hs
      rw [hh] at hs
      cases hs
    | some handler =>
      have hrun := (replies_handle (c := { w.connection with
        msgid := (w.connection.readRequests slot).msgid }) (r := r) hh hsettles).keep
        (I := fun t => t.frame.isSome = true) fun s t hst hs => by rw [hst.handling.frame]; exact hs
      apply Follows.bind ((hrun.mono fun _ _ => ReadStride.reply).of_pre _)
      · intro _
        exact strides_releaseTop
      · rintro t ⟨hframe, hc, hd⟩
        exact ⟨⟨hc, by rw [← hc]; exact hd⟩, hframe⟩

theorem follows_failRequest {slot : ℕ} {request : LdapRequest} :
    Follows Serving (fun w => w.Processing slot ∧ w.connection.readRequests slot = request)
      (failRequest request) (fun _ => World.Idle) := by
  unfold failRequest
  apply Follows.bind (Q := fun _ t => (delivery t.trace).Completed ∧ t.frame.isSome = true)
  · apply Follows.atomic
    · rintro w ⟨hw, rfl⟩
      exact .serve (.resultError w slot hw.1 hw.2)
    · rintro w _ _ ⟨hw, -⟩ he
      cases he
      exact ⟨trivial, frame_of_top hw.1⟩
  intro _
  apply Follows.bind (Q := fun _ t => (delivery t.trace).Completed ∧ t.frame.isSome = true)
  · apply Follows.mono _ fun _ _ h => Serving.handling (.inner h)
    exact along_connectionOptionalTransitionOnError.keep fun s t hst hs => by
      rw [hst.frame, hst.delivery]; exact hs
  · exact fun _ => follows_releaseTop

theorem strides_failRequest {slot : ℕ} {request : LdapRequest} :
    Follows ReadStride (fun w => w.Processing slot ∧ w.connection.readRequests slot = request)
      (failRequest request) (fun _ => World.Idle) := by
  apply strides_atomic follows_failRequest
  rintro w ⟨hw, rfl⟩
  exact .fail w slot hw.1 hw.2

theorem strides_processRequest (slot : ℕ) (r : Response) :
    Follows ReadStride (fun w => w.Processing slot) (processRequest slot r)
      (fun more w => if more then w.Idle else w.Processing slot) := by
  unfold processRequest
  apply Follows.get
  intro w hw
  apply Follows.bind (Q := fun _ t => t.Processing slot ∧
    t.connection.readRequests slot = w.connection.readRequests slot)
  · apply Follows.atomic
    · exact fun s _ => .reply (.issue (.event s _ trivial))
    · rintro _ _ _ rfl he
      cases he
      exact ⟨hw, rfl⟩
  intro _
  apply Follows.ite
  · intro _
    apply Follows.ite
    · intro _
      have hfail : Follows ReadStride (fun t => t.Processing slot ∧
          t.connection.readRequests slot = w.connection.readRequests slot)
          (failRequest (w.connection.readRequests slot) >>= fun _ => pure true)
          (fun more t => if more then t.Idle else t.Processing slot) :=
        Follows.bind strides_failRequest fun _ => Follows.pure fun t ht => ht
      simpa only [failRequest, bind_assoc] using hfail
    · intro _
      exact Follows.pure fun t ht => ht.1
  · intro _
    apply Follows.ite
    · intro _
      apply Follows.bind (strides_atomic follows_deferRequest _)
      · exact fun _ => Follows.pure fun t ht => ht
      · rintro t ⟨ht, hr⟩
        rw [← hr]
        exact .defer t slot ht.1 ht.2
    · intro _
      apply Follows.bind (strides_dispatchRequest r)
      exact fun _ => Follows.pure fun t ht => ht

theorem strides_popRequest :
    Follows ReadStride World.Idle popRequest (fun top w => match top with
      | none => w.Idle ∧ w.Drained
      | some slot => w.Processing slot) := by
  intro w hw
  refine ⟨?_, (follows_popRequest w hw).2⟩
  cases hp : requestQueuePop w.connection.callqueue w.connection.links with
  | mk top queue =>
    cases top with
    | none =>
      rw [exec_popRequest_none hp]
    | some slot =>
      rw [exec_popRequest_some hp]
      exact .single (.pop w slot queue hw.1 hw.2.1 hw.2.2 hp)

theorem strides_readLoop (responses : List Response) :
    Follows ReadStride World.Idle (readLoop responses)
      (fun drained w => if drained then w.Idle ∧ w.Drained else ∃ slot, w.Processing slot) := by
  induction responses with
  | nil =>
    apply Follows.bind strides_popRequest
    intro top
    cases top with
    | none => exact Follows.pure fun _ hw => hw
    | some slot => exact Follows.throw
  | cons r rest ih =>
    apply Follows.bind strides_popRequest
    intro top
    cases top with
    | none => exact Follows.pure fun _ hw => hw
    | some slot =>
      apply Follows.bind (strides_processRequest slot r)
      intro more
      cases more with
      | true => exact ih
      | false => exact Follows.pure fun _ hw => ⟨slot, hw⟩

theorem strides_connectionOnRead (responses : List Response) :
    Follows ReadStride (fun w => w.frame = none) (connectionOnRead responses) (fun _ w => w.frame = none) := by
  intro w hw
  refine ⟨?_, (follows_connectionOnRead responses w hw).2⟩
  revert w
  suffices h : Follows ReadStride (fun w => w.frame = none) (connectionOnRead responses) fun _ _ => True from
    fun w hw => (h w hw).1
  unfold connectionOnRead
  apply Follows.bind (Q := fun _ => World.Idle)
  · apply Follows.atomic
    · exact fun w hw => .pass (.begin w hw)
    · intro w _ _ _ he
      cases he
      exact ⟨rfl, rfl, .inl rfl⟩
  intro _
  apply Follows.bind (strides_readLoop responses)
  intro drained
  cases drained with
  | true =>
    apply Follows.atomic
    · exact fun w hw => .pass (.finish w hw.1.1 hw.1.2.1 hw.1.2.2 hw.2)
    · exact fun _ _ _ _ _ => trivial
  | false =>
    apply Follows.atomic
    · exact fun w ⟨slot, htop, hidle⟩ => .pass (.abandon w slot htop hidle)
    · exact fun _ _ _ _ _ => trivial

def Step.Reconnects (step : Step) (w : World) : Prop :=
  (∃ i, step = .tick i) ∧ w.connection.stateMachine = .live .error

theorem strides_stepPerform (step : Step) :
    Follows Stride (fun w => w.frame = none ∧ ¬step.Reconnects w) step.perform
      (fun _ w => w.frame = none) := by
  intro w ⟨hw, hstep⟩
  refine ⟨?_, (follows_stepPerform step w hw).2⟩
  cases step with
  | tick input =>
    have hstate : w.connection.stateMachine ≠ .live .error := fun hs => hstep ⟨⟨input, rfl⟩, hs⟩
    have htick := (strides_csmNextState input).mono fun _ _ => Stride.tick
    exact (Follows.bind htick (fun _ => Along.pure.follows) w hstate).1
  | read responses => exact ReflTransGen.mono (fun _ _ => Stride.read) _ _ (strides_connectionOnRead responses w hw).1
  | submit submission =>
    have hperform : Along Stride (perform submission) :=
      (along_perform submission).mono fun _ _ h => Stride.tick (.issue h)
    exact (Along.bind hperform fun _ => Along.pure) w
  | installErrorHandler => exact .single (.errorHandler w)

theorem exec_tick_reconnect {w : World} (hs : w.connection.stateMachine = .live .error) (i : TickInput) :
    exec (Step.tick i).perform w = exec (reconnect i) w := by
  change exec (csmNextState i >>= fun _ => pure ()) w = _
  have hrun : exec (csmNextState i) w = exec (reconnect i >>= fun _ => pure .success) w := by
    rw [csmNextState, exec_bind_ok (exec_get w), hs]
    rfl
  rw [exec_bind, hrun, exec_bind]
  rcases exec (reconnect i) w with ⟨result, t⟩
  cases result <;> rfl

theorem TickEnters.enters {state : LdapConnectionState} (h : TickEnters w state) : Enters w state := by
  cases h with
  | startTls state config _ => exact .startTls state config
  | plain state config => exact .plain state config
  | bind code state returned _ => exact .bind code state returned
  | detect state => exact .detect state
  | detecting state _ => exact .detecting state
  | detected state type => exact .detected state type
  | requesting state _ => exact .requesting state
  | requested state _ => exact .requested state
  | checked state ready => exact .checked state ready
  | failed => exact .error

theorem TickStride.moves (h : TickStride w w') : ReflTransGen Move w w' := by
  cases h with
  | issue h => exact .single (.tick (.inner (.calm h.calm)))
  | enter state enters => exact .single (.tick (.inner (.setState w state enters.enters)))
  | running state => exact .single (.tick (.inner (.running w state)))

theorem ReadStride.moves (h : ReadStride w w') : ReflTransGen Move w w' := by
  have hserving : ∀ {s t : World}, ReflTransGen Serving s t → ReflTransGen Move s t := fun h =>
    ReflTransGen.mono (fun _ _ => Move.serving) _ _ h
  cases h with
  | reply h => exact .single (.serving (.handling h.handling))
  | pass h => exact .single (.pass h)
  | pop slot queue frame top settled popped =>
    exact .single (.serving (.serve (.pop w slot queue frame top settled popped)))
  | defer slot top idle => exact .single (.serving (.serve (.defer w slot top idle)))
  | fail slot top idle => exact hserving (follows_failRequest w ⟨⟨top, idle⟩, rfl⟩).1
  | serve slot r top idle _ => exact hserving (follows_dispatchRequest r w ⟨⟨top, idle⟩, rfl⟩).1
  | dispatch slot r top idle _ => exact .single (.serving (.serve (.dispatch w slot r top idle)))
  | release frame completed => exact .single (.serving (.serve (.release w frame completed)))

theorem Stride.moves (h : Stride w w') : ReflTransGen Move w w' := by
  cases h with
  | tick h => exact h.moves
  | read h => exact h.moves
  | errorHandler => exact .single (.tick (.lifecycle (.errorHandler w)))

theorem simulated_of_moves (h : ReflTransGen Move w w') (hw : Simulated w) :
    Simulated w' ∧ w.Grows w' fun _ => True := by
  induction h with
  | refl => exact ⟨hw, .none rfl⟩
  | tail _ hmove ih => exact ⟨(hmove.effect ih.1).simulated ih.1, ih.2.trans (hmove.grows ih.1)⟩

theorem Stride.simulated (h : Stride w w') (hw : Simulated w) : Simulated w' :=
  (simulated_of_moves h.moves hw).1

theorem Stride.grows (h : Stride w w') (hw : Simulated w) : w.Grows w' fun _ => True :=
  (simulated_of_moves h.moves hw).2

theorem moves_reconnect (i : TickInput) (state : w.connection.stateMachine = .live .error)
    (frame : w.frame = none) : ReflTransGen Move w (exec (reconnect i) w).2 :=
  ReflTransGen.mono (fun _ _ => Move.tick) _ _ (follows_reconnect i _ w ⟨state, frame, rfl⟩).1

/-- Each step of a run is taken in a world that meets the condition. -/
def EachStep (C : World → Step → Prop) : List Step → World → Prop
  | [], _ => True
  | step :: rest, w => C w step ∧ ∀ w', exec step.perform w = (.ok (), w') → EachStep C rest w'

variable {I : World → Prop} {C : World → Step → Prop}

instance (step : Step) (w : World) : Decidable (step.Reconnects w) :=
  match step with
  | .tick i => decidable_of_iff (w.connection.stateMachine = .live .error)
      ⟨fun hs => ⟨⟨i, rfl⟩, hs⟩, fun h => h.2⟩
  | .read _ => isFalse (by simp [Step.Reconnects])
  | .submit _ => isFalse (by simp [Step.Reconnects])
  | .installErrorHandler => isFalse (by simp [Step.Reconnects])

instance decidableEachStep [∀ w step, Decidable (C w step)] :
    (steps : List Step) → (w : World) → Decidable (EachStep C steps w)
  | [], _ => isTrue trivial
  | step :: rest, w =>
    match he : exec step.perform w with
    | (.ok _, t) =>
      have : Decidable (EachStep C rest t) := decidableEachStep rest t
      decidable_of_iff (C w step ∧ EachStep C rest t)
        ⟨fun h => ⟨h.1, fun w' he' => by cases he.symm.trans he'; exact h.2⟩, fun h => ⟨h.1, h.2 t he⟩⟩
    | (.error _, t) => decidable_of_iff (C w step)
        ⟨fun h => ⟨h, fun w' he' => by cases he.symm.trans he'⟩, fun h => h.1⟩

/-- An invariant of the strides, and of the attempts to reconnect that meet the
condition, is one of the steps that meet it. -/
theorem step_invariant (hstride : ∀ s t, Simulated s → Stride s t → I s → I t)
    (hreconnect : ∀ s i, Simulated s → s.connection.stateMachine = .live .error → s.frame = none →
      C s (.tick i) → I s → I (exec (reconnect i) s).2)
    (step : Step) (hw : Simulated w) (hf : w.frame = none) (hC : C w step) (hi : I w) :
    Simulated (exec step.perform w).2 ∧ I (exec step.perform w).2 := by
  by_cases hstep : step.Reconnects w
  · obtain ⟨⟨i, rfl⟩, hs⟩ := hstep
    rw [exec_tick_reconnect hs]
    exact ⟨(simulated_of_moves (moves_reconnect i hs hf) hw).1, hreconnect w i hw hs hf hC hi⟩
  · apply (strides_stepPerform step).invariant (I := fun w => Simulated w ∧ I w) _ ⟨hf, hstep⟩
    · exact ⟨hw, hi⟩
    · exact fun s t hst hs => ⟨hst.simulated hs.1, hstride s t hs.1 hst hs.2⟩

theorem steps_invariant (hstride : ∀ s t, Simulated s → Stride s t → I s → I t)
    (hreconnect : ∀ s i, Simulated s → s.connection.stateMachine = .live .error → s.frame = none →
      C s (.tick i) → I s → I (exec (reconnect i) s).2)
    (steps : List Step) (hw : Simulated w) (hf : w.frame = none) (hC : EachStep C steps w)
    (hi : I w) : Simulated (exec (performSteps steps) w).2 ∧ I (exec (performSteps steps) w).2 := by
  induction steps generalizing w with
  | nil => exact ⟨hw, hi⟩
  | cons step rest ih =>
    obtain ⟨hstep, hrest⟩ := hC
    have hnext := step_invariant hstride hreconnect step hw hf hstep hi
    rw [exec_performSteps_cons]
    rcases he : exec step.perform w with ⟨result, t⟩
    rw [he] at hnext
    cases result with
    | error e =>
      rw [exec_bind_error he]
      exact hnext
    | ok _ =>
      have hframe : t.frame = none := by
        have h := (follows_stepPerform step w hf).2 () (by rw [he])
        rwa [he] at h
      rw [exec_bind_ok he]
      exact ih hnext.1 hframe (hrest t he) hnext.2

theorem EachStep.of_append {before after : List Step} (h : EachStep C (before ++ after) w) :
    EachStep C before w := by
  induction before generalizing w with
  | nil => trivial
  | cons step rest ih => exact ⟨h.1, fun w' he => ih (h.2 w' he)⟩

theorem eachStep_of_forall {steps : List Step} (hC : ∀ step ∈ steps, ∀ w, C w step) (w : World) :
    EachStep C steps w := by
  induction steps generalizing w with
  | nil => trivial
  | cons step rest ih =>
    refine ⟨hC step List.mem_cons_self w, fun w' _ => ih ?_ w'⟩
    exact fun step hstep => hC step (List.mem_cons_of_mem _ hstep)

/-- An invariant of the strides and of the attempts to reconnect holds wherever a
sequence of steps ends up, as long as the trace meets a condition that each part of it
does. -/
theorem steps_invariant_while {C : List Event → Prop}
    (hpart : ∀ new events, C (new ++ events) → C events)
    (hstride : ∀ s t, Simulated s → Stride s t → C t.trace → I s → I t)
    (hreconnect : ∀ s i, Simulated s → s.connection.stateMachine = .live .error → s.frame = none →
      C (exec (reconnect i) s).2.trace → I s → I (exec (reconnect i) s).2)
    (steps : List Step) (hw : Simulated w) (hf : w.frame = none) (hi : I w)
    (hC : C (exec (performSteps steps) w).2.trace) : I (exec (performSteps steps) w).2 := by
  have hold : ∀ {s t : World}, s.Grows t (fun _ => True) → C t.trace → C s.trace := by
    rintro s t ⟨new, ht, -⟩ hCt
    exact hpart new s.trace (ht ▸ hCt)
  refine (steps_invariant (I := fun w => C w.trace → I w) (C := fun _ _ => True) ?_ ?_ steps hw hf
    (eachStep_of_forall (fun _ _ _ => trivial) w) fun _ => hi).2 hC
  · exact fun s t hs hst hi hCt => hstride s t hs hst hCt (hi (hold (hst.grows hs) hCt))
  · intro s i hs hstate hframe _ hi hCt
    have hgrows := (simulated_of_moves (moves_reconnect i hstate hframe) hs).2
    exact hreconnect s i hs hstate hframe hCt (hi (hold hgrows hCt))

end Libdomain.Connection
