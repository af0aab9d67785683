import Libdomain.Connection.Reading

/-! # The transition relation of a connection

Every function of the connection code is a path of a few kinds of atomic
steps: `Calm` steps send and track requests, `Inner` steps add what read
handlers and ticks do besides, `Answer` steps deliver a search, `Lifecycle`
steps close and reconfigure, `Serve` steps are those of the read loop, and `Pass`
steps begin and end it. An invariant of a run then needs one case for each kind
of step.
-/
namespace Libdomain.Connection
open Libdomain.Queue Libdomain.Program Relation

/-- Events that carry no snapshot of the connection and record no request. -/
def Event.Plain : Event → Prop
  | .call .. | .unbind _ | .vertoAdd _ | .vertoDel _ | .bindReturned _ | .tlsInstalled _ => True
  | _ => False

def Event.Routine : Event → Prop
  | .call .. | .unbind _ | .vertoAdd _ | .vertoDel _ | .bindReturned _ => True
  | _ => False

theorem Event.Routine.plain {e : Event} (h : e.Routine) : e.Plain := by
  cases e with
  | tlsInstalled => exact h.elim
  | _ => exact h

/-- The request being processed has the given handler, and its message id is the
one recorded in the connection. -/
def World.Dispatching (w : World) (handler : OperationCallback) : Prop :=
  ∃ slot, w.top = some slot ∧
    (w.connection.readRequests slot).onReadOperation = some handler ∧
    (w.connection.readRequests slot).msgid = w.connection.msgid

/-- What holds when the machine is set to a state. -/
inductive Enters (w : World) : LdapConnectionState → Prop
  | startTls (state : w.connection.stateMachine = .live .init)
      (config : w.connection.config.useStartTls = true) : Enters w .tlsNegotiation
  | plain (state : w.connection.stateMachine = .live .init)
      (config : w.connection.config.useStartTls = false) : Enters w .transportReady
  | secured (tls : w.tlsInplace = true ∨ .tlsInstalled ldapLocalError ∈ w.trace) :
      Enters w .transportReady
  | bind (code : OperationReturnCode) (state : w.connection.stateMachine = .live .transportReady)
      (returned : w.trace.head? = some (.bindReturned code)) : Enters w (stateAfterBind code)
  | bound (msgid : Int) (answered : w.trace.head? = some (.bindAnswered msgid ldapSuccess))
      (defaults : w.connection.ldapDefaults = .live ()) : Enters w .bound
  | detect (state : w.connection.stateMachine = .live .bound) : Enters w .detectDirectory
  | detecting (state : w.connection.stateMachine = .live .detectDirectory) : Enters w .detectDirectory
  | detected (state : w.connection.stateMachine = .live .detectDirectory)
      (type : w.connection.directoryType ≠ .uninitialized) : Enters w .requestSchema
  | requesting (state : w.connection.stateMachine = .live .requestSchema) : Enters w .requestSchema
  | requested (state : w.connection.stateMachine = .live .requestSchema) : Enters w .checkSchema
  | checked (state : w.connection.stateMachine = .live .checkSchema)
      (ready : ldapSchemaReady w.connection = true) : Enters w .run
  | error : Enters w .error

/-- How far the delivery of the current response has come. -/
inductive Delivery
  | idle
  | failed (request : LdapRequest)
  | dispatched (request : LdapRequest) (response : Response) (connection : LdapConnectionCtx)
  | answering (index : ℕ)
  | answered

/-- The delivery, read off the trace. -/
def delivery : List Event → Delivery
  | [] => .idle
  | .passBegin _ :: _ => .idle
  | .popped _ :: _ => .idle
  | .resultError request :: _ => .failed request
  | .dispatch _ request r _ c :: _ => .dispatched request r c
  | .searchCallback index .. :: _ => .answering index
  | .searchRemoved .. :: _ => .answered
  | _ :: events => delivery events

/-- The response to a search that `search_on_read` passes to a callback. -/
def Answerable (c : LdapConnectionCtx) (r : Response) : Prop :=
  (r.rc = ldapResSearchEntry ∨ r.rc = ldapResSearchResult) ∧
    ∃ index callback entries, c.findSearchRequest r.msgid = some index ∧
      (c.searchRequests index).onSearchOperation = some callback ∧ readEntries r = some entries

/-- A request has been dealt with: an answerable search has been removed. -/
def Delivery.Completed : Delivery → Prop
  | .idle => False
  | .failed _ => True
  | .dispatched request r c => request.onReadOperation = some .searchOnRead → ¬Answerable c r
  | .answering _ => False
  | .answered => True

/-- There is no request at the moment, or it has been dealt with. -/
def Delivery.Settled (d : Delivery) : Prop := d = .idle ∨ d.Completed

/-- Steps that send and track requests. -/
inductive Issue : World → World → Prop
  | event (w : World) (e : Event) (routine : e.Routine) : Issue w (w.record e)
  | local (w : World) (handlersInstalled : Bool) (readEvent writeEvent : Option ℕ) (events : ℕ) :
      Issue w { w with
        connection := { w.connection with
          handlersInstalled := handlersInstalled, readEvent := readEvent, writeEvent := writeEvent }
        events := events }
  | bindInvoked (w : World) (state : w.connection.stateMachine = .live .transportReady) :
      Issue w (w.record (.bindInvoked w.tlsInplace))
  | errorCallback (w : World) : Issue w (w.record (.errorCallback w.connection))
  | track (w : World) (handler : OperationCallback) (msgid : Int) (other : handler ≠ .searchOnRead) :
      Issue w (exec (Connection.track handler msgid) w).2
  | search (w : World) (callback : SearchCallback) (userData : UserData) (msgid : Int) :
      Issue w (exec (trackSearch callback userData msgid) w).2

/-- Steps of the callbacks of schema searches. -/
inductive Load : World → World → Prop
  | schema (w : World) (schema : LdapSchema) :
      Load w { w with connection := { w.connection with schema := schema } }
  | path (w : World) (path : Option Bytes) : Load w { w with schemaEntryPath := path }

/-- Steps that leave the machine alone: they send and track requests and keep books. -/
inductive Calm : World → World → Prop
  | event (w : World) (e : Event) (plain : e.Plain) : Calm w (w.record e)
  | local (w : World) (handlersInstalled : Bool) (readEvent writeEvent : Option ℕ) (msgid : Int)
      (path : Option Bytes) (events : ℕ) :
      Calm w { w with
        connection := { w.connection with
          handlersInstalled := handlersInstalled, readEvent := readEvent, writeEvent := writeEvent
          msgid := msgid }
        schemaEntryPath := path, events := events }
  | bindInvoked (w : World) (state : w.connection.stateMachine = .live .transportReady) :
      Calm w (w.record (.bindInvoked w.tlsInplace))
  | errorCallback (w : World) : Calm w (w.record (.errorCallback w.connection))
  | schema (w : World) (schema : LdapSchema) :
      Calm w { w with connection := { w.connection with schema := schema } }
  | track (w : World) (handler : OperationCallback) (msgid : Int) (other : handler ≠ .searchOnRead) :
      Calm w (exec (Connection.track handler msgid) w).2
  | search (w : World) (callback : SearchCallback) (userData : UserData) (msgid : Int) :
      Calm w (exec (trackSearch callback userData msgid) w).2

/-- Steps of the read handlers and of the ticks outside the error state. -/
inductive Inner : World → World → Prop
  | calm {w w' : World} (step : Calm w w') : Inner w w'
  | setState (w : World) (state : LdapConnectionState) (enters : Enters w state) :
      Inner w (exec (csmSetState state) w).2
  | bindAnswered (w : World) (code : Int) (dispatching : w.Dispatching .connectionBindOnRead) :
      Inner w (w.record (.bindAnswered w.connection.msgid code))
  | tlsInplace (w : World) : Inner w { w with tlsInplace := true }
  | directory (w : World) (type : LdapDirectoryType) (known : type ≠ .uninitialized) :
      Inner w { w with connection := { w.connection with directoryType := type } }
  | running (w : World) (state : w.connection.stateMachine = .live .run) :
      Inner w { w with connection := { w.connection with nReconnectAttempts := 0 } }

/-- Steps of `search_on_read` around the search callback. -/
inductive Answer : World → World → Prop
  | callback (w : World) (index : ℕ) (callback : SearchCallback) (request : LdapRequest) (r : Response)
      (entries : List LdEntry) (dispatched : delivery w.trace = .dispatched request r w.connection)
      (handler : request.onReadOperation = some .searchOnRead)
      (found : w.connection.findSearchRequest r.msgid = some index)
      (registered : (w.connection.searchRequests index).onSearchOperation = some callback)
      (answerable : Answerable w.connection r) :
      Answer w (w.record (.searchCallback index w.epoch r.msgid callback
        (w.connection.searchRequests index).userData entries w.connection))
  | write (w : World) (index : ℕ) (live : index < w.connection.nSearchRequests) :
      Answer w (w.record (.write .searchRequests index))
  | remove (w : World) (index : ℕ) (live : index < w.connection.nSearchRequests)
      (answering : delivery w.trace = .answering index) : Answer w (w.removed index)

/-- Steps of the reconnection. -/
inductive Lifecycle : World → World → Prop
  | closed (w : World) (state : w.connection.stateMachine = .live .error) :
      Lifecycle w { w with connection := { w.connection with ldapDefaults := .null } }
  | configure (w : World) (failure : Option ConfigureFailure)
      (state : w.connection.stateMachine = .live .error) (frame : w.frame = none)
      (closed : w.connection.ldapDefaults = .null) :
      Lifecycle w (exec (connectionConfigure failure) w).2
  | attempt (w : World) : Lifecycle w { w with connection := { w.connection with
      nReconnectAttempts := w.connection.nReconnectAttempts + 1 } }
  | reset (w : World) : Lifecycle w (exec resetState w).2
  | errorHandler (w : World) :
      Lifecycle w { w with connection := { w.connection with onErrorOperation := true } }

/-- Steps of the read loop around the handlers. -/
inductive Serve : World → World → Prop
  | pop (w : World) (slot : ℕ) (queue : RequestQueue ℕ) (frame : w.frame.isSome = true)
      (top : w.top = none) (settled : (delivery w.trace).Settled)
      (popped : requestQueuePop w.connection.callqueue w.connection.links = (some slot, queue)) :
      Serve w (w.popped slot queue)
  | resultError (w : World) (slot : ℕ) (top : w.top = some slot) (idle : delivery w.trace = .idle) :
      Serve w (w.record (.resultError (w.connection.readRequests slot)))
  | defer (w : World) (slot : ℕ) (top : w.top = some slot) (idle : delivery w.trace = .idle) :
      Serve w (exec (deferRequest (w.connection.readRequests slot)) w).2
  | dispatch (w : World) (slot : ℕ) (r : Response) (top : w.top = some slot)
      (idle : delivery w.trace = .idle) :
      Serve w (exec (announce slot (w.connection.readRequests slot) r) w).2
  | release (w : World) (frame : w.frame.isSome = true) (completed : (delivery w.trace).Completed) :
      Serve w (exec releaseTop w).2

inductive Pass : World → World → Prop
  | begin (w : World) (frame : w.frame = none) : Pass w (exec beginPass w).2
  | finish (w : World) (frame : w.frame.isSome = true) (top : w.top = none)
      (settled : (delivery w.trace).Settled)
      (drained : requestQueueEmpty w.connection.callqueue = true ∨ w.connection.callqueue.head = none) :
      Pass w (exec finishPass w).2
  | abandon (w : World) (slot : ℕ) (top : w.top = some slot) (idle : delivery w.trace = .idle) :
      Pass w (exec abandonPass w).2

inductive Tick : World → World → Prop
  | inner {w w' : World} (step : Inner w w') : Tick w w'
  | lifecycle {w w' : World} (step : Lifecycle w w') : Tick w w'

/-- Steps a read handler can make. -/
inductive Handling : World → World → Prop
  | inner {w w' : World} (step : Inner w w') : Handling w w'
  | answer {w w' : World} (step : Answer w w') : Handling w w'

/-- Steps of the read loop. -/
inductive Serving : World → World → Prop
  | handling {w w' : World} (step : Handling w w') : Serving w w'
  | serve {w w' : World} (step : Serve w w') : Serving w w'

inductive Move : World → World → Prop
  | tick {w w' : World} (step : Tick w w') : Move w w'
  | serving {w w' : World} (step : Serving w w') : Move w w'
  | pass {w w' : World} (step : Pass w w') : Move w w'

theorem Issue.calm {w w' : World} (h : Issue w w') : Calm w w' := by
  cases h with
  | event e routine => exact .event w e routine.plain
  | «local» handlersInstalled readEvent writeEvent events =>
    exact .local w handlersInstalled readEvent writeEvent w.connection.msgid w.schemaEntryPath events
  | bindInvoked state => exact .bindInvoked w state
  | errorCallback => exact .errorCallback w
  | track handler msgid other => exact .track w handler msgid other
  | search callback userData msgid => exact .search w callback userData msgid

theorem Load.calm {w w' : World} (h : Load w w') : Calm w w' := by
  cases h with
  | schema schema => exact .schema w schema
  | path path =>
    exact .local w w.connection.handlersInstalled w.connection.readEvent w.connection.writeEvent
      w.connection.msgid path w.events

/-- Two worlds that agree on the machine, the pass and the identity of the connection. -/
structure World.Agrees (w w' : World) : Prop where
  stateMachine : w'.connection.stateMachine = w.connection.stateMachine
  ldapDefaults : w'.connection.ldapDefaults = w.connection.ldapDefaults
  config : w'.connection.config = w.connection.config
  bindType : w'.connection.bindType = w.connection.bindType
  directoryType : w'.connection.directoryType = w.connection.directoryType
  nReconnectAttempts : w'.connection.nReconnectAttempts = w.connection.nReconnectAttempts
  tlsInplace : w'.tlsInplace = w.tlsInplace
  epoch : w'.epoch = w.epoch
  frame : w'.frame = w.frame

theorem World.Agrees.trans {w w' w'' : World} (h : w.Agrees w') (h' : w'.Agrees w'') :
    w.Agrees w'' where
  stateMachine := h'.stateMachine.trans h.stateMachine
  ldapDefaults := h'.ldapDefaults.trans h.ldapDefaults
  config := h'.config.trans h.config
  bindType := h'.bindType.trans h.bindType
  directoryType := h'.directoryType.trans h.directoryType
  nReconnectAttempts := h'.nReconnectAttempts.trans h.nReconnectAttempts
  tlsInplace := h'.tlsInplace.trans h.tlsInplace
  epoch := h'.epoch.trans h.epoch
  frame := h'.frame.trans h.frame

theorem agrees_track (handler : OperationCallback) (msgid : Int) (w : World) :
    w.Agrees (exec (track handler msgid) w).2 := by
  rw [exec_track]
  split_ifs
  · constructor <;> rfl
  · constructor <;> rfl

theorem agrees_trackSearch (callback : SearchCallback) (userData : UserData) (msgid : Int)
    (w : World) : w.Agrees (exec (trackSearch callback userData msgid) w).2 := by
  rw [exec_trackSearch]
  dsimp only
  split_ifs <;> constructor <;> rfl

theorem Calm.agrees {w w' : World} (h : Calm w w') : w.Agrees w' := by
  cases h with
  | track handler msgid _ => exact agrees_track handler msgid w
  | search callback userData msgid => exact agrees_trackSearch callback userData msgid w
  | _ => constructor <;> rfl

theorem Calm.frame {w w' : World} (h : Calm w w') : w'.frame = w.frame := h.agrees.frame

theorem Inner.frame {w w' : World} (h : Inner w w') : w'.frame = w.frame := by
  cases h with
  | calm h => exact h.frame
  | setState state _ =>
    rw [exec_csmSetState]
    cases w.connection.stateMachine <;> rfl
  | _ => rfl

theorem delivery_plain {e : Event} (h : e.Plain) (events : List Event) :
    delivery (e :: events) = delivery events := by
  cases e with
  | passBegin => exact h.elim
  | popped => exact h.elim
  | resultError => exact h.elim
  | dispatch => exact h.elim
  | searchCallback => exact h.elim
  | searchRemoved => exact h.elim
  | _ => rfl

theorem Calm.delivery {w w' : World} (h : Calm w w') :
    Connection.delivery w'.trace = Connection.delivery w.trace := by
  cases h with
  | event e plain => exact delivery_plain plain w.trace
  | track handler msgid _ =>
    rw [exec_track]
    split_ifs <;> rfl
  | search callback userData msgid =>
    rw [exec_trackSearch]
    dsimp only
    split_ifs <;> rfl
  | _ => rfl

theorem Inner.delivery {w w' : World} (h : Inner w w') :
    Connection.delivery w'.trace = Connection.delivery w.trace := by
  cases h with
  | calm h => exact h.delivery
  | setState state _ =>
    rw [exec_csmSetState]
    cases w.connection.stateMachine <;> rfl
  | _ => rfl

theorem Tick.frame {w w' : World} (h : Tick w w') : w'.frame = w.frame := by
  cases h with
  | inner h => exact h.frame
  | lifecycle h =>
    cases h with
    | configure failure =>
      cases failure with
      | none => rfl
      | some failure => cases failure <;> rfl
    | _ => rfl

theorem Handling.frame {w w' : World} (h : Handling w w') : w'.frame = w.frame := by
  cases h with
  | inner h => exact h.frame
  | answer h => cases h <;> rfl

end Libdomain.Connection
