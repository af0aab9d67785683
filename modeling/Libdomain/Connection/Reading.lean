import Libdomain.Connection.StateMachine

/-! # Read passes and runs

`connection_on_read` works through the call queue, sets the requests without an
answer aside and queues them again at the end. A run interleaves such passes
with ticks of the state machine and operations of the application.
-/
namespace Libdomain.Connection
open Libdomain.Queue Libdomain.Program

def World.popped (w : World) (slot : ℕ) (queue : RequestQueue ℕ) : World :=
  { w.record (.popped slot) with
    connection := { w.connection with callqueue := queue }
    frame := w.frame.map fun f => { f with top := some slot } }

/-- The loop condition: a non-empty queue and the node popped from it. -/
def popRequest : Action (Option ℕ) := do
  let c := (← get).connection
  if requestQueueEmpty c.callqueue then return none
  else
    match requestQueuePop c.callqueue c.links with
    | (none, _) => return none
    | (some slot, queue) =>
      modifyWorld fun w => w.popped slot queue
      return some slot

theorem exec_popRequest_none {w : World} {queue : RequestQueue ℕ}
    (h : requestQueuePop w.connection.callqueue w.connection.links = (none, queue)) :
    exec popRequest w = (.ok none, w) := by
  rw [popRequest, exec_bind_ok (exec_get w)]
  dsimp only
  by_cases he : requestQueueEmpty w.connection.callqueue = true
  · rw [if_pos he, exec_pure]
  · rw [if_neg he, h]
    rfl

theorem exec_popRequest_some {w : World} {slot : ℕ} {queue : RequestQueue ℕ}
    (h : requestQueuePop w.connection.callqueue w.connection.links = (some slot, queue)) :
    exec popRequest w = (.ok (some slot), w.popped slot queue) := by
  have he : ¬requestQueueEmpty w.connection.callqueue = true := by
    intro he
    rw [requestQueuePop, if_pos (of_decide_eq_true he)] at h
    cases h
  rw [popRequest, exec_bind_ok (exec_get w)]
  dsimp only
  rw [if_neg he, h]
  rfl

def connectionOptionalTransitionOnError : Action Unit := do
  let state ← dereference (← get).connection.stateMachine
  if state = .tlsNegotiation ∨ state = .bindInProgress then csmSetState .error
  else pure ()

/-- `pending_requests[n_pending_requests] = *request`. -/
def deferRequest (request : LdapRequest) : Action Unit := do
  selectIndex .pendingRequests (← get).pendingRequests.length
  modifyWorld fun w => { w.record (.deferred request) with
    frame := w.frame.map fun f => ⟨f.pendingRequests ++ [request], none⟩ }

def World.deferred (w : World) (request : LdapRequest) : World :=
  { (w.record (.write .pendingRequests w.pendingRequests.length)).record (.deferred request) with
    frame := w.frame.map fun f => ⟨f.pendingRequests ++ [request], none⟩ }

theorem exec_deferRequest (w : World) (request : LdapRequest) :
    exec (deferRequest request) w =
      if w.pendingRequests.length < maxRequests then (.ok (), w.deferred request)
      else (.error (.outOfBounds .pendingRequests w.pendingRequests.length),
        w.record (.write .pendingRequests w.pendingRequests.length)) := by
  rw [deferRequest, exec_bind_ok (exec_get w)]
  by_cases h : w.pendingRequests.length < maxRequests
  · rw [if_pos h, exec_bind_ok (exec_selectIndex h w)]
    rfl
  · rw [if_neg h, exec_bind_error (exec_selectIndex_outOfBounds h w)]

/-- Leaves the request being processed to its fate. -/
def releaseTop : Action Unit :=
  modifyWorld fun w => { w.record .released with frame := w.frame.map fun f => { f with top := none } }

def announce (slot : ℕ) (request : LdapRequest) (r : Response) : Action Unit := do
  modifyConnection fun c => { c with msgid := request.msgid }
  let w ← get
  emit (.dispatch slot request r w.pendingRequests w.connection)

def dispatchRequest (slot : ℕ) (request : LdapRequest) (r : Response) : Action Unit := do
  announce slot request r
  match request.onReadOperation with
  | none => releaseTop
  | some handler =>
    let _ ← handler.handle r
    releaseTop

/-- One iteration of the read loop; the result tells whether the pass goes on. -/
def processRequest (slot : ℕ) (r : Response) : Action Bool := do
  let request := (← get).connection.readRequests slot
  call (.result request.msgid)
  if r.rc = ldapResAny then
    if r.diagnostics.succeed then
      emit (.resultError request)
      connectionOptionalTransitionOnError
      releaseTop
      return true
    else return false
  else if r.rc = ldapResUnsolicited then
    deferRequest request
    return true
  else
    dispatchRequest slot request r
    return true

/-- The read loop, one response for each request; true when the queue has been
drained, false when the pass is abandoned. -/
def readLoop : List Response → Action Bool
  | [] => do
    match ← popRequest with
    | none => return true
    | some _ => throw .starved
  | r :: rest => do
    match ← popRequest with
    | none => return true
    | some slot =>
      if ← processRequest slot r then readLoop rest else return false

section ReadLoop

variable {w : World} {slot : ℕ} {queue : RequestQueue ℕ}

theorem exec_readLoop_none (h : requestQueuePop w.connection.callqueue w.connection.links = (none, queue))
    (rest : List Response) : exec (readLoop rest) w = (.ok true, w) := by
  cases rest with
  | nil => rw [readLoop, exec_bind_ok (exec_popRequest_none h), exec_pure]
  | cons r rest => rw [readLoop, exec_bind_ok (exec_popRequest_none h), exec_pure]

theorem exec_readLoop_nil (h : requestQueuePop w.connection.callqueue w.connection.links = (some slot, queue)) :
    exec (readLoop []) w = (.error .starved, w.popped slot queue) := by
  rw [readLoop, exec_bind_ok (exec_popRequest_some h)]
  rfl

theorem exec_readLoop_some
    (h : requestQueuePop w.connection.callqueue w.connection.links = (some slot, queue))
    (r : Response) (rest : List Response) :
    exec (readLoop (r :: rest)) w = exec (do
      if ← processRequest slot r then readLoop rest else return false) (w.popped slot queue) := by
  rw [readLoop, exec_bind_ok (exec_popRequest_some h)]

/-- The induction over a read loop: the queue has been drained, the responses have run out, or a
request has been taken and processed. -/
@[elab_as_elim]
theorem readLoop_induction {P : List Response → World → Except Fault Bool × World → Prop}
    (drained : ∀ {responses w queue}, requestQueuePop w.connection.callqueue w.connection.links = (none, queue) →
      P responses w (.ok true, w))
    (starved : ∀ {w slot queue}, requestQueuePop w.connection.callqueue w.connection.links = (some slot, queue) →
      P [] w (.error .starved, w.popped slot queue))
    (failed : ∀ {r rest w w' slot queue fault},
      requestQueuePop w.connection.callqueue w.connection.links = (some slot, queue) →
      exec (processRequest slot r) (w.popped slot queue) = (.error fault, w') → P (r :: rest) w (.error fault, w'))
    (goesOn : ∀ {r rest w w' slot queue},
      requestQueuePop w.connection.callqueue w.connection.links = (some slot, queue) →
      exec (processRequest slot r) (w.popped slot queue) = (.ok true, w') →
      P rest w' (exec (readLoop rest) w') → P (r :: rest) w (exec (readLoop rest) w'))
    (givesUp : ∀ {r rest w w' slot queue},
      requestQueuePop w.connection.callqueue w.connection.links = (some slot, queue) →
      exec (processRequest slot r) (w.popped slot queue) = (.ok false, w') → P (r :: rest) w (.ok false, w'))
    (responses : List Response) (w : World) : P responses w (exec (readLoop responses) w) := by
  induction responses generalizing w with
  | nil =>
    rcases hpop : requestQueuePop w.connection.callqueue w.connection.links with ⟨_ | slot, queue⟩
    · rw [exec_readLoop_none hpop]
      exact drained hpop
    · rw [exec_readLoop_nil hpop]
      exact starved hpop
  | cons r rest ih =>
    rcases hpop : requestQueuePop w.connection.callqueue w.connection.links with ⟨_ | slot, queue⟩
    · rw [exec_readLoop_none hpop]
      exact drained hpop
    · rw [exec_readLoop_some hpop]
      rcases hprocess : exec (processRequest slot r) (w.popped slot queue) with ⟨fault | more, t⟩
      · rw [exec_bind_error hprocess]
        exact failed hpop hprocess
      · rw [exec_bind_ok hprocess]
        cases more with
        | true => exact goesOn hpop hprocess (ih t)
        | false => exact givesUp hpop hprocess

end ReadLoop

def restoreRequests : ℕ → List LdapRequest → Action Unit
  | _, [] => pure ()
  | i, request :: rest => do
    selectIndex .readRequests i
    modifyConnection fun c => ((c.withRequest i request).push i).2
    restoreRequests (i + 1) rest

def beginPass : Action Unit :=
  modifyWorld fun w => { w with frame := some ⟨[], none⟩, trace := .passBegin w.connection :: w.trace }

def endPass : Action Unit :=
  modifyWorld fun w => { w with frame := none, trace := .passEnd w.connection :: w.trace }

/-- The early exit: the requests set aside and the one being processed are lost. -/
def abandonPass : Action Unit :=
  modifyWorld fun w =>
    let lost := w.pendingRequests ++ (w.top.map w.connection.readRequests).toList
    { w with frame := none, trace := .passAbandoned lost w.connection :: w.trace }

/-- Queues the requests set aside again, in the first slots. -/
def requeue (pending : List LdapRequest) : Action Unit :=
  if 0 < pending.length then do
    restoreRequests 0 pending
    modifyConnection fun c => { c with nReadRequests := pending.length }
  else pure ()

def finishPass : Action Unit := do
  let pending := (← get).pendingRequests
  modifyConnection fun c => { c with nReadRequests := 0 }
  requeue pending
  endPass

def connectionOnRead (responses : List Response) : Action Unit := do
  beginPass
  if ← readLoop responses then finishPass else abandonPass

def LdapConnectionCtx.restored (c : LdapConnectionCtx) : ℕ → List LdapRequest → LdapConnectionCtx
  | _, [] => c
  | i, request :: rest => ((c.withRequest i request).push i).2.restored (i + 1) rest

theorem LdapConnectionCtx.restored_eq (c : LdapConnectionCtx) (i : ℕ) (requests : List LdapRequest) :
    ∃ queue readRequests, c.restored i requests =
      { c with callqueue := queue, readRequests := readRequests } := by
  induction requests generalizing c i with
  | nil => exact ⟨c.callqueue, c.readRequests, rfl⟩
  | cons request rest ih =>
    obtain ⟨queue, readRequests, he⟩ := ih ((c.withRequest i request).push i).2 (i + 1)
    exact ⟨queue, readRequests, he⟩

def restoreWrites (i n : ℕ) : List Event :=
  ((List.range' i n).map (Event.write .readRequests)).reverse

theorem exec_restoreRequests (requests : List LdapRequest) (i : ℕ) (w : World)
    (h : i + requests.length ≤ maxRequests) :
    exec (restoreRequests i requests) w = (.ok (), { w with
      connection := w.connection.restored i requests
      trace := restoreWrites i requests.length ++ w.trace }) := by
  induction requests generalizing i w with
  | nil => rfl
  | cons request rest ih =>
    rw [List.length_cons] at h
    have hi : i < maxRequests := by omega
    rw [restoreRequests, exec_bind_ok (exec_selectIndex hi w), exec_bind_ok (exec_modifyConnection _ _),
      ih _ _ (by omega)]
    simp only [restoreWrites, List.length_cons, List.range'_succ, List.map_cons, List.reverse_cons,
      List.append_assoc, List.singleton_append]
    rfl

theorem exec_requeue (pending : List LdapRequest) (w : World) (h : pending.length ≤ maxRequests)
    (hn : w.connection.nReadRequests = 0) :
    exec (requeue pending) w = (.ok (), { w with
      connection := { w.connection.restored 0 pending with nReadRequests := pending.length }
      trace := restoreWrites 0 pending.length ++ w.trace }) := by
  rw [requeue]
  cases pending with
  | nil =>
    have hw : w = { w with connection := { w.connection with nReadRequests := 0 } } := by rw [← hn]
    rw [if_neg (by simp), exec_pure]
    exact congrArg (Prod.mk (Except.ok ())) hw
  | cons request rest =>
    rw [if_pos (by simp), exec_bind_ok (exec_restoreRequests _ 0 w (by omega))]
    rfl

def LdapConnectionCtx.finished (c : LdapConnectionCtx) (pending : List LdapRequest) : LdapConnectionCtx :=
  { ({ c with nReadRequests := 0 } : LdapConnectionCtx).restored 0 pending with
    nReadRequests := pending.length }

def World.finished (w : World) : World :=
  let c := w.connection.finished w.pendingRequests
  { w with
    connection := c
    frame := none
    trace := .passEnd c :: (restoreWrites 0 w.pendingRequests.length ++ w.trace) }

theorem exec_finishPass (w : World) (h : w.pendingRequests.length ≤ maxRequests) :
    exec finishPass w = (.ok (), w.finished) := by
  rw [finishPass, exec_bind_ok (exec_get w), exec_bind_ok (exec_modifyConnection _ _),
    exec_bind_ok (exec_requeue _ _ h rfl)]
  rfl

/-- What can happen to a connection between two events of its event loop. -/
inductive Step
  | tick (input : TickInput)
  | read (responses : List Response)
  | submit (submission : Submission)
  | installErrorHandler

def Step.perform : Step → Action Unit
  | .tick input => do let _ ← csmNextState input
  | .read responses => connectionOnRead responses
  | .submit submission => do let _ ← Connection.perform submission
  | .installErrorHandler => modifyConnection fun c => { c with onErrorOperation := true }

def performSteps (steps : List Step) : Action Unit := steps.forM Step.perform

/-- A zeroed connection, as `ld_init` allocates it. -/
def LdapConnectionCtx.zero (config : LdapConnectionConfig) : LdapConnectionCtx where
  ldap := none
  handlersInstalled := false
  readEvent := none
  writeEvent := none
  onErrorOperation := false
  bindType := .simple
  directoryType := .unknown
  msgid := 0
  schema := ldapSchemaNew
  callqueue := requestQueueNew 0
  readRequests := fun _ => ⟨0, none, none⟩
  searchRequests := fun _ => LdapConnectionCtx.clearedSearch
  nReadRequests := 0
  nSearchRequests := 0
  nReconnectAttempts := 0
  stateMachine := .null
  ldapDefaults := .null
  config := config

/-- The world after `ld_init` has configured its connection. The variable of
`ad_schema.c` belongs to the process and may hold anything by then. -/
def World.initial (config : LdapConnectionConfig) (path : Option Bytes) : World :=
  (exec (connectionConfigure none)
    { connection := .zero config, schemaEntryPath := path, tlsInplace := false, handles := 0
      events := 0, epoch := 0, frame := none, trace := [] }).2

/-- A run from a configured connection: its outcome and the world it ends in, which
is where it got stuck when the outcome is a fault. -/
def run (config : LdapConnectionConfig) (path : Option Bytes) (steps : List Step) :
    Except Fault Unit × World := exec (performSteps steps) (.initial config path)

def runAndFree (config : LdapConnectionConfig) (path : Option Bytes) (steps : List Step) :
    Except Fault Unit × World :=
  exec (do performSteps steps; ldFree) (.initial config path)

theorem exec_performSteps_cons (step : Step) (rest : List Step) (w : World) :
    exec (performSteps (step :: rest)) w =
      exec (do step.perform; performSteps rest) w := rfl

theorem exec_performSteps_append {steps : List Step} {w w' : World}
    (h : exec (performSteps steps) w = (.ok (), w')) (more : List Step) :
    exec (performSteps (steps ++ more)) w = exec (performSteps more) w' := by
  have happend : performSteps (steps ++ more) = (do performSteps steps; performSteps more) :=
    List.forM_append
  rw [happend, exec_bind_ok h]

def Reachable (config : LdapConnectionConfig) (path : Option Bytes) (w : World) : Prop :=
  ∃ steps, run config path steps = (.ok (), w)

end Libdomain.Connection
