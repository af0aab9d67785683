import Libdomain.Connection.ReadHandlers

/-! # Configuring, securing and closing a connection

`connection_configure`, the installation of the event handlers, StartTLS, the
two kinds of bind, and `connection_close`. Allocations succeed except where
the code checks them and gives up, which is an outcome of the environment.
-/
namespace Libdomain.Connection
open Libdomain.Queue Libdomain.Program

namespace LdapConnectionCtx

def renewed (c : LdapConnectionCtx) (handle : ℕ) : LdapConnectionCtx :=
  { c with ldap := some handle
           handlersInstalled := false }

def reset (c : LdapConnectionCtx) : LdapConnectionCtx :=
  { c with bindType := c.config.bindType
           directoryType := .uninitialized
           schema := ldapSchemaNew
           callqueue := requestQueueNew maxRequests
           nReadRequests := 0
           nSearchRequests := 0
           nReconnectAttempts := 0
           readRequests := fun _ => ⟨-1, none, none⟩
           searchRequests := fun i => ⟨-1, none, (c.searchRequests i).userData⟩ }

end LdapConnectionCtx

/-- The connection and the TLS flag of the handle that a failed configuration leaves
behind. Objects allocated before the failure belong to the temporary context, which
the error path frees. -/
def failedConfiguration (w : World) : ConfigureFailure → World
  | .tallocNew => w
  | .ldapInitialize =>
    { w with connection := { w.connection with ldap := none }, tlsInplace := false }
  | failure =>
    let c := w.connection.renewed w.handles
    { w with
      handles := w.handles + 1
      tlsInplace := false
      connection := match failure with
        | .stateMachine => { c with stateMachine := .null }
        | .options => { c with stateMachine := .dangling }
        | .ldapDefaults => { c with stateMachine := .dangling, ldapDefaults := .null }
        | .securityOptions => { c with stateMachine := .dangling, ldapDefaults := .dangling }
        | _ => { c.reset with stateMachine := .dangling, ldapDefaults := .dangling } }

def connectionConfigure (failure : Option ConfigureFailure) : Action OperationReturnCode := do
  match failure with
  | some failure =>
    modifyWorld fun w => failedConfiguration w failure
    emit (.configureFailed failure)
    return .failure
  | none =>
    modifyWorld fun w => { w with
      connection := { (w.connection.renewed w.handles).reset with
        stateMachine := .live .init, ldapDefaults := .live () }
      tlsInplace := false
      handles := w.handles + 1
      epoch := w.epoch + 1
      trace := .configured :: w.trace }
    return .success

def ldapUnbind : Action Unit :=
  modifyWorld fun w => { w with trace := .unbind w.connection.ldap :: w.trace }

def World.unbound (w : World) : World := w.record (.unbind w.connection.ldap)

/-- `verto_add_io`, returning the number of the new event source. -/
def vertoAddIo : Action ℕ := do
  let event := (← get).events
  emit (.vertoAdd event)
  modifyWorld fun w => { w with events := event + 1 }
  return event

/-- The descriptor is absent when the option query fails. -/
def connectionInstallHandlers (descriptor : Option Int) : Action OperationReturnCode := do
  match descriptor with
  | none =>
    ldapUnbind
    return .failure
  | some fd =>
    if fd < 0 then
      ldapUnbind
      return .failure
    else
      let readEvent ← vertoAddIo
      modifyConnection fun c => { c with readEvent := some readEvent }
      let writeEvent ← vertoAddIo
      modifyConnection fun c => { c with writeEvent := some writeEvent, handlersInstalled := true }
      return .success

/-- `!connection->handlers_installed && connection_install_handlers(...)`. -/
def ensureHandlers (descriptor : Option Int) : Action OperationReturnCode := do
  if (← get).connection.handlersInstalled then return .success
  else connectionInstallHandlers descriptor

/-- The tail of StartTLS and of both binds: install the handlers, unbinding on
failure, and track the request. -/
def trackWithHandlers (handler : OperationCallback) (msgid : Int) (descriptor : Option Int)
    (code : OperationReturnCode) : Action OperationReturnCode := do
  if (← ensureHandlers descriptor) ≠ .success then
    ldapUnbind
    return .failure
  else
    track handler msgid
    return code

/-- The codes with which a bind has been sent. -/
def BindType.accepts : BindType → List Int
  | .interactive => [ldapSuccess, ldapSaslBindInProgress]
  | .simple => [ldapSuccess]

def connectionStartTls (sent : Sent) (descriptor : Option Int) : Action OperationReturnCode := do
  call .startTls
  if sent.rc ≠ ldapSuccess then
    ldapUnbind
    return .failure
  else trackWithHandlers .connectionStartTlsOnRead sent.msgid descriptor .success

def connectionSaslBind (sent : Sent) (descriptor : Option Int) : Action OperationReturnCode := do
  emit (.bindInvoked (← get).tlsInplace)
  let _ ← dereference (← get).connection.ldapDefaults
  call .saslBind
  if sent.rc = ldapXConnecting then return .repeatLastOperation
  else if sent.rc ≠ ldapSuccess then
    ldapUnbind
    return .failure
  else trackWithHandlers .connectionBindOnRead sent.msgid descriptor .success

def connectionLdapBind (sent : Sent) (descriptor : Option Int) : Action OperationReturnCode := do
  emit (.bindInvoked (← get).tlsInplace)
  let _ ← dereference (← get).connection.ldapDefaults
  call .saslInteractiveBind
  if sent.rc = ldapXConnecting then return .repeatLastOperation
  else if sent.rc ≠ ldapSuccess ∧ sent.rc ≠ ldapSaslBindInProgress then
    ldapUnbind
    return .failure
  else
    trackWithHandlers .connectionBindOnRead sent.msgid descriptor
      (if sent.rc = ldapSaslBindInProgress then .operationInProgress else .success)

def vertoDel (event : Option ℕ) : Action Unit :=
  match event with
  | none => pure ()
  | some event => emit (.vertoDel event)

def freeDefaults (ldapDefaults : Pointer Unit) : Action Unit :=
  if ldapDefaults = .null then pure () else dereference ldapDefaults

/-- The handle and the event base are only released outside the error state. -/
def releaseHandle (state : LdapConnectionState) : Action Unit :=
  if state = .error then pure () else ldapUnbind

/-- The event sources are deleted, but stay recorded in the connection. -/
def connectionClose : Action OperationReturnCode := do
  let c := (← get).connection
  freeDefaults c.ldapDefaults
  vertoDel c.readEvent
  vertoDel c.writeEvent
  releaseHandle (← dereference c.stateMachine)
  if c.ldapDefaults = .null then return .failure
  else
    modifyConnection fun c => { c with ldapDefaults := .null }
    return .success

/-- `ld_free` closes the connection; nothing is left to look at when it has freed the rest. -/
def ldFree : Action Unit := do let _ ← connectionClose

def World.closed (w : World) : World :=
  let deleted (event : Option ℕ) : List Event := (event.map Event.vertoDel).toList
  { w with
    connection := { w.connection with ldapDefaults := .null }
    trace := deleted w.connection.writeEvent ++ (deleted w.connection.readEvent ++ w.trace) }

def World.deleted (w : World) : World :=
  { w with trace := (w.connection.writeEvent.map Event.vertoDel).toList ++
      ((w.connection.readEvent.map Event.vertoDel).toList ++ w.trace) }

theorem exec_vertoDel (event : Option ℕ) (w : World) :
    exec (vertoDel event) w = (.ok (), { w with trace := (event.map Event.vertoDel).toList ++ w.trace }) := by
  cases event <;> rfl

/-- Unless they are gone already, the SASL defaults are dropped. -/
theorem exec_connectionClose {w : World} {state : LdapConnectionState}
    (hs : w.connection.stateMachine = .live state) (hd : w.connection.ldapDefaults ≠ .dangling) :
    ∃ code, exec connectionClose w = (.ok code, if state = .error then w.closed else w.closed.unbound) := by
  have hfree : exec (freeDefaults w.connection.ldapDefaults) w = (.ok (), w) := by
    cases h : w.connection.ldapDefaults with
    | null => rfl
    | live _ => rfl
    | dangling => exact absurd h hd
  have hstate : ∀ t : World, exec (dereference w.connection.stateMachine) t = (.ok state, t) := by
    rw [hs]
    exact fun _ => rfl
  rw [connectionClose, exec_bind_ok (exec_get w), exec_bind_ok hfree, exec_bind_ok (exec_vertoDel _ _),
    exec_bind_ok (exec_vertoDel _ _), exec_bind_ok (hstate _), releaseHandle]
  cases h : w.connection.ldapDefaults with
  | null =>
    have hc : ({ w.connection with ldapDefaults := .null } : LdapConnectionCtx) = w.connection := by
      rw [← h]
    refine ⟨.failure, ?_⟩
    rw [World.closed, hc]
    by_cases he : state = .error
    · rw [if_pos he, if_pos he]
      rfl
    · rw [if_neg he, if_neg he]
      rfl
  | live _ =>
    refine ⟨.success, ?_⟩
    by_cases he : state = .error
    · rw [if_pos he, if_pos he]
      rfl
    · rw [if_neg he, if_neg he]
      rfl
  | dangling => exact absurd h hd

/-- Without a state machine or with freed defaults the connection cannot be closed. -/
theorem exec_connectionClose_lost {w : World}
    (h : (∀ state, w.connection.stateMachine ≠ .live state) ∨ w.connection.ldapDefaults = .dangling) :
    (exec connectionClose w).2 = w ∨ (exec connectionClose w).2 = w.deleted := by
  rw [connectionClose, exec_bind_ok (exec_get w)]
  dsimp only
  cases hd : w.connection.ldapDefaults with
  | dangling => exact .inl rfl
  | null =>
    rw [hd] at h
    have hfree : exec (freeDefaults .null) w = (.ok (), w) := rfl
    rw [exec_bind_ok hfree, exec_bind_ok (exec_vertoDel _ _), exec_bind_ok (exec_vertoDel _ _)]
    cases hs : w.connection.stateMachine with
    | live state => exact absurd hs (h.resolve_right (by simp) state)
    | null => exact .inr rfl
    | dangling => exact .inr rfl
  | live _ =>
    rw [hd] at h
    have hfree : exec (freeDefaults (.live ())) w = (.ok (), w) := rfl
    rw [exec_bind_ok hfree, exec_bind_ok (exec_vertoDel _ _), exec_bind_ok (exec_vertoDel _ _)]
    cases hs : w.connection.stateMachine with
    | live state => exact absurd hs (h.resolve_right (by simp) state)
    | null => exact .inr rfl
    | dangling => exact .inr rfl

end Libdomain.Connection
