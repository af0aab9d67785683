import Libdomain.Connection.Transport

/-! # The connection state machine

`csm_next_state`, which the update timer calls, and the schema loading it
starts. All answers a tick can need are collected in one `TickInput`.
-/
namespace Libdomain.Connection
open Libdomain.Program

structure TickInput where
  startTls : Sent := ⟨0, 0⟩
  bind : Sent := ⟨0, 0⟩
  descriptor : Option Int := some 0
  directory : Sent := ⟨0, 0⟩
  firstSearch : Sent := ⟨0, 0⟩
  secondSearch : Sent := ⟨0, 0⟩
  configure : Option ConfigureFailure := none

/-- Two searches, the second one only after the first could be submitted. -/
def searchDefinitions (base : Bytes) (first second : Sent) : Action OperationReturnCode := do
  let attributeTypes : SearchArguments :=
    ⟨base, ldapScopeBase, ascii "(objectclass=subschema)", [ascii "attributetypes"], false⟩
  let objectClasses : SearchArguments :=
    ⟨base, ldapScopeBase, ascii "(objectclass=subschema)", [ascii "objectclasses"], false⟩
  if (← search attributeTypes (some .attributeTypesSearchCallback) .schema first) ≠ .success then
    return .failure
  else if (← search objectClasses (some .objectClassesSearchCallback) .schema second) ≠ .success then
    return .failure
  else return .success

def schemaLoadOpenldap (first second : Sent) : Action OperationReturnCode :=
  searchDefinitions (ascii "cn=subschema") first second

/-- Without a schema entry path the first round only asks for the path. -/
def schemaLoadActiveDirectory (first second : Sent) : Action OperationReturnCode := do
  match (← get).schemaEntryPath with
  | none =>
    let subschemaSubentry : SearchArguments :=
      ⟨[], ldapScopeBase, ascii "(objectclass=*)", [ascii "subschemaSubentry"], false⟩
    if (← search subschemaSubentry (some .subschemaSubentrySearchCallback) .schema first)
        ≠ .success then
      return .failure
    else return .operationInProgress
  | some path => searchDefinitions path first second

def ldapSchemaLoad (first second : Sent) : Action OperationReturnCode := do
  match (← get).connection.directoryType with
  | .openldap => schemaLoadOpenldap first second
  | .activeDirectory => schemaLoadActiveDirectory first second
  | .freeIpa => return .failure
  | .unknown => return .success
  | .uninitialized => return .success

def ldapSchemaReady (c : LdapConnectionCtx) : Bool :=
  match c.directoryType with
  | .openldap =>
    0 < c.schema.objectClasses.byOid.entries.length ∧ 0 < c.schema.attributeTypes.byOid.entries.length
  | _ => true

def connectionBind (i : TickInput) : Action OperationReturnCode := do
  match (← get).connection.bindType with
  | .interactive => connectionLdapBind i.bind i.descriptor
  | .simple => connectionSaslBind i.bind i.descriptor

def stateAfterBind : OperationReturnCode → LdapConnectionState
  | .success => .detectDirectory
  | .operationInProgress => .bindInProgress
  | .repeatLastOperation => .transportReady
  | _ => .error

/-- `csm_set_state` on the machine the tick started with, after the
reconfiguration. A machine that has replaced it is in its initial state already;
one that is gone stays gone, since the source then writes to the old object. -/
def resetState : Action Unit := do
  emit (.transition .error .init)
  modifyConnection fun c => { c with stateMachine := c.stateMachine.assign .init }

def reconnect (i : TickInput) : Action Unit := do
  let _ ← connectionClose
  if (← get).connection.nReconnectAttempts < maxReconnectAttempts then
    let _ ← connectionConfigure i.configure
    modifyConnection fun c => { c with nReconnectAttempts := c.nReconnectAttempts + 1 }
    resetState
  else pure ()

def World.reconnected (w : World) (failure : Option ConfigureFailure) : World :=
  let t := (exec (connectionConfigure failure) w.closed).2
  { t.record (.transition .error .init) with
    connection := { t.connection with
      nReconnectAttempts := t.connection.nReconnectAttempts + 1
      stateMachine := t.connection.stateMachine.assign .init } }

/-- The result of the reconfiguration is not looked at. -/
theorem exec_reconnect {w : World} (hs : w.connection.stateMachine = .live .error)
    (hd : w.connection.ldapDefaults ≠ .dangling) (i : TickInput) :
    exec (reconnect i) w =
      (.ok (), if w.connection.nReconnectAttempts < maxReconnectAttempts then
        w.reconnected i.configure else w.closed) := by
  obtain ⟨code, hclose⟩ := exec_connectionClose hs hd
  rw [reconnect, exec_bind_ok hclose, exec_bind_ok (exec_get _)]
  change exec (if w.connection.nReconnectAttempts < maxReconnectAttempts then _ else _) _ = _
  by_cases hn : w.connection.nReconnectAttempts < maxReconnectAttempts
  · rw [if_pos hn, if_pos hn]
    cases hi : i.configure <;> rfl
  · rw [if_neg hn, if_neg hn]
    rfl

/-- `csm_next_state` on the machine of the connection. -/
def csmNextState (i : TickInput) : Action OperationReturnCode := do
  match ← dereference (← get).connection.stateMachine with
  | .init =>
    if (← get).connection.config.useStartTls then
      let rc ← connectionStartTls i.startTls i.descriptor
      csmSetState (if rc = .success then .tlsNegotiation else .error)
    else csmSetState .transportReady
    return .success
  | .tlsNegotiation => return .success
  | .transportReady =>
    let rc ← connectionBind i
    emit (.bindReturned rc)
    csmSetState (stateAfterBind rc)
    return rc
  | .bindInProgress => return .success
  | .bound =>
    csmSetState .detectDirectory
    return .success
  | .detectDirectory =>
    if (← get).connection.directoryType = .uninitialized then
      let rc ← directoryGetType i.directory
      csmSetState (if rc = .success then .detectDirectory else .error)
    else csmSetState .requestSchema
    return .success
  | .requestSchema =>
    let rc ← ldapSchemaLoad i.firstSearch i.secondSearch
    csmSetState (match rc with
      | .success => .checkSchema
      | .operationInProgress => .requestSchema
      | _ => .error)
    return .success
  | .checkSchema =>
    if ldapSchemaReady (← get).connection then csmSetState .run else pure ()
    return .success
  | .run =>
    modifyConnection fun c => { c with nReconnectAttempts := 0 }
    return .success
  | .error =>
    reconnect i
    return .success

end Libdomain.Connection
