import Libdomain.Connection.Entries
import Libdomain.Connection.Requests

/-! # Read handlers

The `*_on_read` functions, which `connection_on_read` calls with the response
to a tracked request. Each takes everything it learns about the response from
one `Response`.
-/
namespace Libdomain.Connection
open Libdomain.Program

def csmSetState (state : LdapConnectionState) : Action Unit := do
  let current ← dereference (← get).connection.stateMachine
  emit (.transition current state)
  modifyConnection fun c => { c with stateMachine := .live state }

theorem exec_csmSetState (state : LdapConnectionState) (w : World) :
    exec (csmSetState state) w =
      match w.connection.stateMachine with
      | .live current =>
        (.ok (), { w.record (.transition current state) with
          connection := { w.connection with stateMachine := .live state } })
      | _ => (.error .invalidPointer, w) := by
  rw [csmSetState, exec_bind_ok (exec_get w)]
  cases w.connection.stateMachine <;> rfl

def onErrorOperation (r : Response) : Action Unit := do
  let c := (← get).connection
  if c.onErrorOperation then
    emit (.errorCallback c)
    performAll r.submissions
  else pure ()

/-- The shared body of the add, modify, delete and rename handlers: a response of
the right type is judged by its result code, any other response is an error. -/
def resultOnRead (type : Int) (accepted : List Int) (r : Response) : Action OperationReturnCode := do
  if r.rc = type ∧ r.resultCode ∈ accepted then return .success
  else
    onErrorOperation r
    return .failure

def addOnRead : Response → Action OperationReturnCode :=
  resultOnRead ldapResAdd [ldapSuccess, ldapAlreadyExists]

def modifyOnRead : Response → Action OperationReturnCode := resultOnRead ldapResModify [ldapSuccess]

def deleteOnRead : Response → Action OperationReturnCode := resultOnRead ldapResDelete [ldapSuccess]

def renameOnRead : Response → Action OperationReturnCode := resultOnRead ldapResRename [ldapSuccess]

/-- Neither the result code nor the response type is ever reported. -/
def whoamiOnRead (_ : Response) : Action OperationReturnCode := return .success

/-- Calls a search callback. The callback of the application may submit further
operations. -/
def callSearchCallback (callback : SearchCallback) (entries : List LdEntry) (r : Response) :
    Action OperationReturnCode :=
  match callback with
  | .printSearchCallback => return .success
  | .attributeTypesSearchCallback =>
    ldapSchemaCallbackCommon (appendValueCallback ldapSchemaAppendAttributetype r.parse) entries
  | .objectClassesSearchCallback =>
    ldapSchemaCallbackCommon (appendValueCallback ldapSchemaAppendObjectclass r.parse) entries
  | .subschemaSubentrySearchCallback => ldapSchemaCallbackCommon subschemaSubentryCallback entries
  | .application _ => do
    performAll r.submissions
    return r.callbackCode

def answerSearch (index : ℕ) (r : Response) : Action OperationReturnCode := do
  let w ← get
  let request := w.connection.searchRequests index
  match request.onSearchOperation, readEntries r with
  | some callback, some entries =>
    emit (.searchCallback index w.epoch r.msgid callback request.userData entries w.connection)
    let code ← callSearchCallback callback entries r
    connectionRemoveSearchRequest index
    return code
  | _, _ => return .failure

def searchOnRead (r : Response) : Action OperationReturnCode := do
  if r.rc = ldapResSearchEntry ∨ r.rc = ldapResSearchResult then
    match (← get).connection.findSearchRequest r.msgid with
    | some index => answerSearch index r
    | none =>
      onErrorOperation r
      return .failure
  else if r.rc = ldapResSearchReference then return .success
  else
    onErrorOperation r
    return .failure

/-- Whether the attribute is a marker, and of which directory. -/
def directoryProcessAttribute (name : Bytes) : Option LdapDirectoryType :=
  if name = ascii "isGlobalCatalogReady" then some .activeDirectory
  else if name = ascii "objectClass" then some .openldap
  else none

/-- Each message sets the type by its first marker attribute. -/
def directoryOfChain (current : LdapDirectoryType) (chain : List LdapMessage) : LdapDirectoryType :=
  chain.foldl (fun type message =>
    (message.attributes.findSome? fun a => directoryProcessAttribute a.1).getD type) current

def directoryParseResult (r : Response) : Action OperationReturnCode := do
  if r.rc = ldapResSearchEntry ∨ r.rc = ldapResSearchResult then
    modifyConnection fun c =>
      let type := directoryOfChain c.directoryType r.chain
      { c with directoryType := if type = .uninitialized then .unknown else type }
    return .success
  else if r.rc = ldapResSearchReference then return .success
  else
    onErrorOperation r
    return .failure

def ldapInstallTls (code : Int) : Action Int := do
  call .installTls
  emit (.tlsInstalled code)
  if code = ldapSuccess then
    modifyWorld fun w => { w with tlsInplace := true }
    return code
  else return code

def ensureTls (code : Int) : Action Int := do
  if (← get).tlsInplace then return ldapSuccess else ldapInstallTls code

def connectionStartTlsOnRead (r : Response) : Action OperationReturnCode := do
  if r.rc = ldapResExtended then
    let tlsRc ← ensureTls r.installTls
    if tlsRc ≠ ldapSuccess ∧ tlsRc ≠ ldapLocalError then
      if r.diagnostics.succeed then
        csmSetState .error
        return .failure
      else return .failure
    else
      csmSetState .transportReady
      return .success
  else return .success

/-- What becomes of the bind once its response has the code `rc`. A continued
bind is tracked under the message id libldap left in the connection. -/
def bindOutcome (rc : Int) (r : Response) : Action OperationReturnCode := do
  if rc = ldapSaslBindInProgress then
    track .connectionBindOnRead (← get).connection.msgid
    return .success
  else if rc = ldapSuccess then
    csmSetState .bound
    return .success
  else
    match r.diagnostics.resultCode with
    | some code =>
      if r.diagnostics.message ∧ code ≠ ldapSuccess then
        csmSetState .error
        return .failure
      else return .failure
    | none => return .failure

/-- An interactive bind is continued with the response; for a simple bind the code
stays the message type. -/
def connectionBindOnRead (r : Response) : Action OperationReturnCode := do
  if r.rc = ldapResBind then
    let c := (← get).connection
    match c.bindType with
    | .interactive =>
      let _ ← dereference c.ldapDefaults
      call .saslInteractiveBind
      emit (.bindAnswered c.msgid r.bind.rc)
      modifyConnection fun c => { c with msgid := r.bind.msgid }
      bindOutcome r.bind.rc r
    | .simple =>
      emit (.bindAnswered c.msgid r.resultCode)
      bindOutcome r.rc r
  else return .success

/-- `request->on_read_operation(rc, result_message, connection)`. -/
def OperationCallback.handle : OperationCallback → Response → Action OperationReturnCode
  | .addOnRead => Connection.addOnRead
  | .searchOnRead => Connection.searchOnRead
  | .modifyOnRead => Connection.modifyOnRead
  | .deleteOnRead => Connection.deleteOnRead
  | .whoamiOnRead => Connection.whoamiOnRead
  | .renameOnRead => Connection.renameOnRead
  | .directoryParseResult => Connection.directoryParseResult
  | .connectionBindOnRead => Connection.connectionBindOnRead
  | .connectionStartTlsOnRead => Connection.connectionStartTlsOnRead

end Libdomain.Connection
