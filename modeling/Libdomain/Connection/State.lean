import Libdomain.Program.Effects
import Libdomain.Queue.RequestQueue
import Mathlib.Data.List.AList

/-! # State of a connection

The data of `connection.h`, `connection_state_machine.h` and `schema_p.h` that
the connection code reads and writes, together with the world around it: the
file-level variable of `ad_schema.c`, the locals of a running
`connection_on_read`, and the trace of what has happened so far. The trace,
the epoch and the TLS flag are ghosts: the code never reads them, except for
the flag, which is what `ldap_tls_inplace` answers.
-/
namespace Libdomain.Connection
open Libdomain.Queue Libdomain.Program

/-- A C string without its terminator. -/
abbrev Bytes := List UInt8

def ascii (s : String) : Bytes := s.toList.map fun c => UInt8.ofNat c.toNat

inductive Pointer (α : Type)
  | null
  | dangling
  | live (value : α)
  deriving DecidableEq, Repr

def Pointer.assign {α : Type} (value : α) : Pointer α → Pointer α
  | .live _ => .live value
  | pointer => pointer

def Pointer.map {α β : Type} (f : α → β) : Pointer α → Pointer β
  | .null => .null
  | .dangling => .dangling
  | .live value => .live (f value)

def ldapSuccess : Int := 0
def ldapAlreadyExists : Int := 0x44
def ldapSaslBindInProgress : Int := 0x0e
def ldapLocalError : Int := -2
def ldapXConnecting : Int := -18

def ldapResAny : Int := -1
def ldapResUnsolicited : Int := 0
def ldapResBind : Int := 0x61
def ldapResSearchEntry : Int := 0x64
def ldapResSearchResult : Int := 0x65
def ldapResModify : Int := 0x67
def ldapResAdd : Int := 0x69
def ldapResDelete : Int := 0x6b
def ldapResRename : Int := 0x6d
def ldapResSearchReference : Int := 0x73
def ldapResExtended : Int := 0x78

def ldapScopeBase : Int := 0

def maxRequests : ℕ := 8192
def maxReconnectAttempts : ℕ := 10

inductive OperationReturnCode
  | success
  | failure
  | missingAttribute
  | operationInProgress
  | repeatLastOperation
  deriving DecidableEq, Repr

inductive LdapConnectionState
  | init
  | tlsNegotiation
  | transportReady
  | bindInProgress
  | bound
  | detectDirectory
  | run
  | error
  | requestSchema
  | checkSchema
  deriving DecidableEq, Repr

inductive LdapDirectoryType
  | uninitialized
  | unknown
  | activeDirectory
  | openldap
  | freeIpa
  deriving DecidableEq, Repr

inductive BindType
  | interactive
  | simple
  deriving DecidableEq, Repr

/-- `LDAPAttribute_t`; an absent component is a NULL pointer. -/
structure LdapAttribute where
  name : Option Bytes
  values : Option (List Bytes)
  deriving DecidableEq, Repr

/-- `ld_entry_t`, its attributes in a hash table keyed by name. -/
structure LdEntry where
  dn : Bytes
  attributes : AList fun _ : Bytes => LdapAttribute

/-- What the schema keeps of a parsed attribute type or object class. -/
structure SchemaDefinition where
  oid : Option Bytes
  names : Option (List Bytes)
  deriving DecidableEq, Repr

/-- The two hash tables the schema has for each kind of definition. -/
structure DefinitionTables where
  byOid : AList fun _ : Bytes => SchemaDefinition
  byName : AList fun _ : Bytes => SchemaDefinition

structure LdapSchema where
  objectClasses : DefinitionTables
  attributeTypes : DefinitionTables

def ldapSchemaNew : LdapSchema where
  objectClasses := ⟨∅, ∅⟩
  attributeTypes := ⟨∅, ∅⟩

/-- The values of `operation_callback_fn` a request can carry. -/
inductive OperationCallback
  | addOnRead
  | searchOnRead
  | modifyOnRead
  | deleteOnRead
  | whoamiOnRead
  | renameOnRead
  | directoryParseResult
  | connectionBindOnRead
  | connectionStartTlsOnRead
  deriving DecidableEq, Repr

/-- The values of `search_callback_fn`. -/
inductive SearchCallback
  | printSearchCallback
  | attributeTypesSearchCallback
  | objectClassesSearchCallback
  | subschemaSubentrySearchCallback
  | application (callback : ℕ)
  deriving DecidableEq, Repr

inductive UserData
  | schema
  | application (data : ℕ)
  deriving DecidableEq, Repr

/-- `struct ldap_request_t`; `node` is the link of its queue node, a node being
named by the slot of `read_requests` it lives in. -/
structure LdapRequest where
  msgid : Int
  onReadOperation : Option OperationCallback
  node : Option ℕ
  deriving DecidableEq, Repr

structure LdapSearchRequest where
  msgid : Int
  onSearchOperation : Option SearchCallback
  userData : UserData
  deriving DecidableEq, Repr

inductive RequestArray
  | readRequests
  | pendingRequests
  | searchRequests
  deriving DecidableEq, Repr

structure LdapConnectionConfig where
  useStartTls : Bool
  bindType : BindType
  deriving DecidableEq, Repr

/-- `struct ldap_connection_ctx_t`. LDAP handles and event sources are numbered
in the order in which they were created. -/
structure LdapConnectionCtx where
  ldap : Option ℕ
  handlersInstalled : Bool
  readEvent : Option ℕ
  writeEvent : Option ℕ
  onErrorOperation : Bool
  bindType : BindType
  directoryType : LdapDirectoryType
  msgid : Int
  schema : LdapSchema
  callqueue : RequestQueue ℕ
  readRequests : ℕ → LdapRequest
  searchRequests : ℕ → LdapSearchRequest
  nReadRequests : ℕ
  nSearchRequests : ℕ
  nReconnectAttempts : ℕ
  stateMachine : Pointer LdapConnectionState
  ldapDefaults : Pointer Unit
  config : LdapConnectionConfig

/-- The outcome of a libldap call that sends a request. -/
structure Sent where
  rc : Int
  msgid : Int
  deriving DecidableEq, Repr

/-- The answers to the two diagnostics queries after an error: the value of
`LDAP_OPT_RESULT_CODE`, absent when the query fails, and whether
`LDAP_OPT_DIAGNOSTIC_MESSAGE` could be read. -/
structure Diagnostics where
  resultCode : Option Int := some 0
  message : Bool := true
  deriving DecidableEq, Repr

def Diagnostics.succeed (d : Diagnostics) : Bool := d.resultCode.isSome && d.message

structure SearchArguments where
  base : Bytes
  scope : Int
  filter : Bytes
  attrs : List Bytes
  attrsonly : Bool
  deriving DecidableEq, Repr

structure LdapMod where
  op : Int
  type : Bytes
  values : List Bytes
  deriving DecidableEq, Repr

inductive Operation
  | add (dn : Bytes) (attrs : List LdapMod)
  | modify (dn : Bytes) (attrs : List LdapMod)
  | ldDelete (dn : Bytes)
  | ldRename (olddn newdn newParent : Bytes) (deleteOriginal : Bool)
  | whoami
  | search (arguments : SearchArguments) (callback : Option SearchCallback) (userData : UserData)
  | directoryGetType

structure Submission where
  operation : Operation
  sent : Sent

structure LdapMessage where
  dn : Option Bytes
  attributes : List (Bytes × List Bytes)

/-- What one `ldap_result` call yields and, when it yields a message, everything
the handler of that message learns from the libraries and from the application:
`bind` answers the continued interactive bind, `parse` the schema parsers, and
`submissions` are the operations issued by the application callback, if one is
called. -/
structure Response where
  rc : Int
  msgid : Int := 0
  chain : List LdapMessage := []
  resultCode : Int := 0
  diagnostics : Diagnostics := {}
  bind : Sent := ⟨0, 0⟩
  installTls : Int := 0
  outOfMemory : Bool := false
  parse : Bytes → Option SchemaDefinition := fun _ => none
  callbackCode : OperationReturnCode := .success
  submissions : List Submission := []

/-- Where `connection_configure` can give up. The options are set in three groups,
separated by the allocations of the state machine and of the SASL defaults. It does not notice
when the schema or the queue cannot be allocated, and a run is one in which they always can. -/
inductive ConfigureFailure
  | tallocNew
  | ldapInitialize
  | stateMachine
  | options
  | ldapDefaults
  | securityOptions
  | eventBase
  deriving DecidableEq, Repr

inductive LdapCall
  | startTls
  | saslBind
  | saslInteractiveBind
  | installTls
  | result (msgid : Int)
  | addExt (dn : Bytes) (attrs : List LdapMod)
  | modifyExt (dn : Bytes) (attrs : List LdapMod)
  | deleteExt (dn : Bytes)
  | rename (olddn newdn newParent : Bytes) (deleteOriginal : Bool)
  | whoami
  | searchExt (arguments : SearchArguments)

inductive Event
  | call (handle : Option ℕ) (call : LdapCall)
  | unbind (handle : Option ℕ)
  | vertoAdd (event : ℕ)
  | vertoDel (event : ℕ)
  | bindInvoked (tlsInplace : Bool)
  | bindReturned (code : OperationReturnCode)
  | bindAnswered (msgid : Int) (code : Int)
  | tlsInstalled (code : Int)
  | submission (slot : ℕ) (handler : OperationCallback) (msgid : Int) (dispatching : Option ℕ)
      (connection : LdapConnectionCtx)
  | pushed (slot : ℕ) (handler : OperationCallback) (msgid : Int) (code : RequestQueueErrorCode)
      (connection : LdapConnectionCtx)
  | write (array : RequestArray) (index : ℕ)
  | passBegin (connection : LdapConnectionCtx)
  | passEnd (connection : LdapConnectionCtx)
  | passAbandoned (lost : List LdapRequest) (connection : LdapConnectionCtx)
  | popped (slot : ℕ)
  | dispatch (slot : ℕ) (request : LdapRequest) (response : Response)
      (pendingRequests : List LdapRequest) (connection : LdapConnectionCtx)
  | deferred (request : LdapRequest)
  | resultError (request : LdapRequest)
  | released
  | searchIssued (epoch : ℕ) (msgid : Int) (callback : SearchCallback) (userData : UserData)
  | searchRegistered (request : LdapSearchRequest)
  | searchCallback (index epoch : ℕ) (msgid : Int) (callback : SearchCallback) (userData : UserData)
      (entries : List LdEntry) (connection : LdapConnectionCtx)
  | searchRemoved (index : ℕ) (connection : LdapConnectionCtx)
  | errorCallback (connection : LdapConnectionCtx)
  | transition (source target : LdapConnectionState)
  | configured
  | configureFailed (failure : ConfigureFailure)

/-- Locals of a running `connection_on_read`: the requests set aside and the slot
of the request being processed. -/
structure ReadFrame where
  pendingRequests : List LdapRequest
  top : Option ℕ

structure World where
  connection : LdapConnectionCtx
  schemaEntryPath : Option Bytes
  tlsInplace : Bool
  handles : ℕ
  events : ℕ
  epoch : ℕ
  frame : Option ReadFrame
  trace : List Event

def World.pendingRequests (w : World) : List LdapRequest :=
  (w.frame.map ReadFrame.pendingRequests).getD []

def World.top (w : World) : Option ℕ := w.frame.bind ReadFrame.top

/-- Why a run has no further behaviour: an array index out of bounds, a null or
dangling pointer, a loop that never ends, or no answer of the environment. -/
inductive Fault
  | outOfBounds (array : RequestArray) (index : ℕ)
  | invalidPointer
  | divergence
  | starved
  deriving DecidableEq, Repr

abbrev Action := Prog World Fault

def modifyWorld (f : World → World) : Action Unit := modify f

def emit (e : Event) : Action Unit := modifyWorld fun w => { w with trace := e :: w.trace }

def modifyConnection (f : LdapConnectionCtx → LdapConnectionCtx) : Action Unit :=
  modifyWorld fun w => { w with connection := f w.connection }

def call (c : LdapCall) : Action Unit :=
  modifyWorld fun w => { w with trace := .call w.connection.ldap c :: w.trace }

def selectIndex (array : RequestArray) (index : ℕ) : Action Unit := do
  emit (.write array index)
  if index < maxRequests then pure () else throw (.outOfBounds array index)

def dereference {α : Type} : Pointer α → Action α
  | .live value => pure value
  | _ => throw .invalidPointer

def World.record (w : World) (e : Event) : World := { w with trace := e :: w.trace }

@[simp] theorem exec_modifyWorld (f : World → World) (w : World) :
    exec (modifyWorld f) w = (.ok (), f w) := rfl

@[simp] theorem exec_emit (e : Event) (w : World) : exec (emit e) w = (.ok (), w.record e) := rfl

@[simp] theorem exec_modifyConnection (f : LdapConnectionCtx → LdapConnectionCtx) (w : World) :
    exec (modifyConnection f) w = (.ok (), { w with connection := f w.connection }) := rfl

@[simp] theorem exec_call (c : LdapCall) (w : World) :
    exec (call c) w = (.ok (), w.record (.call w.connection.ldap c)) := rfl

theorem exec_selectIndex {array : RequestArray} {index : ℕ} (h : index < maxRequests) (w : World) :
    exec (selectIndex array index) w = (.ok (), w.record (.write array index)) := by
  rw [selectIndex, exec_bind_ok (exec_emit _ w), if_pos h, exec_pure]

theorem exec_selectIndex_outOfBounds {array : RequestArray} {index : ℕ} (h : ¬index < maxRequests)
    (w : World) : exec (selectIndex array index) w =
      (.error (.outOfBounds array index), w.record (.write array index)) := by
  rw [selectIndex, exec_bind_ok (exec_emit _ w), if_neg h, exec_throw]

@[simp] theorem exec_dereference_live {α : Type} (a : α) (w : World) :
    exec (dereference (.live a)) w = (.ok a, w) := rfl

namespace LdapConnectionCtx

def links (c : LdapConnectionCtx) : ℕ → Option ℕ := fun i => (c.readRequests i).node

def withLinks (c : LdapConnectionCtx) (links : ℕ → Option ℕ) : LdapConnectionCtx :=
  { c with readRequests := fun i => { c.readRequests i with node := links i } }

def withRequest (c : LdapConnectionCtx) (slot : ℕ) (request : LdapRequest) : LdapConnectionCtx :=
  { c with readRequests := Function.update c.readRequests slot request }

/-- `request_queue_push(connection->callqueue, &connection->read_requests[slot].node)`. -/
def push (c : LdapConnectionCtx) (slot : ℕ) : RequestQueueErrorCode × LdapConnectionCtx :=
  let (code, queue, links) := requestQueuePush c.callqueue c.links slot
  (code, { c with callqueue := queue }.withLinks links)

end LdapConnectionCtx

end Libdomain.Connection
