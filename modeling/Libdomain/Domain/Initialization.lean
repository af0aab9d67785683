import Libdomain.Connection.Reading
import Libdomain.Memory.PointerArray

/-! # Setting up a handle

`ld_init` of `domain.c` and `connection_configure` of `connection.c`, with every call that
may fail. The handle comes from `malloc` and is filled step by step; most failures lead to
the end of the function, which releases it again.
-/
namespace Libdomain.Domain.Initialization
open Libdomain.Connection Libdomain.Memory Libdomain.Program Libdomain.Queue

def ldapSaslQuiet : Int := 2

inductive LdapOption
  | timelimit
  | networkTimeout
  | protocolVersion
  | referrals
  | connectAsync
  | saslNocanon
  | saslSecprops
  | saslRealm
  | saslAuthcid
  | saslAuthzid
  | tlsCacertfile
  | tlsCacertdir
  | tlsCertfile
  | tlsKeyfile
  | tlsNewctx
  deriving DecidableEq

/-- The calls that may fail, in the order of the code. -/
inductive InitCall
  | malloc
  | tallocNew
  | globalConfig
  | globalCtx
  | connectionCtx
  | configCtx
  | saslOptions
  | saslPasswd
  | tlsCaCertFile
  | tlsCertFile
  | tlsKeyFile
  | ldapParams
  | dn
  | passwd
  | passwdValue
  | temporaryCtx
  | ldapInitialize
  | stateMachine
  | searchTimeout
  | networkTimeout
  | option (option : LdapOption)
  | ldapDefaults
  | mechanism
  | ldapSchemaNew
  | requestQueueNew
  | vertoDefault
  | tallocFree
  deriving DecidableEq

/-- `ld_config_t`; strings may be null. -/
structure LdConfig where
  host : Option Bytes
  protocolVersion : Int
  baseDn : Option Bytes
  username : Option Bytes
  password : Option Bytes
  simpleBind : Bool
  useTls : Bool
  useSasl : Bool
  cacertfile : Option Bytes
  certfile : Option Bytes
  keyfile : Option Bytes

structure LdapSaslOptions where
  mechanism : Cell Bytes
  passwd : Cell Bytes
  saslNocanon : Cell Bool
  saslFlags : Cell Int
  saslSecprops : Cell Bytes

structure ConnectionConfig where
  server : Option Bytes
  protocolVerion : Int
  chaseReferrals : Bool
  useStartTls : Bool
  useSasl : Bool
  bindType : BindType
  saslOptions : Option LdapSaslOptions
  tlsCaCertFile : Option Bytes
  tlsCaCertPath : Option Bytes
  tlsCertFile : Option Bytes
  tlsKeyFile : Option Bytes
  searchTimelimit : Int
  networkTimeout : Int

structure LdapSaslDefaults where
  flags : Int
  mechanism : Option Bytes

structure Berval where
  bvLen : ℕ
  bvVal : Option Bytes

structure LdapSaslParams where
  dn : Cell Bytes
  passwd : Cell Berval

/-- `struct ldap_connection_ctx_t`, whose objects may be missing. The handle is an address. -/
structure ConnectionCtx where
  handle : Option ℕ
  ldap : Option ℕ
  handlersInstalled : Bool
  base : Option Unit
  bindType : BindType
  directoryType : LdapDirectoryType
  schema : Option LdapSchema
  callqueue : Option (RequestQueue ℕ)
  readRequests : ℕ → LdapRequest
  searchRequests : ℕ → LdapSearchRequest
  nReadRequests : ℕ
  nSearchRequests : ℕ
  nReconnectAttempts : ℕ
  stateMachine : Pointer LdapConnectionState
  ldapDefaults : Pointer LdapSaslDefaults
  ldapParams : Option LdapSaslParams
  config : Option ConnectionConfig

structure GlobalCtx where
  tallocCtx : Cell Unit

structure Ldhandle where
  tallocCtx : Cell Unit
  globalCtx : Cell GlobalCtx
  connectionCtx : Cell ConnectionCtx
  configCtx : Cell ConnectionConfig
  globalConfig : Cell LdConfig

/-- What `malloc` returns. -/
def Ldhandle.uninitialised : Ldhandle := ⟨.unset, .unset, .unset, .unset, .unset⟩

def LdapSaslOptions.uninitialised : LdapSaslOptions := ⟨.unset, .unset, .unset, .unset, .unset⟩

def LdapSaslParams.uninitialised : LdapSaslParams := ⟨.unset, .unset⟩

def GlobalCtx.zero : GlobalCtx := ⟨.null⟩

def ConnectionConfig.zero : ConnectionConfig where
  server := none
  protocolVerion := 0
  chaseReferrals := false
  useStartTls := false
  useSasl := false
  bindType := .simple
  saslOptions := none
  tlsCaCertFile := none
  tlsCaCertPath := none
  tlsCertFile := none
  tlsKeyFile := none
  searchTimelimit := 0
  networkTimeout := 0

def ConnectionCtx.zero : ConnectionCtx where
  handle := none
  ldap := none
  handlersInstalled := false
  base := none
  bindType := .simple
  directoryType := .unknown
  schema := none
  callqueue := none
  readRequests := fun _ => ⟨0, none, none⟩
  searchRequests := fun _ => LdapConnectionCtx.clearedSearch
  nReadRequests := 0
  nSearchRequests := 0
  nReconnectAttempts := 0
  stateMachine := .null
  ldapDefaults := .null
  ldapParams := none
  config := none

/-- Why a function is left early: through its label `error_exit`, or by a fault. -/
inductive Exit
  | errorExit
  | fault (fault : Memory.Fault)

variable (fails : InitCall → Bool)

/-- `LD_ALLOC_HELPER`: the result is assigned, and a null one ends the function. The result is
the given one unless the call fails. -/
def allocHelper {σ α : Type} (call : InitCall) (result : Option α) (assign : Option α → σ → σ) :
    Prog σ Exit Unit := do
  let var := if fails call then none else result
  modify (assign var)
  if var.isNone then throw .errorExit

def check {σ : Type} (call : InitCall) : Prog σ Exit Unit := if fails call then throw .errorExit else pure ()

def checkAll {σ : Type} (calls : List InitCall) : Prog σ Exit Unit := calls.forM (check fails)

def readCell {σ α : Type} (c : Cell α) : Prog σ Exit α :=
  match c.read with
  | .ok x => pure x
  | .error fault => throw (.fault fault)

def pointerTo {α : Type} (var : Option α) : Pointer α := var.elim .null .live

def freed {α : Type} : Pointer α → Pointer α
  | .live _ => .dangling
  | pointer => pointer

def updateDefaults (f : LdapSaslDefaults → LdapSaslDefaults) (c : ConnectionCtx) : ConnectionCtx :=
  { c with ldapDefaults := c.ldapDefaults.map f }

/-- The options that are set for every connection. -/
def optionCalls (config : ConnectionConfig) : List InitCall :=
  (if 0 < config.searchTimelimit then [.searchTimeout, .option .timelimit] else []) ++
    [.networkTimeout, .option .networkTimeout, .option .protocolVersion, .option .referrals, .option .connectAsync]

def tlsOptionCalls (config : ConnectionConfig) : List InitCall :=
  (if config.tlsCaCertFile.isSome then [.option .tlsCacertfile] else []) ++
    (if config.tlsCaCertPath.isSome then [.option .tlsCacertdir] else []) ++
    (if config.tlsCertFile.isSome then [.option .tlsCertfile] else []) ++
    (if config.tlsKeyFile.isSome then [.option .tlsKeyfile] else []) ++ [.option .tlsNewctx]

def saslOptionCalls : List InitCall :=
  [.option .saslNocanon, .option .saslSecprops, .option .saslRealm, .option .saslAuthcid, .option .saslAuthzid]

def configureSasl (config : ConnectionConfig) : Prog ConnectionCtx Exit Unit :=
  match config.saslOptions with
  | none => throw (.fault .nullDereference)
  | some options => do
    let _ ← readCell options.saslNocanon
    let _ ← readCell options.saslSecprops
    checkAll fails saslOptionCalls
    let flags ← readCell options.saslFlags
    modify (updateDefaults fun defaults => { defaults with flags := flags })
    match options.mechanism with
    | .unset => throw (.fault .uninitialised)
    | .null => pure ()
    | .set mechanism =>
      allocHelper fails .mechanism (some mechanism) fun var =>
        updateDefaults fun defaults => { defaults with mechanism := var }

/-- The fields set after the last option. The results of the two allocations are not checked. -/
def reset (config : ConnectionConfig) (c : ConnectionCtx) : ConnectionCtx :=
  { c with
    bindType := if config.bindType = .interactive then .interactive else .simple
    directoryType := .uninitialized
    schema := if fails .ldapSchemaNew then none else some Connection.ldapSchemaNew
    callqueue := if fails .requestQueueNew then none else some (Queue.requestQueueNew maxRequests)
    nReadRequests := 0
    nSearchRequests := 0
    nReconnectAttempts := 0
    readRequests := fun _ => ⟨-1, none, none⟩
    searchRequests := fun i => ⟨-1, none, (c.searchRequests i).userData⟩ }

/-- `connection_configure` up to the release of its temporary context. -/
def configure (config : ConnectionConfig) : Prog ConnectionCtx Exit Unit := do
  allocHelper fails .temporaryCtx (some ()) fun _ c => c
  check fails .ldapInitialize
  modify fun c => { c with ldap := some 0, config := some config, handlersInstalled := false }
  allocHelper fails .stateMachine (some LdapConnectionState.init) fun var c =>
    { c with stateMachine := pointerTo var }
  checkAll fails (optionCalls config)
  allocHelper fails .ldapDefaults (some ⟨0, none⟩) fun var c => { c with ldapDefaults := pointerTo var }
  (if config.useSasl then configureSasl fails config else pure ())
  (if config.useStartTls then checkAll fails (tlsOptionCalls config) else pure ())
  modify (reset fails config)
  allocHelper fails .vertoDefault (some ()) fun var c => { c with base := var }

/-- The objects that still belong to the temporary context go with it when it is released early. -/
def connectionConfigure (config : ConnectionConfig) (connection : ConnectionCtx) :
    Except Memory.Fault (OperationReturnCode × ConnectionCtx) :=
  match exec (configure fails config) connection with
  | (.ok _, c) => .ok (if fails .tallocFree then .failure else .success, c)
  | (.error .errorExit, c) =>
    .ok (.failure, { c with stateMachine := freed c.stateMachine, ldapDefaults := freed c.ldapDefaults })
  | (.error (.fault fault), _) => .error fault

namespace Ldhandle

def updateConnection (f : ConnectionCtx → ConnectionCtx) (h : Ldhandle) : Ldhandle :=
  { h with connectionCtx := h.connectionCtx.update f }

def updateConfig (f : ConnectionConfig → ConnectionConfig) (h : Ldhandle) : Ldhandle :=
  { h with configCtx := h.configCtx.update f }

def updateSaslOptions (f : LdapSaslOptions → LdapSaslOptions) : Ldhandle → Ldhandle :=
  updateConfig fun config => { config with saslOptions := config.saslOptions.map f }

def updateLdapParams (f : LdapSaslParams → LdapSaslParams) : Ldhandle → Ldhandle :=
  updateConnection fun connection => { connection with ldapParams := connection.ldapParams.map f }

end Ldhandle

open Ldhandle

def allocateMembers (config : LdConfig) : Prog Ldhandle Exit Unit := do
  allocHelper fails .tallocNew (some ()) fun var h => { h with tallocCtx := .ofPointer var }
  allocHelper fails .globalConfig (some config) fun var h => { h with globalConfig := .ofPointer var }
  allocHelper fails .globalCtx (some GlobalCtx.zero) fun var h => { h with globalCtx := .ofPointer var }
  allocHelper fails .connectionCtx (some ConnectionCtx.zero) fun var h =>
    { h with connectionCtx := .ofPointer var }
  allocHelper fails .configCtx (some ConnectionConfig.zero) fun var h => { h with configCtx := .ofPointer var }

def describe (config : LdConfig) (h : Ldhandle) : Ldhandle :=
  { h with globalCtx := h.globalCtx.update fun g => { g with tallocCtx := h.tallocCtx } }.updateConfig fun c =>
    { c with
      server := config.host
      protocolVerion := config.protocolVersion
      useSasl := config.useSasl
      useStartTls := config.useTls
      chaseReferrals := false
      bindType := if config.simpleBind then .simple else .interactive }

/-- `LDAP_SASL_SIMPLE` is null. -/
def describeSasl (config : LdConfig) : Prog Ldhandle Exit Unit := do
  allocHelper fails .saslOptions (some LdapSaslOptions.uninitialised) fun var =>
    updateConfig fun c => { c with saslOptions := var }
  modify (updateSaslOptions fun options =>
    { options with mechanism := if config.simpleBind then .null else .set (ascii "GSSAPI") })
  allocHelper fails .saslPasswd config.password fun var =>
    updateSaslOptions fun options => { options with passwd := .ofPointer var }
  modify (updateSaslOptions fun options =>
    { options with
      saslNocanon := .set true
      saslSecprops := .set (ascii "minssf=56")
      saslFlags := .set ldapSaslQuiet })

def describeTls (config : LdConfig) : Prog Ldhandle Exit Unit := do
  allocHelper fails .tlsCaCertFile config.cacertfile fun var =>
    updateConfig fun c => { c with tlsCaCertFile := var }
  allocHelper fails .tlsCertFile config.certfile fun var => updateConfig fun c => { c with tlsCertFile := var }
  allocHelper fails .tlsKeyFile config.keyfile fun var => updateConfig fun c => { c with tlsKeyFile := var }

/-- What `"%s"` prints of a string that may be null. -/
def printed (s : Option Bytes) : Bytes := s.getD (ascii "(null)")

/-- `"cn=%s,%s"` -/
def LdConfig.dn (config : LdConfig) : Bytes :=
  ascii "cn=" ++ printed config.username ++ (0x2c :: printed config.baseDn)

def describeParams (config : LdConfig) : Prog Ldhandle Exit Unit := do
  allocHelper fails .ldapParams (some LdapSaslParams.uninitialised) fun var =>
    updateConnection fun c => { c with ldapParams := var }
  allocHelper fails .dn (some config.dn) fun var =>
    updateLdapParams fun params => { params with dn := .ofPointer var }
  allocHelper fails .passwd (some ⟨(config.password.map List.length).getD 0, none⟩) fun var =>
    updateLdapParams fun params => { params with passwd := .ofPointer var }
  if config.password.isSome then
    allocHelper fails .passwdValue config.password fun var =>
      updateLdapParams fun params => { params with passwd := params.passwd.update fun p => { p with bvVal := var } }

/-- The part before the connection is configured. -/
def prepare (config : LdConfig) : Prog Ldhandle Exit Unit := do
  allocateMembers fails config
  modify (describe config)
  (if config.useSasl then describeSasl fails config else pure ())
  (if config.useTls then describeTls fails config else pure ())
  describeParams fails config

/-- What follows the call of `connection_configure`. -/
def conclude (address : ℕ) : Except Memory.Fault (OperationReturnCode × ConnectionCtx) → Prog Ldhandle Exit Unit
  | .error fault => throw (.fault fault)
  | .ok (rc, connection) => do
    modify fun h => { h with connectionCtx := .set connection }
    if rc ≠ .success then throw .errorExit
    modify (updateConnection fun c => { c with handle := some address })

def finish (address : ℕ) : Prog Ldhandle Exit Unit := do
  let h ← get
  let connection ← readCell h.connectionCtx
  let config ← readCell h.configCtx
  conclude address (connectionConfigure fails config connection)

/-- The label `error_exit`: the handle is released, and the caller's pointer set to null. -/
def errorExit (h : Ldhandle) : Except Memory.Fault (Option Ldhandle) :=
  match h.tallocCtx with
  | .unset => .error .uninitialised
  | _ => .ok none

/-- `ld_init`: the handle the caller's pointer leads to afterwards. -/
def ldInit (address : ℕ) (config : Option LdConfig) : Except Memory.Fault (Option Ldhandle) :=
  if fails .malloc then .ok none
  else match config with
    | none => .ok (some .uninitialised)
    | some config =>
      match exec (do prepare fails config; finish fails address) .uninitialised with
      | (.ok _, h) => .ok (some h)
      | (.error .errorExit, h) => errorExit h
      | (.error (.fault fault), _) => .error fault

/-- Access to an object that may have been released. -/
def access {α : Type} : Pointer α → Except Memory.Fault α
  | .live x => .ok x
  | .null => .error .nullDereference
  | .dangling => .error .uninitialised

/-- `connection_close`, for a connection without event sources. -/
def connectionClose (c : ConnectionCtx) : Except Memory.Fault Unit := do
  match c.ldapDefaults with
  | .null => pure ()
  | defaults => let _ ← access defaults
  let state ← access c.stateMachine
  if state ≠ .error then let _ ← deref c.ldap

def ldFree (h : Ldhandle) : Except Memory.Fault Unit := do
  connectionClose (← h.connectionCtx.read)
  let _ ← h.tallocCtx.read

end Libdomain.Domain.Initialization
