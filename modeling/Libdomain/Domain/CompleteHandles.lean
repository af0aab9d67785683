import Libdomain.Domain.Initialization
import Libdomain.Program.Attempts

/-! # Complete handles

What `ld_init` leaves in its caller's pointer. Every call that it makes and checks is granted,
or the handle is released again.
-/
namespace Libdomain.Domain.Initialization
open Libdomain.Connection Libdomain.Memory Libdomain.Program Ldhandle

variable (fails : InitCall → Bool)

/-- Every object of the connection is there. -/
structure ConnectionCtx.Configured (c : ConnectionCtx) : Prop where
  ldap : c.ldap.isSome
  base : c.base.isSome
  schema : c.schema.isSome
  callqueue : c.callqueue.isSome
  stateMachine : c.stateMachine = .live .init
  ldapDefaults : ∃ defaults, c.ldapDefaults = .live defaults
  ldapParams : ∃ params dn passwd, c.ldapParams = some params ∧ params.dn = .set dn ∧ params.passwd = .set passwd
  config : c.config.isSome

/-- The handle at an address that every other function may be called with. -/
structure Complete (address : ℕ) (h : Ldhandle) : Prop where
  tallocCtx : h.tallocCtx = .set ()
  globalConfig : ∃ config, h.globalConfig = .set config
  globalCtx : h.globalCtx = .set ⟨.set ()⟩
  configCtx : ∃ config, h.configCtx = .set config
  connectionCtx : ∃ c, h.connectionCtx = .set c ∧ c.Configured ∧ c.handle = some address

def CompleteOrNull (address : ℕ) (outcome : Except Memory.Fault (Option Ldhandle)) : Prop :=
  ∃ handle, outcome = .ok handle ∧ ∀ h ∈ handle, Complete address h

theorem Complete.ldFree_eq {address : ℕ} {h : Ldhandle} (hc : Complete address h) : ldFree h = .ok () := by
  obtain ⟨c, hread, hconfigured, -⟩ := hc.connectionCtx
  obtain ⟨ldap, hldap⟩ := Option.isSome_iff_exists.mp hconfigured.ldap
  obtain ⟨defaults, hdefaults⟩ := hconfigured.ldapDefaults
  have hclose : connectionClose c = .ok () := by
    rw [connectionClose, hdefaults, hconfigured.stateMachine, hldap]
    rfl
  rw [ldFree, hread, hc.tallocCtx]
  change (connectionClose c >>= _) = _
  rw [hclose]
  rfl

namespace LdConfig

def memberCalls : List InitCall := [.tallocNew, .globalConfig, .globalCtx, .connectionCtx, .configCtx]

def paramsCalls (config : LdConfig) : List InitCall :=
  [.ldapParams, .dn, .passwd] ++ if config.password.isSome then [.passwdValue] else []

def prepareCalls (config : LdConfig) : List InitCall :=
  memberCalls ++ ((if config.useSasl then [.saslOptions, .saslPasswd] else []) ++
    ((if config.useTls then [.tlsCaCertFile, .tlsCertFile, .tlsKeyFile] else []) ++ config.paramsCalls))

def saslCalls (config : LdConfig) : List InitCall :=
  saslOptionCalls ++ if config.simpleBind then [] else [.mechanism]

def tlsCalls (config : LdConfig) : List InitCall :=
  (if config.cacertfile.isSome then [.option .tlsCacertfile] else []) ++
    ((if config.certfile.isSome then [.option .tlsCertfile] else []) ++
      ((if config.keyfile.isSome then [.option .tlsKeyfile] else []) ++ [.option .tlsNewctx]))

def configureCalls (config : LdConfig) : List InitCall :=
  [.temporaryCtx, .ldapInitialize, .stateMachine, .networkTimeout, .option .networkTimeout, .option .protocolVersion,
    .option .referrals, .option .connectAsync, .ldapDefaults] ++
    ((if config.useSasl then config.saslCalls else []) ++
      ((if config.useTls then config.tlsCalls else []) ++ [.vertoDefault, .tallocFree]))

/-- The calls that `ld_init` makes up to the end, and whose failure it notices. -/
def calls (config : LdConfig) : List InitCall := config.prepareCalls ++ config.configureCalls

end LdConfig

/-- A call is refused if it fails, or has a null pointer to copy. -/
def LdConfig.refused (config : LdConfig) (call : InitCall) : Bool :=
  fails call || match call with
    | .saslPasswd => config.password.isNone
    | .tlsCaCertFile => config.cacertfile.isNone
    | .tlsCertFile => config.certfile.isNone
    | .tlsKeyFile => config.keyfile.isNone
    | _ => false

section
variable {fails : InitCall → Bool} {refused : InitCall → Bool} {σ α : Type} {P Q : σ → Prop}

theorem attempts_allocHelper {call : InitCall} {result : Option α} {assign : Option α → σ → σ}
    (hcall : refused call = (fails call || result.isNone)) (h : ∀ var s, P s → Q (assign var s)) :
    Attempts refused .errorExit P Q (allocHelper fails call result assign) [call] (assign result) where
  granted hall s := by
    have hgranted := hall call List.mem_cons_self
    rw [hcall, Bool.or_eq_false_iff] at hgranted
    rw [allocHelper, if_neg (by simp [hgranted.1]), exec_bind_ok (exec_modify _ s), if_neg (by simp [hgranted.2])]
    rfl
  gaveUp hsome s hs := by
    obtain ⟨call', hmem, hrefused⟩ := hsome
    rw [List.mem_singleton.mp hmem, hcall] at hrefused
    have hnone : (if fails call then none else result).isNone = true := by
      by_cases hf : fails call = true
      · rw [if_pos hf]
        rfl
      · simpa [hf] using hrefused
    refine ⟨assign (if fails call then none else result) s, ?_, h _ s hs⟩
    rw [allocHelper, exec_bind_ok (exec_modify _ s), if_pos hnone]
    rfl
  keeps s hs := h result s hs

theorem attempts_check {call : InitCall} : Attempts fails .errorExit P P (check fails call) [call] id := .check call

theorem attempts_checkAll {calls : List InitCall} :
    Attempts fails .errorExit P P (checkAll fails calls) calls id := .forM fun _ _ => attempts_check

end

/-- What `connection_configure` reads of the options has been written. -/
structure LdapSaslOptions.Written (options : LdapSaslOptions) : Prop where
  mechanism : options.mechanism ≠ .unset
  saslNocanon : ∃ nocanon, options.saslNocanon = .set nocanon
  saslFlags : ∃ flags, options.saslFlags = .set flags
  saslSecprops : ∃ secprops, options.saslSecprops = .set secprops

def LdapSaslOptions.calls (options : LdapSaslOptions) : List InitCall :=
  saslOptionCalls ++ match options.mechanism with
    | .set _ => [.mechanism]
    | _ => []

def ConnectionConfig.calls (config : ConnectionConfig) : List InitCall :=
  [.temporaryCtx, .ldapInitialize, .stateMachine] ++ (optionCalls config ++ ([.ldapDefaults] ++
    ((if config.useSasl then config.saslOptions.elim [] LdapSaslOptions.calls else []) ++
      ((if config.useStartTls then tlsOptionCalls config else []) ++ [.vertoDefault]))))

def configured (config : ConnectionConfig) (defaults : LdapSaslDefaults) (c : ConnectionCtx) : ConnectionCtx :=
  { reset fails config c with
    ldap := some 0
    config := some config
    handlersInstalled := false
    stateMachine := .live .init
    ldapDefaults := .live defaults
    base := some () }

theorem updateDefaults_comp (g g' : LdapSaslDefaults → LdapSaslDefaults) :
    updateDefaults g ∘ updateDefaults g' = updateDefaults (g ∘ g') := by
  funext c
  simp only [Function.comp_apply, updateDefaults]
  cases c.ldapDefaults <;> rfl

theorem updateDefaults_id : updateDefaults id = id := by
  funext c
  have hdefaults : c.ldapDefaults.map id = c.ldapDefaults := by cases c.ldapDefaults <;> rfl
  rw [updateDefaults, hdefaults]
  rfl

theorem attempts_mechanism {mechanism : Cell Bytes} (h : mechanism ≠ .unset) :
    ∃ g, Attempts fails .errorExit (fun _ => True) (fun _ => True)
      (match mechanism with
        | .unset => throw (.fault .uninitialised)
        | .null => pure ()
        | .set mechanism =>
          allocHelper fails .mechanism (some mechanism) fun var =>
            updateDefaults fun defaults => { defaults with mechanism := var })
      (match mechanism with
        | .set _ => [.mechanism]
        | _ => []) (updateDefaults g) := by
  cases mechanism with
  | unset => exact absurd rfl h
  | null =>
    refine ⟨id, ?_⟩
    rw [updateDefaults_id]
    exact .pure
  | set mechanism => exact ⟨_, attempts_allocHelper (by simp) fun _ _ hs => hs⟩

theorem attempts_configureSasl {config : ConnectionConfig} {options : LdapSaslOptions}
    (h : config.saslOptions = some options) (hw : options.Written) :
    ∃ g, Attempts fails .errorExit (fun _ => True) (fun _ => True) (configureSasl fails config) options.calls
      (updateDefaults g) := by
  obtain ⟨nocanon, hnocanon⟩ := hw.saslNocanon
  obtain ⟨flags, hflags⟩ := hw.saslFlags
  obtain ⟨secprops, hsecprops⟩ := hw.saslSecprops
  obtain ⟨g, hmechanism⟩ := attempts_mechanism fails hw.mechanism
  have hconfigure : configureSasl fails config = (do
      checkAll fails saslOptionCalls
      modify (updateDefaults fun defaults => { defaults with flags := flags })
      match options.mechanism with
      | .unset => throw (.fault .uninitialised)
      | .null => pure ()
      | .set mechanism =>
        allocHelper fails .mechanism (some mechanism) fun var =>
          updateDefaults fun defaults => { defaults with mechanism := var }) := by
    rw [configureSasl, h]
    simp only [hnocanon, hsecprops, hflags]
    rfl
  have hflagged : Attempts fails Exit.errorExit (fun _ => True) (fun _ => True)
      (modify (updateDefaults fun defaults => { defaults with flags := flags })) [] _ := .modify fun _ hs => hs
  refine ⟨g ∘ fun defaults => { defaults with flags := flags }, ?_⟩
  rw [hconfigure, ← updateDefaults_comp]
  exact attempts_checkAll.bind (hflagged.bind hmechanism)

theorem attempts_configure {config : ConnectionConfig}
    (h : config.useSasl = true → ∃ options, config.saslOptions = some options ∧ options.Written) :
    ∃ defaults, Attempts fails .errorExit (fun _ => True) (fun _ => True) (configure fails config) config.calls
      (configured fails config defaults) := by
  have hsasl : ∃ g, config.useSasl = true → Attempts fails .errorExit (fun _ => True) (fun _ => True)
      (configureSasl fails config) (config.saslOptions.elim [] LdapSaslOptions.calls) (updateDefaults g) := by
    by_cases huse : config.useSasl = true
    · obtain ⟨options, hoptions, hw⟩ := h huse
      obtain ⟨g, hg⟩ := attempts_configureSasl fails hoptions hw
      rw [hoptions]
      exact ⟨g, fun _ => hg⟩
    · exact ⟨id, fun hu => absurd hu huse⟩
  obtain ⟨g, hsasl⟩ := hsasl
  refine ⟨(if config.useSasl then g else id) ⟨0, none⟩, ?_⟩
  apply Attempts.of_eq
  · exact .bind (attempts_allocHelper (by simp) fun _ _ hs => hs) <|
      .bind attempts_check <|
      .bind (.modify fun _ hs => hs) <|
      .bind (attempts_allocHelper (by simp) fun _ _ hs => hs) <|
      .bind attempts_checkAll <|
      .bind (attempts_allocHelper (by simp) fun _ _ hs => hs) <|
      .bind (.ite hsasl) <|
      .bind (.ite fun _ => attempts_checkAll) <|
      .bind (.modify fun _ hs => hs) <|
      attempts_allocHelper (by simp) fun _ _ hs => hs
  · rfl
  · funext c
    cases config.useSasl <;> cases config.useStartTls <;> rfl

def InitCall.copies : InitCall → Bool
  | .saslPasswd | .tlsCaCertFile | .tlsCertFile | .tlsKeyFile => true
  | _ => false

theorem all_ite {α : Type} {p : α → Bool} {l : List α} (c : Prop) [Decidable c] (h : l.all p = true) :
    (if c then l else []).all p = true := by
  by_cases hc : c
  · rw [if_pos hc, h]
  · rw [if_neg hc, List.all_nil]

theorem ConnectionConfig.all_calls (config : ConnectionConfig) : config.calls.all (fun call => !call.copies) = true := by
  have hoptions : (optionCalls config).all (fun call => !call.copies) = true := by
    rw [optionCalls, List.all_append, all_ite _ rfl]
    rfl
  have hsasl : (config.saslOptions.elim [] LdapSaslOptions.calls).all (fun call => !call.copies) = true := by
    cases config.saslOptions with
    | none => rfl
    | some options =>
      rw [Option.elim_some, LdapSaslOptions.calls, List.all_append]
      cases options.mechanism <;> rfl
  have htls : (tlsOptionCalls config).all (fun call => !call.copies) = true := by
    simp only [tlsOptionCalls, List.all_append]
    rw [all_ite _ rfl, all_ite _ rfl, all_ite _ rfl, all_ite _ rfl]
    rfl
  simp only [calls, List.all_append]
  rw [hoptions, all_ite _ hsasl, all_ite _ htls]
  rfl

section
variable {fails} {config : ConnectionConfig}

theorem connectionConfigure_granted {defaults : LdapSaslDefaults}
    (h : Attempts fails .errorExit (fun _ => True) (fun _ => True) (configure fails config) config.calls
      (configured fails config defaults))
    (hall : ∀ call ∈ config.calls ++ [.tallocFree], fails call = false) (c : ConnectionCtx) :
    connectionConfigure fails config c = .ok (.success, configured fails config defaults c) := by
  have hfree : fails .tallocFree = false := hall _ (List.mem_append_right _ List.mem_cons_self)
  rw [connectionConfigure, h.granted (fun call hc => hall call (List.mem_append_left _ hc)) c]
  dsimp only
  rw [if_neg (by simp [hfree])]

theorem connectionConfigure_refused {defaults : LdapSaslDefaults}
    (h : Attempts fails .errorExit (fun _ => True) (fun _ => True) (configure fails config) config.calls
      (configured fails config defaults))
    (hsome : ∃ call ∈ config.calls ++ [.tallocFree], fails call = true) (c : ConnectionCtx) :
    ∃ c', connectionConfigure fails config c = .ok (.failure, c') := by
  rcases granted_or_refused fails config.calls with hgranted | hfirst
  · obtain ⟨call, hmem, hfails⟩ := refused_behind hgranted hsome
    rw [List.mem_singleton.mp hmem] at hfails
    rw [connectionConfigure, h.granted hgranted c]
    dsimp only
    rw [if_pos hfails]
    exact ⟨_, rfl⟩
  · obtain ⟨c', hexec, -⟩ := h.gaveUp hfirst c trivial
    rw [connectionConfigure, hexec]
    exact ⟨_, rfl⟩

end

namespace LdConfig
variable (config : LdConfig)

def saslOptions : LdapSaslOptions where
  mechanism := if config.simpleBind then .null else .set (ascii "GSSAPI")
  passwd := .ofPointer config.password
  saslNocanon := .set true
  saslFlags := .set ldapSaslQuiet
  saslSecprops := .set (ascii "minssf=56")

def connectionConfig : ConnectionConfig :=
  { ConnectionConfig.zero with
    server := config.host
    protocolVerion := config.protocolVersion
    useStartTls := config.useTls
    useSasl := config.useSasl
    bindType := if config.simpleBind then .simple else .interactive
    saslOptions := if config.useSasl then some config.saslOptions else none
    tlsCaCertFile := if config.useTls then config.cacertfile else none
    tlsCertFile := if config.useTls then config.certfile else none
    tlsKeyFile := if config.useTls then config.keyfile else none }

def params : LdapSaslParams := ⟨.set config.dn, .set ⟨(config.password.map List.length).getD 0, config.password⟩⟩

def connection : ConnectionCtx := { ConnectionCtx.zero with ldapParams := some config.params }

def prepared : Ldhandle where
  tallocCtx := .set ()
  globalCtx := .set ⟨.set ()⟩
  connectionCtx := .set config.connection
  configCtx := .set config.connectionConfig
  globalConfig := .set config

theorem calls_eq : config.calls = config.prepareCalls ++ (config.connectionConfig.calls ++ [.tallocFree]) := by
  cases hs : config.useSasl <;> cases ht : config.useTls <;> cases hb : config.simpleBind <;>
    simp [calls, configureCalls, saslCalls, tlsCalls, connectionConfig, ConnectionConfig.calls,
      ConnectionConfig.zero, optionCalls, tlsOptionCalls, saslOptions, LdapSaslOptions.calls, hs, ht, hb]

/-- Only the first part of `ld_init` copies strings that may be null. -/
theorem refused_eq {call : InitCall} (h : call ∈ config.connectionConfig.calls ++ [.tallocFree]) :
    config.refused fails call = fails call := by
  have hcopies : (config.connectionConfig.calls ++ [InitCall.tallocFree]).all (fun call => !call.copies) = true := by
    rw [List.all_append, ConnectionConfig.all_calls]
    rfl
  have hcall := List.all_eq_true.mp hcopies call h
  cases call with
  | saslPasswd | tlsCaCertFile | tlsCertFile | tlsKeyFile => cases hcall
  | _ => exact Bool.or_false _

theorem written_saslOptions : config.saslOptions.Written where
  mechanism := by
    rw [saslOptions]
    cases config.simpleBind <;> simp
  saslNocanon := ⟨_, rfl⟩
  saslFlags := ⟨_, rfl⟩
  saslSecprops := ⟨_, rfl⟩

theorem attempts_connectionConfig : ∃ defaults, Attempts fails .errorExit (fun _ => True) (fun _ => True)
    (configure fails config.connectionConfig) config.connectionConfig.calls
    (configured fails config.connectionConfig defaults) :=
  attempts_configure fails fun hsasl => ⟨config.saslOptions, if_pos hsasl, config.written_saslOptions⟩

def Started (h : Ldhandle) : Prop := h.tallocCtx ≠ .unset

theorem attempts_allocateMembers : Attempts (config.refused fails) .errorExit (fun _ => True) Started
    (allocateMembers fails config) memberCalls fun _ =>
      ⟨.set (), .set .zero, .set .zero, .set .zero, .set config⟩ := by
  have hstart : ∀ (var : Option Unit) (h : Ldhandle), True → Started { h with tallocCtx := .ofPointer var } := by
    intro var h _
    cases var <;> simp [Started, Cell.ofPointer]
  apply Attempts.of_eq
  · exact .bind (attempts_allocHelper rfl hstart) <|
      .bind (attempts_allocHelper rfl fun _ _ hs => hs) <|
      .bind (attempts_allocHelper rfl fun _ _ hs => hs) <|
      .bind (attempts_allocHelper rfl fun _ _ hs => hs) <|
      attempts_allocHelper rfl fun _ _ hs => hs
  · rfl
  · rfl

theorem attempts_describeSasl : Attempts (config.refused fails) .errorExit Started Started
    (describeSasl fails config) [.saslOptions, .saslPasswd]
    (updateConfig fun c => { c with saslOptions := some config.saslOptions }) := by
  apply Attempts.of_eq
  · exact .bind (attempts_allocHelper rfl fun _ _ hs => hs) <|
      .bind (.modify fun _ hs => hs) <|
      .bind (attempts_allocHelper rfl fun _ _ hs => hs) <|
      .modify fun _ hs => hs
  · rfl
  · funext h
    rcases h with ⟨_, _, _, configCtx, _⟩
    cases configCtx <;> rfl

theorem attempts_describeTls : Attempts (config.refused fails) .errorExit Started Started
    (describeTls fails config) [.tlsCaCertFile, .tlsCertFile, .tlsKeyFile]
    (updateConfig fun c => { c with
      tlsCaCertFile := config.cacertfile
      tlsCertFile := config.certfile
      tlsKeyFile := config.keyfile }) := by
  apply Attempts.of_eq
  · exact .bind (attempts_allocHelper rfl fun _ _ hs => hs) <|
      .bind (attempts_allocHelper rfl fun _ _ hs => hs) <|
      attempts_allocHelper rfl fun _ _ hs => hs
  · rfl
  · funext h
    rcases h with ⟨_, _, _, configCtx, _⟩
    cases configCtx <;> rfl

theorem attempts_describeParams : Attempts (config.refused fails) .errorExit Started Started
    (describeParams fails config) config.paramsCalls
    (updateConnection fun c => { c with ldapParams := some config.params }) := by
  apply Attempts.of_eq
  · exact .bind (attempts_allocHelper rfl fun _ _ hs => hs) <|
      .bind (attempts_allocHelper rfl fun _ _ hs => hs) <|
      .bind (attempts_allocHelper rfl fun _ _ hs => hs) <|
      .ite fun hp => attempts_allocHelper (by rw [← Option.not_isSome, hp]; rfl) fun _ _ hs => hs
  · rfl
  · funext h
    rcases h with ⟨_, _, connectionCtx, _, _⟩
    rcases config with ⟨_, _, _, _, password, _⟩
    cases password <;> cases connectionCtx <;> rfl

theorem attempts_prepare : ∃ f, Attempts (config.refused fails) .errorExit (fun _ => True) Started
    (prepare fails config) config.prepareCalls f ∧ f .uninitialised = config.prepared := by
  refine ⟨_, .of_eq (.bind (config.attempts_allocateMembers fails) <|
    .bind (.modify fun _ hs => hs) <|
    .bind (.ite fun _ => config.attempts_describeSasl fails) <|
    .bind (.ite fun _ => config.attempts_describeTls fails) <|
    config.attempts_describeParams fails) rfl rfl, ?_⟩
  rcases config with ⟨_, _, _, _, _, _, useTls, useSasl, _⟩
  cases useTls <;> cases useSasl <;> rfl

end LdConfig

section
variable {fails} {config : LdConfig}

theorem exec_finish (address : ℕ) : exec (finish fails address) config.prepared =
    exec (conclude address (connectionConfigure fails config.connectionConfig config.connection)) config.prepared :=
  rfl

def LdConfig.initialised (config : LdConfig) (address : ℕ) (c : ConnectionCtx) : Ldhandle :=
  { config.prepared with connectionCtx := .set { c with handle := some address } }

theorem exec_prepare_finish {f : Ldhandle → Ldhandle}
    (hprepare : Attempts (config.refused fails) .errorExit (fun _ => True) LdConfig.Started
      (prepare fails config) config.prepareCalls f) (hf : f .uninitialised = config.prepared)
    (hall : ∀ call ∈ config.prepareCalls, config.refused fails call = false) (address : ℕ) :
    exec (do prepare fails config; finish fails address) .uninitialised =
      exec (conclude address (connectionConfigure fails config.connectionConfig config.connection)) config.prepared := by
  rw [exec_bind_ok (hprepare.granted hall _), hf, exec_finish]

end

section
variable {fails}

theorem errorExit_started {h : Ldhandle} (hs : LdConfig.Started h) : errorExit h = .ok none := by
  rw [errorExit]
  split
  · next hunset => exact absurd hunset hs
  · rfl

theorem ldInit_refused (hmalloc : fails .malloc = false) {config : LdConfig}
    (hsome : ∃ call ∈ config.calls, config.refused fails call = true) (address : ℕ) :
    ldInit fails address (some config) = .ok none := by
  obtain ⟨f, hprepare, hf⟩ := config.attempts_prepare fails
  rw [ldInit, if_neg (by simp [hmalloc])]
  rcases granted_or_refused (config.refused fails) config.prepareCalls with hgranted | hfirst
  · obtain ⟨defaults, hconfigure⟩ := config.attempts_connectionConfig fails
    rw [config.calls_eq] at hsome
    obtain ⟨call, hmem, hrefused⟩ := refused_behind hgranted hsome
    rw [config.refused_eq fails hmem] at hrefused
    obtain ⟨c, hc⟩ := connectionConfigure_refused hconfigure ⟨call, hmem, hrefused⟩ config.connection
    rw [exec_prepare_finish hprepare hf hgranted, hc]
    rfl
  · obtain ⟨h, hexec, hstarted⟩ := hprepare.gaveUp hfirst .uninitialised trivial
    rw [exec_bind_error hexec]
    exact errorExit_started hstarted

theorem ldInit_granted (hmalloc : fails .malloc = false) {config : LdConfig}
    (hall : ∀ call ∈ config.calls, config.refused fails call = false) (address : ℕ) :
    ∃ defaults, ldInit fails address (some config) = .ok (some
      (config.initialised address (configured fails config.connectionConfig defaults config.connection))) := by
  obtain ⟨f, hprepare, hf⟩ := config.attempts_prepare fails
  obtain ⟨defaults, hconfigure⟩ := config.attempts_connectionConfig fails
  rw [config.calls_eq] at hall
  have hconnection : ∀ call ∈ config.connectionConfig.calls ++ [.tallocFree], fails call = false := by
    intro call hc
    rw [← config.refused_eq fails hc]
    exact hall call (List.mem_append_right _ hc)
  refine ⟨defaults, ?_⟩
  rw [ldInit, if_neg (by simp [hmalloc])]
  rw [exec_prepare_finish hprepare hf fun call hc => hall call (List.mem_append_left _ hc),
    connectionConfigure_granted hconfigure hconnection]
  rfl

/-- The connection is configured unless one of the two allocations failed that go unnoticed. -/
theorem configured_iff {config : LdConfig} {defaults : LdapSaslDefaults} :
    (configured fails config.connectionConfig defaults config.connection).Configured ↔
      fails .ldapSchemaNew = false ∧ fails .requestQueueNew = false := by
  constructor
  · intro h
    exact ⟨by simpa [configured, reset] using h.schema, by simpa [configured, reset] using h.callqueue⟩
  · rintro ⟨hschema, hcallqueue⟩
    exact {
      ldap := rfl
      base := rfl
      schema := by simp [configured, reset, hschema]
      callqueue := by simp [configured, reset, hcallqueue]
      stateMachine := rfl
      ldapDefaults := ⟨defaults, rfl⟩
      ldapParams := ⟨_, _, _, rfl, rfl, rfl⟩
      config := rfl }

theorem complete_initialised_iff {config : LdConfig} {address : ℕ} {c : ConnectionCtx} :
    Complete address (config.initialised address c) ↔ c.Configured := by
  constructor
  · intro h
    obtain ⟨c', hc, hconfigured, -⟩ := h.connectionCtx
    cases hc
    exact { hconfigured with }
  · intro h
    exact ⟨rfl, ⟨_, rfl⟩, rfl, ⟨_, rfl⟩, _, rfl, { h with }, rfl⟩

theorem not_complete_uninitialised (address : ℕ) : ¬Complete address .uninitialised := by
  intro h
  cases h.tallocCtx

theorem completeOrNull_none (address : ℕ) : CompleteOrNull address (.ok none) :=
  ⟨none, rfl, fun h hh => by cases hh⟩

theorem completeOrNull_some {address : ℕ} {h : Ldhandle} :
    CompleteOrNull address (.ok (some h)) ↔ Complete address h := by
  constructor
  · rintro ⟨handle, hhandle, hcomplete⟩
    cases hhandle
    exact hcomplete h rfl
  · intro hcomplete
    exact ⟨some h, rfl, fun h' hh => by cases hh; exact hcomplete⟩

/-- `ld_init` yields a complete handle or none unless it is called without a configuration, or
one of the two allocations fails that it does not notice. -/
theorem ldInit_completeOrNull_iff (fails : InitCall → Bool) (address : ℕ) (config : Option LdConfig) :
    CompleteOrNull address (ldInit fails address config) ↔
      fails .malloc = true ∨ ∃ c ∈ config, (∃ call ∈ c.calls, c.refused fails call = true) ∨
        (fails .ldapSchemaNew = false ∧ fails .requestQueueNew = false) := by
  by_cases hmalloc : fails .malloc = true
  · have hnull : ldInit fails address config = .ok none := if_pos hmalloc
    rw [hnull]
    exact ⟨fun _ => .inl hmalloc, fun _ => completeOrNull_none address⟩
  rw [or_iff_right hmalloc]
  cases config with
  | none =>
    have hnull : ldInit fails address none = .ok (some .uninitialised) := if_neg hmalloc
    rw [hnull, completeOrNull_some]
    exact ⟨fun h => absurd h (not_complete_uninitialised address), fun ⟨c, hc, _⟩ => by cases hc⟩
  | some config =>
    rw [Bool.not_eq_true] at hmalloc
    simp only [Option.mem_some_iff, exists_eq_left']
    rcases granted_or_refused (config.refused fails) config.calls with hall | hrefused
    · obtain ⟨defaults, hinit⟩ := ldInit_granted hmalloc hall address
      have hnone : ¬∃ call ∈ config.calls, config.refused fails call = true := by
        rintro ⟨call, hc, hr⟩
        rw [hall call hc] at hr
        cases hr
      rw [hinit, completeOrNull_some, complete_initialised_iff, configured_iff, or_iff_right hnone]
    · rw [ldInit_refused hmalloc hrefused]
      exact ⟨fun _ => .inl hrefused, fun _ => completeOrNull_none address⟩

/-- Without a configuration the caller is left with memory that nobody has written to, and
after a failed allocation of the schema with a connection that has none. -/
theorem ldInit_without_config : ¬CompleteOrNull 0 (ldInit (fun _ => false) 0 none) ∧
    ldFree .uninitialised = .error .uninitialised ∧
    ¬CompleteOrNull 0 (ldInit (fun call => decide (call = .ldapSchemaNew)) 0
      (some ⟨none, 3, none, none, none, true, false, false, none, none, none⟩)) := by
  refine ⟨?_, rfl, ?_⟩
  · rintro ⟨handle, hhandle, hcomplete⟩
    cases hhandle
    cases (hcomplete _ rfl).tallocCtx
  · rintro ⟨handle, hhandle, hcomplete⟩
    cases hhandle
    obtain ⟨c, hc, hconfigured, -⟩ := (hcomplete _ rfl).connectionCtx
    cases hc
    cases hconfigured.schema

/-- The connection as its runs have it, where what `ld_init` leaves alone is zero. -/
def ConnectionCtx.running (c : ConnectionCtx) : Option LdapConnectionCtx := do
  let config ← c.config
  let schema ← c.schema
  let callqueue ← c.callqueue
  return { LdapConnectionCtx.zero ⟨config.useStartTls, config.bindType⟩ with
    ldap := c.ldap
    handlersInstalled := c.handlersInstalled
    bindType := c.bindType
    directoryType := c.directoryType
    schema := schema
    callqueue := callqueue
    readRequests := c.readRequests
    searchRequests := c.searchRequests
    nReadRequests := c.nReadRequests
    nSearchRequests := c.nSearchRequests
    nReconnectAttempts := c.nReconnectAttempts
    stateMachine := c.stateMachine
    ldapDefaults := c.ldapDefaults.map fun _ => () }

/-- The runs of a connection start where `ld_init` leaves it, if the handle is complete. -/
theorem ldInit_running (hmalloc : fails .malloc = false) {config : LdConfig}
    (hall : ∀ call ∈ config.calls, config.refused fails call = false) (address : ℕ) (path : Option Bytes) :
    ∃ h c, ldInit fails address (some config) = .ok (some h) ∧ h.connectionCtx = .set c ∧
      (Complete address h ↔ fails .ldapSchemaNew = false ∧ fails .requestQueueNew = false) ∧
      (Complete address h → c.running = some (World.initial
        ⟨config.useTls, if config.simpleBind then .simple else .interactive⟩ path).connection) := by
  obtain ⟨defaults, hinit⟩ := ldInit_granted hmalloc hall address
  let c := configured fails config.connectionConfig defaults config.connection
  have hiff : Complete address (config.initialised address c) ↔
      fails .ldapSchemaNew = false ∧ fails .requestQueueNew = false := complete_initialised_iff.trans configured_iff
  refine ⟨_, _, hinit, rfl, hiff, fun hcomplete => ?_⟩
  obtain ⟨hschema, hcallqueue⟩ := hiff.mp hcomplete
  simp only [ConnectionCtx.running, configured, reset, hschema, hcallqueue]
  cases hb : config.simpleBind <;> simp [LdConfig.connectionConfig, hb] <;> rfl

end

end Libdomain.Domain.Initialization
