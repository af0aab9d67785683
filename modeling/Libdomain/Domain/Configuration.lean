import Libdomain.Domain.CompleteHandles
import Libdomain.Text.Decimal

/-! # Configurations

`ld_create_config` and `ld_load_config` of `domain.c`. One takes the settings as arguments
and fills memory that has been cleared; the other one looks them up in a file and fills
memory that has not. From the same settings both make the same configuration.
-/
namespace Libdomain.Domain.Initialization
open Libdomain.Connection Libdomain.Memory Libdomain.Program

def ldapVersion3 : Int := 3

/-- `ld_config_t` in memory. -/
structure ConfigMemory where
  host : Cell Bytes
  protocolVersion : Cell Int
  baseDn : Cell Bytes
  username : Cell Bytes
  password : Cell Bytes
  simpleBind : Cell Bool
  useTls : Cell Bool
  useSasl : Cell Bool
  useAnon : Cell Bool
  timeout : Cell Int
  cacertfile : Cell Bytes
  certfile : Cell Bytes
  keyfile : Cell Bytes

def ConfigMemory.zero : ConfigMemory :=
  ⟨.null, .set 0, .null, .null, .null, .set false, .set false, .set false, .set false, .set 0, .null, .null, .null⟩

/-- What libconfig finds under a name in a file it has read. -/
structure Settings where
  lookupString : Bytes → Option Bytes
  lookupInt : Bytes → Option Int
  lookupBool : Bytes → Option Bool

structure ConfigArguments where
  host : Option Bytes
  port : Int
  protocolVersion : Int
  baseDn : Option Bytes
  username : Option Bytes
  password : Option Bytes
  simpleBind : Bool
  useTls : Bool
  useSasl : Bool
  useAnon : Bool
  timeout : Int
  cacertfile : Option Bytes
  certfile : Option Bytes
  keyfile : Option Bytes

inductive ConfigCall
  | result
  | host
  | baseDn
  | username
  | password
  | cacertfile
  | certfile
  | keyfile
  deriving DecidableEq

variable (fails : ConfigCall → Bool)

/-- A string is copied into a field, or the function ends. -/
def copyString (call : ConfigCall) (s : Bytes) (assign : Cell Bytes → ConfigMemory → ConfigMemory) :
    Prog ConfigMemory Exit Unit := do
  modify (assign (if fails call then .null else .set s))
  if fails call then throw .errorExit

/-- A string that may be missing, and then the field is null. -/
def copyOptional (call : ConfigCall) (s : Option Bytes) (assign : Cell Bytes → ConfigMemory → ConfigMemory) :
    Prog ConfigMemory Exit Unit :=
  match s with
  | some s => copyString fails call s assign
  | none => modify (assign .null)

/-- A string that may be missing, and then the field stays as it is. -/
def copyGiven (call : ConfigCall) (s : Option Bytes) (assign : Cell Bytes → ConfigMemory → ConfigMemory) :
    Prog ConfigMemory Exit Unit :=
  match s with
  | some s => copyString fails call s assign
  | none => pure ()

/-- The paths of the certificates, which are empty if they are missing. -/
def copyPaths (cacertfile certfile keyfile : Option Bytes) : Prog ConfigMemory Exit Unit := do
  copyString fails .cacertfile (cacertfile.getD []) fun c m => { m with cacertfile := c }
  copyString fails .certfile (certfile.getD []) fun c m => { m with certfile := c }
  copyString fails .keyfile (keyfile.getD []) fun c m => { m with keyfile := c }

def requiredString (s : Option Bytes) (exit : Exit) : Prog ConfigMemory Exit Bytes :=
  match s with
  | some s => pure s
  | none => throw exit

/-- `ld_load_config` behind the file that has been read. -/
def loadSettings (s : Settings) : Prog ConfigMemory Exit Unit := do
  let host ← requiredString (s.lookupString (ascii "host")) .errorExit
  let port := (s.lookupInt (ascii "port")).getD 0
  copyString fails .host (if 0 < port then host ++ (0x3a :: Text.decimal port) else host) fun c m =>
    { m with host := c }
  modify fun m => { m with
    protocolVersion := .set ((s.lookupInt (ascii "protocol_version")).getD ldapVersion3) }
  let baseDn ← requiredString (s.lookupString (ascii "base_dn")) .errorExit
  copyString fails .baseDn baseDn fun c m => { m with baseDn := c }
  copyOptional fails .username (s.lookupString (ascii "username")) fun c m => { m with username := c }
  copyOptional fails .password (s.lookupString (ascii "password")) fun c m => { m with password := c }
  modify fun m => { m with
    simpleBind := .set ((s.lookupBool (ascii "simple_bind")).getD false)
    useTls := .set ((s.lookupBool (ascii "use_tls")).getD false)
    useSasl := .set ((s.lookupBool (ascii "use_sasl")).getD false)
    useAnon := .set ((s.lookupBool (ascii "use_anon")).getD false)
    timeout := .set ((s.lookupInt (ascii "timeout")).getD 0) }
  copyPaths fails (s.lookupString (ascii "ca_cert_file")) (s.lookupString (ascii "cert_file"))
    (s.lookupString (ascii "key_file"))

/-- `ld_create_config` behind the allocation; the base is not checked. -/
def createConfig (a : ConfigArguments) : Prog ConfigMemory Exit Unit := do
  copyString fails .host
    (if 0 < a.port then printed a.host ++ (0x3a :: Text.decimal a.port) else printed a.host) fun c m => { m with host := c }
  modify fun m => { m with protocolVersion := .set a.protocolVersion }
  let baseDn ← requiredString a.baseDn (.fault .nullDereference)
  copyString fails .baseDn baseDn fun c m => { m with baseDn := c }
  modify fun m => { m with username := .null, password := .null }
  copyGiven fails .username a.username fun c m => { m with username := c }
  copyGiven fails .password a.password fun c m => { m with password := c }
  modify fun m => { m with
    simpleBind := .set a.simpleBind
    useTls := .set a.useTls
    useSasl := .set a.useSasl
    useAnon := .set a.useAnon
    timeout := .set a.timeout }
  copyPaths fails a.cacertfile a.certfile a.keyfile

/-- The label `error_exit`: the memory is released. -/
def finishConfig : Except Exit Unit × ConfigMemory → Except Memory.Fault (Option ConfigMemory)
  | (.ok _, m) => .ok (some m)
  | (.error .errorExit, _) => .ok none
  | (.error (.fault fault), _) => .error fault

/-- There are no settings if the file cannot be read. -/
def ldLoadConfig (memory : ConfigMemory) (settings : Option Settings) :
    Except Memory.Fault (Option ConfigMemory) :=
  if fails .result then .ok none
  else match settings with
    | none => .ok none
    | some settings => finishConfig (exec (loadSettings fails settings) memory)

def ldCreateConfig (tallocCtx : Option Unit) (a : ConfigArguments) : Except Memory.Fault (Option ConfigMemory) :=
  match tallocCtx with
  | none => .ok none
  | some _ => if fails .result then .ok none else finishConfig (exec (createConfig fails a) .zero)

/-- The arguments that say what a file says. -/
def Settings.arguments (s : Settings) (host baseDn : Bytes) : ConfigArguments where
  host := some host
  port := (s.lookupInt (ascii "port")).getD 0
  protocolVersion := (s.lookupInt (ascii "protocol_version")).getD ldapVersion3
  baseDn := some baseDn
  username := s.lookupString (ascii "username")
  password := s.lookupString (ascii "password")
  simpleBind := (s.lookupBool (ascii "simple_bind")).getD false
  useTls := (s.lookupBool (ascii "use_tls")).getD false
  useSasl := (s.lookupBool (ascii "use_sasl")).getD false
  useAnon := (s.lookupBool (ascii "use_anon")).getD false
  timeout := (s.lookupInt (ascii "timeout")).getD 0
  cacertfile := s.lookupString (ascii "ca_cert_file")
  certfile := s.lookupString (ascii "cert_file")
  keyfile := s.lookupString (ascii "key_file")

namespace ConfigArguments

def memory (a : ConfigArguments) : ConfigMemory where
  host := .set (if 0 < a.port then printed a.host ++ (0x3a :: Text.decimal a.port) else printed a.host)
  protocolVersion := .set a.protocolVersion
  baseDn := .ofPointer a.baseDn
  username := .ofPointer a.username
  password := .ofPointer a.password
  simpleBind := .set a.simpleBind
  useTls := .set a.useTls
  useSasl := .set a.useSasl
  useAnon := .set a.useAnon
  timeout := .set a.timeout
  cacertfile := .set (a.cacertfile.getD [])
  certfile := .set (a.certfile.getD [])
  keyfile := .set (a.keyfile.getD [])

def copies (a : ConfigArguments) : List ConfigCall :=
  (if a.username.isSome then [.username] else []) ++ ((if a.password.isSome then [.password] else []) ++
    [.cacertfile, .certfile, .keyfile])

end ConfigArguments

variable {fails : ConfigCall → Bool} {call : ConfigCall} {assign : Cell Bytes → ConfigMemory → ConfigMemory}

/-- A step that fills a field, or ends the function. -/
abbrev Fills (fails : ConfigCall → Bool) (p : Prog ConfigMemory Exit Unit) (calls : List ConfigCall)
    (f : ConfigMemory → ConfigMemory) : Prop :=
  Attempts fails .errorExit (fun _ => True) (fun _ => True) p calls f

theorem fills_copyString (s : Bytes) : Fills fails (copyString fails call s assign) [call] (assign (.set s)) where
  granted hall m := by
    have hcall := hall call List.mem_cons_self
    rw [copyString, exec_bind_ok (exec_modify _ m), hcall]
    rfl
  gaveUp hsome m _ := by
    obtain ⟨call', hmem, hcall⟩ := hsome
    cases List.mem_singleton.mp hmem
    refine ⟨assign .null m, ?_, trivial⟩
    rw [copyString, exec_bind_ok (exec_modify _ m), hcall]
    rfl
  keeps _ _ := trivial

theorem fills_copyOptional (s : Option Bytes) : Fills fails (copyOptional fails call s assign)
    (if s.isSome then [call] else []) (assign (.ofPointer s)) := by
  cases s with
  | none => exact .modify fun _ _ => trivial
  | some s => exact fills_copyString s

theorem fills_copyGiven (s : Option Bytes) : Fills fails (copyGiven fails call s assign)
    (if s.isSome then [call] else []) (if s.isSome then assign (.ofPointer s) else id) := by
  cases s with
  | none => exact .pure
  | some s => exact fills_copyString s

theorem fills_modify (fails : ConfigCall → Bool) (f : ConfigMemory → ConfigMemory) : Fills fails (modify f) [] f :=
  .modify fun _ _ => trivial

theorem fills_copyPaths (cacertfile certfile keyfile : Option Bytes) :
    Fills fails (copyPaths fails cacertfile certfile keyfile) [.cacertfile, .certfile, .keyfile]
      fun m => { m with
        cacertfile := .set (cacertfile.getD [])
        certfile := .set (certfile.getD [])
        keyfile := .set (keyfile.getD []) } :=
  (fills_copyString _).bind ((fills_copyString _).bind (fills_copyString _))

theorem fills_loadSettings {s : Settings} {host baseDn : Bytes} (hhost : s.lookupString (ascii "host") = some host)
    (hbase : s.lookupString (ascii "base_dn") = some baseDn) :
    Fills fails (loadSettings fails s) (.host :: .baseDn :: (s.arguments host baseDn).copies)
      fun _ => (s.arguments host baseDn).memory := by
  rw [loadSettings, hhost, hbase]
  simp only [requiredString, pure_bind]
  refine Attempts.of_eq ((fills_copyString _).bind ((fills_modify _ _).bind ((fills_copyString _).bind
    ((fills_copyOptional _).bind ((fills_copyOptional _).bind ((fills_modify _ _).bind (fills_copyPaths _ _ _))))))) rfl ?_
  rfl

theorem fills_createConfig (fails : ConfigCall → Bool) {a : ConfigArguments} {baseDn : Bytes}
    (hbase : a.baseDn = some baseDn) :
    ∃ f, Fills fails (createConfig fails a) (.host :: .baseDn :: a.copies) f ∧ f .zero = a.memory := by
  rw [createConfig, hbase]
  simp only [requiredString, pure_bind]
  refine ⟨_, Attempts.of_eq ((fills_copyString _).bind ((fills_modify _ _).bind ((fills_copyString _).bind
    ((fills_modify _ _).bind ((fills_copyGiven _).bind ((fills_copyGiven _).bind ((fills_modify _ _).bind
      (fills_copyPaths _ _ _)))))))) rfl rfl, ?_⟩
  obtain ⟨host, port, version, base, username, password, simpleBind, useTls, useSasl, useAnon, timeout⟩ := a
  cases hbase
  cases username <;> cases password <;> rfl

theorem finishConfig_fills {p : Prog ConfigMemory Exit Unit} {calls : List ConfigCall}
    {f : ConfigMemory → ConfigMemory} (h : Fills fails p calls f) (m : ConfigMemory) :
    finishConfig (exec p m) = .ok (if calls.all fun call => !fails call then some (f m) else none) := by
  rcases granted_or_refused fails calls with hgranted | hrefused
  · rw [h.granted hgranted m, if_pos (by simpa using hgranted)]
    rfl
  · obtain ⟨t, ht, -⟩ := h.gaveUp hrefused m trivial
    rw [ht, if_neg (by simpa using hrefused)]
    rfl

theorem finishConfig_behind {p : Prog ConfigMemory Exit Unit} {calls : List ConfigCall}
    {f : ConfigMemory → ConfigMemory} (h : Fills fails p calls f) {q : Prog ConfigMemory Exit Unit}
    (hq : ∀ m, finishConfig (exec q m) = .ok none) (m : ConfigMemory) :
    finishConfig (exec (p >>= fun _ => q) m) = .ok none := by
  rcases granted_or_refused fails calls with hgranted | hrefused
  · rw [exec_bind_ok (h.granted hgranted m)]
    exact hq (f m)
  · obtain ⟨t, ht, -⟩ := h.gaveUp hrefused m trivial
    rw [exec_bind_error ht]
    rfl

theorem finishConfig_incomplete {s : Settings}
    (h : s.lookupString (ascii "host") = none ∨ s.lookupString (ascii "base_dn") = none) (m : ConfigMemory) :
    finishConfig (exec (loadSettings fails s) m) = .ok none := by
  rw [loadSettings]
  cases hhost : s.lookupString (ascii "host") with
  | none => rfl
  | some host =>
    have hbase := h.resolve_left (by simp [hhost])
    simp only [hbase, requiredString, pure_bind]
    exact finishConfig_behind (fills_copyString _) (finishConfig_behind (fills_modify fails _) fun _ => rfl) m

/-- A file gives the configuration that its settings give as arguments, whichever allocations
fail and whatever the memory held before; without a host or a base it gives none. -/
theorem ldLoadConfig_eq (fails : ConfigCall → Bool) (memory : ConfigMemory) (s : Settings) :
    ldLoadConfig fails memory (some s) =
      ((s.lookupString (ascii "host")).bind fun host =>
          (s.lookupString (ascii "base_dn")).map fun baseDn => s.arguments host baseDn).elim
        (.ok none) (ldCreateConfig fails (some ())) := by
  rw [ldLoadConfig]
  cases hhost : s.lookupString (ascii "host") with
  | none =>
    change (if _ then _ else finishConfig _) = Except.ok none
    rw [finishConfig_incomplete (.inl hhost), ite_self]
  | some host =>
    cases hbase : s.lookupString (ascii "base_dn") with
    | none =>
      change (if _ then _ else finishConfig _) = Except.ok none
      rw [finishConfig_incomplete (.inr hbase), ite_self]
    | some baseDn =>
      obtain ⟨f, hcreate, hf⟩ := fills_createConfig fails (a := s.arguments host baseDn) rfl
      change (if _ then _ else finishConfig _) = ldCreateConfig fails (some ()) (s.arguments host baseDn)
      rw [ldCreateConfig, finishConfig_fills (fills_loadSettings hhost hbase), finishConfig_fills hcreate, hf]

def assigned {α : Type} : Cell α → Except Memory.Fault (Option α)
  | .unset => .error .uninitialised
  | .null => .ok none
  | .set x => .ok (some x)

/-- What `ld_init` reads of a configuration. -/
def ConfigMemory.config (m : ConfigMemory) : Except Memory.Fault LdConfig := do
  return {
    host := ← assigned m.host
    protocolVersion := ← m.protocolVersion.read
    baseDn := ← assigned m.baseDn
    username := ← assigned m.username
    password := ← assigned m.password
    simpleBind := ← m.simpleBind.read
    useTls := ← m.useTls.read
    useSasl := ← m.useSasl.read
    cacertfile := ← assigned m.cacertfile
    certfile := ← assigned m.certfile
    keyfile := ← assigned m.keyfile }

theorem assigned_ofPointer {α : Type} (x : Option α) : assigned (.ofPointer x) = .ok x := by
  cases x <;> rfl

/-- The configuration of the arguments, in which no path is null. -/
def ConfigArguments.config (a : ConfigArguments) : LdConfig where
  host := some (if 0 < a.port then printed a.host ++ (0x3a :: Text.decimal a.port) else printed a.host)
  protocolVersion := a.protocolVersion
  baseDn := a.baseDn
  username := a.username
  password := a.password
  simpleBind := a.simpleBind
  useTls := a.useTls
  useSasl := a.useSasl
  cacertfile := some (a.cacertfile.getD [])
  certfile := some (a.certfile.getD [])
  keyfile := some (a.keyfile.getD [])

theorem ConfigArguments.config_memory (a : ConfigArguments) : a.memory.config = .ok a.config := by
  simp only [ConfigMemory.config, memory, assigned_ofPointer]
  rfl

theorem finishConfig_createConfig_none {a : ConfigArguments} (hbase : a.baseDn = none) (m : ConfigMemory) :
    ∀ m', finishConfig (exec (createConfig fails a) m) ≠ .ok (some m') := by
  intro m' h
  let host := if 0 < a.port then printed a.host ++ (0x3a :: Text.decimal a.port) else printed a.host
  have hhost : Fills fails (copyString fails .host host fun c m => { m with host := c }) [.host] _ :=
    fills_copyString host
  rw [createConfig, hbase] at h
  rcases granted_or_refused fails [.host] with hgranted | hrefused
  · rw [exec_bind_ok (hhost.granted hgranted m)] at h
    cases h
  · obtain ⟨t, ht, -⟩ := hhost.gaveUp hrefused m trivial
    rw [exec_bind_error ht] at h
    cases h

theorem ldCreateConfig_some {tallocCtx : Option Unit} {a : ConfigArguments} {m : ConfigMemory}
    (h : ldCreateConfig fails tallocCtx a = .ok (some m)) : m = a.memory := by
  cases tallocCtx with
  | none => cases h
  | some _ =>
    rw [ldCreateConfig] at h
    split_ifs at h with hresult
    · cases h
    · cases hbase : a.baseDn with
      | none => exact absurd h (finishConfig_createConfig_none hbase _ m)
      | some baseDn =>
        obtain ⟨f, hcreate, hf⟩ := fills_createConfig fails hbase
        rw [finishConfig_fills hcreate, hf] at h
        split_ifs at h with hcopies
        · cases h
          rfl
        · cases h

theorem refused_eq_or (initFails : InitCall → Bool) (a : ConfigArguments) (call : InitCall) :
    a.config.refused initFails call = true ↔
      initFails call = true ∨ call = .saslPasswd ∧ a.password = none := by
  cases call <;> simp [LdConfig.refused, ConfigArguments.config]

theorem saslPasswd_mem_calls (config : LdConfig) : .saslPasswd ∈ config.calls ↔ config.useSasl = true := by
  have hsasl : .saslPasswd ∉ config.saslCalls := by
    rw [LdConfig.saslCalls]
    split_ifs <;> decide
  have htls : .saslPasswd ∉ config.tlsCalls := by
    rw [LdConfig.tlsCalls]
    split_ifs <;> decide
  cases huse : config.useSasl <;>
    simp [LdConfig.calls, LdConfig.prepareCalls, LdConfig.configureCalls, LdConfig.memberCalls, LdConfig.paramsCalls,
      huse, htls]

/-- The only null pointer of such a configuration that `ld_init` would copy is the password. -/
theorem refused_config (initFails : InitCall → Bool) (a : ConfigArguments) :
    (∃ call ∈ a.config.calls, a.config.refused initFails call = true) ↔
      (∃ call ∈ a.config.calls, initFails call = true) ∨ a.useSasl = true ∧ a.password = none := by
  simp only [refused_eq_or]
  constructor
  · rintro ⟨call, hmem, hfails | ⟨rfl, hpassword⟩⟩
    · exact .inl ⟨call, hmem, hfails⟩
    · exact .inr ⟨(saslPasswd_mem_calls a.config).mp hmem, hpassword⟩
  · rintro (⟨call, hmem, hfails⟩ | ⟨hsasl, hpassword⟩)
    · exact ⟨call, hmem, .inl hfails⟩
    · exact ⟨.saslPasswd, (saslPasswd_mem_calls a.config).mpr hsasl, .inr ⟨rfl, hpassword⟩⟩

/-- A configuration that was made can be read, and `ld_init` refuses it only if a call fails
or a password is missing. Otherwise it gives a handle that is complete unless one of the two
allocations failed that it does not notice. The connection of a complete one starts from the
settings. -/
theorem ldInit_created {tallocCtx : Option Unit} {a : ConfigArguments} {m : ConfigMemory}
    (h : ldCreateConfig fails tallocCtx a = .ok (some m)) (initFails : InitCall → Bool) (address : ℕ)
    (path : Option Bytes) :
    ∃ config, m.config = .ok config ∧
      (ldInit initFails address (some config) = .ok none ↔
        initFails .malloc = true ∨ (∃ call ∈ config.calls, initFails call = true) ∨
          a.useSasl = true ∧ a.password = none) ∧
      (ldInit initFails address (some config) ≠ .ok none →
        ∃ handle c, ldInit initFails address (some config) = .ok (some handle) ∧ handle.connectionCtx = .set c ∧
          (Complete address handle ↔ initFails .ldapSchemaNew = false ∧ initFails .requestQueueNew = false) ∧
          (Complete address handle → c.running = some (World.initial
            ⟨a.useTls, if a.simpleBind then .simple else .interactive⟩ path).connection)) := by
  cases ldCreateConfig_some h
  refine ⟨a.config, a.config_memory, ?_⟩
  by_cases hmalloc : initFails .malloc = true
  · have hnone : ldInit initFails address (some a.config) = .ok none := if_pos hmalloc
    exact ⟨iff_of_true hnone (.inl hmalloc), fun hne => absurd hnone hne⟩
  · rw [or_iff_right hmalloc, ← refused_config]
    rw [Bool.not_eq_true] at hmalloc
    rcases granted_or_refused (a.config.refused initFails) a.config.calls with hall | hrefused
    · obtain ⟨handle, c, hinit, hrest⟩ := ldInit_running hmalloc hall address path
      have hnot : ¬∃ call ∈ a.config.calls, a.config.refused initFails call = true := by
        rintro ⟨call, hmem, hcall⟩
        rw [hall call hmem] at hcall
        cases hcall
      refine ⟨iff_of_false ?_ hnot, fun _ => ⟨handle, c, hinit, hrest⟩⟩
      rw [hinit]
      rintro ⟨⟩
    · have hnone := ldInit_refused hmalloc hrefused address
      exact ⟨iff_of_true hnone hrefused, fun hne => absurd hnone hne⟩

/-- With SASL and without a password there is no handle. -/
theorem ldInit_created_sasl :
    let a : ConfigArguments := ⟨some (ascii "ldap://dc0.domain.alt"), 0, 3, some (ascii "dc=domain,dc=alt"), none, none,
      false, false, true, false, 1000, none, none, none⟩
    ∃ m config, ldCreateConfig (fun _ => false) (some ()) a = .ok (some m) ∧ m.config = .ok config ∧
      ldInit (fun _ => false) 0 (some config) = .ok none := by
  intro a
  have hcreate : ldCreateConfig (fun _ => false) (some ()) a = .ok (some a.memory) := rfl
  obtain ⟨config, hconfig, hnone, -⟩ := ldInit_created hcreate (fun _ => false) 0 none
  exact ⟨_, config, hcreate, hconfig, hnone.mpr (.inr (.inr ⟨rfl, rfl⟩))⟩

end Libdomain.Domain.Initialization
