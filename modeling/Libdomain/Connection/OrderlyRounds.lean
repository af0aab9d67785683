import Libdomain.Connection.Outline
import Libdomain.Connection.SchemaLoading

/-! # Orderly rounds

A round is a tick of the machine and a read pass. It is orderly if what the tick sends is
accepted and the server answers it in the pass. The outline of the connection determines which
rounds are orderly and what the machine goes by afterwards, and the code takes them so.
-/
namespace Libdomain.Connection
open Libdomain.Queue Libdomain.Program

/-- A tick and the pass over what it has asked for. -/
structure Round where
  input : TickInput
  responses : List Response

def Round.steps (x : Round) : List Step := [.tick x.input, .read x.responses]

def TickInput.Connected (i : TickInput) : Prop := ∃ fd, i.descriptor = some fd ∧ 0 ≤ fd

/-- The type a root DSE gives to a directory of unknown type. -/
def Response.detected (r : Response) : LdapDirectoryType :=
  let type := directoryOfChain .uninitialized r.chain
  if type = .uninitialized then .unknown else type

/-- The response answers a search, and the values of its entries are the given ones. -/
def Response.Brings (r : Response) (msgid : Int) (values : List Bytes) : Prop :=
  (r.rc = ldapResSearchEntry ∨ r.rc = ldapResSearchResult) ∧ r.msgid = msgid ∧
    ∃ entries, readEntries r = some entries ∧ schemaValues entries = values

/-- The first value describes a definition. -/
def Response.Defines (r : Response) (values : List Bytes) : Prop :=
  ∃ value ∈ values.head?, ∃ d ∈ r.parse value, d.Complete

/-- What the callback for definitions leaves in the schema, up to its first failure. -/
def enterDefinitions (kind : DefinitionKind) (parse : Bytes → Option SchemaDefinition) :
    List Bytes → LdapSchema → LdapSchema
  | [], schema => schema
  | value :: values, schema =>
    match parse value with
    | none => schema
    | some d =>
      let (appended, schema) := kind.append schema d
      if appended then enterDefinitions kind parse values schema else schema

/-- The schema entry path after the values have been looked at, up to the first empty one. -/
def enterPath : List Bytes → Option Bytes → Option Bytes
  | [], path => path
  | value :: values, _ => if value = [] then some value else enterPath values (some value)

def Profile.Ready (p : Profile) : Prop :=
  p.directoryType = .openldap → p.schema.objectClasses.Filled ∧ p.schema.attributeTypes.Filled

def Profile.Searches (p : Profile) : Prop :=
  p.directoryType = .openldap ∨ p.directoryType = .activeDirectory ∧ p.schemaEntryPath ≠ none

/-- The orderly rounds, and what the machine goes by after them. -/
inductive Orderly : Profile → Round → Profile → Prop
  | startTls {p i r rest} (state : p.stateMachine = .live .init) (tls : p.useStartTls = true)
      (sent : i.startTls.rc = ldapSuccess) (connected : i.Connected) (answered : r.rc = ldapResExtended)
      (installed : r.installTls = ldapSuccess ∨ r.installTls = ldapLocalError) :
      Orderly p ⟨i, r :: rest⟩ (p.enter .transportReady)
  | plain {p i rest} (state : p.stateMachine = .live .init) (tls : p.useStartTls = false) :
      Orderly p ⟨i, rest⟩ (p.enter .transportReady)
  | bindSimple {p i r rest} (state : p.stateMachine = .live .transportReady) (type : p.bindType = .simple)
      (sent : i.bind.rc = ldapSuccess) (connected : i.Connected) (answered : r.rc = ldapResBind)
      (succeeded : r.diagnostics.resultCode = some ldapSuccess) :
      Orderly p ⟨i, r :: rest⟩ (p.enter .detectDirectory)
  | bindInteractive {p i challenges r rest} (state : p.stateMachine = .live .transportReady)
      (type : p.bindType = .interactive) (sent : i.bind.rc ∈ BindType.interactive.accepts) (connected : i.Connected)
      (challenged : ∀ challenge ∈ challenges,
        challenge.rc = ldapResBind ∧ challenge.bind.rc = ldapSaslBindInProgress)
      (room : challenges.length < maxRequests) (answered : r.rc = ldapResBind) (succeeded : r.bind.rc = ldapSuccess) :
      Orderly p ⟨i, challenges ++ r :: rest⟩ (p.enter .bound)
  | bound {p i rest} (state : p.stateMachine = .live .bound) : Orderly p ⟨i, rest⟩ (p.enter .detectDirectory)
  | detect {p i r rest} (state : p.stateMachine = .live .detectDirectory) (type : p.directoryType = .uninitialized)
      (sent : i.directory.rc = ldapSuccess) (answered : r.rc = ldapResSearchEntry ∨ r.rc = ldapResSearchResult) :
      Orderly p ⟨i, r :: rest⟩ { p with directoryType := r.detected }
  | detected {p i rest} (state : p.stateMachine = .live .detectDirectory) (type : p.directoryType ≠ .uninitialized) :
      Orderly p ⟨i, rest⟩ (p.enter .requestSchema)
  | findSchema {p i r rest value values} (state : p.stateMachine = .live .requestSchema)
      (type : p.directoryType = .activeDirectory) (path : p.schemaEntryPath = none)
      (sent : i.firstSearch.rc = ldapSuccess) (answered : r.Brings i.firstSearch.msgid (value :: values)) :
      Orderly p ⟨i, r :: rest⟩ { p with schemaEntryPath := enterPath (value :: values) p.schemaEntryPath }
  | loadSchema {p i r r' rest values values'} (state : p.stateMachine = .live .requestSchema) (searches : p.Searches)
      (sent : i.firstSearch.rc = ldapSuccess) (sent' : i.secondSearch.rc = ldapSuccess)
      (answered : r.Brings i.firstSearch.msgid values) (answered' : r'.Brings i.secondSearch.msgid values')
      (defines : p.directoryType = .openldap → r.Defines values ∧ r'.Defines values') :
      Orderly p ⟨i, r :: r' :: rest⟩ { p.enter .checkSchema with
        schema := enterDefinitions .objectclass r'.parse values'
          (enterDefinitions .attributetype r.parse values p.schema) }
  | noSchema {p i rest} (state : p.stateMachine = .live .requestSchema) (type : p.directoryType = .unknown) :
      Orderly p ⟨i, rest⟩ (p.enter .checkSchema)
  | ready {p i rest} (state : p.stateMachine = .live .checkSchema) (ready : p.Ready) :
      Orderly p ⟨i, rest⟩ (p.enter .run)
  | unready {p i rest} (state : p.stateMachine = .live .checkSchema) (ready : ¬p.Ready) : Orderly p ⟨i, rest⟩ p
  | run {p i rest} (state : p.stateMachine = .live .run) : Orderly p ⟨i, rest⟩ p

variable {w w' : World} {p p' : Profile} {a : Agenda} {phase : Phase} {i : TickInput} {r : Response}

theorem ensures_ensureHandlers {descriptor : Option Int} (h : ∃ fd, descriptor = some fd ∧ 0 ≤ fd) :
    Ensures (World.At p a phase) (ensureHandlers descriptor) fun rc w => rc = .success ∧ w.At p a phase := by
  obtain ⟨fd, rfl, hfd⟩ := h
  have hadd : Ensures (World.At p a phase) vertoAddIo fun _ => World.At p a phase := by
    refine .read fun w _ => (ensures_emit _).bind fun _ => ?_
    refine Ensures.bind (ensures_modifyWorld (fun w _ => by constructor <;> rfl) fun _ h => h) fun _ => ?_
    exact .pure fun _ h => h
  unfold ensureHandlers
  refine .read fun w _ => ?_
  by_cases hinstalled : w.connection.handlersInstalled = true
  · rw [if_pos hinstalled]
    exact .pure fun _ hw => ⟨rfl, hw⟩
  · rw [if_neg hinstalled]
    unfold connectionInstallHandlers
    dsimp only
    rw [if_neg (by omega)]
    refine hadd.bind fun _ => ?_
    refine Ensures.bind (ensures_modifyConnection (fun w => by constructor <;> rfl) fun _ h => h) fun _ => ?_
    refine hadd.bind fun _ => ?_
    refine Ensures.bind (ensures_modifyConnection (fun w => by constructor <;> rfl) fun _ h => h) fun _ => ?_
    exact .pure fun _ hw => ⟨rfl, hw⟩

theorem ensures_trackWithHandlers (handler : OperationCallback) (msgid : Int) {descriptor : Option Int}
    (h : ∃ fd, descriptor = some fd ∧ 0 ≤ fd) (code : OperationReturnCode) (hroom : a.used < maxRequests) :
    Ensures (World.At p a phase) (trackWithHandlers handler msgid descriptor code)
      fun rc w => rc = code ∧ w.At p (a.ask handler) phase := by
  unfold trackWithHandlers
  refine (ensures_ensureHandlers h).bind_value ?_
  rw [if_neg (not_not.mpr rfl)]
  exact (ensures_track handler msgid hroom).bind fun _ => .pure fun _ hw => ⟨rfl, hw⟩

theorem ensures_connectionStartTls {sent : Sent} (hsent : sent.rc = ldapSuccess) (h : i.Connected)
    (hroom : a.used < maxRequests) :
    Ensures (World.At p a phase) (connectionStartTls sent i.descriptor)
      fun rc w => rc = .success ∧ w.At p (a.ask .connectionStartTlsOnRead) phase := by
  unfold connectionStartTls
  refine (ensures_call _).bind fun _ => ?_
  rw [if_neg (not_not.mpr hsent)]
  exact ensures_trackWithHandlers _ _ h _ hroom

theorem ensures_bindInvoked (c : LdapCall) (hdefaults : p.ldapDefaults = .live ()) {send : Action OperationReturnCode}
    {Q : OperationReturnCode → World → Prop} (h : Ensures (World.At p a phase) send Q) :
    Ensures (World.At p a phase) (do
      emit (.bindInvoked (← get).tlsInplace)
      let _ ← dereference (← get).connection.ldapDefaults
      call c
      send) Q := by
  refine .read fun w _ => (ensures_emit _).bind fun _ => ?_
  exact ensures_dereference (fun w hw => hw.ldapDefaults.trans hdefaults)
    ((ensures_call c).bind fun _ => h)

theorem ensures_connectionBind (hdefaults : p.ldapDefaults = .live ())
    (hsent : i.bind.rc ∈ p.bindType.accepts) (h : i.Connected) (hroom : a.used < maxRequests) :
    Ensures (World.At p a phase) (connectionBind i) fun rc w =>
      (rc = if p.bindType = .interactive ∧ i.bind.rc = ldapSaslBindInProgress then .operationInProgress else .success) ∧
        w.At p (a.ask .connectionBindOnRead) phase := by
  unfold connectionBind
  refine .read fun w hw => ?_
  rw [hw.bindType]
  cases htype : p.bindType with
  | interactive =>
    rw [htype] at hsent
    have hcodes : i.bind.rc = ldapSuccess ∨ i.bind.rc = ldapSaslBindInProgress := by
      simpa [BindType.accepts] using hsent
    refine ensures_bindInvoked .saslInteractiveBind hdefaults ?_
    rw [if_neg (by rcases hcodes with h | h <;> rw [h] <;> decide), if_neg (by tauto)]
    simpa using ensures_trackWithHandlers .connectionBindOnRead i.bind.msgid h _ hroom
  | simple =>
    rw [htype] at hsent
    have hcode : i.bind.rc = ldapSuccess := by simpa [BindType.accepts] using hsent
    refine ensures_bindInvoked .saslBind hdefaults ?_
    rw [if_neg (by rw [hcode]; decide), if_neg (not_not.mpr hcode)]
    simpa using ensures_trackWithHandlers .connectionBindOnRead i.bind.msgid h _ hroom

theorem ensures_enter {α : Type} {current state : LdapConnectionState} (hs : p.stateMachine = .live current)
    {act : Action α} {next : α → LdapConnectionState} {code : α → OperationReturnCode} {a' : Agenda}
    (h : Ensures (World.At p a phase) act fun v w => next v = state ∧ w.At p a' phase) :
    Ensures (World.At p a phase) (do let v ← act; csmSetState (next v); return code v)
      fun _ => World.At (p.enter state) a' phase := by
  refine h.bind fun v => .of_state fun w hw => ?_
  rw [hw.1]
  refine .consequence (P := World.At p a' phase) ?_ (by rintro _ rfl; exact hw.2) fun _ _ h => h
  exact (ensures_csmSetState hs state).bind fun _ => .pure fun _ hw => hw

theorem ensures_enter_now {current : LdapConnectionState} (hs : p.stateMachine = .live current)
    (state : LdapConnectionState) (code : OperationReturnCode) :
    Ensures (World.At p a phase) (do csmSetState state; return code) fun _ => World.At (p.enter state) a phase :=
  (ensures_csmSetState hs state).bind fun _ => .pure fun _ hw => hw

section Ticks

variable {state : LdapConnectionState}

theorem ensures_tick_startTls (hs : p.stateMachine = .live .init) (htls : p.useStartTls = true)
    (hsent : i.startTls.rc = ldapSuccess) (h : i.Connected) :
    Ensures (World.At p .empty .outside) (csmNextState i)
      fun _ => World.At (p.enter .tlsNegotiation) (Agenda.empty.ask .connectionStartTlsOnRead) .outside := by
  unfold csmNextState
  refine ensures_dereference (fun w hw => hw.stateMachine.trans hs) (.read fun w hw => ?_)
  rw [if_pos (hw.useStartTls.trans htls)]
  refine ensures_enter hs ((ensures_connectionStartTls hsent h (by decide)).consequence (fun _ h => h) ?_)
  rintro rc t ⟨rfl, ht⟩
  exact ⟨rfl, ht⟩

theorem ensures_tick_plain (hs : p.stateMachine = .live .init) (htls : p.useStartTls = false) :
    Ensures (World.At p a phase) (csmNextState i) fun _ => World.At (p.enter .transportReady) a phase := by
  unfold csmNextState
  refine ensures_dereference (fun w hw => hw.stateMachine.trans hs) (.read fun w hw => ?_)
  rw [if_neg (by rw [hw.useStartTls, htls]; decide)]
  exact ensures_enter_now hs _ _

theorem ensures_tick_bind (hs : p.stateMachine = .live .transportReady) (hdefaults : p.ldapDefaults = .live ())
    (hsent : i.bind.rc ∈ p.bindType.accepts) (h : i.Connected) :
    Ensures (World.At p .empty .outside) (csmNextState i) fun _ => World.At
      (p.enter (if p.bindType = .interactive ∧ i.bind.rc = ldapSaslBindInProgress then .bindInProgress
        else .detectDirectory)) (Agenda.empty.ask .connectionBindOnRead) .outside := by
  unfold csmNextState
  refine ensures_dereference (fun w hw => hw.stateMachine.trans hs) ?_
  refine (ensures_connectionBind hdefaults hsent h (by decide)).bind fun rc => .of_state fun w hw => ?_
  have hstate : stateAfterBind rc = if p.bindType = .interactive ∧ i.bind.rc = ldapSaslBindInProgress then
      .bindInProgress else .detectDirectory := by
    rw [hw.1]
    split_ifs <;> rfl
  rw [hstate]
  refine .consequence (P := World.At p _ .outside) ?_ (by rintro _ rfl; exact hw.2) fun _ _ h => h
  exact (ensures_emit _).bind fun _ => ensures_enter_now hs _ _

theorem ensures_tick_bound (hs : p.stateMachine = .live .bound) :
    Ensures (World.At p a phase) (csmNextState i) fun _ => World.At (p.enter .detectDirectory) a phase := by
  unfold csmNextState
  exact ensures_dereference (fun w hw => hw.stateMachine.trans hs) (ensures_enter_now hs _ _)

theorem ensures_tick_detect (hs : p.stateMachine = .live .detectDirectory) (htype : p.directoryType = .uninitialized)
    (hsent : i.directory.rc = ldapSuccess) :
    Ensures (World.At p .empty .outside) (csmNextState i)
      fun _ => World.At (p.enter .detectDirectory) (Agenda.empty.ask .directoryParseResult) .outside := by
  unfold csmNextState
  refine ensures_dereference (fun w hw => hw.stateMachine.trans hs) (.read fun w hw => ?_)
  rw [if_pos (hw.directoryType.trans htype)]
  refine ensures_enter hs ((ensures_submit _ _ hsent (by decide)).consequence (fun _ h => h) ?_)
  rintro rc t ⟨rfl, ht⟩
  exact ⟨rfl, ht⟩

theorem ensures_tick_detected (hs : p.stateMachine = .live .detectDirectory)
    (htype : p.directoryType ≠ .uninitialized) :
    Ensures (World.At p a phase) (csmNextState i) fun _ => World.At (p.enter .requestSchema) a phase := by
  unfold csmNextState
  refine ensures_dereference (fun w hw => hw.stateMachine.trans hs) (.read fun w hw => ?_)
  rw [if_neg (by rw [hw.directoryType]; exact htype)]
  exact ensures_enter_now hs _ _

def Agenda.definitions (first second : Int) : Agenda where
  queue := [.searchOnRead, .searchOnRead]
  used := 2
  table := [⟨first, some .attributeTypesSearchCallback, .schema⟩, ⟨second, some .objectClassesSearchCallback, .schema⟩]

theorem ensures_searchDefinitions (base : Bytes) {first second : Sent} (hfirst : first.rc = ldapSuccess)
    (hsecond : second.rc = ldapSuccess) :
    Ensures (World.At p .empty phase) (searchDefinitions base first second)
      fun rc w => rc = .success ∧ w.At p (.definitions first.msgid second.msgid) phase := by
  unfold searchDefinitions
  refine (ensures_search _ _ _ hfirst (by decide) (by decide)).bind_value ?_
  rw [if_neg (not_not.mpr rfl)]
  refine Ensures.bind_value (ensures_search _ _ _ hsecond (show 1 < maxRequests by decide)
    (show 2 < maxRequests by decide)) ?_
  rw [if_neg (not_not.mpr rfl)]
  exact .pure fun _ hw => ⟨rfl, hw⟩

theorem ensures_ldapSchemaLoad_path {first second : Sent} (htype : p.directoryType = .activeDirectory)
    (hpath : p.schemaEntryPath = none) (hsent : first.rc = ldapSuccess) :
    Ensures (World.At p .empty phase) (ldapSchemaLoad first second) fun rc w => rc = .operationInProgress ∧
      w.At p ((Agenda.empty.ask .searchOnRead).register
        ⟨first.msgid, some .subschemaSubentrySearchCallback, .schema⟩) phase := by
  unfold ldapSchemaLoad schemaLoadActiveDirectory
  refine .read fun w hw => ?_
  rw [hw.directoryType, htype]
  refine .read fun w hw => ?_
  rw [hw.schemaEntryPath, hpath]
  refine (ensures_search _ _ _ hsent (by decide) (by decide)).bind_value ?_
  rw [if_neg (not_not.mpr rfl)]
  exact .pure fun _ hw => ⟨rfl, hw⟩

theorem ensures_ldapSchemaLoad_definitions {first second : Sent} (h : p.Searches) (hfirst : first.rc = ldapSuccess)
    (hsecond : second.rc = ldapSuccess) :
    Ensures (World.At p .empty phase) (ldapSchemaLoad first second)
      fun rc w => rc = .success ∧ w.At p (.definitions first.msgid second.msgid) phase := by
  unfold ldapSchemaLoad
  refine .read fun w hw => ?_
  rw [hw.directoryType]
  rcases h with htype | ⟨htype, hpath⟩
  · rw [htype]
    exact ensures_searchDefinitions _ hfirst hsecond
  · obtain ⟨path, hpath⟩ := Option.ne_none_iff_exists'.mp hpath
    rw [htype]
    unfold schemaLoadActiveDirectory
    refine .read fun w hw => ?_
    rw [hw.schemaEntryPath, hpath]
    exact ensures_searchDefinitions path hfirst hsecond

theorem ensures_ldapSchemaLoad_unknown {first second : Sent} (htype : p.directoryType = .unknown) :
    Ensures (World.At p a phase) (ldapSchemaLoad first second) fun rc w => rc = .success ∧ w.At p a phase := by
  unfold ldapSchemaLoad
  refine .read fun w hw => ?_
  rw [hw.directoryType, htype]
  exact .pure fun _ hw => ⟨rfl, hw⟩

theorem ensures_tick_requestSchema {a' : Agenda} {rc : OperationReturnCode} {state : LdapConnectionState}
    (hstate : (match rc with | .success => .checkSchema | .operationInProgress => .requestSchema | _ => .error) = state)
    (hs : p.stateMachine = .live .requestSchema)
    (h : Ensures (World.At p a .outside) (ldapSchemaLoad i.firstSearch i.secondSearch)
      fun code w => code = rc ∧ w.At p a' .outside) :
    Ensures (World.At p a .outside) (csmNextState i) fun _ => World.At (p.enter state) a' .outside := by
  unfold csmNextState
  refine ensures_dereference (fun w hw => hw.stateMachine.trans hs) (ensures_enter hs (h.consequence (fun _ h => h) ?_))
  rintro code w ⟨rfl, hw⟩
  exact ⟨hstate, hw⟩

theorem ldapSchemaReady_iff (h : w.At p a phase) : ldapSchemaReady w.connection = true ↔ p.Ready := by
  unfold ldapSchemaReady Profile.Ready
  rw [h.directoryType, h.schema]
  cases p.directoryType <;> simp [DefinitionTables.Filled]

theorem ensures_tick_checkSchema (hs : p.stateMachine = .live .checkSchema) :
    Ensures (World.At p a phase) (csmNextState i)
      fun _ w => (p.Ready → w.At (p.enter .run) a phase) ∧ (¬p.Ready → w.At p a phase) := by
  unfold csmNextState
  refine ensures_dereference (fun w hw => hw.stateMachine.trans hs) (.read fun w hw => ?_)
  by_cases hready : p.Ready
  · rw [if_pos ((ldapSchemaReady_iff hw).mpr hready)]
    exact (ensures_enter_now hs _ _).consequence (fun _ h => h) fun _ _ h => ⟨fun _ => h, fun hn => absurd hready hn⟩
  · rw [if_neg fun h => hready ((ldapSchemaReady_iff hw).mp h)]
    exact .pure fun _ h => ⟨fun hr => absurd hr hready, fun _ => h⟩

theorem ensures_tick_run (hs : p.stateMachine = .live .run) :
    Ensures (World.At p a phase) (csmNextState i) fun _ => World.At p a phase := by
  unfold csmNextState
  refine ensures_dereference (fun w hw => hw.stateMachine.trans hs) ?_
  refine Ensures.bind (ensures_modifyConnection (fun w => by constructor <;> rfl) fun _ h => h) fun _ => ?_
  exact .pure fun _ h => h

end Ticks

section Answers

variable {current : LdapConnectionState}

theorem ensures_ensureTls (code : Int) :
    Ensures (World.At p a phase) (ensureTls code) fun rc w => (rc = ldapSuccess ∨ rc = code) ∧ w.At p a phase := by
  unfold ensureTls
  refine .read fun w _ => ?_
  by_cases htls : w.tlsInplace = true
  · rw [if_pos htls]
    exact .pure fun _ hw => ⟨.inl rfl, hw⟩
  · rw [if_neg htls]
    unfold ldapInstallTls
    refine (ensures_call _).bind fun _ => (ensures_emit _).bind fun _ => ?_
    by_cases hcode : code = ldapSuccess
    · rw [if_pos hcode]
      refine Ensures.bind (ensures_modifyWorld (fun w _ => by constructor <;> rfl) fun _ h => h) fun _ => ?_
      exact .pure fun _ hw => ⟨.inr rfl, hw⟩
    · rw [if_neg hcode]
      exact .pure fun _ hw => ⟨.inr rfl, hw⟩

theorem ensures_connectionStartTlsOnRead (hs : p.stateMachine = .live current) (hrc : r.rc = ldapResExtended)
    (hinstall : r.installTls = ldapSuccess ∨ r.installTls = ldapLocalError) :
    Ensures (World.At p a phase) (connectionStartTlsOnRead r)
      fun _ => World.At (p.enter .transportReady) a phase := by
  unfold connectionStartTlsOnRead
  rw [if_pos hrc]
  refine (ensures_ensureTls r.installTls).bind fun rc => .of_state fun w hw => ?_
  have hdone : ¬(rc ≠ ldapSuccess ∧ rc ≠ ldapLocalError) := by
    rcases hw.1 with rfl | rfl
    · tauto
    · tauto
  rw [if_neg hdone]
  exact (ensures_enter_now hs _ _).consequence (by rintro _ rfl; exact hw.2) fun _ _ h => h

theorem ensures_connectionBindOnRead_simple (htype : p.bindType = .simple) (hrc : r.rc = ldapResBind)
    (hcode : r.diagnostics.resultCode = some ldapSuccess) :
    Ensures (World.At p a phase) (connectionBindOnRead r) fun _ => World.At p a phase := by
  unfold connectionBindOnRead
  rw [if_pos hrc]
  refine .read fun w hw => ?_
  dsimp only
  rw [hw.bindType, htype]
  refine (ensures_emit _).bind fun _ => ?_
  unfold bindOutcome
  rw [if_neg (by rw [hrc]; decide), if_neg (by rw [hrc]; decide), hcode]
  dsimp only
  rw [if_neg (by simp)]
  exact .pure fun _ hw => hw

theorem ensures_connectionBindOnRead_interactive {Q : OperationReturnCode → World → Prop}
    (hdefaults : p.ldapDefaults = .live ()) (htype : p.bindType = .interactive) (hrc : r.rc = ldapResBind)
    (h : Ensures (World.At p a phase) (bindOutcome r.bind.rc r) Q) :
    Ensures (World.At p a phase) (connectionBindOnRead r) Q := by
  unfold connectionBindOnRead
  rw [if_pos hrc]
  refine .read fun w hw => ?_
  dsimp only
  rw [hw.bindType, htype, hw.ldapDefaults, hdefaults]
  refine Ensures.bind (Q := fun _ => World.At p a phase) (fun t ht => ⟨(), t, rfl, ht⟩) fun _ => ?_
  refine (ensures_call _).bind fun _ => (ensures_emit _).bind fun _ => ?_
  exact Ensures.bind (ensures_modifyConnection (fun w => by constructor <;> rfl) fun _ h => h) fun _ => h

theorem ensures_bindOutcome_challenge {rc : Int} (hrc : rc = ldapSaslBindInProgress) (hroom : a.used < maxRequests) :
    Ensures (World.At p a phase) (bindOutcome rc r) fun _ => World.At p (a.ask .connectionBindOnRead) phase := by
  unfold bindOutcome
  rw [if_pos hrc]
  exact .read fun w _ => (ensures_track _ _ hroom).bind fun _ => .pure fun _ hw => hw

theorem ensures_bindOutcome_success {rc : Int} (hs : p.stateMachine = .live current) (hrc : rc = ldapSuccess) :
    Ensures (World.At p a phase) (bindOutcome rc r) fun _ => World.At (p.enter .bound) a phase := by
  unfold bindOutcome
  rw [if_neg (by rw [hrc]; decide), if_pos hrc]
  exact ensures_enter_now hs _ _

theorem ensures_directoryParseResult (htype : p.directoryType = .uninitialized)
    (hrc : r.rc = ldapResSearchEntry ∨ r.rc = ldapResSearchResult) :
    Ensures (World.At p a phase) (directoryParseResult r)
      fun _ => World.At { p with directoryType := r.detected } a phase := by
  unfold directoryParseResult
  rw [if_pos hrc]
  refine Ensures.bind (ensures_modifyConnection (fun w => by constructor <;> rfl) fun w hw => ?_)
    fun _ => .pure fun _ h => h
  subst hw
  rw [Response.detected, ← htype]
  rfl

theorem ensures_ldapSchemaCallbackCommon {callback : Bytes → Action OperationReturnCode} {entries : List LdEntry}
    {P : World → Prop} {Q : OperationReturnCode → World → Prop}
    (hkeeps : ∀ value, Keeps (fun _ => True) (fun _ => False) (callback value))
    (hentries : ∀ entry ∈ entries, entry.Valued)
    (h : Ensures P (untilFailure callback (schemaValues entries)) Q) :
    Ensures P (ldapSchemaCallbackCommon callback entries) Q := by
  intro w hw
  obtain ⟨code, t, he, -⟩ := (keeps_ldapSchemaCallbackCommon hkeeps hentries).ensures w trivial
  obtain ⟨code', t', he', hpost⟩ := h w hw
  rw [exec_ldapSchemaCallbackCommon he] at he'
  cases he'
  exact ⟨code, t, he, hpost⟩

theorem ensures_appendValueCallback (kind : DefinitionKind) {parse : Bytes → Option SchemaDefinition} {value : Bytes}
    {d : SchemaDefinition} (h : parse value = some d) :
    Ensures (World.At p a phase) (appendValueCallback kind.append parse value) fun code w =>
      code = (if (kind.append p.schema d).1 then .success else .failure) ∧
        w.At { p with schema := (kind.append p.schema d).2 } a phase := by
  intro w hw
  refine ⟨_, _, exec_appendValueCallback h w, by rw [hw.schema], hw.congr (by constructor <;> rfl) ?_⟩
  rw [← hw.profile]
  rfl

theorem ensures_appendValues (kind : DefinitionKind) (parse : Bytes → Option SchemaDefinition) (values : List Bytes) :
    Ensures (World.At p a phase) (untilFailure (appendValueCallback kind.append parse) values)
      fun _ => World.At { p with schema := enterDefinitions kind parse values p.schema } a phase := by
  induction values generalizing p with
  | nil => exact .pure fun _ h => h
  | cons value values ih =>
    rw [untilFailure, enterDefinitions]
    cases hparse : parse value with
    | none =>
      unfold appendValueCallback
      rw [hparse]
      exact .pure fun _ h => h
    | some d =>
      refine (ensures_appendValueCallback kind hparse).bind_value ?_
      dsimp only
      by_cases happended : (kind.append p.schema d).1 = true
      · rw [if_pos happended, if_pos happended, if_neg (by decide)]
        exact ih
      · rw [if_neg happended, if_neg happended, if_pos rfl]
        exact .pure fun _ h => h

theorem ensures_enterPath (values : List Bytes) :
    Ensures (World.At p a phase) (untilFailure subschemaSubentryCallback values)
      fun _ => World.At { p with schemaEntryPath := enterPath values p.schemaEntryPath } a phase := by
  induction values generalizing p with
  | nil => exact .pure fun _ h => h
  | cons value values ih =>
    rw [untilFailure, enterPath]
    have hvalue : Ensures (World.At p a phase) (subschemaSubentryCallback value) fun code w =>
        code = (if value = [] then .failure else .success) ∧ w.At { p with schemaEntryPath := some value } a phase := by
      intro w hw
      refine ⟨_, _, rfl, rfl, hw.congr (by constructor <;> rfl) ?_⟩
      rw [← hw.profile]
      rfl
    refine hvalue.bind_value ?_
    by_cases hempty : value = []
    · rw [if_pos hempty, if_pos hempty, if_pos rfl]
      exact .pure fun _ h => h
    · rw [if_neg hempty, if_neg hempty, if_neg (by decide)]
      exact ih

theorem ensures_callSearchCallback_definitions (kind : DefinitionKind) {entries : List LdEntry}
    (h : readEntries r = some entries) :
    Ensures (World.At p a phase) (callSearchCallback kind.callback entries r) fun _ =>
      World.At { p with schema := enterDefinitions kind r.parse (schemaValues entries) p.schema } a phase := by
  have hcommon : callSearchCallback kind.callback entries r =
      ldapSchemaCallbackCommon (appendValueCallback kind.append r.parse) entries := by cases kind <;> rfl
  rw [hcommon]
  refine ensures_ldapSchemaCallbackCommon (fun value => ?_) (valued_readEntries h) (ensures_appendValues kind _ _)
  intro w _
  cases hparse : r.parse value with
  | none =>
    unfold appendValueCallback
    rw [hparse]
    exact ⟨trivial, by simp⟩
  | some d =>
    rw [exec_appendValueCallback hparse]
    exact ⟨trivial, by simp⟩

theorem ensures_callSearchCallback_path {entries : List LdEntry} (h : readEntries r = some entries) :
    Ensures (World.At p a phase) (callSearchCallback .subschemaSubentrySearchCallback entries r) fun _ =>
      World.At { p with schemaEntryPath := enterPath (schemaValues entries) p.schemaEntryPath } a phase :=
  ensures_ldapSchemaCallbackCommon (fun _ _ _ => ⟨trivial, fun _ he => by cases he⟩)
    (valued_readEntries h) (ensures_enterPath _)

theorem findSearchRequest_head {c : LdapConnectionCtx} {request : LdapSearchRequest} {rest : List LdapSearchRequest}
    (h : c.table = request :: rest) : c.searchRequests 0 = request ∧ c.findSearchRequest request.msgid = some 0 := by
  have hn : c.nSearchRequests = rest.length + 1 := by
    rw [← length_table, h, List.length_cons]
  rw [LdapConnectionCtx.table, hn, List.range_succ_eq_map, List.map_cons] at h
  obtain ⟨hhead, -⟩ := List.cons.inj h
  refine ⟨hhead, ?_⟩
  rw [LdapConnectionCtx.findSearchRequest, hn, List.range_succ_eq_map, List.find?_cons_of_pos]
  rw [hhead]
  exact decide_eq_true rfl

theorem ensures_connectionRemoveSearchRequest {index : ℕ} (h : index < a.table.length) :
    Ensures (World.At p a phase) (connectionRemoveSearchRequest index) fun _ =>
      World.At p { a with table := removeEntry a.used index a.table } phase := by
  unfold connectionRemoveSearchRequest
  refine .read fun w hw => ?_
  have hlt : index < w.connection.nSearchRequests := hw.plans.length_table ▸ h
  obtain ⟨l, htracks, -⟩ := hw.plans
  have hwrite : Ensures (World.At p a phase)
      ((w.connection.writtenSearches index).forM (selectIndex .searchRequests)) fun _ => World.At p a phase := by
    refine .forM fun i hi t ht => ?_
    have hi : i < maxRequests := lt_trans (LdapConnectionCtx.writtenSearches_lt hlt hi) htracks.tableRoom
    exact ⟨(), _, exec_selectIndex hi t, ht.congr (by constructor <;> rfl) ht.profile⟩
  refine hwrite.bind fun _ t ht => ⟨(), _, rfl, ?_⟩
  obtain ⟨l, htracks, hpending, hqueue, hused, htable⟩ := ht.plans
  refine ⟨?_, ⟨_, htracks.removed (ht.plans.length_table ▸ h), hpending, hqueue, hused, ?_⟩, ht.phase⟩
  · obtain ⟨searchRequests, he⟩ := t.connection.removeSearchRequest_eq index
    change (t.removed index).profile = p
    rw [World.removed, he]
    exact ht.profile
  · dsimp only
    rw [hused, htable]

theorem ensures_searchOnRead {callback : SearchCallback} {request : LdapSearchRequest}
    {rest : List LdapSearchRequest} {entries : List LdEntry}
    (hrc : r.rc = ldapResSearchEntry ∨ r.rc = ldapResSearchResult) (htable : a.table = request :: rest)
    (hid : r.msgid = request.msgid) (hcallback : request.onSearchOperation = some callback)
    (hentries : readEntries r = some entries)
    (h : Ensures (World.At p a phase) (callSearchCallback callback entries r) fun _ => World.At p' a phase) :
    Ensures (World.At p a phase) (searchOnRead r) fun _ =>
      World.At p' { a with table := removeEntry a.used 0 a.table } phase := by
  unfold searchOnRead
  rw [if_pos hrc]
  refine .read fun w hw => ?_
  rw [hid, (findSearchRequest_head (hw.plans.table.trans htable)).2]
  unfold answerSearch
  refine .read fun w hw => ?_
  dsimp only
  rw [(findSearchRequest_head (hw.plans.table.trans htable)).1, hcallback, hentries]
  refine (ensures_emit _).bind fun _ => h.bind fun _ => ?_
  exact (ensures_connectionRemoveSearchRequest (by rw [htable]; simp)).bind fun _ => .pure fun _ h => h

end Answers

section Rounds

variable {responses : List Response} {n : ℕ} {table : List LdapSearchRequest} {state : LdapConnectionState}

theorem ensures_steps {p₁ : Profile}
    (htick : Ensures (World.At p .empty .outside) (csmNextState i) fun _ => World.At p₁ a .outside)
    (hread : Ensures (World.At p₁ a .reading) (readLoop responses)
      fun more w => more = true ∧ w.At p' ⟨[], n, []⟩ .reading) :
    Ensures (World.At p .empty .outside) (performSteps (Round.steps ⟨i, responses⟩))
      fun _ => World.At p' .empty .outside := by
  have hticked : Ensures (World.At p .empty .outside) (Step.perform (.tick i)) fun _ => World.At p₁ a .outside :=
    htick.bind fun _ => .pure fun _ h => h
  exact hticked.bind fun _ => (ensures_connectionOnRead hread).bind fun _ => .pure fun _ h => h

theorem ensures_steps_nothing (htick : Ensures (World.At p .empty .outside) (csmNextState i)
      fun _ => World.At p' .empty .outside) :
    Ensures (World.At p .empty .outside) (performSteps (Round.steps ⟨i, responses⟩))
      fun _ => World.At p' .empty .outside :=
  ensures_steps htick ensures_readLoop_nil

theorem ensures_readLoop_one {handler : OperationCallback} {b : Agenda} (hany : r.rc ≠ ldapResAny)
    (hnone : r.rc ≠ ldapResUnsolicited) (hagenda : b.queue = [])
    (hhandle : Ensures (World.At p ⟨[], n, table⟩ .serving) (handler.handle r) fun _ => World.At p' b .serving) :
    Ensures (World.At p ⟨[handler], n, table⟩ .reading) (readLoop (r :: responses))
      fun more w => more = true ∧ w.At p' ⟨[], b.used, b.table⟩ .reading := by
  refine ensures_readLoop_cons hany hnone hhandle ?_
  rw [show b = ⟨[], b.used, b.table⟩ by rw [← hagenda]]
  exact ensures_readLoop_nil

theorem answered_ne (h : r.rc = ldapResSearchEntry ∨ r.rc = ldapResSearchResult) :
    r.rc ≠ ldapResAny ∧ r.rc ≠ ldapResUnsolicited := by
  rcases h with h | h <;> rw [h] <;> decide

/-- Each challenge is answered by a request of its own. -/
theorem ensures_readLoop_challenges {challenges : List Response} (hdefaults : p.ldapDefaults = .live ())
    (hs : p.stateMachine = .live state) (htype : p.bindType = .interactive)
    (hchallenges : ∀ challenge ∈ challenges,
      challenge.rc = ldapResBind ∧ challenge.bind.rc = ldapSaslBindInProgress)
    (hroom : n + challenges.length ≤ maxRequests) (hrc : r.rc = ldapResBind) (hsuccess : r.bind.rc = ldapSuccess) :
    Ensures (World.At p ⟨[.connectionBindOnRead], n, table⟩ .reading) (readLoop (challenges ++ r :: responses))
      fun more w => more = true ∧ w.At (p.enter .bound) ⟨[], n + challenges.length, table⟩ .reading := by
  induction challenges generalizing n with
  | nil =>
    refine ensures_readLoop_one (b := ⟨[], n, table⟩) (by rw [hrc]; decide) (by rw [hrc]; decide) rfl ?_
    exact ensures_connectionBindOnRead_interactive hdefaults htype hrc (ensures_bindOutcome_success hs hsuccess)
  | cons challenge challenges ih =>
    rw [List.length_cons] at hroom
    obtain ⟨hbind, hprogress⟩ := hchallenges challenge List.mem_cons_self
    have hnext := ih (n := n + 1) (fun c hc => hchallenges c (List.mem_cons_of_mem _ hc)) (by omega)
    rw [show n + 1 + challenges.length = n + (challenge :: challenges).length by rw [List.length_cons]; omega] at hnext
    refine ensures_readLoop_cons (by rw [hbind]; decide) (by rw [hbind]; decide) ?_ hnext
    refine ensures_connectionBindOnRead_interactive hdefaults htype hbind ?_
    exact ensures_bindOutcome_challenge hprogress (show n < maxRequests by omega)

/-- The values of both answers enter the schema, whatever they define. -/
theorem ensures_loadRound {r' : Response} {rest : List Response} {values values' : List Bytes}
    (state : p.stateMachine = .live .requestSchema) (searches : p.Searches) (sent : i.firstSearch.rc = ldapSuccess)
    (sent' : i.secondSearch.rc = ldapSuccess) (answered : r.Brings i.firstSearch.msgid values)
    (answered' : r'.Brings i.secondSearch.msgid values') :
    Ensures (World.At p .empty .outside) (performSteps (Round.steps ⟨i, r :: r' :: rest⟩)) fun _ =>
      World.At { p.enter .checkSchema with
        schema := enterDefinitions .objectclass r'.parse values'
          (enterDefinitions .attributetype r.parse values p.schema) } .empty .outside := by
  obtain ⟨hrc, hid, entries, hentries, rfl⟩ := answered
  obtain ⟨hrc', hid', entries', hentries', rfl⟩ := answered'
  have htick := ensures_tick_requestSchema rfl state (ensures_ldapSchemaLoad_definitions searches sent sent')
  refine ensures_steps (n := 2) htick ?_
  refine ensures_readLoop_cons (answered_ne hrc).1 (answered_ne hrc).2 (ensures_searchOnRead hrc rfl hid rfl hentries
    (ensures_callSearchCallback_definitions .attributetype hentries)) ?_
  exact ensures_readLoop_one (b := ⟨[], 2, []⟩) (answered_ne hrc').1 (answered_ne hrc').2 rfl
    (ensures_searchOnRead hrc' rfl hid' rfl hentries' (ensures_callSearchCallback_definitions .objectclass hentries'))

/-- The code takes an orderly round as it is meant. -/
theorem ensures_round {x : Round} (h : Orderly p x p') (hdefaults : p.ldapDefaults = .live ()) :
    Ensures (World.At p .empty .outside) (performSteps x.steps) fun _ => World.At p' .empty .outside := by
  cases h with
  | startTls state tls sent connected answered installed =>
    refine ensures_steps (n := 1) (ensures_tick_startTls state tls sent connected) ?_
    refine ensures_readLoop_one (b := ⟨[], 1, []⟩) (by rw [answered]; decide) (by rw [answered]; decide) rfl ?_
    exact ensures_connectionStartTlsOnRead rfl answered installed
  | plain state tls => exact ensures_steps_nothing (ensures_tick_plain state tls)
  | bindSimple state type sent connected answered succeeded =>
    have htick := ensures_tick_bind state hdefaults (by rw [type, sent]; decide) connected
    rw [if_neg (by rw [type]; simp)] at htick
    refine ensures_steps (n := 1) htick ?_
    refine ensures_readLoop_one (b := ⟨[], 1, []⟩) (by rw [answered]; decide) (by rw [answered]; decide) rfl ?_
    exact ensures_connectionBindOnRead_simple type answered succeeded
  | @bindInteractive i challenges r rest state type sent connected challenged room answered succeeded =>
    refine ensures_steps (n := 1 + challenges.length) (ensures_tick_bind state hdefaults (type ▸ sent) connected) ?_
    exact ensures_readLoop_challenges (p := p.enter _) (n := 1) hdefaults rfl type challenged (by omega) answered
      succeeded
  | bound state => exact ensures_steps_nothing (ensures_tick_bound state)
  | detect state type sent answered =>
    have hp : p.enter .detectDirectory = p := by rw [Profile.enter, ← state]
    have htick := ensures_tick_detect state type sent
    rw [hp] at htick
    refine ensures_steps (n := 1) htick ?_
    exact ensures_readLoop_one (b := ⟨[], 1, []⟩) (answered_ne answered).1 (answered_ne answered).2 rfl
      (ensures_directoryParseResult type answered)
  | detected state type => exact ensures_steps_nothing (ensures_tick_detected state type)
  | findSchema state type path sent answered =>
    obtain ⟨hrc, hid, entries, hentries, hvalues⟩ := answered
    have hp : p.enter .requestSchema = p := by rw [Profile.enter, ← state]
    have htick := ensures_tick_requestSchema rfl state (ensures_ldapSchemaLoad_path type path sent)
    rw [hp] at htick
    refine ensures_steps (n := 1) htick ?_
    refine ensures_readLoop_one (b := ⟨[], 1, []⟩) (answered_ne hrc).1 (answered_ne hrc).2 rfl ?_
    refine ensures_searchOnRead hrc rfl hid rfl hentries ?_
    rw [← hvalues]
    exact ensures_callSearchCallback_path hentries
  | loadSchema state searches sent sent' answered answered' =>
    exact ensures_loadRound state searches sent sent' answered answered'
  | noSchema state type =>
    exact ensures_steps_nothing (ensures_tick_requestSchema rfl state (ensures_ldapSchemaLoad_unknown type))
  | ready state ready =>
    exact ensures_steps_nothing ((ensures_tick_checkSchema state).consequence (fun _ h => h) fun _ _ h => h.1 ready)
  | unready state ready =>
    exact ensures_steps_nothing ((ensures_tick_checkSchema state).consequence (fun _ h => h) fun _ _ h => h.2 ready)
  | run state => exact ensures_steps_nothing (ensures_tick_run state)

end Rounds

end Libdomain.Connection
