import Libdomain.Connection.OrderlyRounds
import Libdomain.Connection.Reconnect
import Libdomain.Program.Runs

/-! # Progress of the state machine

Each orderly round brings the machine closer to running, from a connection that has been
configured as well as from one that has been reconfigured after an error.
-/
namespace Libdomain.Connection
open Libdomain.Queue Libdomain.Program

variable {w w' : World} {p p' : Profile} {i : TickInput} {r : Response}

/-- How many orderly rounds the machine is away from running, at most. -/
def Profile.rank (p : Profile) : ℕ :=
  match p.stateMachine with
  | .live .init => 8
  | .live .transportReady => 7
  | .live .bound => 6
  | .live .detectDirectory => if p.directoryType = .uninitialized then 5 else 4
  | .live .requestSchema => if p.directoryType = .activeDirectory ∧ p.schemaEntryPath = none then 3 else 2
  | .live .checkSchema => 1
  | _ => 0

def LdapConnectionState.OnItsWay : LdapConnectionState → Prop
  | .tlsNegotiation | .bindInProgress | .error => False
  | _ => True

/-- Nothing has gone wrong, the schema is searched for in a directory that has been detected, and can be
used once it is checked. -/
structure Profile.OnItsWay (p : Profile) : Prop where
  ldapDefaults : p.ldapDefaults = .live ()
  state : ∃ state, p.stateMachine = .live state ∧ state.OnItsWay
  type : p.directoryType ≠ .freeIpa
  detected : p.stateMachine = .live .requestSchema → p.directoryType ≠ .uninitialized
  ready : p.stateMachine = .live .checkSchema → p.Ready

theorem Profile.OnItsWay.enter (h : p.OnItsWay) {state : LdapConnectionState} (hs : state.OnItsWay)
    (hdetected : state = .requestSchema → p.directoryType ≠ .uninitialized) (hready : state = .checkSchema → p.Ready) :
    (p.enter state).OnItsWay where
  ldapDefaults := h.ldapDefaults
  state := ⟨state, rfl, hs⟩
  type := h.type
  detected := fun he => hdetected (Pointer.live.inj he)
  ready := fun he => hready (Pointer.live.inj he)

theorem Profile.OnItsWay.run_of_rank (h : p.OnItsWay) (hr : p.rank = 0) : p.stateMachine = .live .run := by
  obtain ⟨state, hs, hway⟩ := h.state
  rw [Profile.rank, hs] at hr
  cases state with
  | run => exact hs
  | tlsNegotiation | bindInProgress | error => exact hway.elim
  | init | transportReady | bound | checkSchema => simp at hr
  | detectDirectory | requestSchema =>
    dsimp only at hr
    split_ifs at hr

theorem within_enterDefinitions (kind other : DefinitionKind) (parse : Bytes → Option SchemaDefinition)
    (values : List Bytes) (schema : LdapSchema) :
    (schema.tables other).Within ((enterDefinitions kind parse values schema).tables other) := by
  induction values generalizing schema with
  | nil => exact .refl _
  | cons value values ih =>
    rw [enterDefinitions]
    cases parse value with
    | none => exact .refl _
    | some d =>
      dsimp only
      split_ifs
      · exact (within_append kind other schema d).trans (ih _)
      · exact within_append kind other schema d

theorem filled_enterDefinitions (kind : DefinitionKind) {values : List Bytes} (h : r.Defines values)
    (schema : LdapSchema) : ((enterDefinitions kind r.parse values schema).tables kind).Filled := by
  obtain ⟨value, hvalue, d, hparse, hcomplete⟩ := h
  obtain ⟨rest, rfl⟩ := List.head?_eq_some_iff.mp hvalue
  have hknown : ((kind.append schema d).2.tables kind).Filled := (knows_append schema hcomplete).filled
  rw [enterDefinitions, hparse]
  dsimp only
  split_ifs
  · exact (within_enterDefinitions kind kind r.parse rest _).filled hknown
  · exact hknown

theorem enterPath_ne_none (value : Bytes) (values : List Bytes) (path : Option Bytes) :
    enterPath (value :: values) path ≠ none := by
  induction values generalizing value path with
  | nil =>
    rw [enterPath]
    split_ifs <;> simp [enterPath]
  | cons next values ih =>
    rw [enterPath]
    split_ifs
    · simp
    · exact ih next _

theorem directoryOfChain_ne_freeIpa (chain : List LdapMessage) {type : LdapDirectoryType} (h : type ≠ .freeIpa) :
    directoryOfChain type chain ≠ .freeIpa := by
  induction chain generalizing type with
  | nil => exact h
  | cons message chain ih =>
    refine ih ?_
    dsimp only
    cases hmarker : message.attributes.findSome? fun a => directoryProcessAttribute a.1 with
    | none => exact h
    | some marked =>
      obtain ⟨a, -, ha⟩ := List.exists_of_findSome?_eq_some hmarker
      unfold directoryProcessAttribute at ha
      split_ifs at ha <;> cases ha <;> simp

theorem Response.detected_ne (r : Response) : r.detected ≠ .uninitialized ∧ r.detected ≠ .freeIpa := by
  rw [Response.detected]
  split_ifs with h
  · decide
  · exact ⟨h, directoryOfChain_ne_freeIpa r.chain (by decide)⟩

theorem Profile.rank_detectDirectory (h : p.stateMachine = .live .detectDirectory) :
    p.rank = if p.directoryType = .uninitialized then 5 else 4 := by rw [Profile.rank, h]

theorem Profile.rank_requestSchema (h : p.stateMachine = .live .requestSchema) :
    p.rank = if p.directoryType = .activeDirectory ∧ p.schemaEntryPath = none then 3 else 2 := by rw [Profile.rank, h]

theorem Orderly.closer {x : Round} (h : Orderly p x p') (hp : p.OnItsWay) :
    p'.OnItsWay ∧ p'.rank ≤ p.rank - 1 := by
  have hdetect : (p.enter .detectDirectory).rank ≤ 5 := by
    rw [Profile.rank_detectDirectory rfl]
    split_ifs <;> omega
  have hrequest : (p.enter .requestSchema).rank ≤ 3 := by
    rw [Profile.rank_requestSchema rfl]
    split_ifs <;> omega
  have hsearch : p.stateMachine = .live .requestSchema → 2 ≤ p.rank := by
    intro hs
    rw [Profile.rank_requestSchema hs]
    split_ifs <;> omega
  cases h with
  | startTls state | plain state =>
    exact ⟨hp.enter trivial (by simp) (by simp), by simp [Profile.rank, Profile.enter, state]⟩
  | bindInteractive state => exact ⟨hp.enter trivial (by simp) (by simp), by simp [Profile.rank, Profile.enter, state]⟩
  | bindSimple state =>
    refine ⟨hp.enter trivial (by simp) (by simp), Nat.le_trans hdetect ?_⟩
    simp [Profile.rank, state]
  | bound state =>
    refine ⟨hp.enter trivial (by simp) (by simp), Nat.le_trans hdetect ?_⟩
    simp [Profile.rank, state]
  | detect state type =>
    refine ⟨⟨hp.ldapDefaults, hp.state, (Response.detected_ne _).2, fun _ => (Response.detected_ne _).1,
      fun hs => by cases state.symm.trans hs⟩, ?_⟩
    rw [Profile.rank_detectDirectory state, if_pos type, Profile.rank_detectDirectory (by exact state),
      if_neg (Response.detected_ne _).1]
  | detected state type =>
    refine ⟨hp.enter trivial (fun _ => type) (by simp), Nat.le_trans hrequest ?_⟩
    rw [Profile.rank_detectDirectory state, if_neg type]
  | findSchema state type path =>
    refine ⟨⟨hp.ldapDefaults, hp.state, hp.type, hp.detected, fun hs => by cases state.symm.trans hs⟩, ?_⟩
    rw [Profile.rank_requestSchema state, if_pos ⟨type, path⟩, Profile.rank_requestSchema (by exact state),
      if_neg fun h => enterPath_ne_none _ _ p.schemaEntryPath h.2]
  | loadSchema state searches sent sent' answered answered' defines =>
    refine ⟨⟨hp.ldapDefaults, ⟨.checkSchema, rfl, trivial⟩, hp.type, by simp [Profile.enter], fun _ htype => ?_⟩, ?_⟩
    · obtain ⟨hdefines, hdefines'⟩ := defines htype
      exact ⟨filled_enterDefinitions .objectclass hdefines' _,
        (within_enterDefinitions .objectclass .attributetype _ _ _).filled
          (filled_enterDefinitions .attributetype hdefines _)⟩
    · have := hsearch state
      change 1 ≤ p.rank - 1
      omega
  | noSchema state type =>
    refine ⟨hp.enter trivial (by simp) fun _ htype => ?_, ?_⟩
    · cases type.symm.trans htype
    · have := hsearch state
      change 1 ≤ p.rank - 1
      omega
  | ready state ready => exact ⟨hp.enter trivial (by simp) (by simp), by simp [Profile.rank, Profile.enter, state]⟩
  | unready state ready => exact absurd (hp.ready state) ready
  | run state => exact ⟨hp, by simp [Profile.rank, state]⟩

theorem closer_of_runs {rounds : List Round} (h : Runs Orderly p rounds p') (hp : p.OnItsWay) :
    p'.OnItsWay ∧ p'.rank ≤ p.rank - rounds.length := by
  induction h with
  | nil => exact ⟨hp, by simp⟩
  | cons first _ ih =>
    obtain ⟨hway, hrank⟩ := first.closer hp
    obtain ⟨hway', hrank'⟩ := ih hway
    refine ⟨hway', ?_⟩
    rw [List.length_cons]
    omega

theorem Profile.rank_le (p : Profile) : p.rank ≤ 8 := by
  unfold Profile.rank
  split <;> first | decide | split_ifs <;> decide

theorem Orderly.ldapDefaults_eq {x : Round} (h : Orderly p x p') : p'.ldapDefaults = p.ldapDefaults := by
  cases h <;> rfl

theorem performSteps_append (steps more : List Step) :
    performSteps (steps ++ more) = (do performSteps steps; performSteps more) := List.forM_append

/-- The code takes orderly rounds as they are meant. -/
theorem ensures_rounds {rounds : List Round} (h : Runs Orderly p rounds p') (hdefaults : p.ldapDefaults = .live ()) :
    Ensures (World.At p .empty .outside) (performSteps (rounds.flatMap Round.steps))
      fun _ => World.At p' .empty .outside := by
  induction h with
  | nil => exact .pure fun _ h => h
  | @cons p p₁ p' x rounds first _ ih =>
    rw [List.flatMap_cons, performSteps_append]
    exact (ensures_round first hdefaults).bind fun _ => ih (first.ldapDefaults_eq.trans hdefaults)

def definitionResponse (msgid : Int) : Response where
  rc := ldapResSearchEntry
  msgid := msgid
  chain := [⟨some [], [([], [[]])]⟩]
  parse := fun _ => some ⟨some [], some []⟩

theorem brings_definitionResponse (msgid : Int) : (definitionResponse msgid).Brings msgid [[]] :=
  ⟨.inl rfl, rfl, _, rfl, rfl⟩

theorem defines_definitionResponse (msgid : Int) : (definitionResponse msgid).Defines [[]] :=
  ⟨[], rfl, _, rfl, rfl, rfl⟩

theorem Profile.OnItsWay.orderly (h : p.OnItsWay) : ∃ x p', Orderly p x p' := by
  obtain ⟨state, hs, hway⟩ := h.state
  have hconnected : TickInput.Connected {} := ⟨0, rfl, by decide⟩
  cases state with
  | tlsNegotiation | bindInProgress | error => exact hway.elim
  | init =>
    cases htls : p.useStartTls with
    | true => exact ⟨⟨{}, [{ rc := ldapResExtended }]⟩, _, .startTls hs htls rfl hconnected rfl (.inl rfl)⟩
    | false => exact ⟨⟨{}, []⟩, _, .plain hs htls⟩
  | transportReady =>
    cases htype : p.bindType with
    | simple => exact ⟨⟨{}, [{ rc := ldapResBind }]⟩, _, .bindSimple hs htype rfl hconnected rfl rfl⟩
    | interactive => exact ⟨_, _, @Orderly.bindInteractive p {} [] { rc := ldapResBind } [] hs htype (by decide)
        hconnected (by simp) (by decide) rfl rfl⟩
  | bound => exact ⟨⟨{}, []⟩, _, .bound hs⟩
  | detectDirectory =>
    by_cases htype : p.directoryType = .uninitialized
    · exact ⟨⟨{}, [{ rc := ldapResSearchEntry }]⟩, _, .detect hs htype rfl (.inl rfl)⟩
    · exact ⟨⟨{}, []⟩, _, .detected hs htype⟩
  | requestSchema =>
    have hload (hsearches : p.Searches) : ∃ x p', Orderly p x p' :=
      ⟨⟨{}, [definitionResponse 0, definitionResponse 0]⟩, _, .loadSchema hs hsearches rfl rfl
        (brings_definitionResponse 0) (brings_definitionResponse 0)
        fun _ => ⟨defines_definitionResponse 0, defines_definitionResponse 0⟩⟩
    cases htype : p.directoryType with
    | uninitialized => exact absurd htype (h.detected hs)
    | freeIpa => exact absurd htype h.type
    | unknown => exact ⟨⟨{}, []⟩, _, .noSchema hs htype⟩
    | openldap => exact hload (.inl htype)
    | activeDirectory =>
      cases hpath : p.schemaEntryPath with
      | some path => exact hload (.inr ⟨htype, by rw [hpath]; simp⟩)
      | none => exact ⟨⟨{}, [definitionResponse 0]⟩, _, .findSchema hs htype hpath rfl (brings_definitionResponse 0)⟩
  | checkSchema => exact ⟨⟨{}, []⟩, _, .ready hs (h.ready hs)⟩
  | run => exact ⟨⟨{}, []⟩, _, .run hs⟩

/-- What a configuration leaves the machine to go by. -/
def Profile.fresh (config : LdapConnectionConfig) (path : Option Bytes) : Profile where
  stateMachine := .live .init
  ldapDefaults := .live ()
  useStartTls := config.useStartTls
  bindType := config.bindType
  directoryType := .uninitialized
  schema := ldapSchemaNew
  schemaEntryPath := path

theorem Profile.onItsWay_fresh (config : LdapConnectionConfig) (path : Option Bytes) :
    (Profile.fresh config path).OnItsWay :=
  ⟨rfl, ⟨.init, rfl, trivial⟩, by simp [fresh], by simp [fresh], by simp [fresh]⟩

theorem World.At.of_empty (hp : w.profile = p) (hf : w.frame = none)
    (hq : w.connection.callqueue = requestQueueNew maxRequests) (hn : w.connection.nReadRequests = 0)
    (hs : w.connection.nSearchRequests = 0) : w.At p .empty .outside :=
  ⟨hp, ⟨.empty, tracks_empty hf hq hn hs, rfl, rfl, rfl, rfl⟩, World.phase_eq_outside.mpr hf⟩

/-- What comes of orderly rounds after a configuration: they are taken as they are meant, nothing stays
queued, another one is possible, and the machine runs after eight. -/
theorem World.At.rounds {config : LdapConnectionConfig} {path : Option Bytes} {rounds : List Round}
    (hw : w.At (.fresh config path) .empty .outside) (h : Runs Orderly (.fresh config path) rounds p) :
    ∃ t, exec (performSteps (rounds.flatMap Round.steps)) w = (.ok (), t) ∧ t.profile = p ∧
      t.connection.queuedRequests = [] ∧ (∃ x p', Orderly p x p') ∧
      (8 ≤ rounds.length → t.connection.stateMachine = .live .run) := by
  have hfresh := Profile.onItsWay_fresh config path
  obtain ⟨_, t, he, ht⟩ := ensures_rounds h hfresh.ldapDefaults w hw
  obtain ⟨hway, hrank⟩ := closer_of_runs h hfresh
  refine ⟨t, he, ht.profile, ?_, hway.orderly, fun hlen => ht.stateMachine.trans (hway.run_of_rank ?_)⟩
  · obtain ⟨l, htracks, -, hqueue, -⟩ := ht.plans
    rw [htracks.queue_eq] at hqueue
    exact List.map_eq_nil_iff.mp (List.map_eq_nil_iff.mp hqueue)
  · have := (Profile.fresh config path).rank_le
    omega

theorem run_orderly (config : LdapConnectionConfig) (path : Option Bytes) {rounds : List Round}
    (h : Runs Orderly (.fresh config path) rounds p) :
    ∃ w, run config path (rounds.flatMap Round.steps) = (.ok (), w) ∧ w.profile = p ∧
      w.connection.queuedRequests = [] ∧ (∃ x p', Orderly p x p') ∧
      (8 ≤ rounds.length → w.connection.stateMachine = .live .run) :=
  World.At.rounds (w := World.initial config path) (.of_empty rfl rfl rfl rfl rfl) h

def openldapRounds : List Round :=
  [⟨{}, [{ rc := ldapResSearchEntry, chain := [⟨some [], [(ascii "objectClass", [])]⟩] }]⟩, ⟨{}, []⟩,
    ⟨{}, [definitionResponse 0, definitionResponse 0]⟩, ⟨{}, []⟩, ⟨{}, []⟩, ⟨{}, []⟩]

theorem runs_openldapRounds (hs : p.stateMachine = .live .detectDirectory)
    (htype : p.directoryType = .uninitialized) : ∃ p', Runs Orderly p openldapRounds p' := by
  have hdetected : Response.detected
      { rc := ldapResSearchEntry, chain := [⟨some [], [(ascii "objectClass", [])]⟩] } = .openldap := by decide
  refine ⟨_, .cons (.detect hs htype rfl (.inl rfl)) (.cons (.detected hs ?_) (.cons (.loadSchema rfl (.inl hdetected)
    rfl rfl (brings_definitionResponse 0) (brings_definitionResponse 0)
    fun _ => ⟨defines_definitionResponse 0, defines_definitionResponse 0⟩) (.cons (.ready rfl fun _ => ⟨?_, ?_⟩)
    (.cons (.run rfl) (.cons (.run rfl) (.nil _))))))⟩
  · rw [hdetected]
    simp
  · exact filled_enterDefinitions .objectclass (defines_definitionResponse 0) _
  · exact (within_enterDefinitions .objectclass .attributetype _ _ _).filled
      (filled_enterDefinitions .attributetype (defines_definitionResponse 0) _)

/-- StartTLS and an interactive bind with one challenge. -/
def interactiveRounds : List Round :=
  [⟨{}, [{ rc := ldapResExtended }]⟩,
    ⟨{}, [{ rc := ldapResBind, bind := ⟨ldapSaslBindInProgress, 1⟩ }] ++ [{ rc := ldapResBind }]⟩, ⟨{}, []⟩] ++
    openldapRounds

theorem runs_interactiveRounds : ∃ p, Runs Orderly (.fresh ⟨true, .interactive⟩ none) interactiveRounds p := by
  have hconnected : TickInput.Connected {} := ⟨0, rfl, by decide⟩
  obtain ⟨p, h⟩ := runs_openldapRounds (p := (Profile.fresh ⟨true, .interactive⟩ none).enter .detectDirectory) rfl rfl
  exact ⟨p, .cons (.startTls rfl rfl rfl hconnected rfl (.inl rfl)) (.cons (.bindInteractive rfl rfl (by decide)
    hconnected (by simp) (by decide) rfl rfl) (.cons (.bound rfl) h))⟩

theorem run_orderly_interactive : ∃ w,
    run ⟨true, .interactive⟩ none (interactiveRounds.flatMap Round.steps) = (.ok (), w) ∧
      w.connection.stateMachine = .live .run := by
  obtain ⟨p, h⟩ := runs_interactiveRounds
  obtain ⟨w, he, -, -, -, hrun⟩ := run_orderly ⟨true, .interactive⟩ none h
  exact ⟨w, he, hrun (by decide)⟩

/-- The configuration is the given one, and a machine that is there has defaults that can be freed. -/
structure Kept (config : LdapConnectionConfig) (w : World) : Prop where
  config : w.connection.config = config
  ldapDefaults : ∀ state, w.connection.stateMachine = .live state → w.connection.ldapDefaults ≠ .dangling

theorem Kept.turn {config : LdapConnectionConfig} (h : Kept config w) (step : Turn w w') : Kept config w' := by
  have hsame : w.SameMachine w' → Kept config w' := fun same =>
    ⟨same.config.trans h.config, by rw [same.stateMachine, same.ldapDefaults]; exact h.ldapDefaults⟩
  cases step with
  | aside same _ => exact hsame same
  | inner step =>
    cases step with
    | calm step => exact hsame step.agrees.sameMachine
    | setState state _ =>
      rw [exec_csmSetState]
      cases hs : w.connection.stateMachine with
      | live current => exact ⟨h.config, fun _ _ => h.ldapDefaults current hs⟩
      | null | dangling => exact h
    | bindAnswered | tlsInplace | directory | running => exact ⟨h.config, h.ldapDefaults⟩
  | lifecycle step =>
    cases step with
    | closed => exact ⟨h.config, fun _ _ => by simp⟩
    | attempt | errorHandler => exact ⟨h.config, h.ldapDefaults⟩
    | reset =>
      refine ⟨h.config, fun state hs => ?_⟩
      change w.connection.stateMachine.assign .init = _ at hs
      cases hm : w.connection.stateMachine with
      | live current => exact h.ldapDefaults current hm
      | null | dangling =>
        rw [hm] at hs
        cases hs
    | configure failure state _ closed =>
      cases failure with
      | none => exact ⟨h.config, fun _ _ hd => by cases hd⟩
      | some failure =>
        cases failure with
        | tallocNew | ldapInitialize => exact ⟨h.config, fun _ _ hd => by cases closed.symm.trans hd⟩
        | _ => exact ⟨h.config, by rintro _ ⟨⟩⟩

theorem Kept.initial (config : LdapConnectionConfig) (path : Option Bytes) : Kept config (.initial config path) :=
  ⟨rfl, by rintro _ _ ⟨⟩⟩

theorem Reachable.kept {config : LdapConnectionConfig} {path : Option Bytes} (h : Reachable config path w) :
    Kept config w := by
  obtain ⟨steps, hrun⟩ := h
  have hkept := (run_invariant_of_simulated (Kept.initial config path)
    (fun s t hs hst hi => hi.turn (hst.turn hs)) steps).2
  rwa [hrun] at hkept

/-- A successful attempt to reconnect leaves the outline of a configured connection. -/
theorem Reachable.reconnected {config : LdapConnectionConfig} {path : Option Bytes} (h : Reachable config path w) :
    (w.reconnected none).At (.fresh config w.schemaEntryPath) .empty .outside := by
  refine .of_empty ?_ h.frame rfl rfl rfl
  obtain rfl := h.kept.config
  rfl

/-- In the error state, with attempts left, one tick that reconfigures is enough for orderly rounds to
bring the machine to run again. -/
theorem recovers {config : LdapConnectionConfig} {path : Option Bytes} (hw : Reachable config path w)
    (hs : w.connection.stateMachine = .live .error) (hn : w.connection.nReconnectAttempts < maxReconnectAttempts)
    (hi : i.configure = none) {rounds : List Round} (h : Runs Orderly (.fresh config w.schemaEntryPath) rounds p) :
    ∃ t, exec (performSteps (.tick i :: rounds.flatMap Round.steps)) w = (.ok (), t) ∧ t.profile = p ∧
      t.connection.queuedRequests = [] ∧ (∃ x p', Orderly p x p') ∧
      (8 ≤ rounds.length → t.connection.stateMachine = .live .run) := by
  obtain ⟨t, he, ht⟩ := World.At.rounds hw.reconnected h
  refine ⟨t, ?_, ht⟩
  have htick : exec (Step.perform (.tick i)) w = (.ok (), w.reconnected none) := by
    change exec (csmNextState i >>= fun _ => pure ()) w = _
    have hnext : exec (csmNextState i) w = (.ok .success, w.reconnected none) := by
      rw [exec_csmNextState_error hs, exec_bind_ok (exec_reconnect hs (hw.kept.ldapDefaults _ hs) i), if_pos hn, hi,
        exec_pure]
    rw [exec_bind_ok hnext, exec_pure]
  rw [exec_performSteps_cons, exec_bind_ok htick]
  exact he

def simpleRounds : List Round :=
  [⟨{}, [{ rc := ldapResExtended }]⟩, ⟨{}, [{ rc := ldapResBind }]⟩] ++ openldapRounds

section Runs

-- Only the kernel is to evaluate the runs.
attribute [local irreducible] run

/-- StartTLS fails, and succeeds after the connection has been configured again. -/
theorem recovers_failing : ∃ w t, run ⟨true, .simple⟩ none [failingStep none] = (.ok (), w) ∧
    exec (performSteps (.tick {} :: simpleRounds.flatMap Round.steps)) w = (.ok (), t) ∧
      t.connection.stateMachine = .live .run := by
  have hreturn : (run ⟨true, .simple⟩ none [failingStep none]).1 = .ok () := by decide +kernel
  have hconnected : TickInput.Connected {} := ⟨0, rfl, by decide⟩
  have hpath : (run ⟨true, .simple⟩ none [failingStep none]).2.schemaEntryPath = none := by decide +kernel
  obtain ⟨p, h⟩ := runs_openldapRounds (p := (Profile.fresh ⟨true, .simple⟩ none).enter .detectDirectory) rfl rfl
  have hrounds : Runs Orderly (.fresh ⟨true, .simple⟩ none) simpleRounds p :=
    .cons (.startTls rfl rfl rfl hconnected rfl (.inl rfl)) (.cons (.bindSimple rfl rfl rfl hconnected rfl rfl) h)
  obtain ⟨t, he, -, -, -, ht⟩ := recovers (i := {}) ⟨[failingStep none], Prod.ext hreturn rfl⟩ (by decide +kernel)
    (by decide +kernel) rfl (hpath ▸ hrounds)
  exact ⟨_, t, Prod.ext hreturn rfl, he, ht (by decide)⟩

end Runs

end Libdomain.Connection
