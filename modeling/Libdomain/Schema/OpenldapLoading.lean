import Libdomain.Schema.Loading

/-! # Loading the schema of an OpenLDAP server

The callbacks of `openldap_schema.c` leave the parsing to the library and stop at the first
value it refuses. The machine waits for both tables to have an entry, so a first value that
is refused or lacks an OID or an array of names keeps it from running for good.
-/
namespace Libdomain.Schema.Openldap
open Libdomain.Connection Libdomain.Program Libdomain.Schema.Ad

/-- The first value is accepted, and it has an OID and an array of names. -/
def Accepted (ds : List (Option SchemaDefinition)) : Prop := ∃ d ∈ ds.head?.join, complete d = true

instance (ds : List (Option SchemaDefinition)) : Decidable (Accepted ds) :=
  inferInstanceAs (Decidable (∃ d ∈ ds.head?.join, _))

structure Answers (i : TickInput) (r r' : Response) (types classes : List Bytes) : Prop where
  sent : i.firstSearch.rc = ldapSuccess
  sent' : i.secondSearch.rc = ldapSuccess
  types : r.Brings i.firstSearch.msgid types
  classes : r'.Brings i.secondSearch.msgid classes

theorem exists_oid_iff {ds : List (Option SchemaDefinition)} :
    (∃ oid, (lastWith (hasOid oid) (entered [] ds)).isSome) ↔ Accepted ds := by
  simp only [lastWith, List.find?_isSome, List.mem_reverse]
  constructor
  · rintro ⟨oid, e, he, -⟩
    cases ds with
    | nil => cases he
    | cons first ds =>
      cases first with
      | none => cases he
      | some d =>
        rw [entered] at he
        by_cases hcomplete : complete d = true
        · exact ⟨d, rfl, hcomplete⟩
        · rw [if_neg hcomplete] at he
          cases he
  · rintro ⟨d, hd, hcomplete⟩
    cases ds with
    | nil => cases hd
    | cons first ds =>
      cases hd
      have hoid : (Definition.oid d).isSome = true := (Bool.and_eq_true_iff.mp hcomplete).1
      obtain ⟨oid, hoid⟩ := Option.isSome_iff_exists.mp hoid
      refine ⟨oid, d, ?_, decide_eq_true hoid⟩
      rw [entered, if_pos hcomplete]
      split_ifs <;> simp

theorem filled_iff_accepted {kind : DefinitionKind} {schema : Connection.LdapSchema}
    {ds : List (Option SchemaDefinition)} (h : Loads schema kind ds) :
    (schema.tables kind).Filled ↔ Accepted ds := by
  have hbyOid : ∀ oid, (schema.tables kind).byOid.lookup oid = lastWith (hasOid oid) (entered [] ds) := by
    intro oid
    rw [← h.gives.byOid]
    cases kind <;> rfl
  rw [filled_iff, ← exists_oid_iff]
  simp only [← AList.lookup_isSome, hbyOid]

variable {p p' : Profile} {i : TickInput} {r r' : Response} {types classes : List Bytes}

/-- After orderly rounds up to the search for definitions, one in which both searches are answered
and any others, the lookups give what has been entered, whatever the library makes of the
values. The machine runs if it accepts the first value of both kinds, and else checks the
schema for good. -/
theorem run_loads_openldap (config : LdapConnectionConfig) (path : Option Bytes) {rounds : List Round}
    (h : Runs Orderly (.fresh config path) rounds p) (hs : p.stateMachine = .live .requestSchema)
    (htype : p.directoryType = .openldap) (hanswers : Answers i r r' types classes)
    (more : List Response) {later : List Round} (hlater : later ≠ []) :
    ∃ w, run config path ((rounds ++ ⟨i, r :: r' :: more⟩ :: later).flatMap Round.steps) = (.ok (), w) ∧
      Loads w.connection.schema .attributetype (types.map r.parse) ∧
      Loads w.connection.schema .objectclass (classes.map r'.parse) ∧
      w.connection.stateMachine = .live
        (if Accepted (types.map r.parse) ∧ Accepted (classes.map r'.parse) then .run else .checkSchema) := by
  have hempty : p.schema = Connection.ldapSchemaNew :=
    h.invariant (fun _ _ _ _ => Untouched.round) (fun _ _ => rfl) (by simp [hs]) (by simp [hs])
  have hdefaults : p.ldapDefaults = .live () :=
    h.invariant (fun _ _ _ _ first => first.ldapDefaults_eq.trans) rfl
  let loaded : Profile := { p.enter .checkSchema with
    schema := enterDefinitions .objectclass r'.parse classes (enterDefinitions .attributetype r.parse types p.schema) }
  obtain ⟨htypes, hclasses⟩ := gives_entered r.parse types r'.parse classes
  rw [← hempty] at htypes hclasses
  have hready : loaded.Ready ↔ Accepted (types.map r.parse) ∧ Accepted (classes.map r'.parse) := by
    rw [← filled_iff_accepted htypes.loads, ← filled_iff_accepted hclasses.loads, and_comm]
    exact ⟨fun hr => hr htype, fun hr _ => hr⟩
  obtain ⟨hrun, hcheck⟩ := runs_checkSchema (p := loaded) rfl hlater
  have hend : ∃ q, Runs Orderly loaded later q ∧ q.schema = loaded.schema ∧ q.stateMachine = .live
      (if Accepted (types.map r.parse) ∧ Accepted (classes.map r'.parse) then .run else .checkSchema) := by
    split_ifs with haccepted
    · exact ⟨_, hrun (hready.mpr haccepted), rfl, rfl⟩
    · exact ⟨_, hcheck (mt hready.mp haccepted), rfl, rfl⟩
  obtain ⟨q, hq, hschema, hstate⟩ := hend
  have hsteps : Ensures (World.At (.fresh config path) .empty .outside)
      (performSteps ((rounds ++ ⟨i, r :: r' :: more⟩ :: later).flatMap Round.steps)) fun _ => World.At q .empty .outside := by
    rw [List.flatMap_append, List.flatMap_cons, performSteps_append, performSteps_append]
    refine (ensures_rounds h rfl).bind fun _ => ?_
    exact (ensures_loadRound hs (.inl htype) hanswers.sent hanswers.sent' hanswers.types hanswers.classes).bind
      fun _ => ensures_rounds hq hdefaults
  obtain ⟨_, w, he, hw⟩ := hsteps (.initial config path) (.of_empty rfl rfl rfl rfl rfl)
  have hentered : w.connection.schema = loaded.schema := (congrArg Profile.schema hw.profile).trans hschema
  exact ⟨w, he, hentered ▸ htypes.loads, hentered ▸ hclasses.loads, hw.stateMachine.trans hstate⟩

def openldapRounds : List Round :=
  [⟨{}, []⟩, ⟨{}, [{ rc := ldapResBind }]⟩,
    ⟨{}, [{ rc := ldapResSearchEntry, chain := [⟨some [], [(ascii "objectClass", [])]⟩] }]⟩, ⟨{}, []⟩]

def cnText : Bytes := ascii "( 2.5.4.3 NAME 'cn' )"

def topText : Bytes := ascii "( 2.5.6.0 NAME 'top' )"

def unnamedText : Bytes := ascii "( 2.5.6.1 NAME ( ) )"

/-- What the library makes of the texts: in the last one there is an array without names. -/
def parseText (value : Bytes) : Option SchemaDefinition :=
  if value = cnText then some ⟨some (ascii "2.5.4.3"), some [ascii "cn"]⟩
  else if value = topText then some ⟨some (ascii "2.5.6.0"), some [ascii "top"]⟩
  else if value = unnamedText then some ⟨some (ascii "2.5.6.1"), some []⟩
  else none

def subschemaResponse (values : List Bytes) : Response where
  rc := ldapResSearchResult
  msgid := 0
  chain := [⟨some (ascii "cn=subschema"), [(ascii "values", values)]⟩]
  parse := parseText

theorem runs_openldapRounds : ∃ p, Runs Orderly (.fresh ⟨false, .simple⟩ none) openldapRounds p ∧
    p.stateMachine = .live .requestSchema ∧ p.directoryType = .openldap := by
  have hconnected : TickInput.Connected {} := ⟨0, rfl, by decide⟩
  have hdetected : Response.detected
      { rc := ldapResSearchEntry, chain := [⟨some [], [(ascii "objectClass", [])]⟩] } = .openldap := by decide
  refine ⟨_, .cons (.plain rfl rfl) (.cons (.bindSimple rfl rfl rfl hconnected rfl rfl) (.cons
    (.detect rfl rfl rfl (.inl rfl)) (.cons (.detected rfl ?_) (.nil _)))), rfl, hdetected⟩
  rw [hdetected]
  decide

/-- A class that the library refuses ends the load, and does no harm behind one that it accepts,
even without a name. -/
theorem run_loads_openldap_refused : ∃ w,
    run ⟨false, .simple⟩ none ((openldapRounds ++
      [(⟨{}, [subschemaResponse [cnText], subschemaResponse [unnamedText, topText, [], cnText]]⟩ : Round), ⟨{}, []⟩]).flatMap
        Round.steps) = (.ok (), w) ∧
    Connection.ldapSchemaGetAttributetypeByName w.connection.schema (ascii "cn") =
      some ⟨some (ascii "2.5.4.3"), some [ascii "cn"]⟩ ∧
    Connection.ldapSchemaGetObjectclassByOid w.connection.schema (ascii "2.5.6.1") =
      some ⟨some (ascii "2.5.6.1"), some []⟩ ∧
    Connection.ldapSchemaGetObjectclassByName w.connection.schema (ascii "cn") = none ∧
    w.connection.stateMachine = .live .run := by
  have hanswers : Answers {} (subschemaResponse [cnText]) (subschemaResponse [unnamedText, topText, [], cnText]) [cnText]
      [unnamedText, topText, [], cnText] :=
    { sent := rfl
      sent' := rfl
      types := ⟨.inr rfl, rfl, _, rfl, rfl⟩
      classes := ⟨.inr rfl, rfl, _, rfl, rfl⟩ }
  obtain ⟨p, hrounds, hs, htype⟩ := runs_openldapRounds
  have hlater : [(⟨{}, []⟩ : Round)] ≠ [] := by simp
  obtain ⟨w, he, htypes, hclasses, hstate⟩ :=
    run_loads_openldap ⟨false, .simple⟩ none hrounds hs htype hanswers [] hlater
  refine ⟨w, he, (htypes.gives.byName _).trans ?_, (hclasses.gives.byOid _).trans ?_, (hclasses.gives.byName _).trans ?_,
    hstate.trans ?_⟩
  · decide
  · decide
  · decide
  · decide

end Libdomain.Schema.Openldap
