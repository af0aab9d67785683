import Libdomain.Schema.Descriptions
import Libdomain.Schema.Entering

/-! # Loading the schema of an Active Directory

The descriptions a server sends are parsed and entered one after the other. An append that
reports an old key ends the loop, so what can be looked up behind it depends on the first
description whose last name is not new.
-/
namespace Libdomain.Schema.Ad
open Libdomain.Connection Libdomain.Program Libdomain.Parsers Libdomain.Ragel.Expr

/-- The last name of the description is not among its other names, and no earlier one has it. -/
def Description.IsNew (earlier : List Description) (d : Description) : Prop :=
  ∃ last ∈ d.names.getLast?, last ∉ d.names.dropLast ∧ ∀ e ∈ earlier, last ∉ e.names

instance (earlier : List Description) (d : Description) : Decidable (d.IsNew earlier) :=
  inferInstanceAs (Decidable (∃ last ∈ d.names.getLast?, _ ∧ _))

/-- What is entered behind the earlier ones: the descriptions up to the first without names,
and through the first whose last name is not new. -/
def loaded (earlier : List Description) : List Description → List Description
  | [] => []
  | d :: ds =>
    if d.names = [] then []
    else if d.IsNew earlier then d :: loaded (earlier ++ [d]) ds
    else [d]

theorem Description.complete_definition (d : Description) : complete d.definition = true ↔ d.names ≠ [] := by
  by_cases h : d.names = [] <;> simp [complete, definition, Definition.oid, Definition.names, h]

theorem Description.names_definition (d : Description) : d.definition.names.getD [] = d.names := by
  by_cases h : d.names = [] <;> simp [definition, h]

theorem Description.hasName_definition (d : Description) (name : Bytes) :
    hasName name d.definition = true ↔ name ∈ d.names := by
  have hnames : (Definition.names d.definition).getD [] = d.names := d.names_definition
  simp [hasName, hnames]

theorem isNew_definition {d : Description} (h : d.names ≠ []) (earlier : List Description) :
    isNew (earlier.map Description.definition) d.definition = true ↔ d.IsNew earlier := by
  have hnone : ∀ (e : Description) (last : Bytes), hasName last e.definition = false ↔ last ∉ e.names := by
    intro e last
    rw [← e.hasName_definition, Bool.not_eq_true]
  have hnames : d.definition.names.getD [] = d.names.dropLast ++ [d.names.getLast h] := by
    rw [d.names_definition, List.dropLast_append_getLast h]
  rw [isNew_concat hnames, Description.IsNew, List.getLast?_eq_some_getLast h]
  simp [hnone]

theorem entered_definitions (earlier ds : List Description) :
    entered (earlier.map Description.definition) (ds.map (some ∘ Description.definition)) =
      (loaded earlier ds).map Description.definition := by
  induction ds generalizing earlier with
  | nil => rfl
  | cons d ds ih =>
    rw [List.map_cons, Function.comp_apply, entered, loaded]
    simp only [d.complete_definition]
    by_cases hnames : d.names = []
    · rw [if_neg (not_not.mpr hnames), if_pos hnames, List.map_nil]
    · rw [if_pos hnames, if_neg hnames]
      simp only [isNew_definition hnames]
      have hnext := ih (earlier ++ [d])
      rw [List.map_append, List.map_cons, List.map_nil] at hnext
      split_ifs
      · rw [hnext, List.map_cons]
      · rfl

/-- Every description has names, and no OID and no name stands in two places. -/
structure Conformant (ds : List Description) : Prop where
  named : ∀ d ∈ ds, d.names ≠ []
  oids : (ds.map Description.oid).Nodup
  names : (ds.flatMap Description.names).Nodup

/-- The lookups of a kind give the last description that has been loaded with the key. Under
the keys of descriptions that conform they are all found. -/
structure Holds (schema : Connection.LdapSchema) (kind : DefinitionKind) (ds : List Description) : Prop where
  byOid : ∀ oid, getByOid schema kind oid = lastWith (hasOid oid) ((loaded [] ds).map Description.definition)
  byName : ∀ name, getByName schema kind name = lastWith (hasName name) ((loaded [] ds).map Description.definition)
  conformant : Conformant ds → ∀ d ∈ ds, getByOid schema kind d.oid = some d.definition ∧
    ∀ name ∈ d.names, getByName schema kind name = some d.definition

theorem Conformant.distinct {ds : List Description} (h : Conformant ds) : Distinct (ds.map Description.definition) where
  complete := by
    intro d hd
    obtain ⟨e, he, rfl⟩ := List.mem_map.mp hd
    exact e.complete_definition.mpr (h.named e he)
  oids := by
    have hoids : (ds.map Description.definition).map SchemaDefinition.oid = (ds.map Description.oid).map some := by
      simp [Description.definition, Function.comp_def]
    rw [hoids]
    exact h.oids.map fun _ _ hsome => Option.some.inj hsome
  names := by
    rw [List.flatMap_map]
    simp only [Description.names_definition]
    exact h.names

theorem holds_of_gives {schema : Connection.LdapSchema} {kind : DefinitionKind} {ds : List Description}
    (h : Gives schema kind (entered [] (ds.map (some ∘ Description.definition)))) : Holds schema kind ds := by
  have hentered := entered_definitions [] ds
  rw [List.map_nil] at hentered
  refine ⟨hentered ▸ h.byOid, hentered ▸ h.byName, fun hconformant d hd => ?_⟩
  obtain ⟨hoid, hname⟩ := h.loads.found _ List.map_map.symm hconformant.distinct _ (List.mem_map_of_mem hd)
  rw [d.names_definition] at hname
  exact ⟨hoid d.oid rfl, hname⟩

/-- Both searches of a load are accepted and answered with descriptions, for the callbacks of
`ad_schema.c` to parse. -/
structure Described (i : TickInput) (r r' : Response) (types : List AttributeTypeDescription.Text)
    (classes : List ObjectClassDescription.Text) : Prop where
  sent : i.firstSearch.rc = ldapSuccess
  sent' : i.secondSearch.rc = ldapSuccess
  types : r.Brings i.firstSearch.msgid (types.map AttributeTypeDescription.Text.text)
  classes : r'.Brings i.secondSearch.msgid (classes.map ObjectClassDescription.Text.text)
  parse : r.parse = parseValue .attributetype
  parse' : r'.parse = parseValue .objectclass

variable {p p' : Profile} {i : TickInput} {r r' : Response} {types : List AttributeTypeDescription.Text}
  {classes : List ObjectClassDescription.Text}

/-- Up to the search for the definitions nothing enters the schema. -/
def Untouched (p : Profile) : Prop :=
  p.stateMachine ≠ .live .checkSchema → p.stateMachine ≠ .live .run → p.schema = Connection.ldapSchemaNew

theorem Untouched.round {x : Round} (h : Orderly p x p') (hp : Untouched p) : Untouched p' := by
  have hbefore : ∀ {state : LdapConnectionState}, p.stateMachine = .live state → state ≠ .checkSchema → state ≠ .run →
      p.schema = Connection.ldapSchemaNew := by
    intro state hs hcheck hrun
    exact hp (by simp [hs, hcheck]) (by simp [hs, hrun])
  cases h with
  | startTls state => exact fun _ _ => hbefore state (by decide) (by decide)
  | plain state => exact fun _ _ => hbefore state (by decide) (by decide)
  | bindSimple state => exact fun _ _ => hbefore state (by decide) (by decide)
  | bindInteractive state => exact fun _ _ => hbefore state (by decide) (by decide)
  | bound state => exact fun _ _ => hbefore state (by decide) (by decide)
  | detect state => exact fun _ _ => hbefore state (by decide) (by decide)
  | detected state => exact fun _ _ => hbefore state (by decide) (by decide)
  | findSchema state => exact fun _ _ => hbefore state (by decide) (by decide)
  | loadSchema => exact fun hcheck _ => absurd rfl hcheck
  | noSchema => exact fun hcheck _ => absurd rfl hcheck
  | ready => exact fun _ hrun => absurd rfl hrun
  | unready state => exact fun hcheck _ => absurd state hcheck
  | run state => exact fun _ hrun => absurd state hrun

theorem Described.holds (h : Described i r r' types classes) :
    let schema := enterDefinitions .objectclass r'.parse (classes.map ObjectClassDescription.Text.text)
      (enterDefinitions .attributetype r.parse (types.map AttributeTypeDescription.Text.text) Connection.ldapSchemaNew)
    Holds schema .attributetype (types.map describedType) ∧ Holds schema .objectclass (classes.map describedClass) := by
  intro schema
  have htypes : (types.map AttributeTypeDescription.Text.text).map r.parse =
      (types.map describedType).map (some ∘ Description.definition) := by
    rw [List.map_map, List.map_map, h.parse]
    exact List.map_congr_left fun t _ => attributeType_text t
  have hclasses : (classes.map ObjectClassDescription.Text.text).map r'.parse =
      (classes.map describedClass).map (some ∘ Description.definition) := by
    rw [List.map_map, List.map_map, h.parse']
    exact List.map_congr_left fun t _ => objectClass_text t
  have hgives := gives_entered r.parse (types.map AttributeTypeDescription.Text.text) r'.parse
    (classes.map ObjectClassDescription.Text.text)
  rw [htypes, hclasses] at hgives
  exact ⟨holds_of_gives hgives.1, holds_of_gives hgives.2⟩

/-- A machine that checks the schema runs from the next round on, or keeps checking it. -/
theorem runs_checkSchema (hs : p.stateMachine = .live .checkSchema) {rounds : List Round} (hrounds : rounds ≠ []) :
    (p.Ready → Runs Orderly p rounds (p.enter .run)) ∧ (¬p.Ready → Runs Orderly p rounds p) := by
  have hstay : ∀ {q : Profile} {rounds : List Round}, (∀ x, Orderly q x q) → Runs Orderly q rounds q := by
    intro q rounds hq
    induction rounds with
    | nil => exact .nil q
    | cons x rounds ih => exact .cons (hq x) ih
  obtain ⟨x, rounds, rfl⟩ := List.exists_cons_of_ne_nil hrounds
  exact ⟨fun hready => .cons (.ready hs hready) (hstay fun _ => .run rfl), fun hready => hstay fun _ => .unready hs hready⟩

theorem runs_checked (hs : p.stateMachine = .live .checkSchema) (htype : p.directoryType = .activeDirectory)
    (rounds : List Round) : ∃ p', Runs Orderly p rounds p' ∧ p'.schema = p.schema ∧
      (rounds ≠ [] → p'.stateMachine = .live .run) := by
  cases rounds with
  | nil => exact ⟨p, .nil p, rfl, fun h => absurd rfl h⟩
  | cons x rounds =>
    have hready : p.Ready := fun hopenldap => by simp [htype] at hopenldap
    obtain ⟨hrun, -⟩ := runs_checkSchema hs (List.cons_ne_nil x rounds)
    exact ⟨p.enter .run, hrun hready, rfl, fun _ => rfl⟩

/-- After orderly rounds up to the search for definitions, one in which the server describes
them and any others, the machine runs and the lookups give what has been loaded. -/
theorem run_loads (config : LdapConnectionConfig) (path : Option Bytes) {rounds : List Round}
    (h : Runs Orderly (.fresh config path) rounds p) (hs : p.stateMachine = .live .requestSchema)
    (htype : p.directoryType = .activeDirectory) (hpath : p.schemaEntryPath ≠ none)
    (hdescribed : Described i r r' types classes) (more : List Response) (later : List Round) :
    ∃ w, run config path ((rounds ++ ⟨i, r :: r' :: more⟩ :: later).flatMap Round.steps) = (.ok (), w) ∧
      (later ≠ [] → w.connection.stateMachine = .live .run) ∧
      Holds w.connection.schema .attributetype (types.map describedType) ∧
      Holds w.connection.schema .objectclass (classes.map describedClass) := by
  have hempty : p.schema = Connection.ldapSchemaNew :=
    h.invariant (fun _ _ _ _ => Untouched.round) (fun _ _ => rfl) (by simp [hs]) (by simp [hs])
  have hload : Orderly p ⟨i, r :: r' :: more⟩ _ := .loadSchema hs (.inr ⟨htype, hpath⟩) hdescribed.sent hdescribed.sent'
    hdescribed.types hdescribed.classes fun hopenldap => by simp [htype] at hopenldap
  obtain ⟨q, hlater, hschema, hrun⟩ := runs_checked (p := { p.enter .checkSchema with
    schema := enterDefinitions .objectclass r'.parse (classes.map ObjectClassDescription.Text.text)
      (enterDefinitions .attributetype r.parse (types.map AttributeTypeDescription.Text.text) p.schema) }) rfl htype later
  obtain ⟨w, he, hprofile, -⟩ := World.At.rounds (w := World.initial config path) (.of_empty rfl rfl rfl rfl rfl)
    (h.append (.cons hload hlater))
  have hentered : w.connection.schema = q.schema := congrArg Profile.schema hprofile
  have hstate : w.connection.stateMachine = q.stateMachine := congrArg Profile.stateMachine hprofile
  refine ⟨w, he, fun hne => hstate.trans (hrun hne), ?_⟩
  rw [hentered, hschema, hempty]
  exact hdescribed.holds

def cnType : AttributeTypeDescription.Text where
  label := none
  beforeOid := 1
  oid := ⟨ascii "2.5.4.3", by rw [← accepts_iff]; decide⟩
  afterOid := 1
  names := some (⟨ascii "NAME", spelled_self _⟩, .list 1
    [⟨1, ascii "cn", 1, by rw [← accepts_iff]; decide⟩, ⟨0, ascii "commonName", 1, by rw [← accepts_iff]; decide⟩] 1)
  syntaxOid := none
  singleValue := some (⟨ascii "SINGLE-VALUE", spelled_self _⟩, 1)
  noUserModification := none
  last := 0

def topClass : ObjectClassDescription.Text where
  label := none
  beforeOid := 1
  oid := ⟨ascii "2.5.6.0", by rw [← accepts_iff]; decide⟩
  afterOid := 1
  names := some (⟨ascii "NAME", spelled_self _⟩, .one ⟨1, ascii "top", 1, by rw [← accepts_iff]; decide⟩)
  sup := none
  kind := none
  must := some (⟨ascii "MUST", spelled_self _⟩, 1, .one ⟨ascii "objectClass", by rw [← accepts_iff]; decide⟩, 1)
  may := none
  last := 0

def activeDirectoryRounds : List Round :=
  [⟨{}, []⟩, ⟨{}, [{ rc := ldapResBind }]⟩,
    ⟨{}, [{ rc := ldapResSearchEntry, chain := [⟨some [], [(ascii "isGlobalCatalogReady", [])]⟩] }]⟩, ⟨{}, []⟩,
    ⟨{}, [subschemaSubentryResponse 0]⟩]

def typesResponse : Response where
  rc := ldapResSearchEntry
  msgid := 0
  chain := [⟨some (ascii "CN=Aggregate"), [(ascii "attributeTypes", [cnType.text])]⟩]
  parse := parseValue .attributetype

def classesResponse : Response where
  rc := ldapResSearchEntry
  msgid := 0
  chain := [⟨some (ascii "CN=Aggregate"), [(ascii "objectClasses", [topClass.text])]⟩]
  parse := parseValue .objectclass

theorem runs_activeDirectoryRounds : ∃ p, Runs Orderly (.fresh ⟨false, .simple⟩ none) activeDirectoryRounds p ∧
    p.stateMachine = .live .requestSchema ∧ p.directoryType = .activeDirectory ∧ p.schemaEntryPath ≠ none := by
  have hconnected : TickInput.Connected {} := ⟨0, rfl, by decide⟩
  have hdetected : Response.detected
      { rc := ldapResSearchEntry, chain := [⟨some [], [(ascii "isGlobalCatalogReady", [])]⟩] } = .activeDirectory := by
    decide
  have hfound : (subschemaSubentryResponse 0).Brings 0 [ascii "CN=Aggregate"] := ⟨.inl rfl, rfl, _, rfl, rfl⟩
  refine ⟨_, .cons (.plain rfl rfl) (.cons (.bindSimple rfl rfl rfl hconnected rfl rfl) (.cons
    (.detect rfl rfl rfl (.inl rfl)) (.cons (.detected rfl ?_) (.cons (.findSchema rfl hdetected rfl rfl hfound)
      (.nil _))))), rfl, hdetected, by decide⟩
  rw [hdetected]
  decide

theorem run_loads_cn : ∃ w,
    run ⟨false, .simple⟩ none ((activeDirectoryRounds ++
      [(⟨{}, [typesResponse, classesResponse]⟩ : Round), ⟨{}, []⟩]).flatMap Round.steps) = (.ok (), w) ∧
    w.connection.stateMachine = .live .run ∧
    Connection.ldapSchemaGetAttributetypeByName w.connection.schema (ascii "commonName") =
      some ⟨some (ascii "2.5.4.3"), some [ascii "cn", ascii "commonName"]⟩ ∧
    Connection.ldapSchemaGetObjectclassByOid w.connection.schema (ascii "2.5.6.0") =
      some ⟨some (ascii "2.5.6.0"), some [ascii "top"]⟩ := by
  have hdescribed : Described {} typesResponse classesResponse [cnType] [topClass] :=
    { sent := rfl
      sent' := rfl
      types := ⟨.inl rfl, rfl, _, rfl, rfl⟩
      classes := ⟨.inl rfl, rfl, _, rfl, rfl⟩
      parse := rfl
      parse' := rfl }
  obtain ⟨p, hrounds, hs, htype, hpath⟩ := runs_activeDirectoryRounds
  obtain ⟨w, he, hrun, htypes, hclasses⟩ :=
    run_loads ⟨false, .simple⟩ none hrounds hs htype hpath hdescribed [] [⟨{}, []⟩]
  have hcn := htypes.conformant ⟨by decide, by decide, by decide⟩ _ List.mem_cons_self
  have htop := hclasses.conformant ⟨by decide, by decide, by decide⟩ _ List.mem_cons_self
  exact ⟨w, he, hrun (by simp), hcn.2 (ascii "commonName") (by decide), htop.1⟩

end Libdomain.Schema.Ad
