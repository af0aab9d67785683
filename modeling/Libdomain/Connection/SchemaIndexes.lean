import Libdomain.Connection.Entries

/-! # The indexes of the schema

For each kind of definition the schema has an index by OID and one by name.
`ldap_schema_append_attributetype` and `ldap_schema_append_objectclass` enter a definition
into both, and leave the names of the definition it replaces in the index by name.
-/
namespace Libdomain.Connection

def ldapSchemaGetAttributetypeByOid (schema : LdapSchema) (oid : Bytes) : Option SchemaDefinition :=
  schema.attributeTypes.byOid.lookup oid

def ldapSchemaGetAttributetypeByName (schema : LdapSchema) (name : Bytes) : Option SchemaDefinition :=
  schema.attributeTypes.byName.lookup name

def ldapSchemaGetObjectclassByOid (schema : LdapSchema) (oid : Bytes) : Option SchemaDefinition :=
  schema.objectClasses.byOid.lookup oid

def ldapSchemaGetObjectclassByName (schema : LdapSchema) (name : Bytes) : Option SchemaDefinition :=
  schema.objectClasses.byName.lookup name

inductive DefinitionKind
  | attributetype
  | objectclass
  deriving DecidableEq

structure SchemaAppend where
  kind : DefinitionKind
  definition : SchemaDefinition

def SchemaAppend.apply (schema : LdapSchema) (a : SchemaAppend) : LdapSchema :=
  match a.kind with
  | .attributetype => (ldapSchemaAppendAttributetype schema a.definition).2
  | .objectclass => (ldapSchemaAppendObjectclass schema a.definition).2

def schemaAfter : List SchemaAppend → LdapSchema
  | [] => ldapSchemaNew
  | a :: earlier => a.apply (schemaAfter earlier)

def LdapSchema.tables (schema : LdapSchema) : DefinitionKind → DefinitionTables
  | .attributetype => schema.attributeTypes
  | .objectclass => schema.objectClasses

def SchemaDefinition.Lists (d : SchemaDefinition) (name : Bytes) : Prop :=
  d.oid.isSome ∧ ∃ names ∈ d.names, name ∈ names

/-- What a name leads to is what its OID leads to, and has the name. -/
def DefinitionTables.NamesAgree (tables : DefinitionTables) : Prop :=
  ∀ name d, tables.byName.lookup name = some d →
    (∃ oid ∈ d.oid, tables.byOid.lookup oid = some d) ∧ d.Lists name

/-- What an OID leads to is what its names lead to, but for those that a later definition has. -/
def OidsAgree (kind : DefinitionKind) (history : List SchemaAppend) : Prop :=
  ∀ oid d, ((schemaAfter history).tables kind).byOid.lookup oid = some d → ∀ name, d.Lists name →
    ∀ later earlier, history = later ++ ⟨kind, d⟩ :: earlier →
      (∀ a ∈ later, a.kind = kind → ¬a.definition.Lists name) →
        ((schemaAfter history).tables kind).byName.lookup name = some d

def IndexesAgree (history : List SchemaAppend) : Prop :=
  ∀ kind, ((schemaAfter history).tables kind).NamesAgree ∧ OidsAgree kind history

def AlwaysAgree : List SchemaAppend → Prop
  | [] => IndexesAgree []
  | a :: earlier => IndexesAgree (a :: earlier) ∧ AlwaysAgree earlier

/-- A definition that replaces another one has every name that still leads to the other. -/
def DefinitionTables.Covered (tables : DefinitionTables) (d : SchemaDefinition) : Prop :=
  ∀ oid ∈ d.oid, ∀ names ∈ d.names, ∀ old, tables.byOid.lookup oid = some old →
    ∀ name, tables.byName.lookup name = some old → name ∈ names

/-- Every definition that replaces another one has the names that lead to the other. -/
def NamesCovered : List SchemaAppend → Prop
  | [] => True
  | a :: earlier => ((schemaAfter earlier).tables a.kind).Covered a.definition ∧ NamesCovered earlier

theorem lookup_foldl_insert (d : SchemaDefinition) (names : List Bytes) (byName : AList fun _ : Bytes => SchemaDefinition)
    (name : Bytes) : (names.foldl (fun table n => table.insert n d) byName).lookup name =
      if name ∈ names then some d else byName.lookup name := by
  induction names generalizing byName with
  | nil => simp
  | cons n rest ih =>
    rw [List.foldl_cons, ih]
    by_cases hrest : name ∈ rest
    · simp [hrest]
    · by_cases hn : name = n
      · subst hn
        simp
      · simp [hn, hrest, AList.lookup_insert_ne hn]

theorem appendDefinition_complete (tables : DefinitionTables) {d : SchemaDefinition} {oid : Bytes} {names : List Bytes}
    (hoid : d.oid = some oid) (hnames : d.names = some names) :
    (appendDefinition tables d).2 =
      ⟨tables.byOid.insert oid d, names.foldl (fun table n => table.insert n d) tables.byName⟩ := by
  have hfold : ∀ (names : List Bytes) (state : Bool × DefinitionTables),
      (names.foldl (fun state name =>
        ((hashTableInsert state.2.byName name d).1,
          { state.2 with byName := (hashTableInsert state.2.byName name d).2 })) state).2 =
        ⟨state.2.byOid, names.foldl (fun table n => table.insert n d) state.2.byName⟩ := by
    intro names
    induction names with
    | nil => exact fun state => rfl
    | cons n rest ih => exact fun state => ih _
  rw [appendDefinition, hoid, hnames]
  exact hfold names _

theorem appendDefinition_incomplete (tables : DefinitionTables) {d : SchemaDefinition}
    (h : d.oid = none ∨ d.names = none) : (appendDefinition tables d).2 = tables := by
  unfold appendDefinition
  rcases h with h | h
  · rw [h]
    cases d.names <;> rfl
  · rw [h]

theorem tables_apply (schema : LdapSchema) (a : SchemaAppend) (kind : DefinitionKind) :
    (a.apply schema).tables kind =
      if a.kind = kind then (appendDefinition (schema.tables kind) a.definition).2 else schema.tables kind := by
  obtain ⟨kind', d⟩ := a
  cases kind' <;> cases kind <;> rfl

theorem SchemaDefinition.lists_iff {d : SchemaDefinition} {oid : Bytes} {names : List Bytes} (hoid : d.oid = some oid)
    (hnames : d.names = some names) (name : Bytes) : d.Lists name ↔ name ∈ names := by
  simp [SchemaDefinition.Lists, hoid, hnames]

theorem byName_append (tables : DefinitionTables) (d : SchemaDefinition) (name : Bytes) :
    (d.Lists name → (appendDefinition tables d).2.byName.lookup name = some d) ∧
      (¬d.Lists name → (appendDefinition tables d).2.byName.lookup name = tables.byName.lookup name) := by
  cases hoid : d.oid with
  | none =>
    rw [appendDefinition_incomplete tables (.inl hoid)]
    simp [SchemaDefinition.Lists, hoid]
  | some oid =>
    cases hnames : d.names with
    | none =>
      rw [appendDefinition_incomplete tables (.inr hnames)]
      simp [SchemaDefinition.Lists, hnames]
    | some names =>
      rw [appendDefinition_complete tables hoid hnames, SchemaDefinition.lists_iff hoid hnames, lookup_foldl_insert]
      by_cases h : name ∈ names
      · simp [h]
      · simp [h]

def DefinitionTables.Keyed (tables : DefinitionTables) : Prop :=
  ∀ oid d, tables.byOid.lookup oid = some d → d.oid = some oid

theorem keyed_append {tables : DefinitionTables} (h : tables.Keyed) (d : SchemaDefinition) :
    (appendDefinition tables d).2.Keyed := by
  cases hoid : d.oid with
  | none =>
    rw [appendDefinition_incomplete tables (.inl hoid)]
    exact h
  | some oid =>
    cases hnames : d.names with
    | none =>
      rw [appendDefinition_incomplete tables (.inr hnames)]
      exact h
    | some names =>
      rw [appendDefinition_complete tables hoid hnames]
      intro o e he
      by_cases ho : o = oid
      · subst ho
        rw [AList.lookup_insert] at he
        cases he
        exact hoid
      · rw [AList.lookup_insert_ne ho] at he
        exact h o e he

/-- The index by name agrees after a call exactly if the definition covers the names of the
one it replaces. -/
theorem namesAgree_append {tables : DefinitionTables} (hkeyed : tables.Keyed) (h : tables.NamesAgree)
    (d : SchemaDefinition) : (appendDefinition tables d).2.NamesAgree ↔ tables.Covered d := by
  cases hoid : d.oid with
  | none =>
    rw [appendDefinition_incomplete tables (.inl hoid)]
    simp [h, DefinitionTables.Covered, hoid]
  | some oid =>
    cases hnames : d.names with
    | none =>
      rw [appendDefinition_incomplete tables (.inr hnames)]
      simp [h, DefinitionTables.Covered, hnames]
    | some names =>
      have hlists := SchemaDefinition.lists_iff hoid hnames
      have hbyOid : (appendDefinition tables d).2.byOid = tables.byOid.insert oid d := by
        rw [appendDefinition_complete tables hoid hnames]
      constructor
      · intro hagree o ho ns hns old hold name hname
        cases hoid.symm.trans ho
        cases hnames.symm.trans hns
        by_contra hnot
        have hkept := (byName_append tables d name).2 fun hl => hnot ((hlists name).mp hl)
        obtain ⟨⟨o, ho, hlookup⟩, -⟩ := hagree name old (hkept.trans hname)
        have hsame : o = oid := Option.some.inj (ho.symm.trans (hkeyed oid old hold))
        rw [hbyOid, hsame, AList.lookup_insert] at hlookup
        cases hlookup
        exact hnot ((hlists name).mp (h name d hname).2)
      · intro hcovered name e hname
        by_cases hmem : d.Lists name
        · rw [(byName_append tables d name).1 hmem] at hname
          cases hname
          exact ⟨⟨oid, hoid, by rw [hbyOid, AList.lookup_insert]⟩, hmem⟩
        · rw [(byName_append tables d name).2 hmem] at hname
          obtain ⟨⟨o, ho, hlookup⟩, hl⟩ := h name e hname
          have hne : o ≠ oid := by
            rintro rfl
            exact hmem ((hlists name).mpr (hcovered o hoid names hnames e hlookup name hname))
          exact ⟨⟨o, ho, by rw [hbyOid, AList.lookup_insert_ne hne, hlookup]⟩, hl⟩

theorem keyed_schemaAfter (history : List SchemaAppend) (kind : DefinitionKind) :
    ((schemaAfter history).tables kind).Keyed := by
  induction history with
  | nil =>
    intro oid d h
    cases kind <;> cases h
  | cons a earlier ih =>
    rw [schemaAfter, tables_apply]
    split_ifs with hkind
    · exact keyed_append ih a.definition
    · exact ih

theorem byName_later {kind : DefinitionKind} {name : Bytes} {later : List SchemaAppend} (earlier : List SchemaAppend)
    (h : ∀ a ∈ later, a.kind = kind → ¬a.definition.Lists name) :
    ((schemaAfter (later ++ earlier)).tables kind).byName.lookup name =
      ((schemaAfter earlier).tables kind).byName.lookup name := by
  induction later with
  | nil => rfl
  | cons a later ih =>
    obtain ⟨ha, hlater⟩ := List.forall_mem_cons.mp h
    rw [List.cons_append, schemaAfter, tables_apply]
    split_ifs with hkind
    · rw [(byName_append _ a.definition name).2 (ha hkind), ih hlater]
    · exact ih hlater

theorem oidsAgree (kind : DefinitionKind) (history : List SchemaAppend) : OidsAgree kind history := by
  rintro oid d - name hname later earlier rfl hlater
  rw [byName_later _ hlater, schemaAfter, tables_apply, if_pos rfl]
  exact (byName_append _ d name).1 hname

/-- One more call keeps the indexes in agreement exactly if the names are covered. -/
theorem indexesAgree_cons {a : SchemaAppend} {earlier : List SchemaAppend} (h : IndexesAgree earlier) :
    IndexesAgree (a :: earlier) ↔ ((schemaAfter earlier).tables a.kind).Covered a.definition := by
  have hstep := namesAgree_append (keyed_schemaAfter earlier a.kind) (h a.kind).1 a.definition
  constructor
  · intro hagree
    have hnames := (hagree a.kind).1
    rw [schemaAfter, tables_apply, if_pos rfl] at hnames
    exact hstep.mp hnames
  · intro hcovered kind
    refine ⟨?_, oidsAgree kind _⟩
    rw [schemaAfter, tables_apply]
    split_ifs with hkind
    · subst hkind
      exact hstep.mpr hcovered
    · exact (h kind).1

/-- The indexes agree throughout exactly if every definition that replaces another one has
the names that lead to it. -/
theorem alwaysAgree_iff (history : List SchemaAppend) : AlwaysAgree history ↔ NamesCovered history := by
  have hnil : IndexesAgree [] := by
    intro kind
    refine ⟨fun name d h => ?_, oidsAgree kind []⟩
    cases kind <;> cases h
  have hhead : ∀ history, AlwaysAgree history → IndexesAgree history := by
    intro history h
    cases history with
    | nil => exact h
    | cons a earlier => exact h.1
  induction history with
  | nil => exact iff_of_true hnil trivial
  | cons a earlier ih =>
    constructor
    · rintro ⟨hagree, hearlier⟩
      exact ⟨(indexesAgree_cons (hhead earlier hearlier)).mp hagree, ih.mp hearlier⟩
    · rintro ⟨hcovered, hrest⟩
      have hearlier := ih.mpr hrest
      exact ⟨(indexesAgree_cons (hhead earlier hearlier)).mpr hcovered, hearlier⟩

/-- A server that gives the OID of an attribute to another one leaves the old name behind. -/
theorem renamed_not_alwaysAgree :
    let old : SchemaDefinition := ⟨some (ascii "2.5.4.3"), some [ascii "cn"]⟩
    let new : SchemaDefinition := ⟨some (ascii "2.5.4.3"), some [ascii "commonName"]⟩
    ¬AlwaysAgree [⟨.attributetype, new⟩, ⟨.attributetype, old⟩] ∧
      ldapSchemaGetAttributetypeByName (schemaAfter [⟨.attributetype, new⟩, ⟨.attributetype, old⟩]) (ascii "cn") =
        some old ∧
      ldapSchemaGetAttributetypeByOid (schemaAfter [⟨.attributetype, new⟩, ⟨.attributetype, old⟩])
        (ascii "2.5.4.3") = some new := by
  intro old new
  have hname : ldapSchemaGetAttributetypeByName (schemaAfter [⟨.attributetype, new⟩, ⟨.attributetype, old⟩])
      (ascii "cn") = some old := by decide
  have hoid : ldapSchemaGetAttributetypeByOid (schemaAfter [⟨.attributetype, new⟩, ⟨.attributetype, old⟩])
      (ascii "2.5.4.3") = some new := by decide
  refine ⟨fun h => ?_, hname, hoid⟩
  obtain ⟨⟨oid, ho, hlookup⟩, -⟩ := (h.1 .attributetype).1 _ _ hname
  cases ho
  have hsame : some new = some old := hoid.symm.trans hlookup
  revert hsame
  decide

end Libdomain.Connection
