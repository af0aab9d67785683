import Libdomain.Connection.Progress
import Libdomain.Connection.SchemaIndexes
import Libdomain.Schema.Results
import Mathlib.Data.List.Lattice

/-! # Entering definitions

The callbacks for definitions enter what is made of one value after the other. A value that
is refused ends this, and so does an append that reports an old key. What can be looked up
afterwards depends on the first of them.
-/
namespace Libdomain.Schema
open Libdomain.Connection

/-- The last key of the definition is not among its other ones, and no earlier definition has
it. The last key is the last name or, without names, the OID. -/
def isNew (earlier : List SchemaDefinition) (d : SchemaDefinition) : Bool :=
  match (d.names.getD []).getLast? with
  | some last => !((d.names.getD []).dropLast.any fun name => name = last) && earlier.all fun e => !hasName last e
  | none => earlier.all fun e => !decide (e.oid = d.oid)

theorem isNew_nil {earlier : List SchemaDefinition} {d : SchemaDefinition} (h : d.names.getD [] = []) :
    isNew earlier d = true ↔ ∀ e ∈ earlier, e.oid ≠ d.oid := by
  simp [isNew, h]

theorem isNew_concat {earlier : List SchemaDefinition} {d : SchemaDefinition} {front : List Bytes} {last : Bytes}
    (h : d.names.getD [] = front ++ [last]) :
    isNew earlier d = true ↔ last ∉ front ∧ ∀ e ∈ earlier, hasName last e = false := by
  have hfront : (∀ name ∈ front, ¬name = last) ↔ last ∉ front := List.forall_mem_ne'
  simp [isNew, h, hfront]

/-- What is entered behind earlier definitions: those up to the first value that is refused or
leaves the OID or the array of names null, and through the first whose last key is not new. -/
def entered (earlier : List SchemaDefinition) : List (Option SchemaDefinition) → List SchemaDefinition
  | [] => []
  | none :: _ => []
  | some d :: ds =>
    if complete d then
      if isNew earlier d then d :: entered (earlier ++ [d]) ds else [d]
    else []

/-- The tables of one kind of definition, as those of a schema. -/
def tablesOf (schema : Connection.LdapSchema) (kind : DefinitionKind) : Tables SchemaDefinition :=
  ⟨(schema.tables kind).byOid, (schema.tables kind).byName⟩

theorem append_tablesOf (kind : DefinitionKind) (schema : Connection.LdapSchema) (d : SchemaDefinition) :
    (tablesOf schema kind).append (some d) = ((kind.append schema d).1, tablesOf (kind.append schema d).2 kind) := by
  cases kind with
  | attributetype => exact append_appendDefinition schema.attributeTypes d
  | objectclass => exact append_appendDefinition schema.objectClasses d

theorem tablesOf_append_ne {kind other : DefinitionKind} (h : kind ≠ other) (schema : Connection.LdapSchema)
    (d : SchemaDefinition) : tablesOf (kind.append schema d).2 other = tablesOf schema other := by
  rw [tablesOf, append_eq_apply, tables_apply, if_neg h, tablesOf]

theorem tablesOf_enterDefinitions_ne {kind other : DefinitionKind} (h : kind ≠ other)
    (parse : Bytes → Option SchemaDefinition) (values : List Bytes) (schema : Connection.LdapSchema) :
    tablesOf (enterDefinitions kind parse values schema) other = tablesOf schema other := by
  induction values generalizing schema with
  | nil => rfl
  | cons value values ih =>
    rw [enterDefinitions]
    cases parse value with
    | none => rfl
    | some d =>
      dsimp only
      split_ifs
      · rw [ih, tablesOf_append_ne h]
      · exact tablesOf_append_ne h schema d

theorem notMem_byName {ds : List SchemaDefinition} {name : Bytes} :
    name ∉ (Tables.of ds).byName ↔ ∀ d ∈ ds, hasName name d = false := by
  rw [← AList.lookup_isSome, lookup_byName, lastWith]
  simp

theorem notMem_byOid {ds : List SchemaDefinition} {oid : Bytes} :
    oid ∉ (Tables.of ds).byOid ↔ ∀ d ∈ ds, d.oid ≠ some oid := by
  rw [← AList.lookup_isSome, lookup_byOid, lastWith]
  simp [hasOid, Definition.oid]

/-- An append of a complete definition reports whether its last key is new. -/
theorem append_isNew {d : SchemaDefinition} (h : complete d = true) (earlier : List SchemaDefinition) :
    ((Tables.of earlier).append (some d)).1 = isNew earlier d := by
  rw [complete, Bool.and_eq_true, Option.isSome_iff_exists, Option.isSome_iff_exists] at h
  obtain ⟨⟨oid, hoid⟩, names, hnames⟩ := h
  have hlisted : d.names.getD [] = names := congrArg (fun names => names.getD []) hnames
  have hown : d.oid = some oid := hoid
  rw [Bool.eq_iff_iff]
  rcases List.eq_nil_or_concat names with rfl | ⟨front, last, rfl⟩
  · rw [append_result_nil _ hoid hnames, notMem_byOid, isNew_nil hlisted, hown]
  · rw [List.concat_eq_append] at hnames hlisted
    rw [append_result_concat _ hoid hnames, notMem_byName, isNew_concat hlisted]

theorem tablesOf_enterDefinitions {kind : DefinitionKind} {schema : Connection.LdapSchema}
    {earlier : List SchemaDefinition} (h : tablesOf schema kind = Tables.of earlier)
    (parse : Bytes → Option SchemaDefinition) (values : List Bytes) :
    tablesOf (enterDefinitions kind parse values schema) kind =
      Tables.of (earlier ++ entered earlier (values.map parse)) := by
  induction values generalizing earlier schema with
  | nil => rw [List.map_nil, entered, List.append_nil, enterDefinitions, h]
  | cons value values ih =>
    rw [List.map_cons, enterDefinitions]
    cases hvalue : parse value with
    | none => rw [entered, List.append_nil, h]
    | some d =>
      have happend := append_tablesOf kind schema d
      rw [h] at happend
      have hresult : (kind.append schema d).1 = ((Tables.of earlier).append (some d)).1 := by rw [happend]
      have hnext : tablesOf (kind.append schema d).2 kind = Tables.of (earlier ++ ((some d).filter complete).toList) := by
        rw [← append_of, happend]
      dsimp only
      rw [entered]
      by_cases hcomplete : complete d = true
      · rw [Option.filter_some, if_pos hcomplete, Option.toList_some] at hnext
        rw [if_pos hcomplete, hresult, append_isNew hcomplete]
        by_cases hnew : isNew earlier d = true
        · rw [if_pos hnew, if_pos hnew, ih hnext, List.append_assoc, List.singleton_append]
        · rw [if_neg hnew, if_neg hnew, hnext]
      · have hfilter : (some d).filter complete = none := by rw [Option.filter_some, if_neg hcomplete]
        rw [hfilter, Option.toList_none] at hnext
        rw [if_neg hcomplete, hresult, append_refused _ hfilter, if_neg Bool.false_ne_true, hnext]

theorem tablesOf_new (kind : DefinitionKind) :
    tablesOf Connection.ldapSchemaNew kind = Tables.of ([] : List SchemaDefinition) := by
  cases kind <;> rfl

def getByOid (schema : Connection.LdapSchema) (kind : DefinitionKind) (oid : Bytes) : Option SchemaDefinition :=
  match kind with
  | .attributetype => Connection.ldapSchemaGetAttributetypeByOid schema oid
  | .objectclass => Connection.ldapSchemaGetObjectclassByOid schema oid

def getByName (schema : Connection.LdapSchema) (kind : DefinitionKind) (name : Bytes) : Option SchemaDefinition :=
  match kind with
  | .attributetype => Connection.ldapSchemaGetAttributetypeByName schema name
  | .objectclass => Connection.ldapSchemaGetObjectclassByName schema name

/-- The lookups of a kind give the last of the definitions with the key. -/
structure Gives (schema : Connection.LdapSchema) (kind : DefinitionKind) (ds : List SchemaDefinition) : Prop where
  byOid : ∀ oid, getByOid schema kind oid = lastWith (hasOid oid) ds
  byName : ∀ name, getByName schema kind name = lastWith (hasName name) ds

theorem gives_of_tables {schema : Connection.LdapSchema} {kind : DefinitionKind} {ds : List SchemaDefinition}
    (h : tablesOf schema kind = Tables.of ds) : Gives schema kind ds := by
  constructor
  · intro oid
    rw [← lookup_byOid, ← h]
    cases kind <;> rfl
  · intro name
    rw [← lookup_byName, ← h]
    cases kind <;> rfl

theorem gives_entered (parse : Bytes → Option SchemaDefinition) (types : List Bytes)
    (parse' : Bytes → Option SchemaDefinition) (classes : List Bytes) :
    let schema := enterDefinitions .objectclass parse' classes
      (enterDefinitions .attributetype parse types Connection.ldapSchemaNew)
    Gives schema .attributetype (entered [] (types.map parse)) ∧
      Gives schema .objectclass (entered [] (classes.map parse')) := by
  constructor
  · refine gives_of_tables ?_
    rw [tablesOf_enterDefinitions_ne (by decide)]
    exact tablesOf_enterDefinitions (tablesOf_new .attributetype) parse types
  · refine gives_of_tables ?_
    have hempty : tablesOf (enterDefinitions .attributetype parse types Connection.ldapSchemaNew) .objectclass =
        Tables.of ([] : List SchemaDefinition) := by
      rw [tablesOf_enterDefinitions_ne (by decide), tablesOf_new]
    exact tablesOf_enterDefinitions hempty parse' classes

/-- The only definition with a property is the last one. -/
theorem lastWith_eq_some {p : SchemaDefinition → Bool} {ds : List SchemaDefinition} {d : SchemaDefinition} (hd : d ∈ ds)
    (hp : p d = true) (honly : ∀ e ∈ ds, p e = true → e = d) : lastWith p ds = some d := by
  cases h : lastWith p ds with
  | none =>
    rw [lastWith, List.find?_eq_none] at h
    exact absurd hp (h d (List.mem_reverse.mpr hd))
  | some found =>
    have hmem := List.mem_of_find?_eq_some h
    rw [List.mem_reverse] at hmem
    rw [honly found hmem (List.find?_some h)]

/-- Every definition has an OID and an array of names, and no OID and no name stands in two
places. -/
structure Distinct (ds : List SchemaDefinition) : Prop where
  complete : ∀ d ∈ ds, complete d = true
  oids : (ds.map SchemaDefinition.oid).Nodup
  names : (ds.flatMap fun d => d.names.getD []).Nodup

theorem Distinct.isNew {front behind : List SchemaDefinition} {d : SchemaDefinition}
    (h : Distinct (front ++ d :: behind)) : isNew front d = true := by
  rcases List.eq_nil_or_concat (d.names.getD []) with hnames | ⟨names, last, hnames⟩
  · have hoids := h.oids
    rw [List.map_append, List.map_cons, List.nodup_append] at hoids
    exact (isNew_nil hnames).mpr fun e he => hoids.2.2 _ (List.mem_map_of_mem he) _ List.mem_cons_self
  · rw [List.concat_eq_append] at hnames
    obtain ⟨hnodup, hdisjoint⟩ := List.nodup_flatMap.mp h.names
    obtain ⟨-, -, hfront⟩ := List.pairwise_append.mp hdisjoint
    have hown := hnodup d (by simp)
    rw [hnames] at hown
    refine (isNew_concat hnames).mpr ⟨fun hmem => ?_, fun e he => ?_⟩
    · exact List.disjoint_of_nodup_append hown hmem (List.mem_singleton_self _)
    · have hdisjoint := hfront e he d List.mem_cons_self
      simp only [hasName, List.any_eq_false, decide_eq_true_eq]
      rintro name hname rfl
      exact hdisjoint hname (by simp [hnames])

theorem entered_distinct {earlier ds : List SchemaDefinition} (h : Distinct (earlier ++ ds)) :
    entered earlier (ds.map some) = ds := by
  induction ds generalizing earlier with
  | nil => rfl
  | cons d ds ih =>
    have hcomplete : complete d = true := h.complete d (by simp)
    have hrest : entered (earlier ++ [d]) (ds.map some) = ds := ih (by rwa [List.append_assoc])
    rw [List.map_cons, entered, if_pos hcomplete, if_pos h.isNew, hrest]

/-- Every one of them is found under its OID and under each of its names. -/
theorem Distinct.found {schema : Connection.LdapSchema} {kind : DefinitionKind} {ds : List SchemaDefinition}
    (h : Distinct ds) (hgives : Gives schema kind ds) {d : SchemaDefinition} (hd : d ∈ ds) :
    (∀ oid ∈ d.oid, getByOid schema kind oid = some d) ∧
      ∀ name ∈ d.names.getD [], getByName schema kind name = some d := by
  constructor
  · intro oid hoid
    rw [hgives.byOid]
    refine lastWith_eq_some hd (decide_eq_true hoid) fun e he heq => ?_
    exact List.inj_on_of_nodup_map h.oids he hd ((of_decide_eq_true heq).trans hoid.symm)
  · intro name hname
    rw [hgives.byName]
    have hhas : ∀ e : SchemaDefinition, hasName name e = true ↔ name ∈ e.names.getD [] := by
      intro e
      simp [hasName, Definition.names]
    refine lastWith_eq_some hd ((hhas d).mpr hname) fun e he heq => ?_
    by_contra hne
    obtain ⟨-, hdisjoint⟩ := List.nodup_flatMap.mp h.names
    have hsymm : Std.Symm (Function.onFun List.Disjoint fun d : SchemaDefinition => d.names.getD []) :=
      ⟨fun _ _ h => List.Disjoint.symm h⟩
    have happart := hdisjoint.forall he hd hne
    exact happart ((hhas e).mp heq) hname

/-- The lookups of a kind give the last definition that has been entered with the key. Under the
keys of definitions that are distinct they are all found. -/
structure Loads (schema : Connection.LdapSchema) (kind : DefinitionKind) (ds : List (Option SchemaDefinition)) : Prop where
  gives : Gives schema kind (entered [] ds)
  found : ∀ es, ds = es.map some → Distinct es → ∀ d ∈ es, (∀ oid ∈ d.oid, getByOid schema kind oid = some d) ∧
    ∀ name ∈ d.names.getD [], getByName schema kind name = some d

theorem Gives.loads {schema : Connection.LdapSchema} {kind : DefinitionKind} {ds : List (Option SchemaDefinition)}
    (h : Gives schema kind (entered [] ds)) : Loads schema kind ds := by
  refine ⟨h, ?_⟩
  rintro es rfl hdistinct d hd
  rw [@entered_distinct [] es hdistinct] at h
  exact hdistinct.found h hd

end Libdomain.Schema
