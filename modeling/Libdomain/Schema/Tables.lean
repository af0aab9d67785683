import Libdomain.Connection.Entries
import Libdomain.Memory.HashTable
import Libdomain.Memory.PointerArray
import Mathlib.Data.List.Nodup

/-! # The schema and its definitions

`schema.c` with definitions as the pointers its callers give and get: of a definition the
schema reads the OID and the names. Each kind has a table by OID and one by name. Whatever
calls were made, a lookup gives the last definition that was accepted with the key, and the
arrays hold the last definition of every OID.
-/
namespace Libdomain.Schema
open Libdomain.Connection Libdomain.Memory

/-- What is read through a pointer to an attribute type or an object class. -/
class Definition (δ : Type) where
  oid : δ → Option Bytes
  names : δ → Option (List Bytes)

structure Tables (δ : Type) where
  byOid : HashTable Bytes δ
  byName : HashTable Bytes δ

structure LdapSchema (α β : Type) where
  attributeTypes : Tables α
  objectClasses : Tables β

variable {α β δ : Type} [Definition α] [Definition β] [Definition δ]

def ldapSchemaNew : LdapSchema α β := ⟨⟨∅, ∅⟩, ⟨∅, ∅⟩⟩

/-- The insertion under one name, and its result. -/
def Tables.enterName (d : δ) (state : Bool × Tables δ) (name : Bytes) : Bool × Tables δ :=
  let next := state.2.byName.add name d
  (next.1, { state.2 with byName := next.2 })

/-- The insertion under the OID and then under each name; the result is that of the last one. -/
def Tables.append (tables : Tables δ) : Option δ → Bool × Tables δ
  | none => (false, tables)
  | some d =>
    match Definition.names d, Definition.oid d with
    | some names, some oid =>
      let first := tables.byOid.add oid d
      names.foldl (Tables.enterName d) (first.1, { tables with byOid := first.2 })
    | _, _ => (false, tables)

def ldapSchemaAppendAttributetype (schema : LdapSchema α β) (attributetype : Option α) : Bool × LdapSchema α β :=
  let appended := schema.attributeTypes.append attributetype
  (appended.1, { schema with attributeTypes := appended.2 })

def ldapSchemaAppendObjectclass (schema : LdapSchema α β) (objectclass : Option β) : Bool × LdapSchema α β :=
  let appended := schema.objectClasses.append objectclass
  (appended.1, { schema with objectClasses := appended.2 })

def ldapSchemaGetAttributetypeByOid (schema : LdapSchema α β) (oid : Bytes) : Option α :=
  schema.attributeTypes.byOid.lookup oid

def ldapSchemaGetAttributetypeByName (schema : LdapSchema α β) (name : Bytes) : Option α :=
  schema.attributeTypes.byName.lookup name

def ldapSchemaGetObjectclassByOid (schema : LdapSchema α β) (oid : Bytes) : Option β :=
  schema.objectClasses.byOid.lookup oid

def ldapSchemaGetObjectclassByName (schema : LdapSchema α β) (name : Bytes) : Option β :=
  schema.objectClasses.byName.lookup name

/-- The array of an iteration over the table by OID. -/
def Tables.list (tables : Tables δ) (visited : List (Bytes × δ)) : Except Memory.Fault (Cells δ) :=
  collect (fun e => .ok e.2) tables.byOid.size visited

def ldapSchemaAttributeTypes (schema : LdapSchema α β) (visited : List (Bytes × α)) :
    Except Memory.Fault (Cells α) := schema.attributeTypes.list visited

def ldapSchemaObjectClasses (schema : LdapSchema α β) (visited : List (Bytes × β)) :
    Except Memory.Fault (Cells β) := schema.objectClasses.list visited

/-- A call of one of the two functions that append, with an argument that may be null. -/
inductive AppendCall (α β : Type)
  | attributetype (attributetype : Option α)
  | objectclass (objectclass : Option β)

def AppendCall.run (schema : LdapSchema α β) : AppendCall α β → Bool × LdapSchema α β
  | .attributetype d => ldapSchemaAppendAttributetype schema d
  | .objectclass d => ldapSchemaAppendObjectclass schema d

def schemaAfter (calls : List (AppendCall α β)) : LdapSchema α β :=
  calls.foldl (fun schema call => (call.run schema).2) ldapSchemaNew

/-- The definition has an OID and a list of names. -/
def complete (d : δ) : Bool := (Definition.oid d).isSome && (Definition.names d).isSome

/-- The attribute types that calls give and that are accepted. -/
def attributetypes (calls : List (AppendCall α β)) : List α :=
  calls.filterMap fun call => match call with
    | .attributetype d => d.filter complete
    | .objectclass _ => none

/-- The object classes that calls give and that are accepted. -/
def objectclasses (calls : List (AppendCall α β)) : List β :=
  calls.filterMap fun call => match call with
    | .attributetype _ => none
    | .objectclass d => d.filter complete

def hasOid (oid : Bytes) (d : δ) : Bool := Definition.oid d = some oid

def hasName (name : Bytes) (d : δ) : Bool := ((Definition.names d).getD []).any fun listed => listed = name

/-- The last definition of a list that has a property. -/
def lastWith (p : δ → Bool) (ds : List δ) : Option δ := ds.reverse.find? p

/-- The tables of the definitions entered one after another. -/
def Tables.of (ds : List δ) : Tables δ where
  byOid := HashTable.insertAll ∅ (ds.flatMap fun d => (Definition.oid d).toList.map fun oid => (oid, d))
  byName := HashTable.insertAll ∅ (ds.flatMap fun d => ((Definition.names d).getD []).map fun name => (name, d))

theorem append_refused (tables : Tables δ) {d : Option δ} (h : d.filter complete = none) :
    tables.append d = (false, tables) := by
  cases d with
  | none => rfl
  | some d =>
    simp only [Option.filter_eq_none_iff, Option.some.injEq, complete] at h
    have hd := h d rfl
    rw [Tables.append]
    cases hnames : Definition.names d with
    | none => rfl
    | some names =>
      cases hoid : Definition.oid d with
      | none => rfl
      | some oid => simp [hnames, hoid] at hd

omit [Definition δ] in
theorem foldl_enterName (d : δ) (names : List Bytes) (state : Bool × Tables δ) :
    (names.foldl (Tables.enterName d) state).2 =
      ⟨state.2.byOid, state.2.byName.insertAll (names.map fun name => (name, d))⟩ := by
  induction names generalizing state with
  | nil => rfl
  | cons name rest ih => exact ih _

theorem append_complete (tables : Tables δ) {d : δ} {oid : Bytes} {names : List Bytes}
    (hoid : Definition.oid d = some oid) (hnames : Definition.names d = some names) :
    (tables.append (some d)).2 =
      ⟨tables.byOid.insert oid d, tables.byName.insertAll (names.map fun name => (name, d))⟩ := by
  rw [Tables.append, hnames, hoid]
  exact foldl_enterName d names _

/-- One more call enters the definition it gives if that is accepted. -/
theorem append_of (ds : List δ) (d : Option δ) :
    ((Tables.of ds).append d).2 = Tables.of (ds ++ (d.filter complete).toList) := by
  cases hfilter : d.filter complete with
  | none =>
    rw [append_refused _ hfilter, Option.toList_none, List.append_nil]
  | some e =>
    obtain ⟨rfl, hcomplete⟩ := Option.filter_eq_some_iff.mp hfilter
    rw [complete, Bool.and_eq_true, Option.isSome_iff_exists, Option.isSome_iff_exists] at hcomplete
    obtain ⟨⟨oid, hoid⟩, names, hnames⟩ := hcomplete
    rw [append_complete _ hoid hnames, Tables.of, Tables.of]
    simp only [Option.toList_some, List.flatMap_append, List.flatMap_singleton, HashTable.insertAll_append, hoid,
      hnames, Option.getD_some, List.map_cons, List.map_nil]
    rfl

omit [Definition β] in
theorem attributetypes_concat (calls : List (AppendCall α β)) (d : Option α) :
    attributetypes (calls ++ [.attributetype d]) = attributetypes calls ++ (d.filter complete).toList := by
  rw [attributetypes, List.filterMap_append, ← attributetypes]
  cases h : d.filter complete with
  | none => simp [h]
  | some e => simp [h]

omit [Definition α] in
theorem objectclasses_concat (calls : List (AppendCall α β)) (d : Option β) :
    objectclasses (calls ++ [.objectclass d]) = objectclasses calls ++ (d.filter complete).toList := by
  rw [objectclasses, List.filterMap_append, ← objectclasses]
  cases h : d.filter complete with
  | none => simp [h]
  | some e => simp [h]

omit [Definition β] in
theorem attributetypes_objectclass (calls : List (AppendCall α β)) (d : Option β) :
    attributetypes (calls ++ [.objectclass d]) = attributetypes calls := by
  simp [attributetypes, List.filterMap_append]

omit [Definition α] in
theorem objectclasses_attributetype (calls : List (AppendCall α β)) (d : Option α) :
    objectclasses (calls ++ [.attributetype d]) = objectclasses calls := by
  simp [objectclasses, List.filterMap_append]

theorem schemaAfter_eq (calls : List (AppendCall α β)) :
    schemaAfter calls = ⟨Tables.of (attributetypes calls), Tables.of (objectclasses calls)⟩ := by
  induction calls using List.reverseRecOn with
  | nil => rfl
  | append_singleton calls call ih =>
    rw [schemaAfter, List.foldl_append, ← schemaAfter, ih, List.foldl_cons, List.foldl_nil]
    cases call with
    | attributetype d =>
      rw [AppendCall.run, ldapSchemaAppendAttributetype, append_of, attributetypes_concat,
        objectclasses_attributetype]
    | objectclass d =>
      rw [AppendCall.run, ldapSchemaAppendObjectclass, append_of, objectclasses_concat,
        attributetypes_objectclass]

theorem lookup_byOid (ds : List δ) (oid : Bytes) : (Tables.of ds).byOid.lookup oid = lastWith (hasOid oid) ds := by
  have hlatest := HashTable.latest_flatMap (fun d : δ => (Definition.oid d).toList) ds oid
  rw [Tables.of, HashTable.lookup_insertAll, hlatest, AList.lookup_empty, Option.or_none, lastWith]
  congr 1
  funext d
  cases hd : Definition.oid d with
  | none => simp [hasOid, hd]
  | some o => simp [hasOid, hd]

theorem lookup_byName (ds : List δ) (name : Bytes) :
    (Tables.of ds).byName.lookup name = lastWith (hasName name) ds := by
  have hlatest := HashTable.latest_flatMap (fun d : δ => (Definition.names d).getD []) ds name
  rw [Tables.of, HashTable.lookup_insertAll, hlatest, AList.lookup_empty, Option.or_none, lastWith]
  rfl

theorem lastWith_hasOid {ds : List δ} {oid : Bytes} {d : δ} (h : lastWith (hasOid oid) ds = some d) :
    Definition.oid d = some oid := by
  have hfound := List.find?_some h
  simpa [hasOid] using hfound

/-- The array of a kind has the last definition of each OID, once. -/
theorem list_of (ds : List δ) {visited : List (Bytes × δ)} (h : (Tables.of ds).byOid.Visits visited) :
    ∃ listed, (Tables.of ds).list visited = .ok (terminate listed) ∧ (listed.map Definition.oid).Nodup ∧
      ∀ d, d ∈ listed ↔ ∃ oid, lastWith (hasOid oid) ds = some d := by
  have hmem : ∀ oid d, (oid, d) ∈ visited ↔ lastWith (hasOid oid) ds = some d := by
    intro oid d
    rw [h.mem_iff, lookup_byOid]
  refine ⟨visited.map Prod.snd, ?_, ?_, ?_⟩
  · rw [Tables.list, collect_visited _ h.length_eq, mapM_of_ok fun e _ => rfl]
    rfl
  · have hkeys : (visited.map Prod.snd).map Definition.oid = (visited.map Prod.fst).map some := by
      rw [List.map_map, List.map_map]
      exact List.map_congr_left fun e he => lastWith_hasOid ((hmem e.1 e.2).mp he)
    rw [hkeys]
    exact h.nodup.map fun _ _ hsome => Option.some.inj hsome
  · intro d
    rw [List.mem_map]
    constructor
    · rintro ⟨⟨oid, e⟩, he, rfl⟩
      exact ⟨oid, (hmem oid e).mp he⟩
    · rintro ⟨oid, hoid⟩
      exact ⟨(oid, d), (hmem oid d).mpr hoid, rfl⟩

variable {visitedTypes : List (Bytes × α)} {visitedClasses : List (Bytes × β)}

/-- After any calls the lookups give the last accepted definition with the OID or the name,
and the arrays the last accepted definition of each OID; each kind depends on its own calls. -/
theorem schema_lookups (calls : List (AppendCall α β))
    (htypes : (schemaAfter calls).attributeTypes.byOid.Visits visitedTypes)
    (hclasses : (schemaAfter calls).objectClasses.byOid.Visits visitedClasses) :
    (∀ oid, ldapSchemaGetAttributetypeByOid (schemaAfter calls) oid = lastWith (hasOid oid) (attributetypes calls)) ∧
    (∀ name, ldapSchemaGetAttributetypeByName (schemaAfter calls) name =
      lastWith (hasName name) (attributetypes calls)) ∧
    (∀ oid, ldapSchemaGetObjectclassByOid (schemaAfter calls) oid = lastWith (hasOid oid) (objectclasses calls)) ∧
    (∀ name, ldapSchemaGetObjectclassByName (schemaAfter calls) name =
      lastWith (hasName name) (objectclasses calls)) ∧
    (∃ listed, ldapSchemaAttributeTypes (schemaAfter calls) visitedTypes = .ok (terminate listed) ∧
      (listed.map Definition.oid).Nodup ∧
      ∀ d, d ∈ listed ↔ ∃ oid, lastWith (hasOid oid) (attributetypes calls) = some d) ∧
    (∃ listed, ldapSchemaObjectClasses (schemaAfter calls) visitedClasses = .ok (terminate listed) ∧
      (listed.map Definition.oid).Nodup ∧
      ∀ d, d ∈ listed ↔ ∃ oid, lastWith (hasOid oid) (objectclasses calls) = some d) := by
  rw [schemaAfter_eq] at htypes hclasses ⊢
  exact ⟨lookup_byOid _, lookup_byName _, lookup_byOid _, lookup_byName _, list_of _ htypes, list_of _ hclasses⟩

instance : Definition SchemaDefinition := ⟨SchemaDefinition.oid, SchemaDefinition.names⟩

/-- The appends of a connection are those of a schema whose definitions are told apart by
what they contain. -/
theorem append_appendDefinition (tables : DefinitionTables) (d : SchemaDefinition) :
    Tables.append ⟨tables.byOid, tables.byName⟩ (some d) =
      ((appendDefinition tables d).1, ⟨(appendDefinition tables d).2.byOid, (appendDefinition tables d).2.byName⟩) := by
  have hadd : ∀ (table : HashTable Bytes SchemaDefinition) (key : Bytes), table.add key d = hashTableInsert table key d := by
    intro table key
    simp [HashTable.add, hashTableInsert]
  have hfold : ∀ (names : List Bytes) (state : Bool × DefinitionTables),
      names.foldl (Tables.enterName d) (state.1, ⟨state.2.byOid, state.2.byName⟩) =
      let after := names.foldl (fun state name => ((hashTableInsert state.2.byName name d).1,
          { state.2 with byName := (hashTableInsert state.2.byName name d).2 })) state
      (after.1, ⟨after.2.byOid, after.2.byName⟩) := by
    intro names
    induction names with
    | nil => exact fun state => rfl
    | cons name rest ih =>
      intro state
      rw [List.foldl_cons, Tables.enterName, hadd]
      exact ih ((hashTableInsert state.2.byName name d).1,
        ⟨state.2.byOid, (hashTableInsert state.2.byName name d).2⟩)
  obtain ⟨oid, names⟩ := d
  cases names with
  | none => rfl
  | some names =>
    cases oid with
    | none => rfl
    | some oid =>
      simp only [Tables.append, Definition.names, Definition.oid, hadd]
      let first := hashTableInsert tables.byOid oid ⟨some oid, some names⟩
      exact hfold names (first.1, ⟨first.2, tables.byName⟩)

theorem schema_lookups_renamed :
    let calls : List (AppendCall SchemaDefinition SchemaDefinition) :=
      [.attributetype (some ⟨some (ascii "2.5.4.3"), some [ascii "cn"]⟩), .attributetype none,
        .attributetype (some ⟨some (ascii "2.5.4.3"), some [ascii "commonName"]⟩),
        .objectclass (some ⟨some (ascii "2.5.6.0"), none⟩)]
    ldapSchemaGetAttributetypeByOid (schemaAfter calls) (ascii "2.5.4.3") =
        some ⟨some (ascii "2.5.4.3"), some [ascii "commonName"]⟩ ∧
      ldapSchemaGetAttributetypeByName (schemaAfter calls) (ascii "cn") =
        some ⟨some (ascii "2.5.4.3"), some [ascii "cn"]⟩ ∧
      ldapSchemaGetObjectclassByOid (schemaAfter calls) (ascii "2.5.6.0") = none := by
  intro calls
  obtain ⟨hoid, hname, hclass, -⟩ := schema_lookups calls (HashTable.Visits.self _) (HashTable.Visits.self _)
  exact ⟨(hoid _).trans (by decide), (hname _).trans (by decide), (hclass _).trans (by decide)⟩

end Libdomain.Schema
