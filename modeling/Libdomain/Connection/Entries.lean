import Libdomain.Connection.State

/-! # Search entries and the schema tables

How `search_on_read` turns a chain of messages into entries, and how the
callbacks of the schema searches move the values of such entries into the
schema of the connection.
-/
namespace Libdomain.Connection
open Libdomain.Program

def ldEntryNew (dn : Option Bytes) : Option LdEntry :=
  dn.map fun dn => ⟨dn, ∅⟩

/-- The result reports whether the name is new; the value is stored either way. -/
def ldEntryAddAttribute (entry : LdEntry) (attr : LdapAttribute) : OperationReturnCode × LdEntry :=
  match attr.name with
  | none => (.failure, entry)
  | some name =>
    (if name ∈ entry.attributes then .failure else .success,
      { entry with attributes := entry.attributes.insert name attr })

/-- `talloc_strdup` of a value stops at its first NUL. -/
def strdup (value : Bytes) : Bytes := value.takeWhile (· ≠ 0)

def readMessage (message : LdapMessage) : Option LdEntry :=
  (ldEntryNew message.dn).map fun entry =>
    message.attributes.foldl (fun entry a =>
      (ldEntryAddAttribute entry ⟨some (strdup a.1), some (a.2.map strdup)⟩).2) entry

/-- The entries handed to the search callback, or nothing when the loop gives up:
an allocation failed or a message has no DN. -/
def readEntries (r : Response) : Option (List LdEntry) :=
  if r.outOfMemory then none else r.chain.mapM readMessage

/-- `ld_entry_get_attributes`, in the order of the hash table. -/
def ldEntryGetAttributes (entry : LdEntry) : List LdapAttribute :=
  entry.attributes.entries.map fun a => ⟨some a.1, a.2.values⟩

/-- `g_hash_table_insert`: replaces the value of an equal key and reports whether
the key is new. -/
def hashTableInsert (table : AList fun _ : Bytes => SchemaDefinition) (key : Bytes)
    (d : SchemaDefinition) : Bool × AList fun _ : Bytes => SchemaDefinition :=
  (key ∉ table, table.insert key d)

/-- The insertion under the OID and then under each name; the result is the one
of the last insertion. -/
def appendDefinition (tables : DefinitionTables) (d : SchemaDefinition) : Bool × DefinitionTables :=
  match d.names, d.oid with
  | some names, some oid =>
    let (result, byOid) := hashTableInsert tables.byOid oid d
    names.foldl (fun state name =>
      let (result, byName) := hashTableInsert state.2.byName name d
      (result, { state.2 with byName := byName })) (result, { tables with byOid := byOid })
  | _, _ => (false, tables)

def ldapSchemaAppendAttributetype (schema : LdapSchema) (d : SchemaDefinition) : Bool × LdapSchema :=
  let (result, tables) := appendDefinition schema.attributeTypes d
  (result, { schema with attributeTypes := tables })

def ldapSchemaAppendObjectclass (schema : LdapSchema) (d : SchemaDefinition) : Bool × LdapSchema :=
  let (result, tables) := appendDefinition schema.objectClasses d
  (result, { schema with objectClasses := tables })

/-- `attribute_type_callback` and `object_class_callback`: parse a value and
append the definition it describes. -/
def appendValueCallback (append : LdapSchema → SchemaDefinition → Bool × LdapSchema)
    (parse : Bytes → Option SchemaDefinition) (value : Bytes) : Action OperationReturnCode := do
  match parse value with
  | none => return .failure
  | some d =>
    let (appended, schema) := append (← get).connection.schema d
    modifyConnection fun c => { c with schema := schema }
    return if appended then .success else .failure

/-- `subschema_subentry_callback` stores the value before it looks at it. -/
def subschemaSubentryCallback (value : Bytes) : Action OperationReturnCode := do
  modifyWorld fun w => { w with schemaEntryPath := some value }
  return if value = [] then .failure else .success

def untilFailure {α : Type} (callback : α → Action OperationReturnCode) :
    List α → Action OperationReturnCode
  | [] => return .success
  | x :: xs => do
    if (← callback x) = .failure then return .failure
    else untilFailure callback xs

/-- `ldap_schema_read_entry`. An attribute without values is never passed over. -/
def ldapSchemaReadEntry (callback : Bytes → Action OperationReturnCode) (entry : LdEntry) :
    Action OperationReturnCode :=
  untilFailure (fun a => match a.values with
    | none => throw .divergence
    | some values => untilFailure callback values) (ldEntryGetAttributes entry)

def ldapSchemaCallbackCommon (callback : Bytes → Action OperationReturnCode)
    (entries : List LdEntry) : Action OperationReturnCode :=
  untilFailure (ldapSchemaReadEntry callback) entries

end Libdomain.Connection
