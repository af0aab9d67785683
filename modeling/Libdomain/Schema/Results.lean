import Libdomain.Entry.Attributes
import Libdomain.Schema.Tables

/-! # Results of insertions

The functions that enter a definition or an attribute report whether the key of their last
insertion was new, while the tables take the value in either case.
-/
namespace Libdomain.Schema
open Libdomain.Connection Libdomain.Memory

variable {α β γ δ : Type} [Definition α] [Definition β] [Definition δ] [Entry.Attribute γ]

def Tables.SameLookups (tables tables' : Tables δ) : Prop :=
  (∀ oid, tables'.byOid.lookup oid = tables.byOid.lookup oid) ∧
    ∀ name, tables'.byName.lookup name = tables.byName.lookup name

def Tables.Finds (tables : Tables δ) (d : δ) : Prop :=
  ∃ oid names, Definition.oid d = some oid ∧ Definition.names d = some names ∧
    tables.byOid.lookup oid = some d ∧ ∀ name ∈ names, tables.byName.lookup name = some d

/-- The last key under which the definition is entered is new when it is entered there: the
last name, or the OID of a definition without names. -/
def Tables.LastKeyNew (tables : Tables δ) (d : δ) : Prop :=
  ∃ oid names, Definition.oid d = some oid ∧ Definition.names d = some names ∧
    (names = [] ∧ oid ∉ tables.byOid ∨
      ∃ front last, names = front ++ [last] ∧ last ∉ front ∧ last ∉ tables.byName)

/-- A failure leaves the lookups alone, and a success means that the definition is found. -/
def Tables.Honest (tables : Tables δ) (d : Option δ) : Prop :=
  ((tables.append d).1 = false → tables.SameLookups (tables.append d).2) ∧
    ((tables.append d).1 = true → ∃ e, d = some e ∧ (tables.append d).2.Finds e)

theorem append_result_nil (tables : Tables δ) {d : δ} {oid : Bytes} (hoid : Definition.oid d = some oid)
    (hnames : Definition.names d = some []) : (tables.append (some d)).1 = true ↔ oid ∉ tables.byOid := by
  rw [Tables.append, hnames, hoid]
  simp [HashTable.add]

theorem append_result_concat (tables : Tables δ) {d : δ} {oid last : Bytes} {front : List Bytes}
    (hoid : Definition.oid d = some oid) (hnames : Definition.names d = some (front ++ [last])) :
    (tables.append (some d)).1 = true ↔ last ∉ front ∧ last ∉ tables.byName := by
  have hkeys : (front.map fun name => (name, d)).map Prod.fst = front := by
    rw [List.map_map]
    exact List.map_id front
  rw [Tables.append, hnames, hoid]
  simp only [List.foldl_append, List.foldl_cons, List.foldl_nil, Tables.enterName, foldl_enterName, HashTable.add,
    decide_eq_true_eq, HashTable.mem_insertAll, hkeys, not_or]

theorem append_result (tables : Tables δ) {d : δ} {oid : Bytes} {names : List Bytes}
    (hoid : Definition.oid d = some oid) (hnames : Definition.names d = some names) :
    (tables.append (some d)).1 = true ↔ tables.LastKeyNew d := by
  rcases List.eq_nil_or_concat names with rfl | ⟨front, last, rfl⟩
  · rw [append_result_nil tables hoid hnames]
    simp [Tables.LastKeyNew, hoid, hnames]
  · rw [List.concat_eq_append] at hnames
    rw [append_result_concat tables hoid hnames]
    constructor
    · rintro ⟨hfront, hlast⟩
      exact ⟨oid, _, hoid, hnames, .inr ⟨front, last, rfl, hfront, hlast⟩⟩
    · rintro ⟨oid', names', -, hnames', ⟨rfl, -⟩ | ⟨front', last', rfl, hfront, hlast⟩⟩
      · simp [hnames] at hnames'
      · rw [hnames, Option.some.injEq] at hnames'
        obtain ⟨rfl, hsingle⟩ := List.append_inj' hnames' rfl
        cases hsingle
        exact ⟨hfront, hlast⟩

omit [Definition δ] in
theorem lookup_insertAll_names (table : HashTable Bytes δ) (d : δ) (names : List Bytes) (name : Bytes) :
    (table.insertAll (names.map fun n => (n, d))).lookup name = if name ∈ names then some d else table.lookup name := by
  have hlatest := HashTable.latest_flatMap (fun _ : δ => names) [d] name
  rw [List.flatMap_singleton] at hlatest
  rw [HashTable.lookup_insertAll, hlatest]
  by_cases h : name ∈ names
  · simp [h]
  · simp [h]

/-- A complete definition is found behind the call. -/
theorem append_finds (tables : Tables δ) {d : δ} {oid : Bytes} {names : List Bytes}
    (hoid : Definition.oid d = some oid) (hnames : Definition.names d = some names) :
    (tables.append (some d)).2.Finds d := by
  rw [append_complete tables hoid hnames]
  refine ⟨oid, names, hoid, hnames, AList.lookup_insert _, fun name hname => ?_⟩
  rw [lookup_insertAll_names, if_pos hname]

/-- The call leaves the lookups alone exactly if the definition was found before. -/
theorem append_sameLookups (tables : Tables δ) {d : δ} {oid : Bytes} {names : List Bytes}
    (hoid : Definition.oid d = some oid) (hnames : Definition.names d = some names) :
    tables.SameLookups (tables.append (some d)).2 ↔ tables.Finds d := by
  rw [append_complete tables hoid hnames]
  constructor
  · rintro ⟨hbyOid, hbyName⟩
    refine ⟨oid, names, hoid, hnames, ?_, fun name hname => ?_⟩
    · rw [← hbyOid oid, AList.lookup_insert]
    · rw [← hbyName name, lookup_insertAll_names, if_pos hname]
  · rintro ⟨oid', names', hoid', hnames', hfound, hall⟩
    cases hoid.symm.trans hoid'
    cases hnames.symm.trans hnames'
    constructor
    · intro o
      by_cases ho : o = oid
      · rw [ho, AList.lookup_insert, hfound]
      · exact AList.lookup_insert_ne ho
    · intro name
      rw [lookup_insertAll_names]
      split_ifs with hname
      · exact (hall name hname).symm
      · rfl

/-- The result is honest exactly if nothing is entered, if the last key is new, or if all
keys lead to the definition already. -/
theorem append_honest (tables : Tables δ) (d : Option δ) :
    tables.Honest d ↔ d.filter complete = none ∨ ∃ e, d = some e ∧ (tables.LastKeyNew e ∨ tables.Finds e) := by
  cases hfilter : d.filter complete with
  | none =>
    rw [Tables.Honest, append_refused tables hfilter]
    exact iff_of_true ⟨fun _ => ⟨fun _ => rfl, fun _ => rfl⟩, fun h => by cases h⟩ (.inl rfl)
  | some e =>
    obtain ⟨rfl, hcomplete⟩ := Option.filter_eq_some_iff.mp hfilter
    rw [complete, Bool.and_eq_true, Option.isSome_iff_exists, Option.isSome_iff_exists] at hcomplete
    obtain ⟨⟨oid, hoid⟩, names, hnames⟩ := hcomplete
    have hresult := append_result tables hoid hnames
    have hsame := append_sameLookups tables hoid hnames
    simp only [Tables.Honest, reduceCtorEq, false_or, Option.some.injEq, exists_eq_left', hsame]
    rw [← hresult]
    constructor
    · rintro ⟨hfailure, -⟩
      cases htrue : (tables.append (some e)).1 with
      | false => exact .inr (hfailure htrue)
      | true => exact .inl rfl
    · rintro (htrue | hfound)
      · exact ⟨fun hfalse => absurd (htrue.symm.trans hfalse) (by decide), fun _ => append_finds tables hoid hnames⟩
      · exact ⟨fun _ => hfound, fun _ => append_finds tables hoid hnames⟩

def LdapSchema.SameLookups (schema schema' : LdapSchema α β) : Prop :=
  (∀ oid, ldapSchemaGetAttributetypeByOid schema' oid = ldapSchemaGetAttributetypeByOid schema oid) ∧
    (∀ name, ldapSchemaGetAttributetypeByName schema' name = ldapSchemaGetAttributetypeByName schema name) ∧
    (∀ oid, ldapSchemaGetObjectclassByOid schema' oid = ldapSchemaGetObjectclassByOid schema oid) ∧
    ∀ name, ldapSchemaGetObjectclassByName schema' name = ldapSchemaGetObjectclassByName schema name

def AppendCall.Found (schema : LdapSchema α β) : AppendCall α β → Prop
  | .attributetype d => ∃ e, d = some e ∧ schema.attributeTypes.Finds e
  | .objectclass d => ∃ e, d = some e ∧ schema.objectClasses.Finds e

/-- A failure leaves the lookups alone, and after a success the definition is found. -/
def AppendCall.Honest (schema : LdapSchema α β) (call : AppendCall α β) : Prop :=
  ((call.run schema).1 = false → schema.SameLookups (call.run schema).2) ∧
    ((call.run schema).1 = true → call.Found (call.run schema).2)

/-- Nothing is entered, the last key is new, or all keys lead to the definition already. -/
def Tables.Fresh (tables : Tables δ) (d : Option δ) : Prop :=
  d.filter complete = none ∨ ∃ e, d = some e ∧ (tables.LastKeyNew e ∨ tables.Finds e)

def AppendCall.Fresh (schema : LdapSchema α β) : AppendCall α β → Prop
  | .attributetype d => schema.attributeTypes.Fresh d
  | .objectclass d => schema.objectClasses.Fresh d

/-- A failure leaves the lookups alone, and after a success the attribute is found. -/
def AddHonest (entry : Entry.Attributes γ) (attr : Option γ) : Prop :=
  let after := Entry.ldEntryAddAttribute entry attr
  (after.1 = .failure → ∀ name, Entry.ldEntryGetAttribute after.2 name = Entry.ldEntryGetAttribute entry name) ∧
    (after.1 = .success → ∃ a name, attr = some a ∧ Entry.Attribute.name a = some name ∧
      Entry.ldEntryGetAttribute after.2 name = some a)

/-- The attribute has no name, its name is new, or the name leads to it already. -/
def AddFresh (entry : Entry.Attributes γ) (attr : Option γ) : Prop :=
  ∀ a, attr = some a → ∀ name, Entry.Attribute.name a = some name →
    name ∉ entry ∨ Entry.ldEntryGetAttribute entry name = some a

theorem run_honest (schema : LdapSchema α β) (call : AppendCall α β) : call.Honest schema ↔ call.Fresh schema := by
  cases call with
  | attributetype d =>
    have h := append_honest schema.attributeTypes d
    rw [AppendCall.Fresh, Tables.Fresh, ← h, Tables.Honest, AppendCall.Honest]
    refine and_congr (imp_congr_right fun _ => ?_) Iff.rfl
    exact ⟨fun hsame => ⟨hsame.1, hsame.2.1⟩, fun hsame => ⟨hsame.1, hsame.2, fun _ => rfl, fun _ => rfl⟩⟩
  | objectclass d =>
    have h := append_honest schema.objectClasses d
    rw [AppendCall.Fresh, Tables.Fresh, ← h, Tables.Honest, AppendCall.Honest]
    refine and_congr (imp_congr_right fun _ => ?_) Iff.rfl
    exact ⟨fun hsame => hsame.2.2, fun hsame => ⟨fun _ => rfl, fun _ => rfl, hsame.1, hsame.2⟩⟩

theorem add_honest (entry : Entry.Attributes γ) (attr : Option γ) : AddHonest entry attr ↔ AddFresh entry attr := by
  cases hattr : attr.bind Entry.Attribute.name with
  | none =>
    rw [AddHonest, Entry.add_unnamed entry hattr]
    refine iff_of_true ⟨fun _ _ => rfl, fun h => by cases h⟩ ?_
    rintro a rfl name hname
    simp [hname] at hattr
  | some name =>
    obtain ⟨a, rfl, hname⟩ := Option.bind_eq_some_iff.mp hattr
    rw [AddHonest, Entry.add_named entry hname]
    have hfound : Entry.ldEntryGetAttribute (entry.insert name a) name = some a := AList.lookup_insert _
    simp only [AddFresh, Option.some.injEq, forall_eq', hname]
    by_cases hmem : name ∈ entry
    · simp only [hmem, if_true, not_true_eq_false, false_or, forall_const, reduceCtorEq, false_implies, and_true]
      constructor
      · intro h
        rw [← h name, hfound]
      · intro h key
        by_cases hkey : key = name
        · rw [hkey, hfound, h]
        · exact AList.lookup_insert_ne hkey
    · simp [hmem, hname, hfound]

/-- A failure means that nothing was inserted, and a success that the new value is found,
exactly when nothing is entered, the last key is new or the keys lead to the value already. -/
theorem insertions_honest (schema : LdapSchema α β) (call : AppendCall α β) (entry : Entry.Attributes γ)
    (attr : Option γ) :
    (call.Honest schema ↔ call.Fresh schema) ∧ (AddHonest entry attr ↔ AddFresh entry attr) :=
  ⟨run_honest schema call, add_honest entry attr⟩

/-- An attribute type that shares its last name with another one is reported as refused and
found all the same, and so is an attribute under a name that an entry has already. -/
theorem insertions_not_honest :
    let schema : LdapSchema SchemaDefinition SchemaDefinition :=
      schemaAfter [.attributetype (some ⟨some (ascii "2.5.4.3"), some [ascii "cn"]⟩)]
    let call : AppendCall SchemaDefinition SchemaDefinition :=
      .attributetype (some ⟨some (ascii "2.5.4.49"), some [ascii "distinguishedName", ascii "cn"]⟩)
    let entry : Entry.Attributes LdapAttribute := Entry.entryAfter [some ⟨some (ascii "cn"), some [ascii "a"]⟩]
    ¬call.Honest schema ∧ ¬AddHonest entry (some ⟨some (ascii "cn"), some [ascii "b"]⟩) := by
  intro schema call entry
  constructor
  · intro h
    have hsame := (h.1 (by decide)).1 (ascii "2.5.4.49")
    revert hsame
    decide
  · intro h
    have hsame := h.1 (by decide) (ascii "cn")
    revert hsame
    decide

end Libdomain.Schema
