import Libdomain.Connection.SchemaIndexes
import Libdomain.Parsers.ClassNames

/-! # Definitions from descriptions

`attribute_type_callback` and `object_class_callback` of `ad_schema.c` enter what the parsers
make of a value. Of a description the schema reads the OID and the names, which both parsers
get right, whatever becomes of the other clauses.
-/
namespace Libdomain.Schema.Ad
open Libdomain.Connection Libdomain.Ragel Libdomain.Ragel.Expr Libdomain.Parsers

/-- The strings before the first null pointer of an array, which may be null itself. -/
def strings (array : Option (List (Option Bytes))) : Option (List Bytes) :=
  array.map fun cells => (cells.takeWhile Option.isSome).reduceOption

def attributeType (value : Bytes) : Option SchemaDefinition :=
  (AttributeTypeDescription.parseAttributeType (some value)).map fun r => ⟨r.atOid, strings r.atNames⟩

def objectClass (value : Bytes) : Option SchemaDefinition :=
  (ObjectClassDescription.parseObjectClass (some value)).map fun r => ⟨r.ocOid, strings r.ocNames⟩

/-- What the callback for one kind of definitions enters for a value. -/
def parseValue (kind : DefinitionKind) (value : Bytes) : Option SchemaDefinition :=
  match kind with
  | .attributetype => attributeType value
  | .objectclass => objectClass value

/-- What the schema takes from a text: its numeric OID and its names. -/
structure Description where
  oid : Bytes
  names : List Bytes
  deriving DecidableEq

/-- The parsers leave the array of a description without names null. -/
def Description.definition (d : Description) : SchemaDefinition :=
  ⟨some d.oid, if d.names = [] then none else some d.names⟩

def describedType (t : AttributeTypeDescription.Text) : Description :=
  ⟨t.oid.1, t.names.elim [] fun x => x.2.names⟩

def describedClass (t : ObjectClassDescription.Text) : Description :=
  ⟨t.oid.1, t.names.elim [] fun x => x.2.names⟩

theorem strings_arrayOf (names : List Bytes) : strings (arrayOf names) = if names = [] then none else some names := by
  have htake : ((names.map some ++ [none]).takeWhile Option.isSome).reduceOption = names := by
    induction names with
    | nil => rfl
    | cons name names ih =>
      rw [List.map_cons, List.cons_append, List.takeWhile_cons_of_pos rfl]
      exact congrArg (name :: ·) ih
  rw [arrayOf]
  split_ifs with h
  · rfl
  · exact congrArg some htake

theorem bind_arrayOf {α : Type} (x : Option (α × QDescrs)) :
    (x.map fun x => x.2.names).bind arrayOf = arrayOf (x.elim [] fun x => x.2.names) := by
  cases x with
  | none => rfl
  | some x => rfl

theorem exists_run (t : AttributeTypeDescription.Text) :
    ∃ s, AttributeTypeDescription.main.run AttributeTypeDescription.act t.text {} = some s ∧ s.result = t.value := by
  obtain ⟨before, hlabel⟩ : ∃ before, exec AttributeTypeDescription.main.actions AttributeTypeDescription.act
        [(opt AttributeTypeDescription.label).parts 0 ++ opening .start .oidEnd AttributeTypeDescription.afterOid] []
        (labelText t.label ++ t.description) {} =
      exec AttributeTypeDescription.main.actions AttributeTypeDescription.act
        [opening .start .oidEnd AttributeTypeDescription.afterOid] before t.description {} :=
    exec_label (by decide) (by decide) (e := AttributeTypeDescription.label) rfl rfl t.label .start .oidEnd
      AttributeTypeDescription.afterOid _ _
  obtain ⟨s, hexec, hfields⟩ := AttributeTypeDescription.exec_description t before {}
  refine ⟨s, hlabel.trans hexec, ?_⟩
  rw [← AttributeTypeDescription.write_value]
  exact congrArg Prod.snd hfields

theorem attributeType_text (t : AttributeTypeDescription.Text) :
    attributeType t.text = some (describedType t).definition := by
  obtain ⟨s, hrun, hvalue⟩ := exists_run t
  have hne : t.text.length ≠ 0 := by simp [AttributeTypeDescription.Text.text_eq, AttributeTypeDescription.Text.description]
  have hparse : AttributeTypeDescription.parseAttributeType (some t.text) = some t.value := by
    rw [AttributeTypeDescription.parseAttributeType, if_neg hne,
      AttributeTypeDescription.parseAttributeTypeDescription, hrun, ← hvalue]
    rfl
  rw [attributeType, hparse, Option.map_some]
  simp only [AttributeTypeDescription.Text.value, bind_arrayOf, strings_arrayOf]
  rfl

theorem objectClass_text (t : ObjectClassDescription.Text) :
    objectClass t.text = some (describedClass t).definition := by
  have hkeys := ObjectClassDescription.parseObjectClass_keys t
  obtain ⟨r, hparse, hr⟩ := Option.map_eq_some_iff.mp hkeys
  obtain ⟨hoid, hnames⟩ := Prod.mk.inj hr
  rw [objectClass, hparse, Option.map_some, hoid, hnames]
  simp only [ObjectClassDescription.Text.value, bind_arrayOf, strings_arrayOf]
  rfl

end Libdomain.Schema.Ad
