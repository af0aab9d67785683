import Libdomain.Connection.Entries
import Libdomain.Memory.HashTable

/-! # The attributes of an entry

The hash table of an `ld_entry_t`, whose values are the pointers that its callers give. Of
an attribute the table reads the name.
-/
namespace Libdomain.Entry
open Libdomain.Connection Libdomain.Memory

/-- What is read through a pointer to an attribute. -/
class Attribute (γ : Type) where
  name : γ → Option Bytes

abbrev Attributes (γ : Type) := HashTable Bytes γ

variable {γ : Type} [Attribute γ]

/-- `ld_entry_add_attribute` with an attribute that may be null. The result is the one of the
insertion. -/
def ldEntryAddAttribute (entry : Attributes γ) : Option γ → OperationReturnCode × Attributes γ
  | none => (.failure, entry)
  | some attr =>
    match Attribute.name attr with
    | none => (.failure, entry)
    | some name =>
      let added := entry.add name attr
      (if added.1 then .success else .failure, added.2)

def ldEntryGetAttribute (entry : Attributes γ) (name : Bytes) : Option γ := entry.lookup name

def entryAfter (calls : List (Option γ)) : Attributes γ :=
  calls.foldl (fun entry attr => (ldEntryAddAttribute entry attr).2) ∅

/-- The attributes that calls give and that have a name, in the order of the calls. -/
def added (calls : List (Option γ)) : List γ :=
  calls.filterMap fun attr => attr.filter fun attr => (Attribute.name attr).isSome

/-- The last attribute that was added under a name. -/
def lastNamed (calls : List (Option γ)) (name : Bytes) : Option γ :=
  (added calls).reverse.find? fun attr => Attribute.name attr = some name

theorem add_unnamed (entry : Attributes γ) {attr : Option γ} (h : attr.bind Attribute.name = none) :
    ldEntryAddAttribute entry attr = (.failure, entry) := by
  cases attr with
  | none => rfl
  | some a =>
    rw [Option.bind_some] at h
    rw [ldEntryAddAttribute, h]

theorem add_named (entry : Attributes γ) {attr : γ} {name : Bytes} (h : Attribute.name attr = some name) :
    ldEntryAddAttribute entry (some attr) =
      (if name ∈ entry then .failure else .success, entry.insert name attr) := by
  rw [ldEntryAddAttribute, h]
  simp [HashTable.add]

theorem entryAfter_eq (calls : List (Option γ)) :
    entryAfter calls =
      HashTable.insertAll ∅ ((added calls).flatMap fun a => (Attribute.name a).toList.map fun name => (name, a)) := by
  induction calls using List.reverseRecOn with
  | nil => rfl
  | append_singleton calls attr ih =>
    rw [entryAfter, List.foldl_append, ← entryAfter, ih, List.foldl_cons, List.foldl_nil]
    have hadded : added (calls ++ [attr]) = added calls ++ added [attr] := List.filterMap_append ..
    rw [hadded, List.flatMap_append, HashTable.insertAll_append]
    cases attr with
    | none => rfl
    | some a =>
      cases hname : Attribute.name a with
      | none =>
        have hnone : added [some a] = [] := by simp [added, Option.filter, hname]
        rw [add_unnamed _ (by rw [Option.bind_some, hname]), hnone]
        rfl
      | some name =>
        have hone : added [some a] = [a] := by simp [added, Option.filter, hname]
        rw [add_named _ hname, hone, List.flatMap_singleton, hname]
        rfl

/-- A lookup gives the attribute that was added last. -/
theorem lookup_entryAfter (calls : List (Option γ)) (name : Bytes) :
    ldEntryGetAttribute (entryAfter calls) name = lastNamed calls name := by
  have hlatest := HashTable.latest_flatMap (fun a : γ => (Attribute.name a).toList) (added calls) name
  rw [ldEntryGetAttribute, entryAfter_eq, HashTable.lookup_insertAll, hlatest, AList.lookup_empty, Option.or_none,
    lastNamed]
  congr 1
  funext attr
  cases hname : Attribute.name attr with
  | none => simp
  | some n => simp

instance : Attribute LdapAttribute := ⟨LdapAttribute.name⟩

/-- The entries that a search delivers have their attributes in such a table. -/
theorem ldEntryAddAttribute_eq (entry : LdEntry) (attr : LdapAttribute) :
    Connection.ldEntryAddAttribute entry attr =
      ((ldEntryAddAttribute entry.attributes (some attr)).1,
        { entry with attributes := (ldEntryAddAttribute entry.attributes (some attr)).2 }) := by
  cases hname : attr.name with
  | none => simp [Connection.ldEntryAddAttribute, ldEntryAddAttribute, Attribute.name, hname]
  | some name =>
    rw [add_named entry.attributes (show Attribute.name attr = some name from hname),
      Connection.ldEntryAddAttribute, hname]

end Libdomain.Entry
