import Libdomain.Entry.Attributes
import Libdomain.Memory.PointerArray

/-! # Arrays of attributes

`ld_entry_get_attributes` copies the hash table of an entry into a new array. The values of
an attribute are an array of strings or null, and so are those of its copy.
-/
namespace Libdomain.Entry
open Libdomain.Connection Libdomain.Memory

structure LdapAttributeT where
  name : Option Bytes
  values : Option (Cells Bytes)
  deriving DecidableEq, Repr

instance : Attribute LdapAttributeT := ⟨LdapAttributeT.name⟩

/-- `fill_attribute`, for the attribute of a key. -/
def fillAttribute (key : Bytes) (value : LdapAttributeT) : Except Memory.Fault LdapAttributeT :=
  match value.values with
  | none => .ok ⟨some key, none⟩
  | some values => (duplicate .ok values).map fun copy => ⟨some key, some copy⟩

/-- `ld_entry_get_attributes`, whose iteration visits the given pairs. -/
def ldEntryGetAttributes (entry : Attributes LdapAttributeT) (visited : List (Bytes × LdapAttributeT)) :
    Except Memory.Fault (Cells LdapAttributeT) :=
  collect (fun e => fillAttribute e.1 e.2) entry.size visited

/-- An array of strings with a mark behind them. -/
structure ValueArray where
  cells : Cells Bytes
  values : List Bytes
  terminated : Terminated cells values

structure GivenAttribute where
  name : Option Bytes
  values : Option ValueArray

def GivenAttribute.record (a : GivenAttribute) : LdapAttributeT := ⟨a.name, a.values.map ValueArray.cells⟩

instance : Attribute GivenAttribute := ⟨GivenAttribute.name⟩

def builtEntry (calls : List (Option GivenAttribute)) : Attributes LdapAttributeT :=
  entryAfter (calls.map fun a => a.map GivenAttribute.record)

/-- The copy of an attribute: its name, and its values in an array of their own. -/
def copied (name : Bytes) (a : GivenAttribute) : LdapAttributeT :=
  ⟨some name, a.values.map fun values => terminate values.values⟩

theorem mapM_ok (xs : List Bytes) : xs.mapM (.ok : Bytes → Except Memory.Fault Bytes) = .ok xs := by
  have h : xs.mapM (.ok : Bytes → Except Memory.Fault Bytes) = .ok (xs.map id) := mapM_of_ok fun _ _ => rfl
  rwa [List.map_id] at h

theorem fillAttribute_record (name : Bytes) (a : GivenAttribute) :
    fillAttribute name a.record = .ok (copied name a) := by
  obtain ⟨n, values⟩ := a
  cases values with
  | none => rfl
  | some values =>
    have hcopy := duplicate_terminated values.terminated .ok
    rw [mapM_ok] at hcopy
    simp only [fillAttribute, GivenAttribute.record, Option.map_some, hcopy]
    rfl

theorem added_record (calls : List (Option GivenAttribute)) :
    added (calls.map fun a => a.map GivenAttribute.record) = (added calls).map GivenAttribute.record := by
  rw [added, added, List.filterMap_map, List.map_filterMap]
  refine List.filterMap_congr fun a _ => ?_
  cases a with
  | none => rfl
  | some a =>
    obtain ⟨name, values⟩ := a
    cases name <;> rfl

theorem lookup_builtEntry (calls : List (Option GivenAttribute)) (name : Bytes) :
    (builtEntry calls).lookup name = (lastNamed calls name).map GivenAttribute.record := by
  have hlookup := lookup_entryAfter (calls.map fun a => a.map GivenAttribute.record) name
  rw [lastNamed, added_record, ← List.map_reverse, List.find?_map] at hlookup
  exact hlookup

theorem visited_records (calls : List (Option GivenAttribute)) {visited : List (Bytes × LdapAttributeT)}
    (h : (builtEntry calls).Visits visited) :
    ∃ given : List (Bytes × GivenAttribute), given.map (fun e => (e.1, e.2.record)) = visited ∧
      ∀ name a, (name, a) ∈ given ↔ lastNamed calls name = some a := by
  refine ⟨visited.filterMap fun e => (lastNamed calls e.1).map fun a => (e.1, a), ?_, fun name a => ⟨?_, ?_⟩⟩
  · rw [List.map_filterMap]
    refine (List.filterMap_congr fun e he => ?_).trans (List.filterMap_some ..)
    have hlookup := (h.mem_iff e.1 e.2).mp he
    rw [lookup_builtEntry, Option.map_eq_some_iff] at hlookup
    obtain ⟨a, ha, hrecord⟩ := hlookup
    rw [ha, Option.map_some, Option.map_some, hrecord]
  · intro hmem
    obtain ⟨e, -, he⟩ := List.mem_filterMap.mp hmem
    obtain ⟨b, hb, hpair⟩ := Option.map_eq_some_iff.mp he
    cases hpair
    exact hb
  · intro ha
    have hfound : (name, a.record) ∈ visited := by
      rw [h.mem_iff, lookup_builtEntry, ha, Option.map_some]
    exact List.mem_filterMap.mpr ⟨_, hfound, by rw [ha, Option.map_some]⟩

theorem ldEntryGetAttributes_records {entry : Attributes LdapAttributeT} {given : List (Bytes × GivenAttribute)}
    (h : entry.Visits (given.map fun e => (e.1, e.2.record))) :
    ldEntryGetAttributes entry (given.map fun e => (e.1, e.2.record)) =
      .ok (terminate (given.map fun e => copied e.1 e.2)) := by
  have hcopies : given.mapM (fun e => fillAttribute e.1 e.2.record) = .ok (given.map fun e => copied e.1 e.2) :=
    mapM_of_ok fun e _ => fillAttribute_record e.1 e.2
  rw [ldEntryGetAttributes, collect_visited _ h.length_eq, List.mapM_map]
  exact congrArg (Except.map terminate) hcopies

/-- The array of an entry has one copy for each name, that of the last attribute with it. -/
theorem ldEntryGetAttributes_built (calls : List (Option GivenAttribute)) {visited : List (Bytes × LdapAttributeT)}
    (h : (builtEntry calls).Visits visited) :
    ∃ given : List (Bytes × GivenAttribute),
      ldEntryGetAttributes (builtEntry calls) visited = .ok (terminate (given.map fun e => copied e.1 e.2)) ∧
      (given.map Prod.fst).Nodup ∧ ∀ name a, (name, a) ∈ given ↔ lastNamed calls name = some a := by
  obtain ⟨given, rfl, hgiven⟩ := visited_records calls h
  have hnodup := h.nodup
  rw [List.map_map] at hnodup
  exact ⟨given, ldEntryGetAttributes_records h, hnodup, hgiven⟩

end Libdomain.Entry
