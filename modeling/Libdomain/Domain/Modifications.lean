import Libdomain.Domain.Entries
import Libdomain.Entry.Arrays

/-! # From attributes to modifications

`fill_attributes` of `domain.c` copies an array of attributes into an array of
modifications, which `ld_add_entry`, `ld_mod_entry` and `ld_mod_entry_attrs` hand to the
library. It reads the values of every attribute, also where their array is null.
-/
namespace Libdomain.Domain
open Libdomain.Connection Libdomain.Memory Libdomain.Entry

structure LdapModT where
  modOp : Int
  modType : Bytes
  modValues : Cells Bytes
  deriving DecidableEq, Repr

/-- `"%s,%s"` with an empty prefix, and else `"%s=%s,%s"`. -/
def attrsDnOf (namePrefix name parent : Bytes) : Bytes :=
  if 0 < namePrefix.length then dnOf namePrefix name parent else name ++ (0x2c :: parent)

def ldModEntryAttrs (name parent : Option Bytes) (namePrefix : Bytes) (entryAttrs : List EntryAttribute) (opcode : Int)
    (sent : Sent) : Action OperationReturnCode :=
  checked name fun entryName => checked parent fun entryParent =>
    modify (attrsDnOf namePrefix entryName entryParent) (fillAttributes entryAttrs opcode) sent

namespace Arrays

/-- One iteration of the loop of `fill_attributes`. -/
def fillModification (modOp : Int) (attr : LdapAttributeT) : Except Memory.Fault LdapModT := do
  let modType ← allocated attr.name
  let values ← deref attr.values
  let modValues ← duplicate .ok values
  return ⟨modOp, modType, modValues⟩

/-- `fill_attributes`; its result is null when a copy is. -/
def fillAttributes (entryAttrs : Cells LdapAttributeT) (modOp : Int) :
    Except Memory.Fault (Option (Cells LdapModT)) :=
  match duplicate (fillModification modOp) entryAttrs with
  | .ok attrs => .ok (some attrs)
  | .error .allocation => .ok none
  | .error fault => .error fault

/-- The modifications that the library reads from the array. -/
def modifications (attrs : Option (Cells LdapModT)) : List LdapMod :=
  (attrs.elim [] elements).map fun mod => ⟨mod.modOp, mod.modType, elements mod.modValues⟩

/-- An operation with the modifications that `fill_attributes` makes. -/
def withModifications (entryAttrs : Cells LdapAttributeT) (modOp : Int)
    (operation : List LdapMod → Action OperationReturnCode) : Action OperationReturnCode :=
  match fillAttributes entryAttrs modOp with
  | .ok attrs => operation (modifications attrs)
  | .error _ => throw .invalidPointer

def ldAddEntry (name parent : Option Bytes) (namePrefix : Bytes) (entryAttrs : Cells LdapAttributeT) (sent : Sent) :
    Action OperationReturnCode :=
  checked name fun entryName => checked parent fun entryParent =>
    withModifications entryAttrs ldapModAdd fun attrs => add (dnOf namePrefix entryName entryParent) attrs sent

def ldModEntry (name parent : Option Bytes) (namePrefix : Bytes) (entryAttrs : Cells LdapAttributeT) (sent : Sent) :
    Action OperationReturnCode :=
  checked name fun entryName => checked parent fun entryParent =>
    withModifications entryAttrs ldapModReplace fun attrs => modify (dnOf namePrefix entryName entryParent) attrs sent

def ldModEntryAttrs (name parent : Option Bytes) (namePrefix : Bytes) (entryAttrs : Cells LdapAttributeT)
    (opcode : Int) (sent : Sent) : Action OperationReturnCode :=
  checked name fun entryName => checked parent fun entryParent =>
    withModifications entryAttrs opcode fun attrs => modify (attrsDnOf namePrefix entryName entryParent) attrs sent

end Arrays

/-- What an attribute stands for: its values, or no value if the pointer is null. -/
def meaning (e : Bytes × GivenAttribute) : EntryAttribute := (e.1, (e.2.values.map ValueArray.values).getD [])

def modificationOf (modOp : Int) (e : Bytes × GivenAttribute) : LdapModT := ⟨modOp, e.1, terminate (meaning e).2⟩

theorem fillModification_copied (modOp : Int) (name : Bytes) (a : GivenAttribute) :
    Arrays.fillModification modOp (copied name a) =
      if a.values.isSome then .ok (modificationOf modOp (name, a)) else .error .nullDereference := by
  obtain ⟨n, values⟩ := a
  cases values with
  | none => rfl
  | some values =>
    have hcopy := duplicate_terminated (terminated_terminate values.values) .ok
    rw [mapM_ok] at hcopy
    change (duplicate .ok (terminate values.values) >>= _) = _
    rw [hcopy]
    rfl

/-- The array becomes modifications exactly if every attribute has values. -/
theorem fillAttributes_copied (given : List (Bytes × GivenAttribute)) (modOp : Int) :
    Arrays.fillAttributes (terminate (given.map fun e => copied e.1 e.2)) modOp =
      if given.all fun e => e.2.values.isSome then .ok (some (terminate (given.map (modificationOf modOp))))
      else .error .nullDereference := by
  have hmap : (given.map fun e => copied e.1 e.2).mapM (Arrays.fillModification modOp) =
      if given.all fun e => e.2.values.isSome then .ok (given.map (modificationOf modOp))
      else .error .nullDereference := by
    rw [List.mapM_map]
    induction given with
    | nil => rfl
    | cons e given ih =>
      rw [List.mapM_cons]
      change (Arrays.fillModification modOp (copied e.1 e.2) >>= _) = _
      rw [fillModification_copied, ih]
      cases hvalues : e.2.values with
      | none => simp [hvalues, bind, Except.bind]
      | some values =>
        by_cases hall : given.all fun e => e.2.values.isSome
        · simp [hvalues, hall, bind, Except.bind, pure, Except.pure]
        · simp [hvalues, hall, bind, Except.bind]
  rw [Arrays.fillAttributes, duplicate_terminated (terminated_terminate _), hmap]
  split_ifs <;> rfl

theorem modifications_of (given : List (Bytes × GivenAttribute)) (modOp : Int) :
    Arrays.modifications (some (terminate (given.map (modificationOf modOp)))) =
      fillAttributes (given.map meaning) modOp := by
  rw [Arrays.modifications, Option.elim_some, (terminated_terminate _).elements_eq, List.map_map, fillAttributes,
    List.map_map]
  refine List.map_congr_left fun e _ => ?_
  change (⟨modOp, e.1, elements (terminate (meaning e).2)⟩ : LdapMod) = _
  rw [(terminated_terminate _).elements_eq]
  rfl

theorem withModifications_copied {given : List (Bytes × GivenAttribute)} (h : ∀ e ∈ given, e.2.values.isSome)
    (modOp : Int) (operation : List LdapMod → Action OperationReturnCode) :
    Arrays.withModifications (terminate (given.map fun e => copied e.1 e.2)) modOp operation =
      operation (fillAttributes (given.map meaning) modOp) := by
  have hall : (given.all fun e => e.2.values.isSome) = true := List.all_eq_true.mpr h
  rw [Arrays.withModifications, fillAttributes_copied, if_pos hall, ← modifications_of]

def givenArray (c : Bytes × ValueArray) : GivenAttribute := ⟨some c.1, some c.2⟩

/-- One modification for each name that was added, with the last values under the name. -/
def Survives (calls : List (Bytes × ValueArray)) (modOp : Int) (mods : List LdapModT) : Prop :=
  (mods.map LdapModT.modType).Nodup ∧
    (∀ name, name ∈ mods.map LdapModT.modType ↔ name ∈ calls.map Prod.fst) ∧
    ∀ mod ∈ mods, mod.modOp = modOp ∧
      ∃ array, HashTable.latest calls mod.modType = some array ∧ mod.modValues = terminate array.values

theorem lastNamed_givenArray (calls : List (Bytes × ValueArray)) (name : Bytes) :
    lastNamed (calls.map fun c => some (givenArray c)) name =
      (HashTable.latest calls name).map fun array => givenArray (name, array) := by
  have hadded : added (calls.map fun c => some (givenArray c)) = calls.map givenArray := by
    rw [added, List.filterMap_map, ← List.filterMap_eq_map]
    rfl
  have hname : (fun a : GivenAttribute => decide (Attribute.name a = some name)) ∘ givenArray =
      fun c => decide (c.1 = name) := by
    funext c
    simp [Attribute.name, givenArray]
  rw [lastNamed, hadded, HashTable.latest, ← List.map_reverse, List.find?_map, hname]
  cases hfind : calls.reverse.find? fun c => decide (c.1 = name) with
  | none => rfl
  | some c =>
    have hc : c.1 = name := by simpa using List.find?_some hfind
    rw [Option.map_some, Option.map_some, Option.map_some, ← hc]

theorem survives_modificationOf {calls : List (Bytes × ValueArray)} {given : List (Bytes × GivenAttribute)}
    (hnodup : (given.map Prod.fst).Nodup)
    (hgiven : ∀ name a, (name, a) ∈ given ↔ lastNamed (calls.map fun c => some (givenArray c)) name = some a)
    (modOp : Int) : Survives calls modOp (given.map (modificationOf modOp)) := by
  have htypes : (given.map (modificationOf modOp)).map LdapModT.modType = given.map Prod.fst := by
    rw [List.map_map]
    rfl
  have hlatest : ∀ name a, (name, a) ∈ given ↔
      ∃ array, HashTable.latest calls name = some array ∧ givenArray (name, array) = a := by
    intro name a
    rw [hgiven, lastNamed_givenArray, Option.map_eq_some_iff]
  refine ⟨htypes ▸ hnodup, fun name => ?_, fun mod hmod => ?_⟩
  · rw [htypes, List.mem_map, ← HashTable.latest_isSome, Option.isSome_iff_exists]
    constructor
    · rintro ⟨⟨name, a⟩, hmem, rfl⟩
      obtain ⟨array, harray, -⟩ := (hlatest name a).mp hmem
      exact ⟨array, harray⟩
    · rintro ⟨array, harray⟩
      exact ⟨_, (hlatest name _).mpr ⟨array, harray, rfl⟩, rfl⟩
  · obtain ⟨⟨name, a⟩, hmem, rfl⟩ := List.mem_map.mp hmod
    obtain ⟨array, harray, rfl⟩ := (hlatest name a).mp hmem
    exact ⟨rfl, array, harray, rfl⟩

/-- The attributes of an entry reach the server: each name once, with the values that were
added last under it. -/
theorem attributes_survive (calls : List (Bytes × ValueArray)) {visited : List (Bytes × LdapAttributeT)}
    (h : (builtEntry (calls.map fun c => some (givenArray c))).Visits visited) :
    ∃ attrs addMods replaceMods,
      ldEntryGetAttributes (builtEntry (calls.map fun c => some (givenArray c))) visited = .ok attrs ∧
      Arrays.fillAttributes attrs ldapModAdd = .ok (some (terminate addMods)) ∧
      Survives calls ldapModAdd addMods ∧
      Arrays.fillAttributes attrs ldapModReplace = .ok (some (terminate replaceMods)) ∧
      Survives calls ldapModReplace replaceMods ∧
      ∀ name parent namePrefix sent,
        Arrays.ldAddEntry name parent namePrefix attrs sent =
          (checked name fun entryName => checked parent fun entryParent =>
            add (dnOf namePrefix entryName entryParent) (Arrays.modifications (some (terminate addMods))) sent) ∧
        Arrays.ldModEntry name parent namePrefix attrs sent =
          checked name fun entryName => checked parent fun entryParent =>
            modify (dnOf namePrefix entryName entryParent) (Arrays.modifications (some (terminate replaceMods)))
              sent := by
  obtain ⟨given, hget, hnodup, hgiven⟩ := ldEntryGetAttributes_built _ h
  have hvalues : (given.all fun e => e.2.values.isSome) = true := by
    rw [List.all_eq_true]
    intro e he
    have hlast := (hgiven e.1 e.2).mp he
    rw [lastNamed_givenArray, Option.map_eq_some_iff] at hlast
    obtain ⟨array, -, harray⟩ := hlast
    rw [← harray]
    rfl
  have hfill : ∀ modOp, Arrays.fillAttributes (terminate (given.map fun e => copied e.1 e.2)) modOp =
      .ok (some (terminate (given.map (modificationOf modOp)))) := by
    intro modOp
    rw [fillAttributes_copied, if_pos hvalues]
  refine ⟨_, _, _, hget, hfill _, survives_modificationOf hnodup hgiven _, hfill _,
    survives_modificationOf hnodup hgiven _, fun name parent namePrefix sent => ⟨?_, ?_⟩⟩
  · simp only [Arrays.ldAddEntry, Arrays.withModifications, hfill]
  · simp only [Arrays.ldModEntry, Arrays.withModifications, hfill]

theorem attributes_survive_replaced :
    let values : ValueArray := ⟨[.set (ascii "b"), .set (ascii "c"), .null, .unset], [ascii "b", ascii "c"], ⟨[.unset], rfl⟩⟩
    let calls : List (Bytes × ValueArray) :=
      [(ascii "cn", ⟨[.set (ascii "a"), .null], [ascii "a"], ⟨[], rfl⟩⟩), (ascii "mail", ⟨[.null], [], ⟨[], rfl⟩⟩),
        (ascii "cn", values)]
    ∃ attrs addMods, Arrays.fillAttributes attrs ldapModAdd = .ok (some (terminate addMods)) ∧
      Survives calls ldapModAdd addMods ∧
      ∀ mod ∈ addMods, mod.modType = ascii "cn" → mod.modValues = terminate [ascii "b", ascii "c"] := by
  intro values calls
  obtain ⟨attrs, addMods, -, -, hfill, ⟨hnodup, hnames, hmods⟩, -⟩ :=
    attributes_survive calls (HashTable.Visits.self _)
  refine ⟨attrs, addMods, hfill, ⟨hnodup, hnames, hmods⟩, fun mod hmod htype => ?_⟩
  obtain ⟨-, array, harray, hvalues⟩ := hmods mod hmod
  have hlatest : HashTable.latest calls (ascii "cn") = some values := rfl
  rw [htype, hlatest, Option.some.injEq] at harray
  rw [hvalues, ← harray]

/-- The array of the entry can be given to the three operations. Nothing is read through a
null pointer, and an attribute whose values are null is sent as one without values. -/
def Safe (calls : List (Option GivenAttribute)) (visited : List (Bytes × LdapAttributeT)) : Prop :=
  ∃ attrs expected, ldEntryGetAttributes (builtEntry calls) visited = .ok attrs ∧
    (expected.map Prod.fst).Nodup ∧
    (∀ name values, (name, values) ∈ expected ↔
      ∃ a, lastNamed calls name = some a ∧ (a.values.map ValueArray.values).getD [] = values) ∧
    (∀ modOp, Arrays.fillAttributes attrs modOp =
      .ok (some (terminate (expected.map fun e => ⟨modOp, e.1, terminate e.2⟩)))) ∧
    ∀ name parent namePrefix sent,
      Arrays.ldAddEntry name parent namePrefix attrs sent = ldAddEntry name parent namePrefix expected sent ∧
      Arrays.ldModEntry name parent namePrefix attrs sent = ldModEntry name parent namePrefix expected sent ∧
      ∀ opcode, Arrays.ldModEntryAttrs name parent namePrefix attrs opcode sent =
        ldModEntryAttrs name parent namePrefix expected opcode sent

/-- The operations are safe exactly if the attributes that the entry keeps all have values. -/
theorem safe_iff (calls : List (Option GivenAttribute)) {visited : List (Bytes × LdapAttributeT)}
    (h : (builtEntry calls).Visits visited) :
    Safe calls visited ↔ ∀ name a, lastNamed calls name = some a → a.values.isSome := by
  obtain ⟨given, hget, hnodup, hgiven⟩ := ldEntryGetAttributes_built calls h
  constructor
  · rintro ⟨attrs, expected, hattrs, -, -, hfill, -⟩ name a ha
    have hsame : terminate (given.map fun e => copied e.1 e.2) = attrs := Except.ok.inj (hget.symm.trans hattrs)
    have hmods := hfill ldapModAdd
    rw [← hsame, fillAttributes_copied] at hmods
    split_ifs at hmods with hall
    exact List.all_eq_true.mp hall (name, a) ((hgiven name a).mpr ha)
  · intro hvalues
    have heach : ∀ e ∈ given, e.2.values.isSome := fun e he => hvalues e.1 e.2 ((hgiven e.1 e.2).mp he)
    have hall : (given.all fun e => e.2.values.isSome) = true := List.all_eq_true.mpr heach
    have hkeys : (given.map meaning).map Prod.fst = given.map Prod.fst := by
      rw [List.map_map]
      rfl
    refine ⟨_, given.map meaning, hget, hkeys ▸ hnodup, fun name values => ?_, fun modOp => ?_,
      fun name parent namePrefix sent => ⟨?_, ?_, fun opcode => ?_⟩⟩
    · rw [List.mem_map]
      constructor
      · rintro ⟨⟨n, a⟩, hmem, hpair⟩
        cases hpair
        exact ⟨a, (hgiven n a).mp hmem, rfl⟩
      · rintro ⟨a, ha, rfl⟩
        exact ⟨(name, a), (hgiven name a).mpr ha, rfl⟩
    · rw [fillAttributes_copied, if_pos hall, List.map_map]
      rfl
    · simp only [Arrays.ldAddEntry, ldAddEntry, withModifications_copied heach]
    · simp only [Arrays.ldModEntry, ldModEntry, withModifications_copied heach]
    · simp only [Arrays.ldModEntryAttrs, ldModEntryAttrs, withModifications_copied heach]

theorem safe_iff_values :
    let calls : List (Option GivenAttribute) :=
      [none, some ⟨some (ascii "cn"), none⟩, some ⟨some (ascii "cn"), some ⟨[.null], [], ⟨[], rfl⟩⟩⟩]
    Safe calls ((builtEntry calls).entries.map fun e => (e.1, e.2)) := by
  intro calls
  refine (safe_iff calls (HashTable.Visits.self _)).mpr fun name a ha => ?_
  by_cases hname : name = ascii "cn"
  · have hlast : lastNamed calls (ascii "cn") = some ⟨some (ascii "cn"), some ⟨[.null], [], ⟨[], rfl⟩⟩⟩ := rfl
    rw [hname, hlast] at ha
    cases ha
    rfl
  · have hnone : lastNamed calls name = none := by
      simp [lastNamed, added, calls, Attribute.name, Option.filter, Ne.symm hname]
    rw [hnone] at ha
    cases ha

/-- An attribute whose values are null is copied as it is, and read through. -/
theorem values_null_not_safe :
    let calls : List (Option GivenAttribute) := [some ⟨some (ascii "cn"), none⟩]
    ¬Safe calls ((builtEntry calls).entries.map fun e => (e.1, e.2)) := by
  rintro calls ⟨attrs, expected, hattrs, -, -, hfill, -⟩
  have hget : ldEntryGetAttributes (builtEntry calls) ((builtEntry calls).entries.map fun e => (e.1, e.2)) =
      .ok [.set ⟨some (ascii "cn"), none⟩, .null] := rfl
  rw [hget] at hattrs
  cases hattrs
  have hnull : Arrays.fillAttributes [.set ⟨some (ascii "cn"), none⟩, .null] ldapModAdd =
      .error .nullDereference := rfl
  have hok := hfill ldapModAdd
  rw [hnull] at hok
  cases hok

end Libdomain.Domain
