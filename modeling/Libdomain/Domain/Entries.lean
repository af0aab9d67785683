import Libdomain.Connection.Requests
import Libdomain.Syntaxes.RelativeNames

/-! # Operations on entries

`ld_add_entry`, `ld_del_entry`, `ld_mod_entry` and `ld_rename_entry` of `domain.c`. They
write the name of an entry into its distinguished name as it is, and nothing in the library
escapes it.
-/
namespace Libdomain.Domain
open Libdomain.Connection Libdomain.Syntaxes Libdomain.Ragel Libdomain.Ragel.Expr

def ldapModAdd : Int := 0
def ldapModDelete : Int := 1
def ldapModReplace : Int := 2

def checkString : Option Bytes → Option Bytes
  | none => none
  | some input => if input.length = 0 then none else some input

abbrev EntryAttribute := Bytes × List Bytes

def fillAttributes (entryAttrs : List EntryAttribute) (modOp : Int) : List LdapMod :=
  entryAttrs.map fun entryAttr => ⟨modOp, entryAttr.1, entryAttr.2⟩

/-- `"%s=%s"` -/
def rdnOf (namePrefix name : Bytes) : Bytes := namePrefix ++ (0x3d :: name)

/-- `"%s=%s,%s"` -/
def dnOf (namePrefix name parent : Bytes) : Bytes := rdnOf namePrefix name ++ (0x2c :: parent)

/-- The operation is carried out with strings that `check_string` accepts. -/
def checked (input : Option Bytes) (operation : Bytes → Action OperationReturnCode) :
    Action OperationReturnCode :=
  (checkString input).elim (return .failure) operation

def ldAddEntry (name parent : Option Bytes) (namePrefix : Bytes) (entryAttrs : List EntryAttribute) (sent : Sent) :
    Action OperationReturnCode :=
  checked name fun entryName => checked parent fun entryParent =>
    add (dnOf namePrefix entryName entryParent) (fillAttributes entryAttrs ldapModAdd) sent

def ldDelEntry (name parent : Option Bytes) (namePrefix : Bytes) (sent : Sent) : Action OperationReturnCode :=
  checked name fun entryName => checked parent fun entryParent =>
    ldDelete (dnOf namePrefix entryName entryParent) sent

def ldModEntry (name parent : Option Bytes) (namePrefix : Bytes) (entryAttrs : List EntryAttribute) (sent : Sent) :
    Action OperationReturnCode :=
  checked name fun entryName => checked parent fun entryParent =>
    modify (dnOf namePrefix entryName entryParent) (fillAttributes entryAttrs ldapModReplace) sent

def ldRenameEntry (oldName newName parent : Option Bytes) (namePrefix : Bytes) (sent : Sent) :
    Action OperationReturnCode :=
  checked oldName fun entryOldName => checked newName fun entryNewName => checked parent fun entryParent =>
    ldRename (dnOf namePrefix entryOldName entryParent) (rdnOf namePrefix entryNewName) entryParent true sent

theorem checked_of_ne {input : Bytes} (h : input ≠ []) (operation : Bytes → Action OperationReturnCode) :
    checked (some input) operation = operation input := by
  simp [checked, checkString, h]

theorem checked_nil (operation : Bytes → Action OperationReturnCode) :
    checked (some []) operation = return .failure := rfl

/-- An operation on one entry, without the name, the parent and the prefix of the entry. -/
inductive EntryOperation
  | addEntry (entryAttrs : List EntryAttribute)
  | delEntry
  | modEntry (entryAttrs : List EntryAttribute)
  | renameEntry (newName : { newName : Bytes // newName ≠ [] })

namespace EntryOperation

def run (operation : EntryOperation) (name parent namePrefix : Bytes) (sent : Sent) : Action OperationReturnCode :=
  match operation with
  | addEntry entryAttrs => ldAddEntry (some name) (some parent) namePrefix entryAttrs sent
  | delEntry => ldDelEntry (some name) (some parent) namePrefix sent
  | modEntry entryAttrs => ldModEntry (some name) (some parent) namePrefix entryAttrs sent
  | renameEntry newName => ldRenameEntry (some name) (some newName.1) (some parent) namePrefix sent

def request (operation : EntryOperation) (dn parent namePrefix : Bytes) : LdapCall :=
  match operation with
  | addEntry entryAttrs => .addExt dn (fillAttributes entryAttrs ldapModAdd)
  | delEntry => .deleteExt dn
  | modEntry entryAttrs => .modifyExt dn (fillAttributes entryAttrs ldapModReplace)
  | renameEntry newName => .rename dn (rdnOf namePrefix newName.1) parent true

def handler : EntryOperation → OperationCallback
  | addEntry _ => .addOnRead
  | delEntry => .deleteOnRead
  | modEntry _ => .modifyOnRead
  | renameEntry _ => .renameOnRead

theorem run_eq_submit (operation : EntryOperation) {name parent : Bytes} (hname : name ≠ [])
    (hparent : parent ≠ []) (namePrefix : Bytes) (sent : Sent) :
    operation.run name parent namePrefix sent =
      submit (operation.request (dnOf namePrefix name parent) parent namePrefix) operation.handler sent := by
  cases operation with
  | addEntry entryAttrs =>
    rw [run, ldAddEntry, checked_of_ne hname, checked_of_ne hparent]
    rfl
  | delEntry =>
    rw [run, ldDelEntry, checked_of_ne hname, checked_of_ne hparent]
    rfl
  | modEntry entryAttrs =>
    rw [run, ldModEntry, checked_of_ne hname, checked_of_ne hparent]
    rfl
  | renameEntry newName =>
    rw [run, ldRenameEntry, checked_of_ne hname, checked_of_ne newName.2, checked_of_ne hparent]
    rfl

theorem run_nil_parent (operation : EntryOperation) {name : Bytes} (hname : name ≠ []) (namePrefix : Bytes)
    (sent : Sent) : operation.run name [] namePrefix sent = return .failure := by
  cases operation with
  | addEntry entryAttrs => rw [run, ldAddEntry, checked_of_ne hname, checked_nil]
  | delEntry => rw [run, ldDelEntry, checked_of_ne hname, checked_nil]
  | modEntry entryAttrs => rw [run, ldModEntry, checked_of_ne hname, checked_nil]
  | renameEntry newName => rw [run, ldRenameEntry, checked_of_ne hname, checked_of_ne newName.2, checked_nil]

end EntryOperation

def target : LdapCall → Option Bytes
  | .addExt dn _ => some dn
  | .modifyExt dn _ => some dn
  | .deleteExt dn => some dn
  | .rename olddn _ _ _ => some olddn
  | _ => none

theorem target_request (operation : EntryOperation) (dn parent namePrefix : Bytes) :
    target (operation.request dn parent namePrefix) = some dn := by
  cases operation <;> rfl

/-- The text is a distinguished name: a single pair of the prefix and a value that stands
for the name, and then the parent. -/
def IsChild (namePrefix name parent dn : Bytes) : Prop :=
  ∃ (p : Dn.Pair) (rs : Dn.Name), p.type.1 = namePrefix ∧ Dn.decode p.value.1 = name ∧ Dn.Name.text rs = parent ∧
    Dn.Name.text ((p, []) :: rs) = dn

theorem text_cons {p : Dn.Pair} {rs : Dn.Name} (h : rs ≠ []) :
    Dn.Name.text ((p, []) :: rs) = dnOf p.type.1 p.value.1 (Dn.Name.text rs) := by
  cases rs with
  | nil => exact absurd rfl h
  | cons r rs =>
    simp [Dn.Name.text, Dn.Name.others, Dn.Rdn.text, Dn.Rdn.others, Dn.Pair.text, dnOf, rdnOf]

variable {namePrefix name parent : Bytes}

/-- The distinguished name addresses the child exactly if the name needs no escapes. -/
theorem isChild_iff (htype : namePrefix ∈ Dn.attributeType.language) (hne : parent ≠ [])
    (hparent : parent ∈ Dn.distinguishedName.language) :
    IsChild namePrefix name parent (dnOf namePrefix name parent) ↔ Dn.Plain name := by
  have hrest : ∀ rs : Dn.Name, rs.text = parent → rs ≠ [] := by
    rintro rs hrs rfl
    exact hne hrs.symm
  rw [← Dn.plain_iff]
  constructor
  · rintro ⟨p, rs, rfl, hdecode, hrs, hdn⟩
    rw [text_cons (hrest rs hrs), hrs, dnOf, dnOf, rdnOf, rdnOf] at hdn
    have hvalue : p.value.1 = name := by simpa using hdn
    rw [hvalue] at hdecode
    exact ⟨hvalue ▸ p.value.2, hdecode⟩
  · rintro ⟨hvalue, hdecode⟩
    obtain ⟨rs, hrs⟩ := (Dn.renders_name parent).mp hparent
    have htext := text_cons (p := ⟨⟨namePrefix, htype⟩, ⟨name, hvalue⟩⟩) (hrest rs hrs)
    rw [hrs] at htext
    exact ⟨_, rs, rfl, hdecode, hrs, htext⟩

/-- What a distinguished name addresses: the types and values of its pairs. -/
def entry (d : Dn.Name) : List (List (Bytes × Bytes)) :=
  d.map fun r => (r.1 :: r.2).map fun p => (p.type.1, Dn.decode p.value.1)

def SameEntry (dn dn' : Bytes) : Prop := ∃ d d' : Dn.Name, d.text = dn ∧ d'.text = dn' ∧ entry d = entry d'

theorem isChild_entry {dn dn' namePrefix' name' parent' : Bytes} (h : IsChild namePrefix name parent dn)
    (h' : IsChild namePrefix' name' parent' dn') (hsame : SameEntry dn dn') :
    name = name' ∧ SameEntry parent parent' := by
  obtain ⟨p, rs, -, rfl, rfl, rfl⟩ := h
  obtain ⟨p', rs', -, rfl, rfl, rfl⟩ := h'
  obtain ⟨d, d', hd, hd', hentry⟩ := hsame
  rw [Dn.Name.text_injective hd, Dn.Name.text_injective hd'] at hentry
  obtain ⟨hfirst, hrest⟩ := List.cons.inj hentry
  have hpair := (List.cons.inj hfirst).1
  exact ⟨congrArg Prod.snd hpair, rs, rs', rfl, rfl, hrest⟩

/-- An operation fails without a parent, and otherwise sends one request, about the text it
builds. This text addresses the child exactly if the name needs no escapes, and then no
other name or parent gives the same entry. -/
theorem entry_addressed (htype : namePrefix ∈ Dn.attributeType.language) (hname : name ≠ [])
    (hparent : parent ∈ Dn.distinguishedName.language) :
    (parent = [] → ∀ (operation : EntryOperation) (sent : Sent),
      operation.run name parent namePrefix sent = return .failure) ∧
    (parent ≠ [] → ∃ dn,
      (∀ (operation : EntryOperation) (sent : Sent), ∃ request,
        operation.run name parent namePrefix sent = submit request operation.handler sent ∧
          target request = some dn) ∧
      (IsChild namePrefix name parent dn ↔ Dn.Plain name) ∧
      (Dn.Plain name → ∀ namePrefix' ∈ Dn.attributeType.language, ∀ name', Dn.Plain name' →
        ∀ parent' ∈ Dn.distinguishedName.language, parent' ≠ [] →
          SameEntry dn (dnOf namePrefix' name' parent') → name = name' ∧ SameEntry parent parent')) := by
  constructor
  · intro hempty operation sent
    rw [hempty]
    exact operation.run_nil_parent hname namePrefix sent
  · intro hne
    have hchild := (isChild_iff htype hne hparent : IsChild namePrefix name parent _ ↔ _)
    refine ⟨dnOf namePrefix name parent, fun operation sent => ?_, hchild, ?_⟩
    · exact ⟨_, operation.run_eq_submit hname hne namePrefix sent, target_request _ _ _ _⟩
    · intro hplain namePrefix' htype' name' hplain' parent' hparent' hne' hsame
      exact isChild_entry (hchild.mpr hplain) ((isChild_iff htype' hne' hparent').mpr hplain') hsame

theorem entry_addressed_cn :
    (ascii "cn" ∈ Dn.attributeType.language ∧ ascii "a" ≠ [] ∧ ascii "dc=b" ∈ Dn.distinguishedName.language) ∧
    ascii "dc=b" ≠ [] ∧ Dn.Plain (ascii "a") ∧
    ∃ dn, (∀ (operation : EntryOperation) (sent : Sent), ∃ request,
        operation.run (ascii "a") (ascii "dc=b") (ascii "cn") sent = submit request operation.handler sent ∧
          target request = some dn) ∧
      (IsChild (ascii "cn") (ascii "a") (ascii "dc=b") dn ↔ Dn.Plain (ascii "a")) := by
  have htype : ascii "cn" ∈ Dn.attributeType.language := by
    rw [← accepts_iff]
    decide
  have hparent : ascii "dc=b" ∈ Dn.distinguishedName.language := by
    rw [← accepts_iff]
    decide
  have hstring : ascii "a" ∈ Dn.string.language := by
    rw [← accepts_iff]
    decide
  have hne : ascii "dc=b" ≠ [] := by decide
  obtain ⟨dn, hrun, hchild, -⟩ := (entry_addressed htype (by decide : ascii "a" ≠ []) hparent).2 hne
  exact ⟨⟨htype, by decide, hparent⟩, hne, ⟨hstring, by decide⟩, dn, hrun, hchild⟩

/-- A comma in the name leads to another entry, the one with the name before it. -/
theorem ldDelEntry_comma :
    (ascii "cn" ∈ Dn.attributeType.language ∧ ascii "a,ou=b" ≠ [] ∧
      ascii "dc=c" ∈ Dn.distinguishedName.language ∧ ascii "ou=b,dc=c" ∈ Dn.distinguishedName.language) ∧
    (∀ sent, ldDelEntry (some (ascii "a,ou=b")) (some (ascii "dc=c")) (ascii "cn") sent =
      ldDelete (ascii "cn=a,ou=b,dc=c") sent) ∧
    (∀ sent, ldDelEntry (some (ascii "a")) (some (ascii "ou=b,dc=c")) (ascii "cn") sent =
      ldDelete (ascii "cn=a,ou=b,dc=c") sent) ∧
    ¬IsChild (ascii "cn") (ascii "a,ou=b") (ascii "dc=c") (ascii "cn=a,ou=b,dc=c") ∧
    IsChild (ascii "cn") (ascii "a") (ascii "ou=b,dc=c") (ascii "cn=a,ou=b,dc=c") := by
  have htype : ascii "cn" ∈ Dn.attributeType.language := by
    rw [← accepts_iff]
    decide
  have hparent : ascii "dc=c" ∈ Dn.distinguishedName.language := by
    rw [← accepts_iff]
    decide
  have hparent' : ascii "ou=b,dc=c" ∈ Dn.distinguishedName.language := by
    rw [← accepts_iff]
    decide
  have hstring : ascii "a" ∈ Dn.string.language := by
    rw [← accepts_iff]
    decide
  have hnot : ascii "a,ou=b" ∉ Dn.string.language := by
    rw [← accepts_iff]
    decide
  refine ⟨⟨htype, by decide, hparent, hparent'⟩, fun sent => rfl, fun sent => rfl, ?_, ?_⟩
  · intro hchild
    exact hnot ((isChild_iff htype (by decide) hparent).mp hchild).1
  · exact (isChild_iff htype (by decide) hparent').mpr ⟨hstring, by decide⟩

end Libdomain.Domain
