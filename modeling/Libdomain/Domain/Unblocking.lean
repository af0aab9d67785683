import Libdomain.Domain.Lockout
import Libdomain.Ldap.Modify
import Libdomain.Text.Decimal

/-! # Unblocking after blocking

What a server makes of the two requests, one after the other. An OpenLDAP directory gets an
attribute that is removed again. In an Active Directory the account is disabled by a bit of
`userAccountControl`, whose other bits say other things about the account, but both
requests write the attribute as a whole.
-/
namespace Libdomain.Domain
open Libdomain.Connection Libdomain.Memory Libdomain.Program

def Sends (operation : Action OperationReturnCode) (w : World) (dn : Bytes) (mods : List LdapMod) : Prop :=
  ∃ new, (exec operation w).2.trace = new ++ w.trace ∧ .call w.connection.ldap (.modifyExt dn mods) ∈ new

variable {w : World} {dn dn' : Bytes} {mods mods' : List LdapMod}

theorem sends_congr {operation operation' : Action OperationReturnCode} (h : exec operation w = exec operation' w) :
    Sends operation w dn mods ↔ Sends operation' w dn mods := by
  rw [Sends, h]
  rfl

theorem not_sends_of_trace {operation : Action OperationReturnCode} (h : (exec operation w).2.trace = w.trace) :
    ¬Sends operation w dn mods := by
  rintro ⟨new, hnew, hmem⟩
  rw [h, List.self_eq_append_left] at hnew
  rw [hnew] at hmem
  cases hmem

theorem sends_modify {sent : Sent} : Sends (modify dn' mods' sent) w dn mods ↔ dn = dn' ∧ mods = mods' := by
  have hexec := exec_submit (.modifyExt dn' mods') .modifyOnRead sent w
  have hnew : ∃ new, (exec (modify dn' mods' sent) w).2.trace =
      (new ++ [.call w.connection.ldap (.modifyExt dn' mods')]) ++ w.trace ∧
        ∀ handle request, .call handle request ∉ new := by
    change ∃ new, (exec (submit (.modifyExt dn' mods') .modifyOnRead sent) w).2.trace = _ ∧ _
    rw [hexec]
    dsimp only
    split_ifs
    · exact ⟨[], rfl, by simp⟩
    · exact ⟨[_, _, _], rfl, by simp⟩
    · exact ⟨[_, _], rfl, by simp⟩
  obtain ⟨new, htrace, hcalls⟩ := hnew
  constructor
  · rintro ⟨new', htrace', hmem⟩
    rw [List.append_cancel_right (htrace'.symm.trans htrace)] at hmem
    rcases List.mem_append.mp hmem with hmem | hmem
    · exact absurd hmem (hcalls _ _)
    · simpa using hmem
  · rintro ⟨rfl, rfl⟩
    exact ⟨_, htrace, by simp⟩

theorem sends_checked {input : Option Bytes} {operation : Bytes → Action OperationReturnCode} :
    Sends (checked input operation) w dn mods ↔
      ∃ checkedInput, checkString input = some checkedInput ∧ Sends (operation checkedInput) w dn mods := by
  rw [checked]
  cases checkString input with
  | none => simpa using not_sends_of_trace rfl
  | some checkedInput => simp

theorem sends_modLockout {attributes : LockoutAttributes} {handle : LdHandle} {name parent : Option Bytes}
    {sent : Sent} {attrs : Cells Entry.LdapAttributeT} {modOp : Int}
    (h : attributes w.connection.directoryType = some (.ok attrs, modOp)) :
    Sends (modLockout attributes handle name parent sent) w dn mods ↔
      ∃ entryName, checkString name = some entryName ∧ ∃ entryParent,
        checkString (some (parent.getD (createUserParent w.connection.directoryType handle))) = some entryParent ∧
        ∃ lists, Arrays.fillAttributes attrs modOp = .ok lists ∧
          dn = attrsDnOf (ascii "cn") entryName entryParent ∧ mods = Arrays.modifications lists := by
  rw [sends_congr (exec_modLockout h), Arrays.ldModEntryAttrs, sends_checked]
  refine exists_congr fun entryName => and_congr_right fun _ => ?_
  rw [sends_checked]
  refine exists_congr fun entryParent => and_congr_right fun _ => ?_
  rw [Arrays.withModifications]
  cases Arrays.fillAttributes attrs modOp with
  | error fault => simpa using not_sends_of_trace rfl
  | ok lists => simp [sends_modify]

def servedOperation : Int → Option Ldap.Operation
  | 0 => some .add
  | 1 => some .delete
  | 2 => some .replace
  | _ => none

def servedModification (mod : LdapMod) : Option (Ldap.Modification Bytes Bytes) :=
  (servedOperation mod.op).map fun operation => ⟨operation, mod.type, mod.values⟩

/-- The entry after the request, unless the server refuses it. -/
def served (mods : List LdapMod) (e : Ldap.Entry Bytes Bytes) : Option (Ldap.Entry Bytes Bytes) :=
  (mods.mapM servedModification).bind fun ms => Ldap.modify ms e

/-- The account is not blocked. In an Active Directory the bit of a disabled account is not set. -/
def NotBlocked (directoryType : LdapDirectoryType) (e : Ldap.Entry Bytes Bytes) : Prop :=
  match directoryType with
  | .openldap => e (ascii "pwdAccountLockedTime") = ∅
  | .activeDirectory =>
    ∃ flags : BitVec 32, flags.getLsbD 1 = false ∧ e (ascii "userAccountControl") = {Text.decimal flags.toInt}
  | _ => False

variable {handle : LdHandle} {name parent : Option Bytes} {sent sent' : Sent} {contents contents' : Contents}

theorem modifications_lockout (modOp : Int) (type : Bytes) (value : Option Bytes) :
    Arrays.modifications (some (terminate [⟨modOp, type, terminate value.toList⟩])) =
      [⟨modOp, type, value.toList⟩] := by
  cases value <;> rfl

theorem sends_marked {attributes : LockoutAttributes} {type : Bytes} {value : Option Bytes}
    {c : Cell Entry.LdapAttributeT} {modOp : Int}
    (h : attributes w.connection.directoryType = some (.ok [.set (lockoutAttribute type value), c], modOp))
    (hsends : Sends (modLockout attributes handle name parent sent) w dn mods) :
    ∃ entryName, checkString name = some entryName ∧ ∃ entryParent,
      checkString (some (parent.getD (createUserParent w.connection.directoryType handle))) = some entryParent ∧
        dn = attrsDnOf (ascii "cn") entryName entryParent ∧ mods = [⟨modOp, type, value.toList⟩] := by
  obtain ⟨entryName, hname, entryParent, hparent, lists, hfill, hdn, hmods⟩ := (sends_modLockout h).mp hsends
  have hmark : c = .null := by
    by_contra hne
    obtain ⟨fault, hfault⟩ := fillAttributes_unmarked value type modOp hne
    cases hfault.symm.trans hfill
  subst hmark
  cases (fillAttributes_lockout value type modOp).symm.trans hfill
  exact ⟨entryName, hname, entryParent, hparent, hdn, hmods.trans (modifications_lockout modOp type value)⟩

/-- Both requests are about one entry, and served one after the other they leave it as it was. -/
def Undoes (block unblock : Bytes × List LdapMod) (e : Ldap.Entry Bytes Bytes) : Prop :=
  unblock.1 = block.1 ∧ (served block.2 e).bind (served unblock.2) = some e

theorem served_replace (type : Bytes) (values : List Bytes) :
    served [⟨ldapModReplace, type, values⟩] = Ldap.modify [⟨.replace, type, values⟩] := rfl

theorem served_delete (type : Bytes) (values : List Bytes) :
    served [⟨ldapModDelete, type, values⟩] = Ldap.modify [⟨.delete, type, values⟩] := rfl

theorem same_dn {container entryName entryName' entryParent entryParent' : Bytes}
    (hname : checkString name = some entryName) (hparent : checkString (some container) = some entryParent)
    (hname' : checkString name = some entryName') (hparent' : checkString (some container) = some entryParent') :
    attrsDnOf (ascii "cn") entryName' entryParent' = attrsDnOf (ascii "cn") entryName entryParent := by
  cases hname.symm.trans hname'
  cases hparent.symm.trans hparent'
  rfl

/-- Unblocking a user that was blocked before restores every entry in an OpenLDAP directory, and
in an Active Directory those whose flags are the ones that unblocking writes. -/
theorem undoes_iff (handle : LdHandle) (name parent : Option Bytes) (sent sent' : Sent) (contents contents' : Contents)
    (w w' : World) (hsame : w'.connection.directoryType = w.connection.directoryType)
    (hblock : Sends (ldBlockUser contents handle name parent sent) w dn mods)
    (hunblock : Sends (ldUnblockUser contents' handle name parent sent') w' dn' mods')
    (e : Ldap.Entry Bytes Bytes) (hnot : NotBlocked w.connection.directoryType e) :
    Undoes (dn, mods) (dn', mods') e ↔
      w.connection.directoryType = .openldap ∨ e (ascii "userAccountControl") = {ascii "512"} := by
  cases htype : w.connection.directoryType with
  | openldap =>
    rw [htype] at hnot hsame
    obtain ⟨entryName, hname, entryParent, hparent, rfl, rfl⟩ := sends_marked (c := .null)
      ((congrArg (blockAttributes contents) htype).trans (blockAttributes_openldap contents)) hblock
    obtain ⟨entryName', hname', entryParent', hparent', rfl, rfl⟩ := sends_marked (c := .null)
      ((congrArg (unblockAttributes contents') hsame).trans (unblockAttributes_openldap contents')) hunblock
    rw [hsame] at hparent'
    rw [htype] at hparent
    refine iff_of_true ⟨same_dn hname hparent hname' hparent', ?_⟩ (.inl rfl)
    change (served [⟨ldapModReplace, _, [_]⟩] e).bind (served [⟨ldapModDelete, _, []⟩]) = _
    rw [served_replace, served_delete, Ldap.modify_replace_delete, Ldap.some_update_eq_some]
    exact hnot
  | activeDirectory =>
    rw [htype] at hsame
    obtain ⟨entryName, hname, entryParent, hparent, rfl, rfl⟩ := sends_marked
      ((congrArg (blockAttributes contents) htype).trans (blockAttributes_activeDirectory contents)) hblock
    obtain ⟨entryName', hname', entryParent', hparent', rfl, rfl⟩ := sends_marked
      ((congrArg (unblockAttributes contents') hsame).trans (unblockAttributes_activeDirectory contents')) hunblock
    rw [hsame] at hparent'
    rw [htype] at hparent
    rw [Undoes, and_iff_right (same_dn hname hparent hname' hparent'), or_iff_right (by simp)]
    change (served [⟨ldapModReplace, _, [_]⟩] e).bind (served [⟨ldapModReplace, _, [ascii "512"]⟩]) = _ ↔ _
    rw [served_replace, served_replace, Ldap.modify_replace_replace, Ldap.some_update_eq_some]
    rfl
  | _ =>
    rw [htype] at hnot
    exact hnot.elim

def accountWith (flags : Bytes) : Ldap.Entry Bytes Bytes := fun type =>
  if type = ascii "userAccountControl" then {flags} else ∅

theorem notBlocked_accountWith (flags : BitVec 32) (h : flags.getLsbD 1 = false) :
    NotBlocked .activeDirectory (accountWith (Text.decimal flags.toInt)) := ⟨flags, h, rfl⟩

/-- The flags a user is sent with, in memory that happens to be zero. -/
theorem sends_flags (attributes : LockoutAttributes) {flags : Bytes}
    (h : attributes .activeDirectory =
      some (.ok [.set (lockoutAttribute (ascii "userAccountControl") (some flags)), .null], ldapModReplace)) :
    Sends (modLockout attributes ⟨ascii "dc=alt"⟩ (some (ascii "ivanov")) none ⟨ldapSuccess, 1⟩)
      (connectedTo .activeDirectory) (ascii "cn=ivanov,cn=users,dc=alt")
      [⟨ldapModReplace, ascii "userAccountControl", [flags]⟩] :=
  (sends_modLockout h).mpr ⟨_, rfl, _, rfl, _, fillAttributes_lockout (some flags) _ _, by decide +kernel, rfl⟩

theorem undoes_iff_normalAccount :
    Undoes (ascii "cn=ivanov,cn=users,dc=alt", [⟨ldapModReplace, ascii "userAccountControl", [ascii "514"]⟩])
      (ascii "cn=ivanov,cn=users,dc=alt", [⟨ldapModReplace, ascii "userAccountControl", [ascii "512"]⟩])
      (accountWith (Text.decimal (512#32).toInt)) :=
  (undoes_iff ⟨ascii "dc=alt"⟩ (some (ascii "ivanov")) none ⟨ldapSuccess, 1⟩ ⟨ldapSuccess, 1⟩ (fun _ => .null)
    (fun _ => .null) (connectedTo .activeDirectory) (connectedTo .activeDirectory) rfl
    (sends_flags _ (blockAttributes_activeDirectory _)) (sends_flags _ (unblockAttributes_activeDirectory _)) _
    (notBlocked_accountWith 512#32 (by decide))).mpr (.inr (by decide +kernel))

/-- A user that needs no password: blocking and unblocking it makes a password required. -/
theorem passwordNotRequired_not_undone :
    ∃ dn block unblock,
      Sends (ldBlockUser (fun _ => .null) ⟨ascii "dc=alt"⟩ (some (ascii "ivanov")) none ⟨ldapSuccess, 1⟩)
        (connectedTo .activeDirectory) dn block ∧
      Sends (ldUnblockUser (fun _ => .null) ⟨ascii "dc=alt"⟩ (some (ascii "ivanov")) none ⟨ldapSuccess, 1⟩)
        (connectedTo .activeDirectory) dn unblock ∧
      NotBlocked .activeDirectory (accountWith (Text.decimal (544#32).toInt)) ∧
      ¬Undoes (dn, block) (dn, unblock) (accountWith (Text.decimal (544#32).toInt)) := by
  refine ⟨_, _, _, sends_flags _ (blockAttributes_activeDirectory _), sends_flags _ (unblockAttributes_activeDirectory _),
    notBlocked_accountWith 544#32 (by decide), ?_⟩
  rintro ⟨-, hserved⟩
  rw [served_replace, served_replace, Ldap.modify_replace_replace, Ldap.some_update_eq_some] at hserved
  exact absurd hserved (by decide +kernel)

end Libdomain.Domain
