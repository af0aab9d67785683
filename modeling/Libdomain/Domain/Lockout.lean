import Libdomain.Domain.Modifications
import Libdomain.Domain.Objects

/-! # Blocking users

`ld_block_user` and `ld_unblock_user` of `user.c` modify one attribute, which depends on
the type of the directory. Both constructors allocate an array of two elements that is not
cleared. One of them sets the mark behind the attribute, the other one does not.
-/
namespace Libdomain.Domain
open Libdomain.Connection Libdomain.Memory Libdomain.Entry Libdomain.Program

/-- What freshly allocated memory holds. -/
abbrev Contents := ℕ → Cell LdapAttributeT

/-- A zeroed array, into which the value is copied unless it is null. -/
def lockoutValues (value : Option Bytes) : Except Memory.Fault (Cells Bytes) :=
  match value with
  | none => .ok (zeroed 2)
  | some value => write (zeroed 2) 0 (.set value)

def createLockoutTimeAttributesOpenldap (contents : Contents) (value : Option Bytes) :
    Except Memory.Fault (Cells LdapAttributeT) := do
  let values ← lockoutValues value
  let attrs ← write (fresh contents 2) 0 (.set ⟨some (ascii "pwdAccountLockedTime"), some values⟩)
  write attrs 1 .null

/-- Nothing is written behind the attribute. -/
def createLockoutTimeAttributesAd (contents : Contents) (value : Option Bytes) :
    Except Memory.Fault (Cells LdapAttributeT) := do
  let values ← lockoutValues value
  write (fresh contents 2) 0 (.set ⟨some (ascii "userAccountControl"), some values⟩)

/-- The attributes to modify and the kind of the modification, for the supported types. -/
abbrev LockoutAttributes := LdapDirectoryType → Option (Except Memory.Fault (Cells LdapAttributeT) × Int)

def blockAttributes (contents : Contents) : LockoutAttributes
  | .openldap =>
    some (createLockoutTimeAttributesOpenldap contents (some (ascii "000001010000Z")), ldapModReplace)
  | .activeDirectory => some (createLockoutTimeAttributesAd contents (some (ascii "514")), ldapModReplace)
  | _ => none

def unblockAttributes (contents : Contents) : LockoutAttributes
  | .openldap => some (createLockoutTimeAttributesOpenldap contents none, ldapModDelete)
  | .activeDirectory => some (createLockoutTimeAttributesAd contents (some (ascii "512")), ldapModReplace)
  | _ => none

def modLockout (attributes : LockoutAttributes) (handle : LdHandle) (name parent : Option Bytes) (sent : Sent) :
    Action OperationReturnCode := do
  let directoryType := (← get).connection.directoryType
  match attributes directoryType with
  | none => return .failure
  | some (.error _, _) => throw .invalidPointer
  | some (.ok attrs, modOp) =>
    Arrays.ldModEntryAttrs name (some (parent.getD (createUserParent directoryType handle))) (ascii "cn") attrs
      modOp sent

def ldBlockUser (contents : Contents) (handle : LdHandle) (name parent : Option Bytes) (sent : Sent) :
    Action OperationReturnCode :=
  modLockout (blockAttributes contents) handle name parent sent

def ldUnblockUser (contents : Contents) (handle : LdHandle) (name parent : Option Bytes) (sent : Sent) :
    Action OperationReturnCode :=
  modLockout (unblockAttributes contents) handle name parent sent

def lockoutAttribute (name : Bytes) : Option Bytes → LdapAttributeT
  | none => ⟨some name, some [.null, .null]⟩
  | some value => ⟨some name, some [.set value, .null]⟩

variable (contents : Contents) (value : Option Bytes)

theorem createLockoutTimeAttributesOpenldap_eq : createLockoutTimeAttributesOpenldap contents value =
    .ok (terminate [lockoutAttribute (ascii "pwdAccountLockedTime") value]) := by
  cases value <;> rfl

theorem createLockoutTimeAttributesAd_eq : createLockoutTimeAttributesAd contents value =
    .ok [.set (lockoutAttribute (ascii "userAccountControl") value), contents 1] := by
  cases value <;> rfl

theorem blockAttributes_openldap : blockAttributes contents .openldap =
    some (.ok (terminate [lockoutAttribute (ascii "pwdAccountLockedTime") (some (ascii "000001010000Z"))]),
      ldapModReplace) := by
  rw [blockAttributes, createLockoutTimeAttributesOpenldap_eq]

theorem blockAttributes_activeDirectory : blockAttributes contents .activeDirectory =
    some (.ok [.set (lockoutAttribute (ascii "userAccountControl") (some (ascii "514"))), contents 1],
      ldapModReplace) := by
  rw [blockAttributes, createLockoutTimeAttributesAd_eq]

theorem unblockAttributes_openldap : unblockAttributes contents .openldap =
    some (.ok (terminate [lockoutAttribute (ascii "pwdAccountLockedTime") none]), ldapModDelete) := by
  rw [unblockAttributes, createLockoutTimeAttributesOpenldap_eq]

theorem unblockAttributes_activeDirectory : unblockAttributes contents .activeDirectory =
    some (.ok [.set (lockoutAttribute (ascii "userAccountControl") (some (ascii "512"))), contents 1],
      ldapModReplace) := by
  rw [unblockAttributes, createLockoutTimeAttributesAd_eq]

theorem fillAttributes_lockout (name : Bytes) (modOp : Int) :
    Arrays.fillAttributes (terminate [lockoutAttribute name value]) modOp =
      .ok (some (terminate [⟨modOp, name, terminate value.toList⟩])) := by
  cases value <;> rfl

theorem fillAttributes_unmarked (name : Bytes) (modOp : Int) {c : Cell LdapAttributeT} (h : c ≠ .null) :
    ∃ fault, Arrays.fillAttributes [.set (lockoutAttribute name value), c] modOp = .error fault := by
  cases c with
  | null => exact absurd rfl h
  | unset => exact ⟨.uninitialised, by cases value <;> rfl⟩
  | set garbage => exact ⟨.outOfBounds, by cases value <;> rfl⟩

/-- Whatever freshly allocated memory holds, the operation does the same, with an array that
has one attribute and the mark right behind it and becomes one modification. -/
structure Independent (attributes : Contents → LockoutAttributes)
    (operation : Contents → Action OperationReturnCode) (w : World) : Prop where
  request : ∀ contents contents', exec (operation contents) w = exec (operation contents') w
  terminated : ∀ contents, ∃ attr modOp mod,
    attributes contents w.connection.directoryType = some (.ok (terminate [attr]), modOp) ∧
      Arrays.fillAttributes (terminate [attr]) modOp = .ok (some (terminate [mod]))

variable {w : World} {handle : LdHandle} {name parent : Option Bytes} {sent : Sent}

theorem exec_modLockout {attributes : LockoutAttributes} {attrs : Cells LdapAttributeT} {modOp : Int}
    (h : attributes w.connection.directoryType = some (.ok attrs, modOp)) :
    exec (modLockout attributes handle name parent sent) w =
      exec (Arrays.ldModEntryAttrs name (some (parent.getD (createUserParent w.connection.directoryType handle)))
        (ascii "cn") attrs modOp sent) w := by
  rw [modLockout, exec_bind_ok (exec_get w)]
  dsimp only
  rw [h]

theorem independent_of_terminated {attributes : Contents → LockoutAttributes} {type : Bytes} {value : Option Bytes}
    {modOp : Int} (h : ∀ contents, attributes contents w.connection.directoryType =
      some (.ok (terminate [lockoutAttribute type value]), modOp)) :
    Independent attributes (fun contents => modLockout (attributes contents) handle name parent sent) w where
  request contents contents' := by rw [exec_modLockout (h contents), exec_modLockout (h contents')]
  terminated contents := ⟨_, modOp, _, h contents, fillAttributes_lockout value type modOp⟩

theorem not_independent_of_unmarked {attributes : Contents → LockoutAttributes}
    {operation : Contents → Action OperationReturnCode} {type : Bytes} {value : Option Bytes} {modOp : Int}
    (h : ∀ contents, attributes contents w.connection.directoryType =
      some (.ok [.set (lockoutAttribute type value), contents 1], modOp)) :
    ¬Independent attributes operation w := by
  intro hindependent
  obtain ⟨attr, modOp', mod, hattrs, -⟩ := hindependent.terminated fun _ => .unset
  rw [h] at hattrs
  cases hattrs

/-- Blocking and unblocking are independent of the memory exactly with an OpenLDAP directory. -/
theorem independent_iff (w : World) (handle : LdHandle) (name parent : Option Bytes) (sent : Sent)
    (h : w.connection.directoryType = .openldap ∨ w.connection.directoryType = .activeDirectory) :
    (Independent blockAttributes (fun contents => ldBlockUser contents handle name parent sent) w ∧
        Independent unblockAttributes (fun contents => ldUnblockUser contents handle name parent sent) w) ↔
      w.connection.directoryType = .openldap := by
  constructor
  · rintro ⟨hblock, -⟩
    refine h.resolve_right fun htype => ?_
    have hattrs := fun contents =>
      (congrArg (blockAttributes contents) htype).trans (blockAttributes_activeDirectory contents)
    exact not_independent_of_unmarked hattrs hblock
  · intro htype
    have hblock := fun contents =>
      (congrArg (blockAttributes contents) htype).trans (blockAttributes_openldap contents)
    have hunblock := fun contents =>
      (congrArg (unblockAttributes contents) htype).trans (unblockAttributes_openldap contents)
    exact ⟨independent_of_terminated hblock, independent_of_terminated hunblock⟩

def connectedTo (type : LdapDirectoryType) : World :=
  let w := World.initial ⟨false, .simple⟩ none
  { w with connection := { w.connection with directoryType := type } }

theorem independent_iff_openldap :
    Independent blockAttributes (fun contents => ldBlockUser contents ⟨ascii "dc=alt"⟩ (some (ascii "ivanov")) none
        ⟨ldapSuccess, 1⟩) (connectedTo .openldap) ∧
      Independent unblockAttributes (fun contents => ldUnblockUser contents ⟨ascii "dc=alt"⟩ (some (ascii "ivanov"))
        none ⟨ldapSuccess, 1⟩) (connectedTo .openldap) :=
  (independent_iff (connectedTo .openldap) ⟨ascii "dc=alt"⟩ (some (ascii "ivanov")) none ⟨ldapSuccess, 1⟩
    (.inl rfl)).mpr rfl

/-- Where the memory happens to be zero a request is sent, and otherwise the array is read
beyond its end. -/
theorem garbage_not_independent :
    let block (contents : Contents) := ldBlockUser contents ⟨ascii "dc=alt"⟩ (some (ascii "ivanov")) none ⟨ldapSuccess, 1⟩
    (exec (block fun _ => .null) (connectedTo .activeDirectory)).1 = .ok .success ∧
      (exec (block fun _ => .set ⟨none, none⟩) (connectedTo .activeDirectory)).1 = .error .invalidPointer ∧
      ¬Independent blockAttributes block (connectedTo .activeDirectory) := by
  intro block
  exact ⟨by decide +kernel, by decide +kernel, not_independent_of_unmarked blockAttributes_activeDirectory⟩

end Libdomain.Domain
