import Libdomain.Connection.Reading
import Libdomain.Domain.Entries

/-! # Users, groups, computers and organizational units

The operations of `user.c`, `group.c`, `computer.c` and `organizational_unit.c` are those on
entries, with a container of their own for objects without a parent.
-/
namespace Libdomain.Domain
open Libdomain.Connection Libdomain.Program

/-- What the operations read of a handle: `base_dn` of its configuration. -/
structure LdHandle where
  baseDn : Bytes

/-- The parent, unless it is missing or empty. -/
def nonEmptyOr (parent : Option Bytes) (container : Bytes) : Bytes :=
  match parent with
  | none => container
  | some parent => if 0 < parent.length then parent else container

def createComputerParent (handle : LdHandle) : Bytes := ascii "ou=equipment" ++ (0x2c :: handle.baseDn)

def createUserParent (directoryType : LdapDirectoryType) (handle : LdHandle) : Bytes :=
  (match directoryType with
    | .activeDirectory => ascii "cn=users"
    | _ => ascii "ou=users") ++ (0x2c :: handle.baseDn)

variable (handle : LdHandle) (name parent : Option Bytes) (attrs : List EntryAttribute) (sent : Sent)

def ldAddComputer : Action OperationReturnCode :=
  ldAddEntry name (some (nonEmptyOr parent handle.baseDn)) (ascii "cn") attrs sent

def ldDelComputer : Action OperationReturnCode :=
  ldDelEntry name (some (parent.getD (createComputerParent handle))) (ascii "cn") sent

def ldModComputer : Action OperationReturnCode :=
  ldModEntry name (some (parent.getD (createComputerParent handle))) (ascii "cn") attrs sent

def ldRenameComputer (newName : Option Bytes) : Action OperationReturnCode :=
  ldRenameEntry name newName (some (parent.getD (createComputerParent handle))) (ascii "cn") sent

def ldAddUser : Action OperationReturnCode := do
  let directoryType := (← get).connection.directoryType
  ldAddEntry name (some (nonEmptyOr parent (createUserParent directoryType handle))) (ascii "cn") attrs sent

def ldDelUser : Action OperationReturnCode := do
  let directoryType := (← get).connection.directoryType
  ldDelEntry name (some (parent.getD (createUserParent directoryType handle))) (ascii "cn") sent

def ldModUser : Action OperationReturnCode := do
  let directoryType := (← get).connection.directoryType
  ldModEntry name (some (parent.getD (createUserParent directoryType handle))) (ascii "cn") attrs sent

def ldRenameUser (newName : Option Bytes) : Action OperationReturnCode := do
  let directoryType := (← get).connection.directoryType
  ldRenameEntry name newName (some (parent.getD (createUserParent directoryType handle))) (ascii "cn") sent

def ldAddGroup : Action OperationReturnCode :=
  ldAddEntry name (some (nonEmptyOr parent handle.baseDn)) (ascii "cn") attrs sent

def ldDelGroup : Action OperationReturnCode :=
  ldDelEntry name (some (parent.getD handle.baseDn)) (ascii "cn") sent

def ldModGroup : Action OperationReturnCode :=
  ldModEntry name (some (parent.getD handle.baseDn)) (ascii "cn") attrs sent

def ldRenameGroup (newName : Option Bytes) : Action OperationReturnCode :=
  ldRenameEntry name newName (some (parent.getD handle.baseDn)) (ascii "cn") sent

def ldAddOu : Action OperationReturnCode :=
  ldAddEntry name (some (nonEmptyOr parent handle.baseDn)) (ascii "ou") attrs sent

def ldDelOu : Action OperationReturnCode :=
  ldDelEntry name (some (parent.getD handle.baseDn)) (ascii "ou") sent

def ldModOu : Action OperationReturnCode :=
  ldModEntry name (some (parent.getD handle.baseDn)) (ascii "ou") attrs sent

def ldRenameOu (newName : Option Bytes) : Action OperationReturnCode :=
  ldRenameEntry name newName (some (parent.getD handle.baseDn)) (ascii "ou") sent

inductive ObjectKind
  | user
  | group
  | computer
  | ou
  deriving DecidableEq

namespace ObjectKind

def namePrefix : ObjectKind → Bytes
  | ou => ascii "ou"
  | _ => ascii "cn"

def run (kind : ObjectKind) (operation : EntryOperation) (handle : LdHandle) (name parent : Option Bytes)
    (sent : Sent) : Action OperationReturnCode :=
  match kind, operation with
  | user, .addEntry attrs => ldAddUser handle name parent attrs sent
  | user, .delEntry => ldDelUser handle name parent sent
  | user, .modEntry attrs => ldModUser handle name parent attrs sent
  | user, .renameEntry newName => ldRenameUser handle name parent sent (some newName.1)
  | group, .addEntry attrs => ldAddGroup handle name parent attrs sent
  | group, .delEntry => ldDelGroup handle name parent sent
  | group, .modEntry attrs => ldModGroup handle name parent attrs sent
  | group, .renameEntry newName => ldRenameGroup handle name parent sent (some newName.1)
  | computer, .addEntry attrs => ldAddComputer handle name parent attrs sent
  | computer, .delEntry => ldDelComputer handle name parent sent
  | computer, .modEntry attrs => ldModComputer handle name parent attrs sent
  | computer, .renameEntry newName => ldRenameComputer handle name parent sent (some newName.1)
  | ou, .addEntry attrs => ldAddOu handle name parent attrs sent
  | ou, .delEntry => ldDelOu handle name parent sent
  | ou, .modEntry attrs => ldModOu handle name parent attrs sent
  | ou, .renameEntry newName => ldRenameOu handle name parent sent (some newName.1)

end ObjectKind

/-- The parent that an operation uses. -/
def containerOf (kind : ObjectKind) (operation : EntryOperation) (handle : LdHandle) (parent : Option Bytes)
    (directoryType : LdapDirectoryType) : Bytes :=
  match operation, kind with
  | .addEntry _, .user => nonEmptyOr parent (createUserParent directoryType handle)
  | .addEntry _, _ => nonEmptyOr parent handle.baseDn
  | _, .user => parent.getD (createUserParent directoryType handle)
  | _, .computer => parent.getD (createComputerParent handle)
  | _, _ => parent.getD handle.baseDn

variable {handle name parent attrs sent}

theorem exec_run (kind : ObjectKind) (operation : EntryOperation) (handle : LdHandle) (name : Bytes)
    (parent : Option Bytes) (sent : Sent) (w : World) :
    exec (kind.run operation handle (some name) parent sent) w =
      exec (operation.run name (containerOf kind operation handle parent w.connection.directoryType)
        kind.namePrefix sent) w := by
  cases kind <;> cases operation <;> rfl

def targetOfEvent : Event → Option Bytes
  | .call _ request => target request
  | _ => none

def addressed (operation : Action OperationReturnCode) (w : World) : Option Bytes :=
  let trace := (exec operation w).2.trace
  (trace.take (trace.length - w.trace.length)).findSome? targetOfEvent

theorem addressed_eq {operation : Action OperationReturnCode} {w : World} {new : List Event}
    (h : (exec operation w).2.trace = new ++ w.trace) : addressed operation w = new.findSome? targetOfEvent := by
  have hlength : (new ++ w.trace).length - w.trace.length = new.length := by simp
  simp only [addressed, h, hlength, List.take_left']

theorem addressed_submit (request : LdapCall) (handler : OperationCallback) (sent : Sent) (w : World) :
    addressed (submit request handler sent) w = target request := by
  have hexec := exec_submit request handler sent w
  dsimp only at hexec
  split_ifs at hexec with hrc hslot
  · have htrace : (exec (submit request handler sent) w).2.trace = [.call w.connection.ldap request] ++ w.trace := by
      rw [hexec]
      rfl
    rw [addressed_eq htrace]
    simp [targetOfEvent]
  · obtain ⟨new, hnew, hnone⟩ : ∃ new, (exec (submit request handler sent) w).2.trace =
        (new ++ [.call w.connection.ldap request]) ++ w.trace ∧ new.findSome? targetOfEvent = none := by
      rw [hexec]
      exact ⟨[_, _, _], rfl, rfl⟩
    rw [addressed_eq hnew, List.findSome?_append, hnone]
    simp [targetOfEvent]
  · obtain ⟨new, hnew, hnone⟩ : ∃ new, (exec (submit request handler sent) w).2.trace =
        (new ++ [.call w.connection.ldap request]) ++ w.trace ∧ new.findSome? targetOfEvent = none := by
      rw [hexec]
      exact ⟨[_, _], rfl, rfl⟩
    rw [addressed_eq hnew, List.findSome?_append, hnone]
    simp [targetOfEvent]

/-- The name of the entry, unless its parent is refused. -/
def builtDn (namePrefix name container : Bytes) : Option Bytes :=
  if container = [] then none else some (dnOf namePrefix name container)

theorem builtDn_of_ne {container : Bytes} (h : container ≠ []) (namePrefix name : Bytes) :
    builtDn namePrefix name container = some (dnOf namePrefix name container) := if_neg h

theorem builtDn_inj {namePrefix name container container' : Bytes}
    (h : builtDn namePrefix name container = builtDn namePrefix name container') : container = container' := by
  unfold builtDn at h
  split_ifs at h with hempty hempty'
  · rw [hempty, hempty']
  · simpa [dnOf, rdnOf] using h

theorem addressed_run (operation : EntryOperation) {name : Bytes} (hname : name ≠ []) (container namePrefix : Bytes)
    (sent : Sent) (w : World) : addressed (operation.run name container namePrefix sent) w =
      builtDn namePrefix name container := by
  by_cases hempty : container = []
  · rw [hempty, operation.run_nil_parent hname]
    have htrace : (exec (return .failure : Action OperationReturnCode) w).2.trace = [] ++ w.trace := rfl
    rw [addressed_eq htrace]
    rfl
  · rw [operation.run_eq_submit hname hempty, addressed_submit, target_request, builtDn_of_ne hempty]

theorem addressed_object (kind : ObjectKind) (operation : EntryOperation) (handle : LdHandle) {name : Bytes}
    (hname : name ≠ []) (parent : Option Bytes) (sent : Sent) (w : World) :
    addressed (kind.run operation handle (some name) parent sent) w =
      builtDn kind.namePrefix name (containerOf kind operation handle parent w.connection.directoryType) := by
  have hrun := addressed_run operation hname (containerOf kind operation handle parent w.connection.directoryType)
    kind.namePrefix sent w
  rw [← hrun, addressed, addressed, exec_run]

/-- Operations on objects that exist already. -/
inductive ObjectChange
  | delObject
  | modObject (attrs : List EntryAttribute)
  | renameObject (newName : { newName : Bytes // newName ≠ [] })

def ObjectChange.operation : ObjectChange → EntryOperation
  | delObject => .delEntry
  | modObject attrs => .modEntry attrs
  | renameObject newName => .renameEntry newName

def changeContainer (kind : ObjectKind) (handle : LdHandle) (directoryType : LdapDirectoryType) : Bytes :=
  match kind with
  | .user => createUserParent directoryType handle
  | .computer => createComputerParent handle
  | _ => handle.baseDn

def addContainer (kind : ObjectKind) (handle : LdHandle) (directoryType : LdapDirectoryType) : Bytes :=
  match kind with
  | .user => createUserParent directoryType handle
  | _ => handle.baseDn

theorem containerOf_change (kind : ObjectKind) (change : ObjectChange) (handle : LdHandle) (parent : Option Bytes)
    (directoryType : LdapDirectoryType) :
    containerOf kind change.operation handle parent directoryType =
      parent.getD (changeContainer kind handle directoryType) := by
  cases change <;> cases kind <;> rfl

theorem containerOf_add (kind : ObjectKind) (attrs : List EntryAttribute) (handle : LdHandle) (parent : Option Bytes)
    (directoryType : LdapDirectoryType) :
    containerOf kind (.addEntry attrs) handle parent directoryType =
      nonEmptyOr parent (addContainer kind handle directoryType) := by
  cases kind <;> rfl

theorem createUserParent_ne_nil (directoryType : LdapDirectoryType) (handle : LdHandle) :
    createUserParent directoryType handle ≠ [] := by
  simp [createUserParent]

theorem createComputerParent_ne (handle : LdHandle) : createComputerParent handle ≠ handle.baseDn := by
  intro h
  have hlength := congrArg List.length h
  have hequipment : (ascii "ou=equipment").length = 12 := by decide
  simp only [createComputerParent, List.length_append, List.length_cons, hequipment] at hlength
  omega

/-- A change addresses the object that was added exactly if the parent is a DN, or it is
missing and the object is no computer, or both operations refuse it as empty. -/
theorem sameDn_iff (kind : ObjectKind) (change : ObjectChange) (attrs : List EntryAttribute) (handle : LdHandle)
    {name : Bytes} (hname : name ≠ []) (parent : Option Bytes) (sent sent' : Sent) (w : World) :
    addressed (kind.run change.operation handle (some name) parent sent) w =
        addressed (kind.run (.addEntry attrs) handle (some name) parent sent') w ↔
      (match parent with
        | none => kind ≠ .computer
        | some parent => parent ≠ [] ∨ handle.baseDn = [] ∧ kind ≠ .user) := by
  have hsame : addressed (kind.run change.operation handle (some name) parent sent) w =
        addressed (kind.run (.addEntry attrs) handle (some name) parent sent') w ↔
      parent.getD (changeContainer kind handle w.connection.directoryType) =
        nonEmptyOr parent (addContainer kind handle w.connection.directoryType) := by
    rw [addressed_object kind _ handle hname, addressed_object kind _ handle hname, containerOf_change,
      containerOf_add]
    exact ⟨builtDn_inj, congrArg _⟩
  rw [hsame]
  cases parent with
  | none =>
    have hcomputer := createComputerParent_ne handle
    cases kind <;> simp [nonEmptyOr, changeContainer, addContainer, hcomputer]
  | some parent =>
    by_cases hparent : parent = []
    · subst hparent
      have huser := createUserParent_ne_nil w.connection.directoryType handle
      cases kind <;> simp [nonEmptyOr, addContainer, huser.symm, eq_comm]
    · have hpos := List.length_pos_of_ne_nil hparent
      simp [nonEmptyOr, hparent, hpos]

theorem sameDn_iff_ou : ascii "staff" ≠ [] ∧
    addressed (ObjectKind.ou.run .delEntry ⟨ascii "dc=a"⟩ (some (ascii "staff")) none ⟨0, 1⟩)
        (.initial ⟨false, .simple⟩ none) =
      addressed (ObjectKind.ou.run (.addEntry []) ⟨ascii "dc=a"⟩ (some (ascii "staff")) none ⟨0, 2⟩)
        (.initial ⟨false, .simple⟩ none) := by
  have hname : ascii "staff" ≠ [] := by decide
  exact ⟨hname, (sameDn_iff .ou .delObject [] _ hname none _ _ _).mpr (by decide)⟩

/-- A computer without a parent is added to one container and deleted from another one. -/
theorem computer_not_sameDn :
    addressed (ldDelComputer ⟨ascii "dc=a"⟩ (some (ascii "pc")) none ⟨0, 2⟩) (.initial ⟨false, .simple⟩ none) ≠
      addressed (ldAddComputer ⟨ascii "dc=a"⟩ (some (ascii "pc")) none [] ⟨0, 1⟩)
        (.initial ⟨false, .simple⟩ none) := by
  have hdel : addressed (ldDelComputer ⟨ascii "dc=a"⟩ (some (ascii "pc")) none ⟨0, 2⟩)
      (.initial ⟨false, .simple⟩ none) = some (ascii "cn=pc,ou=equipment,dc=a") := rfl
  have hadd : addressed (ldAddComputer ⟨ascii "dc=a"⟩ (some (ascii "pc")) none [] ⟨0, 1⟩)
      (.initial ⟨false, .simple⟩ none) = some (ascii "cn=pc,dc=a") := rfl
  rw [hdel, hadd]
  decide

end Libdomain.Domain
