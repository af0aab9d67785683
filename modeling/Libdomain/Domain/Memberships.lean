import Libdomain.Domain.Containers
import Libdomain.Ldap.Values

/-! # Members of groups

`ld_group_add_user` and `ld_group_remove_user` of `group.c`. In contrast to the other
operations on groups they take the distinguished name of the group. The type of the directory
decides which attribute holds the members, and it is read before the handle is checked. On a
directory the calls keep, for each group, a set of members.
-/
namespace Libdomain.Domain
open Libdomain.Connection Libdomain.Memory Libdomain.Syntaxes Libdomain.Program

/-- The attribute with the members of a group, for the supported types. -/
def memberAttribute : LdapDirectoryType → Option Bytes
  | .openldap => some (ascii "memberuid")
  | .activeDirectory => some (ascii "member")
  | _ => none

/-- What freshly allocated memory holds. -/
structure GroupMemory where
  attrs : ℕ → Cell LdapModT
  values : ℕ → Cell Bytes

/-- The array with one modification and its array of values, written element by element. -/
def memberModifications (memory : GroupMemory) (member userDn : Bytes) (modOperation : Int) :
    Except Memory.Fault (Cells LdapModT) := do
  let attrs ← write (fresh memory.attrs 2) 0 .null
  let modValues ← write (fresh memory.values 2) 0 .null
  let modValues ← write modValues 0 (.set userDn)
  let modValues ← write modValues 1 .null
  let attrs ← write attrs 0 (.set ⟨modOperation, member, modValues⟩)
  write attrs 1 .null

def modifyWith (groupDn : Bytes) (attrs : Except Memory.Fault (Cells LdapModT)) (sent : Sent) :
    Action OperationReturnCode :=
  match attrs with
  | .ok attrs => modify groupDn (Arrays.modifications (some attrs)) sent
  | .error _ => throw .invalidPointer

def groupMemberModify (memory : GroupMemory) (handle : Option LdHandle) (groupDn userDn : Option Bytes)
    (modOperation : Int) (sent : Sent) : Action OperationReturnCode :=
  match handle with
  | none => throw .invalidPointer
  | some _ => do
    match memberAttribute (← get).connection.directoryType with
    | none => return .failure
    | some member =>
      checked groupDn fun thisGroupDn => checked userDn fun thisUserDn =>
        modifyWith thisGroupDn (memberModifications memory member thisUserDn modOperation) sent

def ldGroupAddUser (memory : GroupMemory) (handle : Option LdHandle) (groupName userName : Option Bytes) (sent : Sent) :
    Action OperationReturnCode :=
  groupMemberModify memory handle groupName userName ldapModAdd sent

def ldGroupRemoveUser (memory : GroupMemory) (handle : Option LdHandle) (groupName userName : Option Bytes)
    (sent : Sent) : Action OperationReturnCode :=
  groupMemberModify memory handle groupName userName ldapModDelete sent

theorem memberModifications_eq (memory : GroupMemory) (member userDn : Bytes) (modOperation : Int) :
    memberModifications memory member userDn modOperation =
      .ok (terminate [⟨modOperation, member, terminate [userDn]⟩]) := rfl

abbrev Groups := Ldap.Name Bytes Bytes → Option (Finset Bytes)

inductive MemberChange
  | join (group : Ldap.Name Bytes Bytes) (user : Bytes)
  | leave (group : Ldap.Name Bytes Bytes) (user : Bytes)

/-- What a change makes of the groups, and whether it has been carried out. -/
inductive Groups.Step (g : Groups) : MemberChange → Bool → Groups → Prop
  | refuse (change : MemberChange) : Step g change false g
  | join {group : Ldap.Name Bytes Bytes} {user : Bytes} {members : Finset Bytes} (present : g group = some members)
      (new : user ∉ members) : Step g (.join group user) true (Function.update g group (some (insert user members)))
  | leave {group : Ldap.Name Bytes Bytes} {user : Bytes} {members : Finset Bytes} (present : g group = some members)
      (member : user ∈ members) :
      Step g (.leave group user) true (Function.update g group (some (members.erase user)))

def membersOf (member : Bytes) (d : Ldap.Directory Bytes Bytes) : Groups := fun name => (d name).map fun e => e member

theorem membersOf_write (member : Bytes) (d : Ldap.Directory Bytes Bytes) (name : Ldap.Name Bytes Bytes)
    (e : Ldap.Entry Bytes Bytes) :
    membersOf member (d.write name (some e)) = Function.update (membersOf member d) name (some (e member)) := by
  funext k
  by_cases hk : k = name
  · subst hk
    simp [membersOf, Ldap.Directory.write]
  · simp [membersOf, Ldap.Directory.write, hk]

theorem membersOf_eq_some {member : Bytes} {d : Ldap.Directory Bytes Bytes} {name : Ldap.Name Bytes Bytes}
    {members : Finset Bytes} :
    membersOf member d name = some members ↔ ∃ e, d name = some e ∧ e member = members := by
  simp [membersOf]

inductive MemberOperation
  | addUser
  | removeUser

/-- A call in the world in which it is made. The handle and the strings may be null. -/
structure MemberCall where
  operation : MemberOperation
  memory : GroupMemory
  handle : Option LdHandle
  group : Option Dn.Name
  user : Option Bytes
  sent : Sent
  world : World

namespace MemberCall

def run (c : MemberCall) : Action OperationReturnCode :=
  match c.operation with
  | .addUser => ldGroupAddUser c.memory c.handle (c.group.map Dn.Name.text) c.user c.sent
  | .removeUser => ldGroupRemoveUser c.memory c.handle (c.group.map Dn.Name.text) c.user c.sent

def requests (c : MemberCall) : List LdapCall := callsOf c.run c.world

def directoryType (c : MemberCall) : LdapDirectoryType := c.world.connection.directoryType

/-- What the call is for, unless it is refused at once. -/
def change (c : MemberCall) : Option MemberChange :=
  match c.handle, memberAttribute c.directoryType, c.group, checkString c.user with
  | some _, some _, some (r :: rs), some user =>
    match c.operation with
    | .addUser => some (.join (entry (r :: rs)) user)
    | .removeUser => some (.leave (entry (r :: rs)) user)
  | _, _, _, _ => none

end MemberCall

/-- A server answers the requests of a call. -/
def ServesMembers (d : Ldap.Directory Bytes Bytes) (c : MemberCall × Bool) (d' : Ldap.Directory Bytes Bytes) : Prop :=
  Runs ServesCall d (c.1.requests.map fun request => (request, c.2)) d'

def Groups.Makes (g : Groups) (c : MemberCall × Bool) (g' : Groups) : Prop :=
  match c.1.change with
  | none => g' = g
  | some change => g.Step change c.2 g'

def MemberOperation.modOp : MemberOperation → Int
  | .addUser => ldapModAdd
  | .removeUser => ldapModDelete

theorem MemberCall.run_eq (c : MemberCall) :
    c.run = groupMemberModify c.memory c.handle (c.group.map Dn.Name.text) c.user c.operation.modOp c.sent := by
  obtain ⟨operation, memory, handle, group, user, sent, w⟩ := c
  cases operation <;> rfl

theorem callsOf_congr {operation operation' : Action OperationReturnCode} {w : World}
    (h : exec operation w = exec operation' w) : callsOf operation w = callsOf operation' w := by
  rw [callsOf, callsOf, h]

theorem callsOf_failure (w : World) : callsOf (return .failure) w = [] :=
  @callsOf_eq (return .failure) w [] rfl

theorem callsOf_checked (input : Option Bytes) (operation : Bytes → Action OperationReturnCode) (w : World) :
    callsOf (checked input operation) w = (checkString input).elim [] fun s => callsOf (operation s) w := by
  rw [checked]
  cases checkString input with
  | none => exact callsOf_failure w
  | some s => rfl

/-- The request of a call, if the handle, the type of the directory and the strings allow it. -/
theorem callsOf_groupMemberModify (memory : GroupMemory) (handle : Option LdHandle) (groupDn userDn : Option Bytes)
    (modOp : Int) (sent : Sent) (w : World) :
    callsOf (groupMemberModify memory handle groupDn userDn modOp sent) w =
      match handle, memberAttribute w.connection.directoryType, checkString groupDn, checkString userDn with
      | some _, some member, some dn, some user => [.modifyExt dn [⟨modOp, member, [user]⟩]]
      | _, _, _, _ => [] := by
  cases handle with
  | none => exact @callsOf_eq (throw .invalidPointer) w [] rfl
  | some handle =>
    rw [groupMemberModify, callsOf_congr (exec_bind_ok (exec_get w))]
    cases memberAttribute w.connection.directoryType with
    | none => exact callsOf_failure w
    | some member =>
      dsimp only
      rw [callsOf_checked]
      cases checkString groupDn with
      | none => rfl
      | some dn =>
        rw [Option.elim_some, callsOf_checked]
        cases checkString userDn with
        | none => rfl
        | some user =>
          rw [Option.elim_some, memberModifications_eq]
          exact callsOf_submit (.modifyExt dn [⟨modOp, member, [user]⟩]) .modifyOnRead sent w

def MemberChange.request (member : Bytes) : MemberChange → Ldap.Request Bytes Bytes
  | join group user => .modify group [⟨.add, member, [user]⟩]
  | leave group user => .modify group [⟨.delete, member, [user]⟩]

theorem checkString_text (r : Dn.Rdn) (rs : Dn.Name) :
    checkString (some (Dn.Name.text (r :: rs))) = some (Dn.Name.text (r :: rs)) := by
  have hne : Dn.Name.text (r :: rs) ≠ [] := text_ne_nil (List.cons_ne_nil r rs)
  rw [checkString, if_neg (List.length_pos_of_ne_nil hne).ne']

/-- A call sends a request that is understood as its change, or none. -/
theorem MemberCall.requests_eq (c : MemberCall) {member : Bytes}
    (hmember : ∀ type, memberAttribute c.directoryType = some type → type = member) :
    match c.change with
    | none => c.requests = []
    | some change => ∃ request, c.requests = [request] ∧ Understood request (change.request member) := by
  obtain ⟨operation, memory, handle, group, user, sent, w⟩ := c
  rw [requests, run_eq, callsOf_groupMemberModify]
  dsimp only [change, directoryType] at hmember ⊢
  cases handle with
  | none => rfl
  | some handle =>
    cases htype : memberAttribute w.connection.directoryType with
    | none => rfl
    | some type =>
      cases hmember type htype
      cases group with
      | none => rfl
      | some group =>
        cases group with
        | nil => rfl
        | cons r rs =>
          rw [Option.map_some, checkString_text]
          cases checkString user with
          | none => rfl
          | some user => cases operation <;> exact ⟨_, rfl, .modify ⟨_, rfl, rfl⟩ rfl⟩

variable {d d' : Ldap.Directory Bytes Bytes} {member : Bytes} {change : MemberChange} {accepted : Bool}

theorem union_toFinset (s : Finset Bytes) (user : Bytes) : s ∪ [user].toFinset = insert user s := by
  ext
  simp

theorem sdiff_toFinset (s : Finset Bytes) (user : Bytes) : s \ [user].toFinset = s.erase user := by
  ext
  simp [and_comm]

theorem serves_request (h : Ldap.Serves d (change.request member) accepted d') :
    (membersOf member d).Step change accepted (membersOf member d') ∧
      ∀ type, type ≠ member → ∀ name, (d' name).map (fun e => e type) = (d name).map fun e => e type := by
  have hframe : ∀ {e : Ldap.Entry Bytes Bytes} {group : Ldap.Name Bytes Bytes} {members : Finset Bytes},
      d group = some e → ∀ type, type ≠ member → ∀ name,
        (d.write group (some (Function.update e member members)) name).map (fun e => e type) =
          (d name).map fun e => e type := by
    intro e group members present type htype name
    by_cases hname : name = group
    · subst hname
      simp [Ldap.Directory.write, present, htype]
    · simp [Ldap.Directory.write, hname]
  cases change with
  | join group user =>
    cases h with
    | refuse => exact ⟨.refuse _, fun _ _ _ => rfl⟩
    | modify present modified =>
      rw [Ldap.modify_singleton, Ldap.apply_add_iff] at modified
      obtain ⟨-, hnew, rfl⟩ := modified
      refine ⟨?_, hframe present⟩
      rw [membersOf_write, Function.update_self, union_toFinset]
      exact .join (membersOf_eq_some.mpr ⟨_, present, rfl⟩) (hnew user List.mem_cons_self)
  | leave group user =>
    cases h with
    | refuse => exact ⟨.refuse _, fun _ _ _ => rfl⟩
    | modify present modified =>
      rw [Ldap.modify_singleton, Ldap.apply_delete_iff (List.cons_ne_nil _ _)] at modified
      obtain ⟨hall, rfl⟩ := modified
      refine ⟨?_, hframe present⟩
      rw [membersOf_write, Function.update_self, sdiff_toFinset]
      exact .leave (membersOf_eq_some.mpr ⟨_, present, rfl⟩) (hall user List.mem_cons_self)

/-- Every step of the groups is one that a server can make. -/
theorem Groups.Step.serves {g : Groups} (h : (membersOf member d).Step change accepted g) :
    ∃ d', Ldap.Serves d (change.request member) accepted d' ∧ membersOf member d' = g := by
  cases h with
  | refuse => exact ⟨d, .refuse _, rfl⟩
  | @join group user members present new =>
    obtain ⟨e, he, rfl⟩ := membersOf_eq_some.mp present
    have hmodify : Ldap.modify [⟨.add, member, [user]⟩] e = some _ :=
      (Ldap.modify_singleton _ e).trans (Ldap.apply_add_iff.mpr ⟨List.cons_ne_nil _ _, by simpa using new, rfl⟩)
    refine ⟨_, .modify he hmodify, ?_⟩
    rw [membersOf_write, Function.update_self, union_toFinset]
  | @leave group user members present mem =>
    obtain ⟨e, he, rfl⟩ := membersOf_eq_some.mp present
    have hmodify : Ldap.modify [⟨.delete, member, [user]⟩] e = some _ :=
      (Ldap.modify_singleton _ e).trans
        ((Ldap.apply_delete_iff (List.cons_ne_nil _ _)).mpr ⟨by simpa using mem, rfl⟩)
    refine ⟨_, .modify he hmodify, ?_⟩
    rw [membersOf_write, Function.update_self, sdiff_toFinset]

/-- A call is served exactly as its change says. -/
theorem servesMembers_iff (c : MemberCall) {member : Bytes}
    (hmember : ∀ type, memberAttribute c.directoryType = some type → type = member) (accepted : Bool)
    (d d' : Ldap.Directory Bytes Bytes) :
    ServesMembers d (c, accepted) d' ↔
      match c.change with
      | none => d' = d
      | some change => Ldap.Serves d (change.request member) accepted d' := by
  have hrequests := c.requests_eq hmember
  rw [ServesMembers]
  cases hchange : c.change with
  | none =>
    rw [hchange] at hrequests
    change c.requests = [] at hrequests
    rw [hrequests]
    exact Runs.nil_iff
  | some change =>
    rw [hchange] at hrequests
    obtain ⟨request, heq, hunderstood⟩ := hrequests
    rw [heq]
    change Runs ServesCall d [(request, accepted)] d' ↔ _
    refine Iff.trans ?_ (servesCall_iff hunderstood accepted)
    rw [Runs.cons_iff]
    constructor
    · rintro ⟨u, hserves, hnil⟩
      rwa [Runs.nil_iff.mp hnil]
    · exact fun hserves => ⟨d', hserves, .nil d'⟩

/-- Calls that are answered by a server add users to groups and remove them as the calls say,
and change no attribute but the one with the members; and whatever groups may do, the
directory may do. Calls with a null or empty string or with an unsupported type change nothing. -/
theorem memberships_refine (member : Bytes) (calls : List (MemberCall × Bool))
    (hmember : ∀ c ∈ calls, ∀ type, memberAttribute c.1.directoryType = some type → type = member)
    (d : Ldap.Directory Bytes Bytes) :
    (∀ d', Runs ServesMembers d calls d' →
      Runs Groups.Makes (membersOf member d) calls (membersOf member d') ∧
        ∀ type, type ≠ member → ∀ name, (d' name).map (fun e => e type) = (d name).map fun e => e type) ∧
    ∀ g, Runs Groups.Makes (membersOf member d) calls g →
      ∃ d', Runs ServesMembers d calls d' ∧ membersOf member d' = g := by
  have hserves : ∀ c ∈ calls, ∀ d d', ServesMembers d c d' →
      Groups.Makes (membersOf member d) c (membersOf member d') ∧
        ∀ type, type ≠ member → ∀ name, (d' name).map (fun e => e type) = (d name).map fun e => e type := by
    intro c hc d d' hstep
    have hiff := (servesMembers_iff c.1 (hmember c hc) c.2 d d').mp hstep
    rw [Groups.Makes]
    cases hchange : c.1.change with
    | none =>
      rw [hchange] at hiff
      cases hiff
      exact ⟨rfl, fun _ _ _ => rfl⟩
    | some change =>
      rw [hchange] at hiff
      exact serves_request hiff
  refine ⟨fun d' hrun => ⟨?_, fun type htype name => ?_⟩, fun g hrun => ?_⟩
  · exact hrun.simulated (f := membersOf member) fun c hc d d' hstep => (hserves c hc d d' hstep).1
  · refine hrun.invariant (I := fun t => (t name).map (fun e => e type) = (d name).map fun e => e type) ?_ rfl
    exact fun c hc s t hstep hs => ((hserves c hc s t hstep).2 type htype name).trans hs
  · refine hrun.lifted (f := membersOf member) fun c hc d g hstep => ?_
    have hiff := fun d' => servesMembers_iff c.1 (hmember c hc) c.2 d d'
    rw [Groups.Makes] at hstep
    cases hchange : c.1.change with
    | none =>
      rw [hchange] at hstep hiff
      exact ⟨d, (hiff d).mpr rfl, hstep.symm⟩
    | some change =>
      rw [hchange] at hstep hiff
      obtain ⟨d', hd', hg⟩ := Groups.Step.serves hstep
      exact ⟨d', (hiff d').mpr hd', hg⟩

/-- A call about a user of the group `dc=alt` in an OpenLDAP directory. -/
def ivanovCall (operation : MemberOperation) : MemberCall :=
  ⟨operation, ⟨fun _ => .unset, fun _ => .unset⟩, some ⟨ascii "dc=alt"⟩, some altName, some (ascii "ivanov"),
    ⟨ldapSuccess, 1⟩, connectedTo .openldap⟩

/-- A user that joins an empty group is its only member. -/
theorem memberships_refine_ivanov :
    ∃ d', Runs ServesMembers (Ldap.Directory.write (fun _ => none) (entry altName) (some fun _ => ∅))
        [(ivanovCall .addUser, true)] d' ∧
      membersOf (ascii "memberuid") d' (entry altName) = some {ascii "ivanov"} := by
  have hmember : ∀ c ∈ [(ivanovCall .addUser, true)], ∀ type,
      memberAttribute c.1.directoryType = some type → type = ascii "memberuid" := by
    intro c hc type htype
    cases List.mem_singleton.mp hc
    exact (Option.some.inj htype).symm
  have hempty : membersOf (ascii "memberuid") (Ldap.Directory.write (fun _ => none) (entry altName) (some fun _ => ∅))
      (entry altName) = some ∅ := by
    rw [membersOf_write, Function.update_self]
  obtain ⟨d', hrun, hmembers⟩ := (memberships_refine _ _ hmember _).2 _
    (.cons (.join hempty (Finset.notMem_empty (ascii "ivanov"))) (.nil _))
  exact ⟨d', hrun, (congrFun hmembers (entry altName)).trans (Function.update_self ..)⟩

end Libdomain.Domain
