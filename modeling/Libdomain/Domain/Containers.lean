import Libdomain.Domain.Objects
import Libdomain.Domain.Unblocking
import Libdomain.Ldap.Directory
import Libdomain.Program.Runs

/-! # Containers

What the operations on users, groups, computers and organizational units make of a
directory. Those on one container keep a store of named objects: they add, delete, modify
and rename the children of the container as they are asked to, each under the name it is
given, as long as names need no escapes. A name says nothing about the kind of an object, so
that users, groups and computers share one space of names.
-/
namespace Libdomain.Domain
open Libdomain.Connection Libdomain.Syntaxes Libdomain.Program

/-- The text names the entry. Values are compared byte by byte. -/
def Names (dn : Bytes) (name : Ldap.Name Bytes Bytes) : Prop := ∃ d : Dn.Name, d.text = dn ∧ entry d = name

/-- The request that a server reads. The operations in the modifications of an `add` are ignored. -/
inductive Understood : LdapCall → Ldap.Request Bytes Bytes → Prop
  | add {dn : Bytes} {mods : List LdapMod} {name : Ldap.Name Bytes Bytes} (names : Names dn name) :
      Understood (.addExt dn mods) (.add name (mods.map fun mod => (mod.type, mod.values)))
  | delete {dn : Bytes} {name : Ldap.Name Bytes Bytes} (names : Names dn name) :
      Understood (.deleteExt dn) (.delete name)
  | modify {dn : Bytes} {mods : List LdapMod} {name : Ldap.Name Bytes Bytes}
      {ms : List (Ldap.Modification Bytes Bytes)} (names : Names dn name)
      (served : mods.mapM servedModification = some ms) :
      Understood (.modifyExt dn mods) (.modify name ms)
  | rename {olddn newdn newParent : Bytes} {name superior : Ldap.Name Bytes Bytes} {r : Ldap.Relative Bytes Bytes}
      (old : Names olddn name) (new : Names newdn [r]) (parent : Names newParent superior) :
      Understood (.rename olddn newdn newParent true) (.rename name r superior)

/-- A server carries out a request that it understands, or refuses it. -/
def ServesCall (d : Ldap.Directory Bytes Bytes) (call : LdapCall × Bool) (d' : Ldap.Directory Bytes Bytes) : Prop :=
  (call.2 = false ∧ d' = d) ∨ ∃ r, Understood call.1 r ∧ Ldap.Serves d r call.2 d'

variable {d d' : Ldap.Directory Bytes Bytes} {dn : Bytes} {name name' : Ldap.Name Bytes Bytes}

theorem Names.unique (h : Names dn name) (h' : Names dn name') : name = name' := by
  obtain ⟨d, rfl, rfl⟩ := h
  obtain ⟨d', hd', rfl⟩ := h'
  rw [Dn.Name.text_injective hd']

theorem Understood.unique {call : LdapCall} {r r' : Ldap.Request Bytes Bytes} (h : Understood call r)
    (h' : Understood call r') : r = r' := by
  cases h with
  | add names =>
    cases h' with
    | add names' => rw [names.unique names']
  | delete names =>
    cases h' with
    | delete names' => rw [names.unique names']
  | modify names served =>
    cases h' with
    | modify names' served' =>
      cases served.symm.trans served'
      rw [names.unique names']
  | rename old new parent =>
    cases h' with
    | rename old' new' parent' =>
      cases new.unique new'
      rw [old.unique old', parent.unique parent']

theorem servesCall_iff {call : LdapCall} {r : Ldap.Request Bytes Bytes} (h : Understood call r) (accepted : Bool) :
    ServesCall d (call, accepted) d' ↔ Ldap.Serves d r accepted d' := by
  constructor
  · rintro (⟨haccepted, rfl⟩ | ⟨r', hr', hserves⟩)
    · cases haccepted
      exact .refuse r
    · rw [h.unique hr']
      exact hserves
  · exact fun hserves => .inr ⟨r, h, hserves⟩

def callOf : Event → Option LdapCall
  | .call _ call => some call
  | _ => none

/-- The libldap calls of an operation, the last one first. -/
def callsOf (operation : Action OperationReturnCode) (w : World) : List LdapCall :=
  let trace := (exec operation w).2.trace
  (trace.take (trace.length - w.trace.length)).filterMap callOf

theorem callsOf_eq {operation : Action OperationReturnCode} {w : World} {new : List Event}
    (h : (exec operation w).2.trace = new ++ w.trace) : callsOf operation w = new.filterMap callOf := by
  have hlength : (new ++ w.trace).length - w.trace.length = new.length := by simp
  simp only [callsOf, h, hlength, List.take_left']

theorem callsOf_submit (request : LdapCall) (handler : OperationCallback) (sent : Sent) (w : World) :
    callsOf (submit request handler sent) w = [request] := by
  have hexec := exec_submit request handler sent w
  have htrace : ∃ new, (exec (submit request handler sent) w).2.trace = new ++ w.trace ∧
      new.filterMap callOf = [request] := by
    dsimp only at hexec
    split_ifs at hexec with hrc hslot
    · rw [hexec]
      exact ⟨[_], rfl, rfl⟩
    · rw [hexec]
      exact ⟨[_, _, _, _], rfl, rfl⟩
    · rw [hexec]
      exact ⟨[_, _, _], rfl, rfl⟩
  obtain ⟨new, htrace, hnew⟩ := htrace
  rw [callsOf_eq htrace, hnew]

/-- A call of an operation on an object, in the world in which it is made. -/
structure ObjectCall where
  kind : ObjectKind
  operation : EntryOperation
  name : { name : Bytes // name ≠ [] }
  handle : LdHandle
  sent : Sent
  world : World

namespace ObjectCall

def requests (parent : Bytes) (c : ObjectCall) : List LdapCall :=
  callsOf (c.kind.run c.operation c.handle (some c.name.1) (some parent) c.sent) c.world

/-- Neither the name of the object nor a new name needs escapes. -/
def Plain (c : ObjectCall) : Prop :=
  Dn.Plain c.name.1 ∧ ∀ newName, c.operation = .renameEntry newName → Dn.Plain newName.1

def relative (c : ObjectCall) (name : Bytes) : Ldap.Relative Bytes Bytes := [(c.kind.namePrefix, name)]

def change (c : ObjectCall) : Ldap.Change Bytes Bytes :=
  match c.operation with
  | .addEntry attrs => .create (c.relative c.name.1) attrs
  | .delEntry => .remove (c.relative c.name.1)
  | .modEntry attrs => .modify (c.relative c.name.1) (attrs.map fun attr => ⟨.replace, attr.1, attr.2⟩)
  | .renameEntry newName => .rename (c.relative c.name.1) (c.relative newName.1)

end ObjectCall

theorem namePrefix_mem (kind : ObjectKind) : kind.namePrefix ∈ Dn.attributeType.language := by
  rw [← Ragel.Expr.accepts_iff]
  cases kind <;> decide

theorem names_relative (kind : ObjectKind) {name : Bytes} (h : Dn.Plain name) {parent : Dn.Name} (hparent : parent ≠ []) :
    Names (rdnOf kind.namePrefix name) [[(kind.namePrefix, name)]] ∧
      Names (dnOf kind.namePrefix name parent.text) ([(kind.namePrefix, name)] :: entry parent) := by
  obtain ⟨hvalue, hdecode⟩ := (Dn.plain_iff name).mpr h
  let p : Dn.Pair := ⟨⟨kind.namePrefix, namePrefix_mem kind⟩, ⟨name, hvalue⟩⟩
  have hentry : entry [(p, [])] = [[(kind.namePrefix, name)]] := by simp [entry, p, hdecode]
  constructor
  · refine ⟨[(p, [])], ?_, hentry⟩
    simp [Dn.Name.text, Dn.Name.others, Dn.Rdn.text, Dn.Rdn.others, Dn.Pair.text, rdnOf, p]
  · refine ⟨(p, []) :: parent, text_cons hparent, ?_⟩
    change entry [(p, [])] ++ entry parent = _
    rw [hentry]
    rfl

theorem mapM_servedModification (attrs : List EntryAttribute) :
    (fillAttributes attrs ldapModReplace).mapM servedModification =
      some (attrs.map fun attr => ⟨.replace, attr.1, attr.2⟩) := by
  induction attrs with
  | nil => rfl
  | cons attr attrs ih =>
    rw [fillAttributes, List.map_cons, List.mapM_cons]
    rw [fillAttributes] at ih
    rw [ih]
    rfl

def ObjectCall.request (parent : Bytes) (c : ObjectCall) : LdapCall :=
  c.operation.request (dnOf c.kind.namePrefix c.name.1 parent) parent c.kind.namePrefix

theorem ObjectCall.requests_eq (c : ObjectCall) {parent : Bytes} (hparent : parent ≠ []) :
    c.requests parent = [c.request parent] := by
  obtain ⟨kind, operation, name, handle, sent, w⟩ := c
  have hcontainer : containerOf kind operation handle (some parent) w.connection.directoryType = parent := by
    cases operation <;> cases kind <;> simp [containerOf, nonEmptyOr, hparent]
  have hrun : callsOf (kind.run operation handle (some name.1) (some parent) sent) w =
      callsOf (operation.run name.1 parent kind.namePrefix sent) w := by
    rw [callsOf, callsOf, exec_run, hcontainer]
  rw [requests, hrun, operation.run_eq_submit name.2 hparent, callsOf_submit]
  rfl

theorem ObjectCall.Plain.understood {c : ObjectCall} (h : c.Plain) {parent : Dn.Name} (hparent : parent ≠ []) :
    Understood (c.request parent.text) (c.change.request (entry parent)) := by
  obtain ⟨kind, operation, name, handle, sent, w⟩ := c
  have hname := (names_relative kind h.1 hparent).2
  cases operation with
  | addEntry attrs =>
    have hattrs : (fillAttributes attrs ldapModAdd).map (fun mod => (mod.type, mod.values)) = attrs := by
      rw [fillAttributes, List.map_map]
      exact List.map_id attrs
    have hadd := @Understood.add _ (fillAttributes attrs ldapModAdd) _ hname
    rw [hattrs] at hadd
    exact hadd
  | delEntry => exact .delete hname
  | modEntry attrs => exact .modify hname (mapM_servedModification attrs)
  | renameEntry newName => exact .rename hname (names_relative kind (h.2 newName rfl) hparent).1 ⟨parent, rfl, rfl⟩

/-- The requests of some calls, each with the answer of the server. -/
def sentRequests (parent : Bytes) (calls : List (ObjectCall × Bool)) : List (LdapCall × Bool) :=
  calls.flatMap fun c => (c.1.requests parent).map fun request => (request, c.2)

theorem sentRequests_eq {parent : Bytes} (hparent : parent ≠ []) (calls : List (ObjectCall × Bool)) :
    sentRequests parent calls = calls.map fun c => (c.1.request parent, c.2) := by
  simp only [sentRequests, ObjectCall.requests_eq _ hparent, List.map_cons, List.map_nil]
  exact List.map_eq_flatMap.symm

theorem text_ne_nil {parent : Dn.Name} (h : parent ≠ []) : parent.text ≠ [] := by
  obtain ⟨r, rs, rfl⟩ := List.exists_cons_of_ne_nil h
  simp [Dn.Name.text, Dn.Rdn.text, Dn.Pair.text]

/-- Calls on one container, each with the answer of the server, change its children and what
is below them as the calls say, and nothing else, and leave a tree; and whatever a store of
named objects may do, the directory may do if it has the container. -/
theorem containers_refine (parent : Dn.Name) (hparent : parent ≠ []) (calls : List (ObjectCall × Bool))
    (hplain : ∀ c ∈ calls, c.1.Plain) (d : Ldap.Directory Bytes Bytes) :
    (∀ d', Runs ServesCall d (sentRequests parent.text calls) d' →
      Runs Ldap.Children.Makes (d.children (entry parent)) (calls.map fun c => (c.1.change, c.2))
          (d'.children (entry parent)) ∧
        (∀ k, (∀ c ∈ calls, ∀ r ∈ c.1.change.touches, ¬(r :: entry parent) <:+ k) → d' k = d k) ∧
        (d.Rooted → d'.Rooted)) ∧
    ((d (entry parent)).isSome → ∀ children,
      Runs Ldap.Children.Makes (d.children (entry parent)) (calls.map fun c => (c.1.change, c.2)) children →
        ∃ d', Runs ServesCall d (sentRequests parent.text calls) d' ∧ d'.children (entry parent) = children) := by
  have hserves : ∀ c ∈ calls, ∀ d d', ServesCall d (c.1.request parent.text, c.2) d' ↔
      Ldap.Serves d (c.1.change.request (entry parent)) c.2 d' :=
    fun c hc _ _ => servesCall_iff ((hplain c hc).understood hparent) c.2
  let view : Ldap.Directory Bytes Bytes → Ldap.Children Bytes Bytes := fun d => d.children (entry parent)
  rw [sentRequests_eq (text_ne_nil hparent)]
  simp only [Runs.map_iff]
  refine ⟨fun d' hrun => ⟨?_, fun k hk => ?_, fun hd => ?_⟩, fun hcontainer children hrun => ?_⟩
  · refine hrun.simulated (f := view) fun c hc d d' hstep => ?_
    exact ((hserves c hc d d').mp hstep).step
  · refine hrun.invariant (I := fun t => t k = d k) (fun c hc s t hstep hs => ?_) rfl
    exact (((hserves c hc s t).mp hstep).frame (hk c hc)).trans hs
  · refine hrun.invariant (I := Ldap.Directory.Rooted) (fun c hc s t hstep hs => ?_) hd
    exact ((hserves c hc s t).mp hstep).rooted hs
  · refine hrun.lifted_of (f := view) (I := fun d => (d (entry parent)).isSome) hcontainer ?_
    intro c hc d children hd hstep
    obtain ⟨d', hd', hchildren⟩ := Ldap.Children.Step.serves hd hstep
    have hkept : (d' (entry parent)).isSome := by rwa [hd'.above]
    exact ⟨d', (hserves c hc d d').mpr hd', hkept, hchildren⟩

def altName : Dn.Name :=
  [(⟨⟨ascii "dc", by rw [← Ragel.Expr.accepts_iff]; decide⟩,
      ⟨ascii "alt", ((Dn.plain_iff _).mpr ⟨by rw [← Ragel.Expr.accepts_iff]; decide, by decide⟩).1⟩⟩, [])]

def userCall (name : { name : Bytes // name ≠ [] }) (operation : EntryOperation) : ObjectCall :=
  ⟨.user, operation, name, ⟨ascii "dc=alt"⟩, ⟨ldapSuccess, 1⟩, .initial ⟨false, .simple⟩ none⟩

def altDirectory : Ldap.Directory Bytes Bytes := fun name =>
  if name = [] ∨ name = entry altName then some fun _ => ∅ else none

theorem children_altDirectory : altDirectory.children (entry altName) = fun _ _ => none := by
  funext r below
  have hne : below ++ r :: entry altName ≠ entry altName := by
    intro h
    have hlength := congrArg List.length h
    rw [List.length_append, List.length_cons] at hlength
    omega
  simp [Ldap.Directory.children, altDirectory, hne]

/-- A user that is added and then renamed has the new name only. -/
theorem containers_refine_renamed :
    ∃ d', Runs ServesCall altDirectory
        (sentRequests altName.text
          [(userCall ⟨ascii "a", by decide⟩ (.addEntry []), true),
            (userCall ⟨ascii "a", by decide⟩ (.renameEntry ⟨ascii "b", by decide⟩), true)]) d' ∧
      d' [[(ascii "cn", ascii "a")], [(ascii "dc", ascii "alt")]] = none ∧
      d' [[(ascii "cn", ascii "b")], [(ascii "dc", ascii "alt")]] =
        some (Ldap.Entry.named (fun _ => ∅) [(ascii "cn", ascii "b")]) := by
  have ha : Dn.Plain (ascii "a") := ⟨by rw [← Ragel.Expr.accepts_iff]; decide, by decide⟩
  have hb : Dn.Plain (ascii "b") := ⟨by rw [← Ragel.Expr.accepts_iff]; decide, by decide⟩
  have hplain : ∀ c ∈ [(userCall ⟨ascii "a", by decide⟩ (.addEntry []), true),
      (userCall ⟨ascii "a", by decide⟩ (.renameEntry ⟨ascii "b", by decide⟩), true)], c.1.Plain := by
    intro c hc
    rcases List.mem_cons.mp hc with rfl | hc
    · exact ⟨ha, fun _ h => by cases h⟩
    · cases List.mem_singleton.mp hc
      exact ⟨ha, fun _ h => by cases h; exact hb⟩
  obtain ⟨-, hlifted⟩ := containers_refine altName (by decide) _ hplain altDirectory
  rw [children_altDirectory] at hlifted
  obtain ⟨d', hrun, hchildren⟩ := hlifted (by decide) _ (.cons (.create rfl rfl) (.cons (.rename rfl rfl) (.nil _)))
  have hchild := fun r => congrFun (congrFun hchildren r) []
  refine ⟨d', hrun, (hchild _).trans ?_, (hchild _).trans (congrArg some ?_)⟩
  · rfl
  · have hrenamed : Ldap.Entry.renamed (fun _ => ∅) [(ascii "cn", ascii "a")] [(ascii "cn", ascii "b")] =
        Ldap.Entry.named (fun _ => ∅) [(ascii "cn", ascii "b")] := by simp [Ldap.Entry.renamed]
    exact (Ldap.Entry.renamed_named _ _ _).trans hrenamed

end Libdomain.Domain
