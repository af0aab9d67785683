import Libdomain.Domain.Unblocking
import Libdomain.Ldap.Values

/-! # Lists of attributes

`ld_add_attributes` and `ld_del_attributes` of `attribute.c` add the values of some attributes
to an entry below the base, or delete them. The name they are given stands before the base
as it is, with its own prefix. The two undo each other on the server, except that an
attribute without values is deleted as a whole and cannot be added.
-/
namespace Libdomain.Domain
open Libdomain.Connection Libdomain.Memory Libdomain.Entry Libdomain.Program

def createAttributeParent (handle : Option LdHandle) : Bytes := handle.elim [] LdHandle.baseDn

/-- The call of `ld_mod_entry_attrs`, which checks the handle. -/
def modAttributes (handle : Option LdHandle) (cn : Option Bytes) (attrs : Cells LdapAttributeT) (opcode : Int)
    (sent : Sent) : Action OperationReturnCode :=
  match handle with
  | none => return .failure
  | some _ => Arrays.ldModEntryAttrs cn (some (createAttributeParent handle)) [] attrs opcode sent

def ldAddAttributes (handle : Option LdHandle) (cn : Option Bytes) (attrs : Cells LdapAttributeT) (sent : Sent) :
    Action OperationReturnCode := modAttributes handle cn attrs ldapModAdd sent

def ldDelAttributes (handle : Option LdHandle) (cn : Option Bytes) (attrs : Cells LdapAttributeT) (sent : Sent) :
    Action OperationReturnCode := modAttributes handle cn attrs ldapModDelete sent

/-- What an attribute of an array stands for. -/
def Stands (attr : LdapAttributeT) (v : EntryAttribute) : Prop :=
  attr.name = some v.1 ∧ ∃ cells, attr.values = some cells ∧ Terminated cells v.2

theorem fillModification_some (modOp : Int) (name : Bytes) (cells : Cells Bytes) :
    Arrays.fillModification modOp ⟨some name, some cells⟩ =
      (duplicate .ok cells).map fun modValues => ⟨modOp, name, modValues⟩ := by
  change (duplicate .ok cells >>= fun modValues => (.ok (LdapModT.mk modOp name modValues) : Except _ _)) = _
  cases duplicate Except.ok cells <;> rfl

theorem fillModification_eq_ok {attr : LdapAttributeT} {modOp : Int} {mod : LdapModT} :
    Arrays.fillModification modOp attr = .ok mod ↔ ∃ v, Stands attr v ∧ mod = ⟨modOp, v.1, terminate v.2⟩ := by
  obtain ⟨name, values⟩ := attr
  constructor
  · intro h
    cases name with
    | none => cases h
    | some name =>
      cases values with
      | none => cases h
      | some cells =>
        rw [fillModification_some] at h
        cases hcopy : duplicate Except.ok cells with
        | error fault =>
          rw [hcopy] at h
          cases h
        | ok copy =>
          rw [hcopy] at h
          obtain ⟨xs, ys, hxs, hys, rfl⟩ := duplicate_eq_ok hcopy
          have hsame : xs = ys := List.forall₂_eq_eq_eq ▸ hys.imp fun _ _ => Except.ok.inj
          subst hsame
          exact ⟨(name, xs), ⟨rfl, cells, rfl, hxs⟩, (Except.ok.inj h).symm⟩
  · rintro ⟨v, ⟨rfl, cells, rfl, hcells⟩, rfl⟩
    rw [fillModification_some, duplicate_terminated hcells, mapM_ok]
    rfl

theorem fillAttributes_eq_ok {attrs : Cells LdapAttributeT} {modOp : Int} {lists : Cells LdapModT}
    (h : Arrays.fillAttributes attrs modOp = .ok (some lists)) :
    ∃ vs : List EntryAttribute, ∀ modOp',
      Arrays.fillAttributes attrs modOp' = .ok (some (terminate (vs.map fun v => ⟨modOp', v.1, terminate v.2⟩))) := by
  rw [Arrays.fillAttributes] at h
  cases hcopy : duplicate (Arrays.fillModification modOp) attrs with
  | error fault =>
    rw [hcopy] at h
    cases fault <;> cases h
  | ok copy =>
    obtain ⟨xs, ys, hxs, hys, -⟩ := duplicate_eq_ok hcopy
    have hvs : ∃ vs : List EntryAttribute, List.Forall₂ Stands xs vs := by
      clear hxs hcopy h
      induction hys with
      | nil => exact ⟨[], .nil⟩
      | cons hx _ ih =>
        obtain ⟨v, hv, -⟩ := fillModification_eq_ok.mp hx
        obtain ⟨vs, hvs⟩ := ih
        exact ⟨v :: vs, .cons hv hvs⟩
    obtain ⟨vs, hvs⟩ := hvs
    refine ⟨vs, fun modOp' => ?_⟩
    have hmap : xs.mapM (Arrays.fillModification modOp') = .ok (vs.map fun v => ⟨modOp', v.1, terminate v.2⟩) := by
      rw [mapM_eq_ok, List.forall₂_map_right_iff]
      exact hvs.imp fun x v hv => fillModification_eq_ok.mpr ⟨v, hv, rfl⟩
    rw [Arrays.fillAttributes, duplicate_terminated hxs, hmap]
    rfl

variable {handle : Option LdHandle} {cn : Option Bytes} {attrs : Cells LdapAttributeT} {sent sent' : Sent}
  {w w' : World} {dn dn' : Bytes} {mods mods' : List LdapMod}

theorem sends_modAttributes {opcode : Int} :
    Sends (modAttributes handle cn attrs opcode sent) w dn mods ↔
      ∃ h name parent, handle = some h ∧ checkString cn = some name ∧ checkString (some h.baseDn) = some parent ∧
        ∃ lists, Arrays.fillAttributes attrs opcode = .ok lists ∧
          dn = name ++ (0x2c :: parent) ∧ mods = Arrays.modifications lists := by
  cases handle with
  | none =>
    have hquiet : (exec (return .failure : Action OperationReturnCode) w).2.trace = w.trace := rfl
    simpa [modAttributes] using not_sends_of_trace hquiet
  | some h =>
    have hsends : Sends (modAttributes (some h) cn attrs opcode sent) w dn mods ↔
        ∃ name, checkString cn = some name ∧ ∃ parent, checkString (some h.baseDn) = some parent ∧
          ∃ lists, Arrays.fillAttributes attrs opcode = .ok lists ∧
            dn = name ++ (0x2c :: parent) ∧ mods = Arrays.modifications lists := by
      rw [modAttributes, Arrays.ldModEntryAttrs, sends_checked]
      refine exists_congr fun name => and_congr_right fun _ => ?_
      rw [sends_checked]
      refine exists_congr fun parent => and_congr_right fun _ => ?_
      rw [Arrays.withModifications]
      cases Arrays.fillAttributes attrs opcode with
      | error fault =>
        have hquiet : (exec (throw .invalidPointer : Action OperationReturnCode) w).2.trace = w.trace := rfl
        simpa using not_sends_of_trace hquiet
      | ok lists => simp [sends_modify, attrsDnOf]
    rw [hsends]
    constructor
    · rintro ⟨name, hname, parent, hparent, hlists⟩
      exact ⟨h, name, parent, rfl, hname, hparent, hlists⟩
    · rintro ⟨_, name, parent, ⟨⟩, hname, hparent, hlists⟩
      exact ⟨name, hname, parent, hparent, hlists⟩

theorem modifications_values (vs : List EntryAttribute) (modOp : Int) :
    Arrays.modifications (some (terminate (vs.map fun v => ⟨modOp, v.1, terminate v.2⟩))) =
      fillAttributes vs modOp := by
  rw [Arrays.modifications, Option.elim_some, (terminated_terminate _).elements_eq, List.map_map, fillAttributes]
  refine List.map_congr_left fun v _ => ?_
  change (⟨modOp, v.1, elements (terminate v.2)⟩ : LdapMod) = _
  rw [(terminated_terminate _).elements_eq]

theorem served_fillAttributes (vs : List EntryAttribute) {modOp : Int} {operation : Ldap.Operation}
    (h : servedOperation modOp = some operation) (e : Ldap.Entry Bytes Bytes) :
    served (fillAttributes vs modOp) e = Ldap.modify (vs.map fun v => ⟨operation, v.1, v.2⟩) e := by
  have hmods : (fillAttributes vs modOp).mapM servedModification = some (vs.map fun v => ⟨operation, v.1, v.2⟩) := by
    induction vs with
    | nil => rfl
    | cons v vs ih =>
      rw [fillAttributes, List.map_cons, List.mapM_cons]
      rw [fillAttributes] at ih
      rw [ih, servedModification, h]
      rfl
  rw [served, hmods, Option.bind_some]

theorem sends_both (hadd : Sends (ldAddAttributes handle cn attrs sent) w dn mods)
    (hdel : Sends (ldDelAttributes handle cn attrs sent') w' dn' mods') :
    dn' = dn ∧ ∃ vs, mods = fillAttributes vs ldapModAdd ∧ mods' = fillAttributes vs ldapModDelete := by
  obtain ⟨h, name, parent, rfl, hname, hparent, lists, hlists, rfl, rfl⟩ := sends_modAttributes.mp hadd
  obtain ⟨_, name', parent', ⟨⟩, hname', hparent', lists', hlists', rfl, rfl⟩ := sends_modAttributes.mp hdel
  cases hname.symm.trans hname'
  cases hparent.symm.trans hparent'
  refine ⟨rfl, ?_⟩
  cases lists with
  | some cells =>
    obtain ⟨vs, hvs⟩ := fillAttributes_eq_ok hlists
    cases (hvs _).symm.trans hlists
    cases (hvs _).symm.trans hlists'
    exact ⟨vs, modifications_values vs _, modifications_values vs _⟩
  | none =>
    cases lists' with
    | some cells =>
      obtain ⟨vs, hvs⟩ := fillAttributes_eq_ok hlists'
      cases (hvs _).symm.trans hlists
    | none => exact ⟨[], rfl, rfl⟩

/-- The requests of the two operations with the same arguments are about one entry. Values
that have been added can be deleted again, and values that have been deleted can be added
again exactly if no attribute was deleted as a whole. -/
theorem attributes_restored (hadd : Sends (ldAddAttributes handle cn attrs sent) w dn mods)
    (hdel : Sends (ldDelAttributes handle cn attrs sent') w' dn' mods') (e e' : Ldap.Entry Bytes Bytes) :
    dn' = dn ∧ (served mods e = some e' → served mods' e' = some e) ∧
      (served mods' e = some e' → (served mods e' = some e ↔ ∀ mod ∈ mods', mod.values ≠ [])) := by
  obtain ⟨hdn, vs, rfl, rfl⟩ := sends_both hadd hdel
  have hadds : ∀ e, served (fillAttributes vs ldapModAdd) e = Ldap.modify (Ldap.adds vs) e :=
    served_fillAttributes vs rfl
  have hdeletes : ∀ e, served (fillAttributes vs ldapModDelete) e = Ldap.modify (Ldap.deletes vs) e :=
    served_fillAttributes vs rfl
  have hvalues : (∀ mod ∈ fillAttributes vs ldapModDelete, mod.values ≠ []) ↔ ∀ v ∈ vs, v.2 ≠ [] := by
    rw [fillAttributes]
    exact List.forall_mem_map
  rw [hadds, hdeletes, hadds, hdeletes, hvalues]
  refine ⟨hdn, Ldap.modify_deletes_of_adds, fun hdeleted => ⟨fun hadded => ?_, fun hne => ?_⟩⟩
  · exact (Ldap.modify_adds_iff.mp hadded).1
  · exact Ldap.modify_adds_of_deletes hne hdeleted

theorem attributes_restored_mail :
    let attrs : Cells LdapAttributeT := terminate [⟨some (ascii "mail"), some (terminate [ascii "a"])⟩]
    let mods (modOp : Int) : List LdapMod := [⟨modOp, ascii "mail", [ascii "a"]⟩]
    Sends (ldAddAttributes (some ⟨ascii "dc=alt"⟩) (some (ascii "cn=ivanov")) attrs ⟨ldapSuccess, 1⟩)
        (connectedTo .openldap) (ascii "cn=ivanov,dc=alt") (mods ldapModAdd) ∧
      Sends (ldDelAttributes (some ⟨ascii "dc=alt"⟩) (some (ascii "cn=ivanov")) attrs ⟨ldapSuccess, 2⟩)
        (connectedTo .openldap) (ascii "cn=ivanov,dc=alt") (mods ldapModDelete) ∧
      (served (mods ldapModAdd) fun _ => ∅).bind (served (mods ldapModDelete)) = some fun _ => ∅ := by
  intro attrs mods
  have hadd : Sends (ldAddAttributes (some ⟨ascii "dc=alt"⟩) (some (ascii "cn=ivanov")) attrs ⟨ldapSuccess, 1⟩)
      (connectedTo .openldap) (ascii "cn=ivanov,dc=alt") (mods ldapModAdd) :=
    sends_modAttributes.mpr ⟨_, _, _, rfl, rfl, rfl, _, rfl, by decide +kernel, rfl⟩
  have hdel : Sends (ldDelAttributes (some ⟨ascii "dc=alt"⟩) (some (ascii "cn=ivanov")) attrs ⟨ldapSuccess, 2⟩)
      (connectedTo .openldap) (ascii "cn=ivanov,dc=alt") (mods ldapModDelete) :=
    sends_modAttributes.mpr ⟨_, _, _, rfl, rfl, rfl, _, rfl, by decide +kernel, rfl⟩
  have hadded : served (mods ldapModAdd) (fun _ => ∅) =
      some (Function.update (fun _ => ∅) (ascii "mail") (∅ ∪ [ascii "a"].toFinset)) := rfl
  refine ⟨hadd, hdel, ?_⟩
  rw [hadded, Option.bind_some]
  exact (attributes_restored hadd hdel _ _).2.1 hadded

end Libdomain.Domain
