import Libdomain.Domain.AttributeLists
import Libdomain.Domain.Containers
import Libdomain.Entry.SearchArrays

/-! # Entries that are read and written

The entries that a search delivers can be given back to the library. Their attributes become
the modifications of a request again, so that `ld_mod_entry` restores an entry that has been
read, and `ld_add_entry` makes a copy of it.
-/
namespace Libdomain.Domain
open Libdomain.Connection Libdomain.Memory Libdomain.Entry

variable {message : LdapMessage} {entry : LdEntryT} {visited : List (Bytes × LdapAttributeT)}

def arrayAttribute (v : EntryAttribute) : LdapAttributeT := ⟨some v.1, some (terminate v.2)⟩

def givenAttribute (v : EntryAttribute) : Bytes × GivenAttribute :=
  (v.1, ⟨some v.1, some ⟨terminate v.2, v.2, terminated_terminate v.2⟩⟩)

/-- Whatever the order in which the hash table is visited, the array of a delivered entry stands
for the attributes of the message. -/
theorem ldEntryGetAttributes_delivered (h : Delivers message entry) (hv : entry.attributes.Visits visited) :
    ∃ vs : List EntryAttribute, vs.Perm message.attributes ∧
      ldEntryGetAttributes entry.attributes visited = .ok (terminate (vs.map arrayAttribute)) := by
  obtain ⟨attributes, hget, hperm⟩ := h.all visited hv
  have hcomp : Relation.Comp (· = List.map arrayAttribute ·) List.Perm attributes message.attributes := by
    rw [List.eq_map_comp_perm]
    exact hperm
  obtain ⟨vs, rfl, hvs⟩ := hcomp
  exact ⟨vs, hvs, hget⟩

theorem withModifications_arrayAttribute (vs : List EntryAttribute) (modOp : Int)
    (operation : List LdapMod → Action OperationReturnCode) :
    Arrays.withModifications (terminate (vs.map arrayAttribute)) modOp operation =
      operation (fillAttributes vs modOp) := by
  have hvalues : ∀ e ∈ vs.map givenAttribute, e.2.values.isSome := by
    intro e he
    obtain ⟨v, -, rfl⟩ := List.mem_map.mp he
    rfl
  have hmeaning : (vs.map givenAttribute).map meaning = vs := by
    rw [List.map_map]
    exact List.map_id vs
  have hcopied : vs.map arrayAttribute = (vs.map givenAttribute).map fun e => copied e.1 e.2 := by
    rw [List.map_map]
    rfl
  rw [hcopied, withModifications_copied hvalues, hmeaning]

section Calls

variable {name parent : Bytes} (namePrefix : Bytes) (vs : List EntryAttribute) (sent : Sent) (w : World)

theorem callsOf_ldModEntry (hname : name ≠ []) (hparent : parent ≠ []) :
    callsOf (Arrays.ldModEntry (some name) (some parent) namePrefix (terminate (vs.map arrayAttribute)) sent) w =
      [.modifyExt (dnOf namePrefix name parent) (fillAttributes vs ldapModReplace)] := by
  have hmod : Arrays.ldModEntry (some name) (some parent) namePrefix (terminate (vs.map arrayAttribute)) sent =
      (EntryOperation.modEntry vs).run name parent namePrefix sent := by
    simp only [Arrays.ldModEntry, withModifications_arrayAttribute]
    rfl
  rw [hmod, EntryOperation.run_eq_submit _ hname hparent, callsOf_submit]
  rfl

theorem callsOf_ldAddEntry (hname : name ≠ []) (hparent : parent ≠ []) :
    callsOf (Arrays.ldAddEntry (some name) (some parent) namePrefix (terminate (vs.map arrayAttribute)) sent) w =
      [.addExt (dnOf namePrefix name parent) (fillAttributes vs ldapModAdd)] := by
  have hadd : Arrays.ldAddEntry (some name) (some parent) namePrefix (terminate (vs.map arrayAttribute)) sent =
      (EntryOperation.addEntry vs).run name parent namePrefix sent := by
    simp only [Arrays.ldAddEntry, withModifications_arrayAttribute]
    rfl
  rw [hadd, EntryOperation.run_eq_submit _ hname hparent, callsOf_submit]
  rfl

end Calls

variable {d d' : Ldap.Directory Bytes Bytes} {dn : Bytes} {vs : List EntryAttribute}

theorem servesCall_modify (h : (vs.map Prod.fst).Nodup) :
    ServesCall d (.modifyExt dn (fillAttributes vs ldapModReplace), true) d' ↔
      ∃ name e, Names dn name ∧ d name = some e ∧ d' = d.write name (some (e.over vs)) := by
  constructor
  · rintro (⟨⟨⟩, -⟩ | ⟨r, hunderstood, hserves⟩)
    cases hunderstood with
    | @modify _ _ name ms names served =>
      cases (mapM_servedModification vs).symm.trans served
      cases hserves with
      | @modify _ _ e e' present modified =>
        have hover := (Ldap.modify_replaces h e).symm.trans modified
        cases hover
        exact ⟨name, e, names, present, rfl⟩
  · rintro ⟨name, e, names, present, rfl⟩
    exact .inr ⟨_, .modify names (mapM_servedModification vs), .modify present (Ldap.modify_replaces h e)⟩

theorem servesCall_add (h : (vs.map Prod.fst).Nodup) :
    ServesCall d (.addExt dn (fillAttributes vs ldapModAdd), true) d' ↔
      ∃ r parent, Names dn (r :: parent) ∧ d (r :: parent) = none ∧ (d parent).isSome ∧ (∀ v ∈ vs, v.2 ≠ []) ∧
        d' = d.write (r :: parent) (some ((Ldap.Entry.over (fun _ => ∅) vs).named r)) := by
  have hattributes : (fillAttributes vs ldapModAdd).map (fun mod => (mod.type, mod.values)) = vs := by
    rw [fillAttributes, List.map_map]
    exact List.map_id vs
  constructor
  · rintro (⟨⟨⟩, -⟩ | ⟨request, hunderstood, hserves⟩)
    cases hunderstood with
    | add names =>
      rw [hattributes] at hserves
      cases hserves with
      | add absent superior created =>
        obtain ⟨hvalues, rfl⟩ := (Ldap.create_eq_some_iff h).mp created
        exact ⟨_, _, names, absent, superior, hvalues, rfl⟩
  · rintro ⟨r, parent, names, absent, superior, hvalues, rfl⟩
    have hadd := @Understood.add _ (fillAttributes vs ldapModAdd) _ names
    rw [hattributes] at hadd
    exact .inr ⟨_, hadd, .add absent superior ((Ldap.create_eq_some_iff h).mpr ⟨hvalues, rfl⟩)⟩

/-- Where the request is carried out, the entry has the given values in the attributes that are
given, and else what it had. -/
def Restores (call : LdapCall) (dn : Bytes) (vs : List EntryAttribute) : Prop :=
  ∀ d d', ServesCall d (call, true) d' ↔
    ∃ name e, Names dn name ∧ d name = some e ∧ d' = d.write name (some (e.over vs))

/-- Where the request is carried out, there is a new entry below another one, with the given
values, those of its name and no others. -/
def Copies (call : LdapCall) (dn : Bytes) (vs : List EntryAttribute) : Prop :=
  ∀ d d', ServesCall d (call, true) d' ↔
    ∃ r parent, Names dn (r :: parent) ∧ d (r :: parent) = none ∧ (d parent).isSome ∧ (∀ v ∈ vs, v.2 ≠ []) ∧
      d' = d.write (r :: parent) (some ((Ldap.Entry.over (fun _ => ∅) vs).named r))

theorem delivers_of_readEntry (hread : readEntry message = .ok entry) (hproper : Proper message) :
    Delivers message entry := by
  rw [readEntry_eq] at hread
  cases hdn : message.dn with
  | none =>
    rw [hdn] at hread
    cases hread
  | some dn =>
    rw [hdn] at hread
    cases hread
    exact delivers_entryOf hproper hdn

theorem delivers_of_readEntries {r : Response} {array : Cells LdEntryT} {entries : List LdEntryT}
    (hread : Entry.readEntries r = .ok array) (harray : Terminated array entries) {i : ℕ}
    (hi : r.chain[i]? = some message) (hproper : Proper message) :
    ∃ entry, entries[i]? = some entry ∧ Delivers message entry := by
  cases hmemory : r.outOfMemory with
  | true =>
    rw [Entry.readEntries, if_pos hmemory] at hread
    cases hread
  | false =>
    obtain ⟨k, -, hchain⟩ := readEntries_eq hmemory
    rw [hread] at hchain
    cases hmade : r.chain.mapM readEntry with
    | error fault =>
      rw [hmade] at hchain
      cases hchain
    | ok made =>
      rw [hmade] at hchain
      obtain rfl : entries = made := harray.unique ⟨alloc k, Except.ok.inj hchain⟩
      obtain ⟨hlength, hall⟩ := List.forall₂_iff_get.mp (mapM_eq_ok.mp hmade)
      obtain ⟨hlt, rfl⟩ := List.getElem?_eq_some_iff.mp hi
      exact ⟨_, List.getElem?_eq_getElem (hlength ▸ hlt), delivers_of_readEntry (hall i hlt (hlength ▸ hlt)) hproper⟩

/-- An entry that a search has delivered can be given to `ld_mod_entry` and `ld_add_entry`,
which restore it from the message and make a copy of it. It is restored exactly if the
attributes that the message does not show have not changed. -/
theorem entries_restored {r : Response} {array : Cells LdEntryT} {entries : List LdEntryT}
    (hread : Entry.readEntries r = .ok array) (harray : Terminated array entries) {i : ℕ}
    (hi : r.chain[i]? = some message) (hproper : Proper message) :
    (∃ entry, entries[i]? = some entry ∧ ∀ visited, entry.attributes.Visits visited →
      ∃ attrs, ldEntryGetAttributes entry.attributes visited = .ok attrs ∧
        ∀ name parent, name ≠ [] → parent ≠ [] → ∀ namePrefix sent w, ∃ mod add,
          callsOf (Arrays.ldModEntry (some name) (some parent) namePrefix attrs sent) w = [mod] ∧
          callsOf (Arrays.ldAddEntry (some name) (some parent) namePrefix attrs sent) w = [add] ∧
          Restores mod (dnOf namePrefix name parent) message.attributes ∧
          Copies add (dnOf namePrefix name parent) message.attributes) ∧
    ∀ e : Ldap.Entry Bytes Bytes, (∀ a ∈ message.attributes, e a.1 = a.2.toFinset) →
      ∀ e', Ldap.Entry.over e' message.attributes = e ↔
        ∀ type, type ∉ message.attributes.map Prod.fst → e' type = e type := by
  refine ⟨?_, fun e he e' => Ldap.Entry.over_eq_iff hproper.distinct he⟩
  obtain ⟨entry, hentry, hdelivers⟩ := delivers_of_readEntries hread harray hi hproper
  refine ⟨entry, hentry, fun visited hv => ?_⟩
  obtain ⟨vs, hvs, hget⟩ := ldEntryGetAttributes_delivered hdelivers hv
  have hnodup : (vs.map Prod.fst).Nodup := (hvs.map Prod.fst).nodup_iff.mpr hproper.distinct
  refine ⟨_, hget, fun name parent hname hparent namePrefix sent w =>
    ⟨_, _, callsOf_ldModEntry _ _ _ _ hname hparent, callsOf_ldAddEntry _ _ _ _ hname hparent,
      fun d d' => ?_, fun d d' => ?_⟩⟩
  · rw [servesCall_modify hnodup]
    simp only [Ldap.Entry.over_perm hvs]
  · rw [servesCall_add hnodup]
    simp only [Ldap.Entry.over_perm hvs, hvs.mem_iff]

def shownUser : LdapMessage :=
  ⟨some (ascii "cn=a,dc=alt"), [(ascii "mail", [ascii "b"]), (ascii "sn", [ascii "c", ascii "d"])]⟩

/-- Written back over an entry without values, they are what the entry has. -/
theorem entries_restored_user :
    ∃ attrs mod, ldEntryGetAttributes (entryOf (ascii "cn=a,dc=alt") shownUser.attributes).attributes
        ((entryOf (ascii "cn=a,dc=alt") shownUser.attributes).attributes.entries.map fun e => (e.1, e.2)) = .ok attrs ∧
      callsOf (Arrays.ldModEntry (some (ascii "a")) (some (ascii "dc=alt")) (ascii "cn") attrs ⟨ldapSuccess, 1⟩)
        (.initial ⟨false, .simple⟩ none) = [mod] ∧
      ∃ d', ServesCall (fun _ => some fun _ => ∅) (mod, true) d' ∧
        d' [[(ascii "cn", ascii "a")], [(ascii "dc", ascii "alt")]] =
          some (Ldap.Entry.over (fun _ => ∅) shownUser.attributes) := by
  let r : Response := { rc := ldapResSearchEntry, chain := [shownUser] }
  obtain ⟨k, -, hread⟩ := readEntries_eq (r := r) rfl
  have hproper : Proper shownUser := ⟨by decide, by decide, by decide⟩
  have harray : Terminated ([entryOf (ascii "cn=a,dc=alt") shownUser.attributes].map Cell.set ++ .null :: alloc k)
      [entryOf (ascii "cn=a,dc=alt") shownUser.attributes] := ⟨alloc k, rfl⟩
  obtain ⟨⟨entry, hentry, hall⟩, -⟩ := entries_restored (r := r) (i := 0) hread harray rfl hproper
  cases hentry
  obtain ⟨attrs, hget, hcalls⟩ := hall _ (HashTable.Visits.self _)
  obtain ⟨mod, add, hmod, -, hrestores, -⟩ :=
    hcalls (ascii "a") (ascii "dc=alt") (by decide) (by decide) (ascii "cn") ⟨ldapSuccess, 1⟩
      (.initial ⟨false, .simple⟩ none)
  have ha : Syntaxes.Dn.Plain (ascii "a") := ⟨by rw [← Ragel.Expr.accepts_iff]; decide, by decide⟩
  have halt : altName ≠ [] := by decide
  have hname := (names_relative .user ha halt).2
  refine ⟨attrs, mod, hget, hmod, _, (hrestores _ _).mpr ⟨_, _, hname, rfl, rfl⟩, ?_⟩
  exact Function.update_self ..

end Libdomain.Domain
