import Mathlib.Data.List.TakeWhile
import Libdomain.Entry.Arrays

/-! # The array of entries of a search

`search_on_read` copies the messages of a chain into an array of entries. The array starts
with 256 elements, and before each message it is doubled if there would not be two elements
left behind the next one.
-/
namespace Libdomain.Entry
open Libdomain.Connection Libdomain.Memory

/-- What is read through a pointer to an `ld_entry_t`. -/
structure LdEntryT where
  dn : Bytes
  attributes : Attributes LdapAttributeT

def ldEntryNew (dn : Option Bytes) : Option LdEntryT := dn.map fun dn => ⟨dn, ∅⟩

def ldEntryGetDn (entry : LdEntryT) : Option Bytes := some entry.dn

def readAttribute (a : Bytes × List Bytes) : Except Memory.Fault LdapAttributeT :=
  (collect (fun value => .ok (strdup value)) a.2.length a.2).map fun values => ⟨some (strdup a.1), some values⟩

/-- The loop over the attributes of a message. -/
def readAttributes (entry : LdEntryT) (attributes : List (Bytes × List Bytes)) : Except Memory.Fault LdEntryT :=
  attributes.foldlM (fun entry a => (readAttribute a).map fun attr =>
    { entry with attributes := (ldEntryAddAttribute entry.attributes (some attr)).2 }) entry

def readEntry (message : LdapMessage) : Except Memory.Fault LdEntryT :=
  allocated (ldEntryNew message.dn) >>= fun entry => readAttributes entry message.attributes

def initialArraySize : ℕ := 256

/-- The array with place for the entry at an index. -/
def reserve (entries : Cells LdEntryT) (entryIndex : ℕ) : Cells LdEntryT :=
  if entryIndex + 2 ≥ entries.length then realloc entries (entries.length * 2) else entries

/-- One iteration of the loop over the messages. The pointer to the entry is written before
the attributes are added to it, which nobody reads in between. -/
def readMessage (s : Cells LdEntryT × ℕ) (message : LdapMessage) : Except Memory.Fault (Cells LdEntryT × ℕ) := do
  let entries := reserve s.1 s.2
  let entry ← readEntry message
  let entries ← write entries s.2 (.set entry)
  return (entries, s.2 + 1)

/-- The array for the search callback. An allocation fault stands for `error_exit`. -/
def readEntries (r : Response) : Except Memory.Fault (Cells LdEntryT) :=
  if r.outOfMemory then .error .allocation
  else do
    let (entries, entryIndex) ← r.chain.foldlM readMessage (alloc initialArraySize, 0)
    write entries entryIndex .null

/-- The place that the loop reserves: beside the entry there is one for the mark. -/
theorem reserve_filled (ys : List LdEntryT) (k : ℕ) :
    ∃ l, reserve (ys.map Cell.set ++ alloc (k + 1)) ys.length = ys.map Cell.set ++ alloc (l + 1 + 1) ∧
      ys.length + (l + 1 + 1) ≤ max (ys.length + (k + 1)) (2 * (ys.length + 2)) := by
  have hlength : (ys.map Cell.set ++ alloc (k + 1) : Cells LdEntryT).length = ys.length + (k + 1) := by simp
  rw [reserve, hlength]
  split_ifs with hfull
  · rw [realloc_filled (by omega)]
    obtain ⟨l, hl⟩ : ∃ l, (ys.length + (k + 1)) * 2 - ys.length = l + 1 + 1 := ⟨ys.length + 2 * k, by omega⟩
    exact ⟨l, by rw [hl], by omega⟩
  · obtain ⟨l, rfl⟩ : ∃ l, k = l + 1 := ⟨k - 1, by omega⟩
    exact ⟨l, rfl, le_max_left _ _⟩

/-- The largest array for a number of messages. -/
def sizeBound (n : ℕ) : ℕ := max initialArraySize (2 * (n + 1))

/-- An iteration writes the entry behind the others, and leaves place for the mark. -/
theorem readMessage_filled {ys : List LdEntryT} {k : ℕ} (h : ys.length + (k + 1) ≤ sizeBound ys.length)
    (message : LdapMessage) :
    ∃ l, ys.length + 1 + (l + 1) ≤ sizeBound (ys.length + 1) ∧
      readMessage (ys.map Cell.set ++ alloc (k + 1), ys.length) message =
        (readEntry message).map fun entry =>
          ((ys ++ [entry]).map Cell.set ++ alloc (l + 1), (ys ++ [entry]).length) := by
  obtain ⟨l, hl, hbound⟩ := reserve_filled ys k
  refine ⟨l, ?_, ?_⟩
  · rw [sizeBound] at h ⊢
    omega
  · rw [readMessage, hl]
    cases readEntry message with
    | error fault => rfl
    | ok entry =>
      change (write _ _ _ >>= _) = _
      rw [write_filled]
      simp [Except.map, bind, Except.bind, pure, Except.pure]

/-- The loop fills the array with the entries of the messages, in their order. -/
theorem foldlM_readMessage (chain : List LdapMessage) (ys : List LdEntryT) (k : ℕ)
    (h : ys.length + (k + 1) ≤ sizeBound ys.length) :
    ∃ l, ys.length + chain.length + (l + 1) ≤ sizeBound (ys.length + chain.length) ∧
      chain.foldlM readMessage (ys.map Cell.set ++ alloc (k + 1), ys.length) =
        (chain.mapM readEntry).map fun entries =>
          ((ys ++ entries).map Cell.set ++ alloc (l + 1), (ys ++ entries).length) := by
  induction chain generalizing ys k with
  | nil => exact ⟨k, h, by simp [Except.map, pure, Except.pure]⟩
  | cons message chain ih =>
    obtain ⟨l, hl, hstep⟩ := readMessage_filled h message
    have hcount : ys.length + (message :: chain).length = ys.length + 1 + chain.length := by
      rw [List.length_cons]
      omega
    rw [List.foldlM_cons, List.mapM_cons, hstep, hcount]
    cases readEntry message with
    | error fault =>
      refine ⟨0, ?_, rfl⟩
      rw [sizeBound]
      omega
    | ok entry =>
      have hlength : (ys ++ [entry]).length = ys.length + 1 := List.length_append
      obtain ⟨m, hm, hrun⟩ := ih (ys ++ [entry]) l (by rw [hlength]; exact hl)
      rw [hlength] at hm
      refine ⟨m, hm, ?_⟩
      change List.foldlM _ _ _ = _
      rw [hrun]
      cases chain.mapM readEntry with
      | error fault => rfl
      | ok entries => simp [Except.map, bind, Except.bind, pure, Except.pure]

/-- No access is outside the array, whose size is bounded by the number of messages, and the
array is marked behind the entries. -/
theorem readEntries_eq {r : Response} (h : r.outOfMemory = false) :
    ∃ k, r.chain.length + (k + 1) ≤ sizeBound r.chain.length ∧
      readEntries r = (r.chain.mapM readEntry).map fun entries => entries.map Cell.set ++ .null :: alloc k := by
  have hstart : alloc initialArraySize = ([] : List LdEntryT).map Cell.set ++ alloc (initialArraySize - 1 + 1) := rfl
  obtain ⟨k, hk, hrun⟩ := foldlM_readMessage r.chain [] (initialArraySize - 1) (by decide)
  rw [List.length_nil, Nat.zero_add] at hk
  refine ⟨k, hk, ?_⟩
  rw [readEntries, if_neg (by rw [h]; decide), hstart]
  change (List.foldlM readMessage (_, ([] : List LdEntryT).length) r.chain >>= _) = _
  rw [hrun]
  cases r.chain.mapM readEntry with
  | error fault => rfl
  | ok entries => exact write_filled entries k .null

def attributeOf (a : Bytes × List Bytes) : LdapAttributeT :=
  ⟨some (strdup a.1), some (terminate (a.2.map strdup))⟩

theorem readAttribute_eq (a : Bytes × List Bytes) : readAttribute a = .ok (attributeOf a) := by
  have hvalues : a.2.mapM (fun value => (.ok (strdup value) : Except Memory.Fault Bytes)) = .ok (a.2.map strdup) :=
    mapM_of_ok fun _ _ => rfl
  rw [readAttribute, collect_visited _ rfl, hvalues]
  rfl

theorem readAttributes_eq (entry : LdEntryT) (attributes : List (Bytes × List Bytes)) :
    readAttributes entry attributes = .ok { entry with
      attributes := entry.attributes.insertAll (attributes.map fun a => (strdup a.1, attributeOf a)) } := by
  induction attributes generalizing entry with
  | nil => rfl
  | cons a attributes ih =>
    rw [readAttributes, List.foldlM_cons, readAttribute_eq]
    exact ih _

def entryOf (dn : Bytes) (attributes : List (Bytes × List Bytes)) : LdEntryT :=
  ⟨dn, HashTable.insertAll ∅ (attributes.map fun a => (strdup a.1, attributeOf a))⟩

/-- Only a message without a DN has no entry. -/
theorem readEntry_eq (message : LdapMessage) :
    readEntry message = (allocated message.dn).map fun dn => entryOf dn message.attributes := by
  rw [readEntry]
  cases message.dn with
  | none => rfl
  | some dn => exact readAttributes_eq ⟨dn, ∅⟩ message.attributes

/-- A message whose attributes have distinct names, without NUL in names and values. -/
structure Proper (message : LdapMessage) : Prop where
  distinct : (message.attributes.map Prod.fst).Nodup
  names : ∀ a ∈ message.attributes, 0 ∉ a.1
  values : ∀ a ∈ message.attributes, ∀ value ∈ a.2, 0 ∉ value

/-- The entry has the DN of the message and its attributes, each with its values in their
order, for every way to look them up. -/
structure Delivers (message : LdapMessage) (entry : LdEntryT) : Prop where
  dn : ldEntryGetDn entry = message.dn
  found : ∀ name values, (name, values) ∈ message.attributes →
    ldEntryGetAttribute entry.attributes name = some ⟨some name, some (terminate values)⟩
  absent : ∀ name, name ∉ message.attributes.map Prod.fst → ldEntryGetAttribute entry.attributes name = none
  all : ∀ visited, entry.attributes.Visits visited → ∃ attributes,
    ldEntryGetAttributes entry.attributes visited = .ok (terminate attributes) ∧
      attributes.Perm (message.attributes.map fun a => ⟨some a.1, some (terminate a.2)⟩)

theorem strdup_eq {value : Bytes} (h : 0 ∉ value) : strdup value = value := by
  rw [strdup, List.takeWhile_eq_self_iff]
  intro b hb
  have hne : b ≠ 0 := fun hzero => h (hzero ▸ hb)
  simpa using hne

theorem Proper.pairs {message : LdapMessage} (h : Proper message) :
    (message.attributes.map fun a => (strdup a.1, attributeOf a)) =
      message.attributes.map fun a => (a.1, (⟨some a.1, some (terminate a.2)⟩ : LdapAttributeT)) := by
  refine List.map_congr_left fun a ha => ?_
  have hvalues : a.2.map strdup = a.2 := by
    rw [List.map_congr_left fun value hvalue => strdup_eq (h.values a ha value hvalue), List.map_id']
  rw [attributeOf, strdup_eq (h.names a ha), hvalues]

theorem fillAttribute_terminate (name : Bytes) (values : List Bytes) :
    fillAttribute name ⟨some name, some (terminate values)⟩ = .ok ⟨some name, some (terminate values)⟩ :=
  fillAttribute_record name ⟨some name, some ⟨terminate values, values, terminated_terminate values⟩⟩

theorem delivers_entryOf {message : LdapMessage} (h : Proper message) {dn : Bytes} (hdn : message.dn = some dn) :
    Delivers message (entryOf dn message.attributes) := by
  let pairs := message.attributes.map fun a => (a.1, (⟨some a.1, some (terminate a.2)⟩ : LdapAttributeT))
  have hentry : entryOf dn message.attributes = ⟨dn, HashTable.insertAll ∅ pairs⟩ := by rw [entryOf, h.pairs]
  have hkeys : pairs.map Prod.fst = message.attributes.map Prod.fst := by
    rw [List.map_map]
    rfl
  have hnodup : (pairs.map Prod.fst).Nodup := hkeys ▸ h.distinct
  have hlookup : ∀ name, (HashTable.insertAll ∅ pairs).lookup name = HashTable.latest pairs name := by
    intro name
    rw [HashTable.lookup_insertAll, AList.lookup_empty, Option.or_none]
  rw [hentry]
  refine ⟨hdn.symm, fun name values hmem => ?_, fun name hname => ?_, fun visited hvisits => ?_⟩
  · exact (hlookup name).trans ((HashTable.latest_eq_some_iff hnodup).mpr (List.mem_map.mpr ⟨_, hmem, rfl⟩))
  · have hnone := mt HashTable.latest_isSome.mp (hkeys ▸ hname)
    exact (hlookup name).trans (Option.not_isSome_iff_eq_none.mp hnone)
  · have hmem : ∀ e, e ∈ visited ↔ e ∈ pairs := by
      intro e
      rw [hvisits.mem_iff e.1 e.2, hlookup, HashTable.latest_eq_some_iff hnodup]
    have hperm : visited.Perm pairs :=
      (List.perm_ext_iff_of_nodup (List.Nodup.of_map _ hvisits.nodup) (List.Nodup.of_map _ hnodup)).mpr hmem
    have hcopies : visited.mapM (fun e => fillAttribute e.1 e.2) = .ok (visited.map Prod.snd) := by
      refine mapM_of_ok fun e he => ?_
      obtain ⟨a, -, rfl⟩ := List.mem_map.mp ((hmem e).mp he)
      exact fillAttribute_terminate a.1 a.2
    refine ⟨visited.map Prod.snd, ?_, ?_⟩
    · rw [ldEntryGetAttributes, collect_visited _ hvisits.length_eq, hcopies]
      rfl
    · have hsnd := hperm.map Prod.snd
      rwa [List.map_map] at hsnd

/-- The entry with the values of its attributes as lists. -/
def LdEntryT.seen (entry : LdEntryT) : LdEntry :=
  ⟨entry.dn, HashTable.mapValues (fun a => ⟨a.name, a.values.map elements⟩) entry.attributes⟩

theorem seen_entryOf (dn : Bytes) (attributes : List (Bytes × List Bytes)) :
    (entryOf dn attributes).seen = attributes.foldl (fun entry a =>
      (Connection.ldEntryAddAttribute entry ⟨some (strdup a.1), some (a.2.map strdup)⟩).2) ⟨dn, ∅⟩ := by
  induction attributes using List.reverseRecOn with
  | nil => rfl
  | append_singleton attributes a ih =>
    have hinsert : entryOf dn (attributes ++ [a]) =
        ⟨dn, (entryOf dn attributes).attributes.insert (strdup a.1) (attributeOf a)⟩ := by
      rw [entryOf, List.map_append, HashTable.insertAll_append]
      rfl
    have hvalues : (attributeOf a).values.map elements = some (a.2.map strdup) :=
      congrArg some (terminated_terminate (a.2.map strdup)).elements_eq
    rw [List.foldl_append, ← ih, hinsert, LdEntryT.seen, HashTable.mapValues_insert, hvalues]
    rfl

theorem readMessage_seen (message : LdapMessage) :
    (∃ entry, readEntry message = .ok entry ∧ Connection.readMessage message = some entry.seen) ∨
      readEntry message = .error .allocation ∧ Connection.readMessage message = none := by
  rw [readEntry_eq, Connection.readMessage]
  cases message.dn with
  | none => exact .inr ⟨rfl, rfl⟩
  | some dn => exact .inl ⟨_, rfl, congrArg some (seen_entryOf dn message.attributes).symm⟩

theorem mapM_readMessage_seen (chain : List LdapMessage) :
    (∃ entries, chain.mapM readEntry = .ok entries ∧
      chain.mapM Connection.readMessage = some (entries.map LdEntryT.seen)) ∨
      chain.mapM readEntry = .error .allocation ∧ chain.mapM Connection.readMessage = none := by
  induction chain with
  | nil => exact .inl ⟨[], rfl, rfl⟩
  | cons message chain ih =>
    rw [List.mapM_cons, List.mapM_cons]
    obtain ⟨entry, hentry, hseen⟩ | ⟨hentry, hseen⟩ := readMessage_seen message
    · rw [hentry, hseen]
      obtain ⟨entries, hentries, hseens⟩ | ⟨hentries, hseens⟩ := ih
      · exact .inl ⟨entry :: entries, by rw [hentries]; rfl, by rw [hseens]; rfl⟩
      · exact .inr ⟨by rw [hentries]; rfl, by rw [hseens]; rfl⟩
    · exact .inr ⟨by rw [hentry]; rfl, by rw [hseen]; rfl⟩

/-- The entries of the array are those of the messages. The only fault is that of an
allocation. -/
theorem readEntries_seen (r : Response) :
    (∃ array entries, readEntries r = .ok array ∧ Terminated array entries ∧
      Connection.readEntries r = some (entries.map LdEntryT.seen)) ∨
    readEntries r = .error .allocation ∧ Connection.readEntries r = none := by
  cases hmemory : r.outOfMemory with
  | true => exact .inr ⟨by rw [readEntries, if_pos hmemory], by rw [Connection.readEntries, if_pos hmemory]⟩
  | false =>
    obtain ⟨k, -, hk⟩ := readEntries_eq hmemory
    have hnot : ¬r.outOfMemory = true := by rw [hmemory]; decide
    rw [hk, Connection.readEntries, if_neg hnot]
    obtain ⟨entries, hentries, hseen⟩ | ⟨hentries, hseen⟩ := mapM_readMessage_seen r.chain
    · exact .inl ⟨_, entries, by rw [hentries]; rfl, ⟨_, rfl⟩, hseen⟩
    · exact .inr ⟨by rw [hentries]; rfl, hseen⟩

end Libdomain.Entry
