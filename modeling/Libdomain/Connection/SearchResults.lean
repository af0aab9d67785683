import Libdomain.Connection.Confinement
import Libdomain.Entry.SearchArrays

/-! # What a search delivers

`search_on_read` makes one entry of each message of a response, whatever the message is, and
hands them to the callback of the search. With a message of the chain that has no DN it gives
up.
-/
namespace Libdomain.Connection
open Libdomain.Program Libdomain.Memory Libdomain.Entry

namespace Arrays

/-- The table entry at `index` answers the response with an array of entries. -/
def answerSearch (index : ℕ) (r : Response) : Action OperationReturnCode := do
  let w ← get
  let request := w.connection.searchRequests index
  match request.onSearchOperation, Entry.readEntries r with
  | some callback, .ok array =>
    let entries := (elements array).map LdEntryT.seen
    emit (.searchCallback index w.epoch r.msgid callback request.userData entries w.connection)
    let code ← callSearchCallback callback entries r
    connectionRemoveSearchRequest index
    return code
  | none, _ | some _, .error .allocation => return .failure
  | some _, .error _ => throw .invalidPointer

def searchOnRead (r : Response) : Action OperationReturnCode := do
  if r.rc = ldapResSearchEntry ∨ r.rc = ldapResSearchResult then
    match (← get).connection.findSearchRequest r.msgid with
    | some index => answerSearch index r
    | none =>
      onErrorOperation r
      return .failure
  else if r.rc = ldapResSearchReference then return .success
  else
    onErrorOperation r
    return .failure

/-- The lists of entries of a connection stand for the arrays. -/
theorem answerSearch_eq (index : ℕ) (r : Response) : answerSearch index r = Connection.answerSearch index r := by
  unfold answerSearch Connection.answerSearch
  refine bind_congr fun w => ?_
  dsimp only
  cases (w.connection.searchRequests index).onSearchOperation with
  | none => rfl
  | some callback =>
    obtain ⟨array, entries, harray, hterminated, hentries⟩ | ⟨harray, hentries⟩ := readEntries_seen r
    · rw [harray, hentries]
      simp only [hterminated.elements_eq]
    · rw [harray, hentries]

theorem searchOnRead_eq (r : Response) : searchOnRead r = Connection.searchOnRead r := by
  unfold searchOnRead Connection.searchOnRead
  by_cases hrc : r.rc = ldapResSearchEntry ∨ r.rc = ldapResSearchResult
  · rw [if_pos hrc, if_pos hrc]
    refine bind_congr fun w => ?_
    cases w.connection.findSearchRequest r.msgid with
    | none => rfl
    | some index => exact answerSearch_eq index r
  · rw [if_neg hrc, if_neg hrc]

end Arrays

/-- The handler gives the entries to the callback of a search, before anything else. -/
def CallsBack (w : World) (r : Response) (entries : List LdEntry) : Prop :=
  ∃ index callback, (.searchCallback index w.epoch r.msgid callback (w.connection.searchRequests index).userData
    entries w.connection :: w.trace) <:+ (exec (Arrays.searchOnRead r) w).2.trace

def Event.NoSearchCallback : Event → Prop
  | .searchCallback .. => False
  | _ => True

variable {w w' : World} {r : Response} {e : Event}

theorem quiet_reportError (r : Response) :
    Confined (fun _ => Event.NoSearchCallback) (do onErrorOperation r; return .failure : Action OperationReturnCode) := by
  unfold onErrorOperation
  refine Along.bind ?_ fun _ => Along.pure
  apply Along.get
  intro w
  apply Along.ite _ Along.pure
  apply Along.bind (confined_emit fun _ => trivial)
  intro _
  apply (sends_performAll r.submissions).mono
  intro s t h
  apply h.mono
  intro e he
  cases e <;> trivial

theorem World.Grows.head {p : Event → Prop} (h : w.Grows w' p) (he : (e :: w.trace) <:+ w'.trace) : p e := by
  obtain ⟨new, htrace, hnew⟩ := h
  obtain ⟨before, hbefore⟩ := he
  rw [htrace, List.append_cons, List.append_cancel_right_eq] at hbefore
  exact hnew e (hbefore ▸ List.mem_append_right before List.mem_cons_self)

theorem World.Grows.head_record {p : Event → Prop} {first : Event} (h : (w.record first).Grows w' p)
    (he : (e :: w.trace) <:+ w'.trace) : e = first := by
  obtain ⟨new, htrace, -⟩ := h
  obtain ⟨before, hbefore⟩ := he
  change w'.trace = new ++ first :: w.trace at htrace
  rw [htrace, List.append_cons, List.append_cons new, List.append_cancel_right_eq] at hbefore
  exact List.singleton_injective (List.append_inj_right' hbefore rfl)

theorem grows_answerSearch {index : ℕ} {callback : SearchCallback} {entries : List LdEntry}
    (hcallback : (w.connection.searchRequests index).onSearchOperation = some callback)
    (hentries : readEntries r = some entries) :
    (w.record (.searchCallback index w.epoch r.msgid callback (w.connection.searchRequests index).userData entries
      w.connection)).Grows (exec (answerSearch index r) w).2 fun _ => True := by
  have hrest : Confined (fun _ _ => True) (do
      let code ← callSearchCallback callback entries r
      connectionRemoveSearchRequest index
      return code : Action OperationReturnCode) := by
    apply Along.bind ((serves_callSearchCallback callback entries r).mono fun _ _ h => h.mono fun _ _ => trivial)
    intro code
    apply Along.bind ((serves_connectionRemoveSearchRequest index).mono fun _ _ h => h.mono fun _ _ => trivial)
    exact fun _ => Along.pure
  have hexec : exec (answerSearch index r) w = exec (do
      let code ← callSearchCallback callback entries r
      connectionRemoveSearchRequest index
      return code : Action OperationReturnCode) (w.record (.searchCallback index w.epoch r.msgid callback
        (w.connection.searchRequests index).userData entries w.connection)) := by
    rw [answerSearch, exec_bind_ok (exec_get w)]
    simp only [hcallback, hentries]
    rw [exec_bind_ok (exec_emit _ w)]
  rw [hexec]
  exact (hrest.within _).grows

/-- An answer without a callback or without entries leaves everything as it is. -/
theorem exec_answerSearch_failure {index : ℕ}
    (h : ¬((w.connection.searchRequests index).onSearchOperation.isSome ∧ (readEntries r).isSome)) :
    exec (answerSearch index r) w = (.ok .failure, w) := by
  rw [answerSearch, exec_bind_ok (exec_get w)]
  dsimp only
  cases hcallback : (w.connection.searchRequests index).onSearchOperation with
  | none => rfl
  | some callback =>
    cases hentries : readEntries r with
    | none => rfl
    | some entries => simp [hcallback, hentries] at h

theorem callsBack_iff {entries : List LdEntry} :
    CallsBack w r entries ↔ (r.rc = ldapResSearchEntry ∨ r.rc = ldapResSearchResult) ∧
      ∃ index, w.connection.findSearchRequest r.msgid = some index ∧
        (w.connection.searchRequests index).onSearchOperation.isSome ∧ readEntries r = some entries := by
  have hreport := ((quiet_reportError r).within w).grows
  rw [CallsBack, Arrays.searchOnRead_eq, searchOnRead]
  by_cases hrc : r.rc = ldapResSearchEntry ∨ r.rc = ldapResSearchResult
  · rw [if_pos hrc, exec_bind_ok (exec_get w), and_iff_right hrc]
    cases hfind : w.connection.findSearchRequest r.msgid with
    | none =>
      refine iff_of_false ?_ (by simp)
      rintro ⟨index, callback, hcall⟩
      exact hreport.head hcall
    | some index =>
      dsimp only
      simp only [Option.some.injEq, exists_eq_left']
      constructor
      · rintro ⟨i, callback, hcall⟩
        by_cases hable : (w.connection.searchRequests index).onSearchOperation.isSome ∧ (readEntries r).isSome
        · obtain ⟨called, hcalled⟩ := Option.isSome_iff_exists.mp hable.1
          obtain ⟨given, hgiven⟩ := Option.isSome_iff_exists.mp hable.2
          have hevent := (grows_answerSearch hcalled hgiven).head_record hcall
          cases hevent
          exact ⟨hable.1, hgiven⟩
        · rw [exec_answerSearch_failure hable] at hcall
          exact (World.Grows.head (p := fun _ => False) (.none rfl) hcall).elim
      · rintro ⟨hcallback, hentries⟩
        obtain ⟨callback, hcallback⟩ := Option.isSome_iff_exists.mp hcallback
        obtain ⟨new, htrace, -⟩ := grows_answerSearch hcallback hentries
        exact ⟨index, callback, htrace ▸ List.suffix_append new _⟩
  · rw [if_neg hrc]
    refine iff_of_false ?_ fun h => hrc h.1
    rintro ⟨index, callback, hcall⟩
    split_ifs at hcall
    · exact World.Grows.head (p := Event.NoSearchCallback) (.none rfl) hcall
    · exact hreport.head hcall

inductive SearchMessageKind
  | entry
  | reference
  | result
  deriving DecidableEq, Repr

/-- A message of the response to a search. Of its kind the handler reads nothing. -/
structure SearchMessage where
  kind : SearchMessageKind
  message : LdapMessage

def SearchMessage.isEntry (m : SearchMessage) : Bool := m.kind = .entry

def fromEntries {α : Type} (messages : List SearchMessage) (xs : List α) : List α :=
  ((messages.zip xs).filter fun p => p.1.isEntry).map Prod.snd

theorem fromEntries_map {α : Type} (f : SearchMessage → α) (messages : List SearchMessage) :
    fromEntries messages (messages.map f) = (messages.filter SearchMessage.isEntry).map f := by
  induction messages with
  | nil => rfl
  | cons m messages ih =>
    rw [fromEntries] at ih ⊢
    rw [List.map_cons, List.zip_cons_cons, List.filter_cons, List.filter_cons]
    split_ifs
    · rw [List.map_cons, List.map_cons, ih]
    · exact ih

/-- The callback of the search is called with an array that was written within its bounds and
has a mark and one entry for each message, in their order. The entries of the messages with an
entry deliver what these hold. -/
def Delivered (w : World) (r : Response) (messages : List SearchMessage) : Prop :=
  ∃ array entries, Entry.readEntries r = .ok array ∧ array.length ≤ sizeBound messages.length ∧
    Terminated array entries ∧ entries.length = messages.length ∧
    List.Forall₂ (fun m entry => Delivers m.message entry) (messages.filter SearchMessage.isEntry)
      (fromEntries messages entries) ∧
    ∀ given, CallsBack w r given ↔ given = entries.map LdEntryT.seen

/-- The results of a search are delivered, unless the response is reported to be a reference
or of another type. -/
theorem delivered_iff {index : ℕ} {messages : List SearchMessage}
    (hfind : w.connection.findSearchRequest r.msgid = some index)
    (hcallback : (w.connection.searchRequests index).onSearchOperation.isSome)
    (hchain : r.chain = messages.map SearchMessage.message) (hmemory : r.outOfMemory = false)
    (hdn : ∀ m ∈ messages, m.message.dn.isSome) (hproper : ∀ m ∈ messages, m.isEntry → Proper m.message) :
    Delivered w r messages ↔ r.rc = ldapResSearchEntry ∨ r.rc = ldapResSearchResult := by
  constructor
  · rintro ⟨array, entries, -, -, -, -, -, hcalls⟩
    exact (callsBack_iff.mp ((hcalls _).mpr rfl)).1
  intro hrc
  let made (m : SearchMessage) : LdEntryT := entryOf (m.message.dn.getD []) m.message.attributes
  have hmade : r.chain.mapM readEntry = .ok (messages.map made) := by
    rw [hchain, List.mapM_map]
    refine mapM_of_ok fun m hm => ?_
    obtain ⟨dn, hsome⟩ := Option.isSome_iff_exists.mp (hdn m hm)
    change readEntry m.message = .ok (entryOf (m.message.dn.getD []) m.message.attributes)
    rw [readEntry_eq, hsome]
    rfl
  obtain ⟨k, hk, harray⟩ := readEntries_eq hmemory
  rw [hmade] at harray
  refine ⟨_, messages.map made, harray, ?_, ⟨_, rfl⟩, List.length_map .., ?_, fun given => ?_⟩
  · rw [hchain, List.length_map] at hk
    simpa using hk
  · rw [fromEntries_map, List.forall₂_map_right_iff, List.forall₂_same]
    intro m hm
    obtain ⟨hmem, hentry⟩ := List.mem_filter.mp hm
    obtain ⟨dn, hsome⟩ := Option.isSome_iff_exists.mp (hdn m hmem)
    have hentryOf : made m = entryOf dn m.message.attributes := by simp [made, hsome]
    rw [hentryOf]
    exact delivers_entryOf (hproper m hmem hentry) hsome
  · have hread : readEntries r = some ((messages.map made).map LdEntryT.seen) := by
      obtain ⟨array, entries, hok, hterminated, hentries⟩ | ⟨herror, -⟩ := readEntries_seen r
      · rw [harray] at hok
        cases hok
        rw [hentries, hterminated.unique ⟨alloc k, rfl⟩]
      · rw [harray] at herror
        cases herror
    rw [callsBack_iff, hfind, hread]
    constructor
    · rintro ⟨-, i, -, -, hgiven⟩
      exact (Option.some.inj hgiven).symm
    · rintro rfl
      exact ⟨hrc, index, rfl, hcallback, rfl⟩

def searching : World :=
  (run ⟨false, .simple⟩ none [.submit ⟨.search ⟨[], 0, [], [], false⟩ (some (.application 1)) (.application 10),
    ⟨ldapSuccess, 1⟩⟩]).2

theorem delivered_iff_twoEntries :
    let messages : List SearchMessage :=
      [⟨.entry, ⟨some (ascii "cn=a"), [(ascii "cn", [ascii "a", ascii "b"]), (ascii "sn", [])]⟩⟩,
        ⟨.reference, ⟨some (ascii "ldap://b"), []⟩⟩, ⟨.entry, ⟨some (ascii "cn=c"), []⟩⟩, ⟨.result, ⟨some [], []⟩⟩]
    Delivered searching { rc := ldapResSearchResult, msgid := 1, chain := messages.map SearchMessage.message }
      messages := by
  intro messages
  have hfind : searching.connection.findSearchRequest 1 = some 0 := by decide +kernel
  have hproper : ∀ m ∈ messages, m.isEntry → Proper m.message := by
    intro m hm _
    exact ⟨by revert m; decide, by revert m; decide, by revert m; decide⟩
  exact (delivered_iff hfind (by decide +kernel) rfl rfl (by decide) hproper).mpr (.inr rfl)

/-- Of a response that begins with a reference nothing is delivered. -/
theorem reference_not_delivered :
    let messages : List SearchMessage :=
      [⟨.reference, ⟨some (ascii "ldap://b"), []⟩⟩, ⟨.entry, ⟨some (ascii "cn=a"), []⟩⟩, ⟨.result, ⟨some [], []⟩⟩]
    let r : Response :=
      { rc := ldapResSearchReference, msgid := 1, chain := messages.map SearchMessage.message }
    searching.connection.findSearchRequest r.msgid = some 0 ∧
      (searching.connection.searchRequests 0).onSearchOperation.isSome ∧ r.outOfMemory = false ∧
      (∀ m ∈ messages, m.message.dn.isSome) ∧ (∀ m ∈ messages, m.isEntry → Proper m.message) ∧
      (∀ given, ¬CallsBack searching r given) ∧ ¬Delivered searching r messages := by
  intro messages r
  have hnot : ∀ given, ¬CallsBack searching r given := by
    intro given hcalls
    obtain ⟨hrc, -⟩ := callsBack_iff.mp hcalls
    revert hrc
    decide
  refine ⟨by decide +kernel, by decide +kernel, rfl, by decide, fun m hm _ => ?_, hnot, ?_⟩
  · exact ⟨by revert m; decide, by revert m; decide, by revert m; decide⟩
  · rintro ⟨array, entries, -, -, -, -, -, hcalls⟩
    exact hnot _ ((hcalls _).mpr rfl)

/-- A message without a DN leaves the search without a call, and every other one has an entry. -/
theorem length_of_callsBack {given : List LdEntry} (h : CallsBack w r given) : given.length = r.chain.length := by
  obtain ⟨-, index, -, -, hread⟩ := callsBack_iff.mp h
  rw [readEntries] at hread
  split_ifs at hread
  obtain ⟨entries, hentries, hseen⟩ | ⟨-, hnone⟩ := mapM_readMessage_seen r.chain
  · rw [hseen] at hread
    cases hread
    rw [List.length_map, (mapM_eq_ok.mp hentries).length_eq]
  · rw [hnone] at hread
    cases hread

/-- What `ldap_result` returns for a search: messages with entries and references, and the
result behind them. -/
structure SearchChain where
  body : List SearchMessage
  plain : ∀ m ∈ body, m.kind ≠ .result
  done : LdapMessage

def SearchChain.messages (c : SearchChain) : List SearchMessage := c.body ++ [⟨.result, c.done⟩]

/-- The callback is called with one entry for each message with an entry, and no other. -/
def OnlyEntries (w : World) (r : Response) (c : SearchChain) : Prop :=
  ∃ given, CallsBack w { r with chain := c.messages.map SearchMessage.message } given ∧
    given.length = (c.messages.filter SearchMessage.isEntry).length

/-- The result message has an entry too, or there is no call. -/
theorem not_onlyEntries (w : World) (r : Response) (c : SearchChain) : ¬OnlyEntries w r c := by
  rintro ⟨given, hcalls, hlength⟩
  have hmessages : given.length = c.body.length + 1 := by
    rw [length_of_callsBack hcalls]
    simp [SearchChain.messages]
  have hentries := List.length_filter_le SearchMessage.isEntry c.body
  rw [SearchChain.messages, List.filter_append, List.length_append] at hlength
  have hdone : [(⟨.result, c.done⟩ : SearchMessage)].filter SearchMessage.isEntry = [] := rfl
  rw [hdone, List.length_nil] at hlength
  omega

/-- A search without matches is given an entry. -/
theorem noMatch_not_onlyEntries :
    let r : Response := { rc := ldapResSearchResult, msgid := 1 }
    let c : SearchChain := ⟨[], by simp, ⟨some [], []⟩⟩
    CallsBack searching { r with chain := c.messages.map SearchMessage.message } [⟨[], ∅⟩] ∧ ¬OnlyEntries searching r c := by
  intro r c
  have hcalls : CallsBack searching { r with chain := c.messages.map SearchMessage.message } [⟨[], ∅⟩] :=
    callsBack_iff.mpr ⟨.inr rfl, 0, by decide +kernel, by decide +kernel, rfl⟩
  refine ⟨hcalls, ?_⟩
  rintro ⟨given, hgiven, hlength⟩
  have hone := length_of_callsBack hgiven
  rw [hlength] at hone
  cases hone

end Libdomain.Connection
