import Libdomain.Connection.Faults
import Libdomain.Connection.Submission

/-! # What the read handlers report

A response refuses an operation if it is not of a type of the operation or has another
result code than success. The handlers report such responses to the error callback of the
application and fail, with two exceptions: `whoami_on_read` never does, and `search_on_read`
does not look at the result code. A search is also given up without a report when its
entries cannot be read.
-/
namespace Libdomain.Connection
open Libdomain.Program

inductive OperationKind
  | add
  | modify
  | delete
  | rename
  | search
  | whoami
  deriving DecidableEq

namespace OperationKind

def handler : OperationKind → OperationCallback
  | add => .addOnRead
  | modify => .modifyOnRead
  | delete => .deleteOnRead
  | rename => .renameOnRead
  | search => .searchOnRead
  | whoami => .whoamiOnRead

def types : OperationKind → List Int
  | add => [ldapResAdd]
  | modify => [ldapResModify]
  | delete => [ldapResDelete]
  | rename => [ldapResRename]
  | search => [ldapResSearchEntry, ldapResSearchResult, ldapResSearchReference]
  | whoami => [ldapResExtended]

def accepted : OperationKind → List Int
  | add => [ldapSuccess, ldapAlreadyExists]
  | _ => [ldapSuccess]

end OperationKind

def OperationKind.Refused (kind : OperationKind) (r : Response) : Prop :=
  r.rc ∉ kind.types ∨ r.resultCode ∉ kind.accepted

def Event.isErrorCallback : Event → Bool
  | .errorCallback _ => true
  | _ => false

def World.invocations (w : World) : ℕ := w.trace.countP Event.isErrorCallback

def World.SearchCode (w : World) (r : Response) (code : OperationReturnCode) : Prop :=
  ∃ index callback entries t, w.connection.findSearchRequest r.msgid = some index ∧
    (w.connection.searchRequests index).onSearchOperation = some callback ∧ readEntries r = some entries ∧
    exec (callSearchCallback callback entries r) (w.record (.searchCallback index w.epoch r.msgid callback
      (w.connection.searchRequests index).userData entries w.connection)) = (.ok code, t)

/-- The code a handler owes a response that does not refuse the operation. References to
other servers are not followed, so that the callback of the search is not called. -/
def World.OwesCode (w : World) (kind : OperationKind) (r : Response) (code : OperationReturnCode) : Prop :=
  if kind = .search ∧ r.rc ≠ ldapResSearchReference then w.SearchCode r code else code = .success

/-- The handler reports a refusal once and fails; otherwise it reports nothing and returns
the code it owes. -/
def Uniform (kind : OperationKind) (r : Response) (w : World) (code : OperationReturnCode) (w' : World) : Prop :=
  (kind.Refused r → code = .failure ∧ w'.invocations = w.invocations + 1) ∧
    (¬kind.Refused r → w'.invocations = w.invocations ∧ w.OwesCode kind r code)

def World.Answers (w : World) (r : Response) : Prop :=
  ∃ index callback entries, w.connection.findSearchRequest r.msgid = some index ∧
    (w.connection.searchRequests index).onSearchOperation = some callback ∧ readEntries r = some entries

/-- When a handler treats the response like those of add, modify, delete and rename do. -/
def World.Reports (w : World) (r : Response) : OperationKind → Prop
  | .whoami => ¬OperationKind.whoami.Refused r
  | .search =>
    if r.rc = ldapResSearchEntry ∨ r.rc = ldapResSearchResult then
      if r.resultCode = ldapSuccess then w.Answers r
      else w.connection.findSearchRequest r.msgid = none
    else r.rc = ldapResSearchReference → r.resultCode = ldapSuccess
  | _ => True

/-- The error callback has been called `n` times; the table holds `k` searches at least. -/
structure Room (n k : ℕ) (w : World) : Prop where
  invocations : w.invocations = n
  searches : k ≤ w.connection.nSearchRequests
  tableRoom : w.connection.nSearchRequests < maxRequests

variable {n k : ℕ} {w w' : World} {r : Response} {E : Fault → Prop}

theorem Room.congr (h : Room n k w) (hi : w'.invocations = w.invocations)
    (hs : w'.connection.nSearchRequests = w.connection.nSearchRequests) : Room n k w' := by
  refine ⟨?_, ?_, ?_⟩
  · rw [hi]; exact h.invocations
  · rw [hs]; exact h.searches
  · rw [hs]; exact h.tableRoom

theorem room_track (hE : ∀ e, E e) (handler : OperationCallback) (msgid : Int) :
    Keeps (Room n k) E (track handler msgid) := by
  intro w hw
  refine ⟨?_, fun e _ => hE e⟩
  rw [exec_track]
  split_ifs
  · exact hw.congr rfl rfl
  · exact hw.congr rfl rfl

theorem room_trackSearch (hE : ∀ e, E e) (callback : SearchCallback) (userData : UserData) (msgid : Int) :
    Keeps (Room n k) E (trackSearch callback userData msgid) := by
  intro w hw
  refine ⟨?_, fun e _ => hE e⟩
  rw [exec_trackSearch]
  dsimp only
  split_ifs with hn hs
  · exact ⟨hw.invocations, Nat.le_succ_of_le hw.searches, hs⟩
  · exact hw.congr rfl rfl
  · exact hw.congr rfl rfl

theorem room_perform (hE : ∀ e, E e) (s : Submission) : Keeps (Room n k) E (perform s) := by
  have hcall : ∀ request, Keeps (Room n k) E (call request) := by
    intro request
    exact Keeps.modify fun _ hw => hw.congr rfl rfl
  have hsubmit : ∀ request handler sent, Keeps (Room n k) E (submit request handler sent) := by
    intro request handler sent
    unfold submit
    apply Keeps.bind (hcall request)
    intro _
    apply Keeps.ite (fun _ => Keeps.pure)
    intro _
    exact Keeps.bind (room_track hE handler sent.msgid) fun _ => Keeps.pure
  unfold perform
  cases s.operation with
  | search arguments callback userData =>
    apply Keeps.bind (hcall _)
    intro _
    exact Keeps.ite (fun _ => Keeps.pure) (fun _ => room_trackSearch hE _ userData s.sent.msgid)
  | _ => exact hsubmit _ _ s.sent

theorem room_performAll (submissions : List Submission) :
    Keeps (Room n k) (fun _ => submissions ≠ []) (performAll submissions) := by
  apply Keeps.forM
  intro s hs
  have hne : submissions ≠ [] := List.ne_nil_of_mem hs
  exact Keeps.bind (room_perform (fun _ => hne) s) fun _ => Keeps.pure

theorem room_callSearchCallback (callback : SearchCallback) {entries : List LdEntry}
    (hentries : ∀ entry ∈ entries, entry.Valued) :
    Keeps (Room n k) (fun _ => r.submissions ≠ []) (callSearchCallback callback entries r) := by
  have happend : ∀ append parse value,
      Keeps (Room n k) (fun _ => r.submissions ≠ []) (appendValueCallback append parse value) := by
    intro append parse value
    unfold appendValueCallback
    cases parse value with
    | none => exact Keeps.pure
    | some d =>
      apply Keeps.get
      intro w _
      dsimp only
      apply Keeps.bind
      · exact Keeps.modify fun _ hw => hw.congr rfl rfl
      · exact fun _ => Keeps.pure
  have hpath : ∀ value, Keeps (Room n k) (fun _ => r.submissions ≠ []) (subschemaSubentryCallback value) := by
    intro value
    unfold subschemaSubentryCallback
    apply Keeps.bind
    · exact Keeps.modify fun _ hw => hw.congr rfl rfl
    · exact fun _ => Keeps.pure
  unfold callSearchCallback
  cases callback with
  | printSearchCallback => exact Keeps.pure
  | attributeTypesSearchCallback => exact keeps_ldapSchemaCallbackCommon (happend _ _) hentries
  | objectClassesSearchCallback => exact keeps_ldapSchemaCallbackCommon (happend _ _) hentries
  | subschemaSubentrySearchCallback => exact keeps_ldapSchemaCallbackCommon hpath hentries
  | application _ => exact Keeps.bind (room_performAll r.submissions) fun _ => Keeps.pure

theorem exec_connectionRemoveSearchRequest {index : ℕ} (h : Room n (index + 1) w) :
    ∃ w', exec (connectionRemoveSearchRequest index) w = (.ok (), w') ∧ w'.invocations = n := by
  have hwrites : Keeps (fun w : World => w.invocations = n) (fun _ => False)
      ((w.connection.writtenSearches index).forM (selectIndex .searchRequests)) := by
    apply Keeps.forM
    intro i hi t ht
    have hlt : i < maxRequests := lt_trans (LdapConnectionCtx.writtenSearches_lt h.searches hi) h.tableRoom
    rw [exec_selectIndex hlt]
    exact ⟨ht, by simp⟩
  obtain ⟨hinvocations, hfault⟩ := hwrites w h.invocations
  rcases he : exec ((w.connection.writtenSearches index).forM (selectIndex .searchRequests)) w with ⟨result, t⟩
  rw [he] at hinvocations hfault
  rw [connectionRemoveSearchRequest, exec_bind_ok (exec_get w)]
  cases result with
  | error fault => exact absurd rfl (hfault fault)
  | ok =>
    rw [exec_bind_ok he, exec_modifyWorld]
    exact ⟨_, rfl, hinvocations⟩

/-- Without operations of the application in its callbacks the program returns, and what it
returns satisfies `Q`. -/
def Yields (r : Response) (p : Action OperationReturnCode) (w : World)
    (Q : OperationReturnCode → World → Prop) : Prop :=
  (∀ fault, (exec p w).1 = .error fault → r.submissions ≠ []) ∧
    ∀ code w', exec p w = (.ok code, w') → Q code w'

variable {Q Q' : OperationReturnCode → World → Prop} {p : Action OperationReturnCode}

theorem Yields.mono (h : Yields r p w Q) (hQ : ∀ code w', Q code w' → Q' code w') : Yields r p w Q' :=
  ⟨h.1, fun code w' he => hQ code w' (h.2 code w' he)⟩

theorem Yields.pure {code : OperationReturnCode} (h : Q code w) : Yields r (Pure.pure code) w Q := by
  refine ⟨by simp, ?_⟩
  intro code' w' he
  rw [exec_pure] at he
  cases he
  exact h

theorem Yields.get {k : World → Action OperationReturnCode} (h : Yields r (k w) w Q) :
    Yields r (MonadState.get >>= k) w Q := by
  rw [Yields, exec_bind_ok (exec_get w)]
  exact h

theorem Yields.of_keeps {q : Action Unit} {code : OperationReturnCode} (hw : Room n k w)
    (hq : Keeps (Room n k) (fun _ => r.submissions ≠ []) q) (h : ∀ w', Room n k w' → Q code w') :
    Yields r (do q; return code) w Q := by
  obtain ⟨hroom, hfault⟩ := hq w hw
  rcases he : exec q w with ⟨result, t⟩
  rw [he] at hroom hfault
  cases result with
  | error fault =>
    rw [Yields, exec_bind_error he]
    exact ⟨fun _ _ => hfault fault rfl, by simp⟩
  | ok =>
    rw [Yields, exec_bind_ok he, exec_pure]
    refine ⟨by simp, ?_⟩
    intro code' w' hc
    cases hc
    exact h t hroom

theorem yields_reportError (hw : w.connection.nSearchRequests < maxRequests) :
    Yields r (do onErrorOperation r; return .failure) w fun code w' => code = .failure ∧
      w'.invocations = w.invocations + if w.connection.onErrorOperation then 1 else 0 := by
  by_cases hc : w.connection.onErrorOperation = true
  · have hreport : exec (do onErrorOperation r; return .failure : Action OperationReturnCode) w = exec
        (do performAll r.submissions; return .failure : Action OperationReturnCode) (w.record (.errorCallback w.connection)) := by
      rw [onErrorOperation, exec_bind, exec_bind_ok (exec_get w), if_pos hc, exec_bind_ok (exec_emit _ w),
        ← exec_bind]
    have hroom : Room (w.invocations + 1) 0 (w.record (.errorCallback w.connection)) :=
      ⟨List.countP_cons_of_pos rfl, Nat.zero_le _, hw⟩
    have hyields := Yields.of_keeps (Q := fun code w' => code = .failure ∧ w'.invocations = w.invocations + 1)
      hroom (room_performAll r.submissions) fun w' hw' => ⟨rfl, hw'.invocations⟩
    rw [if_pos hc, Yields, hreport]
    exact hyields
  · have hreport : exec (do onErrorOperation r; return .failure : Action OperationReturnCode) w = (.ok .failure, w) := by
      rw [onErrorOperation, exec_bind, exec_bind_ok (exec_get w), if_neg hc]
      rfl
    rw [if_neg hc, Yields, hreport]
    refine ⟨by simp, ?_⟩
    intro code w' he
    cases he
    exact ⟨rfl, rfl⟩

/-- A reported refusal is a uniform one if there is a callback to report it to. -/
theorem uniform_reported {kind : OperationKind} (hrefused : kind.Refused r)
    (hw : w.connection.nSearchRequests < maxRequests) :
    Yields r (do onErrorOperation r; return .failure) w fun code w' =>
      (Uniform kind r w code w' ↔ w.connection.onErrorOperation = true) := by
  apply (yields_reportError hw).mono
  intro code w' ⟨hcode, hinvocations⟩
  have hiff : Uniform kind r w code w' ↔ w'.invocations = w.invocations + 1 := by
    simp [Uniform, hrefused, hcode]
  rw [hiff, hinvocations]
  by_cases hc : w.connection.onErrorOperation = true
  · simp [hc]
  · simp [hc]

theorem uniform_resultOnRead {kind : OperationKind} {type : Int} {accepted : List Int}
    (hsearch : kind ≠ .search) (htypes : kind.types = [type]) (haccepted : kind.accepted = accepted)
    (hw : w.connection.nSearchRequests < maxRequests) :
    Yields r (resultOnRead type accepted r) w fun code w' =>
      (Uniform kind r w code w' ↔ (kind.Refused r → w.connection.onErrorOperation = true)) := by
  have hrefused : kind.Refused r ↔ ¬(r.rc = type ∧ r.resultCode ∈ accepted) := by
    rw [OperationKind.Refused, htypes, haccepted, List.mem_singleton]
    tauto
  unfold resultOnRead
  by_cases h : r.rc = type ∧ r.resultCode ∈ accepted
  · rw [if_pos h]
    have hnot : ¬kind.Refused r := fun hr => hrefused.mp hr h
    apply Yields.pure
    simp [Uniform, World.OwesCode, hnot, hsearch]
  · rw [if_neg h]
    have href : kind.Refused r := hrefused.mpr h
    apply (uniform_reported href hw).mono
    intro code w' hiff
    rw [hiff]
    exact ⟨fun hc _ => hc, fun hc => hc href⟩

theorem yields_answerSearch {index : ℕ} (hfind : w.connection.findSearchRequest r.msgid = some index)
    (hw : w.connection.nSearchRequests < maxRequests) :
    Yields r (answerSearch index r) w fun code w' => w'.invocations = w.invocations ∧
      (w.SearchCode r code ↔ w.Answers r) := by
  unfold answerSearch
  apply Yields.get
  dsimp only
  cases hcallback : (w.connection.searchRequests index).onSearchOperation with
  | none =>
    refine Yields.pure ⟨rfl, ?_⟩
    simp [World.SearchCode, World.Answers, hfind, hcallback]
  | some callback =>
    cases hentries : readEntries r with
    | none =>
      refine Yields.pure ⟨rfl, ?_⟩
      simp [World.SearchCode, World.Answers, hfind, hentries]
    | some entries =>
      let called := w.record (.searchCallback index w.epoch r.msgid callback
        (w.connection.searchRequests index).userData entries w.connection)
      have hroom : Room w.invocations (index + 1) called := ⟨rfl, findSearchRequest_lt hfind, hw⟩
      obtain ⟨hafter, hfault⟩ := room_callSearchCallback (r := r) callback (valued_readEntries hentries) called hroom
      rcases he : exec (callSearchCallback callback entries r) called with ⟨result, t⟩
      rw [he] at hafter hfault
      rw [Yields, exec_bind_ok (exec_emit _ w)]
      cases result with
      | error fault =>
        rw [exec_bind_error he]
        exact ⟨fun _ _ => hfault fault rfl, by simp⟩
      | ok code =>
        obtain ⟨w', hremove, hinvocations⟩ := exec_connectionRemoveSearchRequest hafter
        rw [exec_bind_ok he, exec_bind_ok hremove, exec_pure]
        refine Yields.pure ⟨hinvocations, ?_⟩
        exact iff_of_true ⟨index, callback, entries, t, hfind, hcallback, hentries, he⟩
          ⟨index, callback, entries, hfind, hcallback, hentries⟩

def World.ReportsTo (w : World) (r : Response) (kind : OperationKind) : Prop :=
  (kind.Refused r → w.connection.onErrorOperation = true) ∧ w.Reports r kind

theorem uniform_searchOnRead (hw : w.connection.nSearchRequests < maxRequests) :
    Yields r (searchOnRead r) w fun code w' => (Uniform .search r w code w' ↔ w.ReportsTo r .search) := by
  unfold searchOnRead
  by_cases hrc : r.rc = ldapResSearchEntry ∨ r.rc = ldapResSearchResult
  · have hrefused : OperationKind.search.Refused r ↔ r.resultCode ≠ ldapSuccess := by
      have htype : r.rc ∈ OperationKind.search.types := by
        rcases hrc with hrc | hrc <;> simp [OperationKind.types, hrc]
      simp [OperationKind.Refused, htype, OperationKind.accepted]
    have href : r.rc ≠ ldapResSearchReference := by
      rcases hrc with hrc | hrc <;> rw [hrc] <;> decide
    have howes : ∀ code, w.OwesCode .search r code ↔ w.SearchCode r code := by
      intro code
      simp [World.OwesCode, href]
    rw [if_pos hrc]
    apply Yields.get
    cases hfind : w.connection.findSearchRequest r.msgid with
    | none =>
      by_cases hcode : r.resultCode = ldapSuccess
      · apply (yields_reportError hw).mono
        intro code w' _
        refine iff_of_false ?_ ?_
        · intro ⟨_, huniform⟩
          obtain ⟨index, _, _, _, hsome, -⟩ := (howes code).mp (huniform fun h => hrefused.mp h hcode).2
          rw [hfind] at hsome
          cases hsome
        · intro ⟨_, hreports⟩
          rw [World.Reports, if_pos hrc, if_pos hcode] at hreports
          obtain ⟨index, _, _, hsome, -⟩ := hreports
          rw [hfind] at hsome
          cases hsome
      · have hr := hrefused.mpr hcode
        apply (uniform_reported hr hw).mono
        intro code w' hiff
        rw [hiff, World.ReportsTo, World.Reports, if_pos hrc, if_neg hcode]
        simp [hr, hfind]
    | some index =>
      apply (yields_answerSearch hfind hw).mono
      intro code w' ⟨hinvocations, hanswers⟩
      rw [World.ReportsTo, World.Reports, if_pos hrc, Uniform, howes, hrefused, hinvocations, hanswers]
      by_cases hcode : r.resultCode = ldapSuccess
      · simp [hcode]
      · simp [hcode, hfind]
  · rw [if_neg hrc]
    by_cases href : r.rc = ldapResSearchReference
    · have hrefused : OperationKind.search.Refused r ↔ r.resultCode ≠ ldapSuccess := by
        simp [OperationKind.Refused, OperationKind.types, OperationKind.accepted, href]
      rw [if_pos href]
      apply Yields.pure
      rw [World.ReportsTo, World.Reports, if_neg hrc, Uniform, hrefused]
      by_cases hcode : r.resultCode = ldapSuccess
      · simp [hcode, href, World.OwesCode]
      · simp [hcode, href]
    · have hrefused : OperationKind.search.Refused r := by
        left
        simpa [OperationKind.types, href] using hrc
      rw [if_neg href]
      apply (uniform_reported hrefused hw).mono
      intro code w' hiff
      rw [hiff, World.ReportsTo, World.Reports, if_neg hrc]
      simp [hrefused, href]

theorem uniform_whoamiOnRead :
    Yields r (whoamiOnRead r) w fun code w' => (Uniform .whoami r w code w' ↔ w.ReportsTo r .whoami) := by
  apply Yields.pure
  by_cases h : OperationKind.whoami.Refused r
  · simp [Uniform, World.ReportsTo, World.Reports, h]
  · simp [Uniform, World.ReportsTo, World.Reports, World.OwesCode, h]

/-- In every state a run passes through, and for every response: without operations in the
callbacks of the application the handler returns, and what it returns is reported uniformly
exactly if there is a callback to report a refusal to, whoami is not refused, and a search
with entries has succeeded if its id is in the table. -/
theorem uniform_iff {config : LdapConnectionConfig} {path : Option Bytes} (h : w.Visited config path)
    (kind : OperationKind) (r : Response) : Yields r (kind.handler.handle r) w fun code w' =>
      (Uniform kind r w code w' ↔ w.ReportsTo r kind) := by
  have hw : w.connection.nSearchRequests < maxRequests := Tracks.tableRoom h.simulated
  have hplain : ∀ {type accepted}, kind ≠ .search → kind ≠ .whoami → kind.types = [type] → kind.accepted = accepted →
      Yields r (resultOnRead type accepted r) w fun code w' => (Uniform kind r w code w' ↔ w.ReportsTo r kind) := by
    intro type accepted hsearch hwhoami htypes haccepted
    apply (uniform_resultOnRead hsearch htypes haccepted hw).mono
    intro code w' hiff
    have hreports : w.Reports r kind := by
      cases kind with
      | search => exact absurd rfl hsearch
      | whoami => exact absurd rfl hwhoami
      | _ => trivial
    rw [hiff, World.ReportsTo]
    simp [hreports]
  cases kind with
  | add => exact hplain (by decide) (by decide) rfl rfl
  | modify => exact hplain (by decide) (by decide) rfl rfl
  | delete => exact hplain (by decide) (by decide) rfl rfl
  | rename => exact hplain (by decide) (by decide) rfl rfl
  | search => exact uniform_searchOnRead hw
  | whoami => exact uniform_whoamiOnRead

def unwilling (rc : Int) : Response := { rc := rc, resultCode := 53 }

theorem uniform_iff_add : Yields (unwilling ldapResAdd) (addOnRead (unwilling ldapResAdd))
    (run ⟨false, .simple⟩ none [.installErrorHandler]).2 fun code w' =>
      (Uniform .add (unwilling ldapResAdd) (run ⟨false, .simple⟩ none [.installErrorHandler]).2 code w' ↔
        (run ⟨false, .simple⟩ none [.installErrorHandler]).2.ReportsTo (unwilling ldapResAdd) .add) :=
  uniform_iff (run_visited ⟨false, .simple⟩ none [.installErrorHandler]) .add (unwilling ldapResAdd)

/-- A refused whoami looks successful. -/
theorem whoami_not_uniform : ∃ w w', w.Visited ⟨false, .simple⟩ none ∧ w.connection.onErrorOperation = true ∧
    exec (whoamiOnRead (unwilling ldapResExtended)) w = (.ok .success, w') ∧
    ¬Uniform .whoami (unwilling ldapResExtended) w .success w' := by
  refine ⟨_, _, run_visited ⟨false, .simple⟩ none [.installErrorHandler], rfl, rfl, ?_⟩
  intro ⟨hrefused, _⟩
  have href : OperationKind.whoami.Refused (unwilling ldapResExtended) := by
    right
    decide
  have hcode := (hrefused href).1
  cases hcode

end Libdomain.Connection
