import Libdomain.Connection.State

/-! # Submitting requests

The operations of `entry.c` and `directory.c` that send a request to the server
and track it until its response arrives, and the table of running searches.
-/
namespace Libdomain.Connection
open Libdomain.Queue Libdomain.Program

namespace LdapConnectionCtx

/-- The first unused slot once it is filled; its queue link is left as it is. -/
def newRequest (c : LdapConnectionCtx) (handler : OperationCallback) (msgid : Int) : LdapRequest :=
  { c.readRequests c.nReadRequests with msgid := msgid, onReadOperation := some handler }

/-- Fills the first unused slot with a request and puts it into the call queue. -/
def track (c : LdapConnectionCtx) (handler : OperationCallback) (msgid : Int) :
    RequestQueueErrorCode × LdapConnectionCtx :=
  let slot := c.nReadRequests
  { c.withRequest slot (c.newRequest handler msgid) with nReadRequests := slot + 1 }.push slot

/-- Appends an entry to the table of searches. -/
def registerSearch (c : LdapConnectionCtx) (request : LdapSearchRequest) : LdapConnectionCtx :=
  { c with searchRequests := Function.update c.searchRequests c.nSearchRequests request
           nSearchRequests := c.nSearchRequests + 1 }

def clearedSearch : LdapSearchRequest := ⟨0, none, .application 0⟩

/-- The table after the loop that moves the entries behind an index down by one. -/
def shiftSearches (c : LdapConnectionCtx) (index : ℕ) : ℕ → LdapSearchRequest := fun i =>
  if index ≤ i ∧ i < c.nSearchRequests - 1 then c.searchRequests (i + 1) else c.searchRequests i

/-- `connection_remove_search_request`. The shortcut compares the index with the
number of read requests, as the source does. -/
def removeSearchRequest (c : LdapConnectionCtx) (index : ℕ) : LdapConnectionCtx :=
  if index + 1 = c.nReadRequests then
    { c with nSearchRequests := c.nSearchRequests - 1
             searchRequests := Function.update c.searchRequests index clearedSearch }
  else
    { c with nSearchRequests := c.nSearchRequests - 1
             searchRequests := Function.update (c.shiftSearches index) (c.nSearchRequests - 1)
               clearedSearch }

theorem removeSearchRequest_eq (c : LdapConnectionCtx) (index : ℕ) : ∃ searchRequests,
    c.removeSearchRequest index =
      { c with nSearchRequests := c.nSearchRequests - 1, searchRequests := searchRequests } := by
  unfold removeSearchRequest
  split_ifs
  · exact ⟨_, rfl⟩
  · exact ⟨_, rfl⟩

def writtenSearches (c : LdapConnectionCtx) (index : ℕ) : List ℕ :=
  if index + 1 = c.nReadRequests then [index]
  else List.range' index (c.nSearchRequests - 1 - index) ++ [c.nSearchRequests - 1]

theorem writtenSearches_lt {c : LdapConnectionCtx} {index i : ℕ} (h : index < c.nSearchRequests)
    (hi : i ∈ c.writtenSearches index) : i < c.nSearchRequests := by
  unfold writtenSearches at hi
  split_ifs at hi
  · rw [List.mem_singleton.mp hi]
    exact h
  · rcases List.mem_append.mp hi with hi | hi
    · obtain ⟨k, hk, rfl⟩ := List.mem_range'.mp hi
      omega
    · rw [List.mem_singleton.mp hi]
      omega

def findSearchRequest (c : LdapConnectionCtx) (msgid : Int) : Option ℕ :=
  (List.range c.nSearchRequests).find? fun i => (c.searchRequests i).msgid = msgid

end LdapConnectionCtx

/-- The steps every submission shares once its request has been sent. -/
def track (handler : OperationCallback) (msgid : Int) : Action Unit := do
  let w ← get
  let slot := w.connection.nReadRequests
  emit (.submission slot handler msgid w.top w.connection)
  selectIndex .readRequests slot
  let (code, connection) := w.connection.track handler msgid
  modifyConnection fun _ => connection
  emit (.pushed slot handler msgid code connection)

namespace World

def announced (w : World) (handler : OperationCallback) (msgid : Int) : World :=
  (w.record (.submission w.connection.nReadRequests handler msgid w.top w.connection)).record
    (.write .readRequests w.connection.nReadRequests)

def tracked (w : World) (handler : OperationCallback) (msgid : Int) : World :=
  { w.announced handler msgid with connection := (w.connection.track handler msgid).2 }.record
    (.pushed w.connection.nReadRequests handler msgid (w.connection.track handler msgid).1
      (w.connection.track handler msgid).2)

end World

theorem exec_track (handler : OperationCallback) (msgid : Int) (w : World) :
    exec (track handler msgid) w =
      if w.connection.nReadRequests < maxRequests then (.ok (), w.tracked handler msgid)
      else (.error (.outOfBounds .readRequests w.connection.nReadRequests), w.announced handler msgid) := by
  rw [track, exec_bind_ok (exec_get w), exec_bind_ok (exec_emit _ w)]
  by_cases h : w.connection.nReadRequests < maxRequests
  · rw [exec_bind_ok (exec_selectIndex h _), if_pos h]
    rfl
  · rw [exec_bind_error (exec_selectIndex_outOfBounds h _), if_neg h]
    rfl

/-- A libldap call followed, when it succeeded, by the tracking of its request. -/
def submit (request : LdapCall) (handler : OperationCallback) (sent : Sent) :
    Action OperationReturnCode := do
  call request
  if sent.rc ≠ ldapSuccess then return .failure
  else
    track handler sent.msgid
    return .success

theorem exec_submit (request : LdapCall) (handler : OperationCallback) (sent : Sent) (w : World) :
    exec (submit request handler sent) w =
      let called := w.record (.call w.connection.ldap request)
      if sent.rc ≠ ldapSuccess then (.ok .failure, called)
      else if w.connection.nReadRequests < maxRequests then
        (.ok .success, called.tracked handler sent.msgid)
      else (.error (.outOfBounds .readRequests w.connection.nReadRequests),
        called.announced handler sent.msgid) := by
  have htrack := exec_track handler sent.msgid (w.record (.call w.connection.ldap request))
  change _ = (if w.connection.nReadRequests < maxRequests then _ else _) at htrack
  rw [submit, exec_bind_ok (exec_call request w)]
  dsimp only
  split_ifs with hrc hn
  · rfl
  · rw [if_pos hn] at htrack
    rw [exec_bind_ok htrack, exec_pure]
  · rw [if_neg hn] at htrack
    exact exec_bind_error htrack

def add (dn : Bytes) (attrs : List LdapMod) (sent : Sent) : Action OperationReturnCode :=
  submit (.addExt dn attrs) .addOnRead sent

def modify (dn : Bytes) (attrs : List LdapMod) (sent : Sent) : Action OperationReturnCode :=
  submit (.modifyExt dn attrs) .modifyOnRead sent

def ldDelete (dn : Bytes) (sent : Sent) : Action OperationReturnCode :=
  submit (.deleteExt dn) .deleteOnRead sent

def whoami (sent : Sent) : Action OperationReturnCode :=
  submit .whoami .whoamiOnRead sent

def ldRename (olddn newdn newParent : Bytes) (deleteOriginal : Bool) (sent : Sent) :
    Action OperationReturnCode :=
  submit (.rename olddn newdn newParent deleteOriginal) .renameOnRead sent

def directoryGetType (sent : Sent) : Action OperationReturnCode :=
  submit (.searchExt ⟨[], ldapScopeBase, ascii "(objectClass=*)", [ascii "*"], false⟩)
    .directoryParseResult sent

/-- The part of `search` after the request has been sent: it is tracked before the
table of searches is found to be full. -/
def trackSearch (callback : SearchCallback) (userData : UserData) (msgid : Int) :
    Action OperationReturnCode := do
  emit (.searchIssued (← get).epoch msgid callback userData)
  track .searchOnRead msgid
  let c := (← get).connection
  if maxRequests ≤ c.nSearchRequests + 1 then return .failure
  else
    selectIndex .searchRequests c.nSearchRequests
    let request : LdapSearchRequest := ⟨msgid, some callback, userData⟩
    emit (.searchRegistered request)
    modifyConnection fun c => c.registerSearch request
    return .success

def World.registered (w : World) (request : LdapSearchRequest) : World :=
  { (w.record (.write .searchRequests w.connection.nSearchRequests)).record
      (.searchRegistered request) with
    connection := w.connection.registerSearch request }

def World.issued (w : World) (callback : SearchCallback) (userData : UserData) (msgid : Int) : World :=
  w.record (.searchIssued w.epoch msgid callback userData)

theorem exec_trackSearch (callback : SearchCallback) (userData : UserData) (msgid : Int) (w : World) :
    exec (trackSearch callback userData msgid) w =
      let issued := w.issued callback userData msgid
      if w.connection.nReadRequests < maxRequests then
        if w.connection.nSearchRequests + 1 < maxRequests then
          (.ok .success, (issued.tracked .searchOnRead msgid).registered
            ⟨msgid, some callback, userData⟩)
        else (.ok .failure, issued.tracked .searchOnRead msgid)
      else (.error (.outOfBounds .readRequests w.connection.nReadRequests),
        issued.announced .searchOnRead msgid) := by
  dsimp only
  rw [trackSearch, exec_bind_ok (exec_get w), exec_bind_ok (exec_emit _ w)]
  have ht := exec_track .searchOnRead msgid (w.record (.searchIssued w.epoch msgid callback userData))
  change _ = (if w.connection.nReadRequests < maxRequests then _ else _) at ht
  by_cases hr : w.connection.nReadRequests < maxRequests
  · rw [if_pos hr] at ht ⊢
    rw [exec_bind_ok ht, exec_bind_ok (exec_get _)]
    change exec (if maxRequests ≤ w.connection.nSearchRequests + 1 then _ else _) _ = _
    by_cases hs : w.connection.nSearchRequests + 1 < maxRequests
    · have hlt : w.connection.nSearchRequests < maxRequests := by omega
      rw [if_neg (by omega), if_pos hs]
      exact exec_bind_ok (exec_selectIndex hlt _)
    · rw [if_pos (by omega), if_neg hs]
      rfl
  · rw [if_neg hr] at ht ⊢
    rw [exec_bind_error ht]
    rfl

def search (arguments : SearchArguments) (callback : Option SearchCallback) (userData : UserData)
    (sent : Sent) : Action OperationReturnCode := do
  call (.searchExt arguments)
  if sent.rc ≠ ldapSuccess then return .failure
  else trackSearch (callback.getD .printSearchCallback) userData sent.msgid

def World.removed (w : World) (index : ℕ) : World :=
  { w.record (.searchRemoved index w.connection) with
    connection := w.connection.removeSearchRequest index }

def connectionRemoveSearchRequest (index : ℕ) : Action Unit := do
  ((← get).connection.writtenSearches index).forM (selectIndex .searchRequests)
  modifyWorld fun w => w.removed index

/-- An operation submitted by the application. -/
def perform (s : Submission) : Action OperationReturnCode :=
  match s.operation with
  | .add dn attrs => add dn attrs s.sent
  | .modify dn attrs => modify dn attrs s.sent
  | .ldDelete dn => ldDelete dn s.sent
  | .ldRename olddn newdn newParent deleteOriginal =>
    ldRename olddn newdn newParent deleteOriginal s.sent
  | .whoami => whoami s.sent
  | .search arguments callback userData => search arguments callback userData s.sent
  | .directoryGetType => directoryGetType s.sent

def performAll (submissions : List Submission) : Action Unit :=
  submissions.forM fun s => do let _ ← perform s

end Libdomain.Connection
