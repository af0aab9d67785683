import Libdomain.Connection.Simulation

/-! # Submissions are all or nothing

A submission that libldap accepts takes the next slot and appends one node to
the call queue. `search` does so before it looks at the capacity of its table,
and none of the functions looks at the number of slots, so at either limit a
submission neither succeeds nor leaves the connection as it was.
-/
namespace Libdomain.Connection
open Libdomain.Queue Libdomain.Program

/-- A state that a run passes through, also inside a read pass. -/
def World.Visited (config : LdapConnectionConfig) (path : Option Bytes) (w : World) : Prop :=
  Relation.ReflTransGen Move (.initial config path) w

def Operation.handler : Operation → OperationCallback
  | .add .. => .addOnRead
  | .modify .. => .modifyOnRead
  | .ldDelete _ => .deleteOnRead
  | .ldRename .. => .renameOnRead
  | .whoami => .whoamiOnRead
  | .search .. => .searchOnRead
  | .directoryGetType => .directoryParseResult

/-- The entries an operation makes in the table of searches. -/
def Operation.entries (msgid : Int) : Operation → List LdapSearchRequest
  | .search _ callback userData => [⟨msgid, some (callback.getD .printSearchCallback), userData⟩]
  | _ => []

/-- One node has been appended to the call queue, with the given message id and handler,
the given entries to the table of searches, and the rest of what is tracked is as before. -/
structure Appended (c c' : LdapConnectionCtx) (handler : OperationCallback) (msgid : Int)
    (entries : List LdapSearchRequest) : Prop where
  callqueue : contents c'.callqueue c'.links = contents c.callqueue c.links ++ [c.nReadRequests]
  request : (c'.readRequests c.nReadRequests).payload = (msgid, some handler)
  others : ∀ i, i ≠ c.nReadRequests → (c'.readRequests i).payload = (c.readRequests i).payload
  nReadRequests : c'.nReadRequests = c.nReadRequests + 1
  table : c'.table = c.table ++ entries

structure Untouched (c c' : LdapConnectionCtx) : Prop where
  callqueue : c'.callqueue = c.callqueue
  readRequests : c'.readRequests = c.readRequests
  searchRequests : c'.searchRequests = c.searchRequests
  nReadRequests : c'.nReadRequests = c.nReadRequests
  nSearchRequests : c'.nSearchRequests = c.nSearchRequests

/-- The submission succeeds and is tracked, or it fails and leaves no trace. -/
def AllOrNothing (w : World) (s : Submission) : Prop :=
  ((exec (perform s) w).1 = .ok .success ∧ Appended w.connection (exec (perform s) w).2.connection
      s.operation.handler s.sent.msgid (s.operation.entries s.sent.msgid)) ∨
    ((exec (perform s) w).1 = .ok .failure ∧ Untouched w.connection (exec (perform s) w).2.connection)

/-- There is a slot for the request and, for a search, room in the table. -/
def Operation.Fits (operation : Operation) (c : LdapConnectionCtx) : Prop :=
  c.nReadRequests < maxRequests ∧
    (operation.handler = .searchOnRead → c.nSearchRequests + 1 < maxRequests)

variable {config : LdapConnectionConfig} {path : Option Bytes} {w : World} {s : Submission}

theorem World.Visited.simulated (h : w.Visited config path) : Simulated w := by
  induction h with
  | refl => exact simulated_initial config path
  | tail _ hmove ih => exact (hmove.effect ih).simulated ih

theorem run_visited (config : LdapConnectionConfig) (path : Option Bytes) (steps : List Step) :
    (run config path steps).2.Visited config path := (follows_performSteps steps _ rfl).1

theorem Tracks.appended {l : Ledger} (h : Tracks w l) (hn : w.connection.nReadRequests < maxRequests)
    (handler : OperationCallback) (msgid : Int) :
    Appended w.connection (w.tracked handler msgid).connection handler msgid [] := by
  obtain ⟨slots, hs, -⟩ := h
  have hqueued := (hs.track hn handler msgid).2
  refine ⟨?_, payload_track_self w.connection handler msgid,
    fun i hi => payload_track_of_ne handler msgid hi, rfl, ?_⟩
  · have hcontents := hqueued.represents.contents_eq
    rw [hs.represents.contents_eq]
    exact hcontents
  · rw [List.append_nil]
    rfl

theorem Appended.registered {c c' : LdapConnectionCtx} {handler : OperationCallback} {msgid : Int}
    (h : Appended c c' handler msgid []) (request : LdapSearchRequest) :
    Appended c (c'.registerSearch request) handler msgid [request] where
  callqueue := h.callqueue
  request := h.request
  others := h.others
  nReadRequests := h.nReadRequests
  table := by rw [table_registerSearch, h.table, List.append_nil]

theorem exec_search (arguments : SearchArguments) (callback : Option SearchCallback)
    (userData : UserData) (sent : Sent) (w : World) :
    exec (search arguments callback userData sent) w =
      let called := w.record (.call w.connection.ldap (.searchExt arguments))
      if sent.rc ≠ ldapSuccess then (.ok .failure, called)
      else exec (trackSearch (callback.getD .printSearchCallback) userData sent.msgid) called := by
  rw [search, exec_bind_ok (exec_call _ w)]
  dsimp only
  split_ifs <;> rfl

/-- The operations other than a search differ in the request they send only. -/
theorem perform_eq_submit (h : s.operation.handler ≠ .searchOnRead) :
    (∃ request, perform s = submit request s.operation.handler s.sent) ∧
      s.operation.entries s.sent.msgid = [] := by
  rcases s with ⟨operation, sent⟩
  cases operation with
  | search => exact absurd rfl h
  | _ => exact ⟨⟨_, rfl⟩, rfl⟩

theorem allOrNothing_submit (hw : Simulated w) (h : s.operation.handler ≠ .searchOnRead) :
    AllOrNothing w s ↔ (s.sent.rc = ldapSuccess → s.operation.Fits w.connection) := by
  obtain ⟨⟨request, hperform⟩, hentries⟩ := perform_eq_submit h
  have hexec := exec_submit request s.operation.handler s.sent w
  rw [AllOrNothing, hperform, hentries, hexec]
  dsimp only
  split_ifs with hrc hn
  · exact iff_of_true (.inr ⟨rfl, rfl, rfl, rfl, rfl, rfl⟩) fun hs => absurd hs hrc
  · have hcalled : Simulated (w.record (.call w.connection.ldap request)) :=
      Tracks.congr hw (by constructor <;> rfl)
    exact iff_of_true (.inl ⟨rfl, hcalled.appended hn s.operation.handler s.sent.msgid⟩)
      fun _ => ⟨hn, fun hs => absurd hs h⟩
  · refine iff_of_false ?_ fun hfits => hn (hfits (not_not.mp hrc)).1
    rintro (⟨hcode, -⟩ | ⟨hcode, -⟩) <;> cases hcode

theorem allOrNothing_search (hw : Simulated w) {arguments : SearchArguments}
    {callback : Option SearchCallback} {userData : UserData}
    (h : s.operation = .search arguments callback userData) :
    AllOrNothing w s ↔ (s.sent.rc = ldapSuccess → s.operation.Fits w.connection) := by
  rcases s with ⟨operation, sent⟩
  cases h
  have hcalled : Simulated ((w.record (.call w.connection.ldap (.searchExt arguments))).issued
      (callback.getD .printSearchCallback) userData sent.msgid) :=
    Tracks.congr hw (by constructor <;> rfl)
  have hexec := exec_search arguments callback userData sent w
  rw [AllOrNothing, perform, hexec]
  dsimp only
  split_ifs with hrc
  · exact iff_of_true (.inr ⟨rfl, rfl, rfl, rfl, rfl, rfl⟩) fun hs => absurd hs hrc
  · have htrack := exec_trackSearch (callback.getD .printSearchCallback) userData sent.msgid
      (w.record (.call w.connection.ldap (.searchExt arguments)))
    rw [htrack]
    dsimp only
    split_ifs with hn hs
    · have happended := hcalled.appended hn .searchOnRead sent.msgid
      exact iff_of_true (.inl ⟨rfl, happended.registered _⟩) fun _ => ⟨hn, fun _ => hs⟩
    · refine iff_of_false ?_ fun hfits => hs ((hfits (not_not.mp hrc)).2 rfl)
      rintro (⟨hcode, -⟩ | ⟨-, hsame⟩)
      · cases hcode
      · exact Nat.succ_ne_self _ hsame.nReadRequests
    · refine iff_of_false ?_ fun hfits => hn (hfits (not_not.mp hrc)).1
      rintro (⟨hcode, -⟩ | ⟨hcode, -⟩) <;> cases hcode

theorem allOrNothing_of_simulated (hw : Simulated w) (s : Submission) :
    AllOrNothing w s ↔ (s.sent.rc = ldapSuccess → s.operation.Fits w.connection) := by
  by_cases hs : s.operation.handler = .searchOnRead
  · obtain ⟨arguments, callback, userData, hsearch⟩ :
        ∃ arguments callback userData, s.operation = .search arguments callback userData := by
      cases ho : s.operation with
      | search arguments callback userData => exact ⟨_, _, _, rfl⟩
      | _ => rw [ho] at hs; cases hs
    exact allOrNothing_search hw hsearch
  · exact allOrNothing_submit hw hs

/-- In every state a run passes through, a submission that libldap accepts is all or
nothing exactly if there is a slot for it and, for a search, room in the table; one that
libldap refuses always is. The queue of the connection is taken to have been allocated. -/
theorem allOrNothing_iff (h : w.Visited config path) (s : Submission) :
    AllOrNothing w s ↔ (s.sent.rc = ldapSuccess → s.operation.Fits w.connection) :=
  allOrNothing_of_simulated h.simulated s

def applicationSearch (msgid : ℕ) : Submission :=
  ⟨.search ⟨[], 0, [], [], false⟩ none (.application 0), ⟨ldapSuccess, msgid⟩⟩

def outstandingSearches : List Step := [.submit (applicationSearch 1), .submit (applicationSearch 2)]

theorem allOrNothing_third :
    (run ⟨false, .simple⟩ none outstandingSearches).2.connection.nSearchRequests = 2 ∧
      AllOrNothing (run ⟨false, .simple⟩ none outstandingSearches).2 (applicationSearch 3) := by
  have hreads : (run ⟨false, .simple⟩ none outstandingSearches).2.connection.nReadRequests = 2 := by decide +kernel
  have hsearches : (run ⟨false, .simple⟩ none outstandingSearches).2.connection.nSearchRequests = 2 := by decide +kernel
  refine ⟨hsearches, ?_⟩
  refine (allOrNothing_iff (run_visited ⟨false, .simple⟩ none outstandingSearches) (applicationSearch 3)).mpr ?_
  refine fun _ => ⟨?_, fun _ => ?_⟩
  · rw [hreads]
    decide
  · rw [hsearches]
    decide

theorem exec_applicationSearch (hn : w.connection.nReadRequests < maxRequests)
    (hs : w.connection.nSearchRequests + 1 < maxRequests) (msgid : ℕ) :
    ∃ w', exec (Step.submit (applicationSearch msgid)).perform w = (.ok (), w') ∧
      w'.connection.nReadRequests = w.connection.nReadRequests + 1 ∧
      w'.connection.nSearchRequests = w.connection.nSearchRequests + 1 := by
  have htrack := exec_trackSearch .printSearchCallback (.application 0) msgid
    (w.record (.call w.connection.ldap (.searchExt ⟨[], 0, [], [], false⟩)))
  change _ = (if w.connection.nReadRequests < maxRequests then
    if w.connection.nSearchRequests + 1 < maxRequests then _ else _ else _) at htrack
  rw [if_pos hn, if_pos hs] at htrack
  have hsearch := exec_search ⟨[], 0, [], [], false⟩ none (.application 0) ⟨ldapSuccess, msgid⟩ w
  dsimp only at hsearch
  rw [if_neg (not_not.mpr rfl)] at hsearch
  exact ⟨_, exec_bind_ok (hsearch.trans htrack), rfl, rfl⟩

theorem exec_applicationSearches (msgids : List ℕ)
    (hn : w.connection.nReadRequests + msgids.length < maxRequests)
    (hs : w.connection.nSearchRequests + msgids.length < maxRequests) :
    ∃ w', exec (performSteps (msgids.map fun msgid => .submit (applicationSearch msgid))) w =
        (.ok (), w') ∧
      w'.connection.nReadRequests = w.connection.nReadRequests + msgids.length ∧
      w'.connection.nSearchRequests = w.connection.nSearchRequests + msgids.length := by
  induction msgids generalizing w with
  | nil => exact ⟨w, rfl, rfl, rfl⟩
  | cons msgid rest ih =>
    rw [List.length_cons] at hn hs
    obtain ⟨w₁, hfirst, hn₁, hs₁⟩ := exec_applicationSearch (w := w) (by omega) (by omega) msgid
    obtain ⟨w₂, hrest, hn₂, hs₂⟩ := ih (w := w₁) (by omega) (by omega)
    refine ⟨w₂, ?_, by rw [List.length_cons]; omega, by rw [List.length_cons]; omega⟩
    rw [List.map_cons, exec_performSteps_cons, exec_bind_ok hfirst]
    exact hrest

/-- A search at the capacity of the table fails, but stays in the queue. -/
theorem not_allOrNothing_full : ∃ w,
    run ⟨false, .simple⟩ none ((List.range (maxRequests - 1)).map fun msgid =>
      .submit (applicationSearch msgid)) = (.ok (), w) ∧
    ¬AllOrNothing w (applicationSearch maxRequests) := by
  obtain ⟨w, hrun, hn, hs⟩ := exec_applicationSearches (w := .initial ⟨false, .simple⟩ none)
    (List.range (maxRequests - 1)) (by rw [List.length_range]; decide)
    (by rw [List.length_range]; decide)
  rw [List.length_range] at hs
  have hsearches : w.connection.nSearchRequests = maxRequests - 1 := hs.trans (Nat.zero_add _)
  have hsimulated := run_simulated ⟨false, .simple⟩ none ((List.range (maxRequests - 1)).map fun msgid =>
    Step.submit (applicationSearch msgid))
  rw [run, hrun] at hsimulated
  refine ⟨w, hrun, fun hall => ?_⟩
  have hfits := ((allOrNothing_of_simulated hsimulated _).mp hall rfl).2 rfl
  rw [hsearches] at hfits
  exact absurd hfits (by decide)

end Libdomain.Connection
