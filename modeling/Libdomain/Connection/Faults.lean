import Libdomain.Connection.Refinement

/-! # What can go wrong in a read pass

On a connection whose state machine and SASL defaults are there, the read
handlers have no fault but an index out of bounds. A response that starts no
further request also leaves the call queue as it is, which bounds the length of
a pass.
-/
namespace Libdomain.Connection
open Libdomain.Queue Libdomain.Program

def Fault.OutOfBounds : Fault → Prop
  | .outOfBounds .. => True
  | _ => False

/-- Handling the response may start further requests: those of the application's
callback, or the next step of a bind. -/
def Response.Issues (r : Response) : Prop :=
  r.submissions ≠ [] ∨ (r.rc = ldapResBind ∧ r.bind.rc = ldapSaslBindInProgress)

/-- The objects of the connection are there, and the call queue is the given one. -/
structure Steady (queue : Option (RequestQueue ℕ)) (w : World) : Prop where
  stateMachine : ∃ state, w.connection.stateMachine = .live state
  ldapDefaults : w.connection.ldapDefaults = .live ()
  attempts : w.connection.nReconnectAttempts < maxReconnectAttempts
  callqueue : ∀ q, queue = some q → w.connection.callqueue = q

abbrev KeepsSteady {α : Type} (queue : Option (RequestQueue ℕ)) (p : Action α) : Prop :=
  Keeps (Steady queue) Fault.OutOfBounds p

variable {queue : Option (RequestQueue ℕ)} {w w' : World}

theorem Steady.congr (h : Steady queue w)
    (hs : w'.connection.stateMachine = w.connection.stateMachine)
    (hd : w'.connection.ldapDefaults = w.connection.ldapDefaults)
    (ha : w'.connection.nReconnectAttempts = w.connection.nReconnectAttempts)
    (hq : w'.connection.callqueue = w.connection.callqueue) : Steady queue w' := by
  refine ⟨?_, ?_, ?_, ?_⟩
  · rw [hs]; exact h.stateMachine
  · rw [hd]; exact h.ldapDefaults
  · rw [ha]; exact h.attempts
  · rw [hq]; exact h.callqueue

theorem keeps_modifyWorld {f : World → World} (h : ∀ w, Steady queue w → Steady queue (f w)) :
    KeepsSteady queue (modifyWorld f) := Keeps.modify h

theorem keeps_emit (e : Event) : KeepsSteady queue (emit e) :=
  keeps_modifyWorld fun _ hw => hw.congr rfl rfl rfl rfl

theorem keeps_call (c : LdapCall) : KeepsSteady queue (call c) :=
  keeps_modifyWorld fun _ hw => hw.congr rfl rfl rfl rfl

theorem keeps_selectIndex (array : RequestArray) (index : ℕ) :
    KeepsSteady queue (selectIndex array index) := by
  unfold selectIndex
  apply Keeps.bind (keeps_emit _)
  intro _
  exact Keeps.ite (fun _ => Keeps.pure) (fun _ => Keeps.throw trivial)

theorem keeps_csmSetState (state : LdapConnectionState) : KeepsSteady queue (csmSetState state) := by
  intro w hw
  obtain ⟨current, hlive⟩ := hw.stateMachine
  rw [exec_csmSetState, hlive]
  exact ⟨⟨⟨state, rfl⟩, hw.ldapDefaults, hw.attempts, hw.callqueue⟩, by simp⟩

theorem Steady.agrees (h : Steady none w) (hw : w.Agrees w') : Steady none w' := by
  refine ⟨?_, ?_, ?_, by simp⟩
  · rw [hw.stateMachine]; exact h.stateMachine
  · rw [hw.ldapDefaults]; exact h.ldapDefaults
  · rw [hw.nReconnectAttempts]; exact h.attempts

theorem keeps_track (handler : OperationCallback) (msgid : Int) :
    KeepsSteady none (track handler msgid) := by
  intro w hw
  refine ⟨hw.agrees (agrees_track handler msgid w), ?_⟩
  intro e he
  rw [exec_track] at he
  split_ifs at he
  cases he
  trivial

theorem keeps_trackSearch (callback : SearchCallback) (userData : UserData) (msgid : Int) :
    KeepsSteady none (trackSearch callback userData msgid) := by
  intro w hw
  refine ⟨hw.agrees (agrees_trackSearch callback userData msgid w), ?_⟩
  intro e he
  rw [exec_trackSearch] at he
  dsimp only at he
  split_ifs at he
  cases he
  trivial

theorem keeps_submit (request : LdapCall) (handler : OperationCallback) (sent : Sent) :
    KeepsSteady none (submit request handler sent) := by
  unfold submit
  apply Keeps.bind (keeps_call request)
  intro _
  apply Keeps.ite (fun _ => Keeps.pure)
  intro _
  exact Keeps.bind (keeps_track handler sent.msgid) fun _ => Keeps.pure

theorem keeps_search (arguments : SearchArguments) (callback : Option SearchCallback)
    (userData : UserData) (sent : Sent) :
    KeepsSteady none (search arguments callback userData sent) := by
  unfold search
  apply Keeps.bind (keeps_call _)
  intro _
  exact Keeps.ite (fun _ => Keeps.pure) (fun _ => keeps_trackSearch _ userData sent.msgid)

theorem keeps_perform (s : Submission) : KeepsSteady none (perform s) := by
  unfold perform
  cases s.operation with
  | search arguments callback userData => exact keeps_search arguments callback userData s.sent
  | _ => exact keeps_submit _ _ s.sent

theorem keeps_performAll {submissions : List Submission} (h : queue = none ∨ submissions = []) :
    KeepsSteady queue (performAll submissions) := by
  rcases h with rfl | rfl
  · exact Keeps.forM fun s _ => Keeps.bind (keeps_perform s) fun _ => Keeps.pure
  · exact Keeps.pure

def LdEntry.Valued (entry : LdEntry) : Prop := ∀ a ∈ entry.attributes.entries, a.2.values ≠ none

theorem LdEntry.Valued.addAttribute {entry : LdEntry} (h : entry.Valued) (name : Bytes)
    (values : List Bytes) : (ldEntryAddAttribute entry ⟨some name, some values⟩).2.Valued := by
  intro a ha
  change a ∈ ⟨name, _⟩ :: List.kerase name entry.attributes.entries at ha
  rcases List.mem_cons.mp ha with rfl | ha
  · simp
  · exact h a ((List.kerase_sublist _ _).subset ha)

theorem valued_readMessage {message : LdapMessage} {entry : LdEntry}
    (h : readMessage message = some entry) : entry.Valued := by
  have hfold : ∀ (attributes : List (Bytes × List Bytes)) (e : LdEntry), e.Valued →
      (attributes.foldl (fun entry a =>
        (ldEntryAddAttribute entry ⟨some (strdup a.1), some (a.2.map strdup)⟩).2) e).Valued := by
    intro attributes
    induction attributes with
    | nil => exact fun _ he => he
    | cons a rest ih => exact fun e he => ih _ (he.addAttribute _ _)
  obtain ⟨e, he, rfl⟩ := Option.map_eq_some_iff.mp h
  obtain ⟨dn, -, rfl⟩ := Option.map_eq_some_iff.mp he
  apply hfold
  intro a ha
  simp at ha

theorem valued_mapM_readMessage (chain : List LdapMessage) {entries : List LdEntry}
    (h : chain.mapM readMessage = some entries) : ∀ entry ∈ entries, entry.Valued := by
  induction chain generalizing entries with
  | nil =>
    cases h
    simp
  | cons message rest ih =>
    rw [List.mapM_cons] at h
    obtain ⟨first, hfirst, h⟩ := Option.bind_eq_some_iff.mp h
    obtain ⟨others, hothers, h⟩ := Option.bind_eq_some_iff.mp h
    cases h
    intro entry hentry
    rcases List.mem_cons.mp hentry with rfl | hentry
    · exact valued_readMessage hfirst
    · exact ih hothers entry hentry

theorem valued_readEntries {r : Response} {entries : List LdEntry}
    (h : readEntries r = some entries) : ∀ entry ∈ entries, entry.Valued := by
  unfold readEntries at h
  split_ifs at h
  exact valued_mapM_readMessage r.chain h

theorem keeps_untilFailure {I : World → Prop} {E : Fault → Prop} {α : Type} {callback : α → Action OperationReturnCode}
    {xs : List α} (h : ∀ x ∈ xs, Keeps I E (callback x)) : Keeps I E (untilFailure callback xs) := by
  induction xs with
  | nil => exact Keeps.pure
  | cons x xs ih =>
    have hrest := ih fun y hy => h y (List.mem_cons_of_mem x hy)
    unfold untilFailure
    apply Keeps.bind (h x List.mem_cons_self)
    intro code
    exact Keeps.ite (fun _ => Keeps.pure) (fun _ => hrest)

theorem keeps_appendValueCallback (append : LdapSchema → SchemaDefinition → Bool × LdapSchema)
    (parse : Bytes → Option SchemaDefinition) (value : Bytes) :
    KeepsSteady queue (appendValueCallback append parse value) := by
  unfold appendValueCallback
  cases parse value with
  | none => exact Keeps.pure
  | some d =>
    apply Keeps.get
    intro w _
    dsimp only
    apply Keeps.bind
    · exact keeps_modifyWorld fun _ hw => hw.congr rfl rfl rfl rfl
    · exact fun _ => Keeps.pure

theorem keeps_subschemaSubentryCallback (value : Bytes) :
    KeepsSteady queue (subschemaSubentryCallback value) := by
  unfold subschemaSubentryCallback
  apply Keeps.bind
  · exact keeps_modifyWorld fun _ hw => hw.congr rfl rfl rfl rfl
  · exact fun _ => Keeps.pure

theorem keeps_ldapSchemaCallbackCommon {I : World → Prop} {E : Fault → Prop}
    {callback : Bytes → Action OperationReturnCode} (h : ∀ value, Keeps I E (callback value))
    {entries : List LdEntry} (hentries : ∀ entry ∈ entries, entry.Valued) :
    Keeps I E (ldapSchemaCallbackCommon callback entries) := by
  apply keeps_untilFailure
  intro entry hentry
  apply keeps_untilFailure
  intro a ha
  obtain ⟨b, hb, rfl⟩ := List.mem_map.mp ha
  cases hvalues : b.2.values with
  | none => exact absurd hvalues (hentries entry hentry b hb)
  | some values => exact keeps_untilFailure fun value _ => h value

theorem keeps_callSearchCallback (callback : SearchCallback) {entries : List LdEntry} {r : Response}
    (hentries : ∀ entry ∈ entries, entry.Valued) (hr : queue = none ∨ r.submissions = []) :
    KeepsSteady queue (callSearchCallback callback entries r) := by
  unfold callSearchCallback
  cases callback with
  | printSearchCallback => exact Keeps.pure
  | attributeTypesSearchCallback =>
    exact keeps_ldapSchemaCallbackCommon (keeps_appendValueCallback _ _) hentries
  | objectClassesSearchCallback =>
    exact keeps_ldapSchemaCallbackCommon (keeps_appendValueCallback _ _) hentries
  | subschemaSubentrySearchCallback =>
    exact keeps_ldapSchemaCallbackCommon keeps_subschemaSubentryCallback hentries
  | application _ => exact Keeps.bind (keeps_performAll hr) fun _ => Keeps.pure

variable {r : Response}

theorem keeps_onErrorOperation (hr : queue = none ∨ r.submissions = []) :
    KeepsSteady queue (onErrorOperation r) := by
  unfold onErrorOperation
  apply Keeps.get
  intro w _
  apply Keeps.ite _ (fun _ => Keeps.pure)
  intro _
  exact Keeps.bind (keeps_emit _) fun _ => keeps_performAll hr

theorem keeps_reportError (hr : queue = none ∨ r.submissions = []) :
    KeepsSteady queue (do onErrorOperation r; return .failure : Action OperationReturnCode) :=
  Keeps.bind (keeps_onErrorOperation hr) fun _ => Keeps.pure

theorem keeps_resultOnRead (type : Int) (accepted : List Int)
    (hr : queue = none ∨ r.submissions = []) : KeepsSteady queue (resultOnRead type accepted r) := by
  unfold resultOnRead
  exact Keeps.ite (fun _ => Keeps.pure) (fun _ => keeps_reportError hr)

theorem keeps_connectionRemoveSearchRequest (index : ℕ) :
    KeepsSteady queue (connectionRemoveSearchRequest index) := by
  unfold connectionRemoveSearchRequest
  apply Keeps.get
  intro w _
  apply Keeps.bind (Keeps.forM fun i _ => keeps_selectIndex .searchRequests i)
  intro _
  apply keeps_modifyWorld
  intro w hw
  obtain ⟨searchRequests, he⟩ := w.connection.removeSearchRequest_eq index
  rw [World.removed, he]
  exact hw.congr rfl rfl rfl rfl

theorem keeps_answerSearch (index : ℕ) (hr : queue = none ∨ r.submissions = []) :
    KeepsSteady queue (answerSearch index r) := by
  unfold answerSearch
  apply Keeps.get
  intro w _
  dsimp only
  cases hc : (w.connection.searchRequests index).onSearchOperation with
  | none => exact Keeps.pure
  | some callback =>
    cases he : readEntries r with
    | none => exact Keeps.pure
    | some entries =>
      apply Keeps.bind (keeps_emit _)
      intro _
      apply Keeps.bind (keeps_callSearchCallback callback (valued_readEntries he) hr)
      intro code
      exact Keeps.bind (keeps_connectionRemoveSearchRequest index) fun _ => Keeps.pure

theorem keeps_searchOnRead (hr : queue = none ∨ r.submissions = []) :
    KeepsSteady queue (searchOnRead r) := by
  unfold searchOnRead
  apply Keeps.ite
  · intro _
    apply Keeps.get
    intro w _
    cases w.connection.findSearchRequest r.msgid with
    | none => exact keeps_reportError hr
    | some index => exact keeps_answerSearch index hr
  · intro _
    exact Keeps.ite (fun _ => Keeps.pure) (fun _ => keeps_reportError hr)

theorem keeps_directoryParseResult (hr : queue = none ∨ r.submissions = []) :
    KeepsSteady queue (directoryParseResult r) := by
  unfold directoryParseResult
  apply Keeps.ite
  · intro _
    apply Keeps.bind
    · exact keeps_modifyWorld fun _ hw => hw.congr rfl rfl rfl rfl
    · exact fun _ => Keeps.pure
  · intro _
    exact Keeps.ite (fun _ => Keeps.pure) (fun _ => keeps_reportError hr)

theorem keeps_fail (code : OperationReturnCode) :
    KeepsSteady queue (do csmSetState .error; return code : Action OperationReturnCode) :=
  Keeps.bind (keeps_csmSetState .error) fun _ => Keeps.pure

theorem keeps_ensureTls (code : Int) : KeepsSteady queue (ensureTls code) := by
  unfold ensureTls
  apply Keeps.get
  intro w _
  apply Keeps.ite (fun _ => Keeps.pure)
  intro _
  unfold ldapInstallTls
  apply Keeps.bind (keeps_call _)
  intro _
  apply Keeps.bind (keeps_emit _)
  intro _
  apply Keeps.ite _ (fun _ => Keeps.pure)
  intro _
  apply Keeps.bind
  · exact keeps_modifyWorld fun _ hw => hw.congr rfl rfl rfl rfl
  · exact fun _ => Keeps.pure

theorem keeps_connectionStartTlsOnRead (r : Response) :
    KeepsSteady queue (connectionStartTlsOnRead r) := by
  unfold connectionStartTlsOnRead
  apply Keeps.ite _ (fun _ => Keeps.pure)
  intro _
  apply Keeps.bind (keeps_ensureTls _)
  intro tlsRc
  apply Keeps.ite
  · intro _
    exact Keeps.ite (fun _ => keeps_fail _) (fun _ => Keeps.pure)
  · intro _
    exact Keeps.bind (keeps_csmSetState _) fun _ => Keeps.pure

theorem keeps_bindOutcome {rc : Int} (hrc : queue = none ∨ rc ≠ ldapSaslBindInProgress) (r : Response) :
    KeepsSteady queue (bindOutcome rc r) := by
  unfold bindOutcome
  apply Keeps.ite
  · intro h
    obtain rfl := hrc.resolve_right (not_not.mpr h)
    apply Keeps.get
    intro w _
    exact Keeps.bind (keeps_track _ _) fun _ => Keeps.pure
  · intro _
    apply Keeps.ite
    · intro _
      exact Keeps.bind (keeps_csmSetState _) fun _ => Keeps.pure
    · intro _
      cases r.diagnostics.resultCode with
      | none => exact Keeps.pure
      | some code => exact Keeps.ite (fun _ => keeps_fail _) (fun _ => Keeps.pure)

theorem keeps_connectionBindOnRead (hr : queue = none ∨ ¬r.Issues) :
    KeepsSteady queue (connectionBindOnRead r) := by
  unfold connectionBindOnRead
  apply Keeps.ite _ (fun _ => Keeps.pure)
  intro htype
  apply Keeps.get
  intro w hw
  dsimp only
  cases w.connection.bindType with
  | interactive =>
    rw [hw.ldapDefaults]
    have hrc : queue = none ∨ r.bind.rc ≠ ldapSaslBindInProgress :=
      hr.imp_right fun h hrc => h (.inr ⟨htype, hrc⟩)
    apply Keeps.bind Keeps.pure
    intro _
    apply Keeps.bind (keeps_call _)
    intro _
    apply Keeps.bind (keeps_emit _)
    intro _
    apply Keeps.bind
    · exact keeps_modifyWorld fun _ hw => hw.congr rfl rfl rfl rfl
    · exact fun _ => keeps_bindOutcome hrc r
  | simple =>
    have hrc : r.rc ≠ ldapSaslBindInProgress := by
      rw [htype]
      decide
    exact Keeps.bind (keeps_emit _) fun _ => keeps_bindOutcome (.inr hrc) r

theorem keeps_handle (handler : OperationCallback) (hr : queue = none ∨ ¬r.Issues) :
    KeepsSteady queue (handler.handle r) := by
  have hsub : queue = none ∨ r.submissions = [] :=
    hr.imp_right fun h => by_contra fun hne => h (.inl hne)
  cases handler with
  | addOnRead => exact keeps_resultOnRead _ _ hsub
  | searchOnRead => exact keeps_searchOnRead hsub
  | modifyOnRead => exact keeps_resultOnRead _ _ hsub
  | deleteOnRead => exact keeps_resultOnRead _ _ hsub
  | whoamiOnRead => exact Keeps.pure
  | renameOnRead => exact keeps_resultOnRead _ _ hsub
  | directoryParseResult => exact keeps_directoryParseResult hsub
  | connectionBindOnRead => exact keeps_connectionBindOnRead hr
  | connectionStartTlsOnRead => exact keeps_connectionStartTlsOnRead r

theorem keeps_connectionOptionalTransitionOnError :
    KeepsSteady queue connectionOptionalTransitionOnError := by
  unfold connectionOptionalTransitionOnError
  apply Keeps.get
  intro w hw
  obtain ⟨state, hlive⟩ := hw.stateMachine
  rw [hlive]
  apply Keeps.bind Keeps.pure
  intro state
  exact Keeps.ite (fun _ => keeps_csmSetState _) (fun _ => Keeps.pure)

theorem keeps_releaseTop : KeepsSteady queue releaseTop :=
  keeps_modifyWorld fun _ hw => hw.congr rfl rfl rfl rfl

theorem keeps_deferRequest (request : LdapRequest) : KeepsSteady queue (deferRequest request) := by
  unfold deferRequest
  apply Keeps.get
  intro w _
  apply Keeps.bind (keeps_selectIndex _ _)
  intro _
  exact keeps_modifyWorld fun _ hw => hw.congr rfl rfl rfl rfl

theorem keeps_dispatchRequest (slot : ℕ) (request : LdapRequest) (hr : queue = none ∨ ¬r.Issues) :
    KeepsSteady queue (dispatchRequest slot request r) := by
  have hannounce : KeepsSteady queue (announce slot request r) := by
    unfold announce
    apply Keeps.bind
    · exact keeps_modifyWorld fun _ hw => hw.congr rfl rfl rfl rfl
    intro _
    apply Keeps.get
    exact fun w _ => keeps_emit _
  unfold dispatchRequest
  apply Keeps.bind hannounce
  intro _
  cases request.onReadOperation with
  | none => exact keeps_releaseTop
  | some handler => exact Keeps.bind (keeps_handle handler hr) fun _ => keeps_releaseTop

/-- One iteration of the read loop after the pop; without further requests it leaves
the queue as it is. -/
theorem keeps_processRequest (slot : ℕ) (hr : queue = none ∨ ¬r.Issues) :
    KeepsSteady queue (processRequest slot r) := by
  unfold processRequest
  apply Keeps.get
  intro w _
  apply Keeps.bind (keeps_call _)
  intro _
  apply Keeps.ite
  · intro _
    apply Keeps.ite _ (fun _ => Keeps.pure)
    intro _
    apply Keeps.bind (keeps_emit _)
    intro _
    apply Keeps.bind keeps_connectionOptionalTransitionOnError
    intro _
    exact Keeps.bind keeps_releaseTop fun _ => Keeps.pure
  · intro _
    apply Keeps.ite
    · intro _
      exact Keeps.bind (keeps_deferRequest _) fun _ => Keeps.pure
    · intro _
      exact Keeps.bind (keeps_dispatchRequest slot _ hr) fun _ => Keeps.pure

theorem follows_any {α : Type} {P : World → Prop} (p : Action α) :
    Follows (fun _ _ => True) P p (fun _ _ => True) :=
  fun _ _ => ⟨.single trivial, fun _ _ => trivial⟩

theorem processRequest_continues (slot : ℕ) (h : r.diagnostics.succeed = true) {w : World} {more : Bool}
    (hok : (exec (processRequest slot r) w).1 = .ok more) : more = true := by
  have hfollows : Follows (fun _ _ => True) (fun _ => True) (processRequest slot r)
      (fun more _ => more = true) := by
    unfold processRequest
    apply Follows.bind (follows_any _)
    intro _
    apply Follows.bind (follows_any _)
    intro _
    apply Follows.ite
    · intro _
      rw [if_pos h]
      apply Follows.bind (follows_any _)
      intro _
      apply Follows.bind (follows_any _)
      intro _
      exact Follows.bind (follows_any _) fun _ => Follows.pure fun _ _ => rfl
    · intro _
      apply Follows.ite
      · intro _
        exact Follows.bind (follows_any _) fun _ => Follows.pure fun _ _ => rfl
      · intro _
        exact Follows.bind (follows_any _) fun _ => Follows.pure fun _ _ => rfl
  exact (hfollows w trivial).2 more hok

theorem Inner.steady (h : Inner w w') (hw : Steady none w) : Steady none w' := by
  cases h with
  | calm h => exact hw.agrees h.agrees
  | setState state _ =>
    obtain ⟨current, hlive⟩ := hw.stateMachine
    rw [exec_csmSetState, hlive]
    exact ⟨⟨state, rfl⟩, hw.ldapDefaults, hw.attempts, by simp⟩
  | bindAnswered => exact hw.congr rfl rfl rfl rfl
  | tlsInplace => exact hw.congr rfl rfl rfl rfl
  | directory => exact hw.congr rfl rfl rfl rfl
  | running => exact ⟨hw.stateMachine, hw.ldapDefaults, show 0 < maxReconnectAttempts by decide, by simp⟩

theorem Steady.reconnect (hw : Steady none w) (hs : w.connection.stateMachine = .live .error)
    {i : TickInput} (hi : i.configure = none) :
    (exec (reconnect i) w).1 = .ok () ∧ Steady none (exec (reconnect i) w).2 := by
  have hlt : w.connection.nReconnectAttempts < maxReconnectAttempts := hw.attempts
  rw [exec_reconnect hs (by rw [hw.ldapDefaults]; simp), if_pos hlt, hi]
  exact ⟨rfl, ⟨.init, rfl⟩, rfl, show 1 < maxReconnectAttempts by decide, by simp⟩

theorem follows_tick_steady {i : TickInput} (hi : i.configure = none) :
    Follows (fun _ _ => True) (Steady none) (csmNextState i) (fun _ => Steady none) := by
  intro w hw
  refine ⟨.single trivial, fun code hok => ?_⟩
  by_cases hs : w.connection.stateMachine = .live .error
  · have hrun : exec (csmNextState i) w = exec (reconnect i >>= fun _ => pure .success) w := by
      rw [csmNextState, exec_bind_ok (exec_get w), hs]
      rfl
    obtain ⟨hreturn, hsteady⟩ := hw.reconnect hs hi
    rw [hrun, exec_bind_ok (Prod.ext hreturn rfl)]
    exact hsteady
  · exact ((follows_csmNextState i).keep (I := Steady none) fun _ _ h hw => h.steady hw) w ⟨hs, hw⟩
      |>.2 code hok |>.2

theorem Serve.steady (h : Serve w w') (hw : Steady none w) : Steady none w' := by
  cases h with
  | defer slot _ _ =>
    rw [exec_deferRequest]
    split_ifs
    · exact ⟨hw.stateMachine, hw.ldapDefaults, hw.attempts, by simp⟩
    · exact ⟨hw.stateMachine, hw.ldapDefaults, hw.attempts, by simp⟩
  | _ => exact ⟨hw.stateMachine, hw.ldapDefaults, hw.attempts, by simp⟩

theorem Answer.steady (h : Answer w w') (hw : Steady none w) : Steady none w' := by
  cases h with
  | remove index =>
    obtain ⟨searchRequests, he⟩ := w.connection.removeSearchRequest_eq index
    rw [World.removed, he]
    exact ⟨hw.stateMachine, hw.ldapDefaults, hw.attempts, by simp⟩
  | _ => exact hw.congr rfl rfl rfl rfl

theorem Serving.steady (h : Serving w w') (hw : Steady none w) : Steady none w' := by
  cases h with
  | handling h =>
    cases h with
    | inner h => exact h.steady hw
    | answer h => exact h.steady hw
  | serve h => exact h.steady hw

theorem keeps_restoreRequests (requests : List LdapRequest) (i : ℕ) :
    KeepsSteady none (restoreRequests i requests) := by
  induction requests generalizing i with
  | nil => exact Keeps.pure
  | cons request rest ih =>
    unfold restoreRequests
    apply Keeps.bind (keeps_selectIndex _ _)
    intro _
    apply Keeps.bind
    · exact keeps_modifyWorld fun _ hw => ⟨hw.stateMachine, hw.ldapDefaults, hw.attempts, by simp⟩
    · exact fun _ => ih (i + 1)

theorem keeps_finishPass : KeepsSteady none finishPass := by
  have hmodify : ∀ n, KeepsSteady none (modifyConnection fun c => { c with nReadRequests := n }) :=
    fun n => keeps_modifyWorld fun _ hw => hw.congr rfl rfl rfl rfl
  unfold finishPass
  apply Keeps.get
  intro w _
  apply Keeps.bind (hmodify 0)
  intro _
  apply Keeps.bind
  · unfold requeue
    apply Keeps.ite _ (fun _ => Keeps.pure)
    intro _
    exact Keeps.bind (keeps_restoreRequests _ 0) fun _ => hmodify _
  · exact fun _ => keeps_modifyWorld fun _ hw => hw.congr rfl rfl rfl rfl

theorem KeepsSteady.follows {α : Type} {p : Action α} (h : KeepsSteady queue p) :
    Follows (fun _ _ => True) (Steady queue) p (fun _ => Steady queue) :=
  fun w hw => ⟨.single trivial, fun _ _ => (h w hw).1⟩

theorem follows_connectionOnRead_steady (responses : List Response) :
    Follows (fun _ _ => True) (Steady none) (connectionOnRead responses) (fun _ => Steady none) := by
  unfold connectionOnRead
  apply Follows.bind (Q := fun _ w => w.Idle ∧ Steady none w)
  · intro w hw
    exact ⟨.single trivial, fun _ _ => ⟨⟨rfl, rfl, .inl rfl⟩, hw.congr rfl rfl rfl rfl⟩⟩
  intro _
  apply Follows.bind (((follows_readLoop responses).keep fun _ _ h hw => h.steady hw).mono
    fun _ _ _ => trivial)
  intro drained
  apply Follows.ite
  · intro _
    exact keeps_finishPass.follows.of_pre fun w hw => hw.2
  · intro _
    have habandon : KeepsSteady none abandonPass :=
      keeps_modifyWorld fun _ hw => hw.congr rfl rfl rfl rfl
    exact habandon.follows.of_pre fun w hw => hw.2

theorem follows_stepPerform_steady {step : Step} (h : ∀ i, step = .tick i → i.configure = none) :
    Follows (fun _ _ => True) (Steady none) step.perform (fun _ => Steady none) := by
  cases step with
  | tick i => exact Follows.bind (follows_tick_steady (h i rfl)) fun _ => Follows.pure fun _ hw => hw
  | read responses => exact follows_connectionOnRead_steady responses
  | submit submission =>
    exact KeepsSteady.follows (Keeps.bind (keeps_perform submission) fun _ => Keeps.pure)
  | installErrorHandler =>
    exact KeepsSteady.follows (keeps_modifyWorld fun _ hw => hw.congr rfl rfl rfl rfl)

/-- In a run whose reconfigurations succeed, the objects of the connection are always
there. -/
theorem run_steady {config : LdapConnectionConfig} {path : Option Bytes} {steps : List Step} {w : World}
    (hrun : run config path steps = (.ok (), w))
    (hconfigure : ∀ i, .tick i ∈ steps → i.configure = none) : Steady none w := by
  have hinit : Steady none (.initial config path) :=
    ⟨⟨.init, rfl⟩, rfl, show 0 < maxReconnectAttempts by decide, by simp⟩
  have hsteps : Follows (fun _ _ => True) (Steady none) (performSteps steps) (fun _ => Steady none) :=
    Follows.forM fun step hstep => follows_stepPerform_steady fun i hi => hconfigure i (hi ▸ hstep)
  have hfinal := (hsteps (.initial config path) hinit).2 ()
  rw [run] at hrun
  rw [hrun] at hfinal
  exact hfinal rfl

end Libdomain.Connection
