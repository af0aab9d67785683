import Libdomain.Connection.Strides

/-! # What sets the state machine

`Steers` sorts the strides of a run by what they do to the state machine, the
number of attempts to reconnect and the TLS layer.
-/
namespace Libdomain.Connection
open Libdomain.Queue Libdomain.Program Relation

def tlsOf : List Event → Bool
  | [] => false
  | .tlsInstalled code :: events => code = ldapSuccess || tlsOf events
  | .configured :: _ => false
  | .configureFailed failure :: events => if failure = .tallocNew then tlsOf events else false
  | _ :: events => tlsOf events

/-- The response lets `connection_start_tls_on_read` go on to the bind. -/
def Response.Secures (r : Response) (tls : Bool) : Prop :=
  r.rc = ldapResExtended ∧
    (tls = true ∨ r.installTls = ldapSuccess ∨ r.installTls = ldapLocalError)

/-- The code by which `connection_bind_on_read` judges a response. -/
def Response.bindCode (r : Response) (c : LdapConnectionCtx) : Int :=
  match c.bindType with
  | .interactive => r.bind.rc
  | .simple => r.rc

/-- The response lets `connection_bind_on_read` complete the bind. -/
def Response.Completes (r : Response) (c : LdapConnectionCtx) : Prop :=
  r.rc = ldapResBind ∧ r.bindCode c = ldapSuccess

instance (r : Response) (tls : Bool) : Decidable (r.Secures tls) :=
  inferInstanceAs (Decidable (_ ∧ _))

instance (r : Response) (c : LdapConnectionCtx) : Decidable (r.Completes c) :=
  inferInstanceAs (Decidable (_ ∧ _))

instance {α : Type} (pointer : Pointer α) (P : α → Prop) [DecidablePred P] :
    Decidable (∀ value, pointer = .live value → P value) :=
  match pointer with
  | .live value => decidable_of_iff (P value) ⟨fun h _ he => by cases he; exact h, fun h => h value rfl⟩
  | .null => isTrue fun _ he => by cases he
  | .dangling => isTrue fun _ he => by cases he

/-- The response makes `connection_start_tls_on_read` give up. -/
def Response.Insecure (r : Response) (tls : Bool) : Prop :=
  r.rc = ldapResExtended ∧ ¬r.Secures tls ∧ r.diagnostics.succeed = true

/-- The response makes `connection_bind_on_read` give up. -/
def Response.Refuses (r : Response) (c : LdapConnectionCtx) : Prop :=
  r.rc = ldapResBind ∧ r.bindCode c ≠ ldapSuccess ∧ r.bindCode c ≠ ldapSaslBindInProgress ∧
    r.diagnostics.message = true ∧ ∃ code, r.diagnostics.resultCode = some code ∧ code ≠ ldapSuccess

def Event.Straight : Event → Prop
  | .transition .. | .configured | .configureFailed _ => False
  | _ => True

structure World.Straight (w w' : World) : Prop where
  stateMachine : w'.connection.stateMachine = w.connection.stateMachine
  ldapDefaults : w'.connection.ldapDefaults = w.connection.ldapDefaults
  config : w'.connection.config = w.connection.config
  bindType : w'.connection.bindType = w.connection.bindType
  nReconnectAttempts : w'.connection.nReconnectAttempts = w.connection.nReconnectAttempts
  epoch : w'.epoch = w.epoch
  tls : tlsOf w.trace = w.tlsInplace → tlsOf w'.trace = w'.tlsInplace
  grows : w.Grows w' Event.Straight

def World.Turned (w w' : World) (state : LdapConnectionState) : Prop :=
  ∃ t, w.Straight t ∧ (exec (csmSetState state) t).2.Straight w'

def World.dispatched (w : World) (slot : ℕ) (request : LdapRequest) (r : Response) : World :=
  (exec (announce slot request r) w).2

/-- What a stride of a read pass does to the machine. -/
inductive Steers (w w' : World) : Prop
  | straight (straight : w.Straight w')
  | stopped (state : LdapConnectionState) (live : w.connection.stateMachine = .live state)
      (waiting : state = .tlsNegotiation ∨ state = .bindInProgress) (turned : w.Turned w' .error)
  | secured (slot : ℕ) (request : LdapRequest) (r : Response)
      (handler : request.onReadOperation = some .connectionStartTlsOnRead)
      (secures : r.Secures w.tlsInplace)
      (turned : (w.dispatched slot request r).Turned w' .transportReady)
  | insecure (slot : ℕ) (request : LdapRequest) (r : Response)
      (handler : request.onReadOperation = some .connectionStartTlsOnRead)
      (insecure : r.Insecure w.tlsInplace) (turned : (w.dispatched slot request r).Turned w' .error)
  | bound (slot : ℕ) (request : LdapRequest) (r : Response)
      (handler : request.onReadOperation = some .connectionBindOnRead)
      (completes : r.Completes w.connection)
      (turned : (w.dispatched slot request r).Turned w' .bound)
  | refused (slot : ℕ) (request : LdapRequest) (r : Response)
      (handler : request.onReadOperation = some .connectionBindOnRead)
      (refuses : r.Refuses w.connection) (turned : (w.dispatched slot request r).Turned w' .error)

variable {w w' w'' : World}

theorem World.Straight.refl (w : World) : w.Straight w :=
  ⟨rfl, rfl, rfl, rfl, rfl, rfl, id, .none rfl⟩

theorem World.Straight.trans (h : w.Straight w') (h' : w'.Straight w'') : w.Straight w'' where
  stateMachine := h'.stateMachine.trans h.stateMachine
  ldapDefaults := h'.ldapDefaults.trans h.ldapDefaults
  config := h'.config.trans h.config
  bindType := h'.bindType.trans h.bindType
  nReconnectAttempts := h'.nReconnectAttempts.trans h.nReconnectAttempts
  epoch := h'.epoch.trans h.epoch
  tls hw := h'.tls (h.tls hw)
  grows := h.grows.trans h'.grows

def Event.Aloof : Event → Prop
  | .transition .. | .configured | .configureFailed _ | .tlsInstalled _ => False
  | _ => True

theorem Event.Aloof.straight {e : Event} (h : e.Aloof) : e.Straight := by
  cases e with
  | tlsInstalled => exact h.elim
  | _ => exact h

theorem tlsOf_cons {e : Event} (h : e.Aloof) (events : List Event) :
    tlsOf (e :: events) = tlsOf events := by
  cases e with
  | tlsInstalled => exact h.elim
  | configured => exact h.elim
  | configureFailed => exact h.elim
  | _ => rfl

theorem World.Grows.tlsOf_eq (h : w.Grows w' Event.Aloof) : tlsOf w'.trace = tlsOf w.trace := by
  obtain ⟨new, ht, hnew⟩ := h
  rw [ht]
  clear ht
  induction new with
  | nil => rfl
  | cons e new ih =>
    rw [List.cons_append, tlsOf_cons (hnew e List.mem_cons_self),
      ih fun e he => hnew e (List.mem_cons_of_mem _ he)]

theorem straight_of_grows (hs : w'.connection.stateMachine = w.connection.stateMachine)
    (hd : w'.connection.ldapDefaults = w.connection.ldapDefaults)
    (hc : w'.connection.config = w.connection.config)
    (hb : w'.connection.bindType = w.connection.bindType)
    (hn : w'.connection.nReconnectAttempts = w.connection.nReconnectAttempts)
    (he : w'.epoch = w.epoch) (ht : w'.tlsInplace = w.tlsInplace) (hg : w.Grows w' Event.Aloof) :
    w.Straight w' := by
  refine ⟨hs, hd, hc, hb, hn, he, fun hw => ?_, hg.mono fun _ => Event.Aloof.straight⟩
  rw [hg.tlsOf_eq, ht, hw]

theorem straight_record {e : Event} (h : e.Aloof) (w : World) : w.Straight (w.record e) :=
  straight_of_grows rfl rfl rfl rfl rfl rfl rfl (.one rfl h)

theorem World.Straight.of_path (h : ReflTransGen World.Straight w w') : w.Straight w' := by
  induction h with
  | refl => exact .refl w
  | tail _ hst ih => exact ih.trans hst

theorem straight_announced (w : World) (handler : OperationCallback) (msgid : Int) :
    w.Straight (w.announced handler msgid) :=
  straight_of_grows rfl rfl rfl rfl rfl rfl rfl (.two rfl trivial trivial)

theorem straight_tracked (w : World) (handler : OperationCallback) (msgid : Int) :
    w.Straight (w.tracked handler msgid) :=
  (straight_announced w handler msgid).trans
    (straight_of_grows rfl rfl rfl rfl rfl rfl rfl (.one rfl trivial))

theorem straight_registered (w : World) (request : LdapSearchRequest) :
    w.Straight (w.registered request) :=
  straight_of_grows rfl rfl rfl rfl rfl rfl rfl (.two rfl trivial trivial)

theorem Issue.straight (h : Issue w w') : w.Straight w' := by
  cases h with
  | event e routine =>
    apply straight_record
    cases e <;> trivial
  | «local» => exact straight_of_grows rfl rfl rfl rfl rfl rfl rfl (.none rfl)
  | bindInvoked => exact straight_record (by trivial) w
  | errorCallback => exact straight_record (by trivial) w
  | track handler msgid _ =>
    rw [exec_track]
    split_ifs
    · exact straight_tracked w handler msgid
    · exact straight_announced w handler msgid
  | search callback userData msgid =>
    have hissued : w.Straight (w.issued callback userData msgid) := straight_record (by trivial) w
    rw [exec_trackSearch]
    dsimp only
    split_ifs
    · exact (hissued.trans (straight_tracked _ _ _)).trans (straight_registered _ _)
    · exact hissued.trans (straight_tracked _ _ _)
    · exact hissued.trans (straight_announced _ _ _)

theorem Load.straight (h : Load w w') : w.Straight w' := by
  cases h with
  | schema => exact straight_of_grows rfl rfl rfl rfl rfl rfl rfl (.none rfl)
  | path => exact straight_of_grows rfl rfl rfl rfl rfl rfl rfl (.none rfl)

theorem straight_removed (w : World) (index : ℕ) : w.Straight (w.removed index) := by
  obtain ⟨searchRequests, he⟩ := w.connection.removeSearchRequest_eq index
  rw [World.removed, he]
  exact straight_of_grows rfl rfl rfl rfl rfl rfl rfl (.one rfl trivial)

theorem Reply.straight (h : Reply w w') : w.Straight w' := by
  cases h with
  | issue h => exact h.straight
  | callback => exact straight_record (by trivial) w
  | write => exact straight_record (by trivial) w
  | remove index => exact straight_removed w index

theorem Pass.straight {l : Ledger} (h : Pass w w') (hw : Tracks w l) : w.Straight w' := by
  cases h with
  | begin => exact straight_of_grows rfl rfl rfl rfl rfl rfl rfl (.one rfl trivial)
  | abandon => exact straight_of_grows rfl rfl rfl rfl rfl rfl rfl (.one rfl trivial)
  | finish _ _ _ drained =>
    rw [exec_finishPass w (hw.finished drained).1]
    have hsame := sameMachine_finished w
    have hfields : w.finished.connection.bindType = w.connection.bindType ∧
        w.finished.connection.nReconnectAttempts = w.connection.nReconnectAttempts := by
      obtain ⟨queue, readRequests, he⟩ := LdapConnectionCtx.restored_eq
        { w.connection with nReadRequests := 0 } 0 w.pendingRequests
      unfold World.finished LdapConnectionCtx.finished
      rw [he]
      exact ⟨rfl, rfl⟩
    apply straight_of_grows hsame.stateMachine hsame.ldapDefaults hsame.config hfields.1 hfields.2 rfl
      hsame.tlsInplace
    exact .finished w (fun _ => trivial) fun _ => trivial

theorem straight_releaseTop (w : World) : w.Straight (exec releaseTop w).2 :=
  straight_of_grows rfl rfl rfl rfl rfl rfl rfl (.one rfl trivial)

theorem straight_dispatched (w : World) (slot : ℕ) (request : LdapRequest) (r : Response) :
    w.Straight (w.dispatched slot request r) :=
  straight_of_grows rfl rfl rfl rfl rfl rfl rfl (.one rfl trivial)

theorem along_straight {α : Type} {p : Action α} (h : Along World.Straight p) (w : World) :
    w.Straight (exec p w).2 := .of_path (h w)

/-- Whatever `search_on_read` does, it leaves the machine alone. -/
theorem straight_searchOnRead {request : LdapRequest} {r : Response} {c : LdapConnectionCtx}
    (hc : w.connection = c) (hd : delivery w.trace = .dispatched request r c) :
    w.Straight (exec (searchOnRead r) w).2 := by
  refine .of_path (follows_searchOnRead (R := World.Straight) ?_ ?_ ?_ ?_ ?_ w ⟨hc, hd⟩).1
  · exact fun w index _ => straight_record (by trivial) w
  · exact fun w index _ _ => straight_removed w index
  · exact fun _ _ h => h.straight
  · exact fun w _ _ _ _ _ _ _ _ _ => straight_record (by trivial) w
  · intro index callback entries _ _ _ _
    by_cases hfills : callback.Fills
    · exact (along_callSearchCallback_fills hfills entries r).mono fun _ _ h => ⟨h.straight, h.calm⟩
    · cases callback with
      | printSearchCallback => exact Along.pure
      | application _ =>
        refine Along.bind (Along.mono (along_performAll r.submissions) ?_) fun _ => Along.pure
        exact fun _ _ h => ⟨h.straight, h.calm⟩
      | _ => exact absurd trivial hfills

theorem straight_directoryParseResult (r : Response) (w : World) :
    w.Straight (exec (directoryParseResult r) w).2 := by
  apply along_straight
  unfold directoryParseResult
  apply Along.ite
  · refine Along.bind (Along.step fun w => ?_) fun _ => Along.pure
    exact straight_of_grows rfl rfl rfl rfl rfl rfl rfl (.none rfl)
  · apply Along.ite Along.pure
    exact Along.bind ((along_onErrorOperation r).mono fun _ _ h => h.straight) fun _ => Along.pure

theorem exec_csmSetState_return (state : LdapConnectionState) (code : OperationReturnCode) (w : World) :
    (exec (do csmSetState state; return code) w).2 = (exec (csmSetState state) w).2 := by
  rw [exec_bind, exec_csmSetState]
  cases w.connection.stateMachine <;> rfl

theorem exec_ensureTls (code : Int) (w : World) : ∃ rc t, exec (ensureTls code) w = (.ok rc, t) ∧
    w.Straight t ∧ (rc = ldapSuccess ∨ rc = ldapLocalError ↔
      w.tlsInplace = true ∨ code = ldapSuccess ∨ code = ldapLocalError) := by
  rw [ensureTls, exec_bind_ok (exec_get w)]
  by_cases htls : w.tlsInplace = true
  · rw [if_pos htls]
    exact ⟨ldapSuccess, w, rfl, .refl w, by simp [htls]⟩
  · rw [if_neg htls, ldapInstallTls, exec_bind_ok (exec_call _ w), exec_bind_ok (exec_emit _ _)]
    have hgrows : ∀ t : World, t.trace = .tlsInstalled code :: .call w.connection.ldap .installTls ::
        w.trace → w.Grows t Event.Straight := fun t ht => .two ht trivial trivial
    by_cases hcode : code = ldapSuccess
    · rw [if_pos hcode]
      refine ⟨code, _, rfl, ⟨rfl, rfl, rfl, rfl, rfl, rfl, fun _ => ?_, hgrows _ rfl⟩, by simp [hcode]⟩
      change (decide (code = ldapSuccess) || _) = true
      rw [decide_eq_true hcode, Bool.true_or]
    · rw [if_neg hcode]
      refine ⟨code, _, rfl, ⟨rfl, rfl, rfl, rfl, rfl, rfl, fun hw => ?_, hgrows _ rfl⟩, by simp [htls]⟩
      change (decide (code = ldapSuccess) || tlsOf w.trace) = w.tlsInplace
      rw [decide_eq_false hcode, Bool.false_or, hw]

/-- The outcomes of a handler that may set the machine. -/
inductive Outcome (w w' : World) (ready gaveUp : Prop) (target : LdapConnectionState) : Prop
  | ready (h : ready) (t : World) (straight : w.Straight t) (eq : w' = (exec (csmSetState target) t).2)
  | gaveUp (h : gaveUp) (hr : ¬ready) (t : World) (straight : w.Straight t)
      (eq : w' = (exec (csmSetState .error) t).2)
  | straight (hr : ¬ready) (hg : ¬gaveUp) (straight : w.Straight w')

theorem outcome_connectionStartTlsOnRead (r : Response) (w : World) :
    Outcome w (exec (connectionStartTlsOnRead r) w).2 (r.Secures w.tlsInplace)
      (r.Insecure w.tlsInplace) .transportReady := by
  rw [connectionStartTlsOnRead]
  by_cases hrc : r.rc = ldapResExtended
  · rw [if_pos hrc]
    obtain ⟨rc, t, he, hst, hiff⟩ := exec_ensureTls r.installTls w
    rw [exec_bind_ok he]
    by_cases hbad : rc ≠ ldapSuccess ∧ rc ≠ ldapLocalError
    · have hnot : ¬r.Secures w.tlsInplace := by
        rintro ⟨-, htls⟩
        rcases hiff.mpr htls with h | h
        · exact hbad.1 h
        · exact hbad.2 h
      rw [if_pos hbad]
      by_cases hd : r.diagnostics.succeed = true
      · rw [if_pos hd, exec_csmSetState_return]
        exact .gaveUp ⟨hrc, hnot, hd⟩ hnot t hst rfl
      · rw [if_neg hd]
        exact .straight hnot (fun h => hd h.2.2) hst
    · rw [if_neg hbad, exec_csmSetState_return]
      exact .ready ⟨hrc, hiff.mp (by tauto)⟩ t hst rfl
  · rw [if_neg hrc]
    exact .straight (fun h => hrc h.1) (fun h => hrc h.1) (.refl w)

/-- The last part of the bind handler, once the code is known. -/
theorem outcome_bindOutcome (rc : Int) (r : Response) (w : World) :
    Outcome w (exec (bindOutcome rc r) w).2 (rc = ldapSuccess)
      (rc ≠ ldapSuccess ∧ rc ≠ ldapSaslBindInProgress ∧ r.diagnostics.message = true ∧
        ∃ code, r.diagnostics.resultCode = some code ∧ code ≠ ldapSuccess) .bound := by
  rw [bindOutcome]
  by_cases hprogress : rc = ldapSaslBindInProgress
  · rw [if_pos hprogress]
    refine .straight (by rw [hprogress]; decide) (fun h => h.2.1 hprogress) (along_straight ?_ w)
    apply Along.get
    intro t
    refine Along.bind ((along_track (by decide) _).mono fun _ _ h => h.straight) fun _ => Along.pure
  · rw [if_neg hprogress]
    by_cases hrc : rc = ldapSuccess
    · rw [if_pos hrc, exec_csmSetState_return]
      exact .ready hrc w (.refl w) rfl
    · rw [if_neg hrc]
      cases hcode : r.diagnostics.resultCode with
      | none => exact .straight hrc (by simp) (.refl w)
      | some code =>
        dsimp only
        by_cases hd : r.diagnostics.message = true ∧ code ≠ ldapSuccess
        · rw [if_pos hd, exec_csmSetState_return]
          exact .gaveUp ⟨hrc, hprogress, hd.1, code, rfl, hd.2⟩ hrc w (.refl w) rfl
        · rw [if_neg hd]
          refine .straight hrc ?_ (.refl w)
          rintro ⟨-, -, hm, code', hc', hne⟩
          cases hc'
          exact hd ⟨hm, hne⟩

theorem Outcome.of_straight {ready gaveUp ready' gaveUp' : Prop} {target : LdapConnectionState}
    (h : Outcome w' w'' ready gaveUp target) (hst : w.Straight w') (hr : ready ↔ ready')
    (hg : gaveUp ↔ gaveUp') : Outcome w w'' ready' gaveUp' target := by
  cases h with
  | ready h t straight eq => exact .ready (hr.mp h) t (hst.trans straight) eq
  | gaveUp h hn t straight eq => exact .gaveUp (hg.mp h) (fun h => hn (hr.mpr h)) t (hst.trans straight) eq
  | straight hn hn' straight =>
    exact .straight (fun h => hn (hr.mpr h)) (fun h => hn' (hg.mpr h)) (hst.trans straight)

theorem outcome_connectionBindOnRead (r : Response) (w : World) :
    Outcome w (exec (connectionBindOnRead r) w).2 (r.Completes w.connection)
        (r.Refuses w.connection) .bound ∨
      w.connection.ldapDefaults ≠ .live () ∧ exec (connectionBindOnRead r) w = (.error .invalidPointer, w) := by
  rw [connectionBindOnRead]
  by_cases hrc : r.rc = ldapResBind
  · rw [if_pos hrc, exec_bind_ok (exec_get w)]
    dsimp only
    cases hb : w.connection.bindType with
    | interactive =>
      have hcode : r.bindCode w.connection = r.bind.rc := by rw [Response.bindCode, hb]
      dsimp only
      cases hd : w.connection.ldapDefaults with
      | live _ =>
        refine .inl ?_
        rw [exec_bind_ok (exec_dereference_live _ w), exec_bind_ok (exec_call _ w),
          exec_bind_ok (exec_emit _ _), exec_bind_ok (exec_modifyConnection _ _)]
        apply (outcome_bindOutcome r.bind.rc r _).of_straight
        · exact straight_of_grows rfl rfl rfl rfl rfl rfl rfl (.two rfl trivial trivial)
        · rw [Response.Completes, hcode]
          exact ⟨fun h => ⟨hrc, h⟩, And.right⟩
        · rw [Response.Refuses, hcode]
          exact ⟨fun h => ⟨hrc, h⟩, And.right⟩
      | null => exact .inr ⟨by simp, rfl⟩
      | dangling => exact .inr ⟨by simp, rfl⟩
    | simple =>
      have hcode : r.bindCode w.connection = r.rc := by rw [Response.bindCode, hb]
      refine .inl ?_
      dsimp only
      rw [exec_bind_ok (exec_emit _ _)]
      apply (outcome_bindOutcome r.rc r _).of_straight
      · exact straight_record (by trivial) w
      · rw [Response.Completes, hcode]
        exact ⟨fun h => ⟨hrc, h⟩, And.right⟩
      · rw [Response.Refuses, hcode]
        exact ⟨fun h => ⟨hrc, h⟩, And.right⟩
  · rw [if_neg hrc]
    exact .inl (.straight (fun h => hrc h.1) (fun h => hrc h.1) (.refl w))

theorem straight_release {α : Type} (p : Action α) (w : World) :
    (exec p w).2.Straight (exec (p >>= fun _ => releaseTop) w).2 := by
  rw [exec_bind]
  rcases exec p w with ⟨result, t⟩
  cases result with
  | error e => exact .refl t
  | ok a => exact straight_releaseTop t

theorem exec_dispatchRequest {slot : ℕ} {request : LdapRequest} {handler : OperationCallback}
    (h : request.onReadOperation = some handler) (r : Response) (w : World) :
    exec (dispatchRequest slot request r) w =
      exec (handler.handle r >>= fun _ => releaseTop) (w.dispatched slot request r) := by
  have hannounce : exec (announce slot request r) w = (.ok (), w.dispatched slot request r) := rfl
  rw [dispatchRequest, exec_bind_ok hannounce, h]

theorem straight_dispatchRequest (slot : ℕ) {request : LdapRequest} {handler : OperationCallback}
    (h : request.onReadOperation = some handler) (r : Response) (w : World) :
    (exec (handler.handle r) (w.dispatched slot request r)).2.Straight
      (exec (dispatchRequest slot request r) w).2 := by
  rw [exec_dispatchRequest h]
  exact straight_release _ _

theorem steers_failRequest (request : LdapRequest) (w : World) :
    Steers w (exec (failRequest request) w).2 := by
  have hrecord : w.Straight (w.record (.resultError request)) := straight_record (by trivial) w
  have hexec : exec (failRequest request) w =
      exec (connectionOptionalTransitionOnError >>= fun _ => releaseTop)
        (w.record (.resultError request)) := by
    rw [failRequest, exec_bind_ok (exec_emit _ w)]
  rw [hexec]
  have hrelease := straight_release connectionOptionalTransitionOnError (w.record (.resultError request))
  have hlookup : exec connectionOptionalTransitionOnError (w.record (.resultError request)) =
      exec (dereference w.connection.stateMachine >>= fun state =>
        if state = .tlsNegotiation ∨ state = .bindInProgress then csmSetState .error else pure ())
        (w.record (.resultError request)) := by
    rw [connectionOptionalTransitionOnError, exec_bind_ok (exec_get _)]
    rfl
  cases hs : w.connection.stateMachine with
  | live state =>
    rw [hlookup, hs, exec_bind_ok (exec_dereference_live state _)] at hrelease
    by_cases hwait : state = .tlsNegotiation ∨ state = .bindInProgress
    · rw [if_pos hwait] at hrelease
      exact .stopped state hs hwait ⟨_, hrecord, hrelease⟩
    · rw [if_neg hwait] at hrelease
      exact .straight (hrecord.trans hrelease)
  | null =>
    rw [hlookup, hs] at hrelease
    exact .straight (hrecord.trans hrelease)
  | dangling =>
    rw [hlookup, hs] at hrelease
    exact .straight (hrecord.trans hrelease)

theorem Outcome.turned {ready gaveUp : Prop} {target : LdapConnectionState}
    (h : Outcome w w' ready gaveUp target) (hafter : w'.Straight w'') :
    (ready ∧ w.Turned w'' target) ∨ (gaveUp ∧ w.Turned w'' .error) ∨
      (¬ready ∧ ¬gaveUp ∧ w.Straight w'') := by
  cases h with
  | ready h t straight eq => exact .inl ⟨h, t, straight, eq ▸ hafter⟩
  | gaveUp h hr t straight eq => exact .inr (.inl ⟨h, t, straight, eq ▸ hafter⟩)
  | straight hr hg straight => exact .inr (.inr ⟨hr, hg, straight.trans hafter⟩)

theorem steers_serve {slot : ℕ} {request : LdapRequest} {r : Response}
    (settles : w.connection.Settles request r) :
    Steers w (exec (dispatchRequest slot request r) w).2 := by
  have hdispatched := straight_dispatched w slot request r
  cases hh : request.onReadOperation with
  | none =>
    rw [LdapConnectionCtx.Settles, hh] at settles
    exact settles.elim
  | some handler =>
    have hserved := straight_dispatchRequest slot hh r w
    cases handler with
    | connectionStartTlsOnRead =>
      rcases (outcome_connectionStartTlsOnRead r _).turned hserved with
        ⟨hready, hturned⟩ | ⟨hgaveUp, hturned⟩ | ⟨-, -, hstraight⟩
      · exact .secured slot request r hh hready hturned
      · exact .insecure slot request r hh hgaveUp hturned
      · exact .straight (hdispatched.trans hstraight)
    | connectionBindOnRead =>
      rcases outcome_connectionBindOnRead r (w.dispatched slot request r) with houtcome | ⟨-, hfault⟩
      · rcases houtcome.turned hserved with
          ⟨hready, hturned⟩ | ⟨hgaveUp, hturned⟩ | ⟨-, -, hstraight⟩
        · exact .bound slot request r hh hready hturned
        · exact .refused slot request r hh hgaveUp hturned
        · exact .straight (hdispatched.trans hstraight)
      · rw [OperationCallback.handle, hfault] at hserved
        exact .straight (hdispatched.trans hserved)
    | searchOnRead =>
      have hdelivery : delivery (w.dispatched slot request r).trace = .dispatched request r
          (w.dispatched slot request r).connection := rfl
      have hsearch := straight_searchOnRead rfl hdelivery
      exact .straight ((hdispatched.trans hsearch).trans hserved)
    | directoryParseResult =>
      exact .straight ((hdispatched.trans (straight_directoryParseResult r _)).trans hserved)
    | _ =>
      rw [LdapConnectionCtx.Settles, hh] at settles
      exact settles.elim

theorem ReadStride.steers (h : ReadStride w w') (hw : Simulated w) : Steers w w' := by
  cases h with
  | reply h => exact .straight h.straight
  | pass h => exact .straight (h.straight hw)
  | pop => exact .straight (straight_of_grows rfl rfl rfl rfl rfl rfl rfl (.one rfl trivial))
  | defer slot top _ =>
    rw [exec_deferRequest, if_pos (hw.deferred top).1]
    exact .straight (straight_of_grows rfl rfl rfl rfl rfl rfl rfl (.two rfl trivial trivial))
  | fail slot _ _ => exact steers_failRequest _ w
  | serve slot r _ _ settles => exact steers_serve settles
  | dispatch slot r _ _ _ => exact .straight (straight_dispatched w slot _ r)
  | release => exact .straight (straight_releaseTop w)

/-- A property of the strides that set the machine, and of those that do not. -/
theorem Stride.induct {Q : World → Prop} (h : Stride w w') (hw : Simulated w)
    (straight : ∀ t, w.Straight t → Q t)
    (enter : ∀ state, TickEnters w state → Q (exec (csmSetState state) w).2)
    (running : w.connection.stateMachine = .live .run →
      Q { w with connection := { w.connection with nReconnectAttempts := 0 } })
    (read : ∀ t, Steers w t → Q t) : Q w' := by
  cases h with
  | tick h =>
    cases h with
    | issue h => exact straight w' h.straight
    | enter state enters => exact enter state enters
    | running state => exact running state
  | read h => exact read w' (h.steers hw)
  | errorHandler => exact straight _ (straight_of_grows rfl rfl rfl rfl rfl rfl rfl (.none rfl))

/-- The machine has gone from one state to another in a single transition. -/
structure World.Passes (w w' : World) (source target : LdapConnectionState) : Prop where
  before : w.connection.stateMachine = .live source
  after : w'.connection.stateMachine = .live target
  nReconnectAttempts : w'.connection.nReconnectAttempts = w.connection.nReconnectAttempts
  trace : ∃ new old, w'.trace = new ++ .transition source target :: (old ++ w.trace) ∧
    (∀ e ∈ new, e.Straight) ∧ ∀ e ∈ old, e.Straight

theorem World.Turned.passes {state : LdapConnectionState} (h : w.Turned w' state) :
    (∃ source, w.Passes w' source state) ∨ w.Straight w' := by
  obtain ⟨t, hbefore, hafter⟩ := h
  rw [exec_csmSetState] at hafter
  cases hs : t.connection.stateMachine with
  | live source =>
    rw [hs] at hafter
    obtain ⟨before, ht, hb⟩ := hbefore.grows
    obtain ⟨after, ht', ha⟩ := hafter.grows
    refine .inl ⟨source, hbefore.stateMachine.symm.trans hs, hafter.stateMachine,
      hafter.nReconnectAttempts.trans hbefore.nReconnectAttempts, after, before, ?_, ha, hb⟩
    rw [ht', ← ht]
    rfl
  | null =>
    rw [hs] at hafter
    exact .inr (hbefore.trans hafter)
  | dangling =>
    rw [hs] at hafter
    exact .inr (hbefore.trans hafter)

theorem World.Turned.grows {state : LdapConnectionState} (h : w.Turned w' state) :
    ∃ new, w'.trace = new ++ w.trace := by
  rcases h.passes with ⟨source, hpasses⟩ | hst
  · obtain ⟨new, old, htrace, -, -⟩ := hpasses.trace
    exact ⟨new ++ .transition source state :: old, by simp [htrace]⟩
  · obtain ⟨new, htrace, -⟩ := hst.grows
    exact ⟨new, htrace⟩

theorem World.Turned.tls {state : LdapConnectionState} (h : w.Turned w' state)
    (hw : tlsOf w.trace = w.tlsInplace) : tlsOf w'.trace = w'.tlsInplace := by
  obtain ⟨t, hbefore, hafter⟩ := h
  apply hafter.tls
  have ht := hbefore.tls hw
  rw [exec_csmSetState]
  cases t.connection.stateMachine <;> exact ht

theorem turned_enter (state : LdapConnectionState) (w : World) :
    w.Turned (exec (csmSetState state) w).2 state := ⟨w, .refl w, .refl _⟩

theorem TickEnters.ne_init {state : LdapConnectionState} (h : TickEnters w state) : state ≠ .init := by
  cases h with
  | bind code => cases code <;> decide
  | _ => decide

theorem TickEnters.ne_error {state : LdapConnectionState} (h : TickEnters w state) :
    w.connection.stateMachine ≠ .live .error := by
  intro hs
  cases h with
  | failed source live sending =>
    cases hs.symm.trans live
    exact absurd sending (by decide)
  | startTls live => cases hs.symm.trans live
  | plain live => cases hs.symm.trans live
  | bind _ live => cases hs.symm.trans live
  | detect live => cases hs.symm.trans live
  | detecting live => cases hs.symm.trans live
  | detected live => cases hs.symm.trans live
  | requesting live => cases hs.symm.trans live
  | requested live => cases hs.symm.trans live
  | checked live => cases hs.symm.trans live

theorem World.Straight.turned {state : LdapConnectionState} (h : w.Straight w') (h' : w'.Turned w'' state) :
    w.Turned w'' state := by
  obtain ⟨t, hbefore, hafter⟩ := h'
  exact ⟨t, h.trans hbefore, hafter⟩

/-- A stride of a read pass sets the machine to one of three states, if at all. -/
theorem Steers.turns (h : Steers w w') :
    w.Straight w' ∨ ∃ state ∈ [LdapConnectionState.transportReady, .bound, .error], w.Turned w' state := by
  cases h with
  | straight hst => exact .inl hst
  | stopped _ _ _ turned => exact .inr ⟨_, by decide, turned⟩
  | secured slot request r _ _ turned => exact .inr ⟨_, by decide, (straight_dispatched w slot request r).turned turned⟩
  | insecure slot request r _ _ turned => exact .inr ⟨_, by decide, (straight_dispatched w slot request r).turned turned⟩
  | bound slot request r _ _ turned => exact .inr ⟨_, by decide, (straight_dispatched w slot request r).turned turned⟩
  | refused slot request r _ _ turned => exact .inr ⟨_, by decide, (straight_dispatched w slot request r).turned turned⟩

theorem Steers.tls (h : Steers w w') (htls : tlsOf w.trace = w.tlsInplace) :
    tlsOf w'.trace = w'.tlsInplace := by
  rcases h.turns with hst | ⟨state, -, turned⟩
  · exact hst.tls htls
  · exact turned.tls htls

/-- The trace tells whether TLS is in place. -/
theorem Stride.tls (h : Stride w w') (hw : Simulated w) (htls : tlsOf w.trace = w.tlsInplace) :
    tlsOf w'.trace = w'.tlsInplace := by
  apply h.induct (Q := fun t => tlsOf t.trace = t.tlsInplace) hw
  · exact fun t hst => hst.tls htls
  · exact fun state _ => (turned_enter state w).tls htls
  · exact fun _ => htls
  · exact fun t hsteers => hsteers.tls htls

end Libdomain.Connection
