import Libdomain.Connection.Ledger
import Libdomain.Program.Ensures

/-! # Outlines of a connection

What the state machine goes by, and the handlers that wait for a response, without message ids
and slots: the outline of a connection outside a pass, during one, or with a request in hand. An
action that succeeds is determined by it, and the lemmas below say of the elementary actions that
they return, and which outline they leave.
-/
namespace Libdomain.Connection
open Libdomain.Queue Libdomain.Program

/-- What the state machine goes by. -/
structure Profile where
  stateMachine : Pointer LdapConnectionState
  ldapDefaults : Pointer Unit
  useStartTls : Bool
  bindType : BindType
  directoryType : LdapDirectoryType
  schema : LdapSchema
  schemaEntryPath : Option Bytes

/-- The handlers in the call queue, the number of slots used and the table of searches. -/
structure Agenda where
  queue : List OperationCallback
  used : ℕ
  table : List LdapSearchRequest

def Agenda.empty : Agenda := ⟨[], 0, []⟩

def Agenda.ask (a : Agenda) (handler : OperationCallback) : Agenda :=
  { a with queue := a.queue ++ [handler], used := a.used + 1 }

/-- Where the connection is: outside a pass, between two requests of a pass, or with one in hand. -/
inductive Phase
  | outside
  | reading
  | serving
  deriving DecidableEq

namespace World

def profile (w : World) : Profile where
  stateMachine := w.connection.stateMachine
  ldapDefaults := w.connection.ldapDefaults
  useStartTls := w.connection.config.useStartTls
  bindType := w.connection.bindType
  directoryType := w.connection.directoryType
  schema := w.connection.schema
  schemaEntryPath := w.schemaEntryPath

def phase (w : World) : Phase :=
  match w.frame with
  | none => .outside
  | some frame => if frame.top.isSome then .serving else .reading

/-- The requests are those of the agenda, none of them set aside. -/
def Plans (w : World) (a : Agenda) : Prop :=
  ∃ l, Tracks w l ∧ l.pending = [] ∧ l.queue.map Prod.snd = a.queue.map some ∧ l.used = a.used ∧ l.table = a.table

/-- The outline of a world. -/
structure At (p : Profile) (a : Agenda) (phase : Phase) (w : World) : Prop where
  profile : w.profile = p
  plans : w.Plans a
  phase : w.phase = phase

end World

variable {w w' : World} {p p' : Profile} {a a' : Agenda} {phase : Phase} {α β : Type}

theorem World.Plans.used (h : w.Plans a) : w.connection.nReadRequests = a.used := by
  obtain ⟨l, htracks, -, -, hused, -⟩ := h
  exact htracks.used_eq.symm.trans hused

theorem World.Plans.table (h : w.Plans a) : w.connection.table = a.table := by
  obtain ⟨l, htracks, -, -, -, htable⟩ := h
  exact htracks.table_eq.symm.trans htable

theorem World.Plans.length_table (h : w.Plans a) : w.connection.nSearchRequests = a.table.length := by
  rw [← h.table, Connection.length_table]

theorem World.Plans.congr (h : w.Plans a) (hw : SameRequests w w') : w'.Plans a := by
  obtain ⟨l, htracks, hplans⟩ := h
  exact ⟨l, htracks.congr hw, hplans⟩

theorem World.At.congr (h : w.At p a phase) (hw : SameRequests w w') (hp : w'.profile = p') :
    w'.At p' a phase where
  profile := hp
  plans := h.plans.congr hw
  phase := by rw [World.phase, hw.frame]; exact h.phase

namespace World.At

variable (h : w.At p a phase)

include h

theorem stateMachine : w.connection.stateMachine = p.stateMachine := congrArg Profile.stateMachine h.profile

theorem ldapDefaults : w.connection.ldapDefaults = p.ldapDefaults := congrArg Profile.ldapDefaults h.profile

theorem useStartTls : w.connection.config.useStartTls = p.useStartTls := congrArg Profile.useStartTls h.profile

theorem bindType : w.connection.bindType = p.bindType := congrArg Profile.bindType h.profile

theorem directoryType : w.connection.directoryType = p.directoryType := congrArg Profile.directoryType h.profile

theorem schema : w.connection.schema = p.schema := congrArg Profile.schema h.profile

theorem schemaEntryPath : w.schemaEntryPath = p.schemaEntryPath := congrArg Profile.schemaEntryPath h.profile

end World.At

theorem ensures_emit (e : Event) : Ensures (World.At p a phase) (emit e) fun _ => World.At p a phase :=
  Ensures.modify fun _ hw => hw.congr (by constructor <;> rfl) hw.profile

theorem ensures_call (c : LdapCall) : Ensures (World.At p a phase) (call c) fun _ => World.At p a phase :=
  Ensures.modify fun _ hw => hw.congr (by constructor <;> rfl) hw.profile

theorem ensures_modifyWorld {f : World → World} (h : ∀ w, w.At p a phase → SameRequests w (f w))
    (hp : ∀ w, w.profile = p → (f w).profile = p') :
    Ensures (World.At p a phase) (modifyWorld f) fun _ => World.At p' a phase :=
  Ensures.modify fun w hw => hw.congr (h w hw) (hp w hw.profile)

theorem ensures_modifyConnection {f : LdapConnectionCtx → LdapConnectionCtx}
    (h : ∀ w : World, SameRequests w { w with connection := f w.connection })
    (hp : ∀ w : World, w.profile = p → World.profile { w with connection := f w.connection } = p') :
    Ensures (World.At p a phase) (modifyConnection f) fun _ => World.At p' a phase :=
  ensures_modifyWorld (fun w _ => h w) hp

theorem ensures_dereference {pointer : World → Pointer α} {value : α} {k : α → Action β} {Q : β → World → Prop}
    (hp : ∀ w, w.At p a phase → pointer w = .live value) (h : Ensures (World.At p a phase) (k value) Q) :
    Ensures (World.At p a phase) (do let v ← dereference (pointer (← get)); k v) Q := by
  refine .read fun w hw => ?_
  rw [hp w hw]
  exact h

theorem World.At.tracked (h : w.At p a phase) (hroom : a.used < maxRequests) (handler : OperationCallback)
    (msgid : Int) : (w.tracked handler msgid).At p (a.ask handler) phase := by
  obtain ⟨l, htracks, hpending, hqueue, hused, htable⟩ := h.plans
  refine ⟨h.profile, ⟨_, htracks.track (h.plans.used ▸ hroom) handler msgid, hpending, ?_, ?_, htable⟩, h.phase⟩
  · rw [List.map_append, hqueue, Agenda.ask, List.map_append]
    rfl
  · exact congrArg (· + 1) hused

theorem ensures_track (handler : OperationCallback) (msgid : Int) (h : a.used < maxRequests) :
    Ensures (World.At p a phase) (track handler msgid) fun _ => World.At p (a.ask handler) phase := by
  intro w hw
  refine ⟨(), w.tracked handler msgid, ?_, hw.tracked h handler msgid⟩
  rw [exec_track, if_pos (hw.plans.used ▸ h)]

theorem ensures_submit (request : LdapCall) (handler : OperationCallback) {sent : Sent} (hrc : sent.rc = ldapSuccess)
    (h : a.used < maxRequests) : Ensures (World.At p a phase) (submit request handler sent)
      fun rc w => rc = .success ∧ w.At p (a.ask handler) phase := by
  unfold submit
  apply (ensures_call request).bind
  intro _
  rw [if_neg (not_not.mpr hrc)]
  exact (ensures_track handler sent.msgid h).bind fun _ => .pure fun _ hw => ⟨rfl, hw⟩

def Agenda.register (a : Agenda) (request : LdapSearchRequest) : Agenda := { a with table := a.table ++ [request] }

theorem World.At.registered (h : w.At p a phase) (hroom : a.table.length + 1 < maxRequests)
    (request : LdapSearchRequest) : (w.registered request).At p (a.register request) phase := by
  obtain ⟨l, htracks, hpending, hqueue, hused, htable⟩ := h.plans
  refine ⟨h.profile, ⟨_, htracks.registered (h.plans.length_table ▸ hroom) request, hpending, hqueue, hused, ?_⟩,
    h.phase⟩
  exact congrArg (· ++ [request]) htable

theorem ensures_search (arguments : SearchArguments) (callback : SearchCallback) (userData : UserData) {sent : Sent}
    (hrc : sent.rc = ldapSuccess) (h : a.used < maxRequests) (ht : a.table.length + 1 < maxRequests) :
    Ensures (World.At p a phase) (search arguments (some callback) userData sent)
      fun rc w => rc = .success ∧
        w.At p ((a.ask .searchOnRead).register ⟨sent.msgid, some callback, userData⟩) phase := by
  unfold search
  apply (ensures_call _).bind
  intro _
  rw [if_neg (not_not.mpr hrc), Option.getD_some]
  intro w hw
  have hissued : (w.issued callback userData sent.msgid).At p a phase :=
    hw.congr (by constructor <;> rfl) hw.profile
  refine ⟨.success, _, ?_, rfl, (hissued.tracked h .searchOnRead sent.msgid).registered ht _⟩
  rw [exec_trackSearch]
  dsimp only
  rw [if_pos (hw.plans.used ▸ h), if_pos (hw.plans.length_table ▸ ht)]

def Profile.enter (p : Profile) (state : LdapConnectionState) : Profile := { p with stateMachine := .live state }

theorem ensures_csmSetState {current : LdapConnectionState} (h : p.stateMachine = .live current)
    (state : LdapConnectionState) :
    Ensures (World.At p a phase) (csmSetState state) fun _ => World.At (p.enter state) a phase := by
  intro w hw
  refine ⟨(), { w.record (.transition current state) with
    connection := { w.connection with stateMachine := .live state } }, ?_, ?_⟩
  · rw [exec_csmSetState, hw.stateMachine, h]
  · refine hw.congr (by constructor <;> rfl) ?_
    rw [← hw.profile]
    rfl

theorem World.phase_eq_outside : w.phase = .outside ↔ w.frame = none := by
  rw [World.phase]
  cases w.frame with
  | none => simp
  | some frame => cases h : frame.top <;> simp [h]

theorem World.phase_eq_reading : w.phase = .reading ↔ w.frame.isSome = true ∧ w.top = none := by
  rw [World.phase, World.top]
  cases w.frame with
  | none => simp
  | some frame => cases h : frame.top <;> simp [h]

theorem World.phase_eq_serving : w.phase = .serving ↔ w.top.isSome = true := by
  rw [World.phase, World.top]
  cases w.frame with
  | none => simp
  | some frame => cases h : frame.top <;> simp [h]

theorem ensures_beginPass : Ensures (World.At p a .outside) beginPass fun _ => World.At p a .reading := by
  intro w hw
  obtain ⟨l, htracks, hplans⟩ := hw.plans
  exact ⟨(), _, rfl, hw.profile, ⟨l, htracks.begin (World.phase_eq_outside.mp hw.phase), hplans⟩, rfl⟩

theorem ensures_releaseTop : Ensures (World.At p a .serving) releaseTop fun _ => World.At p a .reading := by
  intro w hw
  obtain ⟨l, htracks, hplans⟩ := hw.plans
  refine ⟨(), _, rfl, hw.profile, ⟨_, htracks.released, hplans⟩, ?_⟩
  obtain ⟨slot, htop⟩ := Option.isSome_iff_exists.mp (World.phase_eq_serving.mp hw.phase)
  obtain ⟨frame, hframe, -⟩ := Option.bind_eq_some_iff.mp htop
  change World.phase { w.record .released with frame := w.frame.map _ } = _
  rw [World.phase, hframe]
  rfl

theorem World.At.drained {n : ℕ} {table : List LdapSearchRequest} (h : w.At p ⟨[], n, table⟩ phase) :
    requestQueueEmpty w.connection.callqueue = true ∧
      ∃ queue, requestQueuePop w.connection.callqueue w.connection.links = (none, queue) := by
  obtain ⟨l, ⟨slots, hs, rfl⟩, -, hqueue, -⟩ := h.plans
  obtain rfl : slots = [] := List.map_eq_nil_iff.mp (List.map_eq_nil_iff.mp hqueue)
  exact ⟨(requestQueueEmpty_iff hs.represents).mpr rfl, _, hs.represents.pop_nil⟩

theorem World.At.popped {handler : OperationCallback} {handlers : List OperationCallback} {n : ℕ}
    {table : List LdapSearchRequest} (h : w.At p ⟨handler :: handlers, n, table⟩ .reading) :
    ∃ slot queue, requestQueuePop w.connection.callqueue w.connection.links = (some slot, queue) ∧
      (w.popped slot queue).At p ⟨handlers, n, table⟩ .serving ∧
      (w.connection.readRequests slot).onReadOperation = some handler := by
  obtain ⟨hframe, htop⟩ := World.phase_eq_reading.mp h.phase
  obtain ⟨l, htracks, hpending, hqueue, hused, htable⟩ := h.plans
  obtain ⟨slots, hs, hl⟩ := id htracks
  cases slots with
  | nil =>
    subst hl
    cases hqueue
  | cons slot rest =>
    obtain ⟨queue, hpop, -⟩ := hs.represents.pop
    obtain ⟨payload, others, hpayloads, hpayload, hpopped⟩ := htracks.popped hframe htop hpop
    rw [hpayloads] at hqueue
    obtain ⟨hhandler, hothers⟩ := List.cons.inj hqueue
    refine ⟨slot, queue, hpop, ⟨h.profile, ⟨_, hpopped, hpending, hothers, hused, htable⟩, ?_⟩, ?_⟩
    · obtain ⟨frame, hsome⟩ := Option.isSome_iff_exists.mp hframe
      rw [World.phase_eq_serving, World.top, World.popped, hsome]
      rfl
    · rw [← hhandler, hpayload]
      rfl

theorem ensures_dispatchRequest {slot : ℕ} {request : LdapRequest} {handler : OperationCallback} {r : Response}
    (hrequest : request.onReadOperation = some handler)
    (h : Ensures (World.At p a .serving) (handler.handle r) fun _ => World.At p' a' .serving) :
    Ensures (World.At p a .serving) (dispatchRequest slot request r) fun _ => World.At p' a' .reading := by
  unfold dispatchRequest announce
  rw [hrequest]
  refine Ensures.bind (Q := fun _ => World.At p a .serving) ?_ fun _ => ?_
  · refine (ensures_modifyConnection (fun w => by constructor <;> rfl) fun w hw => hw).bind fun _ => ?_
    exact .read fun w _ => ensures_emit _
  · exact h.bind fun _ => ensures_releaseTop

section ReadLoop

variable {responses : List Response} {n : ℕ} {table : List LdapSearchRequest}

theorem ensures_readLoop_nil : Ensures (World.At p ⟨[], n, table⟩ .reading) (readLoop responses)
    fun more w => more = true ∧ w.At p ⟨[], n, table⟩ .reading := by
  intro w hw
  obtain ⟨-, queue, hpop⟩ := hw.drained
  exact ⟨true, w, exec_readLoop_none hpop responses, rfl, hw⟩

/-- A response answers the first request of the agenda. -/
theorem ensures_readLoop_cons {handler : OperationCallback} {handlers : List OperationCallback} {r : Response}
    {Q : Bool → World → Prop} (hany : r.rc ≠ ldapResAny) (hnone : r.rc ≠ ldapResUnsolicited)
    (hhandle : Ensures (World.At p ⟨handlers, n, table⟩ .serving) (handler.handle r) fun _ => World.At p' a' .serving)
    (hrest : Ensures (World.At p' a' .reading) (readLoop responses) Q) :
    Ensures (World.At p ⟨handler :: handlers, n, table⟩ .reading) (readLoop (r :: responses)) Q := by
  intro w hw
  obtain ⟨slot, queue, hpop, hpopped, hhandler⟩ := hw.popped
  rw [exec_readLoop_some hpop]
  have hprocess : Ensures (fun t => t = w.popped slot queue) (processRequest slot r)
      fun more t => more = true ∧ t.At p' a' .reading := by
    unfold processRequest
    refine .get fun t ht => ?_
    subst ht
    refine ((ensures_call _).consequence (by rintro _ rfl; exact hpopped) fun _ _ h => h).bind fun _ => ?_
    rw [if_neg hany, if_neg hnone]
    exact (ensures_dispatchRequest hhandler hhandle).bind fun _ => .pure fun _ ht => ⟨rfl, ht⟩
  refine hprocess.bind_value ?_ _ rfl
  rw [if_pos rfl]
  exact hrest

/-- The pass answers everything on the agenda. -/
theorem ensures_connectionOnRead
    (h : Ensures (World.At p a .reading) (readLoop responses)
      fun more w => more = true ∧ w.At p' ⟨[], n, table⟩ .reading) :
    Ensures (World.At p a .outside) (connectionOnRead responses) fun _ => World.At p' ⟨[], 0, table⟩ .outside := by
  unfold connectionOnRead
  refine ensures_beginPass.bind fun _ => h.bind_value ?_
  rw [if_pos rfl]
  intro t ht
  obtain ⟨l, htracks, hpending, hqueue, -, htable⟩ := ht.plans
  obtain ⟨hlen, -, hfinished⟩ := htracks.finished (.inl ht.drained.1)
  refine ⟨(), _, exec_finishPass _ hlen, ?_, ⟨_, hfinished, rfl, ?_, ?_, htable⟩, rfl⟩
  · obtain ⟨queue, readRequests, he⟩ := LdapConnectionCtx.restored_eq
      { t.connection with nReadRequests := 0 } 0 t.pendingRequests
    unfold World.finished LdapConnectionCtx.finished
    rw [he]
    exact ht.profile
  · rw [hpending]
    rfl
  · rw [hpending]
    rfl

end ReadLoop

end Libdomain.Connection
