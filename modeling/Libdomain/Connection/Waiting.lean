import Libdomain.Connection.Passes
import Libdomain.Connection.Reconnect

/-! # Waiting states

In three states `csm_next_state` does nothing until a read handler has set the machine or
filled the schema. The connection gets on only while a request is queued whose response does
that, and no handler but the last of them is the one to see to it.
-/
namespace Libdomain.Connection
open Libdomain.Queue Libdomain.Program Relation

/-- What the machine can be waiting for. -/
inductive Expectation
  | startTls
  | bind
  | schema

/-- The machine is in a state that `csm_next_state` does not leave by itself. -/
def World.Waits (w : World) : Expectation → Prop
  | .startTls => w.connection.stateMachine = .live .tlsNegotiation
  | .bind => w.connection.stateMachine = .live .bindInProgress
  | .schema =>
    w.connection.stateMachine = .live .checkSchema ∧ ldapSchemaReady w.connection = false

/-- The response to the request is what the machine waits for. -/
def World.Meets (w : World) : Expectation → Payload → Prop
  | .startTls, payload => payload.2 = some .connectionStartTlsOnRead
  | .bind, payload => payload.2 = some .connectionBindOnRead
  | .schema, payload => w.Seeks payload

def World.Expectant (w : World) : Prop :=
  ∀ x, w.Waits x → ∃ request ∈ w.connection.queuedRequests, w.Meets x request.payload

/-- The first value of the response describes a definition of the kind that is still missing. -/
def Response.CompletesSchema (r : Response) (c : LdapConnectionCtx) : Prop :=
  (r.rc = ldapResSearchEntry ∨ r.rc = ldapResSearchResult) ∧
    ∃ index ∈ c.findSearchRequest r.msgid, ∃ entries ∈ readEntries r,
      (∃ value ∈ (schemaValues entries).head?, ∃ d ∈ r.parse value, d.Complete) ∧
        ∃ kind ∈ definitionKinds, (c.searchRequests index).onSearchOperation = some kind.callback ∧
          ∀ other ∈ definitionKinds, other ≠ kind → (c.schema.tables other).Filled

/-- The response lets `connection_bind_on_read` continue the bind. -/
def Response.Continues (r : Response) (c : LdapConnectionCtx) : Prop :=
  r.rc = ldapResBind ∧ r.bindCode c = ldapSaslBindInProgress

/-- The response ends the wait, or has another request sent that does. -/
def World.Ends (w : World) (r : Response) : Expectation → Prop
  | .startTls => r.Secures w.tlsInplace ∨ r.Insecure w.tlsInplace
  | .bind => r.Completes w.connection ∨ r.Refuses w.connection ∨ r.Continues w.connection
  | .schema => r.CompletesSchema w.connection

/-- Another request is tracked whose response the machine waits for. -/
def World.Holds (w : World) (x : Expectation) : Prop :=
  ∃ request ∈ w.connection.queuedRequests ++ w.pendingRequests, w.Meets x request.payload

/-- A late root DSE does not make the machine wait for a schema nobody has asked for. -/
def World.Detects (w : World) (r : Response) : Prop :=
  w.connection.stateMachine = .live .checkSchema → r.rc = ldapResSearchEntry ∨ r.rc = ldapResSearchResult →
    ldapSchemaReady { w.connection with directoryType := r.directoryType w.connection } = true ∨
      w.Holds .schema

/-- A response that reaches a handler ends a wait that no other request could end, and does not
begin one. -/
def World.Served (w : World) (request : LdapRequest) (r : Response) : Prop :=
  (∀ x, w.Waits x → w.Meets x request.payload → w.Holds x ∨ w.Ends r x) ∧
    (request.onReadOperation = some .directoryParseResult → w.Detects r)

def World.Answered (w : World) (slot : ℕ) (r : Response) : Prop :=
  let request := w.connection.readRequests slot
  (r.rc = ldapResAny → r.diagnostics.succeed = true →
      w.Waits .schema → w.Meets .schema request.payload → w.Holds .schema) ∧
    (r.Abandons → ∀ x, w.Waits x → ∃ request ∈ w.connection.queuedRequests, w.Meets x request.payload) ∧
    (r.rc ≠ ldapResAny → r.rc ≠ ldapResUnsolicited → w.Served request r)

def Step.Answered (w : World) : Step → Prop
  | .read responses => (exec beginPass w).2.EachResponse World.Answered responses
  | _ => True

def World.Provided (w : World) (payloads : List Payload) : Prop :=
  ∀ x, w.Waits x → ∃ p ∈ payloads, w.Meets x p

variable {S : SearchCallback → Prop} {w w' : World} {r : Response} {code : OperationReturnCode} {x : Expectation}
  {payloads : List Payload}

theorem ldapSchemaReady_mono {c c' : LdapConnectionCtx} (htype : c'.directoryType = c.directoryType)
    (hschema : ∀ kind, (c.schema.tables kind).Within (c'.schema.tables kind))
    (h : ldapSchemaReady c = true) : ldapSchemaReady c' = true := by
  unfold ldapSchemaReady at h ⊢
  rw [htype]
  cases hd : c.directoryType with
  | openldap =>
    rw [hd] at h
    have hfilled := of_decide_eq_true h
    exact decide_eq_true ⟨(hschema .objectclass).filled hfilled.1, (hschema .attributetype).filled hfilled.2⟩
  | _ => rfl

theorem World.Upholds.waits (h : w.Upholds S w') (hx : w'.Waits x) : w.Waits x := by
  cases x with
  | startTls => exact h.live (by decide) hx
  | bind => exact h.live (by decide) hx
  | schema =>
    refine ⟨h.live (by decide) hx.1, ?_⟩
    by_contra hready
    rw [Bool.not_eq_false] at hready
    exact absurd (ldapSchemaReady_mono h.directoryType h.schema hready) (by simp [hx.2])

theorem World.Upholds.meets (h : w.Upholds S w') {payload : Payload} (hm : w.Meets x payload) :
    w'.Meets x payload := by
  cases x with
  | startTls => exact hm
  | bind => exact hm
  | schema => exact h.seeks hm

theorem World.Upholds.provided (h : w.Upholds S w') {payloads' : List Payload}
    (hpayloads : ∀ p ∈ payloads, p ∈ payloads') (hin : w.Provided payloads) : w'.Provided payloads' := by
  intro x hx
  obtain ⟨p, hp, hm⟩ := hin x (h.waits hx)
  exact ⟨p, hpayloads p hp, h.meets hm⟩

theorem World.Similar.meets (h : w.Similar w') {payload : Payload} (hm : w.Meets x payload) :
    w'.Meets x payload := by
  cases x with
  | startTls => exact hm
  | bind => exact hm
  | schema => exact ⟨hm.1, hm.2.imp fun _ hk => ⟨hk.1, h.grows.searches h.epoch hk.2⟩⟩

theorem World.Similar.waits (h : w.Similar w') (hx : w'.Waits x) : w.Waits x := by
  cases x with
  | startTls => rwa [World.Waits, h.stateMachine] at hx
  | bind => rwa [World.Waits, h.stateMachine] at hx
  | schema =>
    obtain ⟨hs, hready⟩ := hx
    rw [h.stateMachine] at hs
    refine ⟨hs, ?_⟩
    unfold ldapSchemaReady at hready ⊢
    rwa [h.directoryType, h.schema] at hready

theorem ne_csmSetState {state target : LdapConnectionState} (h : target ≠ state) (w : World) :
    (exec (csmSetState target) w).2.connection.stateMachine ≠ .live state := by
  rw [exec_csmSetState]
  cases hs : w.connection.stateMachine with
  | live current =>
    intro he
    exact h (Pointer.live.inj he)
  | null => simp [hs]
  | dangling => simp [hs]

theorem Outcome.left {ready gaveUp : Prop} {target state : LdapConnectionState}
    (h : Outcome w w' ready gaveUp target) (ht : target ≠ state) (he : .error ≠ state)
    (hends : ready ∨ gaveUp) : w'.connection.stateMachine ≠ .live state := by
  cases h with
  | ready _ t _ eq =>
    rw [eq]
    exact ne_csmSetState ht t
  | gaveUp _ _ t _ eq =>
    rw [eq]
    exact ne_csmSetState he t
  | straight hr hg _ => exact absurd hends (by tauto)

theorem queues_continued (h : r.Continues w.connection)
    (he : exec (connectionBindOnRead r) w = (.ok code, w')) : w'.Queues .connectionBindOnRead := by
  obtain ⟨htype, hcode⟩ := h
  rw [connectionBindOnRead, if_pos htype, exec_bind_ok (exec_get w)] at he
  dsimp only at he
  cases hb : w.connection.bindType with
  | interactive =>
    rw [Response.bindCode, hb] at hcode
    dsimp only at hcode
    rw [hb] at he
    obtain ⟨_, s, -, he⟩ := exec_bind_eq_ok he
    rw [exec_bind_ok (exec_call _ s), exec_bind_ok (exec_emit _ _), exec_bind_ok (exec_modifyConnection _ _),
      bindOutcome, if_pos hcode, exec_bind_ok (exec_get _)] at he
    obtain ⟨_, t, htrack, he⟩ := exec_bind_eq_ok he
    cases he
    rw [exec_track] at htrack
    split_ifs at htrack
    · cases htrack
      exact ⟨_, List.mem_append_right _ List.mem_cons_self⟩
    · cases htrack
  | simple =>
    rw [Response.bindCode, hb] at hcode
    exact absurd (htype.symm.trans hcode) (by decide)

theorem filled_of_head {kind : DefinitionKind} {parse : Bytes → Option SchemaDefinition} {values : List Bytes}
    (h : ∃ value ∈ values.head?, ∃ d ∈ parse value, d.Complete)
    (he : exec (untilFailure (appendValueCallback kind.append parse) values) w = (.ok code, w')) :
    (w'.connection.schema.tables kind).Filled := by
  obtain ⟨value, hvalue, d, hd, hcomplete⟩ := h
  cases values with
  | nil => cases hvalue
  | cons first rest =>
    cases hvalue
    rw [untilFailure, exec_bind_ok (exec_appendValueCallback hd w)] at he
    have hrest := upholds_along (S := fun _ => True) (Along.ite
      (c := (if (kind.append w.connection.schema d).1 then .success else .failure) = OperationReturnCode.failure)
      (p := pure OperationReturnCode.failure) Along.pure
      (along_untilFailure (upholds_appendValueCallback kind parse) rest)) { w with
        connection := { w.connection with schema := (kind.append w.connection.schema d).2 } }
    rw [he] at hrest
    exact (hrest.schema kind).filled (knows_append w.connection.schema hcomplete).filled

theorem searchOnRead_filled (h : r.CompletesSchema w.connection)
    (he : exec (searchOnRead r) w = (.ok code, w')) (kind : DefinitionKind) :
    (w'.connection.schema.tables kind).Filled := by
  obtain ⟨htype, index, hfound, entries, hentries, hvalue, own, -, hcallback, hothers⟩ := h
  obtain ⟨t, hvalues, hupholds⟩ := searchOnRead_values (S := fun _ => True) htype hfound hcallback hentries he
  refine (hupholds.schema kind).filled ?_
  by_cases hkind : own = kind
  · subst hkind
    exact filled_of_head hvalue hvalues
  · have hfetched := upholds_along (S := fun _ => True) (along_untilFailure
      (upholds_appendValueCallback own r.parse) (schemaValues entries)) (w.record (.searchCallback index w.epoch
        r.msgid own.callback (w.connection.searchRequests index).userData entries w.connection))
    rw [hvalues] at hfetched
    exact (hfetched.schema kind).filled (hothers kind (mem_definitionKinds kind) (Ne.symm hkind))

theorem exists_payload_iff (requests : List LdapRequest) :
    (∃ request ∈ requests, w.Meets x request.payload) ↔
      ∃ payload ∈ requests.map LdapRequest.payload, w.Meets x payload := by
  constructor
  · rintro ⟨request, hr, hm⟩
    exact ⟨_, List.mem_map_of_mem hr, hm⟩
  · rintro ⟨_, hp, hm⟩
    obtain ⟨request, hr, rfl⟩ := List.mem_map.mp hp
    exact ⟨request, hr, hm⟩

theorem exists_queued_iff (hw : Simulated w) :
    (∃ request ∈ w.connection.queuedRequests, w.Meets x request.payload) ↔
      ∃ payload ∈ (replay w.trace).queue, w.Meets x payload := by
  rw [exists_payload_iff, Tracks.queue_eq hw]

theorem holds_iff (hw : Simulated w) : w.Holds x ↔ ∃ payload ∈ w.owed, w.Meets x payload := by
  rw [World.Holds, exists_payload_iff, World.owed, List.map_append, Tracks.queue_eq hw]

theorem expectant_iff (hw : Simulated w) : w.Expectant ↔ w.Provided (replay w.trace).queue :=
  forall_congr' fun _ => imp_congr_right fun _ => exists_queued_iff hw

theorem handle_ends {handler : OperationCallback} (hends : w.Ends r x) {msgid : Int}
    (hm : w.Meets x (msgid, some handler)) (he : exec (handler.handle r) w = (.ok code, w'))
    (hx : w'.Waits x) : ∃ payload ∈ w'.owed, w'.Meets x payload := by
  have hfinal : (exec (handler.handle r) w).2 = w' := by rw [he]
  cases x with
  | startTls =>
    cases hm
    have hleft : (exec (connectionStartTlsOnRead r) w).2.connection.stateMachine ≠ .live .tlsNegotiation :=
      (outcome_connectionStartTlsOnRead r w).left (by decide) (by decide) hends
    exact absurd (hfinal ▸ hx) hleft
  | bind =>
    cases hm
    have hstopped : ¬(r.Completes w.connection ∨ r.Refuses w.connection) := by
      intro hends
      rcases outcome_connectionBindOnRead r w with houtcome | ⟨-, hfault⟩
      · have hleft : (exec (connectionBindOnRead r) w).2.connection.stateMachine ≠ .live .bindInProgress :=
          houtcome.left (by decide) (by decide) hends
        exact absurd (hfinal ▸ hx) hleft
      · cases hfault.symm.trans he
    rcases hends with hends | hends | hends
    · exact absurd (.inl hends) hstopped
    · exact absurd (.inr hends) hstopped
    · obtain ⟨msgid, hq⟩ := queues_continued hends he
      exact ⟨_, List.mem_append_left _ hq, rfl⟩
  | schema =>
    cases hm.1
    have hfilled := searchOnRead_filled hends he
    have hready : ldapSchemaReady w'.connection = true := by
      unfold ldapSchemaReady
      cases w'.connection.directoryType with
      | openldap => exact decide_eq_true ⟨hfilled .objectclass, hfilled .attributetype⟩
      | _ => rfl
    exact absurd hx.2 (by simp [hready])

theorem optionalTransition_provides (hschema : w.Waits .schema → ∃ payload ∈ w.owed, w.Meets .schema payload)
    (he : exec connectionOptionalTransitionOnError w = (.ok (), w')) : w'.Provided w'.owed := by
  have hupholds := upholds_along (S := fun _ => True) upholds_connectionOptionalTransitionOnError w
  rw [he] at hupholds
  have hstopped : ∀ {state}, state = .tlsNegotiation ∨ state = .bindInProgress →
      w.connection.stateMachine = .live state → w'.connection.stateMachine ≠ .live state := by
    intro state hwait hs
    rw [connectionOptionalTransitionOnError, exec_bind_ok (exec_get w), hs,
      exec_bind_ok (exec_dereference_live state w), if_pos hwait] at he
    have herror : LdapConnectionState.error ≠ state := by
      rcases hwait with rfl | rfl <;> decide
    have hleft := ne_csmSetState herror w
    rwa [he] at hleft
  intro x hx
  have hbefore := hupholds.waits hx
  cases x with
  | startTls => exact absurd hx (hstopped (.inl rfl) hbefore)
  | bind => exact absurd hx (hstopped (.inr rfl) hbefore)
  | schema =>
    obtain ⟨payload, hp, hm⟩ := hschema hbefore
    exact ⟨payload, hupholds.owed payload hp, hupholds.meets hm⟩

theorem directoryParseResult_provides (hin : w.Provided w.owed)
    (hdetects : w.connection.stateMachine = .live .checkSchema →
      r.rc = ldapResSearchEntry ∨ r.rc = ldapResSearchResult →
      ldapSchemaReady { w.connection with directoryType := r.directoryType w.connection } = true ∨
        ∃ payload ∈ w.owed, w.Meets .schema payload)
    (he : exec (directoryParseResult r) w = (.ok code, w')) : w'.Provided w'.owed := by
  rcases directoryParseResult_cases (fun s _ => permitted_true s) he with ⟨htype, rfl⟩ | hupholds
  · intro x hx
    cases x with
    | startTls => exact hin .startTls hx
    | bind => exact hin .bind hx
    | schema =>
      obtain ⟨hs, hready⟩ := hx
      exact (hdetects hs htype).resolve_left (Bool.eq_false_iff.mp hready)
  · exact hupholds.provided hupholds.owed hin

theorem upholds_dispatched (w : World) (slot : ℕ) (request : LdapRequest) (r : Response) :
    w.Upholds S (w.dispatched slot request r) :=
  ⟨fun _ hp => hp, .one rfl trivial, rfl, rfl, rfl, fun _ => .refl _, .inl rfl⟩

/-- Responses that leave nothing waiting in vain provide for what the machine waits for. -/
theorem carries_provided : Carries World.Answered World.Provided where
  similar := by
    intro w w' ps ps' hsimilar hps hin x hx
    obtain ⟨p, hp, hm⟩ := hin x (hsimilar.waits hx)
    exact ⟨p, hps p hp, hsimilar.meets hm⟩
  called := fun _ _ hC => hC
  failed := by
    intro w w' slot r hw hC hany hd hin he
    refine optionalTransition_provides (fun hwait => ?_) he
    obtain ⟨p, hp, hm⟩ := hin .schema hwait
    rcases List.mem_cons.mp hp with rfl | hp
    · exact (holds_iff hw).mp (hC.1 hany hd hwait hm)
    · exact ⟨p, hp, hm⟩
  abandoned := by
    intro w slot r hw hC hr _ x hx
    exact (exists_queued_iff hw).mp (hC.2.1 hr x hx)
  handled := by
    intro w w' slot r handler code hw hC hany hnone hhandler hin he
    have hserved := hC.2.2 hany hnone
    have hannounced := upholds_dispatched (S := fun _ => True) w slot (w.connection.readRequests slot) r
    have hpayload : (w.connection.readRequests slot).payload =
        ((w.connection.readRequests slot).msgid, some handler) := by rw [LdapRequest.payload, hhandler]
    by_cases hdirectory : handler = .directoryParseResult
    · subst hdirectory
      -- The machine does not wait for the response in hand.
      have hothers : w.Provided w.owed := by
        intro x hx
        obtain ⟨p, hp, hm⟩ := hin x hx
        rcases List.mem_cons.mp hp with rfl | hp
        · rw [hpayload] at hm
          cases x with
          | startTls => cases hm
          | bind => cases hm
          | schema => cases hm.1
        · exact ⟨p, hp, hm⟩
      refine directoryParseResult_provides (hannounced.provided hannounced.owed hothers) (fun hs htype => ?_) he
      refine (hserved.2 hhandler hs htype).imp_right fun hheld => ?_
      obtain ⟨p, hp, hm⟩ := (holds_iff hw).mp hheld
      exact ⟨p, hannounced.owed p hp, hannounced.meets hm⟩
    · have hpermitted : ∀ s ∈ r.submissions, s.Permitted fun _ => True := fun s _ => permitted_true s
      have hupholds := upholds_along (upholds_handle hdirectory hpermitted)
        (w.dispatched slot (w.connection.readRequests slot) r)
      rw [he] at hupholds
      intro x hx
      have hbefore : w.Waits x := hannounced.waits (hupholds.waits hx)
      have hheld : (∃ p ∈ w.owed, w.Meets x p) ∨
          w.Meets x (w.connection.readRequests slot).payload ∧ w.Ends r x := by
        obtain ⟨p, hp, hm⟩ := hin x hbefore
        rcases List.mem_cons.mp hp with rfl | hp
        · exact (hserved.1 x hbefore hm).imp (holds_iff hw).mp fun hends => ⟨hm, hends⟩
        · exact .inl ⟨p, hp, hm⟩
      rcases hheld with ⟨p, hp, hm⟩ | ⟨hm, hends⟩
      · exact ⟨p, hupholds.owed p (hannounced.owed p hp), hupholds.meets (hannounced.meets hm)⟩
      · have hannouncedEnds : (w.dispatched slot (w.connection.readRequests slot) r).Ends r x := by
          cases x <;> exact hends
        exact handle_ends hannouncedEnds (hpayload ▸ hannounced.meets hm) he hx

theorem meets_of_awaits {kind : DefinitionKind} (h : w.Awaits kind.callback) :
    ∃ payload ∈ (replay w.trace).queue, w.Meets .schema payload := by
  obtain ⟨msgid, hq, hissued⟩ := h
  refine ⟨(msgid, some .searchOnRead), hq, rfl, kind, mem_definitionKinds kind, ?_⟩
  exact List.mem_filterMap.mpr ⟨_, hissued, if_pos ⟨rfl, rfl, rfl⟩⟩

/-- A tick that enters a waiting state has queued what the state waits for. -/
theorem TickEnters.provides {state : LdapConnectionState} (h : TickEnters w state)
    (hx : World.Waits { w with connection := { w.connection with stateMachine := .live state } } x) :
    ∃ payload ∈ (replay w.trace).queue, w.Meets x payload := by
  have hqueued : ∀ {handler}, w.Queues handler → (∀ msgid, w.Meets x (msgid, some handler)) →
      ∃ payload ∈ (replay w.trace).queue, w.Meets x payload :=
    fun ⟨msgid, hq⟩ hm => ⟨(msgid, _), hq, hm msgid⟩
  cases x with
  | startTls =>
    have hstate : state = .tlsNegotiation := Pointer.live.inj hx
    cases h with
    | startTls _ _ queued => exact hqueued queued fun _ => rfl
    | bind code => cases code <;> cases hstate
    | _ => cases hstate
  | bind =>
    have hstate : state = .bindInProgress := Pointer.live.inj hx
    cases h with
    | bind code _ _ queued =>
      cases code with
      | operationInProgress => exact hqueued (queued (.inr rfl)) fun _ => rfl
      | _ => cases hstate
    | _ => cases hstate
  | schema =>
    have hstate : state = .checkSchema := Pointer.live.inj hx.1
    cases h with
    | requested _ loaded =>
      have htype : w.connection.directoryType = .openldap := by
        have hready := hx.2
        unfold ldapSchemaReady at hready
        cases hd : w.connection.directoryType with
        | openldap => rfl
        | _ =>
          dsimp only at hready
          rw [hd] at hready
          cases hready
      have hawaits : w.Awaits DefinitionKind.attributetype.callback := (loaded (.inl htype)).1
      exact meets_of_awaits hawaits
    | bind code => cases code <;> cases hstate
    | _ => cases hstate

theorem TickStride.provided (h : TickStride w w') (hin : w.Provided (replay w.trace).queue) :
    w'.Provided (replay w'.trace).queue := by
  cases h with
  | issue h => exact h.upholds.provided h.upholds.queue hin
  | running state => exact (upholds_running (S := fun _ => True) w).provided (fun _ => id) hin
  | enter state enters =>
    rw [exec_csmSetState]
    cases hs : w.connection.stateMachine with
    | live current =>
      intro x hx
      obtain ⟨payload, hp, hm⟩ := enters.provides (x := x) (by cases x <;> exact hx)
      exact ⟨payload, hp, by cases x <;> exact hm⟩
    | null => exact hin
    | dangling => exact hin

theorem live_reconnect (hs : w.connection.stateMachine = .live .error) (i : TickInput) {state : LdapConnectionState}
    (hstate : (exec (reconnect i) w).2.connection.stateMachine = .live state) : state = .init ∨ state = .error := by
  by_cases hd : w.connection.ldapDefaults = .dangling
  · rw [exec_reconnect_dangling hd] at hstate
    cases hs.symm.trans hstate
    exact .inr rfl
  · rw [exec_reconnect hs hd] at hstate
    dsimp only at hstate
    split_ifs at hstate with hn
    · cases hi : i.configure with
      | none =>
        rw [hi] at hstate
        cases hstate
        exact .inl rfl
      | some failure =>
        rw [hi, stateMachine_reconnected, hs] at hstate
        cases failure <;> cases hstate <;> exact .inl rfl
    · cases hs.symm.trans hstate
      exact .inr rfl

theorem not_waits_reconnect (hs : w.connection.stateMachine = .live .error) (i : TickInput) :
    ¬(exec (reconnect i) w).2.Waits x := by
  intro hx
  cases x with
  | startTls => exact absurd (live_reconnect hs i hx) (by decide)
  | bind => exact absurd (live_reconnect hs i hx) (by decide)
  | schema => exact absurd (live_reconnect hs i hx.1) (by decide)

theorem step_expectant (step : Step) (hw : Simulated w) (hw' : Simulated w') (hf : w.frame = none)
    (ha : step.Answered w) (hin : w.Expectant) (he : exec step.perform w = (.ok (), w')) : w'.Expectant := by
  have hfinal : (exec step.perform w).2 = w' := by rw [he]
  have hprovided : w.Provided (replay w.trace).queue := (expectant_iff hw).mp hin
  rw [expectant_iff hw']
  cases step with
  | tick i =>
    by_cases hs : w.connection.stateMachine = .live .error
    · rw [exec_tick_reconnect hs] at hfinal
      exact fun x hx => absurd (hfinal ▸ hx) (not_waits_reconnect hs i)
    · have htick : Follows TickStride (fun w => w.connection.stateMachine ≠ .live .error)
          (Step.tick i).perform (fun _ _ => True) :=
        Follows.bind (strides_csmNextState i) fun _ => Along.pure.follows
      have hkept := htick.invariant (I := fun w => w.Provided (replay w.trace).queue)
        (fun _ _ h hi => h.provided hi) hs hprovided
      rwa [hfinal] at hkept
  | read responses => exact carries_provided.connectionOnRead hw hf ha hprovided he
  | submit submission =>
    have hperform : Along (World.Upholds fun _ => True) (Step.submit submission).perform :=
      Along.bind (upholds_perform (permitted_true submission)) fun _ => Along.pure
    have hupholds := upholds_along hperform w
    rw [hfinal] at hupholds
    exact hupholds.provided hupholds.queue hprovided
  | installErrorHandler =>
    cases he
    exact (upholds_installErrorHandler (S := fun _ => True) w).provided (fun _ => id) hprovided

/-- As long as no response leaves the machine waiting in vain, a waiting machine always has
a request in the call queue to wait for. -/
theorem run_expectant (config : LdapConnectionConfig) (path : Option Bytes) {steps : List Step}
    (ha : EachStep (fun w step => step.Answered w) steps (.initial config path))
    (he : run config path steps = (.ok (), w)) : w.Expectant := by
  refine performSteps_carry (fun step s t hs ht hf hmeets hin hperform =>
    step_expectant step hs ht hf hmeets hin hperform) (simulated_initial config path) rfl ha ?_ he
  intro x hx
  cases x with
  | startTls => cases hx
  | bind => cases hx
  | schema => cases hx.1

instance {P : Expectation → Prop} [DecidablePred P] : Decidable (∀ x, P x) :=
  decidable_of_iff (P .startTls ∧ P .bind ∧ P .schema)
    ⟨fun h x => by cases x <;> tauto, fun h => ⟨h _, h _, h _⟩⟩

instance (w : World) : DecidablePred w.Waits
  | .startTls => inferInstanceAs (Decidable (w.connection.stateMachine = .live .tlsNegotiation))
  | .bind => inferInstanceAs (Decidable (w.connection.stateMachine = .live .bindInProgress))
  | .schema => inferInstanceAs (Decidable (_ ∧ _))

instance (w : World) (x : Expectation) : DecidablePred (w.Meets x) := fun payload =>
  match x with
  | .startTls => inferInstanceAs (Decidable (payload.2 = some .connectionStartTlsOnRead))
  | .bind => inferInstanceAs (Decidable (payload.2 = some .connectionBindOnRead))
  | .schema => inferInstanceAs (Decidable (w.Seeks payload))

instance (tables : DefinitionTables) : Decidable tables.Filled := inferInstanceAs (Decidable (_ < _))

instance (d : SchemaDefinition) : Decidable d.Complete := inferInstanceAs (Decidable (_ ∧ _))

instance (r : Response) (c : LdapConnectionCtx) : Decidable (r.CompletesSchema c) :=
  inferInstanceAs (Decidable (_ ∧ _))

instance (r : Response) (c : LdapConnectionCtx) : Decidable (r.Continues c) :=
  inferInstanceAs (Decidable (_ ∧ _))

instance (r : Response) (tls : Bool) : Decidable (r.Insecure tls) :=
  inferInstanceAs (Decidable (_ ∧ _ ∧ _))

instance (r : Response) (c : LdapConnectionCtx) : Decidable (r.Refuses c) :=
  inferInstanceAs (Decidable (_ ∧ _ ∧ _ ∧ _ ∧ ∃ code ∈ r.diagnostics.resultCode, code ≠ ldapSuccess))

instance (w : World) (r : Response) : DecidablePred (w.Ends r)
  | .startTls => inferInstanceAs (Decidable (_ ∨ _))
  | .bind => inferInstanceAs (Decidable (_ ∨ _ ∨ _))
  | .schema => inferInstanceAs (Decidable (r.CompletesSchema w.connection))

instance (w : World) : DecidablePred w.Holds := fun x =>
  inferInstanceAs (Decidable (∃ request ∈ w.connection.queuedRequests ++ w.pendingRequests,
    w.Meets x request.payload))

instance (w : World) (r : Response) : Decidable (w.Detects r) := inferInstanceAs (Decidable (_ → _ → _))

instance (w : World) (request : LdapRequest) (r : Response) : Decidable (w.Served request r) :=
  inferInstanceAs (Decidable ((∀ _, _ → _ → _) ∧ (_ → _)))

instance (w : World) (slot : ℕ) (r : Response) : Decidable (w.Answered slot r) :=
  inferInstanceAs (Decidable ((_ → _ → _ → _ → _) ∧ (_ ∧ _ → ∀ _, _ → _) ∧ (_ → _ → _)))

instance (w : World) : DecidablePred (Step.Answered w)
  | .tick _ => isTrue trivial
  | .read responses => inferInstanceAs (Decidable ((exec beginPass w).2.EachResponse World.Answered responses))
  | .submit _ => isTrue trivial
  | .installErrorHandler => isTrue trivial

/-- StartTLS, a bind and the detection of an OpenLDAP directory, up to the two schema searches. -/
def searchingSteps : List Step :=
  [.tick { startTls := ⟨ldapSuccess, 1⟩ }, .read [{ rc := ldapResExtended, msgid := 1 }],
    .tick { bind := ⟨ldapSaslBindInProgress, 2⟩ },
    .read [{ rc := ldapResBind, msgid := 2, bind := ⟨ldapSuccess, 2⟩ }],
    .tick {}, .tick { directory := ⟨ldapSuccess, 3⟩ },
    .read [{ rc := ldapResSearchEntry, msgid := 3, chain := [⟨some [], [(ascii "objectClass", [])]⟩] }],
    .tick {}, .tick { firstSearch := ⟨ldapSuccess, 4⟩, secondSearch := ⟨ldapSuccess, 5⟩ }]

def attributeTypesResponse (msgid : Int) : Response where
  rc := ldapResSearchEntry
  msgid := msgid
  chain := [⟨some [], [(ascii "attributeTypes", [ascii "cn"])]⟩]
  parse := fun value => some ⟨some value, some [value]⟩

def halfwaySteps : List Step :=
  searchingSteps ++ [.read [attributeTypesResponse 4, { rc := ldapResUnsolicited }]]

/-- The server answers both searches without an entry: the result is the only message. -/
def emptySteps : List Step :=
  searchingSteps ++ [.read ([4, 5].map fun msgid =>
    { rc := ldapResSearchResult, msgid := msgid, chain := [⟨some [], []⟩] })]

section Runs

-- Only the kernel is to evaluate the runs.
attribute [local irreducible] run

theorem run_expectant_halfway :
    (run ⟨true, .interactive⟩ none halfwaySteps).2.Waits .schema ∧
      (run ⟨true, .interactive⟩ none halfwaySteps).2.Expectant :=
  have hreturn : (run ⟨true, .interactive⟩ none halfwaySteps).1 = .ok () := by decide +kernel
  ⟨by decide +kernel,
    run_expectant ⟨true, .interactive⟩ none (by decide +kernel) (Prod.ext hreturn rfl)⟩

/-- The machine waits for a schema that nobody is going to send. -/
theorem run_not_expectant_empty : ∃ w, run ⟨true, .interactive⟩ none emptySteps = (.ok (), w) ∧ ¬w.Expectant := by
  have hreturn : (run ⟨true, .interactive⟩ none emptySteps).1 = .ok () := by decide +kernel
  refine ⟨_, Prod.ext hreturn rfl, fun hexpectant => ?_⟩
  have hwaits : (run ⟨true, .interactive⟩ none emptySteps).2.Waits .schema := by decide +kernel
  have hempty : (run ⟨true, .interactive⟩ none emptySteps).2.connection.queuedRequests = [] := by
    decide +kernel
  obtain ⟨request, hr, -⟩ := hexpectant .schema hwaits
  rw [hempty] at hr
  cases hr

end Runs

end Libdomain.Connection
