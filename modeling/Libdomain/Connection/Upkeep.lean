import Libdomain.Connection.Confinement
import Libdomain.Connection.Reconnect

/-! # What a tick does to the handle and the event sources

A tick outside the error state registers the event handlers at most once. It releases the
handle when StartTLS or a bind is refused, and then enters the error state; when the handlers
cannot be installed it releases the handle twice.
-/
namespace Libdomain.Connection
open Libdomain.Queue Libdomain.Program Relation

def InvalidDescriptor (descriptor : Option Int) : Prop := ∀ fd, descriptor = some fd → fd < 0

def World.installed (w : World) : World :=
  { w with
    connection := { w.connection with
      readEvent := some w.events, writeEvent := some (w.events + 1), handlersInstalled := true }
    events := w.events + 2
    trace := .vertoAdd (w.events + 1) :: .vertoAdd w.events :: w.trace }

theorem exec_ensureHandlers (descriptor : Option Int) (w : World) :
    exec (ensureHandlers descriptor) w = (.ok .success, w) ∨
      w.connection.handlersInstalled = false ∧ exec (ensureHandlers descriptor) w = (.ok .success, w.installed) ∨
      w.connection.handlersInstalled = false ∧ InvalidDescriptor descriptor ∧
        exec (ensureHandlers descriptor) w = (.ok .failure, w.unbound) := by
  rw [ensureHandlers, exec_bind_ok (exec_get w)]
  cases hinstalled : w.connection.handlersInstalled with
  | true => exact .inl rfl
  | false =>
    refine .inr ?_
    cases descriptor with
    | none => exact .inr ⟨rfl, by simp [InvalidDescriptor], rfl⟩
    | some fd =>
      by_cases hfd : fd < 0
      · refine .inr ⟨rfl, by simpa [InvalidDescriptor] using hfd, ?_⟩
        simp only [connectionInstallHandlers, if_pos hfd]
        rfl
      · refine .inl ⟨rfl, ?_⟩
        simp only [connectionInstallHandlers, if_neg hfd]
        rfl

/-- Requests have been sent, and the handlers may have been installed in between. -/
inductive World.Prepares (w w' : World) : Prop
  | sends (h : w.Within Event.Sends w')
  | installs (t : World) (h : w.Within Event.Sends t) (missing : t.connection.handlersInstalled = false)
      (h' : t.installed.Within Event.Sends w')

variable {w w' w'' : World} {p : Action OperationReturnCode}

theorem World.Prepares.sends_after (h : w.Prepares w') (h' : w'.Within Event.Sends w'') : w.Prepares w'' := by
  cases h with
  | sends h => exact .sends (h.trans h')
  | installs t h missing hafter => exact .installs t h missing (hafter.trans h')

theorem World.Prepares.after_sends (h : w.Within Event.Sends w') (h' : w'.Prepares w'') : w.Prepares w'' := by
  cases h' with
  | sends h' => exact .sends (h.trans h')
  | installs t ht missing hafter => exact .installs t (h.trans ht) missing hafter

theorem exec_dereference {α : Type} (pointer : Pointer α) (w : World) :
    (∃ value, exec (dereference pointer) w = (.ok value, w)) ∨
      exec (dereference pointer) w = (.error .invalidPointer, w) := by
  cases pointer with
  | live value => exact .inl ⟨value, rfl⟩
  | null => exact .inr rfl
  | dangling => exact .inr rfl

/-- What StartTLS or a bind does to the handle; `reaches` says that the handlers have to be
installed, but cannot be. -/
inductive Sending (w : World) (reaches : Prop) : Except Fault OperationReturnCode × World → Prop
  | kept (result : Except Fault OperationReturnCode) (t : World) (h : w.Prepares t) : Sending w reaches (result, t)
  | released (t : World) (h : w.Within Event.Sends t) : Sending w reaches (.ok .failure, t.unbound)
  | twice (t : World) (h : w.Within Event.Sends t) (reached : reaches) :
      Sending w reaches (.ok .failure, t.unbound.unbound)

theorem Sending.after {reaches reaches' : Prop} {result : Except Fault OperationReturnCode × World}
    (h : w.Within Event.Sends w') (h' : Sending w' reaches result) (hr : reaches → reaches') :
    Sending w reaches' result := by
  cases h' with
  | kept result t ht => exact .kept result t (.after_sends h ht)
  | released t ht => exact .released t (h.trans ht)
  | twice t ht reached => exact .twice t (h.trans ht) (hr reached)

theorem Sending.of_confined {reaches : Prop} (h : Confined Event.Sends p) (w : World) :
    Sending w reaches (exec p w) :=
  .kept (exec p w).1 (exec p w).2 (.sends (h.within w))

theorem sending_refused (reaches : Prop) (w : World) :
    Sending w reaches (exec (do ldapUnbind; return .failure) w) := .released w (.refl w)

theorem sending_trackWithHandlers (handler : OperationCallback) (msgid : Int) (descriptor : Option Int)
    (code : OperationReturnCode) (w : World) :
    Sending w (w.connection.handlersInstalled = false ∧ InvalidDescriptor descriptor)
      (exec (trackWithHandlers handler msgid descriptor code) w) := by
  have htrack : Confined Event.Sends (do track handler msgid; return code) :=
    Along.bind (sends_track handler msgid) fun _ => Along.pure
  unfold trackWithHandlers
  rcases exec_ensureHandlers descriptor w with hensure | ⟨hmissing, hensure⟩ | ⟨hmissing, hinvalid, hensure⟩
  · rw [exec_bind_ok hensure, if_neg (by simp)]
    exact .of_confined htrack w
  · rw [exec_bind_ok hensure, if_neg (by simp)]
    exact .kept _ _ (.installs w (.refl w) hmissing (htrack.within w.installed))
  · rw [exec_bind_ok hensure, if_pos (by simp)]
    exact .twice w (.refl w) ⟨hmissing, hinvalid⟩

theorem sending_connectionStartTls (sent : Sent) (descriptor : Option Int) (w : World) :
    Sending w (w.connection.handlersInstalled = false ∧ sent.rc = ldapSuccess ∧ InvalidDescriptor descriptor)
      (exec (connectionStartTls sent descriptor) w) := by
  have hcall := (sends_call .startTls).within w
  rw [connectionStartTls, exec_bind_ok (exec_call _ w)]
  by_cases hrc : sent.rc = ldapSuccess
  · rw [if_neg (not_not.mpr hrc)]
    exact .after hcall (sending_trackWithHandlers _ _ _ _ _) fun h => ⟨h.1, hrc, h.2⟩
  · rw [if_pos hrc]
    exact .after hcall (sending_refused False _) False.elim

theorem sending_bind {k : Unit → Action OperationReturnCode} {reaches : Prop}
    (h : ∀ t, w.Within Event.Sends t → Sending t reaches (exec (k ()) t)) :
    Sending w reaches (exec (do
      emit (.bindInvoked (← get).tlsInplace)
      let _ ← dereference (← get).connection.ldapDefaults
      k ()) w) := by
  have hinvoked := (confined_emit (p := Event.Sends) (e := .bindInvoked w.tlsInplace) fun _ => trivial).within w
  rw [exec_bind_ok (exec_get w), exec_bind_ok (exec_emit _ w), exec_bind_ok (exec_get _)]
  rcases exec_dereference w.connection.ldapDefaults (w.record (.bindInvoked w.tlsInplace)) with ⟨_, hfound⟩ | hlost
  · exact exec_bind_ok hfound ▸ .after hinvoked (h _ hinvoked) id
  · exact exec_bind_error hlost ▸ .kept _ _ (.sends hinvoked)

/-- Both binds fail on the descriptor only once they have been accepted. -/
theorem sending_bindSent (c : LdapCall) (sent : Sent) (descriptor : Option Int) {code : OperationReturnCode}
    {refused accepted : Prop} [Decidable refused] (haccepted : ¬refused → accepted) (w : World) :
    Sending w (w.connection.handlersInstalled = false ∧ accepted ∧ InvalidDescriptor descriptor) (exec (do
      emit (.bindInvoked (← get).tlsInplace)
      let _ ← dereference (← get).connection.ldapDefaults
      call c
      if sent.rc = ldapXConnecting then return OperationReturnCode.repeatLastOperation
      else if refused then
        ldapUnbind
        return .failure
      else trackWithHandlers .connectionBindOnRead sent.msgid descriptor code) w) := by
  refine sending_bind (k := fun _ => do
    call c
    if sent.rc = ldapXConnecting then return .repeatLastOperation
    else if refused then
      ldapUnbind
      return .failure
    else trackWithHandlers .connectionBindOnRead sent.msgid descriptor code) ?_
  intro t ht
  have hcall := (sends_call c).within t
  rw [exec_bind_ok (exec_call _ t)]
  by_cases hconnecting : sent.rc = ldapXConnecting
  · rw [if_pos hconnecting]
    exact .kept _ _ (.sends hcall)
  · rw [if_neg hconnecting]
    by_cases hrefused : refused
    · rw [if_pos hrefused]
      exact .after hcall (sending_refused False _) False.elim
    · rw [if_neg hrefused]
      refine .after hcall (sending_trackWithHandlers _ _ _ _ _) fun h => ?_
      exact ⟨ht.handlersInstalled.symm.trans h.1, haccepted hrefused, h.2⟩

theorem sending_connectionSaslBind (sent : Sent) (descriptor : Option Int) (w : World) :
    Sending w (w.connection.handlersInstalled = false ∧ sent.rc ∈ BindType.simple.accepts ∧ InvalidDescriptor descriptor)
      (exec (connectionSaslBind sent descriptor) w) := by
  apply sending_bindSent .saslBind
  intro hrc
  simp [BindType.accepts, not_not.mp hrc]

theorem sending_connectionLdapBind (sent : Sent) (descriptor : Option Int) (w : World) :
    Sending w (w.connection.handlersInstalled = false ∧ sent.rc ∈ BindType.interactive.accepts ∧
      InvalidDescriptor descriptor) (exec (connectionLdapBind sent descriptor) w) := by
  apply sending_bindSent .saslInteractiveBind
  intro hrc
  simp only [BindType.accepts, List.mem_cons, List.not_mem_nil]
  tauto

theorem sending_connectionBind (i : TickInput) (w : World) :
    Sending w (w.connection.handlersInstalled = false ∧ i.bind.rc ∈ w.connection.bindType.accepts ∧
      InvalidDescriptor i.descriptor) (exec (connectionBind i) w) := by
  rw [connectionBind, exec_bind_ok (exec_get w)]
  cases w.connection.bindType with
  | interactive => exact sending_connectionLdapBind i.bind i.descriptor w
  | simple => exact sending_connectionSaslBind i.bind i.descriptor w

def World.Installs (w : World) (i : TickInput) : Prop :=
  w.connection.handlersInstalled = false ∧
    (w.connection.stateMachine = .live .init ∧ w.connection.config.useStartTls = true ∧
        i.startTls.rc = ldapSuccess ∨
      w.connection.stateMachine = .live .transportReady ∧ i.bind.rc ∈ w.connection.bindType.accepts)

instance (descriptor : Option Int) : Decidable (InvalidDescriptor descriptor) :=
  match descriptor with
  | none => isTrue (by simp [InvalidDescriptor])
  | some fd => decidable_of_iff (fd < 0) (by simp [InvalidDescriptor])

instance (w : World) (i : TickInput) : Decidable (w.Installs i) := inferInstanceAs (Decidable (_ ∧ _))

def Event.Notes (_ : Option ℕ) : Event → Prop
  | .bindReturned _ | .transition .. => True
  | _ => False

/-- The error state has been entered, without any further call. -/
structure World.GivesUp (w w' : World) : Prop where
  within : w.Within Event.Notes w'
  state : w'.connection.stateMachine = .live .error

/-- What a tick outside the error state does to the handle and the event sources. -/
inductive Upkeep (w : World) (i : TickInput) (w' : World) : Prop
  | kept (h : w.Prepares w')
  | released (t : World) (h : w.Within Event.Sends t) (givesUp : t.unbound.GivesUp w')
  | twice (t : World) (h : w.Within Event.Sends t) (installs : w.Installs i)
      (invalid : InvalidDescriptor i.descriptor) (givesUp : t.unbound.unbound.GivesUp w')

theorem Event.Notes.sends {handle : Option ℕ} {e : Event} (h : e.Notes handle) : e.Sends handle := by
  cases e <;> first | exact h | exact h.elim

theorem givesUp_setState (code : OperationReturnCode) {state : LdapConnectionState}
    (hs : w.connection.stateMachine = .live state) :
    w.GivesUp (exec (do csmSetState .error; return code) w).2 := by
  rw [exec_bind, exec_csmSetState, hs]
  exact ⟨⟨rfl, rfl, rfl, rfl, rfl, rfl, .one rfl trivial⟩, rfl⟩

theorem World.GivesUp.after (h : w.Within Event.Notes w') (h' : w'.GivesUp w'') : w.GivesUp w'' :=
  ⟨h.trans h'.within, h'.state⟩

theorem upkeep_of_sending {reaches : Prop} {i : TickInput} (state : LdapConnectionState)
    {k : OperationReturnCode → Action OperationReturnCode} (h : Sending w reaches (exec p w))
    (hreach : reaches → w.Installs i ∧ InvalidDescriptor i.descriptor)
    (hs : (exec p w).2.connection.stateMachine = .live state) (hk : ∀ code, Confined Event.Sends (k code))
    (hfail : ∀ t : World, t.connection.stateMachine = .live state → t.GivesUp (exec (k .failure) t).2) :
    Upkeep w i (exec (p >>= k) w).2 := by
  rcases he : exec p w with ⟨result, u⟩
  rw [he] at h hs
  cases h with
  | kept _ _ h =>
    cases result with
    | error fault =>
      rw [exec_bind_error he]
      exact .kept h
    | ok code =>
      rw [exec_bind_ok he]
      exact .kept (h.sends_after ((hk code).within u))
  | released t h =>
    rw [exec_bind_ok he]
    exact .released t h (hfail _ hs)
  | twice t h reached =>
    rw [exec_bind_ok he]
    exact .twice t h (hreach reached).1 (hreach reached).2 (hfail _ hs)

theorem upkeep_of_confined {i : TickInput} (h : Confined Event.Sends p) : Upkeep w i (exec p w).2 :=
  .kept (.sends (h.within w))

theorem stateMachine_of_issue (h : ReflTransGen Issue w w') :
    w'.connection.stateMachine = w.connection.stateMachine := by
  induction h with
  | refl => rfl
  | tail _ hstep ih => exact hstep.calm.agrees.stateMachine.trans ih

theorem upkeep_init (i : TickInput) (hs : w.connection.stateMachine = .live .init)
    (htls : w.connection.config.useStartTls = true) :
    Upkeep w i (exec (do
      let rc ← connectionStartTls i.startTls i.descriptor
      csmSetState (if rc = .success then .tlsNegotiation else .error)
      return .success : Action OperationReturnCode) w).2 := by
  apply upkeep_of_sending .init (sending_connectionStartTls i.startTls i.descriptor w)
  · intro ⟨hmissing, hrc, hinvalid⟩
    exact ⟨⟨hmissing, .inl ⟨hs, htls, hrc⟩⟩, hinvalid⟩
  · exact (stateMachine_of_issue (along_connectionStartTls i.startTls i.descriptor w)).trans hs
  · exact fun code => sends_setState _ _
  · exact fun t ht => givesUp_setState _ ht

theorem upkeep_transportReady (i : TickInput) (hs : w.connection.stateMachine = .live .transportReady) :
    Upkeep w i (exec (do
      let rc ← connectionBind i
      emit (.bindReturned rc)
      csmSetState (stateAfterBind rc)
      return rc) w).2 := by
  apply upkeep_of_sending .transportReady (sending_connectionBind i w)
  · intro ⟨hmissing, haccepted, hinvalid⟩
    exact ⟨⟨hmissing, .inr ⟨hs, haccepted⟩⟩, hinvalid⟩
  · exact (stateMachine_of_issue (follows_connectionBind i w hs).1).trans hs
  · intro code
    apply Along.bind (confined_emit fun _ => trivial)
    exact fun _ => sends_setState _ _
  · intro t ht
    have hnoted : t.Within Event.Notes (t.record (.bindReturned .failure)) :=
      ⟨rfl, rfl, rfl, rfl, rfl, rfl, .one rfl trivial⟩
    rw [exec_bind_ok (exec_emit _ t)]
    exact .after hnoted (givesUp_setState _ ht)

theorem sends_searchDefinitions (base : Bytes) (first second : Sent) :
    Confined Event.Sends (searchDefinitions base first second) := by
  unfold searchDefinitions
  apply Along.bind (sends_search _ _ _ _)
  intro code
  apply Along.ite Along.pure
  apply Along.bind (sends_search _ _ _ _)
  intro code
  exact Along.ite Along.pure Along.pure

theorem sends_ldapSchemaLoad (first second : Sent) : Confined Event.Sends (ldapSchemaLoad first second) := by
  unfold ldapSchemaLoad
  apply Along.get
  intro w
  cases w.connection.directoryType with
  | openldap => exact sends_searchDefinitions _ _ _
  | activeDirectory =>
    apply Along.get
    intro w
    cases w.schemaEntryPath with
    | none =>
      apply Along.bind (sends_search _ _ _ _)
      intro code
      exact Along.ite Along.pure Along.pure
    | some path => exact sends_searchDefinitions path _ _
  | freeIpa => exact Along.pure
  | unknown => exact Along.pure
  | uninitialized => exact Along.pure

theorem upkeep_csmNextState (i : TickInput) (hs : w.connection.stateMachine ≠ .live .error) :
    Upkeep w i (exec (csmNextState i) w).2 := by
  have hstart : ∀ state, w.connection.stateMachine = .live state →
      exec (dereference w.connection.stateMachine) w = (.ok state, w) := by
    intro state hlive
    rw [hlive]
    rfl
  rw [csmNextState, exec_bind_ok (exec_get w)]
  cases hlive : w.connection.stateMachine with
  | null => exact .kept (.sends (.refl w))
  | dangling => exact .kept (.sends (.refl w))
  | live state =>
    rw [← hlive, exec_bind_ok (hstart state hlive)]
    cases state with
    | init =>
      dsimp only
      rw [exec_bind_ok (exec_get w)]
      by_cases htls : w.connection.config.useStartTls = true
      · rw [if_pos htls]
        exact upkeep_init i hlive htls
      · rw [if_neg htls]
        exact upkeep_of_confined (sends_setState _ _)
    | tlsNegotiation => exact .kept (.sends (.refl w))
    | transportReady => exact upkeep_transportReady i hlive
    | bindInProgress => exact .kept (.sends (.refl w))
    | bound => exact upkeep_of_confined (sends_setState _ _)
    | detectDirectory =>
      apply upkeep_of_confined
      apply Along.get
      intro w
      apply Along.ite
      · exact Along.bind (sends_submit _ _ _) fun _ => sends_setState _ _
      · exact sends_setState _ _
    | requestSchema =>
      exact upkeep_of_confined (Along.bind (sends_ldapSchemaLoad _ _) fun _ => sends_setState _ _)
    | checkSchema =>
      apply upkeep_of_confined
      apply Along.get
      intro w
      apply Along.ite
      · exact sends_setState _ _
      · exact Along.pure
    | run =>
      apply upkeep_of_confined
      exact Along.bind (confined_modifyConnection fun _ => ⟨rfl, rfl, rfl, rfl⟩) fun _ => Along.pure
    | error => exact absurd hlive hs

theorem performSteps_ends {I J : World → Prop} {C : World → Step → Prop} (hij : ∀ w, I w → J w)
    (hstep : ∀ w step, C w step → I w → J (exec step.perform w).2 ∧
      ((exec step.perform w).1 = .ok () → I (exec step.perform w).2))
    (steps : List Step) (hC : EachStep C steps w) (hi : I w) : J (exec (performSteps steps) w).2 := by
  induction steps generalizing w with
  | nil => exact hij w hi
  | cons step rest ih =>
    obtain ⟨hfirst, hrest⟩ := hC
    obtain ⟨hstuck, hnext⟩ := hstep w step hfirst hi
    rw [exec_performSteps_cons]
    rcases he : exec step.perform w with ⟨result, t⟩
    rw [he] at hstuck hnext
    cases result with
    | error fault =>
      rw [exec_bind_error he]
      exact hstuck
    | ok _ =>
      rw [exec_bind_ok he]
      exact ih (hrest t he) (hnext rfl)

theorem performSteps_keeps {I : World → Prop} {C : World → Step → Prop}
    (hstep : ∀ w step, C w step → I w → I (exec step.perform w).2) (steps : List Step)
    (hC : EachStep C steps w) (hi : I w) : I (exec (performSteps steps) w).2 :=
  performSteps_ends (fun _ hi => hi) (fun w step hc hi => ⟨hstep w step hc hi, fun _ => hstep w step hc hi⟩)
    steps hC hi

theorem pairwise_append_of_forall {α : Type} {R : α → α → Prop} {new old : List α} (h : old.Pairwise R)
    (hnew : ∀ a ∈ new, ∀ b ∈ new ++ old, R a b) : (new ++ old).Pairwise R := by
  induction new with
  | nil => exact h
  | cons a new ih =>
    rw [List.cons_append, List.pairwise_cons]
    refine ⟨fun b hb => hnew a List.mem_cons_self b (List.mem_cons_of_mem a hb), ih ?_⟩
    exact fun a' ha' b hb => hnew a' (List.mem_cons_of_mem a ha') b (List.mem_cons_of_mem a hb)

theorem snd_ldFree (w : World) : (exec ldFree w).2 = (exec connectionClose w).2 := by
  rw [ldFree, exec_bind]
  rcases exec connectionClose w with ⟨result, t⟩
  cases result <;> rfl

theorem runAndFree_cases (config : LdapConnectionConfig) (path : Option Bytes) (steps : List Step) :
    (∃ w, run config path steps = (.ok (), w) ∧ runAndFree config path steps = exec ldFree w) ∨
      (runAndFree config path steps).2 = (run config path steps).2 := by
  rcases he : run config path steps with ⟨result, w⟩
  cases result with
  | error fault =>
    right
    exact congrArg Prod.snd (exec_bind_error he)
  | ok _ => exact .inl ⟨w, rfl, exec_bind_ok he⟩

theorem upkeep_tick (i : TickInput) (hs : w.connection.stateMachine ≠ .live .error) :
    Upkeep w i (exec (Step.tick i).perform w).2 := by
  have htick := upkeep_csmNextState i hs
  change Upkeep w i (exec (csmNextState i >>= fun _ => pure ()) w).2
  rw [exec_bind]
  rcases he : exec (csmNextState i) w with ⟨result, t⟩
  rw [he] at htick
  cases result <;> exact htick

/-- A step that is not a tick works on the current handle. -/
theorem within_step (step : Step) (h : ∀ i, step ≠ .tick i) : w.Within Event.Serves (exec step.perform w).2 := by
  cases step with
  | tick i => exact absurd rfl (h i)
  | read responses => exact (serves_connectionOnRead responses).within w
  | submit submission =>
    exact Confined.within (Along.bind (sends_perform submission).serves fun _ => Along.pure) w
  | installErrorHandler => exact ⟨rfl, rfl, rfl, rfl, rfl, rfl, .none rfl⟩

end Libdomain.Connection
