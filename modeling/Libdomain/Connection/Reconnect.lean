import Libdomain.Connection.Steering

/-! # Reconnecting

`csm_next_state` reconnects without looking at the result of
`connection_configure`, and a reconfiguration that succeeds clears the counter
of the attempts. So a failed attempt never leaves a connection that could be
tried again, and the number of attempts is bounded only as long as no success
discards earlier ones.
-/
namespace Libdomain.Connection
open Libdomain.Queue Libdomain.Program Relation

variable {w w' : World}

/-- Another attempt could follow, and no pointer of the connection dangles. -/
structure LdapConnectionCtx.Recoverable (c : LdapConnectionCtx) : Prop where
  stateMachine : c.stateMachine = .live .error
  ldapDefaults : c.ldapDefaults ≠ .dangling

theorem exec_csmNextState_error (hs : w.connection.stateMachine = .live .error) (i : TickInput) :
    exec (csmNextState i) w = exec (reconnect i >>= fun _ => pure .success) w := by
  rw [csmNextState, exec_bind_ok (exec_get w), hs]
  rfl

theorem exec_reconnect_dangling (hd : w.connection.ldapDefaults = .dangling) (i : TickInput) :
    exec (reconnect i) w = (.error .invalidPointer, w) := by
  have hclose : exec connectionClose w = (.error .invalidPointer, w) := by
    rw [connectionClose, exec_bind_ok (exec_get w)]
    dsimp only
    rw [hd]
    rfl
  rw [reconnect, exec_bind_error hclose]

theorem stateMachine_reconnected (w : World) (failure : ConfigureFailure) :
    (w.reconnected (some failure)).connection.stateMachine =
      match failure with
      | .tallocNew | .ldapInitialize => w.connection.stateMachine.assign .init
      | .stateMachine => .null
      | _ => .dangling := by
  cases failure <;> rfl

/-- However the reconfiguration fails, the connection is not left in the error state. -/
theorem reconnect_not_recoverable {i : TickInput} {failure : ConfigureFailure}
    {code : OperationReturnCode} (hs : w.connection.stateMachine = .live .error)
    (hn : w.connection.nReconnectAttempts < maxReconnectAttempts) (hi : i.configure = some failure)
    (he : exec (csmNextState i) w = (.ok code, w')) : ¬w'.connection.Recoverable := by
  have hd : w.connection.ldapDefaults ≠ .dangling := by
    intro hd
    rw [exec_csmNextState_error hs, exec_bind_error (exec_reconnect_dangling hd i)] at he
    cases he
  rw [exec_csmNextState_error hs, exec_bind_ok (exec_reconnect hs hd i), if_pos hn, hi] at he
  cases he
  intro hrecoverable
  have hstate := hrecoverable.stateMachine
  rw [stateMachine_reconnected, hs] at hstate
  cases failure <;> simp [Pointer.assign] at hstate

/-- The attempts to reconnect since the machine last came to run. -/
def reconnects : List Event → ℕ
  | [] => 0
  | .transition _ .run :: _ => 0
  | .transition .error .init :: events => reconnects events + 1
  | _ :: events => reconnects events

/-- A reconfiguration that succeeds has no earlier attempts to discard. -/
def Sparing (w : World) : Step → Prop
  | .tick i => w.connection.stateMachine = .live .error →
      w.connection.nReconnectAttempts < maxReconnectAttempts → i.configure = none →
      w.connection.nReconnectAttempts = 0
  | _ => True

/-- No answer that completes a bind or StartTLS is processed in the error state. -/
def NotRevived : List Event → Prop
  | [] => True
  | .dispatch _ request r _ c :: events =>
    (c.stateMachine = .live .error →
      (request.onReadOperation = some .connectionStartTlsOnRead → ¬r.Secures (tlsOf events)) ∧
      (request.onReadOperation = some .connectionBindOnRead → ¬r.Completes c)) ∧ NotRevived events
  | _ :: events => NotRevived events

def Event.Unmoved : Event → Prop
  | .transition .. => False
  | _ => True

theorem Event.Straight.unmoved {e : Event} (h : e.Straight) : e.Unmoved := by
  cases e with
  | transition => exact h.elim
  | _ => trivial

theorem reconnects_cons {e : Event} (h : e.Unmoved) (events : List Event) :
    reconnects (e :: events) = reconnects events := by
  cases e with
  | transition => exact h.elim
  | _ => rfl

theorem reconnects_append {new : List Event} (h : ∀ e ∈ new, e.Unmoved) (events : List Event) :
    reconnects (new ++ events) = reconnects events := by
  induction new with
  | nil => rfl
  | cons e new ih =>
    rw [List.cons_append, reconnects_cons (h e List.mem_cons_self),
      ih fun e he => h e (List.mem_cons_of_mem _ he)]

def ReconnectsBounded (events : List Event) : Prop :=
  ∀ part, part <:+ events → reconnects part ≤ maxReconnectAttempts

theorem ReconnectsBounded.cons {events : List Event} (h : ReconnectsBounded events) {e : Event}
    (he : reconnects (e :: events) ≤ maxReconnectAttempts) : ReconnectsBounded (e :: events) := by
  intro part hpart
  rcases List.suffix_cons_iff.mp hpart with rfl | hpart
  · exact he
  · exact h part hpart

theorem ReconnectsBounded.append {events new : List Event} (h : ReconnectsBounded events)
    (hnew : ∀ e ∈ new, e.Unmoved) : ReconnectsBounded (new ++ events) := by
  induction new with
  | nil => exact h
  | cons e new ih =>
    have hrest : ∀ e ∈ new, e.Unmoved := fun e he => hnew e (List.mem_cons_of_mem _ he)
    apply (ih hrest).cons
    rw [reconnects_cons (hnew e List.mem_cons_self), reconnects_append hrest]
    exact h events (List.suffix_refl _)

/-- The counter of the connection covers the attempts as long as there is a machine. -/
structure Counted (w : World) : Prop where
  bounded : ReconnectsBounded w.trace
  counter : w.connection.nReconnectAttempts ≤ maxReconnectAttempts
  attempts : ∀ state, w.connection.stateMachine = .live state →
    reconnects w.trace ≤ w.connection.nReconnectAttempts
  running : w.connection.stateMachine = .live .run → reconnects w.trace = 0

theorem Counted.straight (h : Counted w) (hst : w.Straight w') : Counted w' := by
  obtain ⟨new, ht, hnew⟩ := hst.grows.mono fun _ => Event.Straight.unmoved
  refine ⟨?_, ?_, ?_, ?_⟩
  · rw [ht]
    exact h.bounded.append hnew
  · rw [hst.nReconnectAttempts]
    exact h.counter
  · rw [hst.stateMachine, hst.nReconnectAttempts, ht, reconnects_append hnew]
    exact h.attempts
  · rw [hst.stateMachine, ht, reconnects_append hnew]
    exact h.running

theorem reconnects_transition {source target : LdapConnectionState} (h : target ≠ .init)
    (events : List Event) : reconnects (.transition source target :: events) =
      if target = .run then 0 else reconnects events := by
  cases target with
  | init => exact absurd rfl h
  | run => rfl
  | _ => cases source <;> rfl

theorem Counted.turned (h : Counted w) {state : LdapConnectionState} (hne : state ≠ .init)
    (ht : w.Turned w' state) : Counted w' := by
  rcases ht.passes with ⟨source, hbefore, hafter, hn, new, old, htrace, hnew, hold⟩ | hst
  · replace hnew := fun e he => (hnew e he).unmoved
    replace hold := fun e he => (hold e he).unmoved
    have hle : reconnects (.transition source state :: (old ++ w.trace)) ≤ reconnects w.trace := by
      rw [reconnects_transition hne, reconnects_append hold]
      split_ifs <;> omega
    have hattempts := h.attempts source hbefore
    have hcounter := h.counter
    refine ⟨?_, by omega, ?_, ?_⟩
    · rw [htrace]
      exact ((h.bounded.append hold).cons (by omega)).append hnew
    · intro _ _
      rw [htrace, reconnects_append hnew]
      omega
    · intro hrun
      rw [hafter] at hrun
      cases hrun
      rw [htrace, reconnects_append hnew, reconnects_transition hne, if_pos rfl]
  · exact h.straight hst

theorem Steers.counted (h : Steers w w') (hi : Counted w) : Counted w' := by
  cases h with
  | straight hst => exact hi.straight hst
  | stopped _ _ _ turned => exact hi.turned (by decide) turned
  | secured slot request r _ _ turned =>
    exact (hi.straight (straight_dispatched w slot request r)).turned (by decide) turned
  | insecure slot request r _ _ turned =>
    exact (hi.straight (straight_dispatched w slot request r)).turned (by decide) turned
  | bound slot request r _ _ turned =>
    exact (hi.straight (straight_dispatched w slot request r)).turned (by decide) turned
  | refused slot request r _ _ turned =>
    exact (hi.straight (straight_dispatched w slot request r)).turned (by decide) turned

theorem Stride.counted (h : Stride w w') (hw : Simulated w) (hi : Counted w) : Counted w' := by
  apply h.induct hw
  · exact fun t hst => hi.straight hst
  · exact fun state enters => hi.turned enters.ne_init (turned_enter state w)
  · intro state
    refine ⟨hi.bounded, Nat.zero_le _, fun _ _ => ?_, hi.running⟩
    exact le_of_eq (hi.running state)
  · exact fun t hsteers => hsteers.counted hi

theorem grows_closed (w : World) : w.Grows w.closed Event.Aloof := by
  refine ⟨_, (List.append_assoc ..).symm, ?_⟩
  intro e he
  simp only [List.mem_append, Option.mem_toList, Option.map_eq_some_iff] at he
  rcases he with ⟨event, -, rfl⟩ | ⟨event, -, rfl⟩ <;> trivial

theorem trace_reconnected (w : World) (failure : Option ConfigureFailure) : ∃ new,
    (w.reconnected failure).trace = .transition .error .init :: (new ++ w.trace) ∧
      ∀ e ∈ new, e.Unmoved := by
  obtain ⟨new, ht, hnew⟩ := (grows_closed w).mono fun _ he => he.straight.unmoved
  cases failure with
  | none =>
    refine ⟨.configured :: new, congrArg (List.cons _ <| List.cons _ ·) ht, ?_⟩
    intro e he
    rcases List.mem_cons.mp he with rfl | he
    · trivial
    · exact hnew e he
  | some failure =>
    refine ⟨.configureFailed failure :: new, ?_, ?_⟩
    · have htrace := (trace_failedConfiguration w.closed failure).trans ht
      exact congrArg (List.cons _ <| List.cons _ ·) htrace
    · intro e he
      rcases List.mem_cons.mp he with rfl | he
      · trivial
      · exact hnew e he

theorem nReconnectAttempts_reconnected (w : World) (failure : Option ConfigureFailure) :
    (w.reconnected failure).connection.nReconnectAttempts =
      if failure = none ∨ failure = some .eventBase then 1 else w.connection.nReconnectAttempts + 1 := by
  cases failure with
  | none => rfl
  | some failure => cases failure <;> rfl

theorem Counted.closed (h : Counted w) : Counted w.closed := by
  obtain ⟨new, ht, hnew⟩ := (grows_closed w).mono fun _ he => he.straight.unmoved
  refine ⟨?_, h.counter, ?_, ?_⟩
  · rw [ht]
    exact h.bounded.append hnew
  · rw [ht, reconnects_append hnew]
    exact h.attempts
  · rw [ht, reconnects_append hnew]
    exact h.running

theorem Counted.reconnected (h : Counted w) (hs : w.connection.stateMachine = .live .error)
    (hn : w.connection.nReconnectAttempts < maxReconnectAttempts) {failure : Option ConfigureFailure}
    (hsparing : failure = none → w.connection.nReconnectAttempts = 0) :
    Counted (w.reconnected failure) := by
  obtain ⟨new, ht, hnew⟩ := trace_reconnected w failure
  have hattempts := h.attempts .error hs
  have hcount : reconnects (w.reconnected failure).trace = reconnects w.trace + 1 := by
    rw [ht, reconnects, reconnects_append hnew]
  have hmax : 1 ≤ maxReconnectAttempts := by decide
  refine ⟨?_, ?_, ?_, ?_⟩
  · rw [ht] at hcount ⊢
    exact (h.bounded.append hnew).cons (by omega)
  · rw [nReconnectAttempts_reconnected]
    split_ifs <;> omega
  · intro state hstate
    rw [hcount, nReconnectAttempts_reconnected]
    split_ifs with hfresh
    · rcases hfresh with rfl | rfl
      · have := hsparing rfl
        omega
      · rw [stateMachine_reconnected] at hstate
        cases hstate
    · omega
  · intro hrun
    cases failure with
    | none => cases hrun
    | some failure =>
      rw [stateMachine_reconnected, hs] at hrun
      cases failure <;> cases hrun

theorem Counted.reconnect (h : Counted w) (hs : w.connection.stateMachine = .live .error) {i : TickInput}
    (hsparing : Sparing w (.tick i)) : Counted (exec (reconnect i) w).2 := by
  by_cases hd : w.connection.ldapDefaults = .dangling
  · rw [exec_reconnect_dangling hd]
    exact h
  · rw [exec_reconnect hs hd]
    dsimp only
    split_ifs with hn
    · exact h.reconnected hs hn (hsparing hs hn)
    · exact h.closed

structure Spent (w : World) : Prop where
  stateMachine : w.connection.stateMachine = .live .error
  attempts : maxReconnectAttempts ≤ w.connection.nReconnectAttempts

theorem NotRevived.of_append {new events : List Event} (h : NotRevived (new ++ events)) :
    NotRevived events := by
  induction new with
  | nil => exact h
  | cons e new ih =>
    apply ih
    cases e with
    | dispatch => exact h.2
    | _ => exact h

theorem Spent.straight (h : Spent w) (hst : w.Straight w') : Spent w' :=
  ⟨hst.stateMachine.trans h.stateMachine, hst.nReconnectAttempts ▸ h.attempts⟩

theorem Spent.failed (h : Spent w) (turned : w.Turned w' .error) : Spent w' := by
  rcases turned.passes with ⟨source, hpasses⟩ | hst
  · exact ⟨hpasses.after, hpasses.nReconnectAttempts ▸ h.attempts⟩
  · exact h.straight hst

theorem Steers.spent (h : Steers w w') (htls : tlsOf w.trace = w.tlsInplace)
    (hrevived : NotRevived w'.trace) (hi : Spent w) : Spent w' := by
  cases h with
  | straight hst => exact hi.straight hst
  | stopped _ _ _ turned => exact hi.failed turned
  | secured slot request r handler secures turned =>
    obtain ⟨new, htrace⟩ := turned.grows
    rw [htrace] at hrevived
    have hnot := (hrevived.of_append.1 hi.stateMachine).1 handler
    rw [htls] at hnot
    exact absurd secures hnot
  | insecure slot request r _ _ turned =>
    exact (hi.straight (straight_dispatched w slot request r)).failed turned
  | bound slot request r handler completes turned =>
    obtain ⟨new, htrace⟩ := turned.grows
    rw [htrace] at hrevived
    exact absurd completes ((hrevived.of_append.1 hi.stateMachine).2 handler)
  | refused slot request r _ _ turned =>
    exact (hi.straight (straight_dispatched w slot request r)).failed turned

theorem Stride.spent (h : Stride w w') (hw : Simulated w) (htls : tlsOf w.trace = w.tlsInplace)
    (hrevived : NotRevived w'.trace) (hi : Spent w) : Spent w' := by
  revert hrevived
  apply h.induct (Q := fun t => NotRevived t.trace → Spent t) hw
  · exact fun t hst _ => hi.straight hst
  · exact fun state enters _ => absurd hi.stateMachine enters.ne_error
  · intro state _
    cases hi.stateMachine.symm.trans state
  · exact fun t hsteers hrevived => hsteers.spent htls hrevived hi

theorem Spent.reconnect (h : Spent w) (i : TickInput) : Spent (exec (reconnect i) w).2 := by
  by_cases hd : w.connection.ldapDefaults = .dangling
  · rw [exec_reconnect_dangling hd]
    exact h
  · rw [exec_reconnect h.stateMachine hd, if_neg (Nat.not_lt.mpr h.attempts)]
    exact ⟨h.stateMachine, h.attempts⟩

theorem tls_reconnect (hs : w.connection.stateMachine = .live .error) (i : TickInput)
    (htls : tlsOf w.trace = w.tlsInplace) :
    tlsOf (exec (reconnect i) w).2.trace = (exec (reconnect i) w).2.tlsInplace := by
  have hclosed : tlsOf w.closed.trace = w.closed.tlsInplace := by
    rw [(grows_closed w).tlsOf_eq]
    exact htls
  by_cases hd : w.connection.ldapDefaults = .dangling
  · rw [exec_reconnect_dangling hd]
    exact htls
  · rw [exec_reconnect hs hd]
    dsimp only
    split_ifs
    · cases i.configure with
      | none => rfl
      | some failure => cases failure <;> first | rfl | exact hclosed
    · exact hclosed

theorem counted_initial (config : LdapConnectionConfig) (path : Option Bytes) :
    Counted (.initial config path) := by
  refine ⟨?_, Nat.zero_le _, fun _ _ => le_refl 0, fun _ => rfl⟩
  intro part hpart
  change part <:+ [.configured] at hpart
  rcases List.suffix_cons_iff.mp hpart with rfl | hpart
  · exact Nat.zero_le _
  · rw [List.suffix_nil.mp hpart]
    exact Nat.zero_le _

/-- In a run in which no success discards earlier attempts, the machine is started anew
at most `MAX_RECONNECT_ATTEMPTS` times before it runs, and stays in the error state
after that unless a late answer to a bind or to StartTLS revives it. -/
theorem run_reconnectsBounded (config : LdapConnectionConfig) (path : Option Bytes)
    (steps more : List Step) (hsparing : EachStep Sparing (steps ++ more) (.initial config path))
    (hrevived : NotRevived (run config path (steps ++ more)).2.trace) :
    ReconnectsBounded (run config path (steps ++ more)).2.trace ∧
      ∀ w, run config path steps = (.ok (), w) → w.connection.stateMachine = .live .error →
        reconnects w.trace = maxReconnectAttempts →
        (run config path (steps ++ more)).2.connection.stateMachine = .live .error := by
  have hcounted : ∀ steps, EachStep Sparing steps (.initial config path) →
      let w := (run config path steps).2
      Simulated w ∧ Counted w ∧ tlsOf w.trace = w.tlsInplace := by
    intro steps hsteps
    refine steps_invariant (I := fun w => Counted w ∧ tlsOf w.trace = w.tlsInplace) ?_ ?_ steps
      (simulated_initial config path) rfl hsteps ⟨counted_initial config path, rfl⟩
    · exact fun s t hs hst hi => ⟨hst.counted hs hi.1, hst.tls hs hi.2⟩
    · exact fun s i _ hstate _ hC hi => ⟨hi.1.reconnect hstate hC, tls_reconnect hstate i hi.2⟩
  refine ⟨(hcounted _ hsparing).2.1.bounded, ?_⟩
  intro w hrun hstate hmax
  obtain ⟨hw, hcount, htls⟩ := hcounted steps hsparing.of_append
  rw [hrun] at hw hcount htls
  have hframe : w.frame = none := Reachable.frame ⟨steps, hrun⟩
  have hspent : Spent w := ⟨hstate, hmax ▸ hcount.attempts _ hstate⟩
  rw [run, exec_performSteps_append hrun] at hrevived ⊢
  exact (steps_invariant_while (I := fun w => Spent w ∧ tlsOf w.trace = w.tlsInplace)
    (C := NotRevived) (fun _ _ h => h.of_append)
    (fun s t hs hst hC hi => ⟨hst.spent hs hi.2 hC hi.1, hst.tls hs hi.2⟩)
    (fun s i _ hstate _ _ hi => ⟨hi.1.reconnect i, tls_reconnect hstate i hi.2⟩)
    more hw hframe ⟨hspent, htls⟩ hrevived).1.stateMachine

def Event.isDispatch : Event → Bool
  | .dispatch .. => true
  | _ => false

theorem notRevived_of_all {events : List Event} (h : events.all (fun e => !e.isDispatch) = true) :
    NotRevived events := by
  induction events with
  | nil => trivial
  | cons e events ih =>
    rw [List.all_cons, Bool.and_eq_true] at h
    cases e with
    | dispatch => exact absurd h.1 Bool.false_ne_true
    | _ => exact ih h.2

def failingStep (configure : Option ConfigureFailure) : Step :=
  .tick { startTls := ⟨1, 0⟩, configure := configure }

section Runs

-- Only the kernel is to evaluate the runs.
attribute [local irreducible] run

/-- A reconfiguration whose options fail leaves a machine that has been freed. -/
theorem recoverable_lost :
    (run ⟨true, .simple⟩ none [failingStep none]).2.connection.Recoverable ∧
      (run ⟨true, .simple⟩ none [failingStep none, failingStep (some .options)]).1 = .ok () ∧
      ¬(run ⟨true, .simple⟩ none
        [failingStep none, failingStep (some .options)]).2.connection.Recoverable := by
  refine ⟨⟨by decide +kernel, by decide +kernel⟩, by decide +kernel, fun h => ?_⟩
  have hdangling : (run ⟨true, .simple⟩ none
      [failingStep none, failingStep (some .options)]).2.connection.stateMachine = .dangling := by
    decide +kernel
  cases hdangling.symm.trans h.stateMachine

theorem reconnect_not_recoverable_options :
    ¬(exec (csmNextState { configure := some .options })
      (run ⟨true, .simple⟩ none [failingStep none]).2).2.connection.Recoverable :=
  have hreturn : (exec (csmNextState { configure := some .options })
      (run ⟨true, .simple⟩ none [failingStep none]).2).1 = .ok .success := by decide +kernel
  reconnect_not_recoverable (i := { configure := some .options }) (by decide +kernel)
    (by decide +kernel) rfl (Prod.ext hreturn rfl)

/-- Ten attempts fail for want of memory, and there is no eleventh. -/
theorem run_reconnectsBounded_failing :
    ReconnectsBounded (run ⟨true, .simple⟩ none
        (List.replicate 21 (failingStep (some .tallocNew)) ++ [failingStep (some .tallocNew)])).2.trace ∧
      (run ⟨true, .simple⟩ none (List.replicate 21 (failingStep (some .tallocNew)) ++
        [failingStep (some .tallocNew)])).2.connection.stateMachine = .live .error := by
  have hsparing : EachStep Sparing (List.replicate 21 (failingStep (some .tallocNew)) ++
      [failingStep (some .tallocNew)]) (.initial ⟨true, .simple⟩ none) := by
    apply eachStep_of_forall
    intro step hstep w
    have heq : step = failingStep (some .tallocNew) := by
      simp only [List.mem_append, List.mem_replicate, List.mem_singleton] at hstep
      tauto
    subst heq
    rintro _ _ ⟨⟩
  have hrun := run_reconnectsBounded ⟨true, .simple⟩ none
    (List.replicate 21 (failingStep (some .tallocNew))) [failingStep (some .tallocNew)] hsparing
    (notRevived_of_all (by decide +kernel))
  have hreturn : (run ⟨true, .simple⟩ none
      (List.replicate 21 (failingStep (some .tallocNew)))).1 = .ok () := by decide +kernel
  exact ⟨hrun.1, hrun.2 _ (Prod.ext hreturn rfl) (by decide +kernel) (by decide +kernel)⟩

/-- Each success of the configuration clears the counter: eleven attempts in a row. -/
theorem run_reconnects_unbounded :
    ¬ReconnectsBounded (run ⟨true, .simple⟩ none (List.replicate 22 (failingStep none))).2.trace := by
  intro h
  have hcount : reconnects (run ⟨true, .simple⟩ none (List.replicate 22 (failingStep none))).2.trace = 11 := by
    decide +kernel
  have hle := h _ (List.suffix_refl _)
  rw [hcount] at hle
  exact absurd hle (by decide)

end Runs

end Libdomain.Connection
