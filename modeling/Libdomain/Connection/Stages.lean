import Libdomain.Connection.Authentication
import Libdomain.Connection.Reconnect
import Mathlib.Data.List.Chain

/-! # The order of the states

The states of a connection form stages. Ticks only go forward, but the handlers
of StartTLS and bind set the machine without looking at its state, so the order
holds as long as their answers arrive in time.
-/
namespace Libdomain.Connection
open Libdomain.Queue Libdomain.Program Relation

def LdapConnectionState.stage : LdapConnectionState → ℕ
  | .init => 0
  | .tlsNegotiation => 1
  | .transportReady => 2
  | .bindInProgress => 3
  | .bound => 4
  | .detectDirectory => 5
  | .requestSchema => 6
  | .checkSchema => 7
  | .run => 8
  | .error => 9

/-- A step forward, a failure, or the reconnection after one. -/
def Allowed (source target : LdapConnectionState) : Prop :=
  target = .error ∨ (source = .error ∧ target = .init) ∨
    (source ≠ .error ∧ source.stage ≤ target.stage)

def states : List Event → List LdapConnectionState
  | [] => []
  | .transition _ target :: events => target :: states events
  | .configured :: events => .init :: states events
  | _ :: events => states events

instance (source target : LdapConnectionState) : Decidable (Allowed source target) :=
  inferInstanceAs (Decidable (_ ∨ _))

/-- Every change of the state is allowed. -/
def Advances (events : List Event) : Prop :=
  (states events).IsChain fun target source => Allowed source target

/-- The answers that complete a bind or StartTLS are processed before the machine has
gone beyond the stage they lead to. -/
def Punctual : List Event → Prop
  | [] => True
  | .dispatch _ request r _ c :: events =>
    (∀ state, c.stateMachine = .live state →
      (request.onReadOperation = some .connectionStartTlsOnRead → r.Secures (tlsOf events) →
        state ≠ .error ∧ state.stage ≤ LdapConnectionState.transportReady.stage) ∧
      (request.onReadOperation = some .connectionBindOnRead → r.Completes c →
        state ≠ .error ∧ state.stage ≤ LdapConnectionState.bound.stage)) ∧ Punctual events
  | _ :: events => Punctual events

variable {w w' : World}

instance : DecidablePred Punctual := fun events => by
  induction events with
  | nil => exact isTrue trivial
  | cons e events ih =>
    cases e with
    | dispatch => exact inferInstanceAs (Decidable (_ ∧ _))
    | _ => exact ih

theorem Punctual.of_append {new events : List Event} (h : Punctual (new ++ events)) :
    Punctual events := by
  induction new with
  | nil => exact h
  | cons e new ih =>
    apply ih
    cases e with
    | dispatch => exact h.2
    | _ => exact h

theorem states_append {new : List Event} (h : ∀ e ∈ new, e.Straight) (events : List Event) :
    states (new ++ events) = states events := by
  induction new with
  | nil => rfl
  | cons e new ih =>
    have hrest := ih fun e he => h e (List.mem_cons_of_mem _ he)
    have he := h e List.mem_cons_self
    cases e with
    | transition => exact he.elim
    | configured => exact he.elim
    | _ => exact hrest

theorem TickEnters.allowed {source target : LdapConnectionState} (h : TickEnters w target)
    (hs : w.connection.stateMachine = .live source) : Allowed source target := by
  have hsource : ∀ {state}, w.connection.stateMachine = .live state → source = state := by
    intro state hstate
    cases hs.symm.trans hstate
    rfl
  cases h with
  | bind code live =>
    rw [hsource live]
    cases code with
    | failure => exact .inl rfl
    | missingAttribute => exact .inl rfl
    | _ => exact .inr (.inr (by decide))
  | failed => exact .inl rfl
  | startTls live => rw [hsource live]; exact .inr (.inr (by decide))
  | plain live => rw [hsource live]; exact .inr (.inr (by decide))
  | detect live => rw [hsource live]; exact .inr (.inr (by decide))
  | detecting live => rw [hsource live]; exact .inr (.inr (by decide))
  | detected live => rw [hsource live]; exact .inr (.inr (by decide))
  | requesting live => rw [hsource live]; exact .inr (.inr (by decide))
  | requested live => rw [hsource live]; exact .inr (.inr (by decide))
  | checked live => rw [hsource live]; exact .inr (.inr (by decide))

/-- The states have followed the order, and the machine is in the last of them. -/
structure Ordered (w : World) : Prop where
  advances : Advances w.trace
  current : ∀ state, w.connection.stateMachine = .live state → (states w.trace).head? = some state
  tls : tlsOf w.trace = w.tlsInplace

theorem Ordered.straight (h : Ordered w) (hst : w.Straight w') : Ordered w' := by
  obtain ⟨new, ht, hnew⟩ := hst.grows
  have hstates : states w'.trace = states w.trace := by rw [ht, states_append hnew]
  refine ⟨?_, ?_, hst.tls h.tls⟩
  · rw [Advances, hstates]
    exact h.advances
  · rw [hstates, hst.stateMachine]
    exact h.current

theorem Advances.cons {events : List Event} (h : Advances events) {source target : LdapConnectionState}
    (hs : (states events).head? = some source) (ha : Allowed source target) :
    (target :: states events).IsChain fun target source => Allowed source target := by
  rw [List.isChain_cons]
  refine ⟨?_, h⟩
  rintro state hstate
  cases hs.symm.trans hstate
  exact ha

theorem Ordered.turned (h : Ordered w) {state : LdapConnectionState} (ht : w.Turned w' state)
    (ha : ∀ source, w.connection.stateMachine = .live source → Allowed source state) : Ordered w' := by
  have htls := ht.tls h.tls
  rcases ht.passes with ⟨source, hbefore, hafter, -, new, old, htrace, hnew, hold⟩ | hst
  · have hstates : states w'.trace = state :: states w.trace := by
      rw [htrace, states_append hnew, states, states_append hold]
    refine ⟨?_, ?_, htls⟩
    · rw [Advances, hstates]
      exact h.advances.cons (h.current source hbefore) (ha source hbefore)
    · intro state' hs
      rw [hafter] at hs
      cases hs
      rw [hstates]
      rfl
  · exact h.straight hst

theorem Steers.ordered (h : Steers w w') (hpunctual : Punctual w'.trace) (hi : Ordered w) :
    Ordered w' := by
  cases h with
  | straight hst => exact hi.straight hst
  | stopped _ _ _ turned => exact hi.turned turned fun _ _ => .inl rfl
  | secured slot request r handler secures turned =>
    apply (hi.straight (straight_dispatched w slot request r)).turned turned
    intro source hs
    obtain ⟨new, htrace⟩ := turned.grows
    rw [htrace] at hpunctual
    exact .inr (.inr ((hpunctual.of_append.1 source hs).1 handler (hi.tls ▸ secures)))
  | insecure slot request r _ _ turned =>
    exact (hi.straight (straight_dispatched w slot request r)).turned turned fun _ _ => .inl rfl
  | bound slot request r handler completes turned =>
    apply (hi.straight (straight_dispatched w slot request r)).turned turned
    intro source hs
    obtain ⟨new, htrace⟩ := turned.grows
    rw [htrace] at hpunctual
    exact .inr (.inr ((hpunctual.of_append.1 source hs).2 handler completes))
  | refused slot request r _ _ turned =>
    exact (hi.straight (straight_dispatched w slot request r)).turned turned fun _ _ => .inl rfl

theorem Stride.ordered (h : Stride w w') (hw : Simulated w) (hpunctual : Punctual w'.trace)
    (hi : Ordered w) : Ordered w' := by
  revert hpunctual
  apply h.induct (Q := fun t => Punctual t.trace → Ordered t) hw
  · exact fun t hst _ => hi.straight hst
  · exact fun state enters _ => hi.turned (turned_enter state w) fun source hs => enters.allowed hs
  · exact fun _ _ => ⟨hi.advances, hi.current, hi.tls⟩
  · exact fun t hsteers hpunctual => hsteers.ordered hpunctual hi

theorem Ordered.reconnect (h : Ordered w) (hs : w.connection.stateMachine = .live .error) (i : TickInput) :
    Ordered (exec (Connection.reconnect i) w).2 := by
  have htls := tls_reconnect hs i h.tls
  have hclosed : states w.closed.trace = states w.trace := by
    obtain ⟨new, ht, hnew⟩ := (grows_closed w).mono fun _ => Event.Aloof.straight
    rw [ht, states_append hnew]
  have hstart : (LdapConnectionState.init :: states w.trace).IsChain
      fun target source => Allowed source target :=
    h.advances.cons (h.current .error hs) (.inr (.inl ⟨rfl, rfl⟩))
  by_cases hd : w.connection.ldapDefaults = .dangling
  · rw [exec_reconnect_dangling hd]
    exact h
  · rw [exec_reconnect hs hd] at htls ⊢
    dsimp only at htls ⊢
    split_ifs at htls ⊢ with hn
    · cases hi : i.configure with
      | none =>
        rw [hi] at htls
        have hstates : states (w.reconnected none).trace = .init :: .init :: states w.trace := by
          rw [← hclosed]
          rfl
        refine ⟨?_, ?_, htls⟩
        · rw [Advances, hstates, List.isChain_cons]
          refine ⟨?_, hstart⟩
          rintro _ ⟨⟩
          exact .inr (.inr (by decide))
        · rintro _ ⟨⟩
          rw [hstates]
          rfl
      | some failure =>
        rw [hi] at htls
        have hstates : states (w.reconnected (some failure)).trace = .init :: states w.trace := by
          rw [← hclosed, ← trace_failedConfiguration w.closed failure]
          rfl
        refine ⟨?_, ?_, htls⟩
        · rw [Advances, hstates]
          exact hstart
        · intro state hstate
          rw [stateMachine_reconnected, hs] at hstate
          rw [hstates]
          cases failure <;> cases hstate <;> rfl
    · refine ⟨?_, ?_, htls⟩
      · rw [Advances, hclosed]
        exact h.advances
      · rw [hclosed]
        exact h.current

/-- In a run whose answers are punctual the state only advances, apart from failures and
reconnections; in particular a connection that runs leaves that state only to fail. -/
theorem run_advances (config : LdapConnectionConfig) (path : Option Bytes) (steps : List Step)
    (hpunctual : Punctual (run config path steps).2.trace) :
    Advances (run config path steps).2.trace ∧
      ∀ state, (run config path steps).2.connection.stateMachine = .live state →
        (states (run config path steps).2.trace).head? = some state := by
  have hinit : Ordered (.initial config path) := by
    refine ⟨List.isChain_singleton _, ?_, rfl⟩
    rintro _ ⟨⟩
    rfl
  have hordered : Ordered (run config path steps).2 :=
    steps_invariant_while (C := Punctual) (fun _ _ h => h.of_append)
      (fun s t hs hst hC hi => hst.ordered hs hC hi)
      (fun s i _ hstate _ _ hi => hi.reconnect hstate i) steps (simulated_initial config path) rfl hinit
      hpunctual
  exact ⟨hordered.advances, hordered.current⟩

section Runs

-- Only the kernel is to evaluate the runs.
attribute [local irreducible] run

theorem run_advances_answered :
    Advances (run ⟨false, .interactive⟩ none answeredSteps).2.trace ∧
      (states (run ⟨false, .interactive⟩ none answeredSteps).2.trace).head? = some .run :=
  have hadvances := run_advances ⟨false, .interactive⟩ none answeredSteps (by decide +kernel)
  ⟨hadvances.1, hadvances.2 .run (by decide +kernel)⟩

def lateBindSteps : List Step :=
  [.tick {}, .tick { bind := ⟨ldapSuccess, 1⟩ }, .tick { directory := ⟨ldapSuccess, 2⟩ },
    .read [{ rc := ldapResUnsolicited }, { rc := ldapResSearchEntry, msgid := 2, chain := [rootDse] }],
    .tick {}, .tick {}, .tick {},
    .read [{ rc := ldapResBind, msgid := 1, bind := ⟨ldapSuccess, 1⟩ }]]

/-- The late answer moves the machine from the last stage back to an earlier one. -/
theorem not_advances_lateBind :
    ¬Advances (run ⟨false, .interactive⟩ none lateBindSteps).2.trace := by
  have hstates : ∃ rest, states (run ⟨false, .interactive⟩ none lateBindSteps).2.trace =
      .bound :: .run :: rest :=
    ⟨(states (run ⟨false, .interactive⟩ none lateBindSteps).2.trace).drop 2, by decide +kernel⟩
  obtain ⟨rest, hstates⟩ := hstates
  rw [Advances, hstates, List.isChain_cons]
  rintro ⟨hbackwards, -⟩
  exact absurd (hbackwards .run rfl) (by decide)

end Runs

end Libdomain.Connection
