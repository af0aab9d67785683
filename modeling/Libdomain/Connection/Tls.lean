import Libdomain.Connection.Machine

/-! # StartTLS and credentials

With StartTLS configured the machine becomes ready for a bind only through
`connection_start_tls_on_read`. That handler goes on without TLS when
`ldap_install_tls` answers `LDAP_LOCAL_ERROR`, and with any other answer it
leaves the transport secured.
-/
namespace Libdomain.Connection
open Libdomain.Queue Libdomain.Program

def BindsSecured (events : List Event) : Prop :=
  ∀ tlsInplace, .bindInvoked tlsInplace ∈ events → tlsInplace = true

/-- `ldap_install_tls` has answered with the code that is tolerated without TLS. -/
def InstallTolerated (events : List Event) : Prop := .tlsInstalled ldapLocalError ∈ events

/-- The machine is ready for a bind only on a secured handle. -/
structure Secured (w : World) : Prop where
  config : w.connection.config.useStartTls = true
  ready : w.connection.stateMachine = .live .transportReady → w.tlsInplace = true
  binds : BindsSecured w.trace

variable {w w' : World}

theorem Secured.grows (h : Secured w) (same : w.SameMachine w') {p : Event → Prop}
    (grows : w.Grows w' p) (hp : ∀ b, p (.bindInvoked b) → b = true) : Secured w' where
  config := by rw [same.config]; exact h.config
  ready := by rw [same.stateMachine, same.tlsInplace]; exact h.ready
  binds := fun b hb => (grows.mem_of_mem hb).elim (hp b) (h.binds b)

theorem Secured.calm (h : Secured w) (step : Calm w w') : Secured w' := by
  apply h.grows step.agrees.sameMachine step.grows
  rintro b ⟨rfl, hs⟩
  exact h.ready hs

theorem Secured.enters (h : Secured w) (hinstall : ¬InstallTolerated w.trace)
    {state : LdapConnectionState} (enters : Enters w state) (hs : state = .transportReady) :
    w.tlsInplace = true := by
  cases enters with
  | plain _ config => exact absurd (config.symm.trans h.config) (by decide)
  | secured tls => exact tls.resolve_right hinstall
  | bind code live _ => exact h.ready live
  | _ => cases hs

theorem Secured.inner (h : Secured w) (hinstall : ¬InstallTolerated w.trace) (step : Inner w w') :
    Secured w' := by
  cases step with
  | calm step => exact h.calm step
  | setState state enters =>
    rw [exec_csmSetState]
    cases hs : w.connection.stateMachine with
    | live current =>
      refine ⟨h.config, ?_, ?_⟩
      · intro hstate
        exact h.enters hinstall enters (Pointer.live.inj hstate)
      · intro b hb
        exact h.binds b ((List.mem_cons.mp hb).resolve_left (by rintro ⟨⟩))
    | null => exact h
    | dangling => exact h
  | bindAnswered code _ =>
    exact h.grows (by constructor <;> rfl) (p := fun e => e = .bindAnswered w.connection.msgid code)
      (.one rfl rfl) (by rintro b ⟨⟩)
  | tlsInplace => exact ⟨h.config, fun _ => rfl, h.binds⟩
  | directory => exact ⟨h.config, h.ready, h.binds⟩
  | running => exact ⟨h.config, h.ready, h.binds⟩

theorem Secured.lifecycle (h : Secured w) (step : Lifecycle w w') : Secured w' := by
  have hold : ∀ e, (∀ b, e ≠ .bindInvoked b) → BindsSecured (e :: w.trace) := fun e he b hb =>
    h.binds b ((List.mem_cons.mp hb).resolve_left fun heq => he b heq.symm)
  cases step with
  | closed => exact ⟨h.config, h.ready, h.binds⟩
  | configure failure state _ _ =>
    cases failure with
    | none => exact ⟨h.config, by rintro ⟨⟩, hold _ (by rintro b ⟨⟩)⟩
    | some failure =>
      cases failure with
      | tallocNew => exact ⟨h.config, h.ready, hold _ (by rintro b ⟨⟩)⟩
      | ldapInitialize =>
        refine ⟨h.config, ?_, hold _ (by rintro b ⟨⟩)⟩
        intro hs
        cases state.symm.trans hs
      | _ => exact ⟨h.config, by rintro ⟨⟩, hold _ (by rintro b ⟨⟩)⟩
  | attempt => exact ⟨h.config, h.ready, h.binds⟩
  | reset =>
    refine ⟨h.config, ?_, hold _ (by rintro b ⟨⟩)⟩
    intro hs
    change w.connection.stateMachine.assign .init = _ at hs
    cases hm : w.connection.stateMachine <;> rw [hm] at hs <;> cases hs
  | errorHandler => exact ⟨h.config, h.ready, h.binds⟩

theorem Turn.secured (h : Turn w w') (hinstall : ¬InstallTolerated w'.trace) (hw : Secured w) :
    Secured w' := by
  have hbefore : ¬InstallTolerated w.trace := fun hm => hinstall (h.grows.mem hm)
  cases h with
  | inner h => exact hw.inner hbefore h
  | lifecycle h => exact hw.lifecycle h
  | aside same grows => exact hw.grows same grows fun b hb => hb.elim

/-- With StartTLS configured, no run invokes a bind without TLS in place, as long as
no `ldap_install_tls` has answered `LDAP_LOCAL_ERROR`. -/
theorem run_bindsSecured (config : LdapConnectionConfig) (path : Option Bytes) (steps : List Step)
    (hconfig : config.useStartTls = true)
    (hinstall : .tlsInstalled ldapLocalError ∉ (run config path steps).2.trace) :
    ∀ tlsInplace, .bindInvoked tlsInplace ∈ (run config path steps).2.trace → tlsInplace = true := by
  have hinit : Secured (.initial config path) := by
    refine ⟨hconfig, by rintro ⟨⟩, ?_⟩
    intro b hb
    cases List.mem_singleton.mp hb
  exact (run_invariant_while (C := fun events => ¬InstallTolerated events)
    (fun _ _ h hm => h (List.mem_append_right _ hm)) hinit
    (fun _ _ hs hst hinstall hi => (hst.turn hs).secured hinstall hi) steps hinstall).2.binds

/-- StartTLS is negotiated, `ldap_install_tls` answers with the given code, and the
machine goes on to the bind. -/
def tlsSteps (installTls : Int) : List Step :=
  [.tick { startTls := ⟨ldapSuccess, 1⟩ },
    .read [{ rc := ldapResExtended, msgid := 1, installTls := installTls }],
    .tick { bind := ⟨ldapSuccess, 2⟩ }]

def Event.isInstallTolerated : Event → Bool
  | .tlsInstalled code => code = ldapLocalError
  | _ => false

def Event.isBindInvoked (tlsInplace : Bool) : Event → Bool
  | .bindInvoked b => b = tlsInplace
  | _ => false

theorem bindInvoked_mem_of_any {tlsInplace : Bool} {events : List Event}
    (h : events.any (Event.isBindInvoked tlsInplace) = true) : .bindInvoked tlsInplace ∈ events := by
  obtain ⟨e, he, hb⟩ := List.any_eq_true.mp h
  cases e with
  | bindInvoked b =>
    have hb : b = tlsInplace := of_decide_eq_true hb
    rw [← hb]
    exact he
  | _ => cases hb

theorem not_installTolerated_of_all {events : List Event}
    (h : events.all (fun e => !e.isInstallTolerated) = true) : .tlsInstalled ldapLocalError ∉ events :=
  fun hm => absurd (List.all_eq_true.mp h _ hm) (by decide)

theorem run_bindsSecured_installed :
    .bindInvoked true ∈ (run ⟨true, .simple⟩ none (tlsSteps ldapSuccess)).2.trace ∧
      ∀ tlsInplace, .bindInvoked tlsInplace ∈ (run ⟨true, .simple⟩ none (tlsSteps ldapSuccess)).2.trace →
        tlsInplace = true :=
  ⟨bindInvoked_mem_of_any (by decide +kernel),
    run_bindsSecured ⟨true, .simple⟩ none (tlsSteps ldapSuccess) rfl
      (not_installTolerated_of_all (by decide +kernel))⟩

/-- The tolerated answer lets the bind go out in clear. -/
theorem bindsInClear_of_localError :
    ¬∀ tlsInplace, .bindInvoked tlsInplace ∈
      (run ⟨true, .simple⟩ none (tlsSteps ldapLocalError)).2.trace → tlsInplace = true := by
  intro h
  exact absurd (h false (bindInvoked_mem_of_any (by decide +kernel))) (by decide)

end Libdomain.Connection
