import Libdomain.Connection.Simulation

/-! # Runs as the state machine sees them

The steps of a read pass and of the delivery of a search leave the state
machine, the SASL defaults, the configuration and the TLS layer alone. `Turn`
sorts the moves of a run accordingly, and the lemmas below say which events a
turn can add to the trace.
-/
namespace Libdomain.Connection
open Libdomain.Queue Libdomain.Program

/-- Two worlds that agree on everything the state machine depends on. -/
structure World.SameMachine (w w' : World) : Prop where
  stateMachine : w'.connection.stateMachine = w.connection.stateMachine
  ldapDefaults : w'.connection.ldapDefaults = w.connection.ldapDefaults
  config : w'.connection.config = w.connection.config
  tlsInplace : w'.tlsInplace = w.tlsInplace

def Event.Passive : Event → Prop
  | .write .. | .passBegin _ | .passEnd _ | .passAbandoned .. | .popped _ | .dispatch .. | .deferred _
  | .resultError _ | .released | .searchCallback .. | .searchRemoved .. => True
  | _ => False

/-- The events of a calm step; a bind is only invoked with the transport ready. -/
def Event.Sending (w : World) : Event → Prop
  | .bindInvoked tlsInplace =>
    tlsInplace = w.tlsInplace ∧ w.connection.stateMachine = .live .transportReady
  | .call .. | .unbind _ | .vertoAdd _ | .vertoDel _ | .bindReturned _ | .tlsInstalled _
  | .errorCallback _ | .submission .. | .pushed .. | .write .. | .searchIssued .. | .searchRegistered _ =>
    True
  | _ => False

def World.Grows (w w' : World) (p : Event → Prop) : Prop :=
  ∃ new, w'.trace = new ++ w.trace ∧ ∀ e ∈ new, p e

/-- A move as the state machine sees it. -/
inductive Turn (w w' : World) : Prop
  | inner (step : Inner w w')
  | lifecycle (step : Lifecycle w w')
  | aside (same : w.SameMachine w') (grows : w.Grows w' Event.Passive)

variable {w w' : World} {l : Ledger} {p q : Event → Prop}

theorem World.Grows.none (h : w'.trace = w.trace) : w.Grows w' p := ⟨[], h, by simp⟩

theorem World.Grows.one {e : Event} (h : w'.trace = e :: w.trace) (he : p e) : w.Grows w' p :=
  ⟨[e], h, by simpa using he⟩

theorem World.Grows.two {e e' : Event} (h : w'.trace = e :: e' :: w.trace) (he : p e) (he' : p e') :
    w.Grows w' p := ⟨[e, e'], h, by simp [he, he']⟩

theorem World.Grows.trans {w'' : World} (h : w.Grows w' p) (h' : w'.Grows w'' p) : w.Grows w'' p := by
  obtain ⟨new, ht, hp⟩ := h
  obtain ⟨new', ht', hp'⟩ := h'
  refine ⟨new' ++ new, by rw [ht', ht, List.append_assoc], ?_⟩
  intro e he
  exact (List.mem_append.mp he).elim (hp' e) (hp e)

theorem World.Grows.mono (h : w.Grows w' p) (hp : ∀ e, p e → q e) : w.Grows w' q := by
  obtain ⟨new, ht, hnew⟩ := h
  exact ⟨new, ht, fun e he => hp e (hnew e he)⟩

theorem World.Grows.mem_of_mem (h : w.Grows w' p) {e : Event} (he : e ∈ w'.trace) :
    p e ∨ e ∈ w.trace := by
  obtain ⟨new, ht, hp⟩ := h
  rw [ht] at he
  exact (List.mem_append.mp he).imp_left (hp e)

theorem World.Grows.mem (h : w.Grows w' p) {e : Event} (he : e ∈ w.trace) : e ∈ w'.trace := by
  obtain ⟨new, ht, -⟩ := h
  rw [ht]
  exact List.mem_append_right _ he

theorem World.Agrees.sameMachine (h : w.Agrees w') : w.SameMachine w' :=
  ⟨h.stateMachine, h.ldapDefaults, h.config, h.tlsInplace⟩

theorem grows_announced (w : World) (handler : OperationCallback) (msgid : Int) :
    w.Grows (w.announced handler msgid) (Event.Sending w) := .two rfl trivial trivial

theorem grows_tracked (w : World) (handler : OperationCallback) (msgid : Int) :
    w.Grows (w.tracked handler msgid) (Event.Sending w) :=
  (grows_announced w handler msgid).trans (.one rfl trivial)

theorem Calm.grows (h : Calm w w') : w.Grows w' (Event.Sending w) := by
  cases h with
  | event e plain =>
    refine .one rfl ?_
    cases e <;> trivial
  | «local» => exact .none rfl
  | bindInvoked state => exact .one rfl ⟨rfl, state⟩
  | errorCallback => exact .one rfl trivial
  | schema => exact .none rfl
  | track handler msgid _ =>
    rw [exec_track]
    split_ifs
    · exact grows_tracked w handler msgid
    · exact grows_announced w handler msgid
  | search callback userData msgid =>
    have hissued : w.Grows (w.issued callback userData msgid) (Event.Sending w) := .one rfl trivial
    rw [exec_trackSearch]
    dsimp only
    split_ifs
    · exact (hissued.trans (grows_tracked _ _ _)).trans (.two rfl trivial trivial)
    · exact hissued.trans (grows_tracked _ _ _)
    · exact hissued.trans (grows_announced _ _ _)

theorem Inner.grows (h : Inner w w') : w.Grows w' fun _ => True := by
  cases h with
  | calm h => exact h.grows.mono fun _ _ => trivial
  | setState state _ =>
    rw [exec_csmSetState]
    cases w.connection.stateMachine with
    | live current => exact .one rfl trivial
    | null => exact .none rfl
    | dangling => exact .none rfl
  | bindAnswered => exact .one rfl trivial
  | tlsInplace => exact .none rfl
  | directory => exact .none rfl
  | running => exact .none rfl

theorem Lifecycle.grows (h : Lifecycle w w') : w.Grows w' fun _ => True := by
  cases h with
  | configure failure _ _ _ =>
    cases failure with
    | none => exact .one rfl trivial
    | some failure => exact .one (congrArg _ (trace_failedConfiguration w failure)) trivial
  | reset => exact .one rfl trivial
  | _ => exact .none rfl

theorem Answer.turn (h : Answer w w') : Turn w w' := by
  cases h with
  | callback => exact .aside (by constructor <;> rfl) (.one rfl trivial)
  | write => exact .aside (by constructor <;> rfl) (.one rfl trivial)
  | remove index =>
    obtain ⟨searchRequests, he⟩ := w.connection.removeSearchRequest_eq index
    refine .aside ?_ (.one rfl trivial)
    rw [World.removed, he]
    constructor <;> rfl

theorem World.Grows.finished (w : World) (hend : ∀ c, p (.passEnd c)) (hwrite : ∀ j, p (.write .readRequests j)) :
    w.Grows w.finished p := by
  refine ⟨.passEnd _ :: restoreWrites 0 _, rfl, ?_⟩
  intro e he
  rcases List.mem_cons.mp he with rfl | he
  · exact hend _
  · obtain ⟨j, -, -, rfl⟩ := mem_restoreWrites he
    exact hwrite j

theorem sameMachine_finished (w : World) : w.SameMachine w.finished := by
  obtain ⟨queue, readRequests, he⟩ := LdapConnectionCtx.restored_eq
    { w.connection with nReadRequests := 0 } 0 w.pendingRequests
  unfold World.finished LdapConnectionCtx.finished
  rw [he]
  constructor <;> rfl

theorem Serve.turn (h : Serve w w') (hw : Tracks w l) : Turn w w' := by
  cases h with
  | defer slot top _ =>
    rw [exec_deferRequest, if_pos (hw.deferred top).1]
    exact .aside (by constructor <;> rfl) (.two rfl trivial trivial)
  | _ => exact .aside (by constructor <;> rfl) (.one rfl trivial)

theorem Pass.turn (h : Pass w w') (hw : Tracks w l) : Turn w w' := by
  cases h with
  | finish _ _ _ drained =>
    rw [exec_finishPass w (hw.finished drained).1]
    exact .aside (sameMachine_finished w) (.finished w (fun _ => trivial) fun _ => trivial)
  | _ => exact .aside (by constructor <;> rfl) (.one rfl trivial)

theorem Move.turn (h : Move w w') (hw : Tracks w l) : Turn w w' := by
  cases h with
  | tick h =>
    cases h with
    | inner h => exact .inner h
    | lifecycle h => exact .lifecycle h
  | serving h =>
    cases h with
    | handling h =>
      cases h with
      | inner h => exact .inner h
      | answer h => exact h.turn
    | serve h => exact h.turn hw
  | pass h => exact h.turn hw

theorem Turn.grows (h : Turn w w') : w.Grows w' fun _ => True := by
  cases h with
  | inner h => exact h.grows
  | lifecycle h => exact h.grows
  | aside _ grows => exact grows.mono fun _ _ => trivial

theorem Move.grows (h : Move w w') (hw : Tracks w l) : w.Grows w' fun _ => True := (h.turn hw).grows

/-- An invariant of the moves whose trace meets a condition holds wherever a run ends
up whose trace meets it, if each part of such a trace does. -/
theorem run_invariant_while {config : LdapConnectionConfig} {path : Option Bytes}
    {I : World → Prop} {C : List Event → Prop}
    (hpart : ∀ new events, C (new ++ events) → C events) (hinit : I (.initial config path))
    (hmove : ∀ s t, Simulated s → Move s t → C t.trace → I s → I t) (steps : List Step)
    (hC : C (run config path steps).2.trace) :
    Simulated (run config path steps).2 ∧ I (run config path steps).2 := by
  have hrun := run_invariant_of_simulated (I := fun w => C w.trace → I w) (fun _ => hinit) ?_ steps
  · exact ⟨hrun.1, hrun.2 hC⟩
  · intro s t hs hst hi hCt
    obtain ⟨new, ht, -⟩ := hst.grows hs
    exact hmove s t hs hst hCt (hi (hpart new s.trace (ht ▸ hCt)))

end Libdomain.Connection
