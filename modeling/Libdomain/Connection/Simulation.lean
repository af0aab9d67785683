import Libdomain.Connection.Ledger

/-! # The code simulates the ledger

`Effect` sorts the moves of a run by what they do to the requests and searches
of the connection. In every state of a run the connection tracks exactly the
ledger its trace replays to.
-/
namespace Libdomain.Connection
open Libdomain.Queue Libdomain.Program

def Event.Quiet (w : World) : Event → Prop
  | .call .. | .unbind _ | .vertoAdd _ | .vertoDel _ | .bindInvoked _ | .bindReturned _
  | .bindAnswered .. | .tlsInstalled _ | .transition .. => True
  | .errorCallback c => c = w.connection
  | .configureFailed failure => failure ≠ .eventBase
  | _ => False

/-- The connection emptied by `connection_configure`. -/
structure Emptied (w : World) : Prop where
  callqueue : w.connection.callqueue = requestQueueNew maxRequests
  nReadRequests : w.connection.nReadRequests = 0
  nSearchRequests : w.connection.nSearchRequests = 0
  frame : w.frame = none

/-- The effect of a move on requests and searches. -/
inductive Effect : World → World → Prop
  | quiet {w w' : World} (same : SameRequests w w') (trace : w'.trace = w.trace) : Effect w w'
  | event {w w' : World} (e : Event) (quiet : e.Quiet w) (same : SameRequests w w')
      (trace : w'.trace = e :: w.trace) : Effect w w'
  | overflow (w : World) (handler : OperationCallback) (msgid : Int)
      (full : maxRequests ≤ w.connection.nReadRequests) : Effect w (w.announced handler msgid)
  | tracked (w : World) (handler : OperationCallback) (msgid : Int)
      (other : handler ≠ .searchOnRead) (room : w.connection.nReadRequests < maxRequests) :
      Effect w (w.tracked handler msgid)
  | searchOverflow (w : World) (callback : SearchCallback) (userData : UserData) (msgid : Int)
      (full : maxRequests ≤ w.connection.nReadRequests) :
      Effect w ((w.issued callback userData msgid).announced .searchOnRead msgid)
  | searchFull (w : World) (callback : SearchCallback) (userData : UserData) (msgid : Int)
      (room : w.connection.nReadRequests < maxRequests)
      (full : maxRequests ≤ w.connection.nSearchRequests + 1) :
      Effect w ((w.issued callback userData msgid).tracked .searchOnRead msgid)
  | searched (w : World) (callback : SearchCallback) (userData : UserData) (msgid : Int)
      (room : w.connection.nReadRequests < maxRequests)
      (tableRoom : w.connection.nSearchRequests + 1 < maxRequests) :
      Effect w (((w.issued callback userData msgid).tracked .searchOnRead msgid).registered
        ⟨msgid, some callback, userData⟩)
  | answer {w w' : World} (step : Answer w w') : Effect w w'
  | configured {w w' : World} (frame : w.frame = none) (emptied : Emptied w')
      (epoch : w'.epoch = w.epoch + 1) (trace : w'.trace = .configured :: w.trace) : Effect w w'
  | eventBase {w w' : World} (frame : w.frame = none) (emptied : Emptied w')
      (epoch : w'.epoch = w.epoch) (trace : w'.trace = .configureFailed .eventBase :: w.trace) :
      Effect w w'
  | begin (w : World) (frame : w.frame = none) : Effect w (exec beginPass w).2
  | pop (w : World) (slot : ℕ) (queue : RequestQueue ℕ) (frame : w.frame.isSome = true)
      (top : w.top = none) (settled : (delivery w.trace).Settled)
      (popped : requestQueuePop w.connection.callqueue w.connection.links = (some slot, queue)) :
      Effect w (w.popped slot queue)
  | resultError (w : World) (slot : ℕ) (top : w.top = some slot) (idle : delivery w.trace = .idle) :
      Effect w (w.record (.resultError (w.connection.readRequests slot)))
  | defer (w : World) (slot : ℕ) (top : w.top = some slot) (idle : delivery w.trace = .idle) :
      Effect w (w.deferred (w.connection.readRequests slot))
  | dispatch (w : World) (slot : ℕ) (r : Response) (top : w.top = some slot)
      (idle : delivery w.trace = .idle) :
      Effect w (exec (announce slot (w.connection.readRequests slot) r) w).2
  | release (w : World) (frame : w.frame.isSome = true) (completed : (delivery w.trace).Completed) :
      Effect w (exec releaseTop w).2
  | finish (w : World) (frame : w.frame.isSome = true) (top : w.top = none)
      (settled : (delivery w.trace).Settled)
      (drained : requestQueueEmpty w.connection.callqueue = true ∨ w.connection.callqueue.head = none) :
      Effect w w.finished
  | abandon (w : World) (slot : ℕ) (top : w.top = some slot) (idle : delivery w.trace = .idle) :
      Effect w (exec abandonPass w).2

def Simulated (w : World) : Prop := Tracks w (replay w.trace)

variable {w w' : World} {l : Ledger}

theorem Event.Plain.quiet {e : Event} (h : e.Plain) : e.Quiet w := by
  cases e <;> trivial

theorem Calm.effect (h : Calm w w') : Effect w w' := by
  cases h with
  | event e plain => exact .event e plain.quiet (by constructor <;> rfl) rfl
  | «local» => exact .quiet (by constructor <;> rfl) rfl
  | bindInvoked => exact .event (.bindInvoked w.tlsInplace) trivial (by constructor <;> rfl) rfl
  | errorCallback => exact .event (.errorCallback w.connection) rfl (by constructor <;> rfl) rfl
  | schema => exact .quiet (by constructor <;> rfl) rfl
  | track handler msgid other =>
    rw [exec_track]
    split_ifs with hn
    · exact .tracked w handler msgid other hn
    · exact .overflow w handler msgid (by omega)
  | search callback userData msgid =>
    rw [exec_trackSearch]
    dsimp only
    split_ifs with hn hs
    · exact .searched w callback userData msgid hn hs
    · exact .searchFull w callback userData msgid hn (by omega)
    · exact .searchOverflow w callback userData msgid (by omega)

theorem Inner.effect (h : Inner w w') : Effect w w' := by
  cases h with
  | calm h => exact h.effect
  | setState state _ =>
    rw [exec_csmSetState]
    cases hs : w.connection.stateMachine with
    | live current => exact .event (.transition current state) trivial (by constructor <;> rfl) rfl
    | null => exact .quiet (by constructor <;> rfl) rfl
    | dangling => exact .quiet (by constructor <;> rfl) rfl
  | bindAnswered code _ =>
    exact .event (.bindAnswered w.connection.msgid code) trivial (by constructor <;> rfl) rfl
  | tlsInplace => exact .quiet (by constructor <;> rfl) rfl
  | directory => exact .quiet (by constructor <;> rfl) rfl
  | running => exact .quiet (by constructor <;> rfl) rfl

theorem sameRequests_failedConfiguration {failure : ConfigureFailure} (h : failure ≠ .eventBase)
    (w : World) : SameRequests w (failedConfiguration w failure) := by
  cases failure with
  | eventBase => exact absurd rfl h
  | _ => constructor <;> rfl

theorem trace_failedConfiguration (w : World) (failure : ConfigureFailure) :
    (failedConfiguration w failure).trace = w.trace := by
  cases failure <;> rfl

theorem Lifecycle.effect (h : Lifecycle w w') : Effect w w' := by
  cases h with
  | closed => exact .quiet (by constructor <;> rfl) rfl
  | configure failure _ frame _ =>
    cases failure with
    | none => exact .configured frame ⟨rfl, rfl, rfl, frame⟩ rfl rfl
    | some failure =>
      by_cases hf : failure = .eventBase
      · subst hf
        exact .eventBase frame ⟨rfl, rfl, rfl, frame⟩ rfl rfl
      · have hsame := sameRequests_failedConfiguration hf w
        refine .event (.configureFailed failure) hf ?_ ?_
        · exact ⟨hsame.1, hsame.2, hsame.3, hsame.4, hsame.5, hsame.6, hsame.7⟩
        · exact congrArg _ (trace_failedConfiguration w failure)
  | attempt => exact .quiet (by constructor <;> rfl) rfl
  | reset => exact .event (.transition .error .init) trivial (by constructor <;> rfl) rfl
  | errorHandler => exact .quiet (by constructor <;> rfl) rfl

theorem Serve.effect (h : Serve w w') (hw : Tracks w l) : Effect w w' := by
  cases h with
  | pop slot queue frame top settled popped => exact .pop w slot queue frame top settled popped
  | resultError slot top idle => exact .resultError w slot top idle
  | defer slot top idle =>
    rw [exec_deferRequest, if_pos (hw.deferred top).1]
    exact .defer w slot top idle
  | dispatch slot r top idle => exact .dispatch w slot r top idle
  | release frame completed => exact .release w frame completed

theorem Serving.effect (h : Serving w w') (hw : Tracks w l) : Effect w w' := by
  cases h with
  | handling h =>
    cases h with
    | inner h => exact h.effect
    | answer h => exact .answer h
  | serve h => exact h.effect hw

/-- Every move has its effect; the arrays are large enough for a running pass. -/
theorem Move.effect (h : Move w w') (hw : Tracks w l) : Effect w w' := by
  cases h with
  | tick h =>
    cases h with
    | inner h => exact h.effect
    | lifecycle h => exact h.effect
  | serving h => exact h.effect hw
  | pass h =>
    cases h with
    | begin frame => exact .begin w frame
    | finish frame top settled drained =>
      rw [exec_finishPass w (hw.finished drained).1]
      exact .finish w frame top settled drained
    | abandon slot top idle => exact .abandon w slot top idle

theorem apply_quiet {e : Event} (h : e.Quiet w) (l : Ledger) : l.apply e = l := by
  cases e with
  | configureFailed failure => cases failure <;> first | rfl | exact absurd rfl h
  | pushed => exact h.elim
  | popped => exact h.elim
  | deferred => exact h.elim
  | released => exact h.elim
  | passEnd => exact h.elim
  | passAbandoned => exact h.elim
  | searchRegistered => exact h.elim
  | searchRemoved => exact h.elim
  | configured => exact h.elim
  | _ => rfl

theorem Event.Quiet.delivery {e : Event} (h : e.Quiet w) (events : List Event) :
    Connection.delivery (e :: events) = Connection.delivery events := by
  cases e with
  | passBegin => exact h.elim
  | popped => exact h.elim
  | resultError => exact h.elim
  | dispatch => exact h.elim
  | searchCallback => exact h.elim
  | searchRemoved => exact h.elim
  | _ => rfl

theorem mem_restoreWrites {i n : ℕ} {e : Event} (h : e ∈ restoreWrites i n) :
    ∃ j, i ≤ j ∧ j < i + n ∧ e = .write .readRequests j := by
  rw [restoreWrites, List.mem_reverse, List.mem_map] at h
  obtain ⟨j, hj, rfl⟩ := h
  obtain ⟨hi, hn⟩ := List.mem_range'_1.mp hj
  exact ⟨j, hi, hn, rfl⟩

/-- What a write of a read request leaves true of a trace, the restore loop leaves true. -/
theorem restoreWrites_induction {P : List Event → Prop}
    (h : ∀ j events, P events → P (.write .readRequests j :: events)) (i n : ℕ) {events : List Event}
    (hevents : P events) : P (restoreWrites i n ++ events) := by
  have hwrites : ∀ new : List Event, (∀ e ∈ new, ∃ j, e = .write .readRequests j) → P (new ++ events) := by
    intro new
    induction new with
    | nil => exact fun _ => hevents
    | cons e new ih =>
      intro hnew
      obtain ⟨j, rfl⟩ := hnew e List.mem_cons_self
      exact h j _ (ih fun e he => hnew e (List.mem_cons_of_mem _ he))
  apply hwrites
  intro e he
  obtain ⟨j, -, -, rfl⟩ := mem_restoreWrites he
  exact ⟨j, rfl⟩

theorem replay_restoreWrites (i n : ℕ) (events : List Event) :
    replay (restoreWrites i n ++ events) = replay events :=
  restoreWrites_induction (P := fun trace => replay trace = replay events) (fun _ _ h => h) i n rfl

theorem Ledger.apply_popped {payload : Payload} {rest : List Payload} (hq : l.queue = payload :: rest) (slot : ℕ) :
    l.apply (.popped slot) = { l with queue := rest, top := some payload } := by
  simp only [Ledger.apply, hq, List.tail_cons, List.head?_cons]

theorem Effect.simulated (h : Effect w w') (hw : Simulated w) : Simulated w' := by
  unfold Simulated at hw ⊢
  cases h with
  | quiet same trace =>
    rw [trace]
    exact hw.congr same
  | event e quiet same trace =>
    rw [trace, replay, apply_quiet quiet]
    exact hw.congr same
  | overflow handler msgid full => exact hw.congr (by constructor <;> rfl)
  | tracked handler msgid other room => exact hw.track room handler msgid
  | searchOverflow callback userData msgid full => exact hw.congr (by constructor <;> rfl)
  | searchFull callback userData msgid room full =>
    have hissued : Tracks (w.issued callback userData msgid) (replay w.trace) :=
      hw.congr (by constructor <;> rfl)
    exact hissued.track room _ _
  | searched callback userData msgid room tableRoom =>
    have hissued : Tracks (w.issued callback userData msgid) (replay w.trace) :=
      hw.congr (by constructor <;> rfl)
    exact (hissued.track room _ _).registered tableRoom _
  | answer step =>
    cases step with
    | callback => exact hw.congr (by constructor <;> rfl)
    | write => exact hw.congr (by constructor <;> rfl)
    | remove index live _ => exact hw.removed live
  | configured _ emptied _ trace =>
    rw [trace]
    exact tracks_empty emptied.frame emptied.callqueue emptied.nReadRequests emptied.nSearchRequests
  | eventBase _ emptied _ trace =>
    rw [trace]
    exact tracks_empty emptied.frame emptied.callqueue emptied.nReadRequests emptied.nSearchRequests
  | begin frame => exact hw.begin frame
  | pop slot queue frame top _ popped =>
    obtain ⟨payload, rest, hq, -, ht⟩ := hw.popped frame top popped
    change Tracks _ ((replay w.trace).apply (.popped slot))
    rw [Ledger.apply_popped hq]
    exact ht
  | resultError => exact hw.congr (by constructor <;> rfl)
  | defer slot top _ =>
    have htop := hw.top_eq top
    have happly : (replay w.trace).apply (.deferred (w.connection.readRequests slot)) =
        { replay w.trace with
          pending := (replay w.trace).pending ++ [(w.connection.readRequests slot).payload]
          top := none } := by
      simp only [Ledger.apply, htop, Option.toList_some]
    change Tracks _ ((replay w.trace).apply (.deferred _))
    rw [happly]
    exact (hw.deferred top).2
  | dispatch => exact hw.congr (by constructor <;> rfl)
  | release => exact hw.released
  | finish frame top _ drained =>
    change Tracks _ ((replay (restoreWrites 0 _ ++ w.trace)).apply (.passEnd _))
    rw [replay_restoreWrites]
    exact (hw.finished drained).2.2
  | abandon => exact hw.abandoned

theorem simulated_initial (config : LdapConnectionConfig) (path : Option Bytes) :
    Simulated (.initial config path) := tracks_empty rfl rfl rfl rfl

/-- An invariant of the moves between simulated worlds holds wherever a run ends up. -/
theorem run_invariant_of_simulated {config : LdapConnectionConfig} {path : Option Bytes}
    {I : World → Prop} (hinit : I (.initial config path))
    (hmove : ∀ s t, Simulated s → Move s t → I s → I t) (steps : List Step) :
    Simulated (run config path steps).2 ∧ I (run config path steps).2 := by
  apply run_invariant (I := fun w => Simulated w ∧ I w)
  · exact ⟨simulated_initial config path, hinit⟩
  · rintro s t hst ⟨hs, hi⟩
    exact ⟨(hst.effect hs).simulated hs, hmove s t hs hst hi⟩

theorem run_invariant_of_effects {config : LdapConnectionConfig} {path : Option Bytes}
    {I : World → Prop} (hinit : I (.initial config path))
    (heffect : ∀ s t, Simulated s → Effect s t → I s → I t) (steps : List Step) :
    Simulated (run config path steps).2 ∧ I (run config path steps).2 :=
  run_invariant_of_simulated hinit (fun s t hs hst => heffect s t hs (hst.effect hs)) steps

/-- Wherever a run ends up, the connection tracks what its trace replays to. -/
theorem run_simulated (config : LdapConnectionConfig) (path : Option Bytes) (steps : List Step) :
    Simulated (run config path steps).2 :=
  (run_invariant_of_effects (I := fun _ => True) trivial (fun _ _ _ _ _ => trivial) steps).1

end Libdomain.Connection
