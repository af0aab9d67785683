import Libdomain.Connection.Upkeep

/-! # Deleting the event sources

`connection_close` deletes the two event sources recorded in the connection, but leaves them
recorded. The connection is closed by each tick in the error state and by `ld_free`, so the
sources are deleted again unless new ones have been registered in between.
-/
namespace Libdomain.Connection
open Libdomain.Queue Libdomain.Program

def Event.deletedSource : Event → Option ℕ
  | .vertoDel event => some event
  | _ => none

def deletions (events : List Event) : List ℕ := events.filterMap Event.deletedSource

def DeletedOnce (events : List Event) : Prop := (deletions events).Nodup

instance (events : List Event) : Decidable (DeletedOnce events) := inferInstanceAs (Decidable (List.Nodup _))

/-- Event sources have been registered since the last ones were deleted. -/
def armed : List Event → Bool
  | [] => false
  | .vertoAdd _ :: _ => true
  | .vertoDel _ :: _ => false
  | _ :: events => armed events

/-- The connection has event sources it may delete, or none at all. -/
def World.Armed (w : World) : Prop := w.connection.readEvent = none ∨ armed w.trace = true

instance (w : World) : Decidable w.Armed := inferInstanceAs (Decidable (_ ∨ _))

/-- The connection is closed at most once between two installations of the handlers. -/
def ClosesArmed (config : LdapConnectionConfig) (path : Option Bytes) (steps : List Step) : Prop :=
  EachStep (fun w step => step.Reconnects w → w.Armed) steps (.initial config path) ∧
    ∀ w, run config path steps = (.ok (), w) → w.Armed

def Event.Sourceless : Event → Prop
  | .vertoAdd _ | .vertoDel _ => False
  | _ => True

structure World.Spares (w w' : World) : Prop where
  readEvent : w'.connection.readEvent = w.connection.readEvent
  writeEvent : w'.connection.writeEvent = w.connection.writeEvent
  events : w'.events = w.events
  grows : w.Grows w' Event.Sourceless

/-- The recorded event sources exist and are distinct, and none has been deleted twice; they
have not been deleted at all since they were registered. -/
structure Sources (w : World) : Prop where
  deleted_lt : ∀ event ∈ deletions w.trace, event < w.events
  read_lt : ∀ event, w.connection.readEvent = some event → event < w.events
  write_lt : ∀ event, w.connection.writeEvent = some event → event < w.events
  distinct : ∀ event, w.connection.readEvent = some event → w.connection.writeEvent ≠ some event
  paired : w.connection.readEvent = none → w.connection.writeEvent = none
  once : DeletedOnce w.trace
  undeleted : armed w.trace = true → ∀ event,
    w.connection.readEvent = some event ∨ w.connection.writeEvent = some event → event ∉ deletions w.trace

variable {w w' w'' : World} {p : Option ℕ → Event → Prop}

theorem armed_append {new : List Event} (h : ∀ e ∈ new, e.Sourceless) (events : List Event) :
    armed (new ++ events) = armed events := by
  induction new with
  | nil => rfl
  | cons e new ih =>
    have hrest := ih fun e' he => h e' (List.mem_cons_of_mem e he)
    have he := h e List.mem_cons_self
    cases e with
    | vertoAdd => exact he.elim
    | vertoDel => exact he.elim
    | _ => exact hrest

theorem deletions_append {new : List Event} (h : ∀ e ∈ new, e.Sourceless) (events : List Event) :
    deletions (new ++ events) = deletions events := by
  have hnone : deletions new = [] := by
    apply List.filterMap_eq_nil_iff.mpr
    intro e he
    have hsourceless := h e he
    cases e with
    | vertoDel => exact hsourceless.elim
    | _ => rfl
  rw [deletions, List.filterMap_append, ← deletions, hnone, List.nil_append]
  rfl

theorem World.Within.spares (h : w.Within Event.Serves w') : w.Spares w' := by
  refine ⟨h.readEvent, h.writeEvent, h.events, h.grows.mono fun e he => ?_⟩
  cases e <;> first | exact he.elim | trivial

theorem spares_unbound (w : World) : w.Spares w.unbound := ⟨rfl, rfl, rfl, .one rfl trivial⟩

theorem Sources.spares (h : Sources w) (hs : w.Spares w') : Sources w' := by
  obtain ⟨new, ht, hnew⟩ := hs.grows
  have hdeletions : deletions w'.trace = deletions w.trace := by rw [ht, deletions_append hnew]
  have harmed : armed w'.trace = armed w.trace := by rw [ht, armed_append hnew]
  refine ⟨?_, ?_, ?_, ?_, ?_, ?_, ?_⟩
  · rw [hdeletions, hs.events]
    exact h.deleted_lt
  · rw [hs.readEvent, hs.events]
    exact h.read_lt
  · rw [hs.writeEvent, hs.events]
    exact h.write_lt
  · rw [hs.readEvent, hs.writeEvent]
    exact h.distinct
  · rw [hs.readEvent, hs.writeEvent]
    exact h.paired
  · rw [DeletedOnce, hdeletions]
    exact h.once
  · rw [harmed, hdeletions, hs.readEvent, hs.writeEvent]
    exact h.undeleted

theorem Sources.installed (h : Sources w) : Sources w.installed := by
  have hdeleted : ∀ event ∈ deletions w.trace, event < w.events + 2 := by
    intro event he
    have hlt := h.deleted_lt event he
    omega
  refine ⟨hdeleted, ?_, ?_, ?_, ?_, h.once, ?_⟩
  · intro event he
    have heq : w.events = event := by simpa [World.installed] using he
    change event < w.events + 2
    omega
  · intro event he
    have heq : w.events + 1 = event := by simpa [World.installed] using he
    change event < w.events + 2
    omega
  · intro event hread hwrite
    have hr : w.events = event := by simpa [World.installed] using hread
    have hw : w.events + 1 = event := by simpa [World.installed] using hwrite
    omega
  · intro hread
    simp [World.installed] at hread
  · intro _ event hevent he
    have hlt := h.deleted_lt event he
    have heq : w.events = event ∨ w.events + 1 = event := by simpa [World.installed] using hevent
    omega

theorem World.Prepares.sources (h : w.Prepares w') (hw : Sources w) : Sources w' := by
  have hsends : ∀ {s t : World}, s.Within Event.Sends t → s.Spares t := fun h =>
    World.Within.spares (h.mono fun _ => Event.Sends.serves)
  cases h with
  | sends h => exact hw.spares (hsends h)
  | installs t h _ h' => exact (hw.spares (hsends h)).installed.spares (hsends h')

theorem Sources.deletes (h : Sources w) {event : ℕ} {events : List ℕ}
    (htrace : w.deleted.trace = .vertoDel event :: (events.map .vertoDel ++ w.trace))
    (hlt : ∀ e ∈ event :: events, e < w.events) (hnodup : (event :: events).Nodup)
    (hfresh : ∀ e ∈ event :: events, e ∉ deletions w.trace) : Sources w.deleted := by
  have hdeleted : deletions (events.map .vertoDel) = events := by
    rw [deletions, List.filterMap_map]
    exact List.filterMap_some
  have hdeletions : deletions w.deleted.trace = (event :: events) ++ deletions w.trace := by
    have happend : deletions (events.map .vertoDel ++ w.trace) = events ++ deletions w.trace := by
      rw [deletions, List.filterMap_append]
      exact congrArg (· ++ deletions w.trace) hdeleted
    rw [htrace]
    exact congrArg (event :: ·) happend
  refine ⟨?_, h.read_lt, h.write_lt, h.distinct, h.paired, ?_, ?_⟩
  · rw [hdeletions, List.forall_mem_append]
    exact ⟨hlt, h.deleted_lt⟩
  · rw [DeletedOnce, hdeletions]
    exact hnodup.append h.once hfresh
  · rw [htrace]
    intro hfalse
    cases hfalse

theorem Sources.deleted (h : Sources w) (ha : w.Armed) : Sources w.deleted := by
  cases hread : w.connection.readEvent with
  | none =>
    have hwrite := h.paired hread
    have hsame : w.deleted = w := by
      rw [World.deleted, hread, hwrite]
      rfl
    rw [hsame]
    exact h
  | some r =>
    have harmed : armed w.trace = true := by
      rcases ha with ha | ha
      · rw [hread] at ha
        cases ha
      · exact ha
    have hr : r ∉ deletions w.trace := h.undeleted harmed r (.inl hread)
    cases hwrite : w.connection.writeEvent with
    | none =>
      have htrace : w.deleted.trace = .vertoDel r :: ([].map .vertoDel ++ w.trace) := by
        rw [World.deleted, hread, hwrite]
        rfl
      refine h.deletes htrace ?_ (List.nodup_singleton r) ?_
      · exact List.forall_mem_singleton.mpr (h.read_lt r hread)
      · exact List.forall_mem_singleton.mpr hr
    | some u =>
      have hu : u ∉ deletions w.trace := h.undeleted harmed u (.inr hwrite)
      have hne : u ≠ r := by
        intro heq
        exact h.distinct r hread (heq ▸ hwrite)
      have htrace : w.deleted.trace = .vertoDel u :: ([r].map .vertoDel ++ w.trace) := by
        rw [World.deleted, hread, hwrite]
        rfl
      refine h.deletes htrace ?_ (by simpa using hne) ?_
      · exact List.forall_mem_cons.mpr ⟨h.write_lt u hwrite, List.forall_mem_singleton.mpr (h.read_lt r hread)⟩
      · exact List.forall_mem_cons.mpr ⟨hu, List.forall_mem_singleton.mpr hr⟩

theorem spares_closed (w : World) : w.deleted.Spares w.closed := ⟨rfl, rfl, rfl, .none rfl⟩

theorem spares_reconnected (w : World) (failure : Option ConfigureFailure) :
    w.closed.Spares (w.reconnected failure) := by
  cases failure with
  | none => exact ⟨rfl, rfl, rfl, .two rfl trivial trivial⟩
  | some failure => cases failure <;> exact ⟨rfl, rfl, rfl, .two rfl trivial trivial⟩

theorem Sources.reconnect (h : Sources w) (hs : w.connection.stateMachine = .live .error) (ha : w.Armed)
    (i : TickInput) : Sources (exec (reconnect i) w).2 := by
  by_cases hd : w.connection.ldapDefaults = .dangling
  · rw [exec_reconnect_dangling hd]
    exact h
  · have hclosed := (h.deleted ha).spares (spares_closed w)
    rw [exec_reconnect hs hd]
    dsimp only
    split_ifs
    · exact hclosed.spares (spares_reconnected w i.configure)
    · exact hclosed

/-- Wherever `ld_free` ends, armed sources have been deleted once. -/
theorem Sources.freed (h : Sources w) (ha : w.Armed) : Sources (exec ldFree w).2 := by
  have hdeleted := h.deleted ha
  have hclosed := hdeleted.spares (spares_closed w)
  rw [snd_ldFree]
  by_cases hlost : (∀ state, w.connection.stateMachine ≠ .live state) ∨ w.connection.ldapDefaults = .dangling
  · rcases exec_connectionClose_lost hlost with he | he
    · rw [he]
      exact h
    · rw [he]
      exact hdeleted
  · simp only [not_or, not_forall, not_not] at hlost
    obtain ⟨⟨state, hs⟩, hd⟩ := hlost
    obtain ⟨code, he⟩ := exec_connectionClose hs hd
    rw [he]
    dsimp only
    split_ifs
    · exact hclosed
    · exact hclosed.spares (spares_unbound _)

theorem Sources.step (h : Sources w) (step : Step) (hC : step.Reconnects w → w.Armed) :
    Sources (exec step.perform w).2 := by
  by_cases hstep : step.Reconnects w
  · obtain ⟨⟨i, rfl⟩, hs⟩ := id hstep
    rw [exec_tick_reconnect hs]
    exact h.reconnect hs (hC hstep) i
  · cases step with
    | tick i =>
      have hs : w.connection.stateMachine ≠ .live .error := fun hs => hstep ⟨⟨i, rfl⟩, hs⟩
      have hgivesUp : ∀ {s t : World}, s.GivesUp t → s.Spares t := fun hg =>
        World.Within.spares (hg.within.mono fun _ he => he.sends.serves)
      have hsends : ∀ {t : World}, w.Within Event.Sends t → w.Spares t := fun ht =>
        World.Within.spares (ht.mono fun _ => Event.Sends.serves)
      cases upkeep_tick i hs with
      | kept hprepares => exact hprepares.sources h
      | released t ht hg =>
        exact ((h.spares (hsends ht)).spares (spares_unbound t)).spares (hgivesUp hg)
      | twice t ht _ _ hg =>
        have htwice := (h.spares (hsends ht)).spares (spares_unbound t)
        exact (htwice.spares (spares_unbound t.unbound)).spares (hgivesUp hg)
    | _ => exact h.spares (within_step _ (by simp)).spares

theorem sources_initial (config : LdapConnectionConfig) (path : Option Bytes) :
    Sources (.initial config path) := by
  have hdeletions : deletions (World.initial config path).trace = [] := rfl
  have hread : (World.initial config path).connection.readEvent = none := rfl
  have hwrite : (World.initial config path).connection.writeEvent = none := rfl
  refine ⟨by simp [hdeletions], by simp [hread], by simp [hwrite], by simp [hread], fun _ => hwrite, ?_,
    by simp [hread, hwrite]⟩
  rw [DeletedOnce, hdeletions]
  exact List.nodup_nil

/-- In every run in which the connection is only closed after the handlers have been installed
anew, no event source is deleted twice, `ld_free` included. -/
theorem runAndFree_deletedOnce (config : LdapConnectionConfig) (path : Option Bytes) (steps : List Step)
    (h : ClosesArmed config path steps) : DeletedOnce (runAndFree config path steps).2.trace := by
  have hrun : Sources (run config path steps).2 :=
    performSteps_keeps (I := Sources) (fun w step hC hi => hi.step step hC) steps h.1 (sources_initial config path)
  rcases runAndFree_cases config path steps with ⟨w, he, hfree⟩ | hstuck
  · rw [he] at hrun
    rw [hfree]
    exact (hrun.freed (h.2 w he)).once
  · rw [hstuck]
    exact hrun.once

def undetectedSteps : List Step := [.tick {}, .tick {}, .tick { directory := ⟨1, 0⟩ }]

def renewedSteps : List Step := undetectedSteps ++ [.tick {}, .tick {}, .tick {}]

theorem closesArmed_renewed : ClosesArmed ⟨false, .simple⟩ none renewedSteps := by
  constructor
  · decide +kernel
  · intro w he
    have hw : w = (run ⟨false, .simple⟩ none renewedSteps).2 := by rw [he]
    rw [hw]
    decide +kernel

theorem runAndFree_deletedOnce_renewed : DeletedOnce (runAndFree ⟨false, .simple⟩ none renewedSteps).2.trace :=
  runAndFree_deletedOnce ⟨false, .simple⟩ none renewedSteps closesArmed_renewed

/-- Freed before the handlers have been installed again, the connection deletes its old event
sources once more. -/
theorem deletedTwice : (runAndFree ⟨false, .simple⟩ none (undetectedSteps ++ [.tick {}])).1 = .ok () ∧
    ¬DeletedOnce (runAndFree ⟨false, .simple⟩ none (undetectedSteps ++ [.tick {}])).2.trace := by
  constructor
  · decide +kernel
  · decide +kernel

end Libdomain.Connection
