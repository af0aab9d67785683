import Libdomain.Connection.Conservation
import Libdomain.Connection.Upkeep

/-! # Releasing the handle

A handle is released when StartTLS or a bind is refused, when the handlers cannot be
installed, and by `connection_close` outside the error state. As long as no operation is
started between a refusal and the next reconfiguration, no released handle is used again.
-/
namespace Libdomain.Connection
open Libdomain.Queue Libdomain.Program

variable {w w' w'' : World}

def Event.handle : Event → Option ℕ
  | .call handle _ => handle
  | .unbind handle => handle
  | _ => none

def Event.unbinds : Event → Option ℕ
  | .unbind handle => handle
  | _ => none

/-- An event does not use the handle that an earlier one has released. -/
def Event.Respects (later earlier : Event) : Prop :=
  ∀ handle, earlier.unbinds = some handle → later.handle ≠ some handle

def HandlesRespected (events : List Event) : Prop := events.Pairwise Event.Respects

instance (later earlier : Event) : Decidable (later.Respects earlier) :=
  match he : earlier.unbinds with
  | none => isTrue (by simp [Event.Respects, he])
  | some handle => decidable_of_iff (later.handle ≠ some handle) (by simp [Event.Respects, he])

instance (events : List Event) : Decidable (HandlesRespected events) :=
  inferInstanceAs (Decidable (List.Pairwise _ _))

def releases (events : List Event) : List ℕ := events.filterMap Event.unbinds

def World.Held (w : World) : Prop := ∀ handle, w.connection.ldap = some handle → handle ∉ releases w.trace

/-- While the current handle is released, nothing is sent and the reconfiguration does not
fail before it takes a new handle; otherwise the handlers can be installed where they have to. -/
def Careful (w : World) : Step → Prop
  | .tick i => (w.Held → w.Installs i → ¬InvalidDescriptor i.descriptor) ∧
      (¬w.Held → w.connection.nReconnectAttempts < maxReconnectAttempts → i.configure ≠ some .tallocNew)
  | .read _ => w.Held ∨ requestQueueEmpty w.connection.callqueue = true
  | .submit _ => w.Held
  | .installErrorHandler => True

instance (w : World) : Decidable w.Held :=
  match he : w.connection.ldap with
  | none => isTrue (by simp [World.Held, he])
  | some handle => decidable_of_iff (handle ∉ releases w.trace) (by simp [World.Held, he])

instance : (step : Step) → Decidable (Careful w step)
  | .tick _ => inferInstanceAs (Decidable (_ ∧ _))
  | .read _ => inferInstanceAs (Decidable (_ ∨ _))
  | .submit _ => inferInstanceAs (Decidable w.Held)
  | .installErrorHandler => isTrue trivial

/-- The handles are numbered in the order in which they were taken. -/
structure Numbered (w : World) : Prop where
  respected : HandlesRespected w.trace
  released_lt : ∀ handle ∈ releases w.trace, handle < w.handles
  ldap_lt : ∀ handle, w.connection.ldap = some handle → handle < w.handles

/-- A released handle is only kept in the error state. -/
structure Handles (w : World) : Prop extends Numbered w where
  held : w.Held ∨ w.connection.stateMachine = .live .error

structure World.Uses (w w' : World) : Prop where
  ldap : w'.connection.ldap = w.connection.ldap
  handles : w'.handles = w.handles
  grows : w.Grows w' fun e => e.unbinds = none ∧ (e.handle = none ∨ e.handle = w.connection.ldap)

structure World.Rests (w w' : World) : Prop where
  ldap : w'.connection.ldap = w.connection.ldap
  handles : w'.handles = w.handles
  grows : w.Grows w' fun e => e.handle = none ∧ e.unbinds = none

theorem releases_append {new : List Event} (h : ∀ e ∈ new, e.unbinds = none) (events : List Event) :
    releases (new ++ events) = releases events := by
  have hnone : releases new = [] := List.filterMap_eq_nil_iff.mpr h
  rw [releases, List.filterMap_append, ← releases, hnone, List.nil_append]
  rfl

theorem mem_releases {handle : ℕ} {events : List Event} :
    handle ∈ releases events ↔ ∃ e ∈ events, e.unbinds = some handle := List.mem_filterMap

theorem World.Rests.numbered (hr : w.Rests w') (h : Numbered w) : Numbered w' := by
  obtain ⟨new, ht, hnew⟩ := hr.grows
  have hreleases : releases w'.trace = releases w.trace := by
    rw [ht, releases_append fun e he => (hnew e he).2]
  refine ⟨?_, ?_, ?_⟩
  · rw [ht]
    apply pairwise_append_of_forall h.respected
    intro later hlater earlier _ handle _
    rw [(hnew later hlater).1]
    simp
  · rw [hreleases, hr.handles]
    exact h.released_lt
  · rw [hr.ldap, hr.handles]
    exact h.ldap_lt

theorem World.Rests.held (hr : w.Rests w') : w'.Held ↔ w.Held := by
  obtain ⟨new, ht, hnew⟩ := hr.grows
  rw [World.Held, World.Held, hr.ldap, ht, releases_append fun e he => (hnew e he).2]

theorem World.Uses.held (hu : w.Uses w') : w'.Held ↔ w.Held := by
  obtain ⟨new, ht, hnew⟩ := hu.grows
  rw [World.Held, World.Held, hu.ldap, ht, releases_append fun e he => (hnew e he).1]

theorem World.Uses.numbered (hu : w.Uses w') (h : Numbered w) (held : w.Held) : Numbered w' := by
  obtain ⟨new, ht, hnew⟩ := hu.grows
  have hreleases : releases w'.trace = releases w.trace := by
    rw [ht, releases_append fun e he => (hnew e he).1]
  refine ⟨?_, ?_, ?_⟩
  · rw [ht]
    apply pairwise_append_of_forall h.respected
    intro later hlater earlier hearlier handle hreleased hsame
    have hmem : handle ∈ releases w'.trace := mem_releases.mpr ⟨earlier, ht ▸ hearlier, hreleased⟩
    rw [hreleases] at hmem
    rcases (hnew later hlater).2 with hnone | hldap
    · rw [hnone] at hsame
      cases hsame
    · exact held handle (hldap.symm.trans hsame) hmem
  · rw [hreleases, hu.handles]
    exact h.released_lt
  · rw [hu.ldap, hu.handles]
    exact h.ldap_lt

theorem World.Uses.trans (h : w.Uses w') (h' : w'.Uses w'') : w.Uses w'' := by
  have hgrows := h'.grows
  rw [h.ldap] at hgrows
  exact ⟨h'.ldap.trans h.ldap, h'.handles.trans h.handles, h.grows.trans hgrows⟩

theorem World.Within.uses (h : w.Within Event.Serves w') : w.Uses w' := by
  refine ⟨h.ldap, h.handles, h.grows.mono fun e he => ?_⟩
  cases e with
  | call handle c => exact ⟨rfl, .inr he⟩
  | unbind => exact he.elim
  | _ => exact ⟨rfl, .inl rfl⟩

theorem World.Prepares.uses (h : w.Prepares w') : w.Uses w' := by
  have hsends : ∀ {s t : World}, s.Within Event.Sends t → s.Uses t := fun h =>
    World.Within.uses (h.mono fun _ => Event.Sends.serves)
  cases h with
  | sends h => exact hsends h
  | installs t h _ h' =>
    have hinstalled : t.Uses t.installed := ⟨rfl, rfl, .two rfl ⟨rfl, .inl rfl⟩ ⟨rfl, .inl rfl⟩⟩
    exact ((hsends h).trans hinstalled).trans (hsends h')

theorem World.GivesUp.rests (h : w.GivesUp w') : w.Rests w' := by
  refine ⟨h.within.ldap, h.within.handles, h.within.grows.mono fun e he => ?_⟩
  cases e <;> first | exact he.elim | exact ⟨rfl, rfl⟩

theorem Numbered.unbound (h : Numbered w) (held : w.Held) : Numbered w.unbound := by
  refine ⟨?_, ?_, h.ldap_lt⟩
  · refine List.pairwise_cons.mpr ⟨?_, h.respected⟩
    intro earlier he handle hreleased hsame
    exact held handle hsame (mem_releases.mpr ⟨earlier, he, hreleased⟩)
  · intro handle hmem
    obtain ⟨e, he, hreleased⟩ := mem_releases.mp hmem
    rcases List.mem_cons.mp he with rfl | he
    · exact h.ldap_lt handle hreleased
    · exact h.released_lt handle (mem_releases.mpr ⟨e, he, hreleased⟩)

theorem rests_closed (w : World) : w.Rests w.closed := by
  refine ⟨rfl, rfl, _, (List.append_assoc ..).symm, ?_⟩
  intro e he
  simp only [List.mem_append, Option.mem_toList, Option.map_eq_some_iff] at he
  rcases he with ⟨event, -, rfl⟩ | ⟨event, -, rfl⟩ <;> exact ⟨rfl, rfl⟩

theorem Numbered.reconnected (h : Numbered w) {failure : Option ConfigureFailure}
    (hf : ¬w.Held → failure ≠ some .tallocNew) :
    Numbered (w.reconnected failure) ∧ (w.reconnected failure).Held := by
  have hclosed : Numbered w.closed := (rests_closed w).numbered h
  have hnew : ∀ t : World, t.connection.ldap = some w.handles → t.handles = w.handles + 1 →
      w.closed.Grows t (fun e => e.handle = none ∧ e.unbinds = none) → Numbered t ∧ t.Held := by
    intro t hldap hhandles hgrows
    let closed : World := { w.closed with
      connection := { w.closed.connection with ldap := some w.handles }, handles := w.handles + 1 }
    have hstart : Numbered closed := by
      refine ⟨hclosed.respected, ?_, ?_⟩
      · intro handle he
        exact Nat.lt_succ_of_lt (hclosed.released_lt handle he)
      · intro handle he
        cases he
        exact Nat.lt_succ_self _
    have hheld : closed.Held := by
      intro handle he hmem
      cases he
      exact Nat.lt_irrefl _ (hclosed.released_lt w.handles hmem)
    have hrests : closed.Rests t := ⟨hldap, hhandles, hgrows⟩
    exact ⟨hrests.numbered hstart, hrests.held.mpr hheld⟩
  have hnone : ∀ t : World, t.connection.ldap = none → t.handles = w.handles →
      w.closed.Grows t (fun e => e.handle = none ∧ e.unbinds = none) → Numbered t ∧ t.Held := by
    intro t hldap hhandles hgrows
    let closed : World := { w.closed with connection := { w.closed.connection with ldap := none } }
    have hstart : Numbered closed := ⟨hclosed.respected, hclosed.released_lt, by simp [closed]⟩
    have hrests : closed.Rests t := ⟨hldap, hhandles, hgrows⟩
    exact ⟨hrests.numbered hstart, hrests.held.mpr (by simp [closed, World.Held])⟩
  cases failure with
  | none => exact hnew _ rfl rfl (.two rfl ⟨rfl, rfl⟩ ⟨rfl, rfl⟩)
  | some failure =>
    cases failure with
    | tallocNew =>
      have hheld : w.Held := by
        by_contra hnot
        exact hf hnot rfl
      have hrests : w.closed.Rests (w.reconnected (some .tallocNew)) :=
        ⟨rfl, rfl, .two rfl ⟨rfl, rfl⟩ ⟨rfl, rfl⟩⟩
      exact ⟨hrests.numbered hclosed, hrests.held.mpr ((rests_closed w).held.mpr hheld)⟩
    | ldapInitialize => exact hnone _ rfl rfl (.two rfl ⟨rfl, rfl⟩ ⟨rfl, rfl⟩)
    | _ => exact hnew _ rfl rfl (.two rfl ⟨rfl, rfl⟩ ⟨rfl, rfl⟩)

theorem Handles.reconnect (h : Handles w) (hs : w.connection.stateMachine = .live .error) {i : TickInput}
    (hf : ¬w.Held → w.connection.nReconnectAttempts < maxReconnectAttempts → i.configure ≠ some .tallocNew) :
    Handles (exec (reconnect i) w).2 := by
  by_cases hd : w.connection.ldapDefaults = .dangling
  · rw [exec_reconnect_dangling hd]
    exact h
  · rw [exec_reconnect hs hd]
    dsimp only
    split_ifs with hn
    · obtain ⟨hnumbered, hheld⟩ := h.toNumbered.reconnected fun hnot => hf hnot hn
      exact ⟨hnumbered, .inl hheld⟩
    · exact ⟨(rests_closed w).numbered h.toNumbered, .inr hs⟩

theorem rests_connectionOnRead (responses : List Response)
    (h : requestQueueEmpty w.connection.callqueue = true) :
    w.Rests (exec (connectionOnRead responses) w).2 ∧
      (exec (connectionOnRead responses) w).2.connection.stateMachine = w.connection.stateMachine := by
  have hpop : requestQueuePop w.connection.callqueue w.connection.links = (none, w.connection.callqueue) := by
    rw [requestQueuePop, if_pos (of_decide_eq_true h)]
  have hbegin : exec beginPass w = (.ok (), (exec beginPass w).2) := rfl
  have hloop : exec (readLoop responses) (exec beginPass w).2 = (.ok true, (exec beginPass w).2) :=
    exec_readLoop_none (w := (exec beginPass w).2) hpop responses
  have hfinish : exec finishPass (exec beginPass w).2 = (.ok (), (exec beginPass w).2.finished) :=
    exec_finishPass _ (Nat.zero_le _)
  rw [connectionOnRead, exec_bind_ok hbegin, exec_bind_ok hloop, if_pos rfl, hfinish]
  exact ⟨⟨rfl, rfl, .two rfl ⟨rfl, rfl⟩ ⟨rfl, rfl⟩⟩, rfl⟩

theorem Handles.of_uses (h : Handles w) (held : w.Held) (hu : w.Uses w') : Handles w' :=
  ⟨hu.numbered h.toNumbered held, .inl (hu.held.mpr held)⟩

/-- A careful step neither uses nor releases a released handle. -/
theorem Handles.step (h : Handles w) {step : Step} (hC : Careful w step) : Handles (exec step.perform w).2 := by
  cases step with
  | tick i =>
    obtain ⟨hinstall, hconfigure⟩ := hC
    by_cases hs : w.connection.stateMachine = .live .error
    · rw [exec_tick_reconnect hs]
      exact h.reconnect hs hconfigure
    · have held : w.Held := h.held.resolve_right hs
      have hsends : ∀ {t : World}, w.Within Event.Sends t → w.Uses t := fun ht =>
        World.Within.uses (ht.mono fun _ => Event.Sends.serves)
      cases upkeep_tick i hs with
      | kept hprepares => exact h.of_uses held hprepares.uses
      | released t ht hg =>
        have hstart := (hsends ht).numbered h.toNumbered held
        have hunbound := hstart.unbound ((hsends ht).held.mpr held)
        exact ⟨hg.rests.numbered hunbound, .inr hg.state⟩
      | twice t ht hinstalls hinvalid _ => exact absurd hinvalid (hinstall held hinstalls)
  | read responses =>
    by_cases held : w.Held
    · exact h.of_uses held (within_step _ (by simp)).uses
    · obtain ⟨hrests, hstate⟩ := rests_connectionOnRead responses (hC.resolve_left held)
      exact ⟨hrests.numbered h.toNumbered, .inr (hstate.trans (h.held.resolve_left held))⟩
  | submit submission => exact h.of_uses hC (within_step _ (by simp)).uses
  | installErrorHandler =>
    have hrests : w.Rests (exec Step.installErrorHandler.perform w).2 := ⟨rfl, rfl, .none rfl⟩
    exact ⟨hrests.numbered h.toNumbered, h.held.imp_left hrests.held.mpr⟩

theorem Handles.freed (h : Handles w) : HandlesRespected (exec ldFree w).2.trace := by
  have hclosed := (rests_closed w).numbered h.toNumbered
  have hdeleted : Numbered w.deleted := ⟨hclosed.respected, hclosed.released_lt, h.ldap_lt⟩
  rw [snd_ldFree]
  by_cases hlost : (∀ state, w.connection.stateMachine ≠ .live state) ∨ w.connection.ldapDefaults = .dangling
  · rcases exec_connectionClose_lost hlost with he | he
    · rw [he]
      exact h.respected
    · rw [he]
      exact hdeleted.respected
  · simp only [not_or, not_forall, not_not] at hlost
    obtain ⟨⟨state, hs⟩, hd⟩ := hlost
    obtain ⟨code, he⟩ := exec_connectionClose hs hd
    rw [he]
    dsimp only
    split_ifs with herror
    · exact hclosed.respected
    · have held : w.Held := by
        apply h.held.resolve_right
        intro hs'
        cases hs.symm.trans hs'
        exact herror rfl
      exact (hclosed.unbound ((rests_closed w).held.mpr held)).respected

theorem handles_initial (config : LdapConnectionConfig) (path : Option Bytes) :
    Handles (.initial config path) := by
  have hreleases : releases (World.initial config path).trace = [] := rfl
  refine ⟨⟨List.pairwise_singleton _ _, by simp [hreleases], ?_⟩, .inl (by simp [World.Held, hreleases])⟩
  intro handle he
  cases he
  exact Nat.zero_lt_one

/-- In every run of careful steps no handle is used after it has been released or released
twice, `ld_free` included. -/
theorem runAndFree_handlesRespected (config : LdapConnectionConfig) (path : Option Bytes) (steps : List Step)
    (h : EachStep Careful steps (.initial config path)) :
    HandlesRespected (runAndFree config path steps).2.trace := by
  have hrun : Handles (run config path steps).2 :=
    performSteps_keeps (I := Handles) (fun w step hC hi => hi.step hC) steps h (handles_initial config path)
  rcases runAndFree_cases config path steps with ⟨w, he, hfree⟩ | hstuck
  · rw [he] at hrun
    rw [hfree]
    exact hrun.freed
  · rw [hstuck]
    exact hrun.respected

def refusedTlsSteps : List Step :=
  [.tick { startTls := ⟨1, 0⟩ }, .tick {}, .tick { startTls := ⟨ldapSuccess, 1⟩ },
    .read [{ rc := ldapResExtended }], .tick {}, .submit ⟨.whoami, ⟨ldapSuccess, 3⟩⟩]

theorem runAndFree_handlesRespected_refusedTls :
    HandlesRespected (runAndFree ⟨true, .simple⟩ none refusedTlsSteps).2.trace :=
  runAndFree_handlesRespected ⟨true, .simple⟩ none refusedTlsSteps (by decide +kernel)

/-- Without a descriptor the helper and its caller both release the handle. -/
theorem unboundTwice : (runAndFree ⟨false, .simple⟩ none [.tick {}, .tick { descriptor := none }]).1 = .ok () ∧
    ¬HandlesRespected (runAndFree ⟨false, .simple⟩ none [.tick {}, .tick { descriptor := none }]).2.trace := by
  constructor
  · decide +kernel
  · decide +kernel

end Libdomain.Connection
