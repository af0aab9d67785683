import Libdomain.Connection.Simulation

/-! # The bounds of the request arrays

`n_read_requests` counts the submissions since the last completed pass, on top
of the requests that pass left waiting, and none of the submitting functions
but `search` looks at a limit. So the arrays are written in bounds exactly as
long as that count stays below their size.
-/
namespace Libdomain.Connection
open Libdomain.Queue Libdomain.Program

/-- The slots in use: what the last completed pass left in the queue, and one for
each submission since. -/
def load : List Event → ℕ
  | [] => 0
  | .submission .. :: events => load events + 1
  | .passEnd c :: _ => c.callqueue.size
  | .configured :: _ => 0
  | .configureFailed .eventBase :: _ => 0
  | _ :: events => load events

/-- Every submission finds a slot below the size of the array. -/
def WithinLoad : List Event → Prop
  | [] => True
  | .submission .. :: events => load events < maxRequests ∧ WithinLoad events
  | _ :: events => WithinLoad events

def WritesInBounds (events : List Event) : Prop :=
  ∀ array index, .write array index ∈ events → index < maxRequests

def Event.Unloaded : Event → Prop
  | .submission .. | .passEnd _ | .configured | .configureFailed .eventBase | .write .. => False
  | _ => True

variable {w w' : World} {events : List Event} {e : Event}

theorem Event.Unloaded.load (h : e.Unloaded) (events : List Event) :
    Connection.load (e :: events) = Connection.load events := by
  cases e with
  | submission => exact h.elim
  | passEnd => exact h.elim
  | configured => exact h.elim
  | configureFailed failure => cases failure <;> first | rfl | exact h.elim
  | _ => rfl

theorem Event.Unloaded.withinLoad (h : e.Unloaded) (events : List Event) :
    WithinLoad (e :: events) ↔ WithinLoad events := by
  cases e with
  | submission => exact h.elim
  | _ => exact Iff.rfl

theorem writesInBounds_cons (h : ∀ array index, e ≠ .write array index) (events : List Event) :
    WritesInBounds (e :: events) ↔ WritesInBounds events := by
  constructor
  · exact fun hw array index hm => hw array index (List.mem_cons_of_mem _ hm)
  · intro hw array index hm
    rcases List.mem_cons.mp hm with he | hm
    · exact absurd he.symm (h array index)
    · exact hw array index hm

theorem Event.Unloaded.writesInBounds (h : e.Unloaded) (events : List Event) :
    WritesInBounds (e :: events) ↔ WritesInBounds events := by
  apply writesInBounds_cons
  rintro array index rfl
  exact h.elim

theorem writesInBounds_write (array : RequestArray) (index : ℕ) (events : List Event) :
    WritesInBounds (.write array index :: events) ↔
      index < maxRequests ∧ WritesInBounds events := by
  constructor
  · exact fun hw => ⟨hw array index List.mem_cons_self,
      fun array' index' hm => hw array' index' (List.mem_cons_of_mem _ hm)⟩
  · rintro ⟨hi, hw⟩ array' index' hm
    rcases List.mem_cons.mp hm with he | hm
    · cases he
      exact hi
    · exact hw array' index' hm

theorem withinLoad_restoreWrites (i n : ℕ) (events : List Event) :
    WithinLoad (restoreWrites i n ++ events) ↔ WithinLoad events :=
  restoreWrites_induction (P := fun trace => WithinLoad trace ↔ WithinLoad events) (fun _ _ h => h) i n Iff.rfl

theorem writesInBounds_restoreWrites {n : ℕ} (h : n ≤ maxRequests) (events : List Event) :
    WritesInBounds (restoreWrites 0 n ++ events) ↔ WritesInBounds events := by
  constructor
  · exact fun hw array index hm => hw array index (List.mem_append_right _ hm)
  · intro hw array index hm
    rcases List.mem_append.mp hm with hm | hm
    · obtain ⟨j, -, hj, he⟩ := mem_restoreWrites hm
      cases he
      omega
    · exact hw array index hm

/-- The load bounds the writes, and it is the number of used slots while it does. -/
structure Loaded (w : World) : Prop where
  iff : WithinLoad w.trace ↔ WritesInBounds w.trace
  eq : WithinLoad w.trace → load w.trace = w.connection.nReadRequests

theorem Loaded.unloaded (h : Loaded w) (ht : w'.trace = e :: w.trace)
    (hn : w'.connection.nReadRequests = w.connection.nReadRequests) (he : e.Unloaded) : Loaded w' where
  iff := by rw [ht, he.withinLoad, he.writesInBounds, h.iff]
  eq := by rw [ht, he.withinLoad, he.load, hn]; exact h.eq

theorem Loaded.write (h : Loaded w) {array : RequestArray} {index : ℕ} (hi : index < maxRequests)
    (hn : w'.connection.nReadRequests = w.connection.nReadRequests)
    (ht : w'.trace = .write array index :: w.trace) : Loaded w' where
  iff := by
    rw [ht, writesInBounds_write, ← h.iff]
    exact ⟨fun hw => ⟨hi, hw⟩, fun hw => hw.2⟩
  eq := by
    rw [ht, hn]
    exact h.eq

theorem withinLoad_announced (h : Loaded w) (handler : OperationCallback) (msgid : Int) :
    WithinLoad (w.announced handler msgid).trace ↔
      w.connection.nReadRequests < maxRequests ∧ WithinLoad w.trace := by
  change load w.trace < maxRequests ∧ WithinLoad w.trace ↔ _
  constructor
  · rintro ⟨hlt, hw⟩
    exact ⟨h.eq hw ▸ hlt, hw⟩
  · rintro ⟨hlt, hw⟩
    exact ⟨(h.eq hw).symm ▸ hlt, hw⟩

theorem writesInBounds_announced (w : World) (handler : OperationCallback) (msgid : Int) :
    WritesInBounds (w.announced handler msgid).trace ↔
      w.connection.nReadRequests < maxRequests ∧ WritesInBounds w.trace := by
  change WritesInBounds (.write .readRequests _ :: .submission _ _ _ _ _ :: w.trace) ↔ _
  rw [writesInBounds_write, writesInBounds_cons (by rintro _ _ ⟨⟩)]

theorem Loaded.overflow (h : Loaded w) (full : maxRequests ≤ w.connection.nReadRequests)
    (handler : OperationCallback) (msgid : Int) : Loaded (w.announced handler msgid) where
  iff := by
    rw [withinLoad_announced h, writesInBounds_announced, h.iff]
  eq := by
    rw [withinLoad_announced h]
    rintro ⟨hlt, -⟩
    omega

theorem Loaded.tracked (h : Loaded w) (handler : OperationCallback) (msgid : Int) :
    Loaded (w.tracked handler msgid) where
  iff := by
    change WithinLoad (w.announced handler msgid).trace ↔
      WritesInBounds (.pushed .. :: (w.announced handler msgid).trace)
    rw [writesInBounds_cons (by rintro _ _ ⟨⟩), withinLoad_announced h, writesInBounds_announced, h.iff]
  eq := by
    change WithinLoad (w.announced handler msgid).trace → load w.trace + 1 = _
    rw [withinLoad_announced h]
    rintro ⟨-, hw⟩
    rw [h.eq hw]
    rfl

theorem Loaded.registered (h : Loaded w) (hn : w.connection.nSearchRequests < maxRequests)
    (request : LdapSearchRequest) : Loaded (w.registered request) where
  iff := by
    change WithinLoad w.trace ↔ WritesInBounds (.searchRegistered _ :: .write _ _ :: w.trace)
    rw [writesInBounds_cons (by rintro _ _ ⟨⟩), writesInBounds_write, h.iff]
    exact ⟨fun hw => ⟨hn, hw⟩, fun hw => hw.2⟩
  eq := h.eq

theorem Tracks.size_finished {l : Ledger} (h : Tracks w l)
    (hd : requestQueueEmpty w.connection.callqueue = true ∨ w.connection.callqueue.head = none) :
    w.finished.connection.callqueue.size = w.finished.connection.nReadRequests := by
  obtain ⟨-, -, slots, hs, hl⟩ := h.finished hd
  have hq : (slots.map fun i => (w.finished.connection.readRequests i).payload).length =
      l.pending.length := congrArg (fun l : Ledger => l.queue.length) hl
  have hu : w.finished.connection.nReadRequests = l.pending.length := congrArg Ledger.used hl
  rw [hs.represents.size_eq, hu, ← hq, List.length_map]

theorem Loaded.finished (h : Loaded w) (hw : Simulated w)
    (hd : requestQueueEmpty w.connection.callqueue = true ∨ w.connection.callqueue.head = none) :
    Loaded w.finished where
  iff := by
    change WithinLoad (restoreWrites 0 w.pendingRequests.length ++ w.trace) ↔
      WritesInBounds (.passEnd _ :: (restoreWrites 0 w.pendingRequests.length ++ w.trace))
    rw [writesInBounds_cons (by rintro _ _ ⟨⟩), withinLoad_restoreWrites,
      writesInBounds_restoreWrites (Tracks.finished hw hd).1, h.iff]
  eq := fun _ => Tracks.size_finished hw hd

theorem Loaded.emptied (h : Loaded w) (he : Emptied w') (ht : w'.trace = e :: w.trace)
    (hl : load (e :: w.trace) = 0) (hs : WithinLoad (e :: w.trace) ↔ WithinLoad w.trace)
    (hb : ∀ array index, e ≠ .write array index) : Loaded w' where
  iff := by rw [ht, hs, writesInBounds_cons hb, h.iff]
  eq := by
    intro _
    rw [ht, hl, he.nReadRequests]

theorem Event.Quiet.unloaded (h : e.Quiet w) : e.Unloaded := by
  cases e with
  | configureFailed failure => cases failure <;> first | exact absurd rfl h | trivial
  | submission => exact h.elim
  | passEnd => exact h.elim
  | configured => exact h.elim
  | write => exact h.elim
  | _ => trivial

theorem Effect.loaded (h : Effect w w') (hw : Simulated w) (hi : Loaded w) : Loaded w' := by
  have hissued : ∀ callback userData msgid, Loaded (w.issued callback userData msgid) :=
    fun _ _ _ => hi.unloaded rfl rfl trivial
  cases h with
  | quiet same trace => exact ⟨by rw [trace, hi.iff], by rw [trace, same.nReadRequests]; exact hi.eq⟩
  | event e quiet same trace => exact hi.unloaded trace same.nReadRequests quiet.unloaded
  | overflow handler msgid full => exact hi.overflow full handler msgid
  | tracked handler msgid _ _ => exact hi.tracked handler msgid
  | searchOverflow callback userData msgid full =>
    exact (hissued callback userData msgid).overflow full _ _
  | searchFull callback userData msgid _ _ => exact (hissued callback userData msgid).tracked _ _
  | searched callback userData msgid _ tableRoom =>
    exact ((hissued callback userData msgid).tracked _ _).registered (Nat.lt_of_succ_lt tableRoom) _
  | answer step =>
    cases step with
    | callback => exact hi.unloaded rfl rfl trivial
    | write index live =>
      exact hi.write (lt_trans live (Tracks.tableRoom hw)) rfl rfl
    | remove index live _ =>
      obtain ⟨searchRequests, he⟩ := w.connection.removeSearchRequest_eq index
      refine hi.unloaded rfl ?_ trivial
      rw [World.removed, he]
  | configured _ emptied _ trace => exact hi.emptied emptied trace rfl Iff.rfl (by rintro _ _ ⟨⟩)
  | eventBase _ emptied _ trace => exact hi.emptied emptied trace rfl Iff.rfl (by rintro _ _ ⟨⟩)
  | begin => exact hi.unloaded rfl rfl trivial
  | pop => exact hi.unloaded rfl rfl trivial
  | resultError => exact hi.unloaded rfl rfl trivial
  | defer slot top _ =>
    exact (hi.write (Tracks.deferred hw top).1 rfl rfl :
      Loaded (w.record (.write .pendingRequests _))).unloaded rfl rfl trivial
  | dispatch => exact hi.unloaded rfl rfl trivial
  | release => exact hi.unloaded rfl rfl trivial
  | finish _ _ _ drained => exact hi.finished hw drained
  | abandon => exact hi.unloaded rfl rfl trivial

/-- A run writes all request arrays in bounds exactly if each of its submissions
comes while less than `MAX_REQUESTS` slots are taken, counting the requests the
last completed pass left in the queue and every submission since. -/
theorem run_writesInBounds_iff (config : LdapConnectionConfig) (path : Option Bytes)
    (steps : List Step) :
    WritesInBounds (run config path steps).2.trace ↔ WithinLoad (run config path steps).2.trace := by
  have hinit : Loaded (.initial config path) := by
    refine ⟨⟨fun _ => ?_, fun _ => trivial⟩, fun _ => rfl⟩
    intro array index hm
    cases List.mem_singleton.mp hm
  exact (run_invariant_of_effects (I := Loaded) hinit (fun _ _ hs h hi => h.loaded hs hi)
    steps).2.iff.symm

/-- A tick whose submission, if it makes one, succeeds. While the server does not answer the root
DSE search, every tick submits it again. -/
def unansweredTick (msgid : ℕ) : Step :=
  .tick { bind := ⟨ldapSuccess, msgid⟩, directory := ⟨ldapSuccess, msgid⟩ }

def World.Detecting (w : World) : Prop :=
  w.connection.stateMachine = .live .detectDirectory ∧ w.connection.directoryType = .uninitialized

theorem exec_csmNextState_detectDirectory {w : World} (h : w.Detecting) (i : TickInput) :
    exec (csmNextState i) w = exec (do
      let rc ← directoryGetType i.directory
      csmSetState (if rc = .success then .detectDirectory else .error)
      return OperationReturnCode.success) w := by
  have hderef : exec (dereference w.connection.stateMachine) w = (.ok .detectDirectory, w) := by
    rw [h.1, exec_dereference_live]
  rw [csmNextState, exec_bind_ok (exec_get w), exec_bind_ok hderef]
  exact (exec_bind_ok (exec_get w)).trans (congrArg (exec · w) (if_pos h.2))

def World.queried (w : World) : World :=
  w.record (.call w.connection.ldap (.searchExt
    ⟨[], ldapScopeBase, ascii "(objectClass=*)", [ascii "*"], false⟩))

theorem exec_directoryGetType (w : World) (msgid : Int) :
    exec (directoryGetType ⟨ldapSuccess, msgid⟩) w =
      if w.connection.nReadRequests < maxRequests then
        (.ok .success, w.queried.tracked .directoryParseResult msgid)
      else (.error (.outOfBounds .readRequests w.connection.nReadRequests),
        w.queried.announced .directoryParseResult msgid) := by
  have ht := exec_track .directoryParseResult msgid w.queried
  change _ = (if w.connection.nReadRequests < maxRequests then _ else _) at ht
  rw [directoryGetType, submit, exec_bind_ok (exec_call _ w), if_neg (not_not.mpr rfl)]
  split_ifs with hn
  · rw [if_pos hn] at ht
    exact exec_bind_ok ht
  · rw [if_neg hn] at ht
    exact exec_bind_error ht

theorem World.Detecting.tick {w : World} (h : w.Detecting)
    (hn : w.connection.nReadRequests < maxRequests) (msgid : ℕ) :
    ∃ w', exec (unansweredTick msgid).perform w = (.ok (), w') ∧ w'.Detecting ∧
      w'.connection.nReadRequests = w.connection.nReadRequests + 1 := by
  have hsub := (exec_directoryGetType w msgid).trans (if_pos hn)
  have hlive : (w.queried.tracked .directoryParseResult msgid).connection.stateMachine =
      .live .detectDirectory := h.1
  have hset := exec_csmSetState .detectDirectory (w.queried.tracked .directoryParseResult msgid)
  rw [hlive] at hset
  have htick := exec_csmNextState_detectDirectory h
    { bind := ⟨ldapSuccess, msgid⟩, directory := ⟨ldapSuccess, msgid⟩ }
  rw [exec_bind_ok hsub, if_pos rfl, exec_bind_ok hset, exec_pure] at htick
  exact ⟨_, exec_bind_ok htick, ⟨rfl, h.2⟩, rfl⟩

theorem World.Detecting.tick_outOfBounds {w : World} (h : w.Detecting)
    (hn : w.connection.nReadRequests = maxRequests) (msgid : ℕ) (rest : List Step) :
    .write .readRequests maxRequests ∈
      (exec (performSteps (unansweredTick msgid :: rest)) w).2.trace := by
  have hsub := (exec_directoryGetType w msgid).trans (if_neg (by omega))
  have htick := exec_csmNextState_detectDirectory h
    { bind := ⟨ldapSuccess, msgid⟩, directory := ⟨ldapSuccess, msgid⟩ }
  rw [exec_bind_error hsub] at htick
  have hrun : exec (performSteps (unansweredTick msgid :: rest)) w =
      (_, w.queried.announced .directoryParseResult msgid) :=
    exec_bind_error (exec_bind_error htick)
  rw [hrun, ← hn]
  exact List.mem_cons_self

theorem World.Detecting.ticks_outOfBounds {w : World} (h : w.Detecting) (msgids : List ℕ)
    (hle : w.connection.nReadRequests ≤ maxRequests)
    (hlt : maxRequests < w.connection.nReadRequests + msgids.length) :
    .write .readRequests maxRequests ∈ (exec (performSteps (msgids.map unansweredTick)) w).2.trace := by
  induction msgids generalizing w with
  | nil => simp at hlt; omega
  | cons msgid rest ih =>
    by_cases hn : w.connection.nReadRequests = maxRequests
    · exact h.tick_outOfBounds hn msgid _
    · obtain ⟨w', he, hd, hn'⟩ := h.tick (by omega) msgid
      rw [List.map_cons, exec_performSteps_cons, exec_bind_ok he]
      rw [List.length_cons] at hlt
      exact ih hd (by omega) (by omega)

/-- A server that never answers: the machine binds and then asks for the type of
the directory on every tick. -/
theorem unansweredTicks_not_writesInBounds :
    ¬WritesInBounds (run ⟨false, .simple⟩ none
      ((List.range' 1 (maxRequests + 2)).map unansweredTick)).2.trace := by
  let w := (run ⟨false, .simple⟩ none [unansweredTick 1, unansweredTick 2]).2
  have hbound : exec (performSteps [unansweredTick 1, unansweredTick 2])
      (.initial ⟨false, .simple⟩ none) = (.ok (), w) := rfl
  have hsteps : (List.range' 1 (maxRequests + 2)).map unansweredTick =
      [unansweredTick 1, unansweredTick 2] ++ (List.range' 3 maxRequests).map unansweredTick := by
    rw [List.range'_succ, List.range'_succ, List.map_cons, List.map_cons, List.cons_append,
      List.singleton_append]
  have hd : w.Detecting := ⟨rfl, rfl⟩
  have hone : w.connection.nReadRequests = 1 := rfl
  intro h
  refine lt_irrefl _ (h .readRequests maxRequests ?_)
  rw [run, hsteps, exec_performSteps_append hbound]
  apply hd.ticks_outOfBounds
  · rw [hone]
    decide
  · rw [hone, List.length_range']
    exact Nat.lt_add_of_pos_left Nat.one_pos

end Libdomain.Connection
