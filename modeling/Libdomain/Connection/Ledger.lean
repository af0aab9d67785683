import Libdomain.Connection.Refinement

/-! # The ledger of a connection

An abstract account of what a connection keeps track of: a queue, the requests
set aside, the request in hand, the number of slots used since the last
completed pass, and the table of searches as a list. `replay` computes the
ledger from the trace; `Tracks` relates it to the intrusive queue and the
arrays, and each step of the code is shown to do to them what its events do to
the ledger.
-/
namespace Libdomain.Connection
open Libdomain.Queue Libdomain.Program

/-- A request with its message id and handler, as the ledger holds it. -/
abbrev Payload := Int × Option OperationCallback

def LdapRequest.payload (r : LdapRequest) : Payload :=
  (r.msgid, r.onReadOperation)

@[ext] structure Ledger where
  queue : List Payload
  pending : List Payload
  top : Option Payload
  used : ℕ
  table : List LdapSearchRequest

def Ledger.empty : Ledger := ⟨[], [], none, 0, []⟩

/-- What removing an entry does to the table: the shortcut for an index one below the
number of used request slots clears the entry and drops the last one. -/
def removeEntry (used index : ℕ) (table : List LdapSearchRequest) : List LdapSearchRequest :=
  if index + 1 = used then (table.set index LdapConnectionCtx.clearedSearch).dropLast
  else table.eraseIdx index

def Ledger.apply (l : Ledger) : Event → Ledger
  | .pushed _ handler msgid _ _ =>
    { l with queue := l.queue ++ [(msgid, some handler)], used := l.used + 1 }
  | .popped _ => { l with queue := l.queue.tail, top := l.queue.head? }
  | .deferred _ => { l with pending := l.pending ++ l.top.toList, top := none }
  | .released => { l with top := none }
  | .passEnd _ => { l with queue := l.pending, pending := [], top := none, used := l.pending.length }
  | .passAbandoned .. => { l with pending := [], top := none }
  | .searchRegistered request => { l with table := l.table ++ [request] }
  | .searchRemoved index _ => { l with table := removeEntry l.used index l.table }
  | .configured => .empty
  | .configureFailed .eventBase => .empty
  | _ => l

/-- The ledger after the events of a trace, which lists the newest event first. -/
def replay : List Event → Ledger
  | [] => .empty
  | e :: events => (replay events).apply e

def Ledger.Holds (l : Ledger) (payload : Payload) : Prop :=
  payload ∈ l.queue ∨ payload ∈ l.pending ∨ l.top = some payload

theorem Ledger.Holds.of_apply {l : Ledger} {payload : Payload} {e : Event}
    (h : (l.apply e).Holds payload) :
    l.Holds payload ∨ ∃ slot handler id code c,
      e = .pushed slot handler id code c ∧ payload = (id, some handler) := by
  cases e with
  | pushed slot handler id code c =>
    rcases h with h | h | h
    · rcases List.mem_append.mp h with h | h
      · exact .inl (.inl h)
      · exact .inr ⟨slot, handler, id, code, c, rfl, List.mem_singleton.mp h⟩
    · exact .inl (.inr (.inl h))
    · exact .inl (.inr (.inr h))
  | popped =>
    rcases h with h | h | h
    · exact .inl (.inl (List.mem_of_mem_tail h))
    · exact .inl (.inr (.inl h))
    · exact .inl (.inl (List.mem_of_mem_head? h))
  | deferred =>
    rcases h with h | h | h
    · exact .inl (.inl h)
    · rcases List.mem_append.mp h with h | h
      · exact .inl (.inr (.inl h))
      · exact .inl (.inr (.inr (Option.mem_toList.mp h)))
    · cases h
  | released =>
    rcases h with h | h | h
    · exact .inl (.inl h)
    · exact .inl (.inr (.inl h))
    · cases h
  | passEnd =>
    rcases h with h | h | h
    · exact .inl (.inr (.inl h))
    · cases h
    · cases h
  | passAbandoned =>
    rcases h with h | h | h
    · exact .inl (.inl h)
    · cases h
    · cases h
  | configured => rcases h with h | h | h <;> cases h
  | configureFailed failure =>
    cases failure with
    | eventBase => rcases h with h | h | h <;> cases h
    | _ => exact .inl h
  | _ => exact .inl h

/-- Every request the connection has come by has a handler. -/
theorem replay_handled {events : List Event} {payload : Payload} (h : (replay events).Holds payload) :
    payload.2.isSome = true := by
  induction events with
  | nil => rcases h with h | h | h <;> cases h
  | cons e events ih =>
    rcases Ledger.Holds.of_apply h with h | ⟨slot, handler, id, code, c, -, rfl⟩
    · exact ih h
    · rfl

/-- The queue consists of the given slots, all of them in use; the request in
hand occupies a slot of its own, and the requests of the pass fit into the slots
used since the last one. -/
structure Queued (w : World) (slots : List ℕ) : Prop where
  represents : Represents w.connection.callqueue w.connection.links slots
  used : ∀ i ∈ slots, i < w.connection.nReadRequests
  capacity : w.connection.callqueue.capacity = maxRequests
  withinArray : w.connection.nReadRequests ≤ maxRequests
  top : ∀ i, w.top = some i → i < w.connection.nReadRequests ∧ i ∉ slots
  room : w.pendingRequests.length + w.top.toList.length + slots.length ≤ w.connection.nReadRequests
  tableRoom : w.connection.nSearchRequests < maxRequests

def LdapConnectionCtx.queuedRequests (c : LdapConnectionCtx) : List LdapRequest :=
  (contents c.callqueue c.links).map c.readRequests

def LdapConnectionCtx.table (c : LdapConnectionCtx) : List LdapSearchRequest :=
  (List.range c.nSearchRequests).map c.searchRequests

def World.ledger (w : World) (slots : List ℕ) : Ledger where
  queue := slots.map fun i => (w.connection.readRequests i).payload
  pending := w.pendingRequests.map LdapRequest.payload
  top := w.top.map fun i => (w.connection.readRequests i).payload
  used := w.connection.nReadRequests
  table := w.connection.table

/-- The connection keeps track of what the ledger says. -/
def Tracks (w : World) (l : Ledger) : Prop := ∃ slots, Queued w slots ∧ w.ledger slots = l

variable {w w' : World} {l : Ledger} {slots : List ℕ}

theorem Tracks.top_eq {slot : ℕ} (h : Tracks w l) (ht : w.top = some slot) :
    l.top = some (w.connection.readRequests slot).payload := by
  obtain ⟨slots, -, rfl⟩ := h
  rw [World.ledger, ht, Option.map_some]

theorem Tracks.top_eq_none (h : Tracks w l) (htop : w.top = none) : l.top = none := by
  obtain ⟨slots, -, rfl⟩ := h
  simp [World.ledger, htop]

theorem top_eq_none_of_frame (hf : w.frame = none) : w.top = none := by
  rw [World.top, hf]
  rfl

theorem Tracks.queue_eq (h : Tracks w l) :
    l.queue = w.connection.queuedRequests.map LdapRequest.payload := by
  obtain ⟨slots, hs, rfl⟩ := h
  rw [LdapConnectionCtx.queuedRequests, hs.represents.contents_eq, List.map_map]
  rfl

theorem Tracks.pending_eq (h : Tracks w l) :
    l.pending = w.pendingRequests.map LdapRequest.payload := by
  obtain ⟨slots, -, rfl⟩ := h
  rfl

theorem Tracks.used_eq (h : Tracks w l) : l.used = w.connection.nReadRequests := by
  obtain ⟨slots, -, rfl⟩ := h
  rfl

theorem Tracks.table_eq (h : Tracks w l) : l.table = w.connection.table := by
  obtain ⟨slots, -, rfl⟩ := h
  rfl

theorem Tracks.tableRoom (h : Tracks w l) : w.connection.nSearchRequests < maxRequests := by
  obtain ⟨slots, hs, -⟩ := h
  exact hs.tableRoom

structure SameRequests (w w' : World) : Prop where
  callqueue : w'.connection.callqueue = w.connection.callqueue
  readRequests : w'.connection.readRequests = w.connection.readRequests
  nReadRequests : w'.connection.nReadRequests = w.connection.nReadRequests
  searchRequests : w'.connection.searchRequests = w.connection.searchRequests
  nSearchRequests : w'.connection.nSearchRequests = w.connection.nSearchRequests
  frame : w'.frame = w.frame
  epoch : w'.epoch = w.epoch

theorem SameRequests.top (h : SameRequests w w') : w'.top = w.top := by
  rw [World.top, h.frame, World.top]

theorem SameRequests.pendingRequests (h : SameRequests w w') :
    w'.pendingRequests = w.pendingRequests := by
  rw [World.pendingRequests, h.frame, World.pendingRequests]

theorem SameRequests.table (h : SameRequests w w') : w'.connection.table = w.connection.table := by
  rw [LdapConnectionCtx.table, h.nSearchRequests, h.searchRequests, LdapConnectionCtx.table]

theorem Tracks.congr (h : Tracks w l) (hw : SameRequests w w') : Tracks w' l := by
  obtain ⟨slots, hs, rfl⟩ := h
  have hlinks : w'.connection.links = w.connection.links := by
    funext i
    simp only [LdapConnectionCtx.links, hw.readRequests]
  refine ⟨slots, ?_, ?_⟩
  · exact { represents := by rw [hw.callqueue, hlinks]; exact hs.represents
            used := by rw [hw.nReadRequests]; exact hs.used
            capacity := by rw [hw.callqueue]; exact hs.capacity
            withinArray := by rw [hw.nReadRequests]; exact hs.withinArray
            top := by rw [hw.top, hw.nReadRequests]; exact hs.top
            room := by rw [hw.top, hw.pendingRequests, hw.nReadRequests]; exact hs.room
            tableRoom := by rw [hw.nSearchRequests]; exact hs.tableRoom }
  · simp only [World.ledger, hw.readRequests, hw.top, hw.pendingRequests, hw.nReadRequests, hw.table]

theorem payload_push (c : LdapConnectionCtx) (slot i : ℕ) :
    ((c.push slot).2.readRequests i).payload = (c.readRequests i).payload := rfl

theorem readRequests_withRequest_self (c : LdapConnectionCtx) (slot : ℕ) (request : LdapRequest) :
    (c.withRequest slot request).readRequests slot = request := Function.update_self ..

theorem readRequests_withRequest_of_ne (c : LdapConnectionCtx) {slot i : ℕ} (request : LdapRequest)
    (h : i ≠ slot) : (c.withRequest slot request).readRequests i = c.readRequests i :=
  Function.update_of_ne h ..

theorem links_withRequest_of_ne (c : LdapConnectionCtx) {slot i : ℕ} (request : LdapRequest)
    (h : i ≠ slot) : (c.withRequest slot request).links i = c.links i := by
  rw [LdapConnectionCtx.links, readRequests_withRequest_of_ne c request h]
  rfl

theorem payload_track_self (c : LdapConnectionCtx) (handler : OperationCallback) (msgid : Int) :
    ((c.track handler msgid).2.readRequests c.nReadRequests).payload = (msgid, some handler) :=
  congrArg LdapRequest.payload
    (readRequests_withRequest_self c c.nReadRequests (c.newRequest handler msgid))

theorem payload_track_of_ne {c : LdapConnectionCtx} {i : ℕ} (handler : OperationCallback)
    (msgid : Int) (h : i ≠ c.nReadRequests) :
    ((c.track handler msgid).2.readRequests i).payload = (c.readRequests i).payload :=
  (payload_push _ c.nReadRequests i).trans
    (congrArg LdapRequest.payload (readRequests_withRequest_of_ne c (c.newRequest handler msgid) h))

theorem push_withRequest {c : LdapConnectionCtx} (h : Represents c.callqueue c.links slots)
    {slot : ℕ} (hslot : slot ∉ slots) (hc : slots.length < c.callqueue.capacity)
    (request : LdapRequest) :
    ((c.withRequest slot request).push slot).1 = .success ∧
      Represents ((c.withRequest slot request).push slot).2.callqueue
        ((c.withRequest slot request).push slot).2.links (slots ++ [slot]) ∧
      ((c.withRequest slot request).push slot).2.callqueue.capacity = c.callqueue.capacity := by
  have hrep : Represents (c.withRequest slot request).callqueue (c.withRequest slot request).links slots :=
    h.congr fun i hi => links_withRequest_of_ne c request (fun he => hslot (he ▸ hi))
  obtain ⟨queue, links, hpush, hrep, hcap⟩ := hrep.push hslot hc
  rw [LdapConnectionCtx.push, hpush]
  exact ⟨rfl, hrep, hcap⟩

theorem Queued.notMem (h : Queued w slots) : w.connection.nReadRequests ∉ slots :=
  fun hm => lt_irrefl _ (h.used _ hm)

theorem Queued.track (h : Queued w slots) (hn : w.connection.nReadRequests < maxRequests)
    (handler : OperationCallback) (msgid : Int) :
    (w.connection.track handler msgid).1 = .success ∧
      Queued (w.tracked handler msgid) (slots ++ [w.connection.nReadRequests]) := by
  have hroom : slots.length < w.connection.callqueue.capacity := by
    have := h.room
    rw [h.capacity]
    omega
  obtain ⟨hcode, hrep, hcap⟩ := push_withRequest h.represents h.notMem hroom
    (w.connection.newRequest handler msgid)
  refine ⟨hcode, ?_⟩
  constructor
  · exact hrep
  · intro i hi
    change i < w.connection.nReadRequests + 1
    rcases List.mem_append.mp hi with hi | hi
    · exact Nat.lt_succ_of_lt (h.used i hi)
    · rw [List.mem_singleton.mp hi]
      exact Nat.lt_succ_self _
  · exact hcap.trans h.capacity
  · exact hn
  · intro i hi
    obtain ⟨hlt, hm⟩ := h.top i hi
    refine ⟨Nat.lt_succ_of_lt hlt, ?_⟩
    rw [List.mem_append, List.mem_singleton]
    rintro (hi | rfl)
    · exact hm hi
    · exact lt_irrefl _ hlt
  · have := h.room
    change w.pendingRequests.length + w.top.toList.length + (slots ++ [_]).length ≤
      w.connection.nReadRequests + 1
    rw [List.length_append, List.length_singleton]
    omega
  · exact h.tableRoom

theorem Tracks.track (h : Tracks w l) (hn : w.connection.nReadRequests < maxRequests)
    (handler : OperationCallback) (msgid : Int) :
    Tracks (w.tracked handler msgid)
      { l with queue := l.queue ++ [(msgid, some handler)], used := l.used + 1 } := by
  obtain ⟨slots, hs, rfl⟩ := h
  refine ⟨_, (hs.track hn handler msgid).2, ?_⟩
  have hold : ∀ i ∈ slots, ((w.tracked handler msgid).connection.readRequests i).payload =
      (w.connection.readRequests i).payload := fun i hi =>
    payload_track_of_ne handler msgid (ne_of_lt (hs.used i hi))
  have htop : (w.tracked handler msgid).top.map
      (fun i => ((w.tracked handler msgid).connection.readRequests i).payload) =
      w.top.map fun i => (w.connection.readRequests i).payload := by
    change w.top.map _ = _
    cases ht : w.top with
    | none => rfl
    | some i =>
      simp only [Option.map_some]
      rw [← payload_track_of_ne handler msgid (ne_of_lt (hs.top i ht).1)]
      rfl
  refine Ledger.ext ?_ rfl htop rfl rfl
  change (slots ++ [w.connection.nReadRequests]).map _ = _
  rw [List.map_append, List.map_congr_left hold, List.map_singleton]
  congr 2
  exact payload_track_self w.connection handler msgid

theorem Tracks.begin (h : Tracks w l) (hf : w.frame = none) :
    Tracks (exec beginPass w).2 l := by
  obtain ⟨slots, hs, rfl⟩ := h
  have htop : w.top = none := by rw [World.top, hf]; rfl
  have hpending : w.pendingRequests = [] := by rw [World.pendingRequests, hf]; rfl
  refine ⟨slots, { hs with top := ?_, room := ?_ }, ?_⟩
  · rintro i ⟨⟩
  · have := hs.room
    rw [hpending, htop] at this
    exact this
  · refine Ledger.ext rfl ?_ ?_ rfl rfl
    · change [] = w.pendingRequests.map _
      rw [hpending, List.map_nil]
    · change none = w.top.map _
      rw [htop, Option.map_none]

theorem Tracks.popped {slot : ℕ} {queue : RequestQueue ℕ} (h : Tracks w l)
    (hf : w.frame.isSome = true) (ht : w.top = none)
    (hp : requestQueuePop w.connection.callqueue w.connection.links = (some slot, queue)) :
    ∃ payload rest, l.queue = payload :: rest ∧
      payload = (w.connection.readRequests slot).payload ∧
      Tracks (w.popped slot queue) { l with queue := rest, top := some payload } := by
  obtain ⟨slots, hs, rfl⟩ := h
  obtain ⟨f, hf⟩ := Option.isSome_iff_exists.mp hf
  cases slots with
  | nil =>
    rw [hs.represents.pop_nil] at hp
    cases hp
  | cons slot' rest =>
    obtain ⟨queue', hp', hrep, hcap⟩ := hs.represents.pop
    rw [hp'] at hp
    cases hp
    have htop : (w.popped slot queue).top = some slot := by
      simp only [World.top, World.popped, hf, Option.map_some, Option.bind_some]
    have hpending : (w.popped slot queue).pendingRequests = w.pendingRequests := by
      simp only [World.pendingRequests, World.popped, hf, Option.map_some]
    refine ⟨_, _, rfl, rfl, rest, ?_, ?_⟩
    · exact { represents := hrep
              used := fun i hi => hs.used i (List.mem_cons_of_mem _ hi)
              capacity := hcap.trans hs.capacity
              withinArray := hs.withinArray
              top := by
                intro i hi
                rw [htop] at hi
                cases hi
                exact ⟨hs.used slot List.mem_cons_self, (List.nodup_cons.mp hs.represents.nodup).1⟩
              room := by
                have := hs.room
                rw [ht, List.length_cons] at this
                rw [htop, hpending]
                change _ ≤ w.connection.nReadRequests
                simpa [Nat.add_comm, Nat.add_left_comm, Nat.add_assoc] using this
              tableRoom := hs.tableRoom }
    · simp only [World.ledger, htop, hpending]
      rfl

theorem Tracks.released (h : Tracks w l) : Tracks (exec releaseTop w).2 { l with top := none } := by
  obtain ⟨slots, hs, rfl⟩ := h
  have htop : (exec releaseTop w).2.top = none := by
    change (w.frame.map _).bind _ = none
    cases w.frame <;> rfl
  have hpending : (exec releaseTop w).2.pendingRequests = w.pendingRequests := by
    change ((w.frame.map _).map _).getD [] = (w.frame.map _).getD []
    cases w.frame <;> rfl
  refine ⟨slots, { hs with top := ?_, room := ?_ }, ?_⟩
  · intro i hi
    rw [htop] at hi
    cases hi
  · have := hs.room
    rw [htop, hpending]
    change w.pendingRequests.length + 0 + slots.length ≤ w.connection.nReadRequests
    omega
  · simp only [World.ledger, htop, hpending]
    rfl

theorem Tracks.deferred {slot : ℕ} (h : Tracks w l) (ht : w.top = some slot) :
    w.pendingRequests.length < maxRequests ∧
      Tracks (w.deferred (w.connection.readRequests slot))
        { l with pending := l.pending ++ [(w.connection.readRequests slot).payload], top := none } := by
  obtain ⟨slots, hs, rfl⟩ := h
  obtain ⟨f, hf, -⟩ := Option.bind_eq_some_iff.mp ht
  have hroom := hs.room
  rw [ht] at hroom
  have htop : (w.deferred (w.connection.readRequests slot)).top = none := by
    simp only [World.top, World.deferred, hf, Option.map_some, Option.bind_some]
  have hpending : (w.deferred (w.connection.readRequests slot)).pendingRequests =
      w.pendingRequests ++ [w.connection.readRequests slot] := by
    simp only [World.pendingRequests, World.deferred, hf, Option.map_some, Option.getD_some]
  refine ⟨?_, slots, { hs with top := ?_, room := ?_ }, ?_⟩
  · have := hs.withinArray
    simp only [Option.toList_some, List.length_singleton] at hroom
    omega
  · intro i hi
    rw [htop] at hi
    cases hi
  · rw [htop, hpending]
    change _ ≤ w.connection.nReadRequests
    simpa [Nat.add_comm, Nat.add_left_comm, Nat.add_assoc] using hroom
  · simp only [World.ledger, htop, hpending, List.map_append, List.map_singleton]
    rfl

theorem Tracks.abandoned (h : Tracks w l) :
    Tracks (exec abandonPass w).2 { l with pending := [], top := none } := by
  obtain ⟨slots, hs, rfl⟩ := h
  refine ⟨slots, { hs with top := ?_, room := ?_ }, rfl⟩
  · rintro i ⟨⟩
  · have := hs.room
    change 0 + 0 + slots.length ≤ w.connection.nReadRequests
    omega

/-- Restoring requests behind the slots `0, …, i - 1` queues them in order. -/
theorem restored_spec (requests : List LdapRequest) {i : ℕ} {c : LdapConnectionCtx}
    (h : Represents c.callqueue c.links (List.range i)) (hc : c.callqueue.capacity = maxRequests)
    (hi : i + requests.length ≤ maxRequests) :
    Represents (c.restored i requests).callqueue (c.restored i requests).links
        (List.range (i + requests.length)) ∧
      (c.restored i requests).callqueue.capacity = maxRequests ∧
      (List.range (i + requests.length)).map (fun j => ((c.restored i requests).readRequests j).payload) =
        (List.range i).map (fun j => (c.readRequests j).payload) ++ requests.map LdapRequest.payload := by
  induction requests generalizing i c with
  | nil => exact ⟨h, hc, by simp [LdapConnectionCtx.restored]⟩
  | cons request rest ih =>
    rw [List.length_cons] at hi
    have hfresh : i ∉ List.range i := by simp
    obtain ⟨-, hrep, hcap⟩ := push_withRequest h hfresh (by rw [hc, List.length_range]; omega) request
    rw [← List.range_succ] at hrep
    obtain ⟨hrep', hcap', hload⟩ := ih hrep (hcap.trans hc) (by omega)
    have hsum : i + 1 + rest.length = i + (request :: rest).length := by rw [List.length_cons]; omega
    rw [hsum] at hrep' hload
    refine ⟨hrep', hcap', hload.trans ?_⟩
    have hold : ∀ j ∈ List.range i,
        (((c.withRequest i request).push i).2.readRequests j).payload = (c.readRequests j).payload := by
      intro j hj
      rw [payload_push, readRequests_withRequest_of_ne c request (ne_of_lt (List.mem_range.mp hj))]
    rw [List.range_succ, List.map_append, List.map_congr_left hold, List.map_singleton, payload_push,
      readRequests_withRequest_self, List.append_assoc, List.singleton_append, List.map_cons]

theorem Tracks.finished (h : Tracks w l)
    (hd : requestQueueEmpty w.connection.callqueue = true ∨ w.connection.callqueue.head = none) :
    w.pendingRequests.length ≤ maxRequests ∧ l.queue = [] ∧ Tracks w.finished
      { l with queue := l.pending, pending := [], top := none, used := l.pending.length } := by
  obtain ⟨slots, hs, rfl⟩ := h
  have hnil : slots = [] := by
    rcases hd with hd | hd
    · exact (requestQueueEmpty_iff hs.represents).mp hd
    · cases slots with
      | nil => rfl
      | cons slot rest => exact absurd (hd.symm.trans hs.represents.chain.1) (by simp)
  subst hnil
  have hlen : w.pendingRequests.length ≤ maxRequests := by
    have hroom := hs.room
    have harray := hs.withinArray
    omega
  obtain ⟨hrep, hcap, hload⟩ := restored_spec (i := 0) w.pendingRequests
    (c := { w.connection with nReadRequests := 0 }) hs.represents hs.capacity (by omega)
  rw [Nat.zero_add] at hrep hload
  obtain ⟨queue, readRequests, he⟩ := LdapConnectionCtx.restored_eq
    { w.connection with nReadRequests := 0 } 0 w.pendingRequests
  refine ⟨hlen, rfl, List.range w.pendingRequests.length, ?_, ?_⟩
  · exact { represents := hrep
            used := fun i hi => List.mem_range.mp hi
            capacity := hcap
            withinArray := hlen
            top := by rintro i ⟨⟩
            room := by
              change 0 + 0 + (List.range _).length ≤ w.pendingRequests.length
              rw [List.length_range]
              omega
            tableRoom := by
              change (LdapConnectionCtx.restored _ 0 _).nSearchRequests < _
              rw [he]
              exact hs.tableRoom }
  · refine Ledger.ext hload rfl rfl ?_ ?_
    · exact (List.length_map ..).symm
    · change (LdapConnectionCtx.restored _ 0 _).table = _
      rw [he]
      rfl

theorem table_registerSearch (c : LdapConnectionCtx) (request : LdapSearchRequest) :
    (c.registerSearch request).table = c.table ++ [request] := by
  have hold : ∀ i ∈ List.range c.nSearchRequests,
      Function.update c.searchRequests c.nSearchRequests request i = c.searchRequests i :=
    fun i hi => Function.update_of_ne (ne_of_lt (List.mem_range.mp hi)) ..
  change (List.range (c.nSearchRequests + 1)).map
    (Function.update c.searchRequests c.nSearchRequests request) = _
  rw [List.range_succ, List.map_append, List.map_congr_left hold, List.map_singleton,
    Function.update_self]
  rfl

theorem Tracks.registered (h : Tracks w l) (hn : w.connection.nSearchRequests + 1 < maxRequests)
    (request : LdapSearchRequest) :
    Tracks (w.registered request) { l with table := l.table ++ [request] } := by
  obtain ⟨slots, hs, rfl⟩ := h
  exact ⟨slots, { hs with tableRoom := hn },
    Ledger.ext rfl rfl rfl rfl (table_registerSearch w.connection request)⟩

theorem length_table (c : LdapConnectionCtx) : c.table.length = c.nSearchRequests := by
  rw [LdapConnectionCtx.table, List.length_map, List.length_range]

theorem getElem_table (c : LdapConnectionCtx) {i : ℕ} (h : i < c.table.length) :
    c.table[i] = c.searchRequests i := by
  simp only [LdapConnectionCtx.table, List.getElem_map, List.getElem_range]

theorem table_removeSearchRequest {c : LdapConnectionCtx} {index : ℕ}
    (h : index < c.nSearchRequests) :
    (c.removeSearchRequest index).table = removeEntry c.nReadRequests index c.table := by
  unfold LdapConnectionCtx.removeSearchRequest removeEntry
  split_ifs with hlast
  · apply List.ext_getElem
    · simp only [length_table, List.length_dropLast, List.length_set]
    intro i hi hi'
    rw [getElem_table, List.getElem_dropLast, List.getElem_set, getElem_table]
    change Function.update c.searchRequests index LdapConnectionCtx.clearedSearch i = _
    by_cases he : index = i
    · rw [if_pos he, ← he, Function.update_self]
    · rw [if_neg he, Function.update_of_ne (Ne.symm he)]
  · apply List.ext_getElem
    · rw [length_table, List.length_eraseIdx, length_table, if_pos h]
    intro i hi hi'
    rw [length_table] at hi
    change i < c.nSearchRequests - 1 at hi
    rw [getElem_table, List.getElem_eraseIdx]
    change Function.update (c.shiftSearches index) (c.nSearchRequests - 1) _ i = _
    rw [Function.update_of_ne (ne_of_lt hi), LdapConnectionCtx.shiftSearches]
    by_cases hlt : i < index
    · rw [if_neg (by omega), dif_pos hlt, getElem_table]
    · rw [if_pos (by omega), dif_neg hlt, getElem_table]

theorem Tracks.removed (h : Tracks w l) {index : ℕ} (hi : index < w.connection.nSearchRequests) :
    Tracks (w.removed index) { l with table := removeEntry l.used index l.table } := by
  obtain ⟨slots, hs, rfl⟩ := h
  have htable := table_removeSearchRequest hi
  obtain ⟨searchRequests, he⟩ := w.connection.removeSearchRequest_eq index
  have hw : w.removed index = { w.record (.searchRemoved index w.connection) with
      connection := { w.connection with
        nSearchRequests := w.connection.nSearchRequests - 1, searchRequests := searchRequests } } := by
    rw [World.removed, he]
  refine ⟨slots, ?_, ?_⟩
  · rw [hw]
    exact { hs with tableRoom := lt_of_le_of_lt (Nat.sub_le _ _) hs.tableRoom }
  · rw [he] at htable
    rw [hw]
    exact Ledger.ext rfl rfl rfl rfl htable

theorem findSearchRequest_eq_some {c : LdapConnectionCtx} {msgid : Int} {index : ℕ}
    (h : c.findSearchRequest msgid = some index) :
    ∃ hlt : index < c.table.length, c.table[index].msgid = msgid := by
  have hlt : index < c.table.length := by
    rw [length_table]
    exact findSearchRequest_lt h
  refine ⟨hlt, ?_⟩
  rw [getElem_table]
  simpa using List.find?_some h

theorem tracks_empty {w : World} (hf : w.frame = none)
    (hq : w.connection.callqueue = requestQueueNew maxRequests) (hn : w.connection.nReadRequests = 0)
    (hs : w.connection.nSearchRequests = 0) : Tracks w .empty := by
  have htop : w.top = none := by rw [World.top, hf]; rfl
  have hpending : w.pendingRequests = [] := by rw [World.pendingRequests, hf]; rfl
  refine ⟨[], ?_, by simp [World.ledger, Ledger.empty, htop, hpending, hn, hs, LdapConnectionCtx.table]⟩
  constructor
  · rw [hq]
    exact represents_new _ _
  · simp
  · rw [hq]
    rfl
  · rw [hn]
    exact Nat.zero_le _
  · simp [htop]
  · simp [htop, hpending]
  · rw [hs]
    decide

end Libdomain.Connection
