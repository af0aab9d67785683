import Libdomain.Connection.Abandonment
import Libdomain.Connection.Steering
import Libdomain.Connection.Upholding

/-! # What a read pass carries along

The requests a pass has to account for are those still queued, those it has set aside and
the one in hand. A statement about the connection and these requests holds after the pass
if it depends on nothing else the pass moves about and each response carries it on.
-/
namespace Libdomain.Connection
open Libdomain.Queue Libdomain.Program Relation

def World.owed (w : World) : List Payload :=
  (replay w.trace).queue ++ w.pendingRequests.map LdapRequest.payload

/-- Requests have changed hands, and no search has been issued. -/
structure World.Similar (w w' : World) : Prop where
  grows : w.Grows w' (Event.Issues w.epoch fun _ => False)
  epoch : w'.epoch = w.epoch
  directoryType : w'.connection.directoryType = w.connection.directoryType
  schema : w'.connection.schema = w.connection.schema
  stateMachine : w'.connection.stateMachine = w.connection.stateMachine

/-- The condition holds of each response to a pass in the world in which it is processed. -/
def World.EachResponse (C : World → ℕ → Response → Prop) : List Response → World → Prop
  | [], _ => True
  | r :: rest, w => ∀ slot t, exec popRequest w = (.ok (some slot), t) →
      C t slot r ∧ ∀ t', exec (processRequest slot r) t = (.ok true, t') → World.EachResponse C rest t'

/-- Responses that meet the condition carry the statement on; `T` says it of a world and of
the requests it has to account for. -/
structure Carries (C : World → ℕ → Response → Prop) (T : World → List Payload → Prop) : Prop where
  similar : ∀ {w w' ps ps'}, w.Similar w' → (∀ p ∈ ps, p ∈ ps') → T w ps → T w' ps'
  called : ∀ {w slot r} handle c, C w slot r → C (w.record (.call handle c)) slot r
  failed : ∀ {w w' slot r}, Simulated w → C w slot r → r.rc = ldapResAny → r.diagnostics.succeed = true →
    T w ((w.connection.readRequests slot).payload :: w.owed) →
    exec connectionOptionalTransitionOnError (w.record (.resultError (w.connection.readRequests slot))) =
      (.ok (), w') → T w' w'.owed
  abandoned : ∀ {w slot r}, Simulated w → C w slot r → r.Abandons →
    T w ((w.connection.readRequests slot).payload :: w.owed) → T w (replay w.trace).queue
  handled : ∀ {w w' slot r handler code}, Simulated w → C w slot r → r.rc ≠ ldapResAny →
    r.rc ≠ ldapResUnsolicited → (w.connection.readRequests slot).onReadOperation = some handler →
    T w ((w.connection.readRequests slot).payload :: w.owed) →
    exec (handler.handle r) (w.dispatched slot (w.connection.readRequests slot) r) = (.ok code, w') →
      T w' w'.owed

variable {C : World → ℕ → Response → Prop} {T : World → List Payload → Prop} {w w' : World} {r : Response} {slot : ℕ}

theorem similar_record {e : Event} (w : World) (he : e.Issues w.epoch fun _ => False) : w.Similar (w.record e) :=
  ⟨.one rfl he, rfl, rfl, rfl, rfl⟩

theorem World.Upholds.owed {S : SearchCallback → Prop} (h : w.Upholds S w') : ∀ p ∈ w.owed, p ∈ w'.owed := by
  have hpending : w'.pendingRequests = w.pendingRequests := by
    rw [World.pendingRequests, h.frame, World.pendingRequests]
  intro p hp
  rw [World.owed, hpending]
  exact (List.mem_append.mp hp).elim (fun hq => List.mem_append_left _ (h.queue p hq))
    fun hq => List.mem_append_right _ hq

theorem Carries.releaseTop (hT : Carries C T) (hin : T w w.owed) :
    T (exec releaseTop w).2 (exec releaseTop w).2.owed := by
  refine hT.similar ⟨.one rfl trivial, rfl, rfl, rfl, rfl⟩ (fun p hp => ?_) hin
  rw [World.owed, pendingRequests_releaseTop]
  exact hp

theorem pendingRequests_deferred (htop : w.top = some slot) (request : LdapRequest) :
    (w.deferred request).pendingRequests = w.pendingRequests ++ [request] := by
  obtain ⟨f, hf⟩ := Option.isSome_iff_exists.mp (frame_of_top htop)
  simp only [World.pendingRequests, World.deferred, hf, Option.map_some, Option.getD_some]

theorem Carries.deferred (hT : Carries C T) (htop : w.top = some slot)
    (hin : T w ((w.connection.readRequests slot).payload :: w.owed)) :
    T (w.deferred (w.connection.readRequests slot)) (w.deferred (w.connection.readRequests slot)).owed := by
  refine hT.similar ⟨.two rfl trivial trivial, rfl, rfl, rfl, rfl⟩ (fun p hp => ?_) hin
  rw [World.owed, pendingRequests_deferred htop, List.map_append, List.map_singleton, ← List.append_assoc]
  rcases List.mem_cons.mp hp with rfl | hp
  · exact List.mem_append_right _ List.mem_cons_self
  · exact List.mem_append_left _ hp

theorem Carries.popped {queue : RequestQueue ℕ} (hT : Carries C T) (hw : Simulated w) (hidle : w.Idle)
    (hpop : requestQueuePop w.connection.callqueue w.connection.links = (some slot, queue)) (hin : T w w.owed) :
    T (w.popped slot queue)
      (((w.popped slot queue).connection.readRequests slot).payload :: (w.popped slot queue).owed) := by
  obtain ⟨payload, rest, hqueue, hpayload, -⟩ := Tracks.popped hw hidle.1 hidle.2.1 hpop
  have hpending : (w.popped slot queue).pendingRequests = w.pendingRequests := by
    change ((w.frame.map _).map _).getD [] = (w.frame.map _).getD []
    cases w.frame <;> rfl
  have hreplay : (replay (w.popped slot queue).trace).queue = rest := by
    change (replay w.trace).queue.tail = rest
    rw [hqueue, List.tail_cons]
  have hhead : ((w.popped slot queue).connection.readRequests slot).payload = payload := hpayload.symm
  refine hT.similar ⟨.one rfl trivial, rfl, rfl, rfl, rfl⟩ (fun p hp => ?_) hin
  rw [World.owed, hqueue, List.cons_append] at hp
  rwa [World.owed, hreplay, hpending, hhead]

theorem Carries.finished (hT : Carries C T) (hw : Simulated w) (hd : w.Drained) (hin : T w w.owed) :
    T w.finished (replay w.finished.trace).queue := by
  obtain ⟨-, hempty, hfinished⟩ := Tracks.finished hw hd
  obtain ⟨queue, readRequests, hrestored⟩ := LdapConnectionCtx.restored_eq
    { w.connection with nReadRequests := 0 } 0 w.pendingRequests
  have hconnection : w.finished.connection = { w.connection with
      callqueue := queue, readRequests := readRequests, nReadRequests := w.pendingRequests.length } := by
    unfold World.finished LdapConnectionCtx.finished
    rw [hrestored]
  have hgrows : w.Grows w.finished (Event.Issues w.epoch fun _ => False) :=
    .finished w (fun _ => trivial) fun _ => trivial
  refine hT.similar ⟨hgrows, rfl, ?_, ?_, ?_⟩ (fun p hp => ?_) hin
  · rw [hconnection]
  · rw [hconnection]
  · rw [hconnection]
  · rw [World.owed, hempty, List.nil_append, ← Tracks.pending_eq hw] at hp
    have hqueue : (replay w.finished.trace).queue =
        (replay (restoreWrites 0 w.pendingRequests.length ++ w.trace)).pending := rfl
    rwa [hqueue, replay_restoreWrites]

/-- One iteration carries the statement on; a pass that is given up keeps only what is queued. -/
theorem Carries.processRequest {more : Bool} (hT : Carries C T) (hw : Simulated w) (htop : w.top = some slot)
    (hC : C w slot r) (hin : T w ((w.connection.readRequests slot).payload :: w.owed))
    (he : exec (processRequest slot r) w = (.ok more, w')) :
    (more = true → T w' w'.owed) ∧ (more = false → T w' (replay w'.trace).queue) := by
  rw [Connection.processRequest, exec_bind_ok (exec_get w), exec_bind_ok (exec_call _ w)] at he
  have hs : Simulated (w.record (.call w.connection.ldap (.result (w.connection.readRequests slot).msgid))) :=
    hw.congr (by constructor <;> rfl)
  have hC := hT.called w.connection.ldap (.result (w.connection.readRequests slot).msgid) hC
  have hin : T (w.record (.call w.connection.ldap (.result (w.connection.readRequests slot).msgid)))
      ((w.connection.readRequests slot).payload :: w.owed) :=
    hT.similar (similar_record w trivial) (fun _ => id) hin
  -- The call only leaves its mark in the trace.
  generalize hcalled : w.record (.call w.connection.ldap (.result (w.connection.readRequests slot).msgid)) = s
    at he hs hC hin
  have hrequest : s.connection.readRequests slot = w.connection.readRequests slot := by rw [← hcalled]; rfl
  have howed : s.owed = w.owed := by rw [← hcalled]; rfl
  have hheld : s.top = some slot := by rw [← hcalled]; exact htop
  rw [← hrequest] at he
  rw [← hrequest, ← howed] at hin
  clear hcalled hrequest howed htop hw
  by_cases hany : r.rc = ldapResAny
  · rw [if_pos hany] at he
    by_cases hd : r.diagnostics.succeed = true
    · rw [if_pos hd, exec_bind_ok (exec_emit _ s)] at he
      obtain ⟨_, t, htransition, he⟩ := exec_bind_eq_ok he
      cases he
      exact ⟨fun _ => hT.releaseTop (hT.failed hs hC hany hd hin htransition), by simp⟩
    · rw [if_neg hd] at he
      cases he
      exact ⟨by simp, fun _ => hT.abandoned hs hC ⟨hany, Bool.eq_false_iff.mpr hd⟩ hin⟩
  · rw [if_neg hany] at he
    by_cases hnone : r.rc = ldapResUnsolicited
    · rw [if_pos hnone] at he
      obtain ⟨_, t, hdefer, he⟩ := exec_bind_eq_ok he
      cases he
      rw [exec_deferRequest] at hdefer
      split_ifs at hdefer
      · cases hdefer
        exact ⟨fun _ => hT.deferred hheld hin, by simp⟩
      · cases hdefer
    · rw [if_neg hnone] at he
      obtain ⟨_, t, hdispatch, he⟩ := exec_bind_eq_ok he
      cases he
      refine ⟨fun _ => ?_, by simp⟩
      -- The requests that are tracked have handlers.
      have hsome := replay_handled (.inr (.inr (Tracks.top_eq hs hheld)))
      obtain ⟨handler, hhandler⟩ := Option.isSome_iff_exists.mp hsome
      have hannounce : exec (announce slot (s.connection.readRequests slot) r) s =
          (.ok (), s.dispatched slot (s.connection.readRequests slot) r) := rfl
      change (s.connection.readRequests slot).onReadOperation = some handler at hhandler
      rw [dispatchRequest, exec_bind_ok hannounce, hhandler] at hdispatch
      obtain ⟨code, u, hhandle, hrelease⟩ := exec_bind_eq_ok hdispatch
      cases hrelease
      exact hT.releaseTop (hT.handled hs hC hany hnone hhandler hin hhandle)

theorem Carries.iteration {r : Response} {rest : List Response} {queue : RequestQueue ℕ} {more : Bool}
    (hT : Carries C T) (hw : Simulated w) (hidle : w.Idle) (hC : w.EachResponse C (r :: rest)) (hin : T w w.owed)
    (hpop : requestQueuePop w.connection.callqueue w.connection.links = (some slot, queue))
    (he : exec (Connection.processRequest slot r) (w.popped slot queue) = (.ok more, w')) :
    Simulated w' ∧ (more = true → w'.Idle ∧ w'.EachResponse C rest ∧ T w' w'.owed) ∧
      (more = false → T w' (replay w'.trace).queue) := by
  obtain ⟨hanswered, hrest⟩ := hC slot _ (exec_popRequest_some hpop)
  have hprocessing := hidle.popped hpop
  have hpopped : Simulated (w.popped slot queue) :=
    (Stride.read (.pop w slot queue hidle.1 hidle.2.1 hidle.2.2 hpop)).simulated hw
  have hcarried := hT.processRequest hpopped hprocessing.1 hanswered (hT.popped hw hidle hpop hin) he
  have hfollows := follows_processRequest slot r _ hprocessing
  rw [he] at hfollows
  have hsimulated : Simulated w' :=
    (simulated_of_moves (ReflTransGen.mono (fun _ _ => Move.serving) _ _ hfollows.1) hpopped).1
  refine ⟨hsimulated, ?_, hcarried.2⟩
  rintro rfl
  exact ⟨hfollows.2 true rfl, hrest w' he, hcarried.1 rfl⟩

theorem Carries.readLoop {responses : List Response} {drained : Bool} (hT : Carries C T) (hw : Simulated w)
    (hidle : w.Idle) (hC : w.EachResponse C responses) (hin : T w w.owed)
    (he : exec (readLoop responses) w = (.ok drained, w')) :
    Simulated w' ∧ (drained = true → T w' w'.owed) ∧ (drained = false → T w' (replay w'.trace).queue) := by
  let P (responses : List Response) (w : World) (outcome : Except Fault Bool × World) : Prop :=
    Simulated w → w.Idle → w.EachResponse C responses → T w w.owed → outcome = (.ok drained, w') →
      Simulated w' ∧ (drained = true → T w' w'.owed) ∧ (drained = false → T w' (replay w'.trace).queue)
  have hloop : ∀ responses w, P responses w (exec (Connection.readLoop responses) w) := by
    intro responses w
    induction responses, w using readLoop_induction with
    | drained =>
      intro hs _ _ hin hdone
      cases hdone
      exact ⟨hs, fun _ => hin, by simp⟩
    | starved => rintro _ _ _ _ ⟨⟩
    | failed => rintro _ _ _ _ ⟨⟩
    | goesOn hpop hprocess ih =>
      intro hs hidle hC hin hdone
      obtain ⟨hsimulated, hnext, -⟩ := hT.iteration hs hidle hC hin hpop hprocess
      obtain ⟨hidle', hrest, hcarried⟩ := hnext rfl
      exact ih hsimulated hidle' hrest hcarried hdone
    | givesUp hpop hprocess =>
      intro hs hidle hC hin hdone
      obtain ⟨hsimulated, -, hcarried⟩ := hT.iteration hs hidle hC hin hpop hprocess
      cases hdone
      exact ⟨hsimulated, by simp, hcarried⟩
  exact hloop responses w hw hidle hC hin he

/-- A pass whose responses meet the condition carries the statement from queue to queue. -/
theorem Carries.connectionOnRead {responses : List Response} (hT : Carries C T) (hw : Simulated w)
    (hf : w.frame = none) (hC : (exec beginPass w).2.EachResponse C responses) (hin : T w (replay w.trace).queue)
    (he : exec (connectionOnRead responses) w = (.ok (), w')) : T w' (replay w'.trace).queue := by
  have hbegin : exec beginPass w = (.ok (), (exec beginPass w).2) := rfl
  rw [Connection.connectionOnRead, exec_bind_ok hbegin] at he
  have hbegun : Simulated (exec beginPass w).2 := (Stride.read (.pass (.begin w hf))).simulated hw
  have hidle : (exec beginPass w).2.Idle := ⟨rfl, rfl, .inl rfl⟩
  have hstart : T (exec beginPass w).2 (exec beginPass w).2.owed :=
    hT.similar ⟨.one rfl trivial, rfl, rfl, rfl, rfl⟩ (fun _ hp => List.mem_append_left _ hp) hin
  obtain ⟨drained, t, hloop, he⟩ := exec_bind_eq_ok he
  have hafter := (follows_readLoop responses (exec beginPass w).2 hidle).2 drained (by rw [hloop])
  obtain ⟨ht, htrue, hfalse⟩ := hT.readLoop hbegun hidle hC hstart hloop
  rw [hloop] at hafter
  cases drained with
  | true =>
    rw [if_pos rfl, exec_finishPass t (Tracks.finished ht hafter.2).1] at he
    cases he
    exact hT.finished ht hafter.2 (htrue rfl)
  | false =>
    cases he
    exact hT.similar ⟨.one rfl trivial, rfl, rfl, rfl, rfl⟩ (fun _ => id) (hfalse rfl)

theorem performSteps_carry {D : World → Step → Prop} {I : World → Prop}
    (hstep : ∀ step s t, Simulated s → Simulated t → s.frame = none → D s step → I s →
      exec step.perform s = (.ok (), t) → I t)
    {steps : List Step} (hw : Simulated w) (hf : w.frame = none) (hD : EachStep D steps w) (hin : I w)
    (he : exec (performSteps steps) w = (.ok (), w')) : I w' := by
  induction steps generalizing w with
  | nil =>
    cases he
    exact hin
  | cons step rest ih =>
    obtain ⟨hmeets, hrest⟩ := hD
    rw [exec_performSteps_cons] at he
    obtain ⟨_, t, hperform, hmore⟩ := exec_bind_eq_ok he
    have hfollows := follows_stepPerform step w hf
    rw [hperform] at hfollows
    have ht : Simulated t := (simulated_of_moves hfollows.1 hw).1
    exact ih ht (hfollows.2 () rfl) (hrest t hperform) (hstep step w t hw ht hf hmeets hin hperform) hmore

instance decidableEachResponse [∀ w slot r, Decidable (C w slot r)] :
    (responses : List Response) → (w : World) → Decidable (w.EachResponse C responses)
  | [], _ => isTrue trivial
  | r :: rest, w =>
    match hpop : exec popRequest w with
    | (.ok (some slot), t) =>
      match hprocess : exec (processRequest slot r) t with
      | (.ok true, t') =>
        have : Decidable (t'.EachResponse C rest) := decidableEachResponse rest t'
        decidable_of_iff (C t slot r ∧ t'.EachResponse C rest)
          ⟨fun h slot' u hu => by
            cases hpop.symm.trans hu
            exact ⟨h.1, fun u' hu' => by cases hprocess.symm.trans hu'; exact h.2⟩,
          fun h => ⟨(h slot t hpop).1, (h slot t hpop).2 t' hprocess⟩⟩
      | (.ok false, t') => decidable_of_iff (C t slot r)
          ⟨fun h slot' u hu => by
            cases hpop.symm.trans hu
            exact ⟨h, fun u' hu' => by cases hprocess.symm.trans hu'⟩, fun h => (h slot t hpop).1⟩
      | (.error _, t') => decidable_of_iff (C t slot r)
          ⟨fun h slot' u hu => by
            cases hpop.symm.trans hu
            exact ⟨h, fun u' hu' => by cases hprocess.symm.trans hu'⟩, fun h => (h slot t hpop).1⟩
    | (.ok none, t) => isTrue fun slot u hu => by cases hpop.symm.trans hu
    | (.error _, t) => isTrue fun slot u hu => by cases hpop.symm.trans hu

end Libdomain.Connection
