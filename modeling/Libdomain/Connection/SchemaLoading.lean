import Libdomain.Connection.SearchDelivery
import Libdomain.Connection.Waiting

/-! # Whether the schema has been loaded

The state machine asks for the attribute types and the object classes by two searches and goes
on once `ldap_schema_ready` says so, which looks at the sizes of two tables or at nothing. The
searches have been processed by then if the machine is not asked before both are answered, and
the answers can be entered value by value.
-/
namespace Libdomain.Connection
open Libdomain.Queue Libdomain.Program Relation

def LdapDirectoryType.Loads (type : LdapDirectoryType) : Prop := type = .openldap ∨ type = .activeDirectory

/-- The search has been answered, and the definition of every value of the answer is in the
schema. -/
def World.Processed (w : World) (kind : DefinitionKind) (msgid : Int) : Prop :=
  ∃ slot request r pending c index userData entries c',
    [Event.searchCallback index w.epoch msgid kind.callback userData entries c',
      Event.dispatch slot request r pending c] <:+: w.trace ∧
    readEntries r = some entries ∧
    ∀ value ∈ schemaValues entries, ∃ d, r.parse value = some d ∧ d.Complete ∧
      (w.connection.schema.tables kind).Knows d

/-- A running machine has both kinds of definitions, from all searches since the last
configuration. -/
def World.SchemaLoaded (w : World) : Prop :=
  w.connection.stateMachine = .live .run → w.connection.directoryType.Loads → ∀ kind ∈ definitionKinds,
    w.searches kind ≠ [] ∧ ∀ msgid ∈ w.searches kind, w.Processed kind msgid

/-- The callbacks an application can have; those of the schema searches are private to them. -/
def SearchCallback.Foreign (callback : SearchCallback) : Prop := ∀ kind ∈ definitionKinds, callback ≠ kind.callback

/-- The values describe definitions which can be entered one after the other. The result of the
last one is not looked at. -/
def Appends (kind : DefinitionKind) (parse : Bytes → Option SchemaDefinition) : List Bytes → LdapSchema → Prop
  | [], _ => True
  | value :: values, schema => ∃ d ∈ parse value, d.Complete ∧
      (values = [] ∨ (kind.append schema d).1 = true) ∧ Appends kind parse values (kind.append schema d).2

/-- The response is found in the table of searches and its values can be entered. -/
def Response.FillsSchema (r : Response) (c : LdapConnectionCtx) (kind : DefinitionKind) : Prop :=
  (r.rc = ldapResSearchEntry ∨ r.rc = ldapResSearchResult) ∧
    ∃ index ∈ c.findSearchRequest r.msgid, (c.searchRequests index).onSearchOperation = some kind.callback ∧
      ∃ entries ∈ readEntries r, Appends kind r.parse (schemaValues entries) c.schema

/-- While the machine checks the schema, no response to a search for definitions is wasted. -/
def World.Checks (w : World) (request : LdapRequest) (r : Response) : Prop :=
  w.connection.stateMachine = .live .checkSchema → w.connection.directoryType.Loads →
    (r.rc ≠ ldapResUnsolicited → request.onReadOperation = some .searchOnRead →
      ∀ kind ∈ definitionKinds, request.msgid ∈ w.searches kind →
        r.msgid = request.msgid ∧ r.FillsSchema w.connection kind) ∧
    (r.Abandons → ∀ pending ∈ w.pendingRequests, ¬w.Seeks pending.payload)

/-- A late root DSE does not turn the directory into one that has a schema to be loaded. -/
def World.KeepsType (w : World) (request : LdapRequest) (r : Response) : Prop :=
  w.connection.stateMachine = .live .checkSchema ∨ w.connection.stateMachine = .live .run →
    request.onReadOperation = some .directoryParseResult → r.rc = ldapResSearchEntry ∨ r.rc = ldapResSearchResult →
      (r.directoryType w.connection).Loads → w.connection.directoryType.Loads

def World.Loads (w : World) (slot : ℕ) (r : Response) : Prop :=
  (∀ s ∈ r.submissions, s.Permitted SearchCallback.Foreign) ∧
    w.Checks (w.connection.readRequests slot) r ∧ w.KeepsType (w.connection.readRequests slot) r

/-- The schema is searched for once, and the machine is asked for it when no search is left. -/
def Step.Loads (w : World) : Step → Prop
  | .tick _ => w.connection.directoryType.Loads →
      (w.connection.stateMachine = .live .requestSchema → ∀ kind ∈ definitionKinds, w.searches kind = []) ∧
      (w.connection.stateMachine = .live .checkSchema → ldapSchemaReady w.connection = true →
        ∀ request ∈ w.connection.queuedRequests, ¬w.Seeks request.payload)
  | .read responses => (exec beginPass w).2.EachResponse World.Loads responses
  | .submit submission => submission.Permitted SearchCallback.Foreign
  | .installErrorHandler => True

/-- While the machine checks the schema, the searches have been processed or are among the
payloads; when it runs, they have been processed. -/
def World.Loading (w : World) (payloads : List Payload) : Prop :=
  ∀ state ∈ [LdapConnectionState.checkSchema, .run], w.connection.stateMachine = .live state →
    w.connection.directoryType.Loads → ∀ kind ∈ definitionKinds, w.searches kind ≠ [] ∧
      ∀ msgid ∈ w.searches kind, w.Processed kind msgid ∨
        state = .checkSchema ∧ (msgid, some .searchOnRead) ∈ payloads

variable {w w' : World} {r : Response} {slot : ℕ} {code : OperationReturnCode} {kind : DefinitionKind} {msgid : Int}
  {payloads payloads' : List Payload}

theorem World.Processed.mono (h : w.Processed kind msgid) (htrace : w.trace <:+ w'.trace) (hepoch : w'.epoch = w.epoch)
    (hschema : (w.connection.schema.tables kind).Within (w'.connection.schema.tables kind)) :
    w'.Processed kind msgid := by
  obtain ⟨slot, request, r, pending, c, index, userData, entries, c', hinfix, hentries, hvalues⟩ := h
  refine ⟨slot, request, r, pending, c, index, userData, entries, c', ?_, hentries, fun value hvalue => ?_⟩
  · rw [hepoch]
    exact hinfix.trans htrace.isInfix
  · obtain ⟨d, hd, hcomplete, hknows⟩ := hvalues value hvalue
    exact ⟨d, hd, hcomplete, hschema.knows hknows⟩

theorem World.Processed.delivered (h : w.Processed kind msgid) : (w.epoch, msgid) ∈ deliveredKeys w.trace := by
  obtain ⟨slot, request, r, pending, c, index, userData, entries, c', hinfix, -⟩ := h
  exact mem_deliveredKeys (List.IsInfix.subset hinfix List.mem_cons_self)

theorem World.Grows.suffix {p : Event → Prop} (h : w.Grows w' p) : w.trace <:+ w'.trace := by
  obtain ⟨new, htrace, -⟩ := h
  exact htrace ▸ List.suffix_append new w.trace

theorem World.Grows.searches_foreign (h : w.Grows w' (Event.Issues w.epoch SearchCallback.Foreign))
    (hepoch : w'.epoch = w.epoch) (hkind : kind ∈ definitionKinds) : w'.searches kind = w.searches kind :=
  h.searches_eq hepoch fun hforeign => hforeign kind hkind rfl

theorem World.Loading.mono (hin : w.Loading payloads)
    (hgrows : w.Grows w' (Event.Issues w.epoch SearchCallback.Foreign)) (hepoch : w'.epoch = w.epoch)
    (hlive : ∀ state ∈ [LdapConnectionState.checkSchema, .run], w'.connection.stateMachine = .live state →
      w.connection.stateMachine = .live state ∧
        (w'.connection.directoryType.Loads → w.connection.directoryType.Loads))
    (hschema : ∀ kind, (w.connection.schema.tables kind).Within (w'.connection.schema.tables kind))
    (hpayloads : w.connection.stateMachine = .live .checkSchema → w.connection.directoryType.Loads →
      ∀ kind ∈ definitionKinds, ∀ msgid ∈ w.searches kind, (msgid, some .searchOnRead) ∈ payloads →
        w'.Processed kind msgid ∨ (msgid, some .searchOnRead) ∈ payloads') :
    w'.Loading payloads' := by
  intro state hstate hs htype kind hkind
  obtain ⟨hbefore, htypes⟩ := hlive state hstate hs
  obtain ⟨hsome, hall⟩ := hin state hstate hbefore (htypes htype) kind hkind
  rw [hgrows.searches_foreign hepoch hkind]
  refine ⟨hsome, fun msgid hmsgid => ?_⟩
  rcases hall msgid hmsgid with hprocessed | ⟨rfl, hmem⟩
  · exact .inl (hprocessed.mono hgrows.suffix hepoch (hschema kind))
  · exact (hpayloads hbefore (htypes htype) kind hkind msgid hmsgid hmem).imp_right fun h => ⟨rfl, h⟩

theorem World.Upholds.loading (h : w.Upholds SearchCallback.Foreign w')
    (hpayloads : w.connection.stateMachine = .live .checkSchema → w.connection.directoryType.Loads →
      ∀ kind ∈ definitionKinds, ∀ msgid ∈ w.searches kind, (msgid, some .searchOnRead) ∈ payloads →
        w'.Processed kind msgid ∨ (msgid, some .searchOnRead) ∈ payloads')
    (hin : w.Loading payloads) : w'.Loading payloads' := by
  refine hin.mono h.grows h.epoch (fun state hstate hs => ⟨h.live ?_ hs, by rw [h.directoryType]; exact id⟩) h.schema
    hpayloads
  rcases List.mem_pair.mp hstate with rfl | rfl <;> decide

theorem World.Upholds.loading_of_subset (h : w.Upholds SearchCallback.Foreign w')
    (hpayloads : ∀ p ∈ payloads, p ∈ payloads') (hin : w.Loading payloads) : w'.Loading payloads' :=
  h.loading (fun _ _ _ _ _ _ hmem => .inr (hpayloads _ hmem)) hin

theorem loading_of_left (h : ∀ state ∈ [LdapConnectionState.checkSchema, .run],
    w.connection.stateMachine ≠ .live state) : w.Loading payloads :=
  fun state hstate hs => absurd hs (h state hstate)

theorem appends_known {parse : Bytes → Option SchemaDefinition} {values : List Bytes}
    (h : Appends kind parse values w.connection.schema)
    (he : exec (untilFailure (appendValueCallback kind.append parse) values) w = (.ok code, w')) :
    ∀ value ∈ values, ∃ d, parse value = some d ∧ d.Complete ∧ (w'.connection.schema.tables kind).Knows d := by
  induction values generalizing w with
  | nil => simp
  | cons value values ih =>
    obtain ⟨d, hd, hcomplete, hlast, hrest⟩ := h
    rw [untilFailure, exec_bind_ok (exec_appendValueCallback hd w)] at he
    have hupholds := upholds_along (S := fun _ => True) (Along.ite
      (c := (if (kind.append w.connection.schema d).1 then .success else .failure) = OperationReturnCode.failure)
      (p := pure OperationReturnCode.failure) Along.pure
      (along_untilFailure (upholds_appendValueCallback kind parse) values)) { w with
        connection := { w.connection with schema := (kind.append w.connection.schema d).2 } }
    rw [he] at hupholds
    intro v hv
    rcases List.mem_cons.mp hv with rfl | hv
    · exact ⟨d, hd, hcomplete, (hupholds.schema kind).knows (knows_append w.connection.schema hcomplete)⟩
    · have hentered : (kind.append w.connection.schema d).1 = true :=
        hlast.resolve_left (List.ne_nil_of_mem hv)
      rw [if_pos hentered, if_neg (by decide)] at he
      exact ih hrest he v hv

theorem processed_searchOnRead (h : r.FillsSchema w.connection kind)
    {request : LdapRequest} {pending : List LdapRequest} {c : LdapConnectionCtx} {events : List Event}
    (htrace : w.trace = .dispatch slot request r pending c :: events)
    (he : exec (searchOnRead r) w = (.ok code, w')) : w'.Processed kind r.msgid := by
  obtain ⟨htype, index, hfound, hcallback, entries, hentries, happends⟩ := h
  obtain ⟨t, hvalues, hupholds⟩ := searchOnRead_values (S := fun _ => True) htype hfound hcallback hentries he
  have hentered := appends_known (w := w.record _) happends hvalues
  have hloop := upholds_along (S := fun _ => True) (along_untilFailure
    (upholds_appendValueCallback kind r.parse) (schemaValues entries)) (w.record (.searchCallback index w.epoch
      r.msgid kind.callback (w.connection.searchRequests index).userData entries w.connection))
  rw [hvalues] at hloop
  refine ⟨slot, request, r, pending, c, index, (w.connection.searchRequests index).userData, entries, w.connection,
    ?_, hentries, fun value hvalue => ?_⟩
  · rw [hupholds.epoch, hloop.epoch]
    refine List.IsInfix.trans ?_ (hloop.grows.suffix.trans hupholds.grows.suffix).isInfix
    refine (List.prefix_append _ events).isInfix.trans ?_
    rw [World.record, htrace]
    exact List.infix_refl _
  · obtain ⟨d, hd, hcomplete, hknows⟩ := hentered value hvalue
    exact ⟨d, hd, hcomplete, (hupholds.schema kind).knows hknows⟩

theorem World.Checks.fills {request : LdapRequest} (h : w.Checks request r)
    (hs : w.connection.stateMachine = .live .checkSchema) (htype : w.connection.directoryType.Loads)
    (hr : r.rc ≠ ldapResUnsolicited) (hkind : kind ∈ definitionKinds) (hmsgid : msgid ∈ w.searches kind)
    (hpayload : (msgid, some .searchOnRead) = request.payload) :
    r.msgid = msgid ∧ r.FillsSchema w.connection kind := by
  obtain ⟨rfl, hhandler⟩ := Prod.mk.inj hpayload
  exact (h hs htype).1 hr hhandler.symm kind hkind hmsgid

/-- Responses that bring the schema on lose no search. -/
theorem carries_loading : Carries World.Loads World.Loading where
  similar := by
    intro w w' ps ps' hsimilar hps hin
    refine hin.mono (hsimilar.grows.mono fun e he => ?_) hsimilar.epoch (fun state _ hs => ?_) (fun kind => ?_)
      fun _ _ _ _ _ _ hmem => .inr (hps _ hmem)
    · cases e with
      | searchIssued => exact he.2.elim
      | _ => trivial
    · rw [← hsimilar.stateMachine, hsimilar.directoryType]
      exact ⟨hs, id⟩
    · rw [hsimilar.schema]
      exact .refl _
  called := fun _ _ hC => hC
  failed := by
    intro w w' slot r hw hC hany hd hin he
    have hrecord : w.Upholds SearchCallback.Foreign (w.record (.resultError (w.connection.readRequests slot))) :=
      upholds_record (fun _ => rfl) w trivial
    have htransition := upholds_along (S := SearchCallback.Foreign) upholds_connectionOptionalTransitionOnError
      (w.record (.resultError (w.connection.readRequests slot)))
    rw [he] at htransition
    have hupholds := hrecord.trans htransition
    refine hupholds.loading (fun hs htype kind hkind msgid hmsgid hmem => .inr ?_) hin
    rcases List.mem_cons.mp hmem with hhand | hmem
    · have hfills := hC.2.1.fills hs htype (hany ▸ by decide) hkind hmsgid hhand
      exact absurd (hany ▸ hfills.2.1) (by decide)
    · exact hupholds.owed _ hmem
  abandoned := by
    intro w slot r hw hC hr hin
    refine (World.Upholds.refl w).loading (fun hs htype kind hkind msgid hmsgid hmem => .inr ?_) hin
    rcases List.mem_cons.mp hmem with hhand | hmem
    · have hfills := hC.2.1.fills hs htype (hr.1 ▸ by decide) hkind hmsgid hhand
      exact absurd (hr.1 ▸ hfills.2.1) (by decide)
    · rcases List.mem_append.mp hmem with hqueue | hpending
      · exact hqueue
      · obtain ⟨pending, hp, hpayload⟩ := List.mem_map.mp hpending
        refine absurd ?_ ((hC.2.1 hs htype).2 hr pending hp)
        rw [hpayload]
        exact ⟨rfl, kind, hkind, hmsgid⟩
  handled := by
    intro w w' slot r handler code hw hC hany hnone hhandler hin he
    have hannounced := upholds_dispatched (S := SearchCallback.Foreign) w slot (w.connection.readRequests slot) r
    by_cases hdirectory : handler = .directoryParseResult
    · subst hdirectory
      have hothers : ∀ msgid, (msgid, some .searchOnRead) ∈ (w.connection.readRequests slot).payload :: w.owed →
          (msgid, some .searchOnRead) ∈ (w.dispatched slot (w.connection.readRequests slot) r).owed := by
        intro msgid hmem
        refine hannounced.owed _ ((List.mem_cons.mp hmem).resolve_left fun hhand => ?_)
        cases (Prod.mk.inj hhand).2.trans hhandler
      rcases directoryParseResult_cases hC.1 he with ⟨htype, rfl⟩ | hupholds
      · refine hin.mono hannounced.grows rfl (fun state hstate hs => ⟨hs, hC.2.2 ?_ hhandler htype⟩) (fun _ => .refl _)
          fun _ _ _ _ msgid _ hmem => .inr (hothers msgid hmem)
        rcases List.mem_pair.mp hstate with rfl | rfl
        · exact .inl hs
        · exact .inr hs
      · exact (hannounced.trans hupholds).loading
          (fun _ _ _ _ msgid _ hmem => .inr (hupholds.owed _ (hothers msgid hmem))) hin
    · have hupholds := upholds_along (upholds_handle hdirectory hC.1)
        (w.dispatched slot (w.connection.readRequests slot) r)
      rw [he] at hupholds
      refine (hannounced.trans hupholds).loading (fun hs htype kind hkind msgid hmsgid hmem => ?_) hin
      rcases List.mem_cons.mp hmem with hhand | hmem
      · obtain ⟨rfl, hfills⟩ := hC.2.1.fills hs htype hnone hkind hmsgid hhand
        have hsearch : handler = .searchOnRead :=
          Option.some.inj (hhandler.symm.trans (Prod.mk.inj hhand).2.symm)
        subst hsearch
        exact .inl (processed_searchOnRead (w := w.dispatched slot (w.connection.readRequests slot) r) hfills rfl he)
      · exact .inr ((hannounced.trans hupholds).owed _ hmem)

theorem loading_csmSetState {state : LdapConnectionState} (h : state ∉ [LdapConnectionState.checkSchema, .run])
    (w : World) : (exec (csmSetState state) w).2.Loading payloads :=
  loading_of_left fun _ hmem => ne_csmSetState (ne_of_mem_of_not_mem hmem h).symm w

theorem loading_enter {state : LdapConnectionState} {rc : OperationReturnCode}
    (h : state ∉ [LdapConnectionState.checkSchema, .run])
    (he : exec (do csmSetState state; return rc) w = (.ok code, w')) : w'.Loading payloads := by
  obtain ⟨_, t, hset, he⟩ := exec_bind_eq_ok he
  cases he
  have hloading : World.Loading _ payloads := loading_csmSetState h w
  rwa [hset] at hloading

theorem searches_search {arguments : SearchArguments} {callback : SearchCallback} {sent : Sent}
    (he : exec (search arguments (some callback) .schema sent) w = (.ok .success, w')) (kind : DefinitionKind) :
    w'.searches kind = (if callback = kind.callback then [sent.msgid] else []) ++ w.searches kind ∧
      (replay w'.trace).queue = (replay w.trace).queue ++ [(sent.msgid, some .searchOnRead)] := by
  rw [search, exec_bind_ok (exec_call _ w)] at he
  split_ifs at he
  · cases he
  · rw [Option.getD_some, exec_trackSearch] at he
    dsimp only at he
    split_ifs at he
    · cases he
      refine ⟨?_, rfl⟩
      have hissued : ∀ t : World, (t.issued callback .schema sent.msgid).searches kind =
          (if callback = kind.callback then [sent.msgid] else []) ++ t.searches kind := by
        intro t
        by_cases hcallback : callback = kind.callback
        · simp [World.searches, World.issued, World.record, Event.search, hcallback]
        · simp [World.searches, World.issued, World.record, Event.search, hcallback]
      exact hissued (w.record (.call w.connection.ldap (.searchExt arguments)))
    · cases he
    · cases he

def World.SearchesQueued (w : World) : Prop :=
  ∀ kind ∈ definitionKinds, w.searches kind ≠ [] ∧
    ∀ msgid ∈ w.searches kind, (msgid, some .searchOnRead) ∈ (replay w.trace).queue

theorem searchesQueued_searchDefinitions {base : Bytes} {first second : Sent}
    (hnone : ∀ kind ∈ definitionKinds, w.searches kind = [])
    (he : exec (searchDefinitions base first second) w = (.ok .success, w')) : w'.SearchesQueued := by
  rw [searchDefinitions] at he
  obtain ⟨rc, t, hfirst, he⟩ := exec_bind_eq_ok he
  split_ifs at he with hrc
  · cases he
  obtain ⟨rc', u, hsecond, he⟩ := exec_bind_eq_ok he
  split_ifs at he with hrc'
  · cases he
  cases he
  rw [not_not] at hrc hrc'
  subst hrc hrc'
  intro kind hkind
  obtain ⟨hsearches, hqueue⟩ := searches_search hfirst kind
  obtain ⟨hsearches', hqueue'⟩ := searches_search hsecond kind
  rw [hsearches', hsearches, hnone kind hkind, hqueue', hqueue]
  cases kind with
  | attributetype => simp [DefinitionKind.callback]
  | objectclass => simp [DefinitionKind.callback]

theorem searchesQueued_ldapSchemaLoad {first second : Sent} (htype : w.connection.directoryType.Loads)
    (hnone : ∀ kind ∈ definitionKinds, w.searches kind = [])
    (he : exec (ldapSchemaLoad first second) w = (.ok .success, w')) : w'.SearchesQueued := by
  rw [ldapSchemaLoad, exec_bind_ok (exec_get w)] at he
  rcases htype with htype | htype
  · rw [htype] at he
    exact searchesQueued_searchDefinitions hnone he
  · rw [htype] at he
    dsimp only at he
    rw [schemaLoadActiveDirectory, exec_bind_ok (exec_get w)] at he
    cases hpath : w.schemaEntryPath with
    | none =>
      rw [hpath] at he
      obtain ⟨rc, t, -, he⟩ := exec_bind_eq_ok he
      split_ifs at he
      · cases he
      · cases he
    | some path =>
      rw [hpath] at he
      exact searchesQueued_searchDefinitions hnone he

theorem loading_requested {first second : Sent} {t : World}
    (hnone : w.connection.directoryType.Loads → ∀ kind ∈ definitionKinds, w.searches kind = [])
    (he : exec (ldapSchemaLoad first second) w = (.ok .success, t)) :
    (exec (csmSetState .checkSchema) t).2.Loading (replay (exec (csmSetState .checkSchema) t).2.trace).queue := by
  have hupholds := upholds_along ((along_ldapSchemaLoad first second).mono fun _ _ h => h.upholds) w
  rw [he] at hupholds
  rw [exec_csmSetState]
  cases hs : t.connection.stateMachine with
  | null => exact loading_of_left (by simp [hs])
  | dangling => exact loading_of_left (by simp [hs])
  | live current =>
    intro state hstate hset htype kind hkind
    cases hset
    have hloads : w.connection.directoryType.Loads := hupholds.directoryType ▸ htype
    obtain ⟨hsome, hqueued⟩ := searchesQueued_ldapSchemaLoad hloads (hnone hloads) he kind hkind
    exact ⟨hsome, fun msgid hmsgid => .inr ⟨rfl, hqueued msgid hmsgid⟩⟩

theorem loading_checked (hw : Simulated w) (hs : w.connection.stateMachine = .live .checkSchema)
    (hleft : w.connection.directoryType.Loads → ∀ request ∈ w.connection.queuedRequests, ¬w.Seeks request.payload)
    (hin : w.Loading (replay w.trace).queue) :
    (exec (csmSetState .run) w).2.Loading (replay (exec (csmSetState .run) w).2.trace).queue := by
  rw [exec_csmSetState, hs]
  intro state hstate hset htype kind hkind
  cases hset
  obtain ⟨hsome, hall⟩ := hin .checkSchema (by decide) hs htype kind hkind
  refine ⟨hsome, fun msgid hmsgid => .inl ?_⟩
  rcases hall msgid hmsgid with hprocessed | ⟨-, hqueued⟩
  · exact hprocessed.mono (List.suffix_cons _ _) rfl (.refl _)
  · rw [Tracks.queue_eq hw] at hqueued
    obtain ⟨request, hrequest, hpayload⟩ := List.mem_map.mp hqueued
    exact absurd (hpayload ▸ ⟨rfl, kind, hkind, hmsgid⟩) (hleft htype request hrequest)

theorem loading_tick {i : TickInput} (hw : Simulated w) (hloads : Step.Loads w (.tick i))
    (hin : w.Loading (replay w.trace).queue) (he : exec (csmNextState i) w = (.ok code, w')) :
    w'.Loading (replay w'.trace).queue := by
  rw [csmNextState, exec_bind_ok (exec_get w)] at he
  cases hs : w.connection.stateMachine with
  | null =>
    rw [hs] at he
    cases he
  | dangling =>
    rw [hs] at he
    cases he
  | live state =>
    rw [hs, exec_bind_ok (exec_dereference_live state w)] at he
    cases state with
    | init =>
      dsimp only at he
      rw [exec_bind_ok (exec_get w)] at he
      split_ifs at he
      · obtain ⟨rc, t, -, he⟩ := exec_bind_eq_ok he
        refine loading_enter ?_ he
        split_ifs <;> decide
      · exact loading_enter (by decide) he
    | tlsNegotiation =>
      cases he
      exact hin
    | transportReady =>
      obtain ⟨rc, t, -, he⟩ := exec_bind_eq_ok he
      rw [exec_bind_ok (exec_emit _ t)] at he
      refine loading_enter ?_ he
      cases rc <;> decide
    | bindInProgress =>
      cases he
      exact hin
    | bound => exact loading_enter (by decide) he
    | detectDirectory =>
      dsimp only at he
      rw [exec_bind_ok (exec_get w)] at he
      split_ifs at he
      · obtain ⟨rc, t, -, he⟩ := exec_bind_eq_ok he
        refine loading_enter ?_ he
        split_ifs <;> decide
      · exact loading_enter (by decide) he
    | requestSchema =>
      obtain ⟨rc, t, hload, he⟩ := exec_bind_eq_ok he
      by_cases hrc : rc = .success
      · subst hrc
        obtain ⟨_, u, hset, he⟩ := exec_bind_eq_ok he
        cases he
        have hrequested := loading_requested (fun htype => (hloads htype).1 hs) hload
        rwa [hset] at hrequested
      · refine loading_enter ?_ he
        cases rc <;> first | decide | exact absurd rfl hrc
    | checkSchema =>
      dsimp only at he
      rw [exec_bind_ok (exec_get w)] at he
      split_ifs at he with hready
      · obtain ⟨_, t, hset, he⟩ := exec_bind_eq_ok he
        cases he
        have hchecked := loading_checked hw hs (fun htype => (hloads htype).2 hs hready) hin
        rwa [hset] at hchecked
      · cases he
        exact hin
    | run =>
      cases he
      exact (upholds_running w).loading_of_subset (fun _ => id) hin
    | error =>
      obtain ⟨_, t, hreconnect, he⟩ := exec_bind_eq_ok he
      cases he
      have hleft := @live_reconnect w hs i
      rw [hreconnect] at hleft
      refine loading_of_left fun target htarget ht => ?_
      rcases hleft ht with rfl | rfl <;> exact absurd htarget (by decide)

theorem step_loading (step : Step) (hw : Simulated w) (hf : w.frame = none) (hloads : step.Loads w)
    (hin : w.Loading (replay w.trace).queue) (he : exec step.perform w = (.ok (), w')) :
    w'.Loading (replay w'.trace).queue := by
  cases step with
  | tick i =>
    obtain ⟨code, t, htick, he⟩ := exec_bind_eq_ok he
    cases he
    exact loading_tick hw hloads hin htick
  | read responses => exact carries_loading.connectionOnRead hw hf hloads hin he
  | submit submission =>
    obtain ⟨code, t, hperform, he⟩ := exec_bind_eq_ok he
    cases he
    have hupholds := upholds_along (upholds_perform hloads) w
    rw [hperform] at hupholds
    exact hupholds.loading_of_subset hupholds.queue hin
  | installErrorHandler =>
    cases he
    exact (upholds_installErrorHandler w).loading_of_subset (fun _ => id) hin

/-- If the schema is asked for when both searches have been answered, and the answers can be entered,
a running machine has a schema. -/
theorem run_schemaLoaded (config : LdapConnectionConfig) (path : Option Bytes) {steps : List Step}
    (hloads : EachStep (fun w step => step.Loads w) steps (.initial config path))
    (he : run config path steps = (.ok (), w)) : w.SchemaLoaded := by
  have hloading : w.Loading (replay w.trace).queue := by
    refine performSteps_carry (fun step s t hs _ hf hstep hin hperform => step_loading step hs hf hstep hin hperform)
      (simulated_initial config path) rfl hloads (loading_of_left fun state hstate hinit => ?_) he
    cases hinit
    exact absurd hstate (by decide)
  intro hs htype kind hkind
  obtain ⟨hsome, hall⟩ := hloading .run (by decide) hs htype kind hkind
  exact ⟨hsome, fun msgid hmsgid => (hall msgid hmsgid).resolve_right (by simp)⟩

instance : DecidablePred LdapDirectoryType.Loads := fun _ => inferInstanceAs (Decidable (_ ∨ _))

instance : DecidablePred SearchCallback.Foreign := fun callback =>
  inferInstanceAs (Decidable (∀ kind ∈ definitionKinds, callback ≠ kind.callback))

instance (s : Submission) : Decidable (s.Permitted SearchCallback.Foreign) :=
  match h : s.operation with
  | .search _ callback _ => decidable_of_iff ((callback.getD .printSearchCallback).Foreign)
      (by rw [Submission.Permitted, h])
  | .add .. | .modify .. | .ldDelete _ | .ldRename .. | .whoami | .directoryGetType =>
    isTrue (by rw [Submission.Permitted, h]; trivial)

instance decidableAppends (parse : Bytes → Option SchemaDefinition) :
    (values : List Bytes) → (schema : LdapSchema) → Decidable (Appends kind parse values schema)
  | [], _ => isTrue trivial
  | value :: values, _ =>
    have : ∀ schema, Decidable (Appends kind parse values schema) := decidableAppends parse values
    inferInstanceAs (Decidable (∃ d ∈ parse value, _ ∧ _ ∧ _))

instance (r : Response) (c : LdapConnectionCtx) (kind : DefinitionKind) : Decidable (r.FillsSchema c kind) :=
  inferInstanceAs (Decidable (_ ∧ _))

instance (w : World) (request : LdapRequest) (r : Response) : Decidable (w.Checks request r) :=
  inferInstanceAs (Decidable (_ → _ → _))

instance (w : World) (request : LdapRequest) (r : Response) : Decidable (w.KeepsType request r) :=
  inferInstanceAs (Decidable (_ → _ → _ → _))

instance (w : World) (slot : ℕ) (r : Response) : Decidable (w.Loads slot r) :=
  inferInstanceAs (Decidable (_ ∧ _))

instance (w : World) : DecidablePred (Step.Loads w)
  | .tick _ => inferInstanceAs (Decidable (_ → _))
  | .read responses => inferInstanceAs (Decidable ((exec beginPass w).2.EachResponse World.Loads responses))
  | .submit submission => inferInstanceAs (Decidable (submission.Permitted SearchCallback.Foreign))
  | .installErrorHandler => isTrue trivial

def objectClassesResponse (msgid : Int) : Response where
  rc := ldapResSearchEntry
  msgid := msgid
  chain := [⟨some [], [(ascii "objectClasses", [ascii "top", ascii "person"])]⟩]
  parse := fun value => some ⟨some value, some [value]⟩

/-- The machine is asked when both searches have been answered. -/
def loadingSteps : List Step :=
  searchingSteps ++ [.read [attributeTypesResponse 4, objectClassesResponse 5], .tick {}]

def subschemaSubentryResponse (msgid : Int) : Response where
  rc := ldapResSearchEntry
  msgid := msgid
  chain := [⟨some [], [(ascii "subschemaSubentry", [ascii "CN=Aggregate"])]⟩]

/-- An Active Directory is asked for its schema in two rounds and is not waited for. -/
def hastySteps : List Step :=
  [.tick { startTls := ⟨ldapSuccess, 1⟩ }, .read [{ rc := ldapResExtended, msgid := 1 }],
    .tick { bind := ⟨ldapSaslBindInProgress, 2⟩ },
    .read [{ rc := ldapResBind, msgid := 2, bind := ⟨ldapSuccess, 2⟩ }],
    .tick {}, .tick { directory := ⟨ldapSuccess, 3⟩ },
    .read [{ rc := ldapResSearchEntry, msgid := 3, chain := [⟨some [], [(ascii "isGlobalCatalogReady", [])]⟩] }],
    .tick {}, .tick { firstSearch := ⟨ldapSuccess, 4⟩ },
    .read [subschemaSubentryResponse 4],
    .tick { firstSearch := ⟨ldapSuccess, 5⟩, secondSearch := ⟨ldapSuccess, 6⟩ }, .tick {}]

section Runs

-- Only the kernel is to evaluate the runs.
attribute [local irreducible] run

theorem run_schemaLoaded_openldap :
    (run ⟨true, .interactive⟩ none loadingSteps).2.connection.stateMachine = .live .run ∧
      (run ⟨true, .interactive⟩ none loadingSteps).2.connection.directoryType = .openldap ∧
      (run ⟨true, .interactive⟩ none loadingSteps).2.SchemaLoaded :=
  have hreturn : (run ⟨true, .interactive⟩ none loadingSteps).1 = .ok () := by decide +kernel
  ⟨by decide +kernel, by decide +kernel,
    run_schemaLoaded ⟨true, .interactive⟩ none (by decide +kernel) (Prod.ext hreturn rfl)⟩

/-- The machine runs although nobody has answered the searches for definitions. -/
theorem run_not_schemaLoaded_activeDirectory :
    ∃ w, run ⟨true, .interactive⟩ none hastySteps = (.ok (), w) ∧ ¬w.SchemaLoaded := by
  have hreturn : (run ⟨true, .interactive⟩ none hastySteps).1 = .ok () := by decide +kernel
  refine ⟨_, Prod.ext hreturn rfl, fun hloaded => ?_⟩
  have hs : (run ⟨true, .interactive⟩ none hastySteps).2.connection.stateMachine = .live .run := by
    decide +kernel
  have htype : (run ⟨true, .interactive⟩ none hastySteps).2.connection.directoryType.Loads := by
    decide +kernel
  have hissued : 5 ∈ (run ⟨true, .interactive⟩ none hastySteps).2.searches .attributetype := by
    decide +kernel
  have hanswered := ((hloaded hs htype .attributetype (by decide)).2 5 hissued).delivered
  exact absurd hanswered (by decide +kernel)

end Runs

end Libdomain.Connection
