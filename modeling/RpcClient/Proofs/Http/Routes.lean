import RpcClient.Http.Routed
import RpcClient.Proofs.Routing

/-! Where the calls of a channel go that finds a host for each of them. A call looks once, and what settings and changes
have said of its name up to then decides: it ends there, before anything is dialled, or it dials the host that it found
and never fails for want of one again. -/
namespace RpcClient.Http.Routed

variable {settings : RoutingSettings} {table : RoutingTable} {changes : List RoutingTable.Change} {ch : Channel}
  {request : RpcClient.Request} {sent : Http.Request} {event : Event} {events : List Event} {n : Nat} {host : String}
  {phase phase' : Phase} {failure : Failure}

/-! ### A look -/

/-- What a call finds that looks for its host. -/
inductive Finds (table : RoutingTable) (request : RpcClient.Request) : Phase → Prop where
  | noRoute : table.cluster? request.id = none → Finds table request (.done (.error (.noRoute request.id)))
  | noHost {cluster : String} : table.cluster? request.id = some cluster → table.hosts cluster = [] →
      Finds table request (.done (.error (.noHost cluster)))
  | invalid {cluster host : String} {more : List String} {flaw : SettingsFlaw} :
      table.cluster? request.id = some cluster → table.hosts cluster = host :: more →
      Http.Request.build request = .error flaw → Finds table request (.done (.error (.settings flaw)))
  | host {cluster host : String} {more : List String} {sent : Http.Request} :
      table.cluster? request.id = some cluster → table.hosts cluster = host :: more →
      Http.Request.build request = .ok sent → Finds table request (.dialing host sent)

theorem finds_begin (table : RoutingTable) (request : RpcClient.Request) :
    Finds table request (Channel.begin table request) := by
  rw [Channel.begin, RoutingTable.resolve]
  cases served : table.cluster? request.id with
  | none => exact .noRoute served
  | some cluster =>
    dsimp only
    cases listed : table.hosts cluster with
    | nil => exact .noHost served listed
    | cons host more =>
      dsimp only
      cases built : Http.Request.build request with
      | error flaw => exact .invalid served listed built
      | ok sent => exact .host served listed built

theorem eq_begin_of_finds (finds : Finds table request phase) : phase = Channel.begin table request := by
  cases finds with
  | noRoute served => simp [Channel.begin, RoutingTable.resolve, served]
  | noHost served listed => simp [Channel.begin, RoutingTable.resolve, served, listed]
  | invalid served listed built => simp [Channel.begin, RoutingTable.resolve, served, listed, built]
  | host served listed built => simp [Channel.begin, RoutingTable.resolve, served, listed, built]

theorem Finds.unique (finds : Finds table request phase) (finds' : Finds table request phase') : phase = phase' :=
  (eq_begin_of_finds finds).trans (eq_begin_of_finds finds').symm

/-! ### Steps -/

/-- Whether a call fails so for want of a host, or because its request cannot be sent. -/
def isEarly : Failure → Bool
  | .noRoute _ | .noHost _ | .settings _ => true
  | _ => false

/-- What a step makes of the `n`-th call. -/
inductive Move (table : RoutingTable) (n : Nat) : Event → Phase → Phase → Prop where
  | stay {event : Event} {phase : Phase} : Move table n event phase phase
  | seek {request : RpcClient.Request} : Move table n (.seek n) (.seeking request) (Channel.begin table request)
  | refused {host : String} {sent : Http.Request} {flaw : TransportFlaw} :
      Move table n (.dialed n (some flaw)) (.dialing host sent) (.done (.error (.connectionFailed (.dial host flaw))))
  | connected {host : String} {sent : Http.Request} :
      Move table n (.dialed n none) (.dialing host sent) (.exchanging (Connection.fresh.send sent))
  /-- The connection of the call changes. -/
  | inside {event : Event} {conn conn' : Connection} : Move table n event (.exchanging conn) (.exchanging conn')
  | ended {conn : Connection} {result : Except Outage Http.Response} :
      conn.result? = some result → Move table n (.finish n) (.exchanging conn) (.done (exchangeOutcome result))
  | giveUp {phase : Phase} : phase.isEnded = false → Move table n (.giveUp n) phase (.done (.error .timeout))
  | drop {phase : Phase} : phase.isEnded = false → Move table n (.drop n) phase .dropped

namespace Channel

theorem move_modify {m : Nat} {f : Phase → Phase} (here : ch.calls[n]? = some phase)
    (moves : m = n → phase.isEnded = false → Move table n event phase (f phase)) :
    ∃ phase', (ch.modify m f).calls[n]? = some phase' ∧ Move table n event phase phase' := by
  refine ⟨_, by rw [modify, List.getElem?_modify, here]; rfl, ?_⟩
  split
  · next same =>
    dsimp only
    cases ended : phase.isEnded with
    | true => exact .stay
    | false => exact moves same ended
  · exact .stay

theorem move_modifyConn {m : Nat} {f : Connection → Connection} (here : ch.calls[n]? = some phase) :
    ∃ phase', (ch.modifyConn m f).calls[n]? = some phase' ∧ Move table n event phase phase' := by
  refine move_modify here fun _ _ => ?_
  cases phase with
  | exchanging conn => exact .inside
  | _ => exact .stay

theorem step_move (event : Event) (here : ch.calls[n]? = some phase) :
    ∃ phase', (ch.step event).calls[n]? = some phase' ∧ Move ch.table n event phase phase' := by
  cases event with
  | start request =>
    refine ⟨phase, ?_, .stay⟩
    rw [step, List.getElem?_append_left (List.getElem?_eq_some_iff.mp here).1, here]
  | seek m =>
    refine move_modify here ?_
    rintro rfl _
    cases phase with
    | seeking request => exact .seek
    | _ => exact .stay
  | dialed m flaw =>
    refine move_modify here ?_
    rintro rfl _
    cases phase with
    | dialing host sent =>
      cases flaw with
      | none => exact .connected
      | some flaw => exact .refused
    | _ => exact .stay
  | written m count => exact move_modifyConn here
  | received m bytes => exact move_modifyConn here
  | finished m => exact move_modifyConn here
  | broken m => exact move_modifyConn here
  | finish m =>
    refine move_modify here ?_
    rintro rfl _
    cases phase with
    | exchanging conn =>
      dsimp only
      cases came : conn.result? with
      | some result => exact .ended came
      | none => exact .stay
    | _ => exact .stay
  | giveUp m =>
    refine move_modify here ?_
    rintro rfl going
    exact .giveUp going
  | drop m =>
    refine move_modify here ?_
    rintro rfl going
    exact .drop going
  | change change => exact ⟨phase, here, .stay⟩

theorem step_seek (waits : ch.calls[n]? = some (.seeking request)) :
    (ch.step (.seek n)).calls[n]? = some (begin ch.table request) := by
  rw [step, seek, modify, List.getElem?_modify, waits, Option.map_eq_map, Option.map_some, if_pos rfl]
  rfl

theorem length_calls_modify (ch : Channel) (m : Nat) (f : Phase → Phase) :
    (ch.modify m f).calls.length = ch.calls.length :=
  List.length_modify ..

/-- A call that is new in a step has not looked for its host. -/
theorem new_of_step (absent : ch.calls[n]? = none) (here : (ch.step event).calls[n]? = some phase) :
    ∃ request, phase = .seeking request := by
  have bound := List.getElem?_eq_none_iff.mp absent
  have short := (List.getElem?_eq_some_iff.mp here).1
  cases event with
  | start request =>
    rw [step, List.getElem?_append_right bound] at here
    exact ⟨request, (List.mem_singleton.mp (List.mem_of_getElem? here))⟩
  | change change => exact (Nat.not_lt_of_le bound short).elim
  | _ => exact (Nat.not_lt_of_le bound (length_calls_modify ch _ _ ▸ short)).elim

end Channel

/-! ### Calls that have not looked -/

/-- A call has not looked for its host, and may have been given up instead. -/
inductive Unsought : Phase → Prop where
  | seeking {request : RpcClient.Request} : Unsought (.seeking request)
  | timeout : Unsought (.done (.error .timeout))
  | dropped : Unsought .dropped

theorem Unsought.move (unsought : Unsought phase) (move : Move table n event phase phase')
    (idle : event = .seek n → ∀ request, phase ≠ .seeking request) : Unsought phase' := by
  cases move with
  | stay => exact unsought
  | seek => exact absurd rfl (idle rfl _)
  | giveUp => exact .timeout
  | drop => exact .dropped
  | _ => cases unsought

theorem unsought_run (start : ∀ phase, ch.calls[n]? = some phase → Unsought phase)
    (never : ∀ before after request, events = before ++ .seek n :: after →
      (ch.run before).calls[n]? ≠ some (.seeking request)) :
    ∀ phase, (ch.run events).calls[n]? = some phase → Unsought phase := by
  induction events generalizing ch with
  | nil => exact start
  | cons event events ih =>
    refine ih ?_ ?_
    · intro phase here
      cases before : ch.calls[n]? with
      | none =>
        obtain ⟨request, rfl⟩ := Channel.new_of_step before here
        exact .seeking
      | some old =>
        obtain ⟨phase', here', move⟩ := ch.step_move event before
        obtain rfl := Option.some.inj (here'.symm.trans here)
        refine (start old before).move move ?_
        rintro rfl request rfl
        exact never [] events request rfl before
    · rintro before after request rfl
      exact never (event :: before) after request rfl

/-! ### Calls that have looked -/

/-- A call that found a host. It dials no other one, and no failure that a look ends with can befall it any more. -/
inductive Underway (host : String) (sent : Http.Request) : Phase → Prop where
  | dialing : Underway host sent (.dialing host sent)
  | exchanging {conn : Connection} : Underway host sent (.exchanging conn)
  | done {result : Except Failure RpcClient.Response} :
      (∀ failure, result = .error failure → isEarly failure = false) → Underway host sent (.done result)
  | dropped : Underway host sent .dropped

theorem isEarly_of_outcome {response : Http.Response} (failed : response.outcome = .error failure) :
    isEarly failure = false := by
  rw [Response.outcome] at failed
  split at failed
  · cases failed
    rfl
  · cases failed

theorem Underway.fail (late : isEarly failure = false) : Underway host sent (.done (.error failure)) := by
  refine .done fun failure' failed => ?_
  cases failed
  exact late

theorem Underway.move (underway : Underway host sent phase) (move : Move table n event phase phase') :
    Underway host sent phase' := by
  cases move with
  | stay => exact underway
  | seek => cases underway
  | refused => exact .fail rfl
  | connected => exact .exchanging
  | inside => exact .exchanging
  | @ended _ result _ =>
    cases result with
    | ok response => exact .done fun failure failed => isEarly_of_outcome failed
    | error outage => exact .fail rfl
  | giveUp => exact .fail rfl
  | drop => exact .dropped

/-- What a look settles: the call has ended there, or is under way to the host that it found. -/
inductive Settled (begun : Phase) : Phase → Prop where
  | failed : begun.isEnded = true → Settled begun begun
  | underway {phase : Phase} {host : String} {sent : Http.Request} :
      begun = .dialing host sent → Underway host sent phase → Settled begun phase

theorem settled_of_finds {begun : Phase} (finds : Finds table request begun) : Settled begun begun := by
  cases finds with
  | host => exact .underway rfl .dialing
  | _ => exact .failed rfl

theorem Settled.move {begun : Phase} (settled : Settled begun phase) (move : Move table n event phase phase') :
    Settled begun phase' := by
  cases settled with
  | underway found now => exact .underway found (now.move move)
  | failed ended =>
    cases move with
    | stay => exact .failed ended
    | giveUp going => cases going.symm.trans ended
    | drop going => cases going.symm.trans ended
    | seek => cases ended
    | _ => cases ended

theorem settled_run {begun : Phase} (here : ch.calls[n]? = some phase) (settled : Settled begun phase)
    (events : List Event) : ∃ final, (ch.run events).calls[n]? = some final ∧ Settled begun final := by
  induction events generalizing ch phase with
  | nil => exact ⟨phase, here, settled⟩
  | cons event events ih =>
    obtain ⟨phase', here', move⟩ := ch.step_move event here
    exact ih here' (settled.move move)

/-- A call fails early exactly if its look fails so. -/
theorem Settled.eq_early_iff {begun final : Phase} (settled : Settled begun final) (early : isEarly failure = true) :
    final = .done (.error failure) ↔ begun = .done (.error failure) := by
  cases settled with
  | failed => rfl
  | underway found now =>
    subst found
    constructor
    · rintro rfl
      cases now with
      | done late => cases (late failure rfl).symm.trans early
    · nofun

/-! ### The history of a channel -/

theorem run_append (ch : Channel) (front behind : List Event) : ch.run (front ++ behind) = (ch.run front).run behind :=
  List.foldl_append

/-- The changes of routes and hosts among events. -/
def changesIn (events : List Event) : List RoutingTable.Change :=
  events.filterMap fun
    | .change change => some change
    | _ => none

theorem table_run (ch : Channel) (events : List Event) :
    (ch.run events).table = (changesIn events).foldl RoutingTable.change ch.table := by
  induction events generalizing ch with
  | nil => rfl
  | cons event events ih =>
    refine (ih (ch.step event)).trans ?_
    cases event <;> rfl

/-- What becomes of a call that looks for its host behind changes of the routes and hosts of settings: `begun` is what
it is then, and `final` what it is at any time from then on. -/
structure Heeds (settings : RoutingSettings) (changes : List RoutingTable.Change) (request : RpcClient.Request)
    (begun final : Phase) : Prop where
  noRoute : ∀ {domain}, final = .done (.error (.noRoute domain)) ↔
    domain = request.id ∧ ∀ mapping ∈ RoutingTable.mappings settings changes, mapping.1 ≠ request.id
  noHost : ∀ {cluster}, final = .done (.error (.noHost cluster)) ↔
    Entries.Latest request.id cluster (RoutingTable.mappings settings changes) ∧
      ∀ listed, Entries.Latest cluster listed (RoutingTable.hostLists settings changes) → listed = []
  invalid : ∀ {flaw}, final = .done (.error (.settings flaw)) ↔ Http.Request.build request = .error flaw ∧
    ∃ cluster host more, Entries.Latest request.id cluster (RoutingTable.mappings settings changes) ∧
      Entries.Latest cluster (host :: more) (RoutingTable.hostLists settings changes)
  dials : ∀ {host sent}, begun = .dialing host sent ↔ Http.Request.build request = .ok sent ∧
    ∃ cluster more, Entries.Latest request.id cluster (RoutingTable.mappings settings changes) ∧
      Entries.Latest cluster (host :: more) (RoutingTable.hostLists settings changes)
  /-- It has ended with its look, or dials a host then and never another one. -/
  early : final = begun ∧ begun.isEnded = true ∨
    ∃ host sent, begun = .dialing host sent ∧ ∀ host' sent', final = .dialing host' sent' → final = begun
  /-- Of the virtual hosts of the last update that maps its name, the last one with a route decides. -/
  batch : ∀ {earlier later front host behind cluster},
    changes = earlier ++ .update (front ++ host :: behind) :: later → request.id ∈ host.domains →
    host.routes.head? = some cluster → (∀ other ∈ behind, request.id ∈ other.domains → other.routes = []) →
    (∀ mapping ∈ later.flatMap RoutingTable.Change.mappings, mapping.1 ≠ request.id) →
      Entries.Latest request.id cluster (RoutingTable.mappings settings changes)

theorem heeds_of_settled {begun final : Phase}
    (finds : Finds (changes.foldl RoutingTable.change (.ofSettings settings)) request begun)
    (settled : Settled begun final) : Heeds settings changes request begun final where
  noRoute := by
    intro domain
    rw [settled.eq_early_iff rfl, ← RoutingTable.cluster?_eq_none_iff]
    constructor
    · rintro rfl
      cases finds with
      | noRoute served => exact ⟨rfl, served⟩
    · rintro ⟨rfl, served⟩
      exact finds.unique (.noRoute served)
  noHost := by
    intro cluster
    rw [settled.eq_early_iff rfl, ← RoutingTable.cluster?_eq_some_iff, ← RoutingTable.hosts_eq_nil_iff]
    constructor
    · rintro rfl
      cases finds with
      | noHost served listed => exact ⟨served, listed⟩
    · rintro ⟨served, listed⟩
      exact finds.unique (.noHost served listed)
  invalid := by
    intro flaw
    simp only [← RoutingTable.cluster?_eq_some_iff, ← RoutingTable.hosts_eq_cons_iff]
    rw [settled.eq_early_iff rfl]
    constructor
    · rintro rfl
      cases finds with
      | invalid served listed built => exact ⟨built, _, _, _, served, listed⟩
    · rintro ⟨built, cluster, host, more, served, listed⟩
      exact finds.unique (.invalid served listed built)
  dials := by
    intro host sent
    simp only [← RoutingTable.cluster?_eq_some_iff, ← RoutingTable.hosts_eq_cons_iff]
    constructor
    · rintro rfl
      cases finds with
      | host served listed built => exact ⟨built, _, _, served, listed⟩
    · rintro ⟨built, cluster, more, served, listed⟩
      exact finds.unique (.host served listed built)
  early := by
    cases settled with
    | failed ended => exact .inl ⟨rfl, ended⟩
    | underway found now =>
      refine .inr ⟨_, _, found, ?_⟩
      rintro host' sent' rfl
      cases now
      exact found.symm
  batch := by
    rintro earlier later front host behind cluster rfl named routed unrouted unmapped
    exact RoutingTable.latest_update named routed unrouted unmapped

/-- What becomes of the `n`-th call of a channel in a run. -/
structure Fate (settings : RoutingSettings) (events : List Event) (n : Nat) : Prop where
  looked : ∀ {before after request}, events = before ++ .seek n :: after →
    ((Channel.new (.ofSettings settings)).run before).calls[n]? = some (.seeking request) →
    ∃ begun final,
      ((Channel.new (.ofSettings settings)).run (before ++ [.seek n])).calls[n]? = some begun ∧
      ((Channel.new (.ofSettings settings)).run events).calls[n]? = some final ∧
      Heeds settings (changesIn before) request begun final
  /-- A call that never looks neither dials nor fails for want of a host. -/
  unlooked : (∀ before after request, events = before ++ .seek n :: after →
      ((Channel.new (.ofSettings settings)).run before).calls[n]? ≠ some (.seeking request)) →
    ∀ phase, ((Channel.new (.ofSettings settings)).run events).calls[n]? = some phase → Unsought phase

/-- Whatever the settings are, however routes and hosts change and whatever calls overlap, each call goes where the
history up to its look sends it. -/
theorem calls_heed_history (settings : RoutingSettings) (events : List Event) (n : Nat) :
    Fate settings events n where
  looked := by
    rintro before after request rfl waits
    have history := table_run (Channel.new (.ofSettings settings)) before
    have finds := finds_begin ((Channel.new (.ofSettings settings)).run before).table request
    rw [history] at finds
    have begun : ((Channel.new (.ofSettings settings)).run (before ++ [.seek n])).calls[n]? =
        some (Channel.begin ((changesIn before).foldl RoutingTable.change (.ofSettings settings)) request) := by
      rw [run_append]
      exact (Channel.step_seek waits).trans (by rw [history]; rfl)
    obtain ⟨final, here, settled⟩ := settled_run begun (settled_of_finds finds) after
    refine ⟨_, final, begun, ?_, heeds_of_settled finds settled⟩
    rw [← here, ← run_append, List.append_assoc, List.singleton_append]
  unlooked never := by
    refine unsought_run ?_ never
    intro phase here
    rw [Channel.new, List.getElem?_nil] at here
    cases here

/-- A route changes between two calls; a virtual host without routes changes nothing. -/
example :
    ((Channel.new (.ofSettings { virtualHosts := [⟨["a"], ["c"]⟩, ⟨["a", "b"], []⟩] })).run
      [.start { id := "a" }, .seek 0, .change (.setRoute "a" "d"), .start { id := "a" }, .seek 1,
        .start { id := "b" }, .seek 2]).calls =
      [.done (.error (.noHost "c")), .done (.error (.noHost "d")), .done (.error (.noRoute "b"))] := by
  rfl

end RpcClient.Http.Routed
