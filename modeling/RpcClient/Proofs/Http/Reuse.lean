import RpcClient.Proofs.Http.Exchange
import RpcClient.Proofs.Http.Tasks

/-! Which connections a channel uses again: those whose last exchange ran to the end of its response. Any
other one is closed when its call parts with it, and no call gets it again. -/
namespace RpcClient.Http.Channel

variable {κ ι : Type} {client : Client κ ι} {answers : Http.Request → Response → Prop} {ch ch' : Channel κ}
  {pool : Pool κ Unit} {event : Event ι} {request : Http.Request} {n m g c : Nat} {next : Next} {phase phase' : Phase}
  {result : Except Failure RpcClient.Response}

/-- A connection is closed, and nobody has it. -/
structure Gone (ch : Channel κ) (c : Nat) : Prop where
  closed : ch.pool.isClosed c = true
  notFree : c ∉ ch.pool.free
  notHeld : ∀ n, ¬ ch.Holds n c

/-! ### Connections that nobody has any more -/

theorem Move.passage (move : Move client ch event ch') : Pool.Passage ch.pool ch'.pool := by
  cases move with
  | stay => exact .refl
  | @meet c input => exact .inside c (client.meet input) .refl
  | reject _ => exact .refl
  | join _ => exact .step .get .refl
  | @seek _ step _ _ _ _ _ => exact .step step .refl
  | fail _ _ => exact .refl
  | @renew _ g _ _ _ _ => exact .step (.put g true) .refl
  | @send _ _ c request _ _ _ => exact .inside c (client.send request) .refl
  | @finish _ g c _ _ result _ _ _ _ =>
    exact .step (.put g (!isWhole (exchangeOutcome result))) (.inside c client.reset .refl)
  | @abort _ _ g _ _ _ => exact .step (.put g true) .refl
  | @drop _ g _ _ _ _ _ => exact .step (.drop g) .refl
  | @dropConn _ g _ _ _ _ _ => exact .step (.drop g) .refl
  | @leave _ g _ _ _ _ => exact .step (.giveBack g) .refl
  | @again _ g _ _ => exact .step .get (.step (.giveBack g) .refl)

theorem gone_of_letGo (letGo : Pool.LetGo ch.pool c) : ch.Gone c where
  closed := letGo.isClosed
  notFree idle := letGo.absent (List.mem_append_left _ idle)
  notHeld _ holds := letGo.absent holds.mem_stock

theorem gone_run (letGo : Pool.LetGo ch.pool c) (events : List (Event ι)) : (ch.run client events).Gone c := by
  induction events generalizing ch with
  | nil => exact gone_of_letGo letGo
  | cons event events ih => exact ih (letGo.passage (ch.step_move client event).passage)

/-! ### How calls come by connections -/

theorem Holds.of_set (phase' : Phase) (here : ch.calls[n]? = some phase)
    (same : ∀ {g}, phase'.caller? = some g → phase.caller? = some g)
    (bare : ∀ {g : Nat}, pool.gets[g]? = some (.holding c) → ch.pool.gets[g]? = some (.holding c))
    (holds : Holds { pool, calls := ch.calls.set n phase' } m c) : ch.Holds m c := by
  obtain ⟨g, owns, holding⟩ := holds
  exact ⟨g, owns.of_set here same, bare holding⟩

theorem Holds.of_join {calls : List Phase} (here : calls[n]? = some (.getting request ch.pool.gets.length))
    (elsewhere : ∀ {m}, m ≠ n → calls[m]? = ch.calls[m]?)
    (holds : Holds { pool := ch.pool.get, calls } m c) : ch.Holds m c := by
  obtain ⟨g, owns, holding⟩ := holds
  have before := Pool.holding_of_step .get rfl holding
  obtain ⟨_, rfl⟩ | ⟨_, owns⟩ := owns.of_join here elsewhere
  · cases (List.getElem?_eq_none (Nat.le_refl _)).symm.trans before
  · exact ⟨g, owns, before⟩

theorem Manned.holds_of_move (manned : Manned ch) (move : Move client ch event ch') (holds : ch'.Holds n c) :
    ch.Holds n c ∨ (event = .pick n ∧ c ∈ ch.pool.free) ∨
      (event = .dialed n none ∧ c = ch.pool.conns.length) := by
  cases move with
  | stay => exact .inl holds
  | meet => exact .inl holds
  | reject _ =>
    obtain ⟨g, ⟨phase, here, caller⟩, holding⟩ := holds
    exact .inl ⟨g, ⟨phase, getElem?_of_reject here caller, caller⟩, holding⟩
  | join _ => exact .inl (holds.of_join List.getElem?_concat_length getElem?_concat_of_ne)
  | @seek _ step m g request seeks here =>
    obtain ⟨g', owns, holding⟩ := holds
    have owns : ch.Owns n g' := owns
    have mine : g' = g → n = m := by
      rintro rfl
      exact manned.alone owns ⟨_, here, rfl⟩
    obtain before | ⟨picks, idle⟩ | ⟨_, _, dials, made⟩ := (ch.pool.step_custody step).holding holding
    · exact .inl ⟨g', owns, before⟩
    · cases seeks <;> cases picks
      exact .inr (.inl ⟨by rw [mine rfl], idle⟩)
    · cases seeks <;> cases dials
      exact .inr (.inr ⟨by rw [mine rfl], made⟩)
  | fail here _ => exact .inl (holds.of_set (.done _) here nofun id)
  | @renew _ g _ request here _ =>
    exact .inl (holds.of_set (.parting g (.renew request)) here id (Pool.holding_of_step (.put _ true) rfl))
  | @send _ g _ request here _ _ => exact .inl (holds.of_set (.exchanging request g) here id id)
  | @finish _ g c' request old result here _ _ _ =>
    exact .inl (holds.of_set (.parting g (.answer (exchangeOutcome result))) here id
      (Pool.holding_of_step (p := (ch.modifyConn c' client.reset).pool) (.put g _) rfl))
  | @abort _ _ g _ _ here =>
    exact .inl (holds.of_set (.parting g (.answer (.error .timeout))) here id (Pool.holding_of_step (.put _ _) rfl))
  | drop here _ _ _ =>
    exact .inl (holds.of_set .dropped here nofun (Pool.holding_of_step (.drop _) rfl))
  | @dropConn _ g _ _ here waits _ =>
    refine .inl (holds.of_set (.parting g .drop) here (fun caller => ?_) (Pool.holding_of_step (.drop _) rfl))
    rw [Phase.caller?_of_waits? waits]
    exact caller
  | @leave _ _ _ phase here ends =>
    refine .inl (holds.of_set phase here (fun caller => ?_) (Pool.holding_of_step (.giveBack _) rfl))
    cases (Next.caller?_ending ends).symm.trans caller
  | @again m g request here =>
    have holds : Holds { pool := ch.pool.giveBack g, calls := ch.calls.set m .dropped } n c :=
      Holds.of_join (getElem?_set_self here)
        (fun other => (getElem?_set_of_ne other).trans (getElem?_set_of_ne other).symm) holds
    exact .inl (holds.of_set .dropped here nofun (Pool.holding_of_step (.giveBack g) rfl))

/-! ### How exchanges end -/

/-- The exchange of a call has run to the end of a response to its request, and the call goes on to end with what that
means. -/
structure RanToEnd (client : Client κ ι) (answers : Http.Request → Response → Prop) (ch ch' : Channel κ) (n c : Nat)
    (response : Response) : Prop where
  exchanges : ∃ request, ch.Exchanges n request c ∧ answers request response
  atEnd : ∃ conn, ch.pool.conns[c]? = some conn ∧ client.result? conn.content = some (.ok response)
  outcome : ∃ g, ch'.calls[n]? = some (.parting g (.answer response.outcome))

theorem Kept.ranToEnd (kept : Kept client ch) (honest : client.Honest answers) {old : Pool.Connection κ Unit}
    {result : Except Outage Response} (here : ch.calls[n]? = some (.exchanging request g))
    (holds : ch.pool.gets[g]? = some (.holding c)) (found : ch.pool.conns[c]? = some old)
    (came : client.result? old.content = some result) (whole : isWhole (exchangeOutcome result) = true) :
    ∃ response, RanToEnd client answers ch ((ch.modifyConn c client.reset).conclude n g (exchangeOutcome result)) n c
      response := by
  cases result with
  | error outage => cases whole
  | ok response =>
    have serves := kept.carries ⟨g, here, holds⟩ (Pool.getElem?_contents found)
    exact ⟨response, ⟨request, ⟨g, here, holds⟩, honest serves came⟩, ⟨old, found, came⟩, g, getElem?_set_self here⟩

theorem free_of_step (step : Pool.Event κ) (keeps : ∀ g, step ≠ .put g false) {p : Pool κ Unit}
    (idle : c ∈ (p.step step).free) : c ∈ p.free := by
  obtain before | ⟨g, puts, _⟩ := (p.step_custody step).free idle
  · exact before
  · exact absurd puts (keeps g)

theorem Kept.free_of_move (kept : Kept client ch) (honest : client.Honest answers) (move : Move client ch event ch')
    (idle : c ∈ ch'.pool.free) : c ∈ ch.pool.free ∨
      ∃ n response, event = .finish n ∧ RanToEnd client answers ch ch' n c response := by
  cases move with
  | stay => exact .inl idle
  | meet => exact .inl idle
  | reject _ => exact .inl idle
  | join _ => exact .inl (free_of_step .get nofun idle)
  | seek seeks _ =>
    refine .inl (free_of_step _ ?_ idle)
    rintro g rfl
    cases seeks
  | fail _ _ => exact .inl idle
  | renew _ _ => exact .inl (free_of_step (.put _ true) nofun idle)
  | send _ _ _ => exact .inl idle
  | @finish n g c' request old result here holds found came =>
    obtain before | ⟨_, puts, holds'⟩ := ((ch.modifyConn c' client.reset).pool.step_custody (.put g _)).free idle
    · exact .inl before
    · obtain ⟨rfl, whole⟩ := Pool.Event.put.inj puts
      cases holds.symm.trans holds'
      obtain ⟨response, ran⟩ := kept.ranToEnd honest here holds found came (Bool.not_eq_eq_eq_not.mp whole)
      exact .inr ⟨n, response, rfl, ran⟩
  | abort _ _ => exact .inl (free_of_step (.put _ true) nofun idle)
  | drop _ _ _ _ => exact .inl (free_of_step (.drop _) nofun idle)
  | dropConn _ _ _ => exact .inl (free_of_step (.drop _) nofun idle)
  | leave _ _ => exact .inl (free_of_step (.giveBack _) nofun idle)
  | again _ => exact .inl (free_of_step (.giveBack _) nofun (free_of_step .get nofun idle))

/-! ### Calls that have parted with their connection -/

theorem getElem?_set_elsewhere (here : ch.calls[n]? = some phase) {old : Phase} (there : ch.calls[m]? = some old)
    (apart : old ≠ phase) : (ch.calls.set m phase')[n]? = some phase := by
  refine (getElem?_set_of_ne ?_).trans here
  rintro rfl
  exact apart (Option.some.inj (there.symm.trans here))

theorem getElem?_concat (here : ch.calls[n]? = some phase) : (ch.calls ++ [phase'])[n]? = some phase := by
  rw [List.getElem?_append_left (List.getElem?_eq_some_iff.mp here).1, here]

theorem Move.parting (move : Move client ch event ch') (here : ch.calls[n]? = some (.parting g next))
    (other : event ≠ .leave n) : ch'.calls[n]? = some (.parting g next) := by
  have elsewhere : ∀ {m old phase'}, ch.calls[m]? = some old → old ≠ .parting g next →
      (ch.calls.set m phase')[n]? = some (.parting g next) := getElem?_set_elsewhere here
  have waits : ∀ {old : Phase} {g'}, old.waits? = some g' → old ≠ .parting g next := by
    rintro _ g' waits rfl
    cases waits
  cases move with
  | stay => exact here
  | meet => exact here
  | reject _ => exact getElem?_concat here
  | join _ => exact getElem?_concat here
  | seek _ _ => exact here
  | fail there _ => exact elsewhere there Phase.noConfusion
  | renew there _ => exact elsewhere there Phase.noConfusion
  | send there _ _ => exact elsewhere there Phase.noConfusion
  | finish there _ _ _ => exact elsewhere there Phase.noConfusion
  | abort _ there => exact elsewhere there Phase.noConfusion
  | drop there apart _ _ => exact elsewhere there (waits apart)
  | dropConn there apart _ => exact elsewhere there (waits apart)
  | @leave m _ _ _ there _ =>
    refine (getElem?_set_of_ne ?_).trans here
    rintro rfl
    exact other rfl
  | @again m _ _ there =>
    refine (getElem?_set_of_ne ?_).trans here
    rintro rfl
    exact other rfl

theorem getElem?_of_set {old : Phase} (there : ch.calls[m]? = some old)
    (after : (ch.calls.set m phase')[n]? = some phase) : (m = n ∧ phase' = phase) ∨ ch.calls[n]? = some phase := by
  by_cases mine : n = m
  · subst mine
    exact .inl ⟨rfl, Option.some.inj ((getElem?_set_self there).symm.trans after)⟩
  · exact .inr ((getElem?_set_of_ne mine).symm.trans after)

theorem getElem?_of_set_ne (phase' : Phase) {old : Phase} (there : ch.calls[m]? = some old) (apart : phase' ≠ phase)
    (after : (ch.calls.set m phase')[n]? = some phase) : ch.calls[n]? = some phase :=
  (getElem?_of_set there after).resolve_left fun same => apart same.2

/-- A call ends with what came of its exchange only when that ran to its end. -/
theorem Kept.answer_of_move (kept : Kept client ch) (honest : client.Honest answers) (move : Move client ch event ch')
    (after : ch'.calls[n]? = some (.parting g (.answer result))) (whole : isWhole result = true) :
    ch.calls[n]? = some (.parting g (.answer result)) ∨
      ∃ c response, event = .finish n ∧ RanToEnd client answers ch ch' n c response := by
  cases move with
  | stay => exact .inl after
  | meet => exact .inl after
  | reject _ => exact .inl (Pool.found_of_join Phase.noConfusion after)
  | join _ => exact .inl (Pool.found_of_join Phase.noConfusion after)
  | seek _ _ => exact .inl after
  | fail there _ => exact .inl (getElem?_of_set_ne (.done _) there Phase.noConfusion after)
  | @renew _ g' _ request there _ => exact .inl (getElem?_of_set_ne (.parting g' (.renew request)) there nofun after)
  | @send _ g' _ request there _ _ =>
    exact .inl (getElem?_of_set_ne (.exchanging request g') there Phase.noConfusion after)
  | finish there holds found came =>
    obtain ⟨rfl, same⟩ | still := getElem?_of_set there after
    · cases same
      obtain ⟨response, ran⟩ := kept.ranToEnd honest there holds found came whole
      exact .inr ⟨_, response, rfl, ran⟩
    · exact .inl still
  | abort _ there =>
    obtain ⟨rfl, same⟩ | still := getElem?_of_set there after
    · cases same
      cases whole
    · exact .inl still
  | drop there _ _ _ => exact .inl (getElem?_of_set_ne .dropped there Phase.noConfusion after)
  | @dropConn _ g' _ _ there _ _ => exact .inl (getElem?_of_set_ne (.parting g' .drop) there nofun after)
  | @leave _ _ _ phase there ends =>
    refine .inl (getElem?_of_set_ne phase there ?_ after)
    rintro rfl
    cases Next.caller?_ending ends
  | @again _ _ request there => exact .inl (getElem?_of_set_ne (.getting request _) there Phase.noConfusion after)

/-! ### Calls that have ended -/

theorem withCaller_of_isEnded {step : Pool κ Unit → Nat → Pool κ Unit}
    (here : ch.calls[n]? = some phase) (ended : phase.isEnded = true) : ch.withCaller n step = ch := by
  cases phase <;> first | cases ended; done | simp only [withCaller, here]

theorem step_of_isEnded (here : ch.calls[n]? = some phase) (ended : phase.isEnded = true)
    (about : event.call? = some n) : ch.step client event = ch := by
  have idle : ∀ {step}, ch.withCaller n step = ch := withCaller_of_isEnded here ended
  cases event <;> cases about
  case resume | pick => exact idle
  case dialed => simp only [step, dialed, idle]
  all_goals
    cases phase <;> cases ended <;>
      simp only [step, begin, finish, leave, deadline, cancel, drop, here, idle]

theorem Manned.active_eq_zero (manned : Manned ch) (ended : ∀ phase ∈ ch.calls, phase.isEnded = true) :
    ch.pool.active = 0 := by
  rw [manned.sound.balanced.active_eq, List.countP_eq_zero]
  intro phase member
  obtain ⟨g, there⟩ := List.mem_iff_getElem?.mp member
  obtain finished | ⟨n, phase', here, caller⟩ := manned.manned there
  · simp [Pool.Phase.hasPlace_eq_false_of_isOver finished]
  · have ended := ended phase' (List.mem_of_getElem? here)
    cases phase' <;> first | cases ended; done | cases caller

/-! ### Careful channels -/

/-- What a call that has parted with its connection does next. -/
inductive Leaves (next : Next) : Phase → Prop where
  | ending {phase : Phase} : next.ending? = some phase → Leaves next phase
  | renew {request : Http.Request} {g : Nat} : next = .renew request → Leaves next (.getting request g)

theorem leaves_of_parting (here : ch.calls[n]? = some (.parting g next)) :
    ∃ phase, (ch.step client (.leave n)).calls[n]? = some phase ∧ Leaves next phase := by
  cases next with
  | answer result =>
    refine ⟨.done result, ?_, .ending rfl⟩
    simp only [step, leave, here]
    exact getElem?_set_self here
  | renew request =>
    refine ⟨.getting request (ch.pool.giveBack g).gets.length, ?_, .renew rfl⟩
    simp only [step, leave, here]
    exact getElem?_set_self here
  | drop =>
    refine ⟨.dropped, ?_, .ending rfl⟩
    simp only [step, leave, here]
    exact getElem?_set_self here

/-- A channel whose connections are used again only where nothing of an exchange is left on them. -/
structure Careful (client : Client κ ι) (answers : Http.Request → Response → Prop) (ch : Channel κ) : Prop where
  /-- A connection becomes idle only when the exchange on it has run to the end of a response. -/
  returned : ∀ {event c}, c ∈ (ch.step client event).pool.free → c ∈ ch.pool.free ∨
    ∃ n response, event = .finish n ∧ RanToEnd client answers ch (ch.step client event) n c response
  /-- Any other one that a call parts with is closed, and nobody gets it again. -/
  discarded : ∀ {event n c}, ch.Holds n c → ¬ (ch.step client event).Holds n c →
    c ∉ (ch.step client event).pool.free → ∀ later, ((ch.step client event).run client later).Gone c
  taken : ∀ {event n c}, (ch.step client event).Holds n c → ch.Holds n c ∨
    (event = .pick n ∧ c ∈ ch.pool.free) ∨ (event = .dialed n none ∧ c = ch.pool.conns.length)
  exclusive : ∀ {n m c}, ch.Holds n c → ch.Holds m c → n = m
  notIdle : ∀ {n c}, ch.Holds n c → c ∉ ch.pool.free
  /-- A connection that is idle, or on which its call has not sent anything, works for no request. -/
  clean : ∀ {c conn}, (c ∈ ch.pool.free ∨ ∃ n, ch.Holds n c ∧ ∀ request, ¬ ch.Exchanges n request c) →
    ch.pool.conns[c]? = some conn → client.Serves none conn.content
  /-- A call ends with a response only when its exchange has run to the end of one. -/
  answered : ∀ {event n g result}, (ch.step client event).calls[n]? = some (.parting g (.answer result)) →
    isWhole result = true → ch.calls[n]? = some (.parting g (.answer result)) ∨
      ∃ c response, event = .finish n ∧ RanToEnd client answers ch (ch.step client event) n c response
  /-- A call that has parted with its connection only gives its place back any more, or wants another one then. -/
  parted : ∀ {n g next}, ch.calls[n]? = some (.parting g next) →
    (∀ {event}, event ≠ .leave n → (ch.step client event).calls[n]? = some (.parting g next)) ∧
      ∃ phase, (ch.step client (.leave n)).calls[n]? = some phase ∧ Leaves next phase
  /-- A request that cannot be sent leaves the pool alone. -/
  rejected : ∀ {request flaw}, Http.Request.build request = .error flaw →
    ch.step client (.start request) = { ch with calls := ch.calls ++ [.done (.error (.settings flaw))] }
  /-- A call that has ended does nothing any more. -/
  ended : ∀ {event n phase}, event.call? = some n → ch.calls[n]? = some phase → phase.isEnded = true →
    ch.step client event = ch
  unused : (∀ phase ∈ ch.calls, phase.isEnded = true) → ch.pool.active = 0

namespace Kept

variable (kept : Kept client ch)
include kept

theorem letGo (holds : ch.Holds n c) (parted : ¬ (ch.step client event).Holds n c)
    (discarded : c ∉ (ch.step client event).pool.free) : Pool.LetGo (ch.step client event).pool c := by
  have move := ch.step_move client event
  have after := (kept.move move).toManned
  have made := kept.sound.stocked.known holds.mem_stock
  refine ⟨after.sound, Nat.lt_of_lt_of_le made (move.passage.length_conns_le kept.sound), fun member => ?_⟩
  obtain idle | held := List.mem_append.mp member
  · exact discarded idle
  · obtain ⟨g, holding⟩ := Pool.mem_held.mp held
    obtain finished | ⟨m, owns⟩ := after.manned holding
    · cases finished
    · -- another call would have come by what a call held
      obtain before | ⟨_, idle⟩ | ⟨_, rfl⟩ := kept.toManned.holds_of_move move ⟨g, owns, holding⟩
      · obtain rfl := kept.exclusive holds before
        exact parted ⟨g, owns, holding⟩
      · exact kept.notMem_free holds idle
      · exact Nat.lt_irrefl _ made

theorem serves_none {conn : Pool.Connection κ Unit}
    (quiet : c ∈ ch.pool.free ∨ ∃ n, ch.Holds n c ∧ ∀ request, ¬ ch.Exchanges n request c)
    (found : ch.pool.conns[c]? = some conn) : client.Serves none conn.content := by
  have member : c ∈ ch.pool.stock := by
    obtain idle | ⟨n, holds, _⟩ := quiet
    · exact List.mem_append_left _ idle
    · exact holds.mem_stock
  refine kept.rests member (fun m request exchanges => ?_) (Pool.getElem?_contents found)
  obtain idle | ⟨n, holds, unsent⟩ := quiet
  · exact kept.notMem_free exchanges.holds idle
  · obtain rfl := kept.exclusive holds exchanges.holds
    exact unsent request exchanges

theorem careful (honest : client.Honest answers) : Careful client answers ch := by
  refine ⟨kept.free_of_move honest (ch.step_move client _), fun holds parted discarded => ?_,
    kept.toManned.holds_of_move (ch.step_move client _), kept.exclusive, kept.notMem_free, kept.serves_none,
    kept.answer_of_move honest (ch.step_move client _), fun here => ⟨(ch.step_move client _).parting here,
      leaves_of_parting here⟩, fun flawed => ?_, fun about here ended => step_of_isEnded here ended about,
    kept.active_eq_zero⟩
  · exact gone_run (kept.letGo holds parted discarded)
  · simp only [step, start, flawed]

end Kept

/-- However the calls of a channel overlap and end, its connections are used with care, by whatever client. -/
theorem careful_run (client : Client κ ι) (honest : client.Honest answers) (size : Nat) (events : List (Event ι)) :
    Careful client answers ((new size).run client events) :=
  ((kept_new client size).run events).careful honest

/-- The second call takes the connection of the first one and is too late for its response, so that the third call has
to make another one. -/
def threeCalls : List (Event Connection.Input) :=
  [.start {}, .resume 0, .pick 0, .dialed 0 none, .begin 0, .meet 0 (.written 1000),
    .meet 0 (.received (Utf8.encode "HTTP/1.1 200 OK\r\ncontent-length: 0\r\n\r\n")), .finish 0, .leave 0,
    .start {}, .resume 1, .pick 1, .begin 1, .deadline 1, .leave 1,
    .start {}, .resume 2, .pick 2, .dialed 2 none]

theorem careful_threeCalls :
    ((new 1).run Connection.client threeCalls).pool.gets = [.returned, .returned, .holding 1] ∧
      Careful Connection.client Connection.Answers ((new 1).run Connection.client threeCalls) :=
  ⟨by decide +kernel, careful_run Connection.client Connection.honest 1 threeCalls⟩

/-- So it is where the client speaks HTTP/1 itself. -/
theorem careful_connection (size : Nat) (events : List (Event Connection.Input)) :
    Careful Connection.client Connection.Answers ((new size).run Connection.client events) :=
  ((kept_new Connection.client size).run events).careful Connection.honest

/-- There, nothing is left to be written on a connection without an exchange, and nothing was received unless the
connection is closed. -/
theorem Careful.clean_connection {ch : Channel Connection} {answers : Http.Request → Response → Prop}
    {conn : Pool.Connection Connection Unit} (careful : Careful Connection.client answers ch)
    (quiet : c ∈ ch.pool.free ∨ ∃ n, ch.Holds n c ∧ ∀ request, ¬ ch.Exchanges n request c)
    (found : ch.pool.conns[c]? = some conn) :
    conn.content.stage = .idle ∧ conn.content.output = [] ∧ (conn.content.closed = false → conn.content.input = []) :=
  Connection.clean_of_serves (careful.clean quiet found)

end RpcClient.Http.Channel
