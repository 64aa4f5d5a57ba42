import RpcClient.Proofs.Multiplex.Causes

/-! The bytes that calls put on connections. A call goes on with its frame on one connection until it is
written, or leaves it there cut short and the connection closed. So of all the connections that it comes to,
at most one gets the whole frame. -/
namespace RpcClient.Multiplex

/-- Where the bytes of a call go. -/
inductive Route where
  | shared (c : Nat)
  /-- A connection of its own. -/
  | own
  deriving DecidableEq

/-- The connection on which a call has its frame or an end of it left to write, or has written it, with
what is left. -/
def Phase.attempt? (wire : Bytes) : Phase → Option (Route × Bytes)
  | .entering c | .queued c => some (.shared c, wire)
  | .writing c rest => some (.shared c, rest)
  | .waiting c => some (.shared c, [])
  | .direct _ .dialing => some (.own, wire)
  | .direct _ (.writing rest) => some (.own, rest)
  | .direct _ (.reading _) => some (.own, [])
  | .seeking | .dialing | .expired _ | .failed _ _ | .clearing _ _ | .done _ | .dropped => none

/-- A front of a frame that is not all of it. -/
def CutShort (wire bytes : Bytes) : Prop :=
  bytes <+: wire ∧ bytes ≠ wire

namespace Channel

/-- The bytes that call `n` puts on a connection by a step. -/
def written (ch : Channel) (n : Nat) (route : Route) (event : Event) : Bytes :=
  match event, ch.phase? n with
  | .write m count, some (.writing c rest) =>
    if m = n ∧ route = .shared c then rest.take count else []
  | .directWrite m count, some (.direct _ (.writing rest)) =>
    if m = n ∧ route = .own then rest.take count else []
  | _, _ => []

/-- The steps of a run, each with the channel that takes it. -/
def trace (ch : Channel) : List Event → List (Channel × Event)
  | [] => []
  | event :: events => (ch, event) :: (ch.step event).trace events

/-- The bytes that call `n` puts on a connection in a run. -/
def sent (ch : Channel) (events : List Event) (n : Nat) (route : Route) : Bytes :=
  (ch.trace events).flatMap fun (ch, event) => ch.written n route event

theorem trace_append (ch : Channel) (events later : List Event) :
    ch.trace (events ++ later) = ch.trace events ++ (ch.run events).trace later := by
  induction events generalizing ch with
  | nil => rfl
  | cons event events ih => exact congrArg ((ch, event) :: ·) (ih (ch.step event))

theorem sent_concat (ch : Channel) (events : List Event) (event : Event) (n : Nat) (route : Route) :
    ch.sent (events ++ [event]) n route =
      ch.sent events n route ++ (ch.run events).written n route event := by
  rw [sent, trace_append, List.flatMap_append]
  exact congrArg (ch.sent events n route ++ ·) (List.append_nil _)

end Channel

/-- What a step is for the frame of a call, given the bytes that the call puts on connections. -/
inductive Advance (ch : Channel) (wire : Bytes) (before : Phase) (written : Route → Bytes) (after : Phase) :
    Prop where
  | onward (route : Route) {rest : Bytes} : before.attempt? wire = some (route, written route ++ rest) →
      after.attempt? wire = some (route, rest) → (∀ other, other ≠ route → written other = []) →
      Advance ch wire before written after
  /-- It has got a connection that is open or new. -/
  | begin {c : Nat} : before.attempt? wire = none → before.conn? = none →
      ch.open? = some c ∨ c = ch.conns.length → after.attempt? wire = some (.shared c, wire) →
      (∀ route, written route = []) → Advance ch wire before written after
  | cut {route : Route} {rest : Bytes} : before.attempt? wire = some (route, rest) → rest ≠ [] →
      after.attempt? wire = none → (∀ route, written route = []) → Advance ch wire before written after
  | idle : before.attempt? wire = none → after.attempt? wire = none → (∀ route, written route = []) →
      Advance ch wire before written after
  | ends : after.isEnded = true → (∀ route, written route = []) → Advance ch wire before written after

/-- How far a call in a phase has got with its frame, given what it has `sent`. -/
structure Progress (wire : Bytes) (phase : Phase) (sent : Route → Bytes) : Prop where
  attempt : ∀ {route rest}, phase.attempt? wire = some (route, rest) → sent route ++ rest = wire
  cut : phase.isEnded = false → ∀ {route}, (∀ rest, phase.attempt? wire ≠ some (route, rest)) →
    CutShort wire (sent route)
  front : ∀ route, sent route <+: wire
  once : wire ≠ [] → ∀ {route route'}, sent route = wire → sent route' = wire → route = route'

theorem Phase.attempt?_of_isEnded {wire : Bytes} {phase : Phase} (ends : phase.isEnded = true) :
    phase.attempt? wire = none := by
  cases phase <;> first | rfl | cases ends

theorem Phase.attempt?_unique {wire rest rest' : Bytes} {phase : Phase} {route route' : Route}
    (one : phase.attempt? wire = some (route, rest)) (other : phase.attempt? wire = some (route', rest')) :
    route = route' ∧ rest = rest' :=
  Prod.mk.inj (Option.some.inj (one.symm.trans other))

namespace Progress

variable {ch : Channel} {wire : Bytes} {before after : Phase} {sent written : Route → Bytes}

/-- Of a call under way the rest follows from what it has sent on each connection. -/
theorem of_attempt
    (attempt : ∀ {route rest}, after.attempt? wire = some (route, rest) → sent route ++ rest = wire)
    (cut : ∀ {route}, (∀ rest, after.attempt? wire ≠ some (route, rest)) → CutShort wire (sent route)) :
    Progress wire after sent := by
  have cases : ∀ route, (∃ rest, after.attempt? wire = some (route, rest)) ∨ CutShort wire (sent route) := by
    intro route
    by_cases current : ∃ rest, after.attempt? wire = some (route, rest)
    · exact .inl current
    · exact .inr (cut (not_exists.mp current))
  refine ⟨attempt, fun _ => cut, fun route => ?_, fun _ {route route'} whole whole' => ?_⟩
  · obtain ⟨rest, current⟩ | short := cases route
    · exact ⟨rest, attempt current⟩
    · exact short.1
  · obtain ⟨rest, current⟩ | short := cases route
    · obtain ⟨rest', current'⟩ | short' := cases route'
      · exact (Phase.attempt?_unique current current').1
      · exact (short'.2 whole').elim
    · exact (short.2 whole).elim

/-- Without an attempt, the frame is cut short on every connection. -/
theorem of_none (none : after.attempt? wire = none) (short : ∀ route, CutShort wire (sent route)) :
    Progress wire after sent := by
  refine of_attempt (fun now => ?_) fun {route} _ => short route
  cases none.symm.trans now

variable (progress : Progress wire before sent)
include progress

theorem ended (ends : after.isEnded = true) : Progress wire after sent := by
  refine ⟨fun now => ?_, fun live => ?_, progress.front, progress.once⟩
  · cases now.symm.trans (Phase.attempt?_of_isEnded ends)
  · cases live.symm.trans ends

variable (live : before.isEnded = false)
include live

theorem onward {route : Route} {rest : Bytes}
    (earlier : before.attempt? wire = some (route, written route ++ rest))
    (now : after.attempt? wire = some (route, rest)) (silent : ∀ other, other ≠ route → written other = []) :
    Progress wire after fun route => sent route ++ written route := by
  refine of_attempt (fun {other rest'} current => ?_) fun {other} away => ?_
  · obtain ⟨rfl, rfl⟩ := Phase.attempt?_unique now current
    rw [List.append_assoc]
    exact progress.attempt earlier
  · have different : other ≠ route := fun same => away rest (same ▸ now)
    rw [silent other different, List.append_nil]
    exact progress.cut live fun rest' current => different (Phase.attempt?_unique current earlier).1

theorem begin {route : Route} (none : before.attempt? wire = none)
    (now : after.attempt? wire = some (route, wire)) (unused : sent route = []) :
    Progress wire after sent := by
  refine of_attempt (fun {other rest} current => ?_) fun {other} _ => progress.cut live (by simp [none])
  obtain ⟨rfl, rfl⟩ := Phase.attempt?_unique now current
  rw [unused, List.nil_append]

theorem giveUp {route : Route} {rest : Bytes} (earlier : before.attempt? wire = some (route, rest))
    (left : rest ≠ []) (none : after.attempt? wire = none) : Progress wire after sent := by
  refine of_none none fun other => ?_
  by_cases same : route = other
  · have whole := progress.attempt earlier
    refine same ▸ ⟨⟨rest, whole⟩, fun all => left ?_⟩
    rw [all] at whole
    exact List.append_right_eq_self.mp whole
  · exact progress.cut live fun rest' current => same (Phase.attempt?_unique earlier current).1

theorem advance (advance : Advance ch wire before written after)
    (unused : before.conn? = none → ∀ c, ch.open? = some c ∨ c = ch.conns.length → sent (.shared c) = []) :
    Progress wire after fun route => sent route ++ written route := by
  cases advance with
  | onward route earlier now silent => exact progress.onward live earlier now silent
  | begin none away fresh now silent =>
    simp only [silent, List.append_nil]
    exact progress.begin live none now (unused away _ fresh)
  | cut earlier left none silent =>
    simp only [silent, List.append_nil]
    exact progress.giveUp live earlier left none
  | idle earlier none silent =>
    simp only [silent, List.append_nil]
    exact of_none none fun _ => progress.cut live (by simp [earlier])
  | ends ends silent =>
    simp only [silent, List.append_nil]
    exact progress.ended ends

end Progress

/-! ### What strides are for the frame -/

section

variable {ch : Channel} {n : Nat} {call : Call} {event : Event} {phase : Phase} {effect : Effect}

theorem Channel.written_write {c : Nat} {rest : Bytes} (here : ch.phase? n = some (.writing c rest))
    (count : Nat) (route : Route) :
    ch.written n route (.write n count) = if route = .shared c then rest.take count else [] := by
  simp only [written, here, true_and]

theorem Channel.written_directWrite {address : String} {rest : Bytes}
    (here : ch.phase? n = some (.direct address (.writing rest))) (count : Nat) (route : Route) :
    ch.written n route (.directWrite n count) = if route = .own then rest.take count else [] := by
  simp only [written, here, true_and]

theorem Event.IsExpiry.written (own : event.IsExpiry n) (route : Route) : ch.written n route event = [] := by
  obtain rfl | rfl := own <;> rfl

theorem Solo.advance (solo : Solo n call event phase) (here : ch.phase? n = some call.phase) :
    Advance ch call.wire call.phase (fun route => ch.written n route event) phase := by
  cases solo with
  | refused | writeFailed => exact .ends rfl fun _ => rfl
  | connect dials => exact .onward .own (by rw [dials]; rfl) rfl fun _ _ => rfl
  | @write address rest count writes =>
    have written := Channel.written_directWrite (writes ▸ here) count
    by_cases last : rest.length ≤ count
    · rw [if_pos last]
      refine .onward .own ?_ rfl fun other different => by rw [written, if_neg different]
      rw [writes, written, if_pos rfl, List.take_of_length_le last, List.append_nil]
      rfl
    · rw [if_neg last]
      refine .onward .own ?_ rfl fun other different => by rw [written, if_neg different]
      rw [writes, written, if_pos rfl, List.take_append_drop]
      rfl
  | read reads next =>
    obtain ends | ⟨rest, rfl⟩ := next
    · exact .ends ends fun _ => rfl
    · exact .onward .own (by rw [reads]; rfl) rfl fun _ _ => rfl

theorem Stride.advance (stride : Stride ch n call event phase effect) (whole : call.Whole)
    (here : ch.phase? n = some call.phase) :
    Advance ch call.wire call.phase (fun route => ch.written n route event) phase := by
  cases stride with
  | find seeks _ shared =>
    exact .begin (by rw [seeks]; rfl) (by rw [seeks]; rfl) (.inl shared) rfl fun _ => rfl
  | connect dials => exact .begin (by rw [dials]; rfl) (by rw [dials]; rfl) (.inr rfl) rfl fun _ => rfl
  | dial seeks => exact .idle (by rw [seeks]; rfl) rfl fun _ => rfl
  | @take c _ enters | @queue c _ enters | @begin c _ enters =>
    exact .onward (.shared c) (by rw [enters]; rfl) rfl fun _ _ => rfl
  | miss _ _ place =>
    obtain ⟨enters, _⟩ | ⟨queued, _⟩ := place
    · exact .cut (by rw [enters]; rfl) (whole.wire (by rw [enters]; rfl)) rfl fun _ => rfl
    · exact .cut (by rw [queued]; rfl) (whole.wire (by rw [queued]; rfl)) rfl fun _ => rfl
  | @writeSome c count rest writes less =>
    have written := Channel.written_write (writes ▸ here) count
    refine .onward (.shared c) ?_ rfl fun other different => by rw [written, if_neg different]
    rw [writes, written, if_pos rfl, List.take_append_drop]
    rfl
  | @writeAll c count rest writes last =>
    have written := Channel.written_write (writes ▸ here) count
    refine .onward (.shared c) ?_ rfl fun other different => by rw [written, if_neg different]
    rw [writes, written, if_pos rfl, List.take_of_length_le last, List.append_nil]
    rfl
  | writeFailed writes | abort writes | expire writes =>
    exact .cut (by rw [writes]; rfl) (whole.rest writes).1 rfl fun _ => rfl
  | shut failed => exact .idle (by rw [failed]; rfl) rfl fun _ => rfl
  | again clears own =>
    obtain rfl | rfl := own
    · exact .idle (by rw [clears]; rfl) rfl fun _ => rfl
    · exact .idle (by rw [clears]; rfl) rfl fun _ => rfl
  | exhausted _ own => obtain rfl | rfl := own <;> exact .ends rfl fun _ => rfl
  | answered _ _ own | displaced _ _ own =>
    obtain rfl | own := own
    · exact .ends rfl fun _ => rfl
    · exact .ends rfl own.written
  | timeout _ own => exact .ends rfl own.written
  | refused | tear | cut | leave | drop | dropQueued | dropWriter => exact .ends rfl fun _ => rfl
  | direct solo => exact solo.advance here

/-- A call stays with a connection until it ends, or has closed it. -/
theorem Stride.leaves {c : Nat} (stride : Stride ch n call event phase effect)
    (here : call.phase.conn? = some c) :
    phase.conn? = some c ∨ phase.isEnded = true ∨ ∃ failure, call.phase = .clearing c failure := by
  cases stride with
  | find other | dial other | connect other | refused other =>
    rw [other] at here
    cases here
  | take other | queue other | begin other | writeSome other | writeAll other | writeFailed other
  | abort other | expire other | shut other =>
    rw [other] at here
    exact .inl here
  | miss _ _ place =>
    obtain ⟨other, _⟩ | ⟨other, _⟩ := place <;> rw [other] at here <;> exact .inl here
  | again clears =>
    rw [clears] at here
    cases here
    exact .inr (.inr ⟨_, clears⟩)
  | direct solo =>
    obtain ⟨_, _, place⟩ := solo.exists_stage
    rw [place] at here
    cases here
  | tear | exhausted | answered | displaced | cut | timeout | leave | drop | dropQueued | dropWriter =>
    exact .inr (.inl rfl)

end

namespace Channel

variable {ch : Channel} {n c : Nat} {call : Call} {event : Event} {phase : Phase} {codec : Codec}
  {events : List Event}

/-- A call that stays where it is has written nothing. -/
theorem written_of_still (still : (ch.step event).phase? n = ch.phase? n) (route : Route) :
    ch.written n route event = [] := by
  have nothing : ∀ {count : Nat} {rest : Bytes}, ¬ rest.length ≤ count → rest.drop count = rest →
      rest.take count = [] := by
    intro count rest more same
    have length := congrArg List.length same
    rw [List.length_drop] at length
    rw [show count = 0 by omega, List.take_zero]
  simp only [written]
  split
  next m count c rest here =>
    split
    next same =>
      obtain ⟨rfl, _⟩ := same
      simp only [step, write, here] at still
      split at still
      · have kept : ((ch.dropIfClosed c).release c).phase? m = some (.writing c rest) := here
        rw [phase?_setPhase kept, if_pos rfl] at still
        cases still
      · next more =>
        rw [phase?_setPhase here, if_pos rfl] at still
        exact nothing more (Phase.writing.inj (Option.some.inj still)).2
    next => rfl
  next m count address rest here =>
    split
    next same =>
      obtain ⟨rfl, _⟩ := same
      simp only [step, directWrite, here] at still
      rw [phase?_setPhase here, if_pos rfl] at still
      have same := (Phase.direct.inj (Option.some.inj still)).2
      split at same
      · cases same
      · next more => exact nothing more (DirectStage.writing.inj same)
    next => rfl
  next => rfl

theorem written_of_absent (absent : ch.calls[n]? = none) (route : Route) : ch.written n route event = [] := by
  have nowhere : ch.phase? n = none := by rw [phase?, absent, Option.map_none]
  simp only [written, nowhere]

theorem calls_of_concat (absent : ((new codec).run (events ++ [event])).calls[n]? = none) :
    ((new codec).run events).calls[n]? = none := by
  rw [run_concat] at absent
  cases found : ((new codec).run events).calls[n]? with
  | none => rfl
  | some call =>
    obtain ⟨_, present⟩ | ⟨_, _, _, _, present⟩ := step_call event found
    · cases absent.symm.trans present
    · cases absent.symm.trans present

theorem sent_of_absent (absent : ((new codec).run events).calls[n]? = none) (route : Route) :
    (new codec).sent events n route = [] := by
  induction events using List.reverseRecOn with
  | nil => rfl
  | append_singleton events event ih =>
    have before := calls_of_concat absent
    rw [sent_concat, ih before, written_of_absent before, List.append_nil]

/-- Bytes go to a connection that the call is on. -/
theorem exists_conn_of_sent (bytes : (new codec).sent events n (.shared c) ≠ []) :
    ∃ before later, events = before ++ later ∧ ((new codec).run before).conn? n = some c := by
  induction events using List.reverseRecOn with
  | nil => exact (bytes rfl).elim
  | append_singleton events event ih =>
    by_cases earlier : (new codec).sent events n (.shared c) = []
    · rw [sent_concat, earlier, List.nil_append] at bytes
      refine ⟨events, [event], rfl, ?_⟩
      simp only [written] at bytes
      split at bytes
      next here =>
        split at bytes
        next same =>
          obtain rfl := Route.shared.inj same.2
          rw [conn?, here]
          rfl
        next => exact (bytes rfl).elim
      next =>
        split at bytes
        next same => cases same.2
        next => exact (bytes rfl).elim
      next => exact (bytes rfl).elim
    · obtain ⟨before, later, rfl, used⟩ := ih earlier
      exact ⟨before, later ++ [event], by simp, used⟩

/-- Call `n` is on connection `c`, unless it has ended or the connection is closed. -/
def KeepsTo (ch : Channel) (n c : Nat) : Prop :=
  ch.conn? n = some c ∨ (∃ phase, ch.phase? n = some phase ∧ phase.isEnded = true) ∨
    ∃ conn, ch.conns[c]? = some conn ∧ conn.closed = true

theorem keepsTo_step (line : OneLine ch) (keeps : KeepsTo ch n c) (event : Event) :
    KeepsTo (ch.step event) n c := by
  obtain here | ⟨phase, here, ended⟩ | ⟨conn, found, closed⟩ := keeps
  · obtain ⟨phase, place, stands⟩ := Option.bind_eq_some_iff.mp here
    obtain ⟨call, found, rfl⟩ := phase?_eq_some.mp place
    obtain ⟨mailbox, after⟩ | ⟨phase, effect, _, stride, after⟩ := step_call event found
    · exact .inl (by rw [conn?, phase?, after]; exact stands)
    obtain still | ended | ⟨failure, clears⟩ := stride.leaves stands
    · exact .inl (by rw [conn?, phase?, after]; exact still)
    · exact .inr (.inl ⟨phase, phase?_eq_some.mpr ⟨_, after, rfl⟩, ended⟩)
    -- a call that leaves a connection and goes on has closed it before
    · have gone := line.cleared (clears ▸ place)
      have bound := line.started here
      rw [isClosed, List.getElem?_eq_getElem bound] at gone
      exact .inr (.inr (closed_run [event] (List.getElem?_eq_getElem bound) gone))
  · exact .inr (.inl ⟨phase, step_of_ended here ended, ended⟩)
  · exact .inr (.inr (closed_run [event] found closed))

theorem keepsTo_run (later : List Event) (used : ((new codec).run events).conn? n = some c) :
    KeepsTo ((new codec).run (events ++ later)) n c := by
  induction later using List.reverseRecOn with
  | nil => exact .inl (by rwa [List.append_nil])
  | append_singleton later event ih =>
    rw [← List.append_assoc, run_concat]
    exact keepsTo_step (OneLine.run codec _) ih event

/-- No call comes back to a connection. -/
theorem unused_run (here : ((new codec).run events).phase? n = some phase) (live : phase.isEnded = false)
    (away : phase.conn? = none)
    (fresh : ((new codec).run events).open? = some c ∨ c = ((new codec).run events).conns.length) :
    (new codec).sent events n (.shared c) = [] := by
  by_contra sent
  obtain ⟨before, later, rfl, used⟩ := exists_conn_of_sent sent
  obtain stays | ⟨phase', here', ended⟩ | ⟨conn, found, closed⟩ := keepsTo_run later used
  · rw [conn?, here, Option.bind_some, away] at stays
    cases stays
  · rw [Option.some.inj (here.symm.trans here')] at live
    cases live.symm.trans ended
  · obtain shared | rfl := fresh
    · obtain ⟨_, alive⟩ := open?_eq_some.mp shared
      rw [isClosed, found] at alive
      cases alive.symm.trans closed
    · exact Nat.lt_irrefl _ (List.getElem?_eq_some_iff.mp found).1

theorem Started.progress {request : Request} (started : Started codec request call) :
    Progress call.wire call.phase fun _ => [] := by
  have short : call.phase.isEnded = false → CutShort call.wire [] :=
    fun live => ⟨List.nil_prefix, (Codec.ne_nil_of_encode (started.encoded live)).symm⟩
  obtain seeks | ⟨address, dials⟩ | ends := started.phase
  · rw [seeks] at short ⊢
    exact .of_none rfl fun _ => short rfl
  · rw [dials] at short ⊢
    refine .of_attempt (fun current => ?_) fun _ => short rfl
    cases current
    rfl
  · refine ⟨fun current => ?_, fun live => ?_, fun _ => List.nil_prefix, ?_⟩
    · cases current.symm.trans (Phase.attempt?_of_isEnded ends)
    · cases live.symm.trans ends
    · intro frame route route' empty _
      exact (frame empty.symm).elim

theorem progress_run (found : ((new codec).run events).calls[n]? = some call) :
    Progress call.wire call.phase ((new codec).sent events n) := by
  induction events using List.reverseRecOn generalizing call with
  | nil => cases found
  | append_singleton events event ih =>
    rw [show (new codec).sent (events ++ [event]) n = fun route => (new codec).sent events n route ++
      ((new codec).run events).written n route event from funext (sent_concat _ _ _ _)]
    rw [run_concat] at found
    cases step_comes found with
    -- nothing was sent under the number of a call before it started
    | started absent _ started =>
      simp only [sent_of_absent absent, written_of_absent absent, List.append_nil]
      exact started.progress
    | @still old mailbox before =>
      have still : (((new codec).run events).step event).phase? n = ((new codec).run events).phase? n := by
        rw [phase?, phase?, found, before]
        rfl
      simp only [written_of_still still, List.append_nil]
      exact ih before
    | stride before stride =>
      have here := phase?_eq_some.mpr ⟨_, before, rfl⟩
      exact (ih before).advance stride.live (stride.advance (whole_run codec events before) here)
        fun away c fresh => unused_run here stride.live away fresh

end Channel
end RpcClient.Multiplex
