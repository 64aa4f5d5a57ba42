import RpcClient.Http.Channel

/-! What a step of a channel does: to its calls, to the pool as the callers that the calls are, and to one
connection. -/
namespace RpcClient.Http.Channel

variable {κ ι : Type}

/-- The caller of the pool that a call is while it has not ended. -/
def Phase.caller? : Phase → Option Nat
  | .getting _ caller | .exchanging _ caller | .parting caller _ => some caller
  | _ => none

/-- The caller of the pool that a call is while its caller can drop it. -/
def Phase.waits? : Phase → Option Nat
  | .getting _ caller | .exchanging _ caller => some caller
  | _ => none

/-- What becomes of a call that goes on behind a connection and does not get another one. -/
def Next.ending? : Next → Option Phase
  | .answer result => some (.done result)
  | .renew _ => none
  | .drop => some .dropped

/-- The call that an event is about. -/
def Event.call? : Event ι → Option Nat
  | .resume n | .pick n | .dialed n _ | .begin n | .finish n | .leave n | .deadline n | .cancel n | .drop n => some n
  | _ => none

/-- What a call on its way to a connection does as a caller of the pool. -/
inductive Seeks (client : Client κ ι) (n g : Nat) : Event ι → Pool.Event κ → Prop where
  | resume : Seeks client n g (.resume n) (.resume g)
  | pick : Seeks client n g (.pick n) (.pick g)
  | dialed : Seeks client n g (.dialed n none) (.dialed g client.fresh false)
  | dialFailed {failure : Failure} : Seeks client n g (.dialed n (some failure)) (.dialFailed g failure)
  | deadline : Seeks client n g (.deadline n) (.deadline g)
  | cancel : Seeks client n g (.cancel n) (.cancel g)

inductive Move (client : Client κ ι) (ch : Channel κ) : Event ι → Channel κ → Prop where
  | stay {event : Event ι} : Move client ch event ch
  | meet {c : Nat} {input : ι} : Move client ch (.meet c input) (ch.modifyConn c (client.meet input))
  /-- A request cannot be sent. -/
  | reject {request : RpcClient.Request} {flaw : SettingsFlaw} :
      Http.Request.build request = .error flaw →
      Move client ch (.start request) { ch with calls := ch.calls ++ [.done (.error (.settings flaw))] }
  | join {request : RpcClient.Request} {built : Http.Request} :
      Http.Request.build request = .ok built →
      Move client ch (.start request)
        { pool := ch.pool.get, calls := ch.calls ++ [.getting built ch.pool.gets.length] }
  | seek {event : Event ι} {step : Pool.Event κ} {n g : Nat} {request : Http.Request} :
      Seeks client n g event step → ch.calls[n]? = some (.getting request g) →
      Move client ch event { ch with pool := ch.pool.step step }
  /-- The pool has no connection for a call. -/
  | fail {n g : Nat} {request : Http.Request} {failure : Failure} :
      ch.calls[n]? = some (.getting request g) → ch.pool.gets[g]? = some (.failed failure) →
      Move client ch (.begin n) (ch.answer n (.error failure))
  /-- A call has got a connection that the remote has closed. -/
  | renew {n g c : Nat} {request : Http.Request} :
      ch.calls[n]? = some (.getting request g) → ch.pool.gets[g]? = some (.holding c) →
      Move client ch (.begin n) (ch.part n g true (.renew request))
  | send {n g c : Nat} {request : Http.Request} :
      ch.calls[n]? = some (.getting request g) → ch.pool.gets[g]? = some (.holding c) →
      (∀ {conn}, ch.pool.conns[c]? = some conn → client.isClosed conn.content = false) →
      Move client ch (.begin n) ((ch.modifyConn c (client.send request)).setPhase n (.exchanging request g))
  /-- An exchange is over. -/
  | finish {n g c : Nat} {request : Http.Request} {conn : Pool.Connection κ Unit}
      {result : Except Outage Response} :
      ch.calls[n]? = some (.exchanging request g) → ch.pool.gets[g]? = some (.holding c) →
      ch.pool.conns[c]? = some conn → client.result? conn.content = some result →
      Move client ch (.finish n) ((ch.modifyConn c client.reset).conclude n g (exchangeOutcome result))
  /-- A call ends before its exchange. -/
  | abort {event : Event ι} {n g : Nat} {request : Http.Request} :
      event = .deadline n ∨ event = .cancel n → ch.calls[n]? = some (.exchanging request g) →
      Move client ch event (ch.conclude n g (.error .timeout))
  /-- A call is dropped that has no connection. -/
  | drop {n g : Nat} {phase : Phase} :
      ch.calls[n]? = some phase → phase.waits? = some g → ch.pool.gets[g]? ≠ some .picking →
      (∀ c, ch.pool.gets[g]? ≠ some (.holding c)) →
      Move client ch (.drop n) ({ ch with pool := ch.pool.drop g }.setPhase n .dropped)
  | dropConn {n g c : Nat} {phase : Phase} :
      ch.calls[n]? = some phase → phase.waits? = some g → ch.pool.gets[g]? = some (.holding c) →
      Move client ch (.drop n) ({ ch with pool := ch.pool.drop g }.setPhase n (.parting g .drop))
  /-- A call that has parted with its connection comes to its end. -/
  | leave {n g : Nat} {next : Next} {phase : Phase} :
      ch.calls[n]? = some (.parting g next) → next.ending? = some phase →
      Move client ch (.leave n) ({ ch with pool := ch.pool.giveBack g }.setPhase n phase)
  | again {n g : Nat} {request : Http.Request} :
      ch.calls[n]? = some (.parting g (.renew request)) →
      Move client ch (.leave n)
        ({ ch with pool := (ch.pool.giveBack g).get }.setPhase n
          (.getting request (ch.pool.giveBack g).gets.length))

variable {client : Client κ ι} {ch : Channel κ}

theorem move_withCaller {event : Event ι} {n : Nat} {step : Nat → Pool.Event κ}
    (seeks : ∀ g, Seeks client n g event (step g)) :
    Move client ch event (ch.withCaller n fun pool g => pool.step (step g)) := by
  rw [withCaller]
  split
  · next here => exact .seek (seeks _) here
  · exact .stay

theorem move_start (ch : Channel κ) (request : RpcClient.Request) :
    Move client ch (.start request) (ch.start request) := by
  rw [start]
  split
  · next refused => exact .reject refused
  · next built => exact .join built

theorem move_dialed (ch : Channel κ) (n : Nat) (failure : Option Failure) :
    Move client ch (.dialed n failure) (ch.dialed client n failure) := by
  cases failure with
  | none => exact move_withCaller fun _ => .dialed
  | some failure => exact move_withCaller fun _ => .dialFailed

theorem move_begin (ch : Channel κ) (n : Nat) : Move client ch (.begin n) (ch.begin client n) := by
  rw [begin]
  split
  · next request caller here =>
    split
    · next failed => exact .fail here failed
    · next c holds =>
      split
      · exact .renew here holds
      · next live =>
        refine .send here holds fun {conn} found => ?_
        rw [found, Option.any_some, Bool.not_eq_true] at live
        exact live
    · exact .stay
  · exact .stay

theorem move_finish (ch : Channel κ) (n : Nat) : Move client ch (.finish n) (ch.finish client n) := by
  rw [finish]
  split
  · next caller here =>
    split
    · next c holds =>
      split
      · next result came =>
        obtain ⟨conn, found, came⟩ := Option.bind_eq_some_iff.mp came
        exact .finish here holds found came
      · exact .stay
    · exact .stay
  · exact .stay

theorem move_leave (ch : Channel κ) (n : Nat) : Move client ch (.leave n) (ch.leave n) := by
  rw [leave]
  split
  · next caller next here =>
    cases next with
    | answer result => exact .leave here rfl
    | renew request => exact .again here
    | drop => exact .leave here rfl
  · exact .stay

theorem move_deadline (ch : Channel κ) (n : Nat) : Move client ch (.deadline n) (ch.deadline n) := by
  rw [deadline]
  split
  · next here => exact .abort (.inl rfl) here
  · exact move_withCaller fun _ => .deadline

theorem move_cancel (ch : Channel κ) (n : Nat) : Move client ch (.cancel n) (ch.cancel n) := by
  rw [cancel]
  split
  · next here => exact .abort (.inr rfl) here
  · exact move_withCaller fun _ => .cancel

theorem move_drop (ch : Channel κ) (n : Nat) : Move client ch (.drop n) (ch.drop n) := by
  simp only [drop]
  split
  · next here =>
    split
    · exact .stay
    · next holds => exact .dropConn here rfl holds
    · next settled empty => exact .drop here rfl settled empty
  · next here =>
    split
    · exact .stay
    · next holds => exact .dropConn here rfl holds
    · next settled empty => exact .drop here rfl settled empty
  · exact .stay

theorem step_move (client : Client κ ι) (ch : Channel κ) (event : Event ι) :
    Move client ch event (ch.step client event) := by
  cases event with
  | start request => exact ch.move_start request
  | resume n => exact move_withCaller fun _ => .resume
  | pick n => exact move_withCaller fun _ => .pick
  | dialed n failure => exact ch.move_dialed n failure
  | begin n => exact ch.move_begin n
  | finish n => exact ch.move_finish n
  | leave n => exact ch.move_leave n
  | deadline n => exact ch.move_deadline n
  | cancel n => exact ch.move_cancel n
  | drop n => exact ch.move_drop n
  | meet c input => exact .meet

end RpcClient.Http.Channel
