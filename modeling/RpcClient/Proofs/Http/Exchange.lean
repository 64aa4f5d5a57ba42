import RpcClient.Http.Connection
import RpcClient.Proofs.Http.Client

/-! What an exchange leaves on a connection of HTTP/1. One that ran to the end of a response leaves nothing
in either direction, unless the connection is closed, and its response was read as one to the request. -/
namespace RpcClient.Http.Connection

/-- A response that a request can get: how far its body goes follows from its head and the method of the request. -/
inductive Answers (request : Request) : Response → Prop where
  | whole {head : Head} {extent : Extent} {input body rest : Bytes} :
      Extent.of? request.method head = some extent → takeBody extent input = .done body rest →
      Answers request ⟨head.status, head.headers, body⟩
  | toEnd {head : Head} {body : Bytes} : Extent.of? request.method head = some .toEnd →
      Answers request ⟨head.status, head.headers, body⟩

namespace Stage

/-- Whether no exchange is under way. -/
def isCalm : Stage → Bool
  | .idle | .over _ => true
  | _ => false

/-- An exchange has come so far for a request. There is none without a request. -/
inductive Fits : Option Request → Stage → Prop where
  | idle : Fits none .idle
  | awaiting {request : Request} {seen : Nat} : Fits (some request) (.awaiting request.method seen)
  | receiving {request : Request} {head : Head} {extent : Extent} :
      Extent.of? request.method head = some extent → Fits (some request) (.receiving request.method head extent)
  | failed {request : Request} {outage : Outage} : Fits (some request) (.over (.error outage))
  | whole {request : Request} {response : Response} :
      Answers request response → Fits (some request) (.over (.ok response))

end Stage

/-- A connection carries the exchange for a request, and nothing is left on it of any other one. -/
structure Fit (task : Option Request) (conn : Connection) : Prop where
  stage : conn.stage.Fits task
  sent : conn.stage.isCalm = true → conn.output = []
  received : conn.stage.isCalm = true → conn.closed = false → conn.input = []

variable {task : Option Request} {request : Request} {conn : Connection} {head : Head} {extent : Extent}
  {body rest : Bytes}

theorem fit_fresh : Fit none fresh :=
  ⟨.idle, fun _ => rfl, fun _ _ => rfl⟩

theorem fit_of_busy (fits : conn.stage.Fits task) (busy : conn.stage.isCalm = false) : Fit task conn := by
  refine ⟨fits, fun calm => ?_, fun calm => ?_⟩
  · cases busy.symm.trans calm
  · cases busy.symm.trans calm

theorem closed_close (conn : Connection) : conn.close.closed = true := by
  simp only [close]
  split <;> rfl

theorem output_close (conn : Connection) : conn.close.output = [] := by
  simp only [close]
  split <;> rfl

theorem fits_close (fits : conn.stage.Fits task) : conn.close.stage.Fits task := by
  simp only [close]
  split
  · next stage =>
    rw [stage] at fits
    cases fits
    exact .failed
  · next stage =>
    rw [stage] at fits
    cases fits
    exact .failed
  · exact fits

theorem fit_close (fits : conn.stage.Fits task) : Fit task conn.close where
  stage := fits_close fits
  sent _ := conn.output_close
  received _ opened := by cases conn.closed_close.symm.trans opened

theorem fit_await (fits : conn.stage.Fits (some request)) : Fit (some request) (conn.await request.method) := by
  rw [await]
  split
  · exact fit_close fits
  · exact fit_of_busy .awaiting rfl

theorem fit_conclude (answers : Answers request ⟨head.status, head.headers, body⟩) :
    Fit (some request) (conn.conclude request.method head extent body rest) where
  stage := .whole answers
  sent _ := rfl
  received _ opened := by
    -- what came behind the response would have closed the connection
    simp only [conclude, Bool.not_eq_eq_eq_not, Bool.not_false, Bool.and_eq_true,
      List.isEmpty_iff] at opened
    exact opened.1.2

theorem fit_readBody (suits : Extent.of? request.method head = some extent) :
    Fit (some request) (conn.readBody request.method head extent) := by
  rw [readBody]
  split
  · exact fit_of_busy (.receiving suits) rfl
  · exact fit_close (.receiving suits)
  · next taken => exact fit_conclude (.whole suits taken)

theorem fit_readHead (fits : conn.stage.Fits (some request)) :
    Fit (some request) (conn.readHead request.method) := by
  simp only [readHead]
  split
  · exact fit_await fits
  · exact fit_close fits
  · split
    · exact fit_close fits
    · next suits => exact fit_readBody suits

/-- Bytes that no request waits for close the connection. -/
theorem fit_read (fits : conn.stage.Fits task) (sent : conn.stage.isCalm = true → conn.output = []) :
    Fit task conn.read := by
  have quiet : conn.stage.isCalm = true → Fit task (if conn.input.isEmpty then conn else conn.close) := by
    intro calm
    split
    · next empty => exact ⟨fits, sent, fun _ _ => List.isEmpty_iff.mp empty⟩
    · exact fit_close fits
  have fits' := fits
  rw [read]
  split
  · next stage =>
    rw [stage] at fits'
    cases fits'
    split
    · exact fit_readHead fits
    · exact fit_await fits
  · next stage =>
    rw [stage] at fits'
    cases fits' with
    | receiving suits => exact fit_readBody suits
  · next stage => exact quiet (by rw [stage]; rfl)
  · next stage => exact quiet (by rw [stage]; rfl)

theorem fit_receivedWithin {fuel : Nat} {bytes : Bytes} (fit : Fit task conn) :
    Fit task (receivedWithin fuel conn bytes) := by
  induction fuel generalizing conn bytes with
  | zero => exact fit
  | succ fuel ih =>
    rw [receivedWithin]
    split
    · exact fit
    · refine ih ?_
      exact fit_read fit.stage fit.sent

theorem fit_finished (fit : Fit task conn) : Fit task conn.finished := by
  rw [finished]
  split
  · exact fit
  · split
    · next stage =>
      have fits := fit.stage
      rw [stage] at fits
      cases fits with
      | receiving suits => exact fit_conclude (.toEnd suits)
    · exact fit_close fit.stage

theorem fit_meet (fit : Fit task conn) (input : Input) : Fit task (conn.meet input) := by
  cases input with
  | written count =>
    refine ⟨fit.stage, fun calm => ?_, fit.received⟩
    rw [meet, written, fit.sent calm, List.drop_nil]
  | received bytes => exact fit_receivedWithin fit
  | finished => exact fit_finished fit
  | broken => exact fit_close fit.stage

theorem fit_send (conn : Connection) (request : Request) : Fit (some request) (conn.send request) := by
  simp only [send]
  split
  · exact fit_close .awaiting
  · exact fit_of_busy .awaiting rfl

theorem fit_reset (fit : Fit task conn) (calm : conn.stage.isCalm = true) : Fit none conn.reset where
  stage := .idle
  sent _ := fit.sent calm
  received _ := fit.received calm

theorem stage_of_result? {result : Except Outage Response} (came : conn.result? = some result) :
    conn.stage = .over result := by
  rw [result?] at came
  split at came
  · next stage => rw [stage, Option.some.inj came]
  · cases came

theorem fit_of_serves (serves : client.Serves task conn) : Fit task conn := by
  induction serves with
  | fresh => exact fit_fresh
  | meet _ fit => exact fit_meet fit _
  | send _ _ _ => exact fit_send _ _
  | reset _ came fit =>
    refine fit_reset fit ?_
    rw [stage_of_result? came]
    rfl

theorem honest : client.Honest Answers := by
  intro request conn response serves came
  have fits := (fit_of_serves serves).stage
  rw [stage_of_result? came] at fits
  cases fits with
  | whole answers => exact answers

/-- Between two exchanges nothing is left to be written, and nothing was received unless the connection is closed. -/
theorem clean_of_serves (serves : client.Serves none conn) :
    conn.stage = .idle ∧ conn.output = [] ∧ (conn.closed = false → conn.input = []) := by
  have fit := fit_of_serves serves
  have idle : conn.stage = .idle := by
    have fits := fit.stage
    generalize conn.stage = stage at fits
    cases fits
    rfl
  have calm : conn.stage.isCalm = true := by
    rw [idle]
    rfl
  exact ⟨idle, fit.sent calm, fit.received calm⟩

end RpcClient.Http.Connection
