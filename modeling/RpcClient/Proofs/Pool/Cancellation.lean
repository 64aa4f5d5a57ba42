import RpcClient.Proofs.Pool.Custody

/-! Callers that are cancelled. One that waits for a place, or has been given one and does not know it yet, gives up
at once and for good. One that connects is not stopped: only its attempt and its deadline decide what becomes of it. -/
namespace RpcClient.Pool

variable {κ σ : Type} {p p' : Pool κ σ} {g : Nat}

/-- A caller gives up for good. Nothing is handed out and no connection is touched. -/
structure GivesUp [Inhabited σ] (p p' : Pool κ σ) (g : Nat) : Prop where
  final : ∀ later, (p'.run later).gets[g]? = some (.failed .poolTimeout)
  free : p'.free = p.free
  conns : p'.conns = p.conns

theorem cancel_of_settled (settled : p.gets[g]? ≠ some .queued ∧ p.gets[g]? ≠ some .granted) : p.cancel g = p := by
  simp only [cancel]
  split
  next here => exact (settled.1 here).elim
  next here => exact (settled.2 here).elim
  next => rfl

theorem untouched_cancel (p : Pool κ σ) (g : Nat) : (p.cancel g).free = p.free ∧ (p.cancel g).conns = p.conns := by
  simp only [cancel]
  split
  · exact ⟨rfl, rfl⟩
  · exact ⟨free_release _, conns_release _⟩
  · exact ⟨rfl, rfl⟩

namespace Balanced

variable [Inhabited σ] (balanced : Balanced p)
include balanced

theorem givesUp_cancel (failed : (p.cancel g).gets[g]? = some (.failed .poolTimeout)) :
    GivesUp p (p.step (.cancel g)) g where
  final later := (balanced.move (p.step_move (.cancel g))).stays_run later failed rfl
  free := (p.untouched_cancel g).1
  conns := (p.untouched_cancel g).2

theorem cancel_queued (here : p.gets[g]? = some .queued) :
    GivesUp p (p.step (.cancel g)) g ∧ Leaves p (p.step (.cancel g)) g := by
  obtain ⟨failed, leaves⟩ := (p.step_move (.cancel g)).leaves rfl here rfl
  exact ⟨balanced.givesUp_cancel failed, leaves⟩

theorem cancel_granted (here : p.gets[g]? = some .granted) :
    GivesUp p (p.step (.cancel g)) g ∧ GivesBack p (p.step (.cancel g)) g := by
  obtain ⟨failed, back⟩ := balanced.givesBack (p.step_move (.cancel g)) rfl here rfl rfl
  exact ⟨balanced.givesUp_cancel failed, back⟩

theorem dialing_run (here : p.gets[g]? = some .dialing) (events : List (Event κ))
    (undecided : ∀ event ∈ events, event.caller? = some g → event.acts .dialing = false) :
    (p.run events).gets[g]? = some .dialing := by
  induction events generalizing p with
  | nil => exact here
  | cons event events ih =>
    rw [List.forall_mem_cons] at undecided
    exact ih (balanced.move (p.step_move event)) (balanced.unmoved here rfl undecided.1) undecided.2

end Balanced

theorem dialed_of_dialing [Inhabited σ] (here : p.gets[g]? = some .dialing) (content : κ) (readable : Bool) :
    (p.step (.dialed g content readable)).gets[g]? = some (.holding p.conns.length) := by
  simp only [step, dialed, here]
  exact getElem?_setPhase_self (p := { p with conns := _ }) here

/-- What cancellation means in a pool. -/
structure Cancellation [Inhabited σ] (p : Pool κ σ) : Prop where
  /-- A caller that waits for a place gives up and leaves the queue. -/
  queued : ∀ {g : Nat}, p.gets[g]? = some .queued →
    GivesUp p (p.step (.cancel g)) g ∧ Leaves p (p.step (.cancel g)) g
  /-- A caller that was given a place and does not know it yet gives up and gives the place back. -/
  granted : ∀ {g : Nat}, p.gets[g]? = some .granted →
    GivesUp p (p.step (.cancel g)) g ∧ GivesBack p (p.step (.cancel g)) g
  /-- No other caller is cancelled. -/
  settled : ∀ {g : Nat}, p.gets[g]? ≠ some .queued ∧ p.gets[g]? ≠ some .granted → p.step (.cancel g) = p
  /-- A caller that connects goes on until its attempt or its deadline ends, or it drops out by itself. -/
  dialing : ∀ {g : Nat}, p.gets[g]? = some .dialing → ∀ events,
    (∀ event ∈ events, event.caller? = some g → event.acts .dialing = false) →
      (p.run events).gets[g]? = some .dialing
  /-- It gets the connection that it makes. -/
  dialed : ∀ {g : Nat}, p.gets[g]? = some .dialing → ∀ content readable,
    (p.step (.dialed g content readable)).gets[g]? = some (.holding p.conns.length)
  /-- It gives up and gives its place back once its deadline has passed. -/
  late : ∀ {g : Nat}, p.gets[g]? = some .dialing →
    (p.step (.deadline g)).gets[g]? = some (.failed .poolTimeout) ∧ GivesBack p (p.step (.deadline g)) g

theorem cancellation_run [Inhabited σ] (size : Nat) (handler : Option (Handler σ)) (events : List (Event κ)) :
    Cancellation ((Pool.new size handler : Pool κ σ).run events) := by
  have balanced := (balanced_new size handler : Balanced (Pool.new size handler : Pool κ σ)).run events
  exact {
    queued := balanced.cancel_queued
    granted := balanced.cancel_granted
    settled := cancel_of_settled
    dialing := balanced.dialing_run
    dialed := dialed_of_dialing
    late := fun here => balanced.givesBack (Pool.step_move _ (.deadline _)) rfl here rfl rfl }

/-- A caller that is cancelled while it connects is handed the connection all the same, and has the only place. -/
theorem handed_out_after_cancellation :
    ((Pool.new 1 none : Pool Nat Unit).run [.get, .resume 0, .pick 0]).gets = [.dialing] ∧
      ((Pool.new 1 none : Pool Nat Unit).run [.get, .resume 0, .pick 0, .cancel 0, .dialed 0 7 false]).gets =
        [.holding 0] ∧
      ((Pool.new 1 none : Pool Nat Unit).run [.get, .resume 0, .pick 0, .cancel 0, .dialed 0 7 false]).active = 1 :=
  ⟨rfl, rfl, rfl⟩

end RpcClient.Pool
