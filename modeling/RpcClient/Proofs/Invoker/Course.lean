import RpcClient.Invoker
import RpcClient.Proofs.Timeout

/-! The course of a call through an invoker: the time it is allowed, the callbacks on its request in order, one
channel, the callbacks on the response in order. The rules do not refer to the functions that read the time and
run the callbacks; what an invocation does is exactly what they allow. -/
namespace RpcClient

/-- Where there is a choice, the number of turns decides it, and one more is taken. -/
theorem RoundRobin.exists_select {count turns : Nat} (positive : 0 < count) (r : RoundRobin)
    (counted : 2 ≤ count → r.turns.toNat = turns) :
    ∃ (replica : Fin count) (turned : RoundRobin), r.select count = (some replica, turned) ∧
      replica.val = turns % count ∧ (2 ≤ count → turned.turns = r.turns + 1) := by
  match count with
  | 0 => cases positive
  | 1 => exact ⟨0, r, rfl, (Nat.mod_one turns).symm, fun choice => absurd choice (by decide)⟩
  | count + 2 =>
    have same := counted (Nat.le_add_left 2 count)
    exact ⟨_, _, rfl, congrArg (· % (count + 2)) same, fun _ => rfl⟩

namespace Callback

variable {α : Type}

/-- Callbacks with their names, in order. -/
abbrev Row (α : Type) := List (String × (α → Except Interruption α))

/-- Each callback gets what the one before it returns, and lets it pass. -/
inductive Passes : Row α → α → α → Prop where
  | done (a : α) : Passes [] a a
  | next {name : String} {run : α → Except Interruption α} {rest : Row α} {a b c : α} :
      run a = .ok b → Passes rest b c → Passes ((name, run) :: rest) a c

/-- One callback stops what those before it let pass. -/
inductive Stops : Row α → α → Interruption → Prop where
  | here {name : String} {run : α → Except Interruption α} {rest : Row α} {a : α}
      {interruption : Interruption} :
      run a = .error interruption → Stops ((name, run) :: rest) a interruption
  | later {name : String} {run : α → Except Interruption α} {rest : Row α} {a b : α}
      {interruption : Interruption} :
      run a = .ok b → Stops rest b interruption → Stops ((name, run) :: rest) a interruption

variable {row : Row α} {a b : α} {interruption : Interruption}

theorem foldlM_row_cons (name : String) (run : α → Except Interruption α) (rest : Row α) (a : α) :
    ((name, run) :: rest).foldlM (fun a (_, run) => run a) a =
      (run a).bind fun b => rest.foldlM (fun a (_, run) => run a) b := rfl

theorem foldlM_of_passes (passes : Passes row a b) :
    row.foldlM (fun a (_, run) => run a) a = .ok b := by
  induction passes with
  | done a => rfl
  | next accepts _ ih => rw [foldlM_row_cons, accepts]; exact ih

theorem foldlM_of_stops (stops : Stops row a interruption) :
    row.foldlM (fun a (_, run) => run a) a = .error interruption := by
  induction stops with
  | here refuses => rw [foldlM_row_cons, refuses]; rfl
  | later accepts _ ih => rw [foldlM_row_cons, accepts]; exact ih

theorem passes_or_stops (row : Row α) (a : α) :
    (∃ b, Passes row a b) ∨ ∃ interruption, Stops row a interruption := by
  induction row generalizing a with
  | nil => exact .inl ⟨a, .done a⟩
  | cons callback rest ih =>
    obtain ⟨name, run⟩ := callback
    cases outcome : run a with
    | error interruption => exact .inr ⟨interruption, .here outcome⟩
    | ok b =>
      obtain ⟨c, passes⟩ | ⟨interruption, stops⟩ := ih b
      · exact .inl ⟨c, .next outcome passes⟩
      · exact .inr ⟨interruption, .later outcome stops⟩

end Callback

namespace Invoker
open Callback

variable {κ : Type} {μ : Type → Type} [Monad μ] {invoker : Invoker κ} {request sent : Request}

/-- What callers are told that a panic said. -/
def panicMessage (text : Option String) : String :=
  text.getD "unknown panic"

/-- What becomes of a call whose request was sent, given what the channel did with it. -/
inductive Concludes (invoker : Invoker κ) (sent : Request) :
    Except Interruption Response → Outcome → Prop where
  /-- No callback sees a response that did not come. -/
  | failed {failure : Failure} : Concludes invoker sent (.error (.failed failure)) ⟨.error failure, none⟩
  | crashed {text : Option String} :
      Concludes invoker sent (.error (.panicked text)) ⟨.error (.panicked (panicMessage text)), none⟩
  | returned {response answer : Response} :
      Passes invoker.chain.after response answer →
      Concludes invoker sent (.ok response)
        ⟨.ok answer, some ⟨sent.header.get Stat.rpcIdKey, sent.header.get Stat.traceIdKey⟩⟩
  /-- A callback fails: the response is returned as it came. -/
  | kept {response : Response} {failure : Failure} :
      Stops invoker.chain.after response (.failed failure) →
      Concludes invoker sent (.ok response)
        ⟨.ok response, some ⟨sent.header.get Stat.rpcIdKey, sent.header.get Stat.traceIdKey⟩⟩
  | overturned {response : Response} {text : Option String} :
      Stops invoker.chain.after response (.panicked text) →
      Concludes invoker sent (.ok response) ⟨.error (.panicked (panicMessage text)), none⟩

/-- The course of a call, with the invoker that it leaves behind. What the channel does is up to the
channel; it is called once or not at all. -/
inductive Course (invoker : Invoker κ) (call : Nat → Request → μ (Except Interruption Response))
    (request : Request) : μ (Invoker κ × Outcome) → Prop where
  /-- A callback fails: no replica is chosen. -/
  | refused {timed : Request} {failure : Failure} :
      request.Timed timed → Stops invoker.chain.before timed (.failed failure) →
      Course invoker call request (pure (invoker, ⟨.error failure, none⟩))
  /-- A callback panics: this leaves the invoker as a failure does. -/
  | crashed {timed : Request} {text : Option String} :
      request.Timed timed → Stops invoker.chain.before timed (.panicked text) →
      Course invoker call request (pure (invoker, ⟨.error (.panicked (panicMessage text)), none⟩))
  /-- There is no replica to choose; this is not so of invokers that were built. -/
  | missing {timed sent : Request} :
      request.Timed timed → Passes invoker.chain.before timed sent → invoker.replicas = [] →
      Course invoker call request (pure (invoker, ⟨.error .missingChannel, none⟩))
  /-- One replica is chosen and called. Whatever the channel and the callbacks on the response do, the
  turn that was taken is all that the call leaves behind. -/
  | sent {timed sent : Request} {replica : Fin invoker.replicas.length} {balancer : RoundRobin}
      {outcome : Except Interruption Response → Outcome} :
      request.Timed timed → Passes invoker.chain.before timed sent →
      invoker.balancer.select invoker.replicas.length = (some replica, balancer) →
      (∀ result, Concludes invoker sent result (outcome result)) →
      Course invoker call request do
        let result ← call replica sent
        return ({ invoker with balancer }, outcome result)

theorem concludes_iff {result : Except Interruption Response} {outcome : Outcome} :
    Concludes invoker sent result outcome ↔ outcome = invoker.conclude sent result := by
  constructor
  · intro concludes
    cases concludes with
    | failed => rfl
    | crashed => rfl
    | returned passes =>
      rw [conclude, complete, Chain.afterInvoke, foldlM_of_passes passes]
      rfl
    | kept stops =>
      rw [conclude, complete, Chain.afterInvoke, foldlM_of_stops stops]
      rfl
    | overturned stops =>
      rw [conclude, complete, Chain.afterInvoke, foldlM_of_stops stops]
      rfl
  · rintro rfl
    match result with
    | .error (.failed failure) => exact .failed
    | .error (.panicked text) => exact .crashed
    | .ok response =>
      rw [conclude, complete, Chain.afterInvoke]
      obtain ⟨answer, passes⟩ | ⟨failure | text, stops⟩ := passes_or_stops invoker.chain.after response
      · rw [foldlM_of_passes passes]
        exact .returned passes
      · rw [foldlM_of_stops stops]
        exact .kept stops
      · rw [foldlM_of_stops stops]
        exact .overturned stops

theorem exists_select {count : Nat} (someChoice : count ≠ 0) (balancer : RoundRobin) :
    ∃ replica turned, balancer.select count = (some replica, turned) := by
  obtain ⟨replica, turned, selected, -⟩ :=
    balancer.exists_select (Nat.pos_of_ne_zero someChoice) fun _ => rfl
  exact ⟨replica, turned, selected⟩

theorem dispatch_of_stops {interruption : Interruption}
    (stops : Stops invoker.chain.before request.resolveTimeout interruption) :
    invoker.dispatch request = (invoker, .error interruption) := by
  rw [dispatch, Chain.beforeInvoke, foldlM_of_stops stops]

theorem dispatch_of_passes {replica : Fin invoker.replicas.length} {balancer : RoundRobin}
    (passes : Passes invoker.chain.before request.resolveTimeout sent)
    (chosen : invoker.balancer.select invoker.replicas.length = (some replica, balancer)) :
    invoker.dispatch request = ({ invoker with balancer }, .ok ⟨replica, sent⟩) := by
  rw [dispatch, Chain.beforeInvoke, foldlM_of_passes passes]
  simp only [chosen]

section

variable {call : Nat → Request → μ (Except Interruption Response)}

theorem invoke_of_stops {interruption : Interruption}
    (stops : Stops invoker.chain.before request.resolveTimeout interruption) :
    invoker.invoke call request = pure (invoker, ⟨.error interruption.failure, none⟩) := by
  rw [invoke, dispatch_of_stops stops]

theorem invoke_of_missing (passes : Passes invoker.chain.before request.resolveTimeout sent)
    (empty : invoker.replicas = []) :
    invoker.invoke call request = pure (invoker, ⟨.error .missingChannel, none⟩) := by
  obtain ⟨chain, replicas, balancer⟩ := invoker
  obtain rfl : replicas = [] := empty
  rw [invoke, dispatch, Chain.beforeInvoke, foldlM_of_passes passes]
  rfl

theorem invoke_of_passes {replica : Fin invoker.replicas.length} {balancer : RoundRobin}
    (passes : Passes invoker.chain.before request.resolveTimeout sent)
    (chosen : invoker.balancer.select invoker.replicas.length = (some replica, balancer)) :
    invoker.invoke call request = do
      let result ← call replica sent
      return ({ invoker with balancer }, invoker.conclude sent result) := by
  rw [invoke, dispatch_of_passes passes chosen]
  rfl

end

section

variable {σ : Type} {s s' : σ}

section

variable {α β : Type} {first : ExceptT Failure (StateM σ) α}
  {next : α → ExceptT Failure (StateM σ) β}

/-- An action that gives a result has passed each of its parts. -/
theorem ok_of_run_bind {result : β} (run : (first >>= next).run s = (.ok result, s')) :
    ∃ value middle, first.run s = (.ok value, middle) ∧ (next value).run middle = (.ok result, s') := by
  have bound : (first >>= next).run s =
      match first.run s with
      | (.ok value, middle) => (next value).run middle
      | (.error failure, middle) => (.error failure, middle) := by
    simp only [bind, ExceptT.bind, ExceptT.mk, StateT.bind, ExceptT.run]
    rcases first s with ⟨_ | value, middle⟩ <;> rfl
  rw [bound] at run
  split at run
  · next value middle passed => exact ⟨value, middle, passed, run⟩
  · cases run

end

theorem length_of_buildReplicas {build : ChannelSettings → ExceptT Failure (StateM σ) κ}
    {settings : ChannelSettings} {count : Nat} {replicas : List κ}
    (built : (buildReplicas build settings count).run s = (.ok replicas, s')) :
    replicas.length = count := by
  induction count generalizing s replicas with
  | zero =>
    cases built
    rfl
  | succ count ih =>
    obtain ⟨replica, s₁, _, built⟩ := ok_of_run_bind built
    obtain ⟨rest, s₂, others, built⟩ := ok_of_run_bind built
    cases built
    rw [List.length_cons, ih others]

section

variable {channels : Channel.Registry σ κ} {callbacks : Callback.Registry} {context : Channel.Context}
  {settings : InvokerSettings} {invoker : Invoker κ}

theorem length_of_ofSettings
    (built : (ofSettings channels callbacks context settings).run s = (.ok invoker, s')) :
    invoker.replicas.length = settings.replicaCount := by
  rw [ofSettings] at built
  split at built
  · cases built
  · obtain ⟨replicas, s₁, built', built⟩ := ok_of_run_bind built
    cases built
    exact length_of_buildReplicas built'

theorem balancer_of_ofSettings
    (built : (ofSettings channels callbacks context settings).run s = (.ok invoker, s')) :
    invoker.balancer = {} := by
  rw [ofSettings] at built
  split at built
  · cases built
  · obtain ⟨replicas, s₁, _, built⟩ := ok_of_run_bind built
    cases built
    rfl

/-- An invoker that was built has replicas to choose from. -/
theorem replicas_ne_nil_of_ofSettings
    (built : (ofSettings channels callbacks context settings).run s = (.ok invoker, s')) :
    invoker.replicas ≠ [] := by
  have some : 1 ≤ settings.replicaCount := Nat.le_max_right _ _
  rw [← length_of_ofSettings built] at some
  exact List.ne_nil_of_length_pos some

end

end

/-- An invocation takes exactly the course that the rules allow. -/
theorem course_iff_invoke (invoker : Invoker κ) (call : Nat → Request → μ (Except Interruption Response))
    (request : Request) (run : μ (Invoker κ × Outcome)) :
    Course invoker call request run ↔ run = invoker.invoke call request := by
  constructor
  · intro course
    cases course with
    | refused timed stops =>
      obtain rfl := Request.timed_iff.mp timed
      exact (invoke_of_stops stops).symm
    | crashed timed stops =>
      obtain rfl := Request.timed_iff.mp timed
      exact (invoke_of_stops stops).symm
    | missing timed passes empty =>
      obtain rfl := Request.timed_iff.mp timed
      exact (invoke_of_missing passes empty).symm
    | @sent timed sent replica balancer outcome allowed passes chosen concludes =>
      obtain rfl := Request.timed_iff.mp allowed
      rw [invoke_of_passes passes chosen]
      obtain rfl : outcome = invoker.conclude sent :=
        funext fun result => concludes_iff.mp (concludes result)
      rfl
  · rintro rfl
    have timed : request.Timed request.resolveTimeout := Request.timed_iff.mpr rfl
    obtain ⟨sent, passes⟩ | ⟨failure | text, stops⟩ :=
      passes_or_stops invoker.chain.before request.resolveTimeout
    · by_cases empty : invoker.replicas = []
      · rw [invoke_of_missing passes empty]
        exact .missing timed passes empty
      · obtain ⟨replica, balancer, chosen⟩ :=
          exists_select (mt List.length_eq_zero_iff.mp empty) invoker.balancer
        rw [invoke_of_passes passes chosen]
        exact .sent timed passes chosen fun result => concludes_iff.mpr rfl
    · rw [invoke_of_stops stops]
      exact .refused timed stops
    · rw [invoke_of_stops stops]
      exact .crashed timed stops

end Invoker
end RpcClient
