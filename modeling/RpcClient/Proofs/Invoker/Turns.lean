import Mathlib.Data.Int.CardIntervalMod
import Mathlib.Data.Nat.Periodic
import RpcClient.Proofs.Invoker.Course

/-! How the calls of an invoker are spread over its replicas. Calls may overlap: all that one of them does to
the invoker is done when it is dispatched, and from then on it does not matter what becomes of it. -/
namespace RpcClient.Invoker
open Callback

variable {κ : Type} {chain : Callback.Chain} {count : Nat}

/-- A call that has got as far as the choice of a replica, or was stopped before. -/
structure Call where
  request : Request
  dispatched : Except Interruption Dispatch
  /-- What has become of it, if it is over. -/
  outcome : Option Outcome

/-- The call when its channel is done with its request. -/
def Call.answered (call : Call) (invoker : Invoker κ) (result : Except Interruption Response) : Call :=
  match call.dispatched, call.outcome with
  | .ok dispatch, none => { call with outcome := some (invoker.conclude dispatch.request result) }
  | _, _ => call

def replicaOf? : Except Interruption Dispatch → Option Nat
  | .ok dispatch => some dispatch.replica
  | .error _ => none

/-- The replicas that were chosen, in the order in which they were. -/
def chosen (calls : List Call) : List Nat :=
  (calls.map Call.dispatched).filterMap replicaOf?

/-- An invoker with the calls made so far, in the order in which they were dispatched. -/
structure Service (κ : Type) where
  invoker : Invoker κ
  calls : List Call := []

namespace Service

inductive Event (κ : Type) where
  /-- A call is dispatched. -/
  | call (request : Request)
  /-- The channel is done with the request of a call: it gives a response, fails or panics. -/
  | answer (n : Nat) (result : Except Interruption Response)
  /-- A replica does something of its own. -/
  | work (replica : Nat) (change : κ → κ)

def call (s : Service κ) (request : Request) : Service κ :=
  match s.invoker.dispatch request with
  | (invoker, .ok dispatch) => ⟨invoker, s.calls ++ [⟨request, .ok dispatch, none⟩]⟩
  | (invoker, .error interruption) =>
    ⟨invoker, s.calls ++
      [⟨request, .error interruption, some { result := .error interruption.failure }⟩]⟩

def answer (s : Service κ) (n : Nat) (result : Except Interruption Response) : Service κ :=
  { s with calls := s.calls.modify n (·.answered s.invoker result) }

def work (s : Service κ) (replica : Nat) (change : κ → κ) : Service κ :=
  { s with invoker := { s.invoker with replicas := s.invoker.replicas.modify replica change } }

def step (s : Service κ) : Event κ → Service κ
  | .call request => s.call request
  | .answer n result => s.answer n result
  | .work replica change => s.work replica change

def run (s : Service κ) (events : List (Event κ)) : Service κ :=
  events.foldl step s

end Service

variable {s : Service κ} {calls : List Call}

theorem Call.request_answered (call : Call) (invoker : Invoker κ) (result : Except Interruption Response) :
    (call.answered invoker result).request = call.request := by
  rw [answered]
  split <;> rfl

theorem Call.dispatched_answered (call : Call) (invoker : Invoker κ)
    (result : Except Interruption Response) :
    (call.answered invoker result).dispatched = call.dispatched := by
  rw [answered]
  split <;> rfl

theorem chosen_concat (calls : List Call) (call : Call) :
    chosen (calls ++ [call]) = chosen calls ++ (replicaOf? call.dispatched).toList := by
  rw [chosen, List.map_append, List.filterMap_append, List.map_singleton, List.filterMap_cons]
  cases replicaOf? call.dispatched <;> rfl

theorem length_chosen_le (calls : List Call) : (chosen calls).length ≤ calls.length := by
  have fewer := List.length_filterMap_le replicaOf? (calls.map Call.dispatched)
  rwa [List.length_map] at fewer

theorem map_dispatched_answer (s : Service κ) (n : Nat) (result : Except Interruption Response) :
    (s.answer n result).calls.map Call.dispatched = s.calls.map Call.dispatched := by
  refine List.ext_getElem? fun m => ?_
  rw [Service.answer, List.getElem?_map, List.getElem?_modify, List.getElem?_map]
  cases s.calls[m]? with
  | none => rfl
  | some call =>
    simp only [Option.map_eq_map, Option.map_some]
    split
    · rw [Call.dispatched_answered]
    · rfl

theorem getElem?_concat_cases {call last : Call} {n : Nat} (found : (calls ++ [last])[n]? = some call) :
    (calls[n]? = some call ∧ (calls ++ [last]).take n = calls.take n) ∨
      (call = last ∧ (calls ++ [last]).take n = calls) := by
  rw [List.getElem?_append] at found
  split at found
  · next bound => exact .inl ⟨found, List.take_append_of_le_length (Nat.le_of_lt bound)⟩
  · next beyond =>
    obtain ⟨single, rfl⟩ := List.getElem?_eq_some_iff.mp found
    have behind : n = calls.length := by
      rw [List.length_singleton] at single
      omega
    subst behind
    exact .inr ⟨List.getElem_singleton _, List.take_left⟩

/-! ### Turns -/

/-- How a call is dispatched behind those in `earlier`. -/
structure Turn (chain : Callback.Chain) (count : Nat) (earlier : List Call) (call : Call) : Prop where
  /-- A call that gets past the callbacks goes to the replica next to the one chosen last. -/
  passed : ∀ {sent}, Passes chain.before call.request.resolveTimeout sent →
    call.dispatched = .ok ⟨(chosen earlier).length % count, sent⟩
  stopped : ∀ {interruption}, Stops chain.before call.request.resolveTimeout interruption →
    call.dispatched = .error interruption

/-- The calls have taken their turns, and the balancer has counted them where there is a choice. -/
structure Served (chain : Callback.Chain) (count : Nat) (s : Service κ) : Prop where
  sameChain : s.invoker.chain = chain
  sameCount : s.invoker.replicas.length = count
  turns : 2 ≤ count → s.invoker.balancer.turns = UInt64.ofNat (chosen s.calls).length
  turn : ∀ {n : Nat} {call : Call}, s.calls[n]? = some call → Turn chain count (s.calls.take n) call

section

variable {row : Row Request} {request sent : Request} {interruption : Interruption}

theorem not_stops_of_passes (passes : Passes row request sent) : ¬ Stops row request interruption := by
  intro stops
  cases (foldlM_of_passes passes).symm.trans (foldlM_of_stops stops)

theorem eq_of_passes {sent' : Request} (passes : Passes row request sent)
    (passes' : Passes row request sent') : sent = sent' :=
  Except.ok.inj ((foldlM_of_passes passes).symm.trans (foldlM_of_passes passes'))

theorem eq_of_stops {interruption' : Interruption} (stops : Stops row request interruption)
    (stops' : Stops row request interruption') : interruption = interruption' :=
  Except.error.inj ((foldlM_of_stops stops).symm.trans (foldlM_of_stops stops'))

end

namespace Served

theorem concat (served : Served chain count s) {invoker : Invoker κ} {call : Call}
    (same : invoker.chain = s.invoker.chain) (same' : invoker.replicas = s.invoker.replicas)
    (turns : 2 ≤ count → invoker.balancer.turns =
      s.invoker.balancer.turns + UInt64.ofNat (replicaOf? call.dispatched).toList.length)
    (turn : Turn chain count s.calls call) : Served chain count ⟨invoker, s.calls ++ [call]⟩ where
  sameChain := same.trans served.sameChain
  sameCount := (congrArg List.length same').trans served.sameCount
  turns choice := by
    rw [turns choice, served.turns choice, chosen_concat, List.length_append, UInt64.ofNat_add]
  turn found := by
    obtain ⟨found, front⟩ | ⟨rfl, front⟩ := getElem?_concat_cases found
    · rw [front]
      exact served.turn found
    · rw [front]
      exact turn

theorem call (served : Served chain count s) (positive : 0 < count) (few : s.calls.length < UInt64.size)
    (request : Request) : Served chain count (s.call request) := by
  obtain ⟨rfl, rfl, _, _⟩ := id served
  rw [Service.call]
  obtain ⟨sent, passes⟩ | ⟨interruption, stops⟩ :=
    passes_or_stops s.invoker.chain.before request.resolveTimeout
  · -- so few turns were taken that none is lost in their number
    have counted : 2 ≤ s.invoker.replicas.length →
        s.invoker.balancer.turns.toNat = (chosen s.calls).length := by
      intro choice
      rw [served.turns choice]
      exact UInt64.toNat_ofNat_of_lt (Nat.lt_of_le_of_lt (length_chosen_le _) few)
    obtain ⟨replica, turned, selected, next, one⟩ :=
      RoundRobin.exists_select positive s.invoker.balancer counted
    rw [dispatch_of_passes passes selected]
    refine served.concat rfl rfl one ⟨fun passes' => ?_, fun stops => ?_⟩
    · rw [eq_of_passes passes' passes, ← next]
    · exact absurd stops (not_stops_of_passes passes)
  · rw [dispatch_of_stops stops]
    refine served.concat rfl rfl (fun _ => (UInt64.add_zero _).symm) ⟨fun passes => ?_, fun stops' => ?_⟩
    · exact absurd stops (not_stops_of_passes passes)
    · rw [eq_of_stops stops' stops]

theorem answer (served : Served chain count s) (n : Nat) (result : Except Interruption Response) :
    Served chain count (s.answer n result) := by
  have same := map_dispatched_answer s n result
  refine ⟨served.sameChain, served.sameCount, fun choice => ?_, fun {m call} found => ?_⟩
  · rw [chosen, same]
    exact served.turns choice
  · have earlier : chosen ((s.answer n result).calls.take m) = chosen (s.calls.take m) := by
      rw [chosen, chosen, List.map_take, List.map_take, same]
    rw [Service.answer, List.getElem?_modify] at found
    obtain ⟨old, here, rfl⟩ := Option.map_eq_some_iff.mp found
    have turn := served.turn here
    have kept : Turn chain count ((s.answer n result).calls.take m) old :=
      ⟨fun passes => earlier ▸ turn.passed passes, turn.stopped⟩
    split
    · constructor
      · rw [Call.request_answered, Call.dispatched_answered]
        exact kept.passed
      · rw [Call.request_answered, Call.dispatched_answered]
        exact kept.stopped
    · exact kept

theorem work (served : Served chain count s) (replica : Nat) (change : κ → κ) :
    Served chain count (s.work replica change) where
  sameChain := served.sameChain
  sameCount := (List.length_modify _ _ _).trans served.sameCount
  turns := served.turns
  turn := served.turn

theorem step (served : Served chain count s) (positive : 0 < count) (few : s.calls.length < UInt64.size)
    (event : Service.Event κ) : Served chain count (s.step event) := by
  cases event with
  | call request => exact served.call positive few request
  | answer n result => exact served.answer n result
  | work replica change => exact served.work replica change

end Served

theorem length_calls_step_le (s : Service κ) (event : Service.Event κ) :
    s.calls.length ≤ (s.step event).calls.length := by
  cases event with
  | call request =>
    simp only [Service.step, Service.call]
    split <;> simp
  | answer n result => exact Nat.le_of_eq (List.length_modify _ _ _).symm
  | work replica change => exact Nat.le_refl _

theorem length_calls_run_le (s : Service κ) (events : List (Service.Event κ)) :
    s.calls.length ≤ (s.run events).calls.length := by
  induction events generalizing s with
  | nil => exact Nat.le_refl _
  | cons event events ih => exact Nat.le_trans (length_calls_step_le s event) (ih (s.step event))

theorem Served.run (served : Served chain count s) (positive : 0 < count)
    (events : List (Service.Event κ)) (few : (s.run events).calls.length < UInt64.size) :
    Served chain count (s.run events) := by
  induction events generalizing s with
  | nil => exact served
  | cons event events ih =>
    have early : s.calls.length < UInt64.size :=
      Nat.lt_of_le_of_lt (length_calls_run_le s (event :: events)) few
    exact ih (served.step positive early event) few

theorem served_new (invoker : Invoker κ) (fresh : invoker.balancer = {}) :
    Served invoker.chain invoker.replicas.length { invoker } where
  sameChain := rfl
  sameCount := rfl
  turns _ := by
    rw [fresh]
    rfl
  turn := nofun

/-! ### Shares -/

/-- Choices by turn go round. -/
theorem Served.chosen_eq (served : Served chain count s) :
    chosen s.calls = (List.range' 0 (chosen s.calls).length).map (· % count) := by
  have turn : ∀ {n : Nat} {call : Call}, s.calls[n]? = some call → ∀ {replica},
      replicaOf? call.dispatched = some replica → replica = (chosen (s.calls.take n)).length % count := by
    intro n call found replica chose
    obtain ⟨sent, passes⟩ | ⟨interruption, stops⟩ := passes_or_stops chain.before call.request.resolveTimeout
    · rw [(served.turn found).passed passes] at chose
      exact (Option.some.inj chose).symm
    · rw [(served.turn found).stopped stops] at chose
      cases chose
  generalize s.calls = calls at turn
  induction calls using List.reverseRecOn with
  | nil => rfl
  | append_singleton calls call ih =>
    have earlier := ih fun {n} {call'} found {replica} chose => by
      have bound := (List.getElem?_eq_some_iff.mp found).1
      have again := turn (n := n) ((List.getElem?_append_left bound).trans found) chose
      rwa [List.take_append_of_le_length (Nat.le_of_lt bound)] at again
    have last : ∀ {replica}, replicaOf? call.dispatched = some replica →
        replica = (chosen calls).length % count := by
      intro replica chose
      have again := turn (n := calls.length) (by simp) chose
      rwa [List.take_left] at again
    rw [chosen_concat]
    cases chose : replicaOf? call.dispatched with
    | none => simpa using earlier
    | some replica =>
      rw [last chose, Option.toList_some, List.length_append, List.length_singleton, ← List.range'_append_1,
        List.map_append, ← earlier, Nat.zero_add]
      rfl

/-- As many choices in a row as there are replicas, or a multiple of it, give each the same share. -/
theorem count_window {r : Nat} (bound : r < count) (start k : Nat) :
    ((List.range' start (k * count)).map (· % count)).count r = k := by
  have positive : 0 < count := Nat.zero_lt_of_lt bound
  have periodic : Function.Periodic (· ≡ r [MOD count]) (k * count) := by
    intro j
    simp [Nat.ModEq]
  have interval : Multiset.Ico start (start + k * count) = ↑(List.range' start (k * count)) := by
    show Multiset.ofList _ = _
    rw [Nat.add_sub_cancel_left]
  have counted := Nat.filter_multiset_Ico_card_eq_of_periodic start (k * count) _ periodic
  rw [interval, Multiset.filter_coe, Multiset.coe_card, ← List.countP_eq_length_filter,
    Nat.count_modEq_card _ positive, if_neg (by simp), Nat.mul_div_cancel _ positive] at counted
  rw [List.count, List.countP_map]
  refine (List.countP_congr fun j _ => ?_).trans counted
  simp [Nat.ModEq, Nat.mod_eq_of_lt bound]

/-- The calls of an invoker take turns. -/
structure Fair (chain : Callback.Chain) (count : Nat) (calls : List Call) : Prop where
  turn : ∀ {n : Nat} {call : Call}, calls[n]? = some call → Turn chain count (calls.take n) call
  order : ∀ {j replica : Nat}, (chosen calls)[j]? = some replica → replica = j % count
  share : ∀ {start k replica : Nat}, start + k * count ≤ (chosen calls).length → replica < count →
    (((chosen calls).drop start).take (k * count)).count replica = k
  inRange : ∀ replica ∈ chosen calls, replica < count

theorem Served.fair (served : Served chain count s) (positive : 0 < count) : Fair chain count s.calls := by
  have order : ∀ {j replica : Nat}, (chosen s.calls)[j]? = some replica → replica = j % count := by
    intro j replica found
    rw [served.chosen_eq, List.getElem?_map] at found
    obtain ⟨j', here, rfl⟩ := Option.map_eq_some_iff.mp found
    obtain ⟨_, rfl⟩ := List.getElem?_eq_some_iff.mp here
    simp
  refine ⟨served.turn, order, fun {start k replica} fits bound => ?_, fun replica member => ?_⟩
  · rw [served.chosen_eq, ← List.map_drop, ← List.map_take, List.drop_range', Nat.mul_one,
      List.take_range'_of_length_ge (by omega), count_window bound]
  · obtain ⟨j, found⟩ := List.mem_iff_getElem?.mp member
    rw [order found]
    exact Nat.mod_lt _ positive

/-- Whatever becomes of the calls of an invoker, and however they overlap, those that get past the callbacks
go to one replica after the other. -/
theorem calls_take_turns (invoker : Invoker κ) (events : List (Service.Event κ))
    (fresh : invoker.balancer = {}) (positive : 0 < invoker.replicas.length)
    (few : (({ invoker } : Service κ).run events).calls.length < UInt64.size) :
    Fair invoker.chain invoker.replicas.length (({ invoker } : Service κ).run events).calls :=
  ((served_new invoker fresh).run positive events few).fair positive

section

variable {σ : Type} {state state' : σ} {channels : Channel.Registry σ κ} {callbacks : Callback.Registry}
  {context : Channel.Context} {settings : InvokerSettings} {invoker : Invoker κ}

/-- So do the calls of an invoker with these settings, over as many replicas as they ask for. -/
theorem fair_of_ofSettings
    (built : (ofSettings channels callbacks context settings).run state = (.ok invoker, state'))
    (events : List (Service.Event κ))
    (few : (({ invoker } : Service κ).run events).calls.length < UInt64.size) :
    Fair invoker.chain settings.replicaCount (({ invoker } : Service κ).run events).calls := by
  have positive : 0 < invoker.replicas.length := List.length_pos_iff.mpr (replicas_ne_nil_of_ofSettings built)
  have served := (served_new invoker (balancer_of_ofSettings built)).run positive events few
  rw [← length_of_ofSettings built]
  exact served.fair positive

end

/-- Requests without a method are refused, and one method is too much. -/
def touchy : Callback.Chain where
  before := [("touchy", fun request =>
    if request.method = "" then .error (.failed .missingChannel)
    else if request.method = "crash" then .error (.panicked none)
    else .ok request)]

/-- Calls over three replicas that fail, crash and overlap. -/
def roughDay : List (Service.Event Unit) :=
  [.call { method := "first" }, .call {}, .call { method := "second" }, .answer 0 (.error (.panicked none)),
    .call { method := "crash" }, .call { method := "third" }, .answer 2 (.error (.failed .missingChannel)),
    .call { method := "fourth" }, .answer 6 (.ok {}), .answer 5 (.ok {})]

theorem rough_day_takes_turns :
    Fair touchy 3 (({ invoker := ⟨touchy, [(), (), ()], {}⟩ } : Service Unit).run roughDay).calls ∧
      chosen (({ invoker := ⟨touchy, [(), (), ()], {}⟩ } : Service Unit).run roughDay).calls =
        [0, 1, 2, 0] := by
  have few : (({ invoker := ⟨touchy, [(), (), ()], {}⟩ } : Service Unit).run roughDay).calls.length <
      UInt64.size := by
    decide +kernel
  exact ⟨calls_take_turns ⟨touchy, [(), (), ()], {}⟩ roughDay rfl (by decide) few, by decide +kernel⟩

end RpcClient.Invoker
