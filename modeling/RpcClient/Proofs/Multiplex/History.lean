import RpcClient.Proofs.Multiplex.Ledger

/-! Runs of a channel together with what was seen on the way. What the remotes send is arbitrary, and
so is the order of the steps. -/
namespace RpcClient.Multiplex

/-- A channel after a run, with what was seen of the run. -/
structure History where
  channel : Channel
  /-- The requests, in the order of their calls. -/
  requests : List Request := []
  /-- The responses that readers took off their buffers, in order. -/
  responses : List Frame := []
  /-- The calls that were handed a response, each with the response, in order. -/
  handed : List (Nat × Frame) := []

namespace History

/-- Takes a step, and takes note of what it does. -/
def step (h : History) (event : Event) : History where
  channel := h.channel.step event
  requests := h.requests ++ event.request?.toList
  responses := h.responses ++ (h.channel.response? event).toList
  handed := h.handed ++ (h.channel.handed? event).toList

/-- The run that takes steps in turn, from a channel without calls. -/
def ofRun (codec : Codec) (events : List Event) : History :=
  events.foldl step { channel := .new codec }

variable {codec : Codec}

/-- What holds of a channel without calls and is kept by every step holds after every run. -/
theorem ofRun_invariant {P : History → Prop} (initial : P { channel := .new codec })
    (preserves : ∀ h event, P h → P (h.step event)) (events : List Event) :
    P (ofRun codec events) :=
  List.foldlRecOn events step initial fun h holds event _ => preserves h event holds

theorem ofRun_append (events later : List Event) :
    ofRun codec (events ++ later) = later.foldl step (ofRun codec events) :=
  List.foldl_append

theorem channel_ofRun (events : List Event) :
    (ofRun codec events).channel = (Channel.new codec).run events := by
  have run : ∀ h : History, (events.foldl step h).channel = h.channel.run events := by
    induction events with
    | nil => exact fun _ => rfl
    | cons event rest ih => exact fun h => ih (h.step event)
  exact run _

theorem channel_ofRun_append (events later : List Event) :
    (ofRun codec (events ++ later)).channel = (ofRun codec events).channel.run later := by
  rw [channel_ofRun, channel_ofRun, Channel.run, List.foldl_append]
  rfl

theorem ofRun_concat (events : List Event) (event : Event) :
    ofRun codec (events ++ [event]) = (ofRun codec events).step event :=
  ofRun_append events [event]

theorem requests_ofRun (events : List Event) :
    (ofRun codec events).requests = events.filterMap Event.request? := by
  have run : ∀ h : History, (events.foldl step h).requests =
      h.requests ++ events.filterMap Event.request? := by
    induction events with
    | nil => exact fun h => (List.append_nil _).symm
    | cons event rest ih =>
      intro h
      rw [List.foldl_cons, ih, List.filterMap_cons, step]
      cases event.request? <;> simp
  exact (run { channel := .new codec }).trans (List.nil_append _)

end History
end RpcClient.Multiplex
