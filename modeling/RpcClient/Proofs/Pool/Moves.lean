import RpcClient.Proofs.Pool.Acts

/-! What a step does to the callers of a pool and to its places. Connections come and go beside that: who
has a place does not depend on them. -/
namespace RpcClient.Pool

variable {κ σ : Type}

/-- What a step does to the callers and to the places. -/
inductive Move (p : Pool κ σ) : Event κ → Pool κ σ → Prop where
  /-- Callers and places stay as they are. -/
  | stay {event : Event κ} {free : List Nat} {conns : List (Connection κ σ)} :
      (∀ {g old}, event.caller? = some g → p.gets[g]? = some old → event.outcome? old = none) →
      Move p event { p with free, conns }
  /-- A caller comes and gets a place. -/
  | enter : 0 < p.available →
      Move p .get { p with available := p.available - 1, gets := p.gets ++ [.granted] }
  /-- A caller comes while no place is left. -/
  | wait : p.available = 0 →
      Move p .get { p with queue := p.queue ++ [p.gets.length], gets := p.gets ++ [.queued] }
  /-- A caller goes on with the place that it has. -/
  | advance {event : Event κ} {g : Nat} {old new : Phase} {free : List Nat}
      {conns : List (Connection κ σ)} :
      event.caller? = some g → p.gets[g]? = some old → event.acts old = true →
      event.outcome? old = none → old.hasPlace = true → new.hasPlace = true →
      Move p event ({ p with free, conns }.setPhase g new)
  /-- A caller gives up waiting. -/
  | leave {event : Event κ} {g : Nat} {new : Phase} :
      event.caller? = some g → p.gets[g]? = some .queued → event.outcome? .queued = some new →
      Move p event ((p.leaveQueue g).setPhase g new)
  /-- A caller gives its place back. -/
  | giveBack {event : Event κ} {g : Nat} {old new : Phase} :
      event.caller? = some g → p.gets[g]? = some old → event.outcome? old = some new →
      old.hasPlace = true → Move p event (p.setPhase g new).release

variable {p p' : Pool κ σ} {event : Event κ}

/-- An event that changes a connection where it is does not end what a caller does. -/
theorem Inside.outcome? {c : Nat} {f : Connection κ σ → Connection κ σ} (inside : Inside p event c f)
    (phase : Phase) : event.outcome? phase = none := by
  cases inside with
  | halt _ _ halts => cases halts <;> rfl
  | _ => rfl

theorem Act.move [Inhabited σ] (act : Act p event p') : Move p event p' := by
  cases act with
  | rest idle => exact .stay fun caller here => Event.outcome?_of_not_acts (acts_of_finds idle caller here)
  | enter left => exact .enter left
  | wait none => exact .wait none
  | resume here => exact .advance rfl here rfl rfl rfl rfl
  | take here _ _ => exact .advance rfl here rfl rfl rfl rfl
  | shed _ _ _ => exact .stay fun _ _ => rfl
  | dial here _ => exact .advance rfl here rfl rfl rfl rfl
  | connect here => exact .advance rfl here rfl rfl rfl rfl
  | leave caller here outcome => exact .leave caller here outcome
  | giveBack caller here outcome place => exact .giveBack caller here outcome place
  | keep here _ _ => exact .advance rfl here rfl rfl rfl rfl
  | discard here discards => cases discards <;> exact .advance rfl here rfl rfl rfl rfl
  | inside inside => exact .stay fun _ _ => inside.outcome? _

theorem step_move [Inhabited σ] (p : Pool κ σ) (event : Event κ) : Move p event (p.step event) :=
  (p.step_act event).move

end RpcClient.Pool
