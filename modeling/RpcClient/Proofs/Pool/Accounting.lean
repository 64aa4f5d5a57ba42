import RpcClient.Proofs.Pool.Places

/-! The places that are taken are those of the callers that hold connections, have just parted with one, or are
about to get one. A caller that ends gives its place back once, or never had one. -/
namespace RpcClient.Pool

variable {κ σ : Type} {p p' : Pool κ σ} {event : Event κ} {g m : Nat} {old new phase : Phase}

/-- A caller gives one place back. It is left over, or the caller that waits longest gets it. -/
inductive GivesBack (p p' : Pool κ σ) (g : Nat) : Prop where
  | leftOver : p.queue = [] → p'.queue = [] → p'.available = p.available + 1 →
      (∀ m, m ≠ g → p'.gets[m]? = p.gets[m]?) → GivesBack p p' g
  | passedOn {next : Nat} : p.queue = next :: p'.queue → p'.available = p.available →
      p.gets[next]? = some .queued → p'.gets[next]? = some .granted →
      (∀ m, m ≠ g → m ≠ next → p'.gets[m]? = p.gets[m]?) → GivesBack p p' g

/-- A caller leaves the queue, and the places stay where they are. -/
structure Leaves (p p' : Pool κ σ) (g : Nat) : Prop where
  queue : p'.queue = p.queue.filter (· != g)
  available : p'.available = p.available
  others : ∀ m, m ≠ g → p'.gets[m]? = p.gets[m]?

/-- Only a caller that waits is touched when a place is given back: it may get it. -/
theorem Orderly.getElem?_release (orderly : Orderly p) (here : p.gets[m]? = some phase) :
    p.release.gets[m]? = some phase ∨ (phase = .queued ∧ p.release.gets[m]? = some .granted) := by
  simp only [Pool.release]
  split
  · exact .inl here
  · next g queue head =>
    have waits : p.gets[g]? = some .queued := orderly.mem_queue.mp (by simp [head])
    by_cases first : m = g
    · subst first
      have served : ({ p with queue }.setPhase m .granted).gets[m]? = some .granted :=
        getElem?_setPhase_self waits
      exact .inr ⟨Option.some.inj (here.symm.trans waits), served⟩
    · exact .inl ((getElem?_setPhase_of_ne first).trans here)

theorem Orderly.givesBack (orderly : Orderly p) (here : p.gets[g]? = some old) (busy : old ≠ .queued) :
    GivesBack p (p.setPhase g new).release g := by
  have others : ∀ m, m ≠ g → (p.setPhase g new).gets[m]? = p.gets[m]? :=
    fun m other => getElem?_setPhase_of_ne other
  simp only [Pool.release]
  split
  · next empty => exact .leftOver empty empty rfl others
  · next next queue head =>
    have first : next ∈ p.queue := List.mem_of_mem_head? (congrArg List.head? head)
    have waits : p.gets[next]? = some .queued := orderly.mem_queue.mp first
    -- the one that is served waited, and so is not the one that ends
    have other : next ≠ g := by
      rintro rfl
      exact busy (Option.some.inj (here.symm.trans waits))
    refine .passedOn head rfl waits ?_ fun m fresh fresh' => ?_
    · exact getElem?_setPhase_self ((others next other).trans waits)
    · exact (getElem?_setPhase_of_ne fresh').trans (others m fresh)

namespace Move

/-- A caller whose stay ends leaves the queue or gives its place back. -/
theorem ended (move : Move p event p') (caller : event.caller? = some g) (here : p.gets[g]? = some old)
    (outcome : event.outcome? old = some new) :
    (old = .queued ∧ p' = (p.leaveQueue g).setPhase g new) ∨
      (old.hasPlace = true ∧ p' = (p.setPhase g new).release) := by
  cases move with
  | stay idle => cases (idle caller here).symm.trans outcome
  | enter _ => cases caller
  | wait _ => cases caller
  | advance caller' here' _ idle _ _ =>
    obtain rfl := Option.some.inj (caller.symm.trans caller')
    obtain rfl := Option.some.inj (here.symm.trans here')
    cases idle.symm.trans outcome
  | leave caller' here' outcome' =>
    obtain rfl := Option.some.inj (caller.symm.trans caller')
    obtain rfl := Option.some.inj (here.symm.trans here')
    obtain rfl := Option.some.inj (outcome.symm.trans outcome')
    exact .inl ⟨rfl, rfl⟩
  | giveBack caller' here' outcome' place =>
    obtain rfl := Option.some.inj (caller.symm.trans caller')
    obtain rfl := Option.some.inj (here.symm.trans here')
    obtain rfl := Option.some.inj (outcome.symm.trans outcome')
    exact .inr ⟨place, rfl⟩

/-- A caller whose stay does not end stays where it is or goes on with its place. -/
theorem goesOn (move : Move p event p') (caller : event.caller? = some g) (here : p.gets[g]? = some old)
    (idle : event.outcome? old = none) :
    p'.gets[g]? = some old ∨
      (old.hasPlace = true ∧ ∃ new, p'.gets[g]? = some new ∧ new.hasPlace = true) := by
  cases move with
  | stay _ => exact .inl here
  | enter _ => cases caller
  | wait _ => cases caller
  | @advance _ g' old' new' free conns caller' here' _ _ before after =>
    obtain rfl := Option.some.inj (caller.symm.trans caller')
    obtain rfl := Option.some.inj (here.symm.trans here')
    have there : ({ p with free, conns }.setPhase g new').gets[g]? = some new' :=
      getElem?_setPhase_self here
    exact .inr ⟨before, new', there, after⟩
  | leave caller' here' outcome =>
    obtain rfl := Option.some.inj (caller.symm.trans caller')
    obtain rfl := Option.some.inj (here.symm.trans here')
    cases idle.symm.trans outcome
  | giveBack caller' here' outcome _ =>
    obtain rfl := Option.some.inj (caller.symm.trans caller')
    obtain rfl := Option.some.inj (here.symm.trans here')
    cases idle.symm.trans outcome

/-- A caller stays where it is until an event acts on it. -/
theorem unmoved (move : Move p event p') (caller : event.caller? = some g) (here : p.gets[g]? = some old)
    (idle : event.acts old = false) : p'.gets[g]? = some old := by
  cases move with
  | stay _ => exact here
  | enter _ => cases caller
  | wait _ => cases caller
  | advance caller' here' acts _ _ _ =>
    obtain rfl := Option.some.inj (caller.symm.trans caller')
    obtain rfl := Option.some.inj (here.symm.trans here')
    cases idle.symm.trans acts
  | leave caller' here' outcome =>
    obtain rfl := Option.some.inj (caller.symm.trans caller')
    obtain rfl := Option.some.inj (here.symm.trans here')
    cases idle.symm.trans (Event.acts_of_outcome? outcome)
  | giveBack caller' here' outcome _ =>
    obtain rfl := Option.some.inj (caller.symm.trans caller')
    obtain rfl := Option.some.inj (here.symm.trans here')
    cases idle.symm.trans (Event.acts_of_outcome? outcome)

theorem leaves (move : Move p event p') (caller : event.caller? = some g)
    (here : p.gets[g]? = some .queued) (outcome : event.outcome? .queued = some new) :
    p'.gets[g]? = some new ∧ Leaves p p' g := by
  obtain ⟨_, rfl⟩ | ⟨place, _⟩ := move.ended caller here outcome
  · have there : ((p.leaveQueue g).setPhase g new).gets[g]? = some new := getElem?_setPhase_self here
    exact ⟨there, rfl, rfl, fun m other => getElem?_setPhase_of_ne other⟩
  · cases place

end Move

namespace Balanced

/-- A step leaves the callers alone that it is not about, but one that waits may get a place. -/
theorem bystander (balanced : Balanced p) (move : Move p event p') (here : p.gets[m]? = some phase)
    (other : event.caller? ≠ some m) :
    p'.gets[m]? = some phase ∨ (phase = .queued ∧ p'.gets[m]? = some .granted) := by
  have apart : ∀ {g}, event.caller? = some g → m ≠ g := by
    rintro g caller rfl
    exact other caller
  cases move with
  | stay _ => exact .inl here
  | enter _ => exact .inl (getElem?_join here)
  | wait _ => exact .inl (getElem?_join here)
  | advance caller _ _ _ _ _ => exact .inl ((getElem?_setPhase_of_ne (apart caller)).trans here)
  | leave caller _ _ => exact .inl ((getElem?_setPhase_of_ne (apart caller)).trans here)
  | @giveBack _ g old new caller here' outcome place =>
    have orderly : Orderly (p.setPhase g new) :=
      balanced.setPhase here' (Phase.ne_queued_of_hasPlace place) (Event.ne_queued_of_outcome? outcome)
    exact orderly.getElem?_release ((getElem?_setPhase_of_ne (apart caller)).trans here)

theorem givesBack (balanced : Balanced p) (move : Move p event p') (caller : event.caller? = some g)
    (here : p.gets[g]? = some old) (place : old.hasPlace = true)
    (outcome : event.outcome? old = some new) : p'.gets[g]? = some new ∧ GivesBack p p' g := by
  obtain ⟨rfl, _⟩ | ⟨_, rfl⟩ := move.ended caller here outcome
  · cases place
  · have busy := Phase.ne_queued_of_hasPlace place
    have finished := Event.ne_queued_of_outcome? outcome
    have orderly : Orderly (p.setPhase g new) := balanced.setPhase here busy finished
    have there : (p.setPhase g new).gets[g]? = some new := getElem?_setPhase_self here
    obtain same | ⟨waits, _⟩ := orderly.getElem?_release there
    · exact ⟨same, balanced.toOrderly.givesBack here busy⟩
    · exact (finished waits).elim

theorem keeps (balanced : Balanced p) (move : Move p event p') (here : p.gets[g]? = some old)
    (place : old.hasPlace = true) (idle : event.caller? = some g → event.outcome? old = none) :
    ∃ new, p'.gets[g]? = some new ∧ new.hasPlace = true := by
  by_cases caller : event.caller? = some g
  · obtain same | ⟨_, moved⟩ := move.goesOn caller here (idle caller)
    · exact ⟨old, same, place⟩
    · exact moved
  · obtain same | ⟨rfl, _⟩ := balanced.bystander move here caller
    · exact ⟨old, same, place⟩
    · cases place

theorem waits (balanced : Balanced p) (move : Move p event p') (here : p.gets[g]? = some .queued)
    (idle : event.caller? = some g → event.outcome? .queued = none) :
    p'.gets[g]? = some .queued ∨ p'.gets[g]? = some .granted := by
  by_cases caller : event.caller? = some g
  · obtain same | ⟨place, _⟩ := move.goesOn caller here (idle caller)
    · exact .inl same
    · cases place
  · exact (balanced.bystander move here caller).imp_right And.right

theorem stays (balanced : Balanced p) (move : Move p event p') (here : p.gets[g]? = some phase)
    (finished : phase.isOver = true) : p'.gets[g]? = some phase := by
  by_cases caller : event.caller? = some g
  · exact move.unmoved caller here (Event.not_acts_of_isOver finished)
  · obtain same | ⟨rfl, _⟩ := balanced.bystander move here caller
    · exact same
    · cases finished

/-- A caller with a place stays where it is until an event moves it. -/
theorem unmoved [Inhabited σ] (balanced : Balanced p) (here : p.gets[g]? = some phase)
    (place : phase.hasPlace = true) (idle : event.caller? = some g → event.acts phase = false) :
    (p.step event).gets[g]? = some phase := by
  by_cases caller : event.caller? = some g
  · exact (p.step_move event).unmoved caller here (idle caller)
  · obtain same | ⟨rfl, -⟩ := balanced.bystander (p.step_move event) here caller
    · exact same
    · cases place

theorem stays_run [Inhabited σ] (balanced : Balanced p) (events : List (Event κ))
    (here : p.gets[g]? = some phase) (finished : phase.isOver = true) :
    (p.run events).gets[g]? = some phase := by
  induction events generalizing p with
  | nil => exact here
  | cons event events ih =>
    exact ih (balanced.move (p.step_move event)) (balanced.stays (p.step_move event) here finished)

theorem active_add_available (balanced : Balanced p) : p.active + p.available = p.maxActive := by
  have places := balanced.places
  rw [active]
  omega

theorem active_eq (balanced : Balanced p) : p.active = p.gets.countP Phase.hasPlace := by
  have places := balanced.places
  rw [active]
  omega

end Balanced

/-- The size and the handler of a pool are fixed. -/
theorem Move.fixed (move : Move p event p') : p'.maxActive = p.maxActive ∧ p'.handler = p.handler := by
  cases move with
  | giveBack _ _ _ _ =>
    simp only [release]
    split <;> exact ⟨rfl, rfl⟩
  | _ => exact ⟨rfl, rfl⟩

theorem maxActive_step [Inhabited σ] (p : Pool κ σ) (event : Event κ) :
    (p.step event).maxActive = p.maxActive :=
  (p.step_move event).fixed.1

theorem handler_step [Inhabited σ] (p : Pool κ σ) (event : Event κ) : (p.step event).handler = p.handler :=
  (p.step_move event).fixed.2

theorem maxActive_run [Inhabited σ] (p : Pool κ σ) (events : List (Event κ)) :
    (p.run events).maxActive = p.maxActive := by
  induction events generalizing p with
  | nil => rfl
  | cons event events ih => exact (ih (p.step event)).trans (p.maxActive_step event)

theorem handler_run [Inhabited σ] (p : Pool κ σ) (events : List (Event κ)) : (p.run events).handler = p.handler := by
  induction events generalizing p with
  | nil => rfl
  | cons event events ih => exact (ih (p.step event)).trans (p.handler_step event)

/-- The places of a pool of the given size are accounted for, now and whatever happens next. -/
structure Accounted [Inhabited σ] (size : Nat) (p : Pool κ σ) : Prop where
  places : p.active + p.available = max size 1
  /-- A place is taken by a caller that holds a connection or has just parted with it, or by one that is about to
  get one. -/
  active : p.active =
    p.gets.countP Phase.isHolding + p.gets.countP Phase.isParted + p.gets.countP Phase.isSeeking
  bounded : p.active ≤ max size 1
  /-- Once nobody has a place, none is taken, and nobody is left waiting. -/
  idle : (∀ phase ∈ p.gets, phase.isHolding = false ∧ phase.isParted = false ∧ phase.isSeeking = false) →
    p.active = 0 ∧ p.queue = []
  /-- A caller that puts or drops its connection has parted with it, and only gives its place back any more. -/
  parts : ∀ {g c : Nat}, p.gets[g]? = some (.holding c) →
    (∀ discard, (p.step (.put g discard)).gets[g]? = some .parted) ∧ (p.step (.drop g)).gets[g]? = some .parted
  parted : ∀ {event g}, p.gets[g]? = some .parted → event ≠ .giveBack g → (p.step event).gets[g]? = some .parted
  /-- A caller with a place that fails, drops out or gives its place back gives back one place. -/
  givesBack : ∀ {event g old new}, event.caller? = some g → p.gets[g]? = some old →
    old.hasPlace = true → event.outcome? old = some new →
    new.isOver = true ∧ (p.step event).gets[g]? = some new ∧ GivesBack p (p.step event) g
  /-- A caller that fails or drops out while it waits takes none. -/
  leaves : ∀ {event g new}, event.caller? = some g → p.gets[g]? = some .queued →
    event.outcome? .queued = some new →
    new.isOver = true ∧ (p.step event).gets[g]? = some new ∧ Leaves p (p.step event) g
  /-- A caller does not lose its place in any other way. -/
  keeps : ∀ {event g old}, p.gets[g]? = some old → old.hasPlace = true →
    (event.caller? = some g → event.outcome? old = none) →
    ∃ new, (p.step event).gets[g]? = some new ∧ new.hasPlace = true
  /-- A caller that waits gets a place or goes on waiting, otherwise. -/
  waits : ∀ {event g}, p.gets[g]? = some .queued →
    (event.caller? = some g → event.outcome? .queued = none) →
    (p.step event).gets[g]? = some .queued ∨ (p.step event).gets[g]? = some .granted
  /-- Nothing more happens to a caller that has come to its end. -/
  final : ∀ {g : Nat} {phase : Phase}, p.gets[g]? = some phase → phase.isOver = true →
    ∀ later, (p.run later).gets[g]? = some phase

theorem parted_of_parts [Inhabited σ] {c : Nat} (here : p.gets[g]? = some (.holding c)) :
    (∀ discard, (p.step (.put g discard)).gets[g]? = some .parted) ∧ (p.step (.drop g)).gets[g]? = some .parted := by
  have closed : ((p.closeConn c).setPhase g .parted).gets[g]? = some .parted :=
    getElem?_setPhase_self (p := p.closeConn c) here
  refine ⟨fun discard => ?_, ?_⟩
  · simp only [step, put, here]
    split
    · exact closed
    · exact getElem?_setPhase_self (p := { p with free := c :: p.free }) here
  · simp only [step, drop, here]
    exact closed

theorem Event.not_acts_parted {event : Event κ} (other : event ≠ .giveBack g) (caller : event.caller? = some g) :
    event.acts .parted = false := by
  cases event with
  | giveBack m =>
    cases caller
    exact absurd rfl other
  | _ => rfl

/-- In every run of a pool its places are accounted for. -/
theorem accounted_run [Inhabited σ] (size : Nat) (handler : Option (Handler σ))
    (events : List (Event κ)) : Accounted size ((Pool.new size handler : Pool κ σ).run events) := by
  have balanced : Balanced ((Pool.new size handler : Pool κ σ).run events) :=
    (balanced_new size handler).run events
  have maxActive : ((Pool.new size handler : Pool κ σ).run events).maxActive = max size 1 :=
    maxActive_run _ events
  generalize (Pool.new size handler : Pool κ σ).run events = p at balanced maxActive
  have total : p.active + p.available = max size 1 :=
    balanced.active_add_available.trans maxActive
  refine ⟨total, ?_, ?_, ?_, parted_of_parts, ?_, ?_, ?_, ?_, ?_, ?_⟩
  · rw [balanced.active_eq, Phase.countP_hasPlace]
  · omega
  · intro none
    have unused : p.active = 0 := by
      rw [balanced.active_eq, List.countP_eq_zero]
      intro phase member
      simp [Phase.hasPlace, none phase member]
    refine ⟨unused, ?_⟩
    cases queue : p.queue with
    | nil => rfl
    | cons g rest =>
      have full : p.available = 0 := balanced.eager (by simp [queue])
      omega
  · intro event g here other
    exact balanced.unmoved here rfl (Event.not_acts_parted other)
  · intro event g old new caller here place outcome
    exact ⟨Event.isOver_of_outcome? outcome,
      balanced.givesBack (p.step_move event) caller here place outcome⟩
  · intro event g new caller here outcome
    exact ⟨Event.isOver_of_outcome? outcome, (p.step_move event).leaves caller here outcome⟩
  · intro event g old here place idle
    exact balanced.keeps (p.step_move event) here place idle
  · intro event g here idle
    exact balanced.waits (p.step_move event) here idle
  · intro g phase here finished later
    exact balanced.stays_run later here finished

/-- The only place goes from a caller that is too late to connect to the one behind it. -/
example :
    ((Pool.new 0 none : Pool Nat Unit).run [.get, .resume 0, .pick 0, .get, .deadline 0]).gets =
      [.failed .poolTimeout, .granted] := rfl

end RpcClient.Pool
