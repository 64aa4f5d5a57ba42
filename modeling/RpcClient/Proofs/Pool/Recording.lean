import RpcClient.Proofs.Pool.Readers

/-! A handler that takes notes of what it is told about each connection. A pool with it does what it does with the
handler alone, whatever that handler is. -/
namespace RpcClient.Pool

/-- A call of a handler. -/
inductive Call where
  /-- It saw some bytes and left some of them, or others, and it may have refused them. -/
  | data (seen left : Bytes) (refusal : Option Failure)
  | close (failure : Failure)

variable {κ σ : Type}

namespace Handler

/-- The handler with the calls for a connection, in their order, beside what it remembers. -/
def recorded (handler : Handler σ) : Handler (σ × List Call) where
  onData buffer memory :=
    let (left, state, refusal) := handler.onData buffer memory.1
    (left, (state, memory.2 ++ [.data buffer left refusal]), refusal)
  onClose failure memory := (handler.onClose failure memory.1, memory.2 ++ [.close failure])

end Handler

/-- The connection without the notes. -/
def Connection.unrecorded (conn : Connection κ (σ × List Call)) : Connection κ σ where
  content := conn.content
  state := conn.state.1
  closed := conn.closed
  reader := conn.reader
  buffer := conn.buffer

/-- The pool with the handler alone, and without notes. -/
def unrecorded (handler : Handler σ) (p : Pool κ (σ × List Call)) : Pool κ σ where
  maxActive := p.maxActive
  handler := some handler
  available := p.available
  queue := p.queue
  free := p.free
  gets := p.gets
  conns := p.conns.map Connection.unrecorded

variable {handler : Handler σ} {p : Pool κ (σ × List Call)}

@[simp] theorem gets_unrecorded : (p.unrecorded handler).gets = p.gets := rfl

theorem Connection.unrecorded_feed (bytes : Bytes) (conn : Connection κ (σ × List Call)) :
    (conn.feed handler.recorded bytes).unrecorded = conn.unrecorded.feed handler bytes := by
  rcases taken : handler.onData (conn.buffer ++ bytes) conn.state.1 with ⟨buffer, state, refusal⟩
  cases refusal <;> simp only [feed, Handler.recorded, unrecorded, taken, halt]

theorem isClosed_unrecorded (c : Nat) : (p.unrecorded handler).isClosed c = p.isClosed c := by
  rw [isClosed, unrecorded, List.getElem?_map, isClosed]
  cases p.conns[c]? <;> rfl

theorem reader_unrecorded (c : Nat) : (p.unrecorded handler).reader c = p.reader c := by
  rw [reader, unrecorded, List.getElem?_map, reader]
  cases p.conns[c]? <;> rfl

theorem unrecorded_modifyConn {f : Connection κ (σ × List Call) → Connection κ (σ × List Call)}
    {f' : Connection κ σ → Connection κ σ} (same : ∀ conn, (f conn).unrecorded = f' conn.unrecorded) (c : Nat) :
    (p.modifyConn c f).unrecorded handler = (p.unrecorded handler).modifyConn c f' := by
  have conns : (p.conns.modify c f).map Connection.unrecorded = (p.conns.map Connection.unrecorded).modify c f' := by
    refine List.ext_getElem? fun c' => ?_
    simp only [List.getElem?_map, List.getElem?_modify]
    cases p.conns[c']? with
    | none => rfl
    | some conn =>
      simp only [Option.map_eq_map, Option.map_some]
      split
      · rw [same]
      · rfl
  rw [unrecorded, modifyConn, conns]
  rfl

theorem unrecorded_closeConn (c : Nat) :
    (p.closeConn c).unrecorded handler = (p.unrecorded handler).closeConn c :=
  unrecorded_modifyConn (fun _ => rfl) c

theorem unrecorded_release : p.release.unrecorded handler = (p.unrecorded handler).release := by
  simp only [release, unrecorded]
  split <;> rfl

theorem unrecorded_setPhase (g : Nat) (phase : Phase) :
    (p.setPhase g phase).unrecorded handler = (p.unrecorded handler).setPhase g phase := rfl

theorem Connection.unrecorded_made [Inhabited σ] (content : κ) (readable : Bool) :
    (Connection.made content readable : Connection κ (σ × List Call)).unrecorded = .made content readable := rfl

theorem unrecorded_connect [Inhabited σ] (recorded : p.handler = some handler.recorded) (g : Nat) (content : κ)
    (readable : Bool) :
    ({ p with conns := p.conns ++ [Connection.made content (readable && p.handler.isSome)] }.setPhase g
        (.holding p.conns.length)).unrecorded handler =
      { p.unrecorded handler with
        conns := (p.unrecorded handler).conns ++
          [Connection.made content (readable && (p.unrecorded handler).handler.isSome)] }.setPhase g
            (.holding (p.unrecorded handler).conns.length) := by
  simp only [unrecorded, setPhase, recorded, List.map_append, List.map_cons, List.map_nil, List.length_map,
    Connection.unrecorded_made, Option.isSome_some]

theorem Discards.unrecorded {event : Event κ} {g c : Nat} (discards : Discards p g c event) :
    Discards (p.unrecorded handler) g c event := by
  cases discards with
  | drop => exact .drop
  | put reason => exact .put (reason.imp_right (Or.imp_left (isClosed_unrecorded c).trans))

theorem finds_unrecorded (recorded : p.handler = some handler.recorded) (event : Event κ) :
    (p.unrecorded handler).finds event = p.finds event := by
  cases event <;> simp only [finds, isClosed_unrecorded, reader_unrecorded, gets_unrecorded, recorded] <;> rfl

theorem Inside.unrecorded (recorded : p.handler = some handler.recorded) {event : Event κ} {c : Nat}
    {f : Connection κ (σ × List Call) → Connection κ (σ × List Call)} (inside : Inside p event c f) :
    ∃ f', Inside (p.unrecorded handler) event c f' ∧ ∀ conn, (f conn).unrecorded = f' conn.unrecorded := by
  cases inside with
  | close here => exact ⟨_, .close here, fun _ => rfl⟩
  | replace here => exact ⟨_, .replace here, fun _ => rfl⟩
  | @feed handler' c bytes held reading =>
    obtain rfl := Option.some.inj (recorded.symm.trans held)
    refine ⟨_, .feed rfl ?_, Connection.unrecorded_feed bytes⟩
    rwa [reader_unrecorded]
  | halt held reading halts =>
    obtain rfl := Option.some.inj (recorded.symm.trans held)
    refine ⟨_, .halt rfl ?_ ?_, fun _ => rfl⟩
    · rwa [reader_unrecorded]
    · rwa [isClosed_unrecorded]
  | stop stopping =>
    refine ⟨_, .stop ?_, fun _ => rfl⟩
    rwa [reader_unrecorded]

theorem Act.unrecorded [Inhabited σ] (recorded : p.handler = some handler.recorded) {event : Event κ}
    {p' : Pool κ (σ × List Call)} (act : Act p event p') :
    Act (p.unrecorded handler) event (p'.unrecorded handler) := by
  have closed : ∀ c, (p.unrecorded handler).isClosed c = p.isClosed c := isClosed_unrecorded
  cases act with
  | rest idle => exact .rest ((finds_unrecorded recorded event).trans idle)
  | enter left => exact .enter left
  | wait none => exact .wait none
  | resume here => exact .resume here
  | take here head live => exact .take here head ((closed _).trans live)
  | shed here head shut => exact .shed here head ((closed _).trans shut)
  | dial here none => exact .dial here none
  | connect here =>
    rw [unrecorded_connect recorded]
    exact .connect here
  | leave caller here outcome => exact .leave caller here outcome
  | giveBack caller here outcome place =>
    rw [unrecorded_release]
    exact .giveBack caller here outcome place
  | keep here live room => exact .keep here ((closed _).trans live) room
  | discard here discards =>
    rw [unrecorded_setPhase, unrecorded_closeConn]
    exact .discard here discards.unrecorded
  | inside inside =>
    obtain ⟨f', inside', same⟩ := inside.unrecorded recorded
    rw [unrecorded_modifyConn same]
    exact .inside inside'

theorem unrecorded_step [Inhabited σ] (recorded : p.handler = some handler.recorded) (event : Event κ) :
    (p.step event).unrecorded handler = (p.unrecorded handler).step event :=
  ((p.step_act event).unrecorded recorded).eq_step

theorem unrecorded_run [Inhabited σ] (recorded : p.handler = some handler.recorded) (events : List (Event κ)) :
    (p.run events).unrecorded handler = (p.unrecorded handler).run events := by
  induction events generalizing p with
  | nil => rfl
  | cons event events ih =>
    have later := ih ((p.handler_step event).trans recorded)
    rw [unrecorded_step recorded] at later
    exact later

end RpcClient.Pool
