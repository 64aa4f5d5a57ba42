import RpcClient.Proofs.Multiplex.OneConnection
import RpcClient.Proofs.Multiplex.Readers

/-! The calls at the writers of the connections. Exactly those that wait for a writer or write stand in
its line, each once, and the one that writes has it. -/
namespace RpcClient.Multiplex

/-- The call that has the writer, and behind it those that wait for it. -/
def Connection.line (conn : Connection) : List Nat :=
  conn.holder.toList ++ conn.queue

/-- The connection in whose line a call stands. -/
def Channel.line? (ch : Channel) (n : Nat) : Option Nat :=
  (ch.phase? n).bind Phase.line?

/-- The line of connection `c`, given where the calls stand. -/
structure Line (place : Nat → Option Nat) (c : Nat) (conn : Connection) : Prop where
  mem : ∀ {n}, n ∈ conn.line ↔ place n = some c
  nodup : conn.line.Nodup
  /-- No call waits for a writer that is free. -/
  free : conn.holder = none → conn.queue = []

structure Lines (ch : Channel) : Prop where
  line : ∀ {c conn}, ch.conns[c]? = some conn → Line ch.line? c conn
  writing : ∀ {n c rest}, ch.phase? n = some (.writing c rest) → ch.holder? c = some n

namespace Line

variable {place place' : Nat → Option Nat} {c n : Nat} {conn conn' : Connection}

theorem congr (line : Line place c conn) (same : ∀ m, place' m = some c ↔ place m = some c)
    (holder : conn'.holder = conn.holder) (queue : conn'.queue = conn.queue) :
    Line place' c conn' := by
  have lines : conn'.line = conn.line := by rw [Connection.line, Connection.line, holder, queue]
  refine ⟨fun {m} => ?_, lines ▸ line.nodup, fun none => ?_⟩
  · rw [lines, line.mem, same]
  · rw [queue]
    exact line.free (holder ▸ none)

theorem fresh (nobody : ∀ m, place m ≠ some c) : Line place c .fresh :=
  ⟨fun {m} => ⟨fun present => (List.not_mem_nil present).elim, fun stands => (nobody m stands).elim⟩,
    List.nodup_nil, fun _ => rfl⟩

variable (line : Line place c conn)
include line

theorem take (moved : ∀ m, place' m = if n = m then some c else place m) (free : conn.holder = none) :
    Line place' c { conn with holder := some n } := by
  have empty := line.free free
  have nobody : ∀ m, place m ≠ some c := by
    intro m here
    have present := line.mem.mpr here
    rw [Connection.line, free, empty] at present
    cases present
  refine ⟨fun {m} => ?_, ?_, fun none => (Option.some_ne_none n none).elim⟩
  · rw [moved, Connection.line, empty]
    by_cases same : n = m
    · simp [same]
    · simp [same, Ne.symm same, nobody]
  · rw [Connection.line, empty]
    exact List.pairwise_singleton _ n

theorem queue (moved : ∀ m, place' m = if n = m then some c else place m) (away : place n = none)
    (held : conn.holder ≠ none) : Line place' c { conn with queue := conn.queue ++ [n] } := by
  have absent : n ∉ conn.line := by
    rw [line.mem, away]
    exact (Option.some_ne_none c).symm
  have longer : ({ conn with queue := conn.queue ++ [n] } : Connection).line = conn.line ++ [n] :=
    (List.append_assoc _ _ _).symm
  refine ⟨fun {m} => ?_, ?_, fun none => (held none).elim⟩
  · rw [longer, List.mem_append, List.mem_singleton, moved]
    by_cases same : n = m
    · simp [same]
    · simp [same, Ne.symm same, line.mem]
  · rw [longer, List.nodup_append]
    refine ⟨line.nodup, List.pairwise_singleton _ n, ?_⟩
    rintro m present m' last rfl
    obtain rfl := List.mem_singleton.mp last
    exact absent present

theorem leave (moved : ∀ m, place' m = if n = m then none else place m) (other : conn.holder ≠ some n) :
    Line place' c { conn with queue := conn.queue.filter (· != n) } := by
  have shorter : ({ conn with queue := conn.queue.filter (· != n) } : Connection).line =
      conn.line.filter (· != n) := by
    rw [Connection.line, Connection.line, List.filter_append]
    congr 1
    refine (List.filter_eq_self.mpr fun m held => ?_).symm
    rw [bne_iff_ne]
    rintro rfl
    exact other (Option.mem_toList.mp held)
  refine ⟨fun {m} => ?_, ?_, fun none => ?_⟩
  · rw [shorter, List.mem_filter, bne_iff_ne, moved, line.mem]
    by_cases same : n = m
    · simp [same]
    · simp [same, Ne.symm same]
  · rw [shorter]
    exact line.nodup.filter _
  · rw [line.free none, List.filter_nil]

theorem release {writable : Bool} (moved : ∀ m, place' m = if n = m then none else place m)
    (holder : conn.holder = some n) :
    Line place' c { conn with writable, holder := conn.queue.head?, queue := conn.queue.tail } := by
  have whole : conn.line = n :: conn.queue := by rw [Connection.line, holder]; rfl
  have rest : ({ conn with writable, holder := conn.queue.head?, queue := conn.queue.tail } :
      Connection).line = conn.queue := by
    rw [Connection.line]
    cases conn.queue <;> rfl
  have nodup := line.nodup
  rw [whole, List.nodup_cons] at nodup
  refine ⟨fun {m} => ?_, ?_, fun none => ?_⟩
  · rw [rest, moved]
    by_cases same : n = m
    · simp [← same, nodup.1]
    · simp [same, ← line.mem, whole, Ne.symm same]
  · rw [rest]
    exact nodup.2
  · rw [show conn.queue = [] from List.head?_eq_none_iff.mp none, List.tail_nil]

end Line

/-! ### What strides do to the lines -/

theorem Phase.line?_of_isDirect {phase : Phase} (direct : phase.isDirect = true) : phase.line? = none := by
  cases phase <;> first | rfl | cases direct

theorem Phase.line?_of_isEnded {phase : Phase} (ends : phase.isEnded = true) : phase.line? = none := by
  cases phase <;> first | rfl | cases ends

/-- How an effect goes with the places that a call leaves and takes. -/
def Effect.Suits (ch : Channel) (n : Nat) (before after : Option Nat) (effect : Effect) : Prop :=
  match effect with
  | none | connect | close _ => after = before
  | take c => before = .none ∧ after = some c ∧ ch.holder? c = .none
  | queue c => before = .none ∧ after = some c ∧ ch.holder? c ≠ .none
  | leave c => before = some c ∧ after = .none ∧ ch.holder? c ≠ some n
  | release c _ => after = .none ∧
    (before = some c ∧ ch.holder? c = some n ∨ before = .none ∧ ch.holder? c = .none)

variable {ch ch' : Channel} {n c : Nat} {call : Call} {event : Event} {phase : Phase} {effect : Effect}

theorem Channel.holder?_eq {conn : Connection} (found : ch.conns[c]? = some conn) :
    ch.holder? c = conn.holder := by
  rw [holder?, found, Option.bind_some]

theorem Stride.suits (stride : Stride ch n call event phase effect)
    (writing : ∀ {c rest}, call.phase = .writing c rest → ch.holder? c = some n) :
    effect.Suits ch n call.phase.line? phase.line? := by
  cases stride with
  | take here found free _ =>
    rw [here]
    exact ⟨rfl, rfl, (Channel.holder?_eq found).trans free⟩
  | queue here found held =>
    rw [here]
    exact ⟨rfl, rfl, fun none => held ((Channel.holder?_eq found).symm.trans none)⟩
  | miss found _ place =>
    obtain ⟨here, free⟩ | ⟨here, held⟩ := place
    · rw [here]
      exact ⟨rfl, .inr ⟨rfl, (Channel.holder?_eq found).trans free⟩⟩
    · rw [here]
      exact ⟨rfl, .inl ⟨rfl, (Channel.holder?_eq found).trans held⟩⟩
  | writeAll here _ | writeFailed here | abort here _ | expire here =>
    have held := writing here
    rw [here]
    exact ⟨rfl, .inl ⟨rfl, held⟩⟩
  | dropWriter place =>
    obtain ⟨here, held⟩ | ⟨rest, here⟩ := place
    · rw [here]
      exact ⟨rfl, .inl ⟨rfl, held⟩⟩
    · have held := writing here
      rw [here]
      exact ⟨rfl, .inl ⟨rfl, held⟩⟩
  | leave here other | dropQueued here other =>
    rw [here]
    exact ⟨rfl, rfl, other⟩
  | timeout place =>
    obtain here | here | direct | ⟨c, here, _⟩ := place
    · rw [here]; rfl
    · rw [here]; rfl
    · rw [Phase.line?_of_isDirect direct]; rfl
    · rw [here]; rfl
  | drop _ away => exact away.symm
  | direct solo =>
    have away : phase.line? = none := solo.stays.elim Phase.line?_of_isDirect Phase.line?_of_isEnded
    rw [Phase.line?_of_isDirect solo.isDirect, away]
    rfl
  | find here | dial here | connect here | refused here | begin here | writeSome here | tear here
  | shut here | again here | exhausted here | answered here | displaced here | cut here =>
    rw [here]
    rfl

/-- Away from the connection that it has its effect on, a stride keeps the place of its call. -/
theorem Effect.Suits.elsewhere {before after : Option Nat} (suits : effect.Suits ch n before after)
    (other : effect.conn? ≠ some c) : after = some c ↔ before = some c := by
  have ne : ∀ {c'}, effect.conn? = some c' → c' ≠ c := by
    rintro c' target rfl
    exact other target
  cases effect with
  | none | connect | close c' => rw [show after = before from suits]
  | take c' | queue c' =>
    obtain ⟨rfl, rfl, _⟩ := suits
    simp [ne rfl]
  | leave c' =>
    obtain ⟨rfl, rfl, _⟩ := suits
    simp [ne rfl]
  | release c' drops =>
    obtain ⟨rfl, ⟨rfl, _⟩ | ⟨rfl, _⟩⟩ := suits
    · simp [ne rfl]
    · simp

/-- Only the call that has a writer gives it away. -/
theorem Effect.Suits.keeps {before after : Option Nat} {m : Nat} (suits : effect.Suits ch n before after)
    (held : ch.holder? c = some m) (other : m ≠ n) :
    (effect.apply n ch.conns)[c]?.bind Connection.holder = some m := by
  obtain ⟨conn, found, holder⟩ := Option.bind_eq_some_iff.mp held
  rw [Effect.getElem?_apply found, Option.bind_some]
  split
  · next target =>
    cases effect with
    | take c' =>
      cases target
      rw [suits.2.2] at held
      cases held
    | release c' drops =>
      cases target
      obtain ⟨_, mine⟩ | ⟨_, free⟩ := suits.2
      · exact (other (Option.some.inj (held.symm.trans mine))).elim
      · rw [free] at held
        cases held
    | _ => exact holder
  · exact holder

theorem Took.phase? (took : Took ch n call phase effect ch') (m : Nat) :
    ch'.phase? m = if n = m then some phase else ch.phase? m := by
  rw [Channel.phase?, Channel.phase?, took.calls]
  split
  · rfl
  · rfl

theorem Took.line? (took : Took ch n call phase effect ch') (m : Nat) :
    ch'.line? m = if n = m then phase.line? else ch.line? m := by
  rw [Channel.line?, Channel.line?, took.phase?]
  split
  · rfl
  · rfl

theorem Phase.conn?_of_line? (here : phase.line? = some c) : phase.conn? = some c := by
  cases phase <;> first | exact here | cases here

theorem Channel.conn?_of_line? (here : ch.line? n = some c) : ch.conn? n = some c := by
  obtain ⟨phase, found, place⟩ := Option.bind_eq_some_iff.mp here
  rw [conn?, found]
  exact Phase.conn?_of_line? place

/-- A stride that writes has the writer. -/
theorem Stride.writing {rest : Bytes}
    (stride : Stride ch n call event (.writing c rest) effect)
    (writing : ∀ {c rest}, call.phase = .writing c rest → ch.holder? c = some n) :
    effect = .take c ∧ (∃ conn, ch.conns[c]? = some conn) ∨ effect = .none ∧ ch.holder? c = some n := by
  cases stride with
  | take _ found _ _ => exact .inl ⟨rfl, _, found⟩
  | begin _ found held _ => exact .inr ⟨rfl, (Channel.holder?_eq found).trans held⟩
  | writeSome here _ => exact .inr ⟨rfl, writing here⟩
  | direct solo =>
    obtain direct | ends := solo.stays
    · cases direct
    · cases ends

theorem Channel.line?_of_reader (reader : event.caller? = none) (m : Nat) :
    (ch.step event).line? m = ch.line? m := by
  cases here : ch.phase? m with
  | some phase => rw [line?, line?, phase?_of_reader reader here, here]
  | none =>
    cases after : (ch.step event).phase? m with
    | none => rw [line?, line?, here, after]
    | some phase =>
      obtain ⟨call, found, rfl⟩ := phase?_eq_some.mp after
      have absent : ch.calls[m]? = none := Option.map_eq_none_iff.mp here
      obtain ⟨request, _, started⟩ := step_started absent found
      rw [line?, line?, here, after, Option.bind_some, Option.bind_none]
      obtain seeks | ⟨_, direct⟩ | ends := started.phase
      · rw [seeks]
        rfl
      · rw [direct]
        rfl
      · exact Phase.line?_of_isEnded ends

/-- Readers leave the writers alone. -/
theorem Fares.writer_eq {conn conn' : Connection} (fares : Fares ch c conn event conn')
    (reader : event.caller? = none) : conn'.holder = conn.holder ∧ conn'.queue = conn.queue := by
  cases fares with
  | rest => exact ⟨rfl, rfl⟩
  | reader reads => cases reads <;> exact ⟨rfl, rfl⟩
  | caller own =>
    rw [reader] at own
    cases own

namespace Lines

theorem stride (lines : Lines ch) (bounded : ∀ {m c}, ch.line? m = some c → c < ch.conns.length)
    (found : ch.calls[n]? = some call) (stride : Stride ch n call event phase effect)
    (took : Took ch n call phase effect ch') : Lines ch' := by
  have here : ch.phase? n = some call.phase := Channel.phase?_eq_some.mpr ⟨call, found, rfl⟩
  have place : ch.line? n = call.phase.line? := by rw [Channel.line?, here, Option.bind_some]
  have mine : ∀ {c rest}, call.phase = .writing c rest → ch.holder? c = some n :=
    fun writing => lines.writing (here.trans (congrArg some writing))
  have suits := stride.suits mine
  constructor
  · intro c conn' after
    rw [took.conns] at after
    obtain ⟨rfl, rfl, rfl⟩ | ⟨conn, before, rfl⟩ := Effect.apply_cases after
    · refine .fresh fun m stands => Nat.lt_irrefl ch.conns.length (bounded (m := m) ?_)
      rw [took.line?] at stands
      split at stands
      · next same =>
        rw [← same, place]
        exact (show phase.line? = call.phase.line? from suits) ▸ stands
      · exact stands
    have line := lines.line before
    have holder : ch.holder? c = conn.holder := Channel.holder?_eq before
    have moved := took.line?
    split
    · next target =>
      cases effect with
      | none | connect => cases target
      | take c' =>
        cases target
        obtain ⟨_, after, free⟩ := suits
        rw [after] at moved
        exact line.take moved (holder ▸ free)
      | queue c' =>
        cases target
        obtain ⟨away, after, held⟩ := suits
        rw [after] at moved
        exact line.queue moved (place.trans away) (holder ▸ held)
      | leave c' =>
        cases target
        obtain ⟨_, after, other⟩ := suits
        rw [after] at moved
        exact line.leave moved (holder ▸ other)
      | release c' drops =>
        cases target
        obtain ⟨after, ⟨_, held⟩ | ⟨away, free⟩⟩ := suits
        · rw [after] at moved
          exact line.release moved (holder ▸ held)
        · have free : conn.holder = none := holder ▸ free
          have empty := line.free free
          refine line.congr (fun m => ?_) ?_ ?_
          · rw [moved]
            split
            · next same => rw [← same, after, place, away]
            · rfl
          · simp only [Effect.touch, empty, free, List.head?_nil]
          · simp only [Effect.touch, empty, List.tail_nil]
      | close c' =>
        refine line.congr (fun m => ?_) rfl rfl
        rw [moved, show phase.line? = call.phase.line? from suits, ← place]
        split
        · next same => rw [same]
        · rfl
    · next other =>
      refine line.congr (fun m => ?_) rfl rfl
      rw [moved]
      split
      · next same => rw [← same, place, suits.elsewhere other]
      · rfl
  · intro m c rest writing
    rw [took.phase?] at writing
    rw [Channel.holder?, took.conns]
    split at writing
    · next same =>
      subst same
      obtain rfl := Option.some.inj writing
      obtain ⟨rfl, conn, before⟩ | ⟨rfl, held⟩ := stride.writing mine
      · simp only [Effect.apply, List.getElem?_modify_eq, before]
        rfl
      · exact held
    · next other => exact suits.keeps (lines.writing writing) (Ne.symm other)

/-- Readers and calls that start leave the lines as they are. -/
theorem reader (lines : Lines ch) (bounded : ∀ {m c}, ch.line? m = some c → c < ch.conns.length)
    (reader : event.caller? = none) : Lines (ch.step event) := by
  have moved : ∀ m, (ch.step event).line? m = ch.line? m := fun m => Channel.line?_of_reader reader m
  constructor
  · intro c conn' after
    obtain ⟨rfl, rfl⟩ | ⟨conn, before, fares⟩ := Channel.step_fares after
    · exact .fresh fun m stands => Nat.lt_irrefl _ (bounded ((moved m).symm.trans stands))
    · have same := fares.writer_eq reader
      exact (lines.line before).congr (fun m => by rw [moved]) same.1 same.2
  · intro m c rest writing
    have before : ch.phase? m = some (.writing c rest) := by
      cases found : ch.phase? m with
      | none =>
        have stands := moved m
        rw [Channel.line?, Channel.line?, writing, found] at stands
        cases stands
      | some phase => exact (Channel.phase?_of_reader reader found).symm.trans writing
    obtain ⟨conn, found, held⟩ := Option.bind_eq_some_iff.mp (lines.writing before)
    obtain ⟨conn', after, fares⟩ := Channel.exists_fares event found
    rw [Channel.holder?, after, Option.bind_some, (fares.writer_eq reader).1]
    exact held

theorem step (lines : Lines ch) (one : OneLine ch) (event : Event) : Lines (ch.step event) := by
  have bounded : ∀ {m c}, ch.line? m = some c → c < ch.conns.length :=
    fun stands => one.started (Channel.conn?_of_line? stands)
  cases own : event.caller? with
  | none => exact lines.reader bounded own
  | some n =>
    cases found : ch.calls[n]? with
    | none =>
      rw [Channel.step_of_absent own found]
      exact lines
    | some call =>
      have goes := Channel.step_goes found own
      generalize ch.step event = ch' at goes
      cases goes with
      | rest => exact lines
      | stride stride took => exact lines.stride bounded found stride took

theorem new (codec : Codec) : Lines (.new codec) := ⟨nofun, nofun⟩

theorem run (codec : Codec) (events : List Event) : Lines ((Channel.new codec).run events) := by
  have both : OneLine ((Channel.new codec).run events) ∧ Lines ((Channel.new codec).run events) :=
    List.foldlRecOn (motive := fun ch => OneLine ch ∧ Lines ch) events Channel.step
      ⟨OneLine.new codec, new codec⟩ fun ch kept event _ =>
        ⟨kept.1.move (ch.step_move event), kept.2.step kept.1 event⟩
  exact both.2

end Lines

end RpcClient.Multiplex
