import Mathlib.Data.List.Induction
import RpcClient.Proofs.Pool.Recording

/-! What a handler is told about a connection, over a whole run. Each part that is read is shown to it once, behind
what it left of those before. The end is told once, with its cause, and nothing is told behind it. A connection whose
reader has stopped is closed for good. Handlers are arbitrary, and so are the moments at which callers close
connections. -/
namespace RpcClient.Pool

variable {κ σ : Type} {handler : Handler σ} {c : Nat} {failure : Failure}

/-- Whether the reader has met the end. -/
def Reader.isOver : Reader → Bool
  | .stopping | .stopped => true
  | _ => false

/-- The calls for a connection, in their order. -/
def Connection.calls (conn : Connection κ (σ × List Call)) : List Call :=
  conn.state.2

/-! ### What is read -/

variable {p p₀ : Pool κ σ} {event : Event κ} {events : List (Event κ)}

/-- What the reader of a connection reads in a step. -/
def chunk? (p : Pool κ σ) (c : Nat) : Event κ → Option Bytes
  | .received m bytes => if m = c ∧ p.reader c = .reading then some bytes else none
  | _ => none

/-- What the reader of a connection reads over a run, part by part. -/
def reads [Inhabited σ] (p : Pool κ σ) (c : Nat) : (events : List (Event κ)) → List Bytes
  | [] => []
  | event :: events => (p.chunk? c event).toList ++ (p.step event).reads c events

theorem chunk?_of_ne (idle : p.reader c ≠ .reading) (event : Event κ) : p.chunk? c event = none := by
  cases event <;> simp [chunk?, idle]

theorem chunk?_of_reading (reading : p.reader c = .reading) (bytes : Bytes) :
    p.chunk? c (.received c bytes) = some bytes := by
  simp [chunk?, reading]

theorem chunk?_of_other (other : ∀ bytes, event ≠ .received c bytes) : p.chunk? c event = none := by
  cases event with
  | received m bytes =>
    have away : m ≠ c := by
      rintro rfl
      exact other bytes rfl
    simp [chunk?, away]
  | _ => rfl

theorem reads_concat [Inhabited σ] (p : Pool κ σ) (c : Nat) (events : List (Event κ)) (event : Event κ) :
    p.reads c (events ++ [event]) = p.reads c events ++ ((p.run events).chunk? c event).toList := by
  induction events generalizing p with
  | nil => simp [reads, run]
  | cons first events ih =>
    rw [List.cons_append, reads, ih, reads, List.append_assoc]
    rfl

/-- In the course of the run the reader of the connection has met its end with this failure. -/
def Halted [Inhabited σ] (p₀ : Pool κ σ) (c : Nat) (events : List (Event κ)) (failure : Failure) : Prop :=
  ∃ before event after conn, events = before ++ event :: after ∧ (p₀.run before).conns[c]? = some conn ∧
    conn.reader = .reading ∧ Halts conn.closed c event failure

theorem Halted.concat [Inhabited σ] (halted : Halted p₀ c events failure) (event : Event κ) :
    Halted p₀ c (events ++ [event]) failure := by
  obtain ⟨before, cause, after, conn, rfl, found, reading, halts⟩ := halted
  exact ⟨before, cause, after ++ [event], conn, by simp, found, reading, halts⟩

/-! ### What is told -/

/-- The calls for the parts that were read, none of which was refused. Each sees what the one before left, and then
the part. -/
inductive Feeds : (chunks : List Bytes) → List Call → (left : Bytes) → Prop
  | none : Feeds [] [] []
  | next {chunks : List Bytes} {calls : List Call} {left bytes left' : Bytes} : Feeds chunks calls left →
      Feeds (chunks ++ [bytes]) (calls ++ [.data (left ++ bytes) left' .none]) left'

/-- The call leaves what it saw, from some place on. -/
def Call.TakesFront : Call → Prop
  | .data seen left _ => left <:+ seen
  | .close _ => True

/-- What the call takes off the front. -/
def Call.taken : Call → Bytes
  | .data seen left _ => seen.take (seen.length - left.length)
  | .close _ => []

theorem Call.taken_append {seen left : Bytes} {refusal : Option Failure}
    (front : (Call.data seen left refusal).TakesFront) : (Call.data seen left refusal).taken ++ left = seen :=
  List.suffix_iff_eq_append.mp front

/-- What was read is what was taken, in this order, and what is left. -/
theorem Feeds.taken_append {chunks : List Bytes} {calls : List Call} {left : Bytes} (feeds : Feeds chunks calls left)
    (front : ∀ call ∈ calls, call.TakesFront) : calls.flatMap Call.taken ++ left = chunks.flatten := by
  induction feeds with
  | none => rfl
  | next _ ih =>
    have before := ih fun call member => front call (List.mem_append_left _ member)
    have last := Call.taken_append (front _ (List.mem_append_right _ List.mem_cons_self))
    rw [List.flatMap_append, List.flatMap_singleton, List.append_assoc, last, List.flatten_concat, ← before,
      List.append_assoc]

/-- What a handler has been told about a connection, of which these parts were read. -/
inductive Told (conn : Connection κ (σ × List Call)) (chunks : List Bytes) (halts : Failure → Prop) : Prop
  | unread : conn.reader = .absent → conn.calls = [] → Told conn chunks halts
  | reading : conn.reader = .reading → Feeds chunks conn.calls conn.buffer → Told conn chunks halts
  /-- The bytes have ended or could not be read, or the connection was closed. -/
  | halted {calls : List Call} {failure : Failure} : conn.reader.isOver = true →
      Feeds chunks calls conn.buffer → conn.calls = calls ++ [.close failure] → halts failure → Told conn chunks halts
  /-- The handler has refused the last part. -/
  | refused {calls : List Call} {failure : Failure} {before : List Bytes} {left bytes : Bytes} :
      conn.reader.isOver = true → chunks = before ++ [bytes] → Feeds before calls left →
      conn.calls = calls ++ [.data (left ++ bytes) conn.buffer (some failure), .close failure] → Told conn chunks halts

variable {p p₀ : Pool κ (σ × List Call)} {conn conn' : Connection κ (σ × List Call)} {chunks : List Bytes}
  {halts halts' : Failure → Prop}

theorem not_isOver_of_reading (reading : conn.reader = .reading) : conn.reader.isOver ≠ true := by
  rw [reading]
  exact Bool.false_ne_true

theorem Told.feeds (told : Told conn chunks halts) (reading : conn.reader = .reading) :
    Feeds chunks conn.calls conn.buffer := by
  cases told with
  | unread absent _ => cases reading.symm.trans absent
  | reading _ feeds => exact feeds
  | halted finished _ _ _ => exact absurd finished (not_isOver_of_reading reading)
  | refused finished _ _ _ => exact absurd finished (not_isOver_of_reading reading)

theorem Told.taken_append (told : Told conn chunks halts) (present : conn.reader ≠ .absent)
    (front : ∀ call ∈ conn.calls, call.TakesFront) : conn.calls.flatMap Call.taken ++ conn.buffer = chunks.flatten := by
  cases told with
  | unread absent _ => exact absurd absent present
  | reading _ feeds => exact feeds.taken_append front
  | halted _ feeds told _ =>
    rw [told] at front ⊢
    have front' := feeds.taken_append fun call member => front call (List.mem_append_left _ member)
    rw [List.flatMap_append, List.flatMap_singleton, Call.taken, List.append_nil, front']
  | @refused _ failure _ _ _ _ last feeds told =>
    rw [told] at front ⊢
    have before := feeds.taken_append fun call member => front call (List.mem_append_left _ member)
    have refused := Call.taken_append (front _ (List.mem_append_right _ List.mem_cons_self))
    have nothing : (Call.close failure).taken = [] := rfl
    rw [last, List.flatten_concat, ← before, List.flatMap_append, List.flatMap_cons, List.flatMap_singleton, nothing,
      List.append_nil, List.append_assoc, refused, List.append_assoc]

theorem Told.feed (told : Told conn chunks halts) (reading : conn.reader = .reading) (bytes : Bytes) :
    Told (conn.feed handler.recorded bytes) (chunks ++ [bytes]) halts' := by
  have feeds := told.feeds reading
  rcases taken : handler.onData (conn.buffer ++ bytes) conn.state.1 with ⟨left, state, refusal⟩
  cases refusal with
  | none =>
    have fed : conn.feed handler.recorded bytes =
        { conn with buffer := left, state := (state, conn.calls ++ [.data (conn.buffer ++ bytes) left none]) } := by
      simp only [Connection.feed, Handler.recorded, taken, Connection.calls]
    rw [fed]
    exact .reading reading feeds.next
  | some failure =>
    have fed : conn.feed handler.recorded bytes =
        { conn with
          buffer := left
          reader := .stopping
          state := (handler.onClose failure state,
            conn.calls ++ [.data (conn.buffer ++ bytes) left (some failure)] ++ [.close failure]) } := by
      simp only [Connection.feed, Handler.recorded, taken, Connection.calls, Connection.halt]
    rw [fed]
    exact .refused rfl rfl feeds (List.append_assoc _ _ _)

theorem Told.halt (told : Told conn chunks halts) (reading : conn.reader = .reading) (cause : halts' failure) :
    Told (conn.halt handler.recorded failure) chunks halts' :=
  .halted rfl (told.feeds reading) rfl cause

/-- A step at which nothing is read and the reader does not come to its end tells nothing. -/
theorem Told.congr (told : Told conn chunks halts) (later : ∀ {failure}, halts failure → halts' failure)
    (reader : conn'.reader = conn.reader ∨ (conn.reader = .stopping ∧ conn'.reader = .stopped))
    (calls : conn'.calls = conn.calls) (buffer : conn'.buffer = conn.buffer) : Told conn' chunks halts' := by
  have ends : conn.reader.isOver = true → conn'.reader.isOver = true := by
    intro finished
    obtain same | ⟨-, stopped⟩ := reader
    · rwa [same]
    · rw [stopped]
      rfl
  cases told with
  | unread absent told =>
    obtain same | ⟨stopping, -⟩ := reader
    · exact .unread (same.trans absent) (calls.trans told)
    · cases absent.symm.trans stopping
  | reading reading feeds =>
    obtain same | ⟨stopping, -⟩ := reader
    · rw [← calls, ← buffer] at feeds
      exact .reading (same.trans reading) feeds
    · cases reading.symm.trans stopping
  | halted finished feeds told cause =>
    rw [← buffer] at feeds
    exact .halted (ends finished) feeds (calls.trans told) (later cause)
  | refused finished last feeds told =>
    rw [← buffer] at told
    exact .refused (ends finished) last feeds (calls.trans told)

theorem Told.step [Inhabited σ] (told : Told conn (p₀.reads c events) (Halted p₀ c events))
    (found : (p₀.run events).conns[c]? = some conn) (fares : Fares handler.recorded c conn event conn') :
    Told conn' (p₀.reads c (events ++ [event])) (Halted p₀ c (events ++ [event])) := by
  have same := reader_of_found found
  rw [reads_concat]
  cases fares with
  | rests other =>
    have nothing : (p₀.run events).chunk? c event = none := by
      by_cases reading : conn.reader = .reading
      · exact chunk?_of_other (other reading)
      · exact chunk?_of_ne (same ▸ reading) event
    rw [nothing, Option.toList_none, List.append_nil]
    exact told.congr (fun halted => halted.concat event) (.inl rfl) rfl rfl
  | @feeds bytes reading =>
    rw [chunk?_of_reading (same.trans reading) bytes]
    exact told.feed reading bytes
  | halts reading halts =>
    have nothing : (p₀.run events).chunk? c event = none := by
      refine chunk?_of_other fun bytes same => ?_
      subst same
      cases halts
    rw [nothing, Option.toList_none, List.append_nil]
    exact told.halt reading ⟨events, event, [], conn, rfl, found, reading, halts⟩
  | stops stopping =>
    rw [chunk?_of_other (by simp), Option.toList_none, List.append_nil]
    exact told.congr (fun halted => halted.concat _) (.inr ⟨stopping, rfl⟩) rfl rfl

theorem told_made [Inhabited σ] (content : κ) (readable : Bool) :
    Told (Connection.made content readable : Connection κ (σ × List Call)) [] halts := by
  cases readable with
  | false => exact .unread rfl rfl
  | true => exact .reading rfl .none

theorem reads_of_absent [Inhabited σ] (held : p₀.handler = some handler.recorded)
    (absent : (p₀.run events).conns[c]? = none) : p₀.reads c events = [] := by
  induction events using List.reverseRecOn with
  | nil => rfl
  | append_singleton events event ih =>
    rw [run_concat] at absent
    cases found : (p₀.run events).conns[c]? with
    | none =>
      have idle : (p₀.run events).reader c ≠ .reading := by simp [reader_of_absent found]
      rw [reads_concat, ih found, chunk?_of_ne idle]
      rfl
    | some conn =>
      obtain ⟨after, there, -⟩ := exists_fares found ((p₀.handler_run events).trans held) event
      cases absent.symm.trans there

/-- What is told about a connection over a run. At first there are no connections. -/
theorem told_run [Inhabited σ] (held : p₀.handler = some handler.recorded) (empty : p₀.conns = [])
    (found : (p₀.run events).conns[c]? = some conn) : Told conn (p₀.reads c events) (Halted p₀ c events) := by
  induction events using List.reverseRecOn generalizing conn with
  | nil =>
    rw [run, List.foldl_nil, empty] at found
    cases found
  | append_singleton events event ih =>
    rw [run_concat] at found
    -- the last step has made the connection, or it was there and the step does to it what `Fares` says
    have origin := made_or_fares ((p₀.handler_run events).trans held) found
    rcases origin with ⟨absent, content, readable, rfl⟩ | ⟨before, there, fares⟩
    · have idle : (p₀.run events).reader c ≠ .reading := by simp [reader_of_absent absent]
      rw [reads_concat, reads_of_absent held absent, chunk?_of_ne idle]
      exact told_made content readable
    · exact (ih there).step there fares

/-! ### Once the reader has met the end -/

theorem Fares.calls (fares : Fares handler.recorded c conn event conn') (finished : conn.reader.isOver = true) :
    conn'.reader.isOver = true ∧ conn'.calls = conn.calls := by
  cases fares with
  | rests _ => exact ⟨finished, rfl⟩
  | feeds reading => exact absurd finished (not_isOver_of_reading reading)
  | halts reading _ => exact absurd finished (not_isOver_of_reading reading)
  | stops _ => exact ⟨rfl, rfl⟩

theorem calls_run [Inhabited σ] (held : p.handler = some handler.recorded) (found : p.conns[c]? = some conn)
    (finished : conn.reader.isOver = true) (events : List (Event κ)) :
    ∃ conn', (p.run events).conns[c]? = some conn' ∧ conn'.reader.isOver = true ∧ conn'.calls = conn.calls := by
  induction events generalizing p conn with
  | nil => exact ⟨conn, found, finished, rfl⟩
  | cons event events ih =>
    obtain ⟨next, found', fares⟩ := exists_fares found held event
    obtain ⟨finished', same⟩ := fares.calls finished
    obtain ⟨last, found'', finished'', same'⟩ := ih ((p.handler_step event).trans held) found' finished'
    exact ⟨last, found'', finished'', same'.trans same⟩

section

variable {p : Pool κ σ} {conn : Connection κ σ} [Inhabited σ]

/-- A connection that has been closed does not become idle. -/
theorem Spent.free_of_step {event : Event κ} (spent : Spent p c) (idle : c ∈ (p.step event).free) : c ∈ p.free := by
  cases p.step_turnover event with
  | stay free _ => exact free ▸ idle
  | @keep g c' _ _ live free _ =>
    rw [free] at idle
    obtain rfl | before := List.mem_cons.mp idle
    · cases live.symm.trans spent.closed
    · exact before
  | take _ _ head _ after =>
    rw [after] at idle
    exact head ▸ List.mem_cons_of_mem _ idle
  | shed _ _ head _ after =>
    rw [after] at idle
    exact head ▸ List.mem_cons_of_mem _ idle

theorem Spent.free_of_run {events : List (Event κ)} (spent : Spent p c) (sound : Sound p)
    (idle : c ∈ (p.run events).free) : c ∈ p.free := by
  induction events generalizing p with
  | nil => exact idle
  | cons event events ih =>
    have spent' := spent.traffic (sound.balanced.step_traffic event)
    exact spent.free_of_step (ih spent' (sound.step event) idle)

/-- A connection whose reader has stopped is closed. -/
theorem spent_of_stopped (sound : Sound p) (held : p.handler = some handler) (empty : p.conns = [])
    (events : List (Event κ)) (found : (p.run events).conns[c]? = some conn) (stopped : conn.reader = .stopped) :
    Spent (p.run events) c := by
  induction events using List.reverseRecOn generalizing conn with
  | nil =>
    rw [run, List.foldl_nil, empty] at found
    cases found
  | append_singleton events event ih =>
    rw [run_concat] at found ⊢
    have origin := made_or_fares ((p.handler_run events).trans held) found
    rcases origin with ⟨-, content, readable, rfl⟩ | ⟨before, there, fares⟩
    · cases readable <;> cases stopped
    · cases fares with
      | rests _ => exact (ih there stopped).traffic ((sound.run events).balanced.step_traffic event)
      | @feeds bytes reading =>
        obtain same | same := before.reader_feed handler bytes
        · cases reading.symm.trans (same.symm.trans stopped)
        · cases same.symm.trans stopped
      | halts _ _ => cases stopped
      | stops stopping => exact spent_readerStops there stopping

end

/-- What a handler is told in a run about the connections of a pool. `p₀` is the pool with notes of what is told. -/
structure ReadLoop [Inhabited σ] (handler : Handler σ) (p : Pool κ σ) (p₀ : Pool κ (σ × List Call))
    (events : List (Event κ)) : Prop where
  /-- The notes change nothing. -/
  unrecorded : (p₀.run events).unrecorded handler = p.run events
  /-- A connection that is made with a side to read from is read from. -/
  made : ∀ {g : Nat}, (p₀.run events).gets[g]? = some .dialing → ∀ content,
    ((p₀.run events).step (.dialed g content true)).conns = (p₀.run events).conns ++ [Connection.made content true]
  /-- Each part that is read is shown once. The end is told once it is met, with its cause, and only then. -/
  told : ∀ {c : Nat} {conn}, (p₀.run events).conns[c]? = some conn → Told conn (p₀.reads c events) (Halted p₀ c events)
  /-- No byte is lost, repeated or moved where the handler takes bytes off the front. -/
  whole : ∀ {c : Nat} {conn}, (p₀.run events).conns[c]? = some conn → conn.reader ≠ .absent →
    (∀ call ∈ conn.calls, call.TakesFront) → conn.calls.flatMap Call.taken ++ conn.buffer = (p₀.reads c events).flatten
  /-- Whatever it is that ends the reading, the end is told. -/
  halts : ∀ {c : Nat} {conn event failure}, (p₀.run events).conns[c]? = some conn → conn.reader = .reading →
    Halts conn.closed c event failure →
    ((p₀.run events).step event).conns[c]? = some (conn.halt handler.recorded failure)
  /-- A reader that has met the end stops, and its connection is closed with that. -/
  stops : ∀ {c : Nat} {conn}, (p₀.run events).conns[c]? = some conn → conn.reader = .stopping →
    ((p₀.run events).step (.readerStops c)).conns[c]? = some conn.stop ∧
      Spent ((p₀.run events).step (.readerStops c)) c
  /-- Nothing is told after the end. -/
  silent : ∀ {c : Nat} {conn}, (p₀.run events).conns[c]? = some conn → conn.reader.isOver = true → ∀ later,
    ∃ conn', ((p₀.run events).run later).conns[c]? = some conn' ∧ conn'.reader.isOver = true ∧ conn'.calls = conn.calls
  /-- Once its reader has stopped, a connection stays closed, does not become idle, and nobody comes by it. -/
  stopped : ∀ {c : Nat} {conn}, (p₀.run events).conns[c]? = some conn → conn.reader = .stopped → ∀ later,
    ((p₀.run events).run later).isClosed c = true ∧
      (c ∈ ((p₀.run events).run later).free → c ∈ (p₀.run events).free) ∧
      ∀ {m : Nat}, ((p₀.run events).run later).gets[m]? = some (.holding c) →
        (p₀.run events).gets[m]? = some (.holding c)

theorem conns_halts [Inhabited σ] (held : p.handler = some handler.recorded) (found : p.conns[c]? = some conn)
    (reading : conn.reader = .reading) {event : Event κ} (halts : Halts conn.closed c event failure) :
    (p.step event).conns[c]? = some (conn.halt handler.recorded failure) := by
  rw [← isClosed_of_found found] at halts
  rw [← (Act.inside (.halt held ((reader_of_found found).trans reading) halts)).eq_step, found_modifyConn found,
    if_pos rfl]

theorem conns_stops [Inhabited σ] (found : p.conns[c]? = some conn) (stopping : conn.reader = .stopping) :
    (p.step (.readerStops c)).conns[c]? = some conn.stop := by
  rw [← (Act.inside (.stop ((reader_of_found found).trans stopping))).eq_step, found_modifyConn found, if_pos rfl]

theorem read_loop_run [Inhabited σ] (size : Nat) (handler : Handler σ) (events : List (Event κ)) :
    ReadLoop handler (Pool.new size (some handler)) (Pool.new size (some handler.recorded) : Pool κ (σ × List Call))
      events := by
  have sound := (sound_new size (some handler.recorded) : Sound (Pool.new size _ : Pool κ (σ × List Call)))
  have held' := (Pool.new size (some handler.recorded) : Pool κ (σ × List Call)).handler_run events
  constructor
  case unrecorded => exact unrecorded_run rfl events
  case made =>
    intro g here content
    rw [dialed_eq_made held' here]
    rfl
  case told =>
    intro c conn found
    exact told_run rfl rfl found
  case whole =>
    intro c conn found
    exact (told_run rfl rfl found).taken_append
  case halts =>
    intro c conn event failure found reading halts
    exact conns_halts held' found reading halts
  case stops =>
    intro c conn found stopping
    exact ⟨conns_stops found stopping, spent_readerStops found stopping⟩
  case silent =>
    intro c conn found finished later
    exact calls_run held' found finished later
  case stopped =>
    intro c conn found stopped later
    have spent := spent_of_stopped sound rfl rfl events found stopped
    obtain ⟨after, holding⟩ := spent.run (sound.run events) later
    exact ⟨after.closed, spent.free_of_run (sound.run events), holding⟩

/-- A handler that takes two bytes at a time is shown the third one again, and nothing more after the end. -/
example :
    ((Pool.new 1 (some (Handler.recorded ⟨fun buffer state => (buffer.drop 2, state, none), fun _ state => state⟩)) :
      Pool Nat (Unit × List Call)).run
        [.get, .resume 0, .pick 0, .dialed 0 7 true, .received 0 [1, 2, 3], .received 0 [4], .ended 0, .received 0 [5],
          .readerStops 0]).conns.map Connection.calls =
      [[.data [1, 2, 3] [3] none, .data [3, 4] [] none, .close .connectionClosed]] := rfl

end RpcClient.Pool
