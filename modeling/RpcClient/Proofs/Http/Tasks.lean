import RpcClient.Proofs.Http.Client
import RpcClient.Proofs.Http.Owners

/-! What the connections of a channel work for. One that a call has sent its request on works for that request, and any
other one that is idle or held works for none: each is used as its client asks. -/
namespace RpcClient.Http.Channel

variable {κ ι : Type} {client : Client κ ι} {ch ch' : Channel κ} {pool : Pool κ Unit} {event : Event ι}
  {request : Http.Request} {n m g c : Nat} {phase phase' : Phase} {conn : κ}

/-! ### Contents -/

theorem contents_modifyConn {f : κ → κ} (found : (ch.modifyConn c f).pool.contents[m]? = some conn) :
    ∃ old, ch.pool.contents[m]? = some old ∧ conn = if m = c then f old else old := by
  simp only [modifyConn, Pool.contents, Pool.modifyConn, List.getElem?_map, List.getElem?_modify] at found ⊢
  cases here : ch.pool.conns[m]? with
  | none =>
    rw [here] at found
    cases found
  | some old =>
    rw [here] at found
    refine ⟨old.content, rfl, ?_⟩
    obtain rfl := Option.some.inj found
    by_cases same : m = c
    · simp [same]
    · simp [same, Ne.symm same]

theorem contents_modifyConn_of_ne {f : κ → κ} (other : m ≠ c)
    (found : (ch.modifyConn c f).pool.contents[m]? = some conn) : ch.pool.contents[m]? = some conn := by
  obtain ⟨old, before, rfl⟩ := contents_modifyConn found
  rwa [if_neg other]

theorem contents_modifyConn_self {f : κ → κ} {old : Pool.Connection κ Unit} (there : ch.pool.conns[c]? = some old)
    (found : (ch.modifyConn c f).pool.contents[c]? = some conn) : conn = f old.content := by
  obtain ⟨old', before, rfl⟩ := contents_modifyConn found
  rw [if_pos rfl, Option.some.inj (before.symm.trans (Pool.getElem?_contents there))]

theorem Seeks.getElem?_contents {step : Pool.Event κ} (seeks : Seeks client n g event step) {p : Pool κ Unit}
    (found : (p.step step).contents[c]? = some conn) :
    p.contents[c]? = some conn ∨ (p.conns.length ≤ c ∧ conn = client.fresh) := by
  obtain same | ⟨g', content, readable, dials, grown⟩ | ⟨_, _, replaces⟩ := (p.step_custody step).contents
  · exact .inl (same ▸ found)
  · rw [grown, List.getElem?_append] at found
    split at found
    · exact .inl found
    · next beyond =>
      obtain ⟨_, rfl⟩ := List.getElem?_eq_some_iff.mp found
      cases seeks <;> cases dials
      refine .inr ⟨?_, List.getElem_singleton _⟩
      rwa [Pool.contents, List.length_map, Nat.not_lt] at beyond
  · cases seeks <;> cases replaces

theorem getElem?_contents_plain {step : Pool.Event κ} {p : Pool κ Unit} (plain : step.fills = false)
    (found : (p.step step).contents[c]? = some conn) :
    p.contents[c]? = some conn ∨ (p.conns.length ≤ c ∧ conn = client.fresh) :=
  .inl (p.contents_step plain ▸ found)

/-! ### Tasks -/

structure Kept (client : Client κ ι) (ch : Channel κ) : Prop extends Manned ch where
  carries : ∀ {n request c conn}, ch.Exchanges n request c → ch.pool.contents[c]? = some conn →
    client.Serves (some request) conn
  rests : ∀ {c conn}, c ∈ ch.pool.stock → (∀ n request, ¬ ch.Exchanges n request c) →
    ch.pool.contents[c]? = some conn → client.Serves none conn

theorem not_exchanges_of_getting {request' : Http.Request} (here : ch.calls[n]? = some (.getting request g)) :
    ¬ ch.Exchanges n request' c := by
  rintro ⟨_, there, _⟩
  cases here.symm.trans there

/-- A call that comes to want a connection has no exchange under way. -/
theorem Manned.exchanges_join_iff (manned : Manned ch) {calls : List Phase} {request' : Http.Request}
    (idle : ∀ {g}, ¬ ch.Owns n g) (here : calls[n]? = some (.getting request ch.pool.gets.length))
    (elsewhere : ∀ {m}, m ≠ n → calls[m]? = ch.calls[m]?) :
    Exchanges { pool := ch.pool.get, calls } m request' c ↔ ch.Exchanges m request' c := by
  obtain ⟨joined, grown, _⟩ := ch.pool.gets_get
  have held : ∀ {g c : Nat}, ch.pool.gets[g]? = some (.holding c) → ch.pool.get.gets[g]? = some (.holding c) := by
    intro g c holds
    rw [grown, Pool.getElem?_join holds]
  constructor
  · rintro ⟨g, there, holds⟩
    have other : m ≠ n := by
      rintro rfl
      cases here.symm.trans there
    have there := (elsewhere other).symm.trans there
    obtain ⟨c', holds'⟩ := manned.busy there
    exact ⟨g, there, holds'.trans ((held holds').symm.trans holds)⟩
  · rintro ⟨g, there, holds⟩
    have other : m ≠ n := by
      rintro rfl
      exact idle ⟨_, there, rfl⟩
    exact ⟨g, (elsewhere other).trans there, held holds⟩

namespace Kept

variable (kept : Kept client ch)
include kept

/-- A call goes on behind a step of its own, and has no exchange under way then. -/
theorem turn (here : ch.calls[n]? = some phase) (caller : phase.caller? = some g)
    (spares : Pool.Spares ch.pool pool g) (manned : Manned { pool, calls := ch.calls.set n phase' })
    (quiet : ∀ request g, phase' ≠ .exchanging request g)
    (known : ∀ {c}, c ∈ pool.stock → c < ch.pool.conns.length → c ∈ ch.pool.stock)
    (same : ∀ {c conn}, pool.contents[c]? = some conn → (∀ request, ¬ ch.Exchanges n request c) →
      ch.pool.contents[c]? = some conn ∨ (ch.pool.conns.length ≤ c ∧ conn = client.fresh))
    (mine : ∀ {request c conn}, ch.Exchanges n request c → c ∈ pool.stock → pool.contents[c]? = some conn →
      client.Serves none conn) :
    Kept client { pool, calls := ch.calls.set n phase' } where
  toManned := manned
  carries {m request c conn} exchanges found := by
    have other : m ≠ n := by
      rintro rfl
      obtain ⟨_, there, _⟩ := exchanges
      exact quiet _ _ (Option.some.inj ((getElem?_set_self here).symm.trans there))
    have before := (exchanges_set_iff kept.toManned here caller spares other).mp exchanges
    have apart : ∀ request, ¬ ch.Exchanges n request c :=
      fun _ own => other (kept.exclusive before.holds own.holds)
    obtain still | ⟨beyond, _⟩ := same found apart
    · exact kept.carries before still
    · exact absurd (kept.sound.stocked.known before.holds.mem_stock) (Nat.not_lt.mpr beyond)
  rests {c conn} member idle found := by
    by_cases own : ∃ request, ch.Exchanges n request c
    · obtain ⟨request, own⟩ := own
      exact mine own member found
    · obtain still | ⟨_, rfl⟩ := same found fun request exchanges => own ⟨request, exchanges⟩
      · refine kept.rests (known member (Pool.lt_of_getElem?_contents still)) (fun m request exchanges => ?_) still
        have other : m ≠ n := by
          rintro rfl
          exact own ⟨request, exchanges⟩
        exact idle m request ((exchanges_set_iff kept.toManned here caller spares other).mpr exchanges)
      · exact .fresh

/-- A call takes a step of the pool that leaves what connections hold alone. -/
theorem turn_step (here : ch.calls[n]? = some phase) (caller : phase.caller? = some g) (step : Pool.Event κ)
    (about : step.caller? = some g) (goesOn : GoesOn (ch.pool.step step) g phase')
    (quiet : ∀ request g, phase' ≠ .exchanging request g)
    (same : ∀ {c conn}, (ch.pool.step step).contents[c]? = some conn →
      ch.pool.contents[c]? = some conn ∨ (ch.pool.conns.length ≤ c ∧ conn = client.fresh))
    (mine : ∀ {request c}, ch.Exchanges n request c → c ∉ (ch.pool.step step).stock) :
    Kept client { pool := ch.pool.step step, calls := ch.calls.set n phase' } :=
  kept.turn here caller (kept.sound.balanced.spares (ch.pool.step_move step) about)
    (kept.toManned.turn_step here caller step about goesOn) quiet
    (fun member made => (kept.sound.balanced.step_traffic step).stock_of_lt made member)
    (fun found _ => same found) (fun own member _ => absurd member (mine own))

theorem meet (c : Nat) (input : ι) : Kept client (ch.modifyConn c (client.meet input)) where
  toManned := kept.toManned.modifyConn c _
  carries exchanges found := by
    obtain ⟨old, before, rfl⟩ := contents_modifyConn found
    have serves := kept.carries exchanges before
    split
    · exact .meet serves
    · exact serves
  rests member idle found := by
    obtain ⟨old, before, rfl⟩ := contents_modifyConn found
    have serves := kept.rests member idle before
    split
    · exact .meet serves
    · exact serves

theorem reject (result : Except Failure RpcClient.Response) :
    Kept client { ch with calls := ch.calls ++ [.done result] } where
  toManned := kept.toManned.reject result
  carries exchanges found := by
    obtain ⟨g, there, holds⟩ := exchanges
    exact kept.carries ⟨g, getElem?_of_reject there rfl, holds⟩ found
  rests member idle found := by
    refine kept.rests member (fun m request => ?_) found
    rintro ⟨g, there, holds⟩
    obtain ⟨bound, _⟩ := List.getElem?_eq_some_iff.mp there
    exact idle m request ⟨g, (List.getElem?_append_left bound).trans there, holds⟩

theorem join {calls : List Phase} (idle : ∀ {g}, ¬ ch.Owns n g)
    (here : calls[n]? = some (.getting request ch.pool.gets.length))
    (elsewhere : ∀ {m}, m ≠ n → calls[m]? = ch.calls[m]?) : Kept client { pool := ch.pool.get, calls } := by
  have contents : ch.pool.get.contents = ch.pool.contents :=
    ch.pool.contents_step (show (Pool.Event.get : Pool.Event κ).fills = false from rfl)
  have before : ∀ {m request c}, Exchanges { pool := ch.pool.get, calls } m request c ↔ ch.Exchanges m request c :=
    kept.toManned.exchanges_join_iff idle here elsewhere
  refine ⟨kept.toManned.join idle here elsewhere, fun exchanges found => ?_, fun {c conn} member none found => ?_⟩
  · exact kept.carries (before.mp exchanges) (contents ▸ found)
  · have found : ch.pool.contents[c]? = some conn := contents ▸ found
    refine kept.rests ?_ (fun m request exchanges => none m request (before.mpr exchanges)) found
    exact (kept.sound.balanced.step_traffic .get).stock_of_lt (Pool.lt_of_getElem?_contents found) member

theorem send (here : ch.calls[n]? = some (.getting request g)) (holds : ch.pool.gets[g]? = some (.holding c))
    (live : ∀ {conn}, ch.pool.conns[c]? = some conn → client.isClosed conn.content = false) :
    Kept client ((ch.modifyConn c (client.send request)).setPhase n (.exchanging request g)) := by
  have own : ch.Holds n c := ⟨g, ⟨_, here, rfl⟩, holds⟩
  have others : ∀ {m request' c'}, m ≠ n →
      (Exchanges { ch with
          pool := (ch.modifyConn c (client.send request)).pool
          calls := ch.calls.set n (.exchanging request g) } m request' c' ↔ ch.Exchanges m request' c') :=
    exchanges_set_iff kept.toManned here rfl (.of_gets rfl)
  refine ⟨(kept.toManned.modifyConn c _).turn here rfl (kept.toManned.modifyConn c _).sound (.of_gets rfl)
    (.still rfl holds .exchanging), fun {m request' c' conn} exchanges found => ?_,
    fun {c' conn} member idle found => ?_⟩
  · by_cases mine : m = n
    · subst mine
      obtain ⟨g', there, holds'⟩ := exchanges
      cases (getElem?_set_self here).symm.trans there
      cases holds.symm.trans holds'
      obtain ⟨old, before, rfl⟩ := contents_modifyConn found
      rw [if_pos rfl]
      refine .send (kept.rests own.mem_stock (fun m' _ exchanges => ?_) before) ?_
      · obtain rfl := kept.exclusive own exchanges.holds
        exact not_exchanges_of_getting here exchanges
      · rw [Pool.contents, List.getElem?_map, Option.map_eq_some_iff] at before
        obtain ⟨conn, there, rfl⟩ := before
        exact live there
    · have before := (others mine).mp exchanges
      have apart : c' ≠ c := by
        rintro rfl
        exact mine (kept.exclusive before.holds own)
      exact kept.carries before (contents_modifyConn_of_ne apart found)
  · have apart : c' ≠ c := by
      rintro rfl
      exact idle n request ⟨g, getElem?_set_self here, holds⟩
    refine kept.rests member (fun m request' exchanges => ?_) (contents_modifyConn_of_ne apart found)
    by_cases mine : m = n
    · subst mine
      exact not_exchanges_of_getting here exchanges
    · exact idle m request' ((others mine).mpr exchanges)

/-- The exchange of a call is over. Its connection has to be kept only behind a whole response. -/
theorem finish {old : Pool.Connection κ Unit} {result : Except Outage Response}
    (here : ch.calls[n]? = some (.exchanging request g)) (holds : ch.pool.gets[g]? = some (.holding c))
    (there : ch.pool.conns[c]? = some old) (came : client.result? old.content = some result) :
    Kept client ((ch.modifyConn c client.reset).conclude n g (exchangeOutcome result)) := by
  have manned := kept.toManned.modifyConn c client.reset
  have spares := manned.sound.balanced.spares
    ((ch.modifyConn c client.reset).pool.step_move (.put g (!isWhole (exchangeOutcome result)))) rfl
  have contents : ((ch.modifyConn c client.reset).pool.step (.put g (!isWhole (exchangeOutcome result)))).contents =
      (ch.modifyConn c client.reset).pool.contents := Pool.contents_step _ rfl
  have still : (ch.modifyConn c client.reset).pool.gets[g]? = some (.holding c) := holds
  refine kept.turn here rfl ⟨spares.length, spares.others⟩
    (manned.turn_step here rfl (.put g (!isWhole (exchangeOutcome result))) rfl (goesOn_put still _ _))
    (fun _ _ => Phase.noConfusion) (fun {c'} member made => ?_) (fun {c' conn} found apart => ?_)
    (fun {request' c' conn} own member found => ?_)
  · refine (manned.sound.balanced.step_traffic (.put g _)).stock_of_lt ?_ member
    rwa [modifyConn, Pool.modifyConn, List.length_modify]
  · have other : c' ≠ c := by
      rintro rfl
      exact apart request ⟨g, here, holds⟩
    exact .inl (contents_modifyConn_of_ne other (contents ▸ found))
  · obtain ⟨g', here', holds'⟩ := own
    cases here.symm.trans here'
    cases holds.symm.trans holds'
    cases result with
    | ok response =>
      obtain rfl := contents_modifyConn_self there (contents ▸ found)
      exact .reset (kept.carries ⟨g, here, holds⟩ (Pool.getElem?_contents there)) came
    | error outage =>
      exact absurd (Pool.put_discard_of_holding still ▸ member) (manned.sound.stocked.notMem_stock_discard still)

theorem abort (here : ch.calls[n]? = some (.exchanging request g)) :
    Kept client (ch.conclude n g (.error .timeout)) := by
  obtain ⟨c, holds⟩ := kept.busy here
  refine kept.turn_step here rfl (.put g true) rfl (goesOn_put holds _ _) (fun _ _ => Phase.noConfusion)
    (getElem?_contents_plain rfl) ?_
  rintro request' c' ⟨g', here', holds'⟩
  cases here.symm.trans here'
  cases holds.symm.trans holds'
  rw [Pool.put_discard_of_holding holds]
  exact kept.sound.stocked.notMem_stock_discard holds

theorem dropConn (here : ch.calls[n]? = some phase) (waits : phase.waits? = some g)
    (holds : ch.pool.gets[g]? = some (.holding c)) :
    Kept client ({ ch with pool := ch.pool.drop g }.setPhase n (.parting g .drop)) := by
  refine kept.turn_step here (Phase.caller?_of_waits? waits) (.drop g) rfl (goesOn_drop holds _)
    (fun _ _ => Phase.noConfusion) (getElem?_contents_plain rfl) ?_
  rintro request' c' ⟨g', here', holds'⟩
  obtain rfl := Option.some.inj (here.symm.trans here')
  cases waits
  cases holds.symm.trans holds'
  rw [Pool.drop_of_holding holds]
  exact kept.sound.stocked.notMem_stock_discard holds

/-- A call that has parted with its connection gives its place back. -/
theorem giveBack {next : Next} (here : ch.calls[n]? = some (.parting g next)) (ends : phase'.caller? = none) :
    Kept client ({ ch with pool := ch.pool.giveBack g }.setPhase n phase') := by
  refine kept.turn_step here rfl (.giveBack g) rfl (kept.toManned.goesOn_giveBack here ends) ?_
    (getElem?_contents_plain rfl) ?_
  · rintro request g rfl
    cases ends
  · rintro request c ⟨_, there, _⟩
    cases here.symm.trans there

theorem move (move : Move client ch event ch') : Kept client ch' := by
  cases move with
  | stay => exact kept
  | meet => exact kept.meet _ _
  | reject _ => exact kept.reject _
  | join _ =>
    refine kept.join (n := ch.calls.length) ?_ List.getElem?_concat_length getElem?_concat_of_ne
    rintro g ⟨_, here, _⟩
    cases (List.getElem?_eq_none (Nat.le_refl _)).symm.trans here
  | @seek _ step n g request seeks here =>
    have turned : Kept client { pool := ch.pool.step step, calls := ch.calls.set n (.getting request g) } :=
      kept.turn_step here rfl step seeks.caller?_eq (kept.toManned.seek seeks here) (fun _ _ => Phase.noConfusion)
        seeks.getElem?_contents fun own => (not_exchanges_of_getting here own).elim
    rwa [calls_set_self here] at turned
  | @fail n g request failure here failed =>
    exact kept.turn here rfl (.of_gets rfl)
      (kept.toManned.turn here rfl kept.sound (.of_gets rfl) (.ended rfl failed rfl)) (fun _ _ => Phase.noConfusion)
      (fun member _ => member) (fun found _ => .inl found) fun own => (not_exchanges_of_getting here own).elim
  | renew here holds =>
    exact kept.turn_step here rfl (.put _ true) rfl (goesOn_put holds _ _) (fun _ _ => Phase.noConfusion)
      (getElem?_contents_plain rfl)
      fun own => (not_exchanges_of_getting here own).elim
  | send here holds live => exact kept.send here holds live
  | finish here holds there came => exact kept.finish here holds there came
  | abort _ here => exact kept.abort here
  | @drop n g phase here waits settled empty =>
    refine kept.turn_step here (Phase.caller?_of_waits? waits) (.drop g) rfl
      (kept.toManned.drop here waits settled empty) (fun _ _ => Phase.noConfusion)
      (getElem?_contents_plain rfl) ?_
    rintro request c ⟨g', there, holds⟩
    obtain rfl := Option.some.inj (here.symm.trans there)
    cases waits
    exact absurd holds (empty c)
  | dropConn here waits holds => exact kept.dropConn here waits holds
  | leave here ends => exact kept.giveBack here (Next.caller?_ending ends)
  | @again n g request here =>
    -- between the two connections the call counts for nothing
    have parted : Kept client ({ ch with pool := ch.pool.giveBack g }.setPhase n .dropped) :=
      kept.giveBack here rfl
    refine parted.join (n := n) ?_ (getElem?_set_self here) fun other =>
      (getElem?_set_of_ne other).trans (getElem?_set_of_ne other).symm
    rintro g' ⟨_, there, caller⟩
    obtain rfl := Option.some.inj ((getElem?_set_self here).symm.trans there)
    cases caller

theorem run (events : List (Event ι)) : Kept client (ch.run client events) :=
  List.foldlRecOn events (step client) kept fun ch kept event _ => kept.move (ch.step_move client event)

end Kept

theorem kept_new (client : Client κ ι) (size : Nat) : Kept client (new size) where
  sound := Pool.sound_new size none
  fits here _ := by cases here
  alone := by rintro n m g ⟨_, here, _⟩; cases here
  manned there := by cases there
  carries := by rintro n request c conn ⟨_, here, _⟩; cases here
  rests member := by cases member

end RpcClient.Http.Channel
