import RpcClient.Proofs.Http.Moves
import RpcClient.Proofs.Pool.Custody

/-! The calls of a channel as callers of its pool. A caller that has not come to its end belongs to a call
that has not ended either, and has come as far as that call. -/
namespace RpcClient.Http.Channel

variable {κ ι : Type} {client : Client κ ι} {ch ch' : Channel κ} {pool : Pool κ Unit} {event : Event ι}
  {request : Http.Request} {n m g c : Nat} {phase phase' : Phase} {stand stand' : Pool.Phase}

/-- A call is this caller of the pool. -/
def Owns (ch : Channel κ) (n g : Nat) : Prop :=
  ∃ phase, ch.calls[n]? = some phase ∧ phase.caller? = some g

/-- A call has sent its request on this connection. -/
def Exchanges (ch : Channel κ) (n : Nat) (request : Http.Request) (c : Nat) : Prop :=
  ∃ g, ch.calls[n]? = some (.exchanging request g) ∧ ch.pool.gets[g]? = some (.holding c)

/-- A call has this connection, with or without an exchange on it. -/
def Holds (ch : Channel κ) (n c : Nat) : Prop :=
  ∃ g, ch.Owns n g ∧ ch.pool.gets[g]? = some (.holding c)

/-- How far a call has come, and how far it has come as a caller of the pool. -/
inductive Fits : Phase → Pool.Phase → Prop where
  | getting {request : Http.Request} {g : Nat} {stand : Pool.Phase} :
      stand ≠ .parted → Fits (.getting request g) stand
  | exchanging {request : Http.Request} {g c : Nat} : Fits (.exchanging request g) (.holding c)
  | parting {g : Nat} {next : Next} : Fits (.parting g next) .parted

structure Manned (ch : Channel κ) : Prop where
  sound : Pool.Sound ch.pool
  fits : ∀ {n g : Nat} {phase}, ch.calls[n]? = some phase → phase.caller? = some g →
    ∃ stand, ch.pool.gets[g]? = some stand ∧ Fits phase stand
  alone : ∀ {n m g}, ch.Owns n g → ch.Owns m g → n = m
  manned : ∀ {g : Nat} {stand}, ch.pool.gets[g]? = some stand → stand.isOver = true ∨ ∃ n, ch.Owns n g

theorem owner_unique {g' : Nat} (owns : ch.Owns n g) (owns' : ch.Owns n g') : g = g' := by
  obtain ⟨phase, here, caller⟩ := owns
  obtain ⟨phase', here', caller'⟩ := owns'
  obtain rfl := Option.some.inj (here.symm.trans here')
  exact Option.some.inj (caller.symm.trans caller')

theorem Phase.caller?_of_waits? (waits : phase.waits? = some g) : phase.caller? = some g := by
  cases phase <;> first | exact waits | cases waits

theorem Next.caller?_ending {next : Next} (ends : next.ending? = some phase) : phase.caller? = none := by
  cases next <;> cases ends <;> rfl

theorem getElem?_set_self (here : ch.calls[n]? = some phase) :
    (ch.calls.set n phase')[n]? = some phase' := by
  obtain ⟨bound, _⟩ := List.getElem?_eq_some_iff.mp here
  exact List.getElem?_set_self bound

theorem getElem?_set_of_ne (other : m ≠ n) : (ch.calls.set n phase')[m]? = ch.calls[m]? :=
  List.getElem?_set_ne (Ne.symm other)

theorem getElem?_concat_of_ne {calls : List Phase} (other : m ≠ calls.length) :
    (calls ++ [phase])[m]? = calls[m]? := by
  rw [List.getElem?_append]
  split
  · rfl
  · rw [List.getElem?_eq_none (by simp; omega), List.getElem?_eq_none (by omega)]

theorem Owns.of_set (here : ch.calls[n]? = some phase)
    (same : ∀ {g}, phase'.caller? = some g → phase.caller? = some g)
    (owns : Owns { pool, calls := ch.calls.set n phase' } m g) : ch.Owns m g := by
  obtain ⟨phase₁, there, caller⟩ := owns
  by_cases mine : m = n
  · obtain rfl := mine
    obtain rfl := Option.some.inj ((getElem?_set_self here).symm.trans there)
    exact ⟨phase, here, same caller⟩
  · exact ⟨phase₁, (getElem?_set_of_ne mine).symm.trans there, caller⟩

theorem Owns.set_of_ne (owns : ch.Owns m g) (other : m ≠ n) :
    Owns { pool, calls := ch.calls.set n phase' } m g := by
  obtain ⟨phase₁, there, caller⟩ := owns
  exact ⟨phase₁, (getElem?_set_of_ne other).trans there, caller⟩

theorem Owns.of_join {calls : List Phase} (here : calls[n]? = some (.getting request ch.pool.gets.length))
    (elsewhere : ∀ {m}, m ≠ n → calls[m]? = ch.calls[m]?) (owns : Owns { pool, calls } m g) :
    (m = n ∧ g = ch.pool.gets.length) ∨ (m ≠ n ∧ ch.Owns m g) := by
  obtain ⟨phase, there, caller⟩ := owns
  by_cases mine : m = n
  · obtain rfl := mine
    obtain rfl := Option.some.inj (here.symm.trans there)
    exact .inl ⟨rfl, (Option.some.inj caller).symm⟩
  · exact .inr ⟨mine, phase, (elsewhere mine).symm.trans there, caller⟩

theorem Exchanges.holds (exchanges : ch.Exchanges n request c) : ch.Holds n c := by
  obtain ⟨g, here, holding⟩ := exchanges
  exact ⟨g, ⟨_, here, rfl⟩, holding⟩

theorem Holds.mem_held (holds : ch.Holds n c) : c ∈ ch.pool.held := by
  obtain ⟨g, _, holding⟩ := holds
  exact Pool.mem_held.mpr ⟨g, holding⟩

theorem Holds.mem_stock (holds : ch.Holds n c) : c ∈ ch.pool.stock :=
  List.mem_append_right _ holds.mem_held

namespace Manned

variable (manned : Manned ch)
include manned

theorem exclusive (holds : ch.Holds n c) (holds' : ch.Holds m c) : n = m := by
  obtain ⟨g, owns, holding⟩ := holds
  obtain ⟨g', owns', holding'⟩ := holds'
  obtain rfl := manned.sound.stocked.eq_of_holding holding holding'
  exact manned.alone owns owns'

theorem notMem_free (holds : ch.Holds n c) : c ∉ ch.pool.free :=
  fun idle => (List.nodup_append.mp manned.sound.stocked.nodup).2.2 c idle c holds.mem_held rfl

theorem known (owns : ch.Owns n g) : g < ch.pool.gets.length := by
  obtain ⟨phase, here, caller⟩ := owns
  obtain ⟨stand, found, _⟩ := manned.fits here caller
  exact (List.getElem?_eq_some_iff.mp found).1

theorem busy (here : ch.calls[n]? = some (.exchanging request g)) : ∃ c, ch.pool.gets[g]? = some (.holding c) := by
  obtain ⟨stand, found, fits⟩ := manned.fits here rfl
  cases fits
  exact ⟨_, found⟩

theorem parted {next : Next} (here : ch.calls[n]? = some (.parting g next)) :
    ch.pool.gets[g]? = some .parted := by
  obtain ⟨stand, found, fits⟩ := manned.fits here rfl
  cases fits
  exact found

/-- A call whose caller can drop it has not parted with its connection yet. -/
theorem exists_of_waits (here : ch.calls[n]? = some phase) (waits : phase.waits? = some g) :
    ∃ stand, ch.pool.gets[g]? = some stand ∧ stand ≠ .parted := by
  obtain ⟨stand, found, fits⟩ := manned.fits here (Phase.caller?_of_waits? waits)
  refine ⟨stand, found, ?_⟩
  cases fits with
  | getting apart => exact apart
  | exchanging => exact Pool.Phase.noConfusion
  | parting => cases waits

theorem ne_of_owns {g' : Nat} (owns : ch.Owns m g') (owns' : ch.Owns n g) (other : m ≠ n) : g' ≠ g := by
  rintro rfl
  exact other (manned.alone owns owns')

end Manned

/-! ### Steps of a call -/

/-- A call that is not meant has come as far as before. -/
theorem Fits.spared (fits : Fits phase stand)
    (spared : pool.gets[g]? = some stand ∨ (stand = .queued ∧ pool.gets[g]? = some .granted)) :
    ∃ stand', pool.gets[g]? = some stand' ∧ Fits phase stand' := by
  obtain same | ⟨rfl, granted⟩ := spared
  · exact ⟨stand, same, fits⟩
  · cases fits
    exact ⟨.granted, granted, .getting Pool.Phase.noConfusion⟩

/-- How far a call has come behind a step: it goes on as the caller that it is, or both come to their end. -/
inductive GoesOn (pool : Pool κ Unit) (g : Nat) (phase : Phase) : Prop where
  | still {stand : Pool.Phase} :
      phase.caller? = some g → pool.gets[g]? = some stand → Fits phase stand → GoesOn pool g phase
  | ended {stand : Pool.Phase} :
      phase.caller? = none → pool.gets[g]? = some stand → stand.isOver = true → GoesOn pool g phase

theorem GoesOn.caller? (goesOn : GoesOn pool g phase) {g' : Nat} (caller : phase.caller? = some g') : g' = g := by
  cases goesOn with
  | still same _ _ => exact Option.some.inj (caller.symm.trans same)
  | ended none _ _ => cases none.symm.trans caller

section

variable (manned : Manned ch) (here : ch.calls[n]? = some phase) (caller : phase.caller? = some g)
include manned here caller

theorem exchanges_set_iff (spares : Pool.Spares ch.pool pool g) (other : m ≠ n) :
    Exchanges { pool, calls := ch.calls.set n phase' } m request c ↔ ch.Exchanges m request c := by
  constructor
  · rintro ⟨g', there, holds⟩
    have found := (getElem?_set_of_ne other).symm.trans there
    have apart := manned.ne_of_owns ⟨_, found, rfl⟩ ⟨_, here, caller⟩ other
    exact ⟨g', found, spares.held_before apart holds⟩
  · rintro ⟨g', there, holds⟩
    have apart := manned.ne_of_owns ⟨_, there, rfl⟩ ⟨_, here, caller⟩ other
    exact ⟨g', (getElem?_set_of_ne other).trans there, spares.holding apart holds⟩

theorem Manned.turn (sound : Pool.Sound pool) (spares : Pool.Spares ch.pool pool g)
    (goesOn : GoesOn pool g phase') : Manned { pool, calls := ch.calls.set n phase' } := by
  have same : ∀ {g'}, phase'.caller? = some g' → phase.caller? = some g' := by
    intro g' caller'
    rw [caller, goesOn.caller? caller']
  refine ⟨sound, fun {m g' phase₁} there caller₁ => ?_,
    fun owns owns' => manned.alone (owns.of_set here same) (owns'.of_set here same), fun {g' stand} there => ?_⟩
  · by_cases mine : m = n
    · obtain rfl := mine
      obtain rfl := Option.some.inj ((getElem?_set_self here).symm.trans there)
      obtain rfl := goesOn.caller? caller₁
      cases goesOn with
      | still _ found fits => exact ⟨_, found, fits⟩
      | ended none _ _ => cases none.symm.trans caller₁
    · have found := (getElem?_set_of_ne mine).symm.trans there
      obtain ⟨stand, stands, fits⟩ := manned.fits found caller₁
      exact fits.spared (spares.others (manned.ne_of_owns ⟨_, found, caller₁⟩ ⟨_, here, caller⟩ mine) stands)
  · by_cases mine : g' = g
    · subst mine
      cases goesOn with
      | still caller' _ _ => exact .inr ⟨n, phase', getElem?_set_self here, caller'⟩
      | ended _ past finished =>
        obtain rfl := Option.some.inj (past.symm.trans there)
        exact .inl finished
    · have bound : g' < ch.pool.gets.length := spares.length ▸ (List.getElem?_eq_some_iff.mp there).1
      have before := List.getElem?_eq_getElem bound
      obtain finished | ⟨m, owns⟩ := manned.manned before
      · obtain rfl := Option.some.inj ((spares.isOver mine before finished).symm.trans there)
        exact .inl finished
      · have other : m ≠ n := by
          rintro rfl
          exact mine (owner_unique owns ⟨phase, here, caller⟩)
        exact .inr ⟨m, owns.set_of_ne other⟩

end

theorem Manned.join (manned : Manned ch) {calls : List Phase}
    (idle : ∀ {g}, ¬ ch.Owns n g) (here : calls[n]? = some (.getting request ch.pool.gets.length))
    (elsewhere : ∀ {m}, m ≠ n → calls[m]? = ch.calls[m]?) : Manned { pool := ch.pool.get, calls } := by
  obtain ⟨joined, grown, fresh⟩ := ch.pool.gets_get
  refine ⟨manned.sound.step .get, fun {m g phase₁} there caller₁ => ?_, fun {m m' g} owns owns' => ?_,
    fun {g phase₁} there => ?_⟩
  · by_cases mine : m = n
    · obtain rfl := mine
      obtain rfl := Option.some.inj (here.symm.trans there)
      obtain rfl := Option.some.inj caller₁
      exact ⟨joined, by rw [grown, List.getElem?_concat_length], .getting fresh⟩
    · obtain ⟨stand, found, fits⟩ := manned.fits ((elsewhere mine).symm.trans there) caller₁
      exact ⟨stand, by rw [grown, Pool.getElem?_join found], fits⟩
  · obtain ⟨rfl, rfl⟩ | ⟨_, owns⟩ := owns.of_join here elsewhere
    · obtain ⟨rfl, _⟩ | ⟨_, owns'⟩ := owns'.of_join here elsewhere
      · rfl
      · exact (Nat.lt_irrefl _ (manned.known owns')).elim
    · obtain ⟨_, rfl⟩ | ⟨_, owns'⟩ := owns'.of_join here elsewhere
      · exact (Nat.lt_irrefl _ (manned.known owns)).elim
      · exact manned.alone owns owns'
  · rw [grown, List.getElem?_append] at there
    split at there
    · obtain finished | ⟨m, phase₂, found, caller'⟩ := manned.manned there
      · exact .inl finished
      · have other : m ≠ n := by
          rintro rfl
          exact idle ⟨phase₂, found, caller'⟩
        exact .inr ⟨m, phase₂, (elsewhere other).trans found, caller'⟩
    · next beyond =>
      obtain ⟨last, _⟩ := List.getElem?_eq_some_iff.mp there
      have behind : g = ch.pool.gets.length := by
        rw [List.length_singleton] at last
        omega
      exact .inr ⟨n, _, here, congrArg some behind.symm⟩

/-! ### Steps of a channel -/

theorem Seeks.caller?_eq {step : Pool.Event κ} (seeks : Seeks client n g event step) : step.caller? = some g := by
  cases seeks <;> rfl

/-- A call does not part with a connection on its way to one. -/
theorem Seeks.ne_parted {step : Pool.Event κ} (seeks : Seeks client n g event step) {p : Pool κ Unit}
    (apart : p.gets[g]? ≠ some .parted) : (p.step step).gets[g]? ≠ some .parted := by
  intro parts
  obtain before | drops | ⟨_, puts⟩ := (p.step_custody step).parted parts
  · exact apart before
  · cases seeks <;> cases drops
  · cases seeks <;> cases puts

theorem calls_set_self (here : ch.calls[n]? = some phase) : ch.calls.set n phase = ch.calls := by
  obtain ⟨_, rfl⟩ := List.getElem?_eq_some_iff.mp here
  exact List.set_getElem_self _

theorem getElem?_of_reject {result : Except Failure RpcClient.Response}
    (here : (ch.calls ++ [Phase.done result])[n]? = some phase) (caller : phase.caller? = some g) :
    ch.calls[n]? = some phase := by
  refine Pool.found_of_join ?_ here
  rintro rfl
  cases caller

namespace Manned

variable (manned : Manned ch)
include manned

theorem reject (result : Except Failure RpcClient.Response) :
    Manned { ch with calls := ch.calls ++ [.done result] } := by
  have before : ∀ {n g}, Owns { ch with calls := ch.calls ++ [.done result] } n g → ch.Owns n g := by
    rintro n g ⟨phase, here, caller⟩
    exact ⟨phase, getElem?_of_reject here caller, caller⟩
  refine ⟨manned.sound, fun there caller => manned.fits (getElem?_of_reject there caller) caller,
    fun owns owns' => manned.alone (before owns) (before owns'), fun there => ?_⟩
  refine (manned.manned there).imp_right ?_
  rintro ⟨n, phase, here, caller⟩
  obtain ⟨bound, _⟩ := List.getElem?_eq_some_iff.mp here
  exact ⟨n, phase, (List.getElem?_append_left bound).trans here, caller⟩

theorem modifyConn (c : Nat) (f : κ → κ) : Manned (ch.modifyConn c f) where
  sound := by
    refine manned.sound.modifyConn ?_ c
    exact fun _ closed => closed
  fits := manned.fits
  alone := manned.alone
  manned := manned.manned

theorem seek {step : Pool.Event κ} (seeks : Seeks client n g event step)
    (here : ch.calls[n]? = some (.getting request g)) :
    GoesOn (ch.pool.step step) g (.getting request g) := by
  obtain ⟨old, found, fits⟩ := manned.fits here rfl
  have spares := manned.sound.balanced.spares (ch.pool.step_move step) seeks.caller?_eq
  have bound := spares.length ▸ manned.known ⟨_, here, rfl⟩
  have there := List.getElem?_eq_getElem bound
  refine .still rfl there (.getting fun parts => ?_)
  refine seeks.ne_parted (p := ch.pool) ?_ (there.trans (congrArg some parts))
  rintro before
  obtain rfl := Option.some.inj (found.symm.trans before)
  cases fits with
  | getting apart => exact apart rfl

/-- A call that is dropped without a connection has come to its end as a caller. -/
theorem drop (here : ch.calls[n]? = some phase) (waits : phase.waits? = some g)
    (settled : ch.pool.gets[g]? ≠ some .picking) (empty : ∀ c, ch.pool.gets[g]? ≠ some (.holding c)) :
    GoesOn (ch.pool.step (.drop g)) g .dropped := by
  obtain ⟨old, found, apart⟩ := manned.exists_of_waits here waits
  rw [found] at settled empty
  have none : old.conn? = none := by
    cases old with
    | holding c => exact absurd rfl (empty c)
    | _ => rfl
  obtain ⟨new, past, finished⟩ := manned.sound.balanced.isOver_drop found none
    (fun picks => settled (congrArg some picks)) apart
  exact .ended rfl past finished

theorem turn_step (here : ch.calls[n]? = some phase) (caller : phase.caller? = some g) (step : Pool.Event κ)
    (mine : step.caller? = some g) (goesOn : GoesOn (ch.pool.step step) g phase') :
    Manned { pool := ch.pool.step step, calls := ch.calls.set n phase' } :=
  manned.turn here caller (manned.sound.step step)
    (manned.sound.balanced.spares (ch.pool.step_move step) mine) goesOn

end Manned

/-- A call has parted with its connection. -/
theorem goesOn_put (holds : pool.gets[g]? = some (.holding c)) (discard : Bool) (next : Next) :
    GoesOn (pool.step (.put g discard)) g (.parting g next) :=
  .still rfl ((Pool.parted_of_parts holds).1 discard) .parting

theorem goesOn_drop (holds : pool.gets[g]? = some (.holding c)) (next : Next) :
    GoesOn (pool.step (.drop g)) g (.parting g next) :=
  .still rfl (Pool.parted_of_parts holds).2 .parting

theorem Manned.goesOn_giveBack {next : Next} (manned : Manned ch) (here : ch.calls[n]? = some (.parting g next))
    (ends : phase'.caller? = none) : GoesOn (ch.pool.step (.giveBack g)) g phase' :=
  .ended ends (manned.sound.balanced.returned_giveBack (manned.parted here)) rfl

end RpcClient.Http.Channel
