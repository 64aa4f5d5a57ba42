import Mathlib.Data.List.Perm.Basic
import RpcClient.Proofs.Pool.Accounting

/-! The connections of a pool: those that nobody holds, those that callers hold, and those that are being
made. There are never more of them than places, although callers with a place are all that is counted. -/
namespace RpcClient.Pool

theorem Phase.countP_isDialing_le (gets : List Phase) : gets.countP isDialing ≤ gets.countP isSeeking := by
  refine List.countP_mono_left fun phase _ dials => ?_
  cases phase <;> first | rfl | cases dials

variable {κ σ : Type} {p p' : Pool κ σ} {event : Event κ} {g c : Nat} {old new : Phase}

/-- The connections that callers hold. -/
def held (p : Pool κ σ) : List Nat :=
  p.gets.filterMap Phase.conn?

/-- The connections that the pool has made and not let go of. -/
def stock (p : Pool κ σ) : List Nat :=
  p.free ++ p.held

/-- The number of callers that connect. -/
def dialing (p : Pool κ σ) : Nat :=
  p.gets.countP Phase.isDialing

/-- No connection is made, and none that was closed is open. -/
structure Fades (p p' : Pool κ σ) : Prop where
  length : p'.conns.length = p.conns.length
  closed : ∀ {c}, p.isClosed c = true → p'.isClosed c = true

/-- What a step does to the connections. -/
inductive Traffic (p p' : Pool κ σ) : Prop where
  /-- Connections stay where they are, or pass between the pool and a caller. -/
  | pass : Fades p p' → p'.stock.Perm p.stock → p'.dialing ≤ p.dialing → Traffic p p'
  /-- A connection that is closed is let go of. -/
  | part {c : Nat} : Fades p p' → p.stock.Perm (c :: p'.stock) → p'.dialing ≤ p.dialing →
      p'.isClosed c = true → Traffic p p'
  /-- A caller starts to connect that has found nothing to take. -/
  | dial : Fades p p' → p'.stock.Perm p.stock → p'.free = [] → Traffic p p'
  /-- A caller has connected. -/
  | connect {conn : Connection κ σ} : p'.conns = p.conns ++ [conn] →
      p'.stock.Perm (p.conns.length :: p.stock) → p'.dialing + 1 = p.dialing → Traffic p p'

/-! ### Callers that go on -/

theorem perm_filterMap_set {α β : Type} {f : α → Option β} {l : List α} {i : Nat} {a : α} (b : α)
    (found : l[i]? = some a) :
    ((f a).toList ++ (l.set i b).filterMap f).Perm ((f b).toList ++ l.filterMap f) := by
  obtain ⟨bound, rfl⟩ := List.getElem?_eq_some_iff.mp found
  have split : ∀ x rest, (x :: rest).filterMap f = (f x).toList ++ rest.filterMap f := by
    intro x rest
    rw [List.filterMap_cons]
    cases f x <;> rfl
  have after := (List.set_perm_cons_eraseIdx bound b).filterMap f
  have before := (List.getElem_cons_eraseIdx_perm bound).filterMap f
  rw [split] at after before
  -- both sides are what the two hold, in front of what the others do
  exact ((after.append_left _).trans (List.perm_append_comm_assoc _ _ _)).trans (before.append_left _)

theorem length_held (p : Pool κ σ) : p.held.length = p.gets.countP Phase.isHolding := by
  rw [held, List.length_filterMap_eq_countP]
  refine List.countP_congr fun phase _ => ?_
  cases phase <;> simp [Phase.conn?, Phase.isHolding]

theorem mem_held : c ∈ p.held ↔ ∃ g : Nat, p.gets[g]? = some (.holding c) := by
  rw [held, List.mem_filterMap]
  constructor
  · rintro ⟨phase, member, same⟩
    obtain ⟨g, here⟩ := List.mem_iff_getElem?.mp member
    refine ⟨g, here.trans (congrArg some ?_)⟩
    cases phase <;> cases same
    rfl
  · rintro ⟨g, here⟩
    exact ⟨_, List.mem_of_getElem? here, rfl⟩

section

variable (queue free : List Nat) (conns : List (Connection κ σ))

theorem perm_stock_setPhase (here : p.gets[g]? = some old) (new : Phase) :
    (old.conn?.toList ++ ({ p with queue, free, conns }.setPhase g new).stock).Perm
      (new.conn?.toList ++ (free ++ p.held)) :=
  ((List.perm_append_comm_assoc _ free _).trans
    ((perm_filterMap_set new here).append_left free)).trans (List.perm_append_comm_assoc _ _ _)

theorem dialing_setPhase (here : p.gets[g]? = some old) (new : Phase) :
    ({ p with queue, free, conns }.setPhase g new).dialing + old.isDialing.toNat =
      p.dialing + new.isDialing.toNat :=
  countP_set_add new here

theorem dialing_setPhase_le (here : p.gets[g]? = some old) (after : new.isDialing = false) :
    ({ p with queue, free, conns }.setPhase g new).dialing ≤ p.dialing := by
  have counted := dialing_setPhase queue free conns here new
  rw [after] at counted
  exact Nat.le.intro counted

end

/-- Who gets a place that is given back does not hold anything yet. -/
theorem Orderly.stock_release (orderly : Orderly p) :
    p.release.stock.Perm p.stock ∧ p.release.dialing = p.dialing := by
  simp only [Pool.release]
  split
  · exact ⟨.refl _, rfl⟩
  · next g queue head =>
    have here : p.gets[g]? = some .queued := orderly.mem_queue.mp (by simp [head])
    exact ⟨perm_stock_setPhase queue p.free p.conns here .granted,
      dialing_setPhase queue p.free p.conns here .granted⟩

namespace Fades

theorem refl (p : Pool κ σ) : Fades p p := ⟨rfl, id⟩

theorem of_conns (same : p'.conns = p.conns) : Fades p p' := by
  refine ⟨by rw [same], fun {c} closed => ?_⟩
  rwa [isClosed, same]

theorem modifyConn {f : Connection κ σ → Connection κ σ}
    (keeps : ∀ conn, conn.closed = true → (f conn).closed = true) (p : Pool κ σ) (c : Nat) :
    Fades p (p.modifyConn c f) := by
  refine ⟨List.length_modify _ _ _, fun {c'} closed => ?_⟩
  simp only [isClosed, Pool.modifyConn, List.getElem?_modify] at closed ⊢
  cases found : p.conns[c']? with
  | none => rfl
  | some conn =>
    rw [found] at closed
    simp only [Option.map_eq_map, Option.map_some, Option.getD_some] at closed ⊢
    split
    · exact keeps conn closed
    · exact closed

theorem trans {q : Pool κ σ} (first : Fades p q) (second : Fades q p') : Fades p p' where
  length := second.length.trans first.length
  closed closed := second.closed (first.closed closed)

end Fades

theorem isClosed_closeConn (p : Pool κ σ) (c : Nat) : (p.closeConn c).isClosed c = true := by
  rw [isClosed, closeConn, Pool.modifyConn, List.getElem?_modify_eq]
  cases p.conns[c]? <;> rfl

theorem conns_release (p : Pool κ σ) : p.release.conns = p.conns := by
  simp only [Pool.release]
  split <;> rfl

theorem free_release (p : Pool κ σ) : p.release.free = p.free := by
  simp only [Pool.release]
  split <;> rfl

namespace Traffic

/-- A place that is given back carries no connection with it. -/
theorem release (traffic : Traffic p p') (orderly : Orderly p') : Traffic p p'.release := by
  obtain ⟨stock, dialing⟩ := orderly.stock_release
  have fades := Fades.of_conns p'.conns_release
  cases traffic with
  | pass fades' stock' dialing' =>
    exact .pass (fades'.trans fades) (stock.trans stock') (dialing ▸ dialing')
  | part fades' stock' dialing' closed =>
    exact .part (fades'.trans fades) (stock'.trans (stock.symm.cons _)) (dialing ▸ dialing')
      (fades.closed closed)
  | dial fades' stock' free =>
    exact .dial (fades'.trans fades) (stock.trans stock') (p'.free_release.trans free)
  | connect conns stock' dialing' =>
    exact .connect (p'.conns_release.trans conns) (stock.trans stock') (dialing ▸ dialing')

theorem refl (p : Pool κ σ) : Traffic p p :=
  .pass (.refl p) (.refl _) (Nat.le_refl _)

/-- A connection changes where it is. -/
theorem modifyConn {f : Connection κ σ → Connection κ σ}
    (keeps : ∀ conn, conn.closed = true → (f conn).closed = true) (p : Pool κ σ) (c : Nat) :
    Traffic p (p.modifyConn c f) :=
  .pass (.modifyConn keeps p c) (.refl _) (Nat.le_refl _)

theorem join {available : Nat} {queue : List Nat} (empty : new.conn? = none)
    (idle : new.isDialing = false) :
    Traffic p { p with available, queue, gets := p.gets ++ [new] } := by
  refine .pass (.of_conns rfl) ?_ ?_
  · simp [stock, held, empty]
  · simp [dialing, idle]

theorem setPhase {queue : List Nat} (here : p.gets[g]? = some old) (same : new.conn? = old.conn?)
    (after : new.isDialing = false) : Traffic p ({ p with queue }.setPhase g new) := by
  have stock := perm_stock_setPhase queue p.free p.conns here new
  rw [same, List.perm_append_left_iff] at stock
  exact .pass (.of_conns rfl) stock (dialing_setPhase_le _ _ _ here after)

/-- A caller takes a connection that nobody holds. -/
theorem take {free : List Nat} (here : p.gets[g]? = some .picking) (head : p.free = c :: free) :
    Traffic p ({ p with free }.setPhase g (.holding c)) := by
  have stock := perm_stock_setPhase p.queue free p.conns here (.holding c)
  have whole : p.stock = c :: (free ++ p.held) := by rw [Pool.stock, head]; rfl
  exact .pass (.of_conns rfl) (whole ▸ stock) (dialing_setPhase_le _ _ _ here rfl)

/-- A connection that nobody holds turns out to be closed. -/
theorem skip {free : List Nat} (head : p.free = c :: free) (closed : p.isClosed c = true) :
    Traffic p { p with free } := by
  refine .part (c := c) (.of_conns rfl) ?_ (Nat.le_refl _) closed
  rw [stock, head]
  exact .refl _

theorem dials (here : p.gets[g]? = some .picking) (none : p.free = []) :
    Traffic p (p.setPhase g .dialing) :=
  .dial (.of_conns rfl) (perm_stock_setPhase p.queue p.free p.conns here .dialing) none

theorem connects {conn : Connection κ σ} (here : p.gets[g]? = some .dialing) :
    Traffic p ({ p with conns := p.conns ++ [conn] }.setPhase g (.holding p.conns.length)) :=
  .connect rfl (perm_stock_setPhase p.queue p.free _ here _) (dialing_setPhase p.queue p.free _ here _)

/-- A caller parts with a connection that is not to be kept. -/
theorem discard (here : p.gets[g]? = some (.holding c)) :
    Traffic p ((p.closeConn c).setPhase g .parted) := by
  have stock := perm_stock_setPhase p.queue p.free (p.closeConn c).conns here .parted
  have fades : Fades p (p.closeConn c) := .modifyConn (fun _ _ => rfl) p c
  exact .part (fades.trans (.of_conns rfl)) stock.symm (dialing_setPhase_le _ _ _ here rfl)
    (p.isClosed_closeConn c)

/-- A caller parts with a connection that is kept, and still has its place. -/
theorem keep (here : p.gets[g]? = some (.holding c)) :
    Traffic p ({ p with free := c :: p.free }.setPhase g .parted) := by
  have stock := perm_stock_setPhase p.queue (c :: p.free) p.conns here .parted
  exact .pass (.of_conns rfl) stock.cons_inv (dialing_setPhase_le _ _ _ here rfl)

end Traffic

/-! ### The steps of a pool -/

theorem Inside.closed {f : Connection κ σ → Connection κ σ} (inside : Inside p event c f) (conn : Connection κ σ)
    (closed : conn.closed = true) : (f conn).closed = true := by
  cases inside with
  | close _ => rfl
  | replace _ => exact closed
  | feed _ _ => exact (conn.closed_feed _ _).trans closed
  | halt _ _ _ => exact closed
  | stop _ => rfl

theorem Act.traffic [Inhabited σ] (act : Act p event p') (orderly : Orderly p) : Traffic p p' := by
  cases act with
  | rest _ => exact .refl p
  | enter _ => exact .join rfl rfl
  | wait _ => exact .join rfl rfl
  | resume here => exact .setPhase here rfl rfl
  | take here head _ => exact .take here head
  | shed _ head closed => exact .skip head closed
  | dial here none => exact .dials here none
  | connect here => exact .connects here
  | leave _ here outcome =>
    have finished := Event.isOver_of_outcome? outcome
    exact .setPhase here (Phase.conn?_eq_none_of_isOver finished) (Phase.isDialing_eq_false_of_isOver finished)
  | giveBack _ here outcome place =>
    -- what ends here held no connection any more
    have finished := Event.isOver_of_outcome? outcome
    have same := (Phase.conn?_eq_none_of_isOver finished).trans (Event.conn?_of_outcome? outcome).symm
    exact (Traffic.setPhase here same (Phase.isDialing_eq_false_of_isOver finished)).release
      (orderly.setPhase here (Phase.ne_queued_of_hasPlace place) (Event.ne_queued_of_outcome? outcome))
  | keep here _ _ => exact .keep here
  | discard here _ => exact .discard here
  | inside inside => exact .modifyConn inside.closed p _

theorem Orderly.step_traffic [Inhabited σ] (orderly : Orderly p) (event : Event κ) : Traffic p (p.step event) :=
  (p.step_act event).traffic orderly

/-! ### The connections of a pool over a run -/

/-- Each connection that is open has one place, and there are no more of them than places. -/
structure Stocked (p : Pool κ σ) : Prop where
  nodup : p.stock.Nodup
  known : ∀ {c}, c ∈ p.stock → c < p.conns.length
  present : ∀ {c}, p.isClosed c = false → c ∈ p.stock
  total : p.stock.length + p.dialing ≤ p.maxActive

namespace Stocked

theorem isClosed_eq_false (fades : Fades p p') (live : p'.isClosed c = false) :
    p.isClosed c = false := by
  rw [← Bool.not_eq_true] at live ⊢
  exact mt fades.closed live

/-- Callers with a place hold one connection each at most. -/
theorem held_add_dialing_le (balanced : Balanced p) : p.held.length + p.dialing ≤ p.maxActive := by
  have places := balanced.places
  have seeking := Phase.countP_isDialing_le p.gets
  rw [Phase.countP_hasPlace] at places
  rw [length_held, dialing]
  omega

theorem of_perm (stocked : Stocked p) (fades : Fades p p') (stock : p'.stock.Perm p.stock)
    (total : p'.stock.length + p'.dialing ≤ p'.maxActive) : Stocked p' where
  nodup := stock.nodup_iff.mpr stocked.nodup
  known member := by
    rw [fades.length]
    exact stocked.known (stock.mem_iff.mp member)
  present live := stock.mem_iff.mpr (stocked.present (isClosed_eq_false fades live))
  total := total

theorem traffic (stocked : Stocked p) (traffic : Traffic p p') (balanced : Balanced p')
    (maxActive : p'.maxActive = p.maxActive) : Stocked p' := by
  have total := stocked.total
  cases traffic with
  | pass fades stock dialing =>
    refine stocked.of_perm fades stock ?_
    rw [stock.length_eq, maxActive]
    omega
  | @part c fades stock dialing closed =>
    refine ⟨(List.nodup_cons.mp (stock.nodup_iff.mp stocked.nodup)).2, fun {c'} member => ?_,
      fun {c'} live => ?_, ?_⟩
    · rw [fades.length]
      exact stocked.known (stock.mem_iff.mpr (List.mem_cons_of_mem c member))
    · have here := stock.mem_iff.mp (stocked.present (isClosed_eq_false fades live))
      obtain rfl | here := List.mem_cons.mp here
      · rw [closed] at live
        cases live
      · exact here
    · have shorter := stock.length_eq
      rw [List.length_cons] at shorter
      omega
  | dial fades stock free =>
    refine stocked.of_perm fades stock ?_
    -- nothing lies idle, so that the places of the callers are enough
    rw [Pool.stock, free, List.nil_append]
    exact held_add_dialing_le balanced
  | @connect conn conns stock dialing =>
    have absent : p.conns.length ∉ p.stock := fun member => Nat.lt_irrefl _ (stocked.known member)
    refine ⟨stock.nodup_iff.mpr (List.nodup_cons.mpr ⟨absent, stocked.nodup⟩), fun {c} member => ?_,
      fun {c} live => ?_, ?_⟩
    · rw [conns, List.length_append]
      obtain rfl | member := List.mem_cons.mp (stock.mem_iff.mp member)
      · exact Nat.lt_succ_self _
      · exact Nat.lt_succ_of_lt (stocked.known member)
    · rw [stock.mem_iff, List.mem_cons]
      by_cases last : c = p.conns.length
      · exact .inl last
      · refine .inr (stocked.present ?_)
        rw [isClosed, conns, List.getElem?_append] at live
        split at live
        · exact live
        · rw [List.getElem?_eq_none (by simp; omega)] at live
          cases live
    · rw [stock.length_eq, List.length_cons, maxActive]
      omega

theorem run [Inhabited σ] (stocked : Stocked p) (balanced : Balanced p) (events : List (Event κ)) :
    Stocked (p.run events) := by
  induction events generalizing p with
  | nil => exact stocked
  | cons event events ih =>
    have balanced' := balanced.move (p.step_move event)
    exact ih (stocked.traffic (balanced.step_traffic event) balanced' (p.maxActive_step event)) balanced'

end Stocked

theorem stocked_new (size : Nat) (handler : Option (Handler σ)) :
    Stocked (Pool.new size handler : Pool κ σ) :=
  ⟨List.nodup_nil, nofun, nofun, Nat.zero_le _⟩

/-- The connections of a pool of the given size are within bounds, so that there is room for each that
comes back. -/
structure Bounded [Inhabited σ] (size : Nat) (p : Pool κ σ) : Prop where
  total : p.idle + p.gets.countP Phase.isHolding + p.gets.countP Phase.isDialing ≤ max size 1
  /-- No connection is idle twice, held by two callers, or both idle and held. -/
  apart : (p.free ++ p.gets.filterMap Phase.conn?).Nodup
  /-- A connection is open only while it is idle or a caller holds it. -/
  present : ∀ {c}, p.isClosed c = false → c ∈ p.free ∨ ∃ g : Nat, p.gets[g]? = some (.holding c)
  /-- While a caller holds a connection, there is room for it among the idle ones. -/
  room : ∀ {g c : Nat}, p.gets[g]? = some (.holding c) → p.idle < p.maxActive
  /-- An open connection that a caller puts back to be kept is kept. The caller still has its place then. -/
  kept : ∀ {g c : Nat}, p.gets[g]? = some (.holding c) → p.isClosed c = false →
    (p.step (.put g false)).free = c :: p.free ∧ (p.step (.put g false)).isClosed c = false ∧
      (p.step (.put g false)).gets[g]? = some .parted
  /-- Nothing becomes of the connections when it gives that place back. -/
  returned : ∀ {g : Nat}, p.gets[g]? = some .parted → (p.step (.giveBack g)).gets[g]? = some .returned ∧
    (p.step (.giveBack g)).free = p.free ∧ (p.step (.giveBack g)).conns = p.conns

/-- In every run the connections of a pool are within bounds. -/
theorem bounded_run [Inhabited σ] (size : Nat) (handler : Option (Handler σ)) (events : List (Event κ)) :
    Bounded size ((Pool.new size handler : Pool κ σ).run events) := by
  have balanced := (balanced_new size handler : Balanced (Pool.new size handler : Pool κ σ))
  have stocked := (stocked_new size handler).run balanced events
  have balanced := balanced.run events
  have maxActive : ((Pool.new size handler : Pool κ σ).run events).maxActive = max size 1 :=
    maxActive_run _ events
  generalize (Pool.new size handler : Pool κ σ).run events = p at balanced stocked maxActive
  have room : ∀ {g c : Nat}, p.gets[g]? = some (.holding c) → p.idle < p.maxActive := by
    intro g c here
    have total := stocked.total
    have some := List.length_pos_of_mem (mem_held.mpr ⟨g, here⟩)
    rw [stock, List.length_append] at total
    rw [idle]
    omega
  refine ⟨?_, stocked.nodup, fun {c} live => ?_, room, fun {g c} here live => ?_, fun {g} here => ?_⟩
  · have total := stocked.total
    rw [stock, List.length_append, length_held, maxActive] at total
    exact total
  · rw [← mem_held, ← List.mem_append]
    exact stocked.present live
  · have kept := (Act.keep here live (room here)).eq_step
    rw [← kept]
    exact ⟨rfl, live, getElem?_setPhase_self (p := { p with free := c :: p.free }) here⟩
  · have given : (p.setPhase g .returned).release = p.step (.giveBack g) := (Act.giveBack rfl here rfl rfl).eq_step
    refine ⟨(balanced.givesBack (p.step_move (.giveBack g)) rfl here rfl rfl).1, ?_, ?_⟩
    · rw [← given, free_release]
      rfl
    · rw [← given, conns_release]
      rfl

/-- The first caller has put its connection back and still has the only place. The second one gets the place behind
that, and so finds the connection. -/
example :
    ((Pool.new 1 none : Pool Nat Unit).run [.get, .resume 0, .pick 0, .dialed 0 7 false, .get, .put 0 false]).gets =
        [.parted, .queued] ∧
      ((Pool.new 1 none : Pool Nat Unit).run
        [.get, .resume 0, .pick 0, .dialed 0 7 false, .get, .put 0 false, .giveBack 0, .resume 1, .pick 1]).gets =
          [.returned, .holding 0] :=
  ⟨rfl, rfl⟩

end RpcClient.Pool
