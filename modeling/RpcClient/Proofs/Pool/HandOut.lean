import Mathlib.Data.List.Basic
import RpcClient.Proofs.Pool.Custody

/-! Which idle connection a caller gets. Idle connections lie in the order in which they were returned. A caller that
looks takes the one returned last of those that are still open; the pool lets go of the closed ones in front of it,
and the caller connects only where none is open. Others may return and take connections in between. -/
namespace RpcClient.Pool

variable {κ σ : Type} {p p' : Pool κ σ} {event : Event κ} {g m c d : Nat} {old new : Phase}
  {free log : List Nat}

/-! ### The idle connections over a step -/

/-- What a step does to the idle connections. -/
inductive Turnover (p : Pool κ σ) (event : Event κ) (p' : Pool κ σ) : Prop where
  /-- They stay. Nobody comes by a connection that was there before. -/
  | stay : p'.free = p.free →
      (∀ {m c : Nat}, p'.gets[m]? = some (.holding c) → p.gets[m]? = some (.holding c) ∨ c = p.conns.length) →
      Turnover p event p'
  /-- A caller returns an open one. -/
  | keep {g c : Nat} : event = .put g false → p.gets[g]? = some (.holding c) → p.isClosed c = false →
      p'.free = c :: p.free →
      (∀ {m c : Nat}, p'.gets[m]? = some (.holding c) → p.gets[m]? = some (.holding c)) → Turnover p event p'
  /-- A caller that looks takes the first, which is open. -/
  | take {g c : Nat} {free : List Nat} : event = .pick g → p.gets[g]? = some .picking → p.free = c :: free →
      p.isClosed c = false → p' = { p with free }.setPhase g (.holding c) → Turnover p event p'
  /-- A caller that looks comes upon a closed one. -/
  | shed {g c : Nat} {free : List Nat} : event = .pick g → p.gets[g]? = some .picking → p.free = c :: free →
      p.isClosed c = true → p' = { p with free } → Turnover p event p'

theorem Act.turnover [Inhabited σ] (act : Act p event p') : Turnover p event p' := by
  cases act with
  | rest _ => exact .stay rfl .inl
  | enter _ => exact .stay rfl fun holds => .inl (found_of_join Phase.noConfusion holds)
  | wait _ => exact .stay rfl fun holds => .inl (found_of_join Phase.noConfusion holds)
  | resume _ => exact .stay rfl fun holds => .inl (holding_of_empty rfl holds)
  | take here head live => exact .take rfl here head live rfl
  | shed here head closed => exact .shed rfl here head closed rfl
  | dial _ _ => exact .stay rfl fun holds => .inl (holding_of_empty rfl holds)
  | connect _ =>
    refine .stay rfl fun holds => ?_
    obtain ⟨-, made⟩ | before := found_of_setPhase (p := { p with conns := _ }) holds
    · cases made
      exact .inr rfl
    · exact .inl before
  | @leave _ g _ _ _ outcome =>
    have empty := Phase.conn?_eq_none_of_isOver (Event.isOver_of_outcome? outcome)
    exact .stay rfl fun holds => .inl (holding_of_empty (p := p.leaveQueue g) empty holds)
  | giveBack _ _ outcome _ =>
    have empty := Phase.conn?_eq_none_of_isOver (Event.isOver_of_outcome? outcome)
    exact .stay (free_release _) fun holds => .inl (holding_of_empty empty (found_of_release Phase.noConfusion holds))
  | @keep g c here live _ =>
    exact .keep rfl here live rfl fun holds => holding_of_empty (p := { p with free := c :: p.free }) rfl holds
  | @discard _ g c _ _ => exact .stay rfl fun holds => .inl (holding_of_empty (p := p.closeConn c) rfl holds)
  | inside _ => exact .stay rfl .inl

theorem step_turnover [Inhabited σ] (p : Pool κ σ) (event : Event κ) : Turnover p event (p.step event) :=
  (p.step_act event).turnover

section

variable [Inhabited σ] (here : p.gets[g]? = some .picking)
include here

theorem pick_of_nil (none : p.free = []) : p.step (.pick g) = p.setPhase g .dialing :=
  (Act.dial here none).eq_step.symm

theorem pick_of_closed (head : p.free = c :: free) (closed : p.isClosed c = true) :
    p.step (.pick g) = { p with free } :=
  (Act.shed here head closed).eq_step.symm

theorem pick_of_open (head : p.free = c :: free) (live : p.isClosed c = false) :
    p.step (.pick g) = { p with free }.setPhase g (.holding c) :=
  (Act.take here head live).eq_step.symm

end

theorem pick_of_ne [Inhabited σ] (settled : p.gets[g]? ≠ some .picking) : p.step (.pick g) = p := by
  simp only [step, pick]

/-- Only a caller that looks takes away from the idle connections, and only the first one. -/
theorem Turnover.first (turnover : Turnover p event p') (idle : c ∈ p.free) (gone : c ∉ p'.free) :
    ∃ g, event = .pick g ∧ p.gets[g]? = some .picking ∧ p.free.head? = some c := by
  have head : ∀ {d free}, p.free = d :: free → c ∉ free → p.free.head? = some c := by
    intro d free split absent
    rw [split] at idle ⊢
    rw [(List.mem_cons.mp idle).resolve_right absent]
    rfl
  cases turnover with
  | stay free _ => exact (gone (free ▸ idle)).elim
  | keep _ _ _ free _ => exact (gone (free ▸ List.mem_cons_of_mem _ idle)).elim
  | take turn here split _ after =>
    subst after
    exact ⟨_, turn, here, head split gone⟩
  | shed turn here split _ after =>
    subst after
    exact ⟨_, turn, here, head split gone⟩

/-! ### The idle connections over a run -/

/-- The connections that become idle over a run, the last one in front. -/
def returns [Inhabited σ] (p : Pool κ σ) : (events : List (Event κ)) → List Nat
  | [] => []
  | event :: events => (p.step event).returns events ++ (p.step event).free.filter (· ∉ p.free)

/-- `c` was returned after `d`, each of them for the last time. -/
def Later (log : List Nat) (c d : Nat) : Prop :=
  log.idxOf c < log.idxOf d

theorem later_append {l : List Nat} (first : c ∉ l) (second : d ∉ l) : Later (l ++ log) c d ↔ Later log c d := by
  rw [Later, List.idxOf_append_of_notMem first, List.idxOf_append_of_notMem second, Later, Nat.add_lt_add_iff_left]

theorem later_cons_self (other : d ≠ c) : Later (c :: log) c d := by
  rw [Later, List.idxOf_cons_self, List.idxOf_cons_ne log (Ne.symm other)]
  exact Nat.succ_pos _

/-- Idle connections lie in the order in which they were returned. -/
structure Ordered (free log : List Nat) : Prop where
  pairwise : free.Pairwise (Later log)
  returned : ∀ c ∈ free, c ∈ log

theorem Ordered.tail (ordered : Ordered (c :: free) log) : Ordered free log :=
  ⟨ordered.pairwise.of_cons, fun c' member => ordered.returned c' (List.mem_cons_of_mem c member)⟩

theorem Ordered.cons (ordered : Ordered free log) (fresh : c ∉ free) : Ordered (c :: free) (c :: log) := by
  have apart : ∀ d ∈ free, d ≠ c := fun d member same => fresh (same ▸ member)
  refine ⟨List.pairwise_cons.mpr ⟨fun d member => later_cons_self (apart d member), ?_⟩, ?_⟩
  · refine ordered.pairwise.imp_of_mem fun {d e} first second later => ?_
    have single : ∀ {x}, x ∈ free → x ∉ [c] := fun member same => apart _ member (List.mem_singleton.mp same)
    exact (later_append (l := [c]) (single first) (single second)).mpr later
  · intro d member
    obtain rfl | member := List.mem_cons.mp member
    · exact List.mem_cons_self
    · exact List.mem_cons_of_mem c (ordered.returned d member)

theorem Stocked.notMem_free (stocked : Stocked p) (here : p.gets[g]? = some (.holding c)) : c ∉ p.free :=
  fun idle => (List.nodup_append.mp stocked.nodup).2.2 c idle c (mem_held.mpr ⟨g, here⟩) rfl

theorem filter_notMem_eq_nil {l : List Nat} (within : ∀ c ∈ l, c ∈ free) : l.filter (· ∉ free) = [] :=
  List.filter_eq_nil_iff.mpr fun c member absent => of_decide_eq_true absent (within c member)

theorem Turnover.ordered (turnover : Turnover p event p') (stocked : Stocked p) (ordered : Ordered p.free log) :
    Ordered p'.free (p'.free.filter (· ∉ p.free) ++ log) := by
  -- nothing becomes idle where the idle connections stay or the first one goes
  have same : (∀ c ∈ p'.free, c ∈ p.free) → Ordered p'.free log →
      Ordered p'.free (p'.free.filter (· ∉ p.free) ++ log) := by
    intro within ordered
    rwa [filter_notMem_eq_nil within]
  cases turnover with
  | stay free _ => exact same (fun c member => free ▸ member) (free ▸ ordered)
  | @keep g c _ here _ free _ =>
    have fresh := stocked.notMem_free here
    have kept : p'.free.filter (· ∉ p.free) = [c] := by
      have nothing : p.free.filter (· ∉ p.free) = [] := filter_notMem_eq_nil fun _ member => member
      rw [free, List.filter_cons, nothing, if_pos (decide_eq_true fresh)]
    rw [kept, free]
    exact ordered.cons fresh
  | @take g c free _ _ head _ after =>
    subst after
    rw [head] at ordered
    exact same (fun d member => head ▸ List.mem_cons_of_mem c member) ordered.tail
  | @shed g c free _ _ head _ after =>
    subst after
    rw [head] at ordered
    exact same (fun d member => head ▸ List.mem_cons_of_mem c member) ordered.tail

namespace Sound

variable [Inhabited σ] (sound : Sound p)
include sound

theorem ordered_run (ordered : Ordered p.free log) (events : List (Event κ)) :
    Ordered (p.run events).free (p.returns events ++ log) := by
  induction events generalizing p log with
  | nil => exact ordered
  | cons event events ih =>
    rw [returns, List.append_assoc]
    exact ih (sound.step event) ((p.step_turnover event).ordered sound.stocked ordered)

/-- The idle connections are a stack. What was idle before and has not been returned meanwhile is the bottom of it. -/
theorem free_run (events : List (Event κ)) :
    ∃ top bottom, (p.run events).free = top ++ bottom ∧ bottom <:+ p.free ∧ ∀ c ∈ top, c ∈ p.returns events := by
  induction events generalizing p with
  | nil => exact ⟨[], p.free, rfl, List.suffix_rfl, fun _ none => nomatch none⟩
  | cons event events ih =>
    obtain ⟨top, bottom, whole, suffix, fresh⟩ := ih (sound.step event)
    have fresh' : ∀ c ∈ top, c ∈ p.returns (event :: events) :=
      fun c member => List.mem_append_left _ (fresh c member)
    cases p.step_turnover event with
    | stay free _ => exact ⟨top, bottom, whole, free ▸ suffix, fresh'⟩
    | @keep g c _ here _ free _ =>
      rw [free, List.suffix_cons_iff] at suffix
      obtain rfl | suffix := suffix
      · refine ⟨top ++ [c], p.free, ?_, List.suffix_rfl, fun d member => ?_⟩
        · rw [List.append_assoc]
          exact whole
        · obtain member | same := List.mem_append.mp member
          · exact fresh' d member
          · obtain rfl := List.mem_singleton.mp same
            refine List.mem_append_right _ (List.mem_filter.mpr ⟨free ▸ List.mem_cons_self, ?_⟩)
            exact decide_eq_true (sound.stocked.notMem_free here)
      · exact ⟨top, bottom, whole, suffix, fresh'⟩
    | @take g c free _ _ head _ after =>
      rw [after] at suffix
      exact ⟨top, bottom, whole, head ▸ suffix.trans (List.suffix_cons c free), fresh'⟩
    | @shed g c free _ _ head _ after =>
      rw [after] at suffix
      exact ⟨top, bottom, whole, head ▸ suffix.trans (List.suffix_cons c free), fresh'⟩

theorem later_of_gone (ordered : Ordered p.free log) (events : List (Event κ)) (idle : d ∈ p.free)
    (gone : d ∉ (p.run events).free) (rest : c ∈ (p.run events).free) :
    c ∈ p.returns events ∨ Later log d c := by
  obtain ⟨top, bottom, whole, ⟨front, split⟩, fresh⟩ := sound.free_run events
  rw [whole, List.mem_append, not_or] at gone
  rw [whole, List.mem_append] at rest
  refine rest.imp (fresh c) fun below => ?_
  rw [← split, List.mem_append] at idle
  have pairwise := ordered.pairwise
  rw [← split] at pairwise
  exact (List.pairwise_append.mp pairwise).2.2 d (idle.resolve_right gone.2) c below

end Sound

/-! ### A caller that looks -/

/-- The connection is never again idle or held. -/
def Gone [Inhabited σ] (p : Pool κ σ) (c : Nat) : Prop :=
  ∀ later : List (Event κ), c ∉ (p.run later).stock

theorem LetGo.gone [Inhabited σ] (letGo : LetGo p c) : Gone p c :=
  fun later => (letGo.passage (p.passage_run later)).absent

theorem Gone.run [Inhabited σ] (gone : Gone p c) (events : List (Event κ)) : Gone (p.run events) c := by
  intro later
  rw [← run_append]
  exact gone (events ++ later)

theorem Sound.letGo_of_shed [Inhabited σ] (sound : Sound p) (here : p.gets[g]? = some .picking)
    (head : p.free = c :: free) (closed : p.isClosed c = true) : LetGo { p with free } c := by
  have sound' := sound.step (.pick g)
  rw [pick_of_closed here head closed] at sound'
  have member : c ∈ p.stock := List.mem_append_left _ (head ▸ List.mem_cons_self)
  have once := sound.stocked.nodup
  rw [Pool.stock, head, List.cons_append] at once
  exact ⟨sound', sound.stocked.known member, (List.nodup_cons.mp once).1⟩

/-- What a caller finds that looks without a break. -/
inductive Look [Inhabited σ] (p : Pool κ σ) (g : Nat) : Pool κ σ → Prop
  /-- It takes the first connection that is open. Those in front of it are closed, and the pool has let go of them. -/
  | takes {shed free : List Nat} {c : Nat} : p.free = shed ++ c :: free → p.isClosed c = false →
      (∀ d ∈ shed, p.isClosed d = true ∧ Gone ({ p with free }.setPhase g (.holding c)) d) →
      Look p g ({ p with free }.setPhase g (.holding c))
  /-- No connection is open. The pool has let go of all of them. -/
  | dials : (∀ d ∈ p.free, p.isClosed d = true ∧ Gone ({ p with free := [] }.setPhase g .dialing) d) →
      Look p g ({ p with free := [] }.setPhase g .dialing)

theorem Look.shed [Inhabited σ] (look : Look { p with free } g p') (head : p.free = c :: free)
    (closed : p.isClosed c = true) (gone : Gone p' c) : Look p g p' := by
  cases look with
  | @takes shed rest c' split live shed' =>
    refine .takes (?_ : p.free = (c :: shed) ++ c' :: rest) live fun d member => ?_
    · exact head.trans (congrArg (List.cons c) split)
    · obtain rfl | member := List.mem_cons.mp member
      · exact ⟨closed, gone⟩
      · exact shed' d member
  | dials shed' =>
    refine .dials fun d member => ?_
    rw [head] at member
    obtain rfl | member := List.mem_cons.mp member
    · exact ⟨closed, gone⟩
    · exact shed' d member

theorem run_replicate_succ [Inhabited σ] (p : Pool κ σ) (event : Event κ) (rounds : Nat) :
    p.run (List.replicate (rounds + 1) event) = (p.step event).run (List.replicate rounds event) := rfl

/-- A caller that has what it looked for looks no more. -/
theorem run_pick_setPhase [Inhabited σ] (here : p.gets[g]? = some old) (settled : new ≠ .picking) (rounds : Nat) :
    (p.setPhase g new).run (List.replicate rounds (.pick g)) = p.setPhase g new := by
  induction rounds with
  | zero => rfl
  | succ rounds ih =>
    have there : (p.setPhase g new).gets[g]? ≠ some .picking := by
      rw [getElem?_setPhase_self here]
      exact fun same => settled (Option.some.inj same)
    rw [run_replicate_succ, pick_of_ne there]
    exact ih

theorem Sound.look [Inhabited σ] (sound : Sound p) (here : p.gets[g]? = some .picking) {rounds : Nat}
    (enough : p.free.length < rounds) : Look p g (p.run (List.replicate rounds (.pick g))) := by
  -- each round takes a connection off, and there is one more round to find that there is none
  generalize head : p.free = free at enough
  induction free generalizing p rounds with
  | nil =>
    cases rounds with
    | zero => cases enough
    | succ rounds =>
      have after : p.step (.pick g) = { p with free := [] }.setPhase g .dialing := head ▸ pick_of_nil here head
      have here' : { p with free := [] }.gets[g]? = some .picking := here
      rw [run_replicate_succ, after, run_pick_setPhase here' Phase.noConfusion]
      exact .dials fun d idle => nomatch head ▸ idle
  | cons c free ih =>
    cases rounds with
    | zero => cases enough
    | succ rounds =>
      have here' : { p with free }.gets[g]? = some .picking := here
      rw [run_replicate_succ]
      cases closed : p.isClosed c with
      | false =>
        have after : p.step (.pick g) = { p with free }.setPhase g (.holding c) := pick_of_open here head closed
        rw [after, run_pick_setPhase here' Phase.noConfusion]
        have split : p.free = [] ++ c :: free := head
        exact .takes split closed fun d member => nomatch member
      | true =>
        have after : p.step (.pick g) = { p with free } := pick_of_closed here head closed
        have sound' := sound.step (.pick g)
        rw [after] at sound' ⊢
        have gone := (sound.letGo_of_shed here head closed).gone.run (List.replicate rounds (.pick g))
        exact (ih sound' here' rfl (Nat.lt_of_succ_lt_succ enough)).shed head closed gone

/-- What a step does for a caller that looks. -/
inductive Turn [Inhabited σ] (p : Pool κ σ) (g : Nat) : Event κ → Pool κ σ → Prop
  | takes {free : List Nat} {c : Nat} : p.free = c :: free → p.isClosed c = false →
      Turn p g (.pick g) ({ p with free }.setPhase g (.holding c))
  | sheds {free : List Nat} {c : Nat} : p.free = c :: free → p.isClosed c = true → Gone { p with free } c →
      Turn p g (.pick g) { p with free }
  | dials : p.free = [] → Turn p g (.pick g) (p.setPhase g .dialing)
  /-- It is not the caller's turn. -/
  | waits {event : Event κ} {p' : Pool κ σ} : event ≠ .pick g → p'.gets[g]? = some .picking → Turn p g event p'

theorem Event.not_acts_picking (other : event ≠ .pick g) (caller : event.caller? = some g) :
    event.acts .picking = false := by
  cases event with
  | pick m =>
    cases caller
    exact (other rfl).elim
  | _ => rfl

theorem Sound.turn [Inhabited σ] (sound : Sound p) (here : p.gets[g]? = some .picking) (event : Event κ) :
    Turn p g event (p.step event) := by
  by_cases turn : event = .pick g
  · subst turn
    cases head : p.free with
    | nil =>
      rw [pick_of_nil here head]
      exact .dials head
    | cons c free =>
      cases closed : p.isClosed c with
      | false =>
        rw [pick_of_open here head closed]
        exact .takes head closed
      | true =>
        rw [pick_of_closed here head closed]
        exact .sheds head closed (sound.letGo_of_shed here head closed).gone
  · exact .waits turn (sound.balanced.unmoved here rfl (Event.not_acts_picking turn))

/-! ### Connections that are closed -/

/-- The connection has been made and closed. -/
structure Spent (p : Pool κ σ) (c : Nat) : Prop where
  made : c < p.conns.length
  closed : p.isClosed c = true

theorem Spent.traffic (spent : Spent p c) (traffic : Traffic p p') : Spent p' c := by
  have fade : Fades p p' → Spent p' c :=
    fun fades => ⟨fades.length ▸ spent.made, fades.closed spent.closed⟩
  cases traffic with
  | pass fades _ _ => exact fade fades
  | part fades _ _ _ => exact fade fades
  | dial fades _ _ => exact fade fades
  | connect conns _ _ =>
    have closed := spent.closed
    refine ⟨?_, ?_⟩
    · rw [conns, List.length_append]
      exact Nat.lt_add_right _ spent.made
    · rw [isClosed] at closed ⊢
      rwa [conns, List.getElem?_append_left spent.made]

theorem Spent.holding_of_step [Inhabited σ] (spent : Spent p c)
    (holds : (p.step event).gets[m]? = some (.holding c)) : p.gets[m]? = some (.holding c) := by
  cases p.step_turnover event with
  | stay _ holding =>
    obtain before | made := holding holds
    · exact before
    · exact (Nat.ne_of_lt spent.made made).elim
  | keep _ _ _ _ holding => exact holding holds
  | take _ _ _ live after =>
    rw [after] at holds
    obtain ⟨-, same⟩ | before := found_of_setPhase (p := { p with free := _ }) holds
    · cases same
      cases live.symm.trans spent.closed
    · exact before
  | shed _ _ _ _ after =>
    rw [after] at holds
    exact holds

theorem Spent.run [Inhabited σ] (spent : Spent p c) (sound : Sound p) (events : List (Event κ)) :
    Spent (p.run events) c ∧
      ∀ {m : Nat}, (p.run events).gets[m]? = some (.holding c) → p.gets[m]? = some (.holding c) := by
  induction events generalizing p with
  | nil => exact ⟨spent, id⟩
  | cons event events ih =>
    have spent' := spent.traffic (sound.balanced.step_traffic event)
    obtain ⟨later, holding⟩ := ih spent' (sound.step event)
    exact ⟨later, fun holds => spent.holding_of_step (holding holds)⟩

theorem spent_closeConn (made : c < p.conns.length) : Spent (p.closeConn c) c where
  made := (List.length_modify _ _ _).symm ▸ made
  closed := p.isClosed_closeConn c

theorem Sound.made_of_holding (sound : Sound p) (here : p.gets[g]? = some (.holding c)) : c < p.conns.length :=
  sound.stocked.known (List.mem_append_right _ (mem_held.mpr ⟨g, here⟩))

section

variable [Inhabited σ] (sound : Sound p) (here : p.gets[g]? = some (.holding c))
include sound here

theorem Sound.spent_close : Spent (p.step (.close g)) c := by
  rw [← (Act.inside (.close here)).eq_step]
  exact spent_closeConn (sound.made_of_holding here)

theorem Sound.spent_put : Spent (p.step (.put g true)) c := by
  obtain ⟨made, closed⟩ := spent_closeConn (p := p) (sound.made_of_holding here)
  rw [put_discard_of_holding here]
  exact ⟨made, closed⟩

theorem Sound.spent_drop : Spent (p.step (.drop g)) c := by
  obtain ⟨made, closed⟩ := spent_closeConn (p := p) (sound.made_of_holding here)
  rw [drop_of_holding here]
  exact ⟨made, closed⟩

/-- There is room for each connection that a caller holds. -/
theorem Sound.free_put (live : p.isClosed c = false) : (p.step (.put g false)).free = c :: p.free := by
  have total := sound.stocked.total
  have some : 0 < p.held.length := List.length_pos_of_mem (mem_held.mpr ⟨g, here⟩)
  rw [stock, List.length_append] at total
  have room : p.free.length < p.maxActive := by omega
  rw [← (Act.keep here live room).eq_step]
  rfl

end

theorem resumed [Inhabited σ] (here : p.gets[g]? = some .granted) : p.step (.resume g) = p.setPhase g .picking :=
  (Act.resume here).eq_step.symm

theorem spent_readerStops [Inhabited σ] {conn : Connection κ σ} (found : p.conns[c]? = some conn)
    (stopping : conn.reader = .stopping) : Spent (p.step (.readerStops c)) c := by
  obtain ⟨made, -⟩ := List.getElem?_eq_some_iff.mp found
  rw [← (Act.inside (.stop ((reader_of_found found).trans stopping))).eq_step]
  refine ⟨(List.length_modify _ _ _).symm ▸ made, ?_⟩
  rw [isClosed, getElem?_modifyConn, found, Option.map_some, if_pos rfl]
  rfl

/-! ### The order in which connections are handed out -/

/-- How a pool hands connections out. `log` holds those that were returned, the last one in front. -/
structure HandsOut [Inhabited σ] (p : Pool κ σ) (log : List Nat) : Prop where
  /-- Idle connections lie in the order in which they were returned, the one returned last in front. -/
  ordered : Ordered p.free log
  /-- A caller that has been given a place looks next. What is idle stays as it is until then. -/
  resumes : ∀ {g : Nat}, p.gets[g]? = some .granted → (p.step (.resume g)).gets[g]? = some .picking ∧
    (p.step (.resume g)).free = p.free
  /-- A caller that looks without a break takes the first one that is open, or connects. -/
  look : ∀ {g rounds : Nat}, p.gets[g]? = some .picking → p.free.length < rounds →
    Look p g (p.run (List.replicate rounds (.pick g)))
  /-- Whatever else happens in between, a caller that looks comes upon the one returned last. -/
  turn : ∀ {g : Nat}, p.gets[g]? = some .picking → ∀ event, Turn p g event (p.step event)
  /-- Nothing else takes away from the idle connections. -/
  first : ∀ {c event}, c ∈ p.free → c ∉ (p.step event).free →
    ∃ g, event = .pick g ∧ p.gets[g]? = some .picking ∧ p.free.head? = some c
  /-- One that is no longer idle was returned after those that still are, but for those returned meanwhile. -/
  later : ∀ {events c d}, d ∈ p.free → d ∉ (p.run events).free → c ∈ (p.run events).free →
    c ∈ p.returns events ∨ Later log d c
  /-- One that is returned open is idle. -/
  kept : ∀ {g c : Nat}, p.gets[g]? = some (.holding c) → p.isClosed c = false →
    (p.step (.put g false)).free = c :: p.free
  /-- One that has been closed stays closed, and nobody comes by it any more. -/
  spent : ∀ {c}, Spent p c → ∀ events, Spent (p.run events) c ∧
    ∀ {m : Nat}, (p.run events).gets[m]? = some (.holding c) → p.gets[m]? = some (.holding c)
  /-- Who holds one closes it, gives it back to be closed, or drops it. -/
  closes : ∀ {g c : Nat}, p.gets[g]? = some (.holding c) →
    Spent (p.step (.close g)) c ∧ Spent (p.step (.put g true)) c ∧ Spent (p.step (.drop g)) c
  /-- The reader of one closes it. -/
  stops : ∀ {c : Nat} {conn : Connection κ σ}, p.conns[c]? = some conn → conn.reader = .stopping →
    Spent (p.step (.readerStops c)) c

/-- In every run of a pool, connections are handed out in the reverse order of their return. -/
theorem handsOut_run [Inhabited σ] (size : Nat) (handler : Option (Handler σ)) (events : List (Event κ)) :
    HandsOut ((Pool.new size handler : Pool κ σ).run events) ((Pool.new size handler : Pool κ σ).returns events) := by
  have sound := (sound_new size handler : Sound (Pool.new size handler : Pool κ σ))
  have empty : Ordered [] [] := ⟨List.Pairwise.nil, fun _ member => nomatch member⟩
  have ordered := sound.ordered_run empty events
  rw [List.append_nil] at ordered
  replace sound := sound.run events
  exact {
    ordered
    resumes := fun here => by
      rw [resumed here]
      exact ⟨getElem?_setPhase_self here, rfl⟩
    look := fun here enough => sound.look here enough
    turn := sound.turn
    first := (Pool.step_turnover _ _).first
    later := sound.later_of_gone ordered _
    kept := sound.free_put
    spent := fun spent events => spent.run sound events
    closes := fun here => ⟨sound.spent_close here, sound.spent_put here, sound.spent_drop here⟩
    stops := spent_readerStops }

/-- Of three idle connections the one returned last is closed by its reader. The next caller takes the second. -/
example :
    ((Pool.new 3 (some ⟨fun _ state => ([], state, none), fun _ state => state⟩) : Pool Nat Unit).run
      [.get, .resume 0, .pick 0, .dialed 0 7 true, .get, .resume 1, .pick 1, .dialed 1 8 true,
        .get, .resume 2, .pick 2, .dialed 2 9 true, .put 0 false, .put 1 false, .put 2 false, .giveBack 0,
        .ended 2, .readerStops 2, .get, .resume 3, .pick 3, .pick 3]).gets =
      [.returned, .parted, .parted, .holding 1] := rfl

end RpcClient.Pool
