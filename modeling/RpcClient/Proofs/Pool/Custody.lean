import RpcClient.Proofs.Pool.Stock

/-! Who has the connections of a pool: how callers come by them, which of them become idle, and that one
that was let go of does not come back. -/
namespace RpcClient.Pool

variable {κ σ : Type} {p p' : Pool κ σ} {event : Event κ} {g m c : Nat} {old new phase : Phase}

/-- What the connections hold. -/
def contents (p : Pool κ σ) : List κ :=
  p.conns.map Connection.content

theorem getElem?_contents {conn : Connection κ σ} (found : p.conns[c]? = some conn) :
    p.contents[c]? = some conn.content := by
  rw [contents, List.getElem?_map, found]
  rfl

theorem lt_of_getElem?_contents {content : κ} (found : p.contents[c]? = some content) :
    c < p.conns.length := by
  obtain ⟨bound, _⟩ := List.getElem?_eq_some_iff.mp found
  rwa [contents, List.length_map] at bound

/-! ### How callers come by connections -/

theorem Phase.ne_holding_of_empty (empty : new.conn? = none) : new ≠ .holding c := by
  rintro rfl
  cases empty

theorem Phase.ne_parted_of_isOver (finished : new.isOver = true) : new ≠ .parted := by
  rintro rfl
  cases finished

theorem found_of_setPhase (found : (p.setPhase g new).gets[m]? = some phase) :
    (m = g ∧ new = phase) ∨ p.gets[m]? = some phase := by
  rw [setPhase, List.getElem?_set] at found
  split at found
  · next same =>
    split at found
    · exact .inl ⟨same.symm, Option.some.inj found⟩
    · cases found
  · exact .inr found

theorem found_of_setPhase_ne (apart : new ≠ phase) (found : (p.setPhase g new).gets[m]? = some phase) :
    p.gets[m]? = some phase :=
  (found_of_setPhase found).resolve_left fun same => apart same.2

theorem found_of_join {α : Type} {l : List α} {a b : α} (apart : b ≠ a) (found : (l ++ [b])[m]? = some a) :
    l[m]? = some a := by
  rw [List.getElem?_append] at found
  split at found
  · exact found
  · exact absurd (List.mem_singleton.mp (List.mem_of_getElem? found)).symm apart

theorem found_of_release (apart : phase ≠ .granted) (found : p.release.gets[m]? = some phase) :
    p.gets[m]? = some phase := by
  simp only [Pool.release] at found
  split at found
  · exact found
  · exact found_of_setPhase_ne apart.symm found

theorem holding_of_empty (empty : new.conn? = none)
    (holds : (p.setPhase g new).gets[m]? = some (.holding c)) : p.gets[m]? = some (.holding c) :=
  found_of_setPhase_ne (Phase.ne_holding_of_empty empty) holds

theorem contents_modifyConn {f : Connection κ σ → Connection κ σ} (same : ∀ conn, (f conn).content = conn.content) :
    (p.modifyConn c f).contents = p.contents := by
  refine List.ext_getElem? fun m => ?_
  simp only [contents, List.getElem?_map, getElem?_modifyConn]
  cases p.conns[m]? with
  | none => rfl
  | some conn =>
    simp only [Option.map_some]
    split
    · rw [same]
    · rfl

/-- What a step does to the connections of a pool. -/
structure Custody (p p' : Pool κ σ) (event : Event κ) : Prop where
  /-- Only a connection that a caller puts back becomes idle. -/
  free : ∀ {c}, c ∈ p'.free → c ∈ p.free ∨ ∃ g, event = .put g false ∧ p.gets[g]? = some (.holding c)
  contents : p'.contents = p.contents ∨
    (∃ g content readable, event = .dialed g content readable ∧ p'.contents = p.contents ++ [content]) ∨
    ∃ g content, event = .replace g content
  /-- A caller comes by a connection that was idle or that it has made. -/
  holding : ∀ {m c : Nat}, p'.gets[m]? = some (.holding c) → p.gets[m]? = some (.holding c) ∨
    (event = .pick m ∧ c ∈ p.free) ∨
    ∃ content readable, event = .dialed m content readable ∧ c = p.conns.length
  parted : ∀ {m}, p'.gets[m]? = some .parted →
    p.gets[m]? = some .parted ∨ event = .drop m ∨ ∃ discard, event = .put m discard

namespace Custody

theorem setPhase {queue : List Nat} (empty : new.conn? = none) (stays : new ≠ .parted) :
    Custody p ({ p with queue }.setPhase g new) event where
  free := .inl
  contents := .inl rfl
  holding holds := .inl (holding_of_empty (p := { p with queue }) empty holds)
  parted parts := .inl (found_of_setPhase_ne (p := { p with queue }) stays parts)

theorem join {available : Nat} {queue : List Nat} (empty : new.conn? = none) (stays : new ≠ .parted) :
    Custody p { p with available, queue, gets := p.gets ++ [new] } event where
  free := .inl
  contents := .inl rfl
  holding holds := .inl (found_of_join (Phase.ne_holding_of_empty empty) holds)
  parted parts := .inl (found_of_join stays parts)

theorem release (custody : Custody p p' event) : Custody p p'.release event where
  free idle := custody.free (p'.free_release ▸ idle)
  contents := by
    rw [Pool.contents, conns_release]
    exact custody.contents
  holding holds := custody.holding (found_of_release Phase.noConfusion holds)
  parted parts := custody.parted (found_of_release Phase.noConfusion parts)

/-- A caller parts with its connection. -/
theorem part {free : List Nat} {conns : List (Connection κ σ)} (contents : conns.map Connection.content = p.contents)
    (known : ∀ {c}, c ∈ free → c ∈ p.free ∨ ∃ g, event = .put g false ∧ p.gets[g]? = some (.holding c))
    (parts : event = .drop g ∨ ∃ discard, event = .put g discard) :
    Custody p ({ p with free, conns }.setPhase g .parted) event where
  free := known
  contents := .inl contents
  holding holds := .inl (holding_of_empty (p := { p with free, conns }) rfl holds)
  parted {m} there := by
    obtain ⟨rfl, -⟩ | before := found_of_setPhase (p := { p with free, conns }) there
    · exact .inr parts
    · exact .inl before

theorem inside {f : Connection κ σ → Connection κ σ} (inside : Inside p event c f) :
    Custody p (p.modifyConn c f) event where
  free := .inl
  contents := by
    cases inside with
    | close _ => exact .inl (contents_modifyConn fun _ => rfl)
    | replace _ => exact .inr (.inr ⟨_, _, rfl⟩)
    | feed _ _ => exact .inl (contents_modifyConn (Connection.content_feed _ _))
    | halt _ _ _ => exact .inl (contents_modifyConn fun _ => rfl)
    | stop _ => exact .inl (contents_modifyConn fun _ => rfl)
  holding := .inl
  parted := .inl

end Custody

theorem Act.custody [Inhabited σ] (act : Act p event p') : Custody p p' event := by
  cases act with
  | rest _ => exact ⟨.inl, .inl rfl, .inl, .inl⟩
  | enter _ => exact .join rfl Phase.noConfusion
  | wait _ => exact .join rfl Phase.noConfusion
  | resume _ => exact .setPhase rfl Phase.noConfusion
  | @take g c free _ head _ =>
    refine ⟨fun member => .inl (head ▸ List.mem_cons_of_mem c member), .inl rfl, fun {m c'} holds => ?_,
      fun parts => .inl (found_of_setPhase_ne (p := { p with free }) Phase.noConfusion parts)⟩
    obtain ⟨rfl, taken⟩ | before := found_of_setPhase (p := { p with free }) holds
    · cases taken
      exact .inr (.inl ⟨rfl, head ▸ List.mem_cons_self⟩)
    · exact .inl before
  | @shed g c free _ head _ =>
    exact ⟨fun member => .inl (head ▸ List.mem_cons_of_mem c member), .inl rfl, .inl, .inl⟩
  | dial _ _ => exact .setPhase rfl Phase.noConfusion
  | @connect g content readable _ =>
    refine ⟨.inl, .inr (.inl ⟨g, content, readable, rfl, List.map_append⟩), fun {m c} holds => ?_,
      fun parts => .inl (found_of_setPhase_ne (p := { p with conns := _ }) Phase.noConfusion parts)⟩
    obtain ⟨rfl, made⟩ | before := found_of_setPhase (p := { p with conns := _ }) holds
    · cases made
      exact .inr (.inr ⟨content, readable, rfl, rfl⟩)
    · exact .inl before
  | leave _ _ outcome =>
    have finished := Event.isOver_of_outcome? outcome
    exact .setPhase (Phase.conn?_eq_none_of_isOver finished) (Phase.ne_parted_of_isOver finished)
  | giveBack _ _ outcome _ =>
    have finished := Event.isOver_of_outcome? outcome
    exact (Custody.setPhase (Phase.conn?_eq_none_of_isOver finished) (Phase.ne_parted_of_isOver finished)).release
  | @keep g c here _ _ =>
    refine .part rfl (fun idle => ?_) (.inr ⟨_, rfl⟩)
    obtain rfl | before := List.mem_cons.mp idle
    · exact .inr ⟨g, rfl, here⟩
    · exact .inl before
  | @discard _ g c _ discards =>
    refine .part (contents_modifyConn fun _ => rfl) .inl ?_
    cases discards with
    | drop => exact .inl rfl
    | put _ => exact .inr ⟨_, rfl⟩
  | inside inside => exact .inside inside

theorem step_custody [Inhabited σ] (p : Pool κ σ) (event : Event κ) : Custody p (p.step event) event :=
  (p.step_act event).custody

/-- Whether a caller can come by a connection with an event. -/
def Event.brings : Event κ → Bool
  | .pick _ | .dialed _ _ _ => true
  | _ => false

/-- Whether an event can say what a connection holds. -/
def Event.fills : Event κ → Bool
  | .dialed _ _ _ | .replace _ _ => true
  | _ => false

theorem holding_of_step [Inhabited σ] (event : Event κ) (plain : event.brings = false)
    (holds : (p.step event).gets[m]? = some (.holding c)) : p.gets[m]? = some (.holding c) := by
  obtain before | ⟨rfl, _⟩ | ⟨_, _, rfl, _⟩ := (p.step_custody event).holding holds
  · exact before
  · cases plain
  · cases plain

theorem contents_step [Inhabited σ] (p : Pool κ σ) (plain : event.fills = false) :
    (p.step event).contents = p.contents := by
  obtain same | ⟨_, _, _, rfl, _⟩ | ⟨_, _, rfl⟩ := (p.step_custody event).contents
  · exact same
  · cases plain
  · cases plain

/-! ### How callers part with connections -/

theorem Traffic.stock_of_lt (traffic : Traffic p p') (made : c < p.conns.length) (member : c ∈ p'.stock) :
    c ∈ p.stock := by
  cases traffic with
  | pass _ stock _ => exact stock.mem_iff.mp member
  | part _ stock _ _ => exact stock.mem_iff.mpr (List.mem_cons_of_mem _ member)
  | dial _ stock _ => exact stock.mem_iff.mp member
  | connect _ stock _ =>
    obtain rfl | member := List.mem_cons.mp (stock.mem_iff.mp member)
    · exact (Nat.lt_irrefl _ made).elim
    · exact member

theorem Traffic.length_conns_le (traffic : Traffic p p') : p.conns.length ≤ p'.conns.length := by
  cases traffic with
  | pass fades _ _ => exact Nat.le_of_eq fades.length.symm
  | part fades _ _ _ => exact Nat.le_of_eq fades.length.symm
  | dial fades _ _ => exact Nat.le_of_eq fades.length.symm
  | connect conns _ _ => simp [conns]

/-- The places and the connections of a pool are accounted for. -/
structure Sound (p : Pool κ σ) : Prop where
  balanced : Balanced p
  stocked : Stocked p

namespace Sound

theorem step [Inhabited σ] (sound : Sound p) (event : Event κ) : Sound (p.step event) := by
  have balanced := sound.balanced.move (p.step_move event)
  exact ⟨balanced, sound.stocked.traffic (sound.balanced.step_traffic event) balanced
    (p.maxActive_step event)⟩

theorem run [Inhabited σ] (sound : Sound p) (events : List (Event κ)) : Sound (p.run events) :=
  List.foldlRecOn events Pool.step sound fun _ sound event _ => sound.step event

theorem modifyConn {f : Connection κ σ → Connection κ σ} (sound : Sound p)
    (keeps : ∀ conn, conn.closed = true → (f conn).closed = true) (c : Nat) :
    Sound (p.modifyConn c f) := by
  have move : Move p (.noticed c) (p.modifyConn c f) := .stay fun caller _ => by cases caller
  have balanced := sound.balanced.move move
  exact ⟨balanced, sound.stocked.traffic (.modifyConn keeps p c) balanced rfl⟩

end Sound

theorem sound_new (size : Nat) (handler : Option (Handler σ)) : Sound (Pool.new size handler : Pool κ σ) :=
  ⟨balanced_new size handler, stocked_new size handler⟩

/-- What becomes of a pool by steps and by changes inside its connections. -/
inductive Passage [Inhabited σ] (p : Pool κ σ) : Pool κ σ → Prop where
  | refl : Passage p p
  | step {q : Pool κ σ} (event : Event κ) : Passage p q → Passage p (q.step event)
  | inside {q : Pool κ σ} (c : Nat) (f : κ → κ) :
      Passage p q → Passage p (q.modifyConn c fun conn => { conn with content := f conn.content })

theorem Passage.sound [Inhabited σ] (passage : Passage p p') (sound : Sound p) : Sound p' := by
  induction passage with
  | refl => exact sound
  | step event _ ih => exact ih.step event
  | inside c f _ ih =>
    refine ih.modifyConn ?_ c
    exact fun _ closed => closed

theorem Passage.length_conns_le [Inhabited σ] (passage : Passage p p') (sound : Sound p) :
    p.conns.length ≤ p'.conns.length := by
  induction passage with
  | refl => exact Nat.le_refl _
  | step event before ih =>
    exact Nat.le_trans ih ((before.sound sound).balanced.step_traffic event).length_conns_le
  | inside c f _ ih => exact Nat.le_trans ih (Nat.le_of_eq (List.length_modify _ _ _).symm)

theorem passage_run [Inhabited σ] (p : Pool κ σ) (events : List (Event κ)) : Passage p (p.run events) :=
  List.foldlRecOn events step .refl fun _ passage event _ => passage.step event

/-- The pool has let go of a connection. -/
structure LetGo (p : Pool κ σ) (c : Nat) : Prop where
  sound : Sound p
  made : c < p.conns.length
  absent : c ∉ p.stock

namespace LetGo

theorem traffic (letGo : LetGo p c) (traffic : Traffic p p') (sound : Sound p') : LetGo p' c where
  sound := sound
  made := Nat.lt_of_lt_of_le letGo.made traffic.length_conns_le
  absent := mt (traffic.stock_of_lt letGo.made) letGo.absent

theorem passage [Inhabited σ] (letGo : LetGo p c) (passage : Passage p p') : LetGo p' c := by
  induction passage with
  | refl => exact letGo
  | step event _ ih => exact ih.traffic (ih.sound.balanced.step_traffic event) (ih.sound.step event)
  | @inside q c' f _ ih =>
    have keeps : ∀ conn : Connection κ σ, conn.closed = true →
        ({ conn with content := f conn.content } : Connection κ σ).closed = true := fun _ closed => closed
    exact ih.traffic (.modifyConn keeps q c') (ih.sound.modifyConn keeps c')

theorem isClosed (letGo : LetGo p c) : p.isClosed c = true := by
  by_contra opened
  exact letGo.absent (letGo.sound.stocked.present (Bool.not_eq_true _ ▸ opened))

end LetGo

theorem Stocked.eq_of_holding (stocked : Stocked p) (here : p.gets[g]? = some (.holding c))
    (there : p.gets[m]? = some (.holding c)) : g = m := by
  by_contra other
  -- without what `g` holds, `m` still holds the same
  have stock := perm_stock_setPhase p.queue p.free p.conns here .returned
  have once := (List.nodup_cons.mp (stock.nodup_iff.mpr stocked.nodup)).1
  have still : c ∈ (p.setPhase g .returned).held :=
    mem_held.mpr ⟨m, (getElem?_setPhase_of_ne (Ne.symm other)).trans there⟩
  exact once (List.mem_append_right p.free still)

/-- What a caller parts with that is not kept is let go of. -/
theorem Stocked.notMem_stock_discard (stocked : Stocked p) (here : p.gets[g]? = some (.holding c)) :
    c ∉ ((p.closeConn c).setPhase g .parted).stock := by
  have stock := perm_stock_setPhase p.queue p.free (p.closeConn c).conns here .parted
  exact (List.nodup_cons.mp (stock.nodup_iff.mpr stocked.nodup)).1

section

variable [Inhabited σ] (here : p.gets[g]? = some (.holding c))
include here

theorem put_discard_of_holding : p.step (.put g true) = (p.closeConn c).setPhase g .parted :=
  (Act.discard here (.put (.inl rfl))).eq_step.symm

theorem drop_of_holding : p.step (.drop g) = (p.closeConn c).setPhase g .parted :=
  (Act.discard here .drop).eq_step.symm

end

/-! ### Callers that are not meant -/

/-- All callers but one go on as before; one that waits may get a place. -/
structure Spares (p p' : Pool κ σ) (g : Nat) : Prop where
  length : p'.gets.length = p.gets.length
  others : ∀ {m phase}, m ≠ g → p.gets[m]? = some phase →
    p'.gets[m]? = some phase ∨ (phase = .queued ∧ p'.gets[m]? = some .granted)

theorem Move.length_gets (move : Move p event p') (caller : event.caller? = some g) :
    p'.gets.length = p.gets.length := by
  cases move with
  | stay _ => rfl
  | enter _ => cases caller
  | wait _ => cases caller
  | advance _ _ _ _ _ => exact List.length_set
  | leave _ _ _ => exact List.length_set
  | giveBack _ _ _ _ =>
    simp only [release]
    split
    · exact List.length_set
    · exact List.length_set.trans List.length_set

theorem Balanced.spares (balanced : Balanced p) (move : Move p event p')
    (caller : event.caller? = some g) : Spares p p' g where
  length := move.length_gets caller
  others other here := by
    refine balanced.bystander move here fun caller' => other ?_
    exact Option.some.inj (caller'.symm.trans caller)

namespace Spares

theorem of_gets (same : p'.gets = p.gets) : Spares p p' g :=
  ⟨congrArg List.length same, fun _ here => .inl (same ▸ here)⟩

section

variable (spares : Spares p p' g)
include spares

theorem holding (other : m ≠ g) (here : p.gets[m]? = some (.holding c)) :
    p'.gets[m]? = some (.holding c) := by
  obtain same | ⟨waits, _⟩ := spares.others other here
  · exact same
  · cases waits

theorem held_before (other : m ≠ g) (there : p'.gets[m]? = some (.holding c)) :
    p.gets[m]? = some (.holding c) := by
  have bound : m < p.gets.length := spares.length ▸ (List.getElem?_eq_some_iff.mp there).1
  have before := List.getElem?_eq_getElem bound
  obtain same | ⟨-, granted⟩ := spares.others other before
  · rw [before, ← same, there]
  · cases granted.symm.trans there

theorem isOver (other : m ≠ g) (here : p.gets[m]? = some phase) (finished : phase.isOver = true) :
    p'.gets[m]? = some phase := by
  obtain same | ⟨rfl, _⟩ := spares.others other here
  · exact same
  · cases finished

end

end Spares

/-- Who drops out without a connection has come to its end, but for one that looks. -/
theorem Balanced.isOver_drop [Inhabited σ] (balanced : Balanced p) (here : p.gets[g]? = some old)
    (empty : old.conn? = none) (settled : old ≠ .picking) (busy : old ≠ .parted) :
    ∃ new, (p.step (.drop g)).gets[g]? = some new ∧ new.isOver = true := by
  have move := p.step_move (.drop g)
  have given : ∀ {new}, old.hasPlace = true → Event.outcome? (.drop g : Event κ) old = some new →
      (p.step (.drop g)).gets[g]? = some new :=
    fun place outcome => (balanced.givesBack move rfl here place outcome).1
  cases old with
  | queued => exact ⟨.dropped, (move.leaves rfl here rfl).1, rfl⟩
  | granted => exact ⟨.dropped, given rfl rfl, rfl⟩
  | picking => exact (settled rfl).elim
  | dialing => exact ⟨.dropped, given rfl rfl, rfl⟩
  | holding c => cases empty
  | parted => exact (busy rfl).elim
  | returned => exact ⟨.returned, balanced.stays move here rfl, rfl⟩
  | failed failure => exact ⟨.failed failure, balanced.stays move here rfl, rfl⟩
  | dropped => exact ⟨.dropped, balanced.stays move here rfl, rfl⟩

theorem Balanced.returned_giveBack [Inhabited σ] (balanced : Balanced p) (here : p.gets[g]? = some .parted) :
    (p.step (.giveBack g)).gets[g]? = some .returned :=
  (balanced.givesBack (p.step_move (.giveBack g)) rfl here rfl rfl).1

theorem gets_get (p : Pool κ σ) : ∃ phase, p.get.gets = p.gets ++ [phase] ∧ phase ≠ .parted := by
  simp only [get]
  split
  · exact ⟨_, rfl, Phase.noConfusion⟩
  · exact ⟨_, rfl, Phase.noConfusion⟩

end RpcClient.Pool
