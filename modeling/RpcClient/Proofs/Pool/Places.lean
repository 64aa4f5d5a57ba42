import RpcClient.Proofs.Pool.Moves

/-! The places of a pool are neither lost nor made up: each is left over or belongs to one caller, and a
caller that ends gives back the one that it had. -/
namespace RpcClient.Pool

variable {κ σ : Type} {p p' : Pool κ σ} {g m : Nat} {old new phase : Phase}

theorem Phase.countP_hasPlace (gets : List Phase) :
    gets.countP hasPlace = gets.countP isHolding + gets.countP isParted + gets.countP isSeeking := by
  induction gets with
  | nil => rfl
  | cons phase gets ih =>
    rw [List.countP_cons, List.countP_cons, List.countP_cons, List.countP_cons, ih]
    cases phase <;> simp [hasPlace, isHolding, isParted, isSeeking] <;> omega

theorem countP_set_add {α : Type} {q : α → Bool} {l : List α} {i : Nat} {a : α} (b : α)
    (found : l[i]? = some a) :
    (l.set i b).countP q + (q a).toNat = l.countP q + (q b).toNat := by
  obtain ⟨bound, rfl⟩ := List.getElem?_eq_some_iff.mp found
  have counted : q l[i] = true → 0 < l.countP q :=
    fun holds => List.countP_pos_iff.mpr ⟨l[i], List.getElem_mem bound, holds⟩
  rw [List.countP_set bound]
  cases here : q l[i] with
  | true =>
    have := counted here
    cases q b <;> simp <;> omega
  | false => cases q b <;> simp

theorem getElem?_setPhase (here : p.gets[g]? = some old) (m : Nat) :
    (p.setPhase g new).gets[m]? = if g = m then some new else p.gets[m]? := by
  obtain ⟨bound, _⟩ := List.getElem?_eq_some_iff.mp here
  rw [setPhase, List.getElem?_set]
  simp only [bound, if_true]

theorem getElem?_setPhase_self (here : p.gets[g]? = some old) :
    (p.setPhase g new).gets[g]? = some new := by
  rw [getElem?_setPhase here, if_pos rfl]

theorem getElem?_setPhase_of_ne (other : m ≠ g) : (p.setPhase g new).gets[m]? = p.gets[m]? := by
  rw [setPhase, List.getElem?_set_ne (Ne.symm other)]

theorem getElem?_join {gets : List Phase} (here : gets[m]? = some old) :
    (gets ++ [phase])[m]? = some old := by
  obtain ⟨bound, _⟩ := List.getElem?_eq_some_iff.mp here
  rw [List.getElem?_append_left bound, here]

/-- The callers in the queue are those that wait. -/
structure Orderly (p : Pool κ σ) : Prop where
  mem_queue : ∀ {g}, g ∈ p.queue ↔ p.gets[g]? = some .queued
  nodup : p.queue.Nodup

namespace Orderly

theorem enter (orderly : Orderly p) (available : Nat) :
    Orderly { p with available, gets := p.gets ++ [.granted] } where
  mem_queue := by
    intro g
    refine orderly.mem_queue.trans ?_
    grind
  nodup := orderly.nodup

theorem wait (orderly : Orderly p) :
    Orderly { p with queue := p.queue ++ [p.gets.length], gets := p.gets ++ [.queued] } where
  mem_queue := by
    intro g
    rw [List.mem_append, orderly.mem_queue]
    grind
  nodup := by
    have absent : p.gets.length ∉ p.queue := by simp [orderly.mem_queue]
    rw [List.nodup_append]
    refine ⟨orderly.nodup, List.nodup_cons.mpr ⟨nofun, List.nodup_nil⟩, ?_⟩
    rintro g waits _ last rfl
    rw [List.mem_singleton.mp last] at waits
    exact absent waits

/-- A caller that does not wait goes on to do something else than wait. -/
theorem setPhase {free : List Nat} {conns : List (Connection κ σ)} (orderly : Orderly p)
    (here : p.gets[g]? = some old) (before : old ≠ .queued) (after : new ≠ .queued) :
    Orderly ({ p with free, conns }.setPhase g new) where
  mem_queue := by
    intro m
    rw [getElem?_setPhase (p := { p with free, conns }) here]
    refine orderly.mem_queue.trans ?_
    split
    · next same => simp [← same, here, before, after]
    · exact Iff.rfl
  nodup := orderly.nodup

theorem leave (orderly : Orderly p) (here : p.gets[g]? = some .queued) (after : new ≠ .queued) :
    Orderly ((p.leaveQueue g).setPhase g new) where
  mem_queue := by
    intro m
    rw [getElem?_setPhase (p := p.leaveQueue g) here,
      show m ∈ ((p.leaveQueue g).setPhase g new).queue ↔ m ∈ p.queue.filter (· != g) from Iff.rfl,
      List.mem_filter, orderly.mem_queue]
    split
    · next same => simp [same, after]
    · next other => simp [Ne.symm other, leaveQueue]
  nodup := orderly.nodup.filter _

/-- The caller that waits longest does so no more. -/
theorem serve {queue : List Nat} (orderly : Orderly p) (head : p.queue = g :: queue)
    (after : new ≠ .queued) : Orderly ({ p with queue }.setPhase g new) where
  mem_queue := by
    intro m
    have here : p.gets[g]? = some .queued := orderly.mem_queue.mp (by simp [head])
    -- a caller that stood in the queue twice would still stand in it
    have fresh : g ∉ queue := (List.nodup_cons.mp (head ▸ orderly.nodup)).1
    have waits : m ∈ p.queue ↔ p.gets[m]? = some .queued := orderly.mem_queue
    rw [head, List.mem_cons] at waits
    rw [getElem?_setPhase (p := { p with queue }) here]
    split
    · next same => simp [← same, after, Pool.setPhase, fresh]
    · next other => simpa [Ne.symm other, Pool.setPhase] using waits
  nodup := (List.nodup_cons.mp (head ▸ orderly.nodup)).2

end Orderly

/-- Every place is left over or has a caller. Nobody waits while one is left over. -/
structure Balanced (p : Pool κ σ) : Prop extends Orderly p where
  places : p.available + p.gets.countP Phase.hasPlace = p.maxActive
  eager : p.queue ≠ [] → p.available = 0

theorem Orderly.release (orderly : Orderly p)
    (places : p.available + p.gets.countP Phase.hasPlace + 1 = p.maxActive)
    (eager : p.queue ≠ [] → p.available = 0) : Balanced p.release := by
  simp only [Pool.release]
  split
  · next empty =>
    refine ⟨⟨orderly.mem_queue, orderly.nodup⟩, ?_, fun waits => (waits empty).elim⟩
    rw [← places]
    exact Nat.add_right_comm _ _ _
  · next g queue head =>
    have here : p.gets[g]? = some .queued := orderly.mem_queue.mp (by simp [head])
    refine ⟨orderly.serve head nofun, ?_, fun _ => eager (by simp [head])⟩
    have counted : (p.gets.set g .granted).countP Phase.hasPlace = p.gets.countP Phase.hasPlace + 1 :=
      countP_set_add (q := Phase.hasPlace) .granted here
    show p.available + (p.gets.set g .granted).countP Phase.hasPlace = p.maxActive
    rw [counted, ← Nat.add_assoc, places]

namespace Balanced

theorem move {event : Event κ} (balanced : Balanced p) (move : Move p event p') : Balanced p' := by
  have places := balanced.places
  -- places move between `available` and one caller at most; what a caller gives back goes through `release`
  cases move with
  | stay _ => exact ⟨⟨balanced.mem_queue, balanced.nodup⟩, places, balanced.eager⟩
  | enter left =>
    refine ⟨balanced.enter _, ?_, fun waits => ?_⟩
    · simp only [List.countP_append, List.countP_singleton, Phase.hasPlace, Phase.isHolding,
        Phase.isParted, Phase.isSeeking, Bool.false_or, if_true]
      omega
    · -- a place was left, so nobody waits
      rw [balanced.eager waits] at left
      cases left
  | wait none =>
    refine ⟨balanced.wait, ?_, fun _ => none⟩
    simpa [Phase.hasPlace, Phase.isHolding, Phase.isParted, Phase.isSeeking] using places
  | @advance _ g old new free conns _ here _ _ before after =>
    refine ⟨balanced.setPhase here (Phase.ne_queued_of_hasPlace before)
      (Phase.ne_queued_of_hasPlace after), ?_, balanced.eager⟩
    have counted := countP_set_add (q := Phase.hasPlace) new here
    rw [before, after] at counted
    exact (congrArg (p.available + ·) (Nat.add_right_cancel counted)).trans places
  | @leave _ g new _ here outcome =>
    have finished := Event.isOver_of_outcome? outcome
    refine ⟨balanced.leave here (Event.ne_queued_of_outcome? outcome), ?_, fun waits => ?_⟩
    · have counted := countP_set_add (q := Phase.hasPlace) new here
      rw [Phase.hasPlace_eq_false_of_isOver finished] at counted
      exact (congrArg (p.available + ·) (Nat.add_right_cancel counted)).trans places
    · refine balanced.eager fun empty => waits ?_
      simp [Pool.setPhase, leaveQueue, empty]
  | @giveBack _ g old new _ here outcome before =>
    refine (balanced.setPhase here (Phase.ne_queued_of_hasPlace before)
      (Event.ne_queued_of_outcome? outcome)).release ?_ balanced.eager
    have counted := countP_set_add (q := Phase.hasPlace) new here
    have finished := Event.isOver_of_outcome? outcome
    rw [before, Phase.hasPlace_eq_false_of_isOver finished] at counted
    rw [Nat.add_assoc]
    exact (congrArg (p.available + ·) counted).trans places

theorem run [Inhabited σ] (balanced : Balanced p) (events : List (Event κ)) : Balanced (p.run events) :=
  List.foldlRecOn events step balanced fun p balanced event _ => balanced.move (p.step_move event)

end Balanced

theorem balanced_new (size : Nat) (handler : Option (Handler σ)) :
    Balanced (Pool.new size handler : Pool κ σ) :=
  ⟨⟨by simp [Pool.new], List.nodup_nil⟩, by simp [Pool.new], fun waits => (waits rfl).elim⟩

end RpcClient.Pool
