import RpcClient.Proofs.Pool.HandOut

/-! What a step does to one connection of a pool with a handler: its reader reads, stops or closes it, or it is closed
or given other content where it is. -/
namespace RpcClient.Pool

variable {κ σ : Type} {handler : Handler σ} {p p' : Pool κ σ} {event : Event κ} {g m c : Nat}
  {conn conn' : Connection κ σ} {failure : Failure}

/-- What becomes of a connection. -/
inductive Fares (handler : Handler σ) (c : Nat) (conn : Connection κ σ) : Event κ → Connection κ σ → Prop
  /-- Its reader rests. It may be closed or given other content. -/
  | rests {event : Event κ} {content : κ} {closed : Bool} :
      (conn.reader = .reading → ∀ bytes, event ≠ .received c bytes) →
      Fares handler c conn event { conn with content, closed }
  | feeds {bytes : Bytes} : conn.reader = .reading → Fares handler c conn (.received c bytes) (conn.feed handler bytes)
  | halts {event : Event κ} {failure : Failure} : conn.reader = .reading → Halts conn.closed c event failure →
      Fares handler c conn event (conn.halt handler failure)
  | stops : conn.reader = .stopping → Fares handler c conn (.readerStops c) conn.stop

theorem Halts.ne_received {closed : Bool} (halts : Halts closed m event failure) (bytes : Bytes) :
    event ≠ .received c bytes := by
  rintro rfl
  cases halts

theorem not_received_of_caller? (caller : event.caller? = some g) (bytes : Bytes) : event ≠ .received c bytes := by
  rintro rfl
  cases caller

theorem Discards.ne_received (discards : Discards p g m event) (bytes : Bytes) : event ≠ .received c bytes := by
  rintro rfl
  cases discards

section

variable (found : p.conns[c]? = some conn)
include found

theorem found_modifyConn (f : Connection κ σ → Connection κ σ) (m : Nat) :
    (p.modifyConn m f).conns[c]? = some (if m = c then f conn else conn) := by
  rw [getElem?_modifyConn, found, Option.map_some]

/-- A connection that changes where it is fares as its event has it, and the others rest. -/
theorem Inside.fares (held : p.handler = some handler) {f : Connection κ σ → Connection κ σ}
    (inside : Inside p event m f) : Fares handler c conn event (if m = c then f conn else conn) := by
  have same := reader_of_found found
  cases inside with
  | close _ => split <;> exact .rests fun _ _ same => by cases same
  | replace _ => split <;> exact .rests fun _ _ same => by cases same
  | feed held' reading =>
    obtain rfl := Option.some.inj (held.symm.trans held')
    split
    · next here =>
      subst here
      exact .feeds (same.symm.trans reading)
    · next other => exact .rests fun _ _ received => other (Event.received.inj received).1
  | halt held' reading halts =>
    obtain rfl := Option.some.inj (held.symm.trans held')
    split
    · next here =>
      subst here
      rw [isClosed_of_found found] at halts
      exact .halts (same.symm.trans reading) halts
    · exact .rests fun _ => halts.ne_received
  | stop stopping =>
    split
    · next here =>
      subst here
      exact .stops (same.symm.trans stopping)
    · exact .rests fun _ _ same => by cases same

theorem Act.exists_fares [Inhabited σ] (act : Act p event p') (held : p.handler = some handler) :
    ∃ conn', p'.conns[c]? = some conn' ∧ Fares handler c conn event conn' := by
  cases act with
  | rest idle =>
    refine ⟨conn, found, .rests ?_⟩
    rintro reading bytes rfl
    have reading' := (reader_of_found found).trans reading
    simp [finds, held, reading'] at idle
  | connect _ =>
    obtain ⟨bound, -⟩ := List.getElem?_eq_some_iff.mp found
    exact ⟨conn, (List.getElem?_append_left bound).trans found, .rests fun _ _ same => by cases same⟩
  | leave caller _ _ => exact ⟨conn, found, .rests fun _ => not_received_of_caller? caller⟩
  | giveBack caller _ _ _ =>
    exact ⟨conn, (congrArg (·[c]?) (conns_release _)).trans found, .rests fun _ => not_received_of_caller? caller⟩
  | @discard _ _ m _ discards =>
    refine ⟨_, found_modifyConn found _ m, ?_⟩
    split <;> exact .rests fun _ => discards.ne_received
  | @inside _ m f inside => exact ⟨_, found_modifyConn found f m, inside.fares found held⟩
  | _ => exact ⟨conn, found, .rests fun _ _ same => by cases same⟩

theorem exists_fares [Inhabited σ] (held : p.handler = some handler) (event : Event κ) :
    ∃ conn', (p.step event).conns[c]? = some conn' ∧ Fares handler c conn event conn' :=
  (p.step_act event).exists_fares found held

end

/-! ### Connections that are made -/

theorem Act.getElem?_of_absent [Inhabited σ] (act : Act p event p') (absent : p.conns[c]? = none)
    (found : p'.conns[c]? = some conn) :
    ∃ content readable, conn = Connection.made content (readable && p.handler.isSome) := by
  have nothing : p.conns[c]? ≠ some conn := by
    rw [absent]
    exact (Option.some_ne_none conn).symm
  cases act with
  | @connect _ content readable _ =>
    have behind : (p.conns ++ [Connection.made content (readable && p.handler.isSome)])[c]? = some conn := found
    rw [List.getElem?_append_right (List.getElem?_eq_none_iff.mp absent)] at behind
    exact ⟨content, readable, List.mem_singleton.mp (List.mem_of_getElem? behind)⟩
  | giveBack _ _ _ _ => exact absurd ((congrArg (·[c]?) (conns_release _)).symm.trans found) nothing
  | @discard _ _ m _ _ =>
    have found : (p.closeConn m).conns[c]? = some conn := found
    rw [closeConn, getElem?_modifyConn, absent] at found
    cases found
  | @inside _ m f _ =>
    rw [getElem?_modifyConn, absent] at found
    cases found
  | _ => exact absurd found nothing

theorem dialed_eq_made [Inhabited σ] (held : p.handler = some handler) (here : p.gets[g]? = some .dialing)
    (content : κ) (readable : Bool) : p.step (.dialed g content readable) =
      { p with conns := p.conns ++ [Connection.made content readable] }.setPhase g (.holding p.conns.length) := by
  rw [← (Act.connect here).eq_step, held, Option.isSome_some, Bool.and_true]

/-- Where a connection comes from over a step. -/
theorem made_or_fares [Inhabited σ] (held : p.handler = some handler)
    (found : (p.step event).conns[c]? = some conn) :
    (p.conns[c]? = none ∧ ∃ content readable, conn = Connection.made content readable) ∨
      ∃ before, p.conns[c]? = some before ∧ Fares handler c before event conn := by
  cases there : p.conns[c]? with
  | none =>
    obtain ⟨content, readable, made⟩ := (p.step_act event).getElem?_of_absent there found
    exact .inl ⟨rfl, content, _, made⟩
  | some before =>
    obtain ⟨after, found', fares⟩ := exists_fares there held event
    obtain rfl := Option.some.inj (found'.symm.trans found)
    exact .inr ⟨before, rfl, fares⟩

end RpcClient.Pool
