import RpcClient.Hessian.Reader
import RpcClient.Proofs.Bytes

/-! Reading Hessian data is local. What an action takes off the data and what it makes of it depends
on the bytes that it takes, and not on what follows them. -/
namespace RpcClient.Hessian

variable {α β : Type} {position : Nat} {classes classes' classes'' : Array Nat}
  {used used' rest : Bytes} {a : α} {b : β} {m : Read α} {c : Cursor}

/-- The cursor in front of `rest`, with `position` bytes and the definitions of `classes` behind it. -/
def Cursor.of (position : Nat) (classes : Array Nat) (rest : Bytes) : Cursor where
  rest
  position
  size := position + rest.length
  classes
  position_add_length_rest := rfl

theorem Cursor.eq_of (c : Cursor) : c = .of c.position c.classes c.rest := by
  obtain ⟨rest, position, size, classes, rfl⟩ := c
  rfl

theorem Cursor.remaining_of (position : Nat) (classes : Array Nat) (rest : Bytes) :
    (Cursor.of position classes rest).remaining = rest.length :=
  (Cursor.length_rest (.of position classes rest)).symm

theorem bind_eq_ok {g : α → Read β} {c'' : Cursor} (success : (m >>= g) c = .ok b c'') :
    ∃ a c', m c = .ok a c' ∧ g a c' = .ok b c'' := by
  change EStateM.bind m g c = _ at success
  rw [EStateM.bind] at success
  split at success
  next a c' first => exact ⟨a, c', first, success⟩
  next => cases success

theorem bind_of_ok {g : α → Read β} {c' : Cursor} (first : m c = .ok a c') : (m >>= g) c = g a c' := by
  change EStateM.bind m g c = _
  rw [EStateM.bind, first]

theorem bind_of_error {g : α → Read β} {c' : Cursor} {flaw : Flaw} (first : m c = .error flaw c') :
    (m >>= g) c = .error flaw c' := by
  change EStateM.bind m g c = _
  rw [EStateM.bind, first]

theorem bind_get {g : Cursor → Read α} (c : Cursor) : (get >>= g) c = g c c := rfl

/-! ### What is taken, whatever follows -/

/-- From here `m` takes `used` off the data, whatever follows it, and gives `a`. -/
def Takes (m : Read α) (position : Nat) (classes : Array Nat) (used : Bytes) (a : α)
    (classes' : Array Nat) : Prop :=
  ∀ rest, m (.of position classes (used ++ rest)) = .ok a (.of (position + used.length) classes' rest)

theorem Takes.pure (position : Nat) (classes : Array Nat) (a : α) :
    Takes (pure a) position classes [] a classes := fun _ => rfl

theorem Takes.bind {g : α → Read β} (first : Takes m position classes used a classes')
    (second : Takes (g a) (position + used.length) classes' used' b classes'') :
    Takes (m >>= g) position classes (used ++ used') b classes'' := by
  intro rest
  rw [List.append_assoc, bind_of_ok (first _), second, List.length_append, Nat.add_assoc]

theorem Takes.byte (position : Nat) (classes : Array Nat) (b : UInt8) :
    Takes byte position classes [b] b classes :=
  fun _ => congrArg (EStateM.Result.ok b) (Cursor.eq_of _)

theorem Takes.skip (position : Nat) (classes : Array Nat) (bytes : Bytes) :
    Takes (skip bytes.length) position classes bytes () classes := by
  intro rest
  have cut := Bytes.dropExactly_append bytes rest
  rw [Hessian.skip]
  split
  next missing =>
    rw [Cursor.of, cut] at missing
    cases missing
  next rest' cut' =>
    rw [Cursor.of, cut] at cut'
    cases cut'
    exact congrArg (EStateM.Result.ok ()) (Cursor.eq_of _)

/-- A byte that was looked at is the first of those that are taken. -/
theorem Takes.peek_bind {g : UInt8 → Read β} {head : UInt8}
    (second : Takes (g head) position classes (head :: used) b classes') :
    Takes (peek >>= g) position classes (head :: used) b classes' := second

theorem Takes.discard (takes : Takes m position classes used a classes') :
    Takes (discard m) position classes used () classes' := by
  intro rest
  change (m >>= fun _ => Pure.pure ()) _ = _
  rw [bind_of_ok (takes rest)]
  rfl

/-- Fuel for as many rounds as there are bytes left. -/
theorem Takes.get_remaining {f : Nat → Read α}
    (each : ∀ budget, used.length ≤ budget → Takes (f budget) position classes used a classes') :
    Takes (do f (← get).remaining) position classes used a classes' := by
  intro rest
  have fits : used.length ≤ (Cursor.of position classes (used ++ rest)).remaining := by
    rw [Cursor.remaining_of, List.length_append]
    omega
  exact each _ fits rest

/-- Where `m` succeeds, it takes at least `least` bytes, and where these are not more than the
budget, `n` takes the same with it, whatever follows. -/
def Follows (least : Nat) (m : Read α) (n : (budget : Nat) → Read α) : Prop :=
  ∀ ⦃position classes bytes a c⦄, m (.of position classes bytes) = .ok a c →
    ∃ used classes' rest, bytes = used ++ rest ∧ c = .of (position + used.length) classes' rest ∧
      least ≤ used.length ∧
      ∀ budget, used.length ≤ budget → Takes (n budget) position classes used a classes'

/-- Where `m` succeeds, it takes at least `least` bytes, whatever follows them. -/
abbrev Local (least : Nat) (m : Read α) : Prop := Follows least m fun _ => m

variable {least : Nat} {n : Nat → Read α}

theorem Local.takes {bytes : Bytes} (follows : Local least m)
    (success : m (.of position classes bytes) = .ok a c) :
    ∃ used classes' rest, bytes = used ++ rest ∧ c = .of (position + used.length) classes' rest ∧
      least ≤ used.length ∧ Takes m position classes used a classes' := by
  obtain ⟨used, classes', rest, split, moved, enough, takes⟩ := follows success
  exact ⟨used, classes', rest, split, moved, enough, takes used.length (Nat.le_refl _)⟩

theorem Follows.zero (follows : Follows least m n) : Follows 0 m n := by
  intro position classes bytes a c success
  obtain ⟨used, classes', rest, split, moved, -, takes⟩ := follows success
  exact ⟨used, classes', rest, split, moved, Nat.zero_le _, takes⟩

theorem Follows.congr {n' : Nat → Read α} (follows : Follows least m n)
    (same : ∀ budget, least ≤ budget → n budget = n' budget) : Follows least m n' := by
  intro position classes bytes a c success
  obtain ⟨used, classes', rest, split, moved, enough, takes⟩ := follows success
  refine ⟨used, classes', rest, split, moved, enough, ?_⟩
  intro budget fits
  exact same budget (Nat.le_trans enough fits) ▸ takes budget fits

theorem Follows.pure (a : α) : Local 0 (pure a) := by
  intro position classes bytes a' c success
  cases success
  exact ⟨[], classes, bytes, rfl, rfl, Nat.le_refl 0, fun _ _ => Takes.pure position classes a⟩

theorem Follows.throw (least : Nat) (flaw : Flaw) (n : Nat → Read α) :
    Follows least (throw flaw) n := by
  intro position classes bytes a c success
  cases success

/-- Bytes that the first action takes are not needed in the budget of the second. -/
theorem Follows.bind_sub {g : α → Read β} {h : α → Nat → Read β} {less : Nat}
    (first : Follows least m n) (second : ∀ a, Follows 0 (g a) (h a)) (spent : less ≤ least) :
    Follows least (m >>= g) fun budget => n budget >>= fun a => h a (budget - less) := by
  intro position classes bytes b c success
  obtain ⟨a, c', success, success'⟩ := bind_eq_ok success
  obtain ⟨used, classes', rest, rfl, rfl, enough, takes⟩ := first success
  obtain ⟨used', classes'', rest', rfl, rfl, -, takes'⟩ := second a success'
  refine ⟨used ++ used', classes'', rest', (List.append_assoc _ _ _).symm, ?_, ?_, ?_⟩
  · rw [List.length_append, Nat.add_assoc]
  · rw [List.length_append]
    omega
  · intro budget fits
    rw [List.length_append] at fits
    exact (takes budget (by omega)).bind (takes' (budget - less) (by omega))

theorem Follows.bind {g : α → Read β} {h : α → Nat → Read β} (first : Follows least m n)
    (second : ∀ a, Follows 0 (g a) (h a)) :
    Follows least (m >>= g) fun budget => n budget >>= fun a => h a budget :=
  first.bind_sub second (Nat.zero_le _)

theorem Follows.more {f : Nat → Read α} (follows : Follows least m f) :
    Follows least m fun budget => f (budget + 1) := by
  intro position classes bytes a c success
  obtain ⟨used, classes', rest, split, moved, enough, takes⟩ := follows success
  refine ⟨used, classes', rest, split, moved, enough, ?_⟩
  intro budget fits
  exact takes (budget + 1) (Nat.le_succ_of_le fits)

/-- What takes a byte has a budget for it. -/
theorem Follows.succ {f : Nat → Read α}
    (follows : Follows (least + 1) m fun budget => f (budget - 1 + 1)) :
    Follows (least + 1) m f := by
  apply follows.congr
  intro budget enough
  rw [Nat.sub_add_cancel (by omega)]

/-- The second action needs no budget for a byte that the first one takes. -/
theorem Follows.bind_succ {g : α → Read β} {h : Nat → α → Read β} (first : Follows (least + 1) m n)
    (second : ∀ a, Follows 0 (g a) fun budget => h (budget + 1) a) :
    Follows (least + 1) (m >>= g) fun budget => n budget >>= h budget := by
  apply (first.bind_sub second (Nat.succ_le_succ (Nat.zero_le least))).congr
  intro budget enough
  rw [Nat.sub_add_cancel (by omega)]

theorem Follows.byte : Local 1 byte := by
  intro position classes bytes a c success
  cases bytes with
  | nil => cases success
  | cons head bytes =>
    have takes := Takes.byte position classes head
    cases (takes bytes).symm.trans success
    exact ⟨[a], classes, bytes, rfl, rfl, Nat.le_refl 1, fun _ _ => takes⟩

/-- A byte that was looked at is the first of those that are taken. -/
theorem Follows.peek_bind {g : UInt8 → Read β} {h : UInt8 → Nat → Read β}
    (second : ∀ b, Follows (least + 1) (g b) (h b)) :
    Follows (least + 1) (peek >>= g) fun budget => peek >>= fun b => h b budget := by
  intro position classes bytes b c success
  cases bytes with
  | nil => cases success
  | cons head bytes =>
    obtain ⟨used, classes', rest, split, moved, enough, takes⟩ := second head success
    refine ⟨used, classes', rest, split, moved, enough, ?_⟩
    intro budget fits more
    cases used with
    | nil => cases enough
    | cons head' used =>
      cases split
      exact takes budget fits more

theorem Follows.skip (count : Nat) : Local count (skip count) := by
  intro position classes bytes a c success
  rw [Hessian.skip] at success
  split at success
  next => cases success
  next rest cut =>
    cases success
    have split := Bytes.eq_append_of_dropExactly cut
    have size := Bytes.length_of_dropExactly cut
    have length : (bytes.take count).length = count := by
      rw [List.length_take]
      exact Nat.min_eq_left (size ▸ Nat.le_add_left count _)
    have takes := Takes.skip position classes (bytes.take count)
    rw [length] at takes
    refine ⟨bytes.take count, classes, rest, split, ?_, Nat.le_of_eq length.symm, fun _ _ => takes⟩
    rw [length]
    exact Cursor.eq_of _

theorem Follows.word : Local 1 word :=
  Follows.byte.bind fun high =>
    (Follows.byte.bind fun low => Follows.pure (high.toNat * 256 + low.toNat)).zero

theorem Follows.discard (follows : Follows least m n) :
    Follows least (discard m) fun budget => discard (n budget) :=
  follows.bind fun _ => Follows.pure ()

theorem Follows.times {action : Read Unit} (each : Local 0 action) (count : Nat) :
    Local 0 (times count action) := by
  induction count with
  | zero => exact Follows.pure ()
  | succ count ih => exact each.bind fun _ => ih

theorem Follows.ite {condition : Prop} [Decidable condition] {m' : Read α} {n' : Nat → Read α}
    (yes : Follows least m n) (no : Follows least m' n') :
    Follows least (if condition then m else m')
      fun budget => if condition then n budget else n' budget := by
  split
  · exact yes
  · exact no

theorem Follows.get_remaining {f : Nat → Read α} (each : ∀ fuel, Follows least (f fuel) f) :
    Local least (do f (← get).remaining) := by
  intro position classes bytes a c success
  obtain ⟨used, classes', rest, split, moved, enough, takes⟩ := each _ success
  exact ⟨used, classes', rest, split, moved, enough, fun _ _ => Takes.get_remaining takes⟩

theorem Follows.untilEndWithin {action : Read Unit} (each : Local 1 action) (fuel : Nat) :
    Follows 1 (untilEndWithin fuel action) fun budget => untilEndWithin budget action := by
  -- on the fuel of the run that succeeds; the byte that a round takes pays for it in the other run
  induction fuel with
  | zero => exact Follows.throw 1 .endOfData _
  | succ fuel ih =>
    apply Follows.succ
    apply Follows.peek_bind
    intro b
    apply Follows.ite
    · exact Follows.byte.discard
    · exact each.bind_succ fun _ => ih.zero

theorem Follows.untilEnd {action : Read Unit} (each : Local 1 action) : Local 1 (untilEnd action) :=
  Follows.get_remaining (Follows.untilEndWithin each)

end RpcClient.Hessian
