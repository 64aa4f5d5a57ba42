import Mathlib.Data.List.Forall2

/-! Computations that may fail, seen from a result: each of their parts has succeeded. -/
namespace RpcClient

variable {ε α β : Type}

theorem ok_of_bind_eq_ok {x : Except ε α} {f : α → Except ε β} {b : β} (success : x >>= f = .ok b) :
    ∃ a, x = .ok a ∧ f a = .ok b := by
  cases x with
  | error e => cases success
  | ok a => exact ⟨a, rfl, success⟩

theorem bind_ok_eq_ok {x : Except ε α} {f : α → Except ε β} {a : α} {b : β} (first : x = .ok a) (second : f a = .ok b) :
    x >>= f = .ok b := by
  rw [first]
  exact second

theorem ok_of_map_eq_ok {x : Except ε α} {f : α → β} {b : β} (success : x.map f = .ok b) :
    ∃ a, x = .ok a ∧ f a = b := by
  cases x with
  | error e => cases success
  | ok a => exact ⟨a, rfl, Except.ok.inj success⟩

theorem eq_ok_of_toOption {result : Except ε α} {a : α} (success : result.toOption = some a) : result = .ok a := by
  cases result with
  | error e => cases success
  | ok a' =>
    cases success
    rfl

theorem forall₂_of_mapM_eq_ok {f : α → Except ε β} {xs : List α} {ys : List β} (success : xs.mapM f = .ok ys) :
    List.Forall₂ (fun x y => f x = .ok y) xs ys := by
  induction xs generalizing ys with
  | nil =>
    cases success
    exact .nil
  | cons x xs ih =>
    rw [List.mapM_cons] at success
    obtain ⟨y, first, success⟩ := ok_of_bind_eq_ok success
    obtain ⟨ys', rest, success⟩ := ok_of_bind_eq_ok success
    cases success
    exact .cons first (ih rest)

theorem mapM_eq_ok_of_forall₂ {f : α → Except ε β} {xs : List α} {ys : List β}
    (each : List.Forall₂ (fun x y => f x = .ok y) xs ys) : xs.mapM f = .ok ys := by
  induction each with
  | nil => rfl
  | cons first _ ih =>
    rw [List.mapM_cons, first, ih]
    rfl

end RpcClient
