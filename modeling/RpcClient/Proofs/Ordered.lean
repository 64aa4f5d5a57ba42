import Mathlib.Data.String.Basic
import RpcClient.Proofs.Entries

/-! Entries in the order of their keys, each key once. Putting entries of different keys in order changes nothing but
their order, and nothing at all where they stand in order already. -/
namespace RpcClient.Entries

variable {α : Type} {key : String} {value : α} {entries listed sorted : List (String × α)}

/-- Keys in their order, each of them once. -/
def Ordered (entries : List (String × α)) : Prop :=
  entries.Pairwise fun first second => first.1 < second.1

theorem mem_insertSorted {key : String} {value : α} {entry : String × α}
    (member : entry ∈ insertSorted key value entries) : entry = (key, value) ∨ entry ∈ entries := by
  induction entries with
  | nil => exact .inl (List.mem_singleton.mp member)
  | cons first rest ih =>
    obtain ⟨k, v⟩ := first
    simp only [insertSorted] at member
    split at member
    · exact List.mem_cons.mp member
    · split at member
      · rcases List.mem_cons.mp member with new | old
        · exact .inl new
        · exact .inr (.tail _ old)
      · rcases List.mem_cons.mp member with here | later
        · exact .inr (here ▸ List.mem_cons_self)
        · exact (ih later).imp_right (.tail _)

theorem Ordered.insertSorted (ordered : Ordered entries) (key : String) (value : α) :
    Ordered (insertSorted key value entries) := by
  induction entries with
  | nil => exact List.pairwise_singleton _ _
  | cons first rest ih =>
    obtain ⟨k, v⟩ := first
    obtain ⟨ahead, behind⟩ := List.pairwise_cons.mp ordered
    simp only [Entries.insertSorted]
    split
    · next before =>
      refine List.pairwise_cons.mpr ⟨?_, ordered⟩
      intro entry member
      rcases List.mem_cons.mp member with rfl | later
      · exact before
      · exact before.trans (ahead entry later)
    · next notBefore =>
      split
      · next same =>
        subst same
        exact List.pairwise_cons.mpr ⟨ahead, behind⟩
      · next other =>
        refine List.pairwise_cons.mpr ⟨?_, ih behind⟩
        intro entry member
        rcases mem_insertSorted member with rfl | later
        · exact lt_of_le_of_ne (not_lt.mp notBefore) (Ne.symm other)
        · exact ahead entry later

theorem ordered_sortedLast (entries : List (String × α)) : Ordered (sortedLast entries) :=
  List.foldlRecOn entries _ List.Pairwise.nil fun _ ordered entry _ => ordered.insertSorted entry.1 entry.2

theorem Ordered.nodup_keys (ordered : Ordered entries) : (entries.map Prod.fst).Nodup :=
  List.pairwise_map.mpr (ordered.imp fun before => before.ne)

theorem ordered_of_keys (keys : List String) (listed : entries.map Prod.fst = keys) (sorted : keys.Pairwise (· < ·)) :
    Ordered entries :=
  List.pairwise_map.mp (listed ▸ sorted)

/-! ### Putting entries in order -/

theorem insertSorted_perm (value : α) (absent : key ∉ entries.map Prod.fst) :
    (insertSorted key value entries).Perm ((key, value) :: entries) := by
  induction entries with
  | nil => exact .refl _
  | cons first rest ih =>
    obtain ⟨k, v⟩ := first
    obtain ⟨other, absent⟩ := List.ne_and_not_mem_of_not_mem_cons absent
    rw [insertSorted]
    by_cases before : key < k
    · rw [if_pos before]
    · rw [if_neg before, if_neg other]
      exact ((ih absent).cons _).trans (.swap _ _ _)

theorem foldl_insertSorted_perm (nodup : ((sorted ++ listed).map Prod.fst).Nodup) :
    (listed.foldl (fun sorted (key, value) => insertSorted key value sorted) sorted).Perm (sorted ++ listed) := by
  induction listed generalizing sorted with
  | nil => exact .of_eq (List.append_nil _).symm
  | cons first rest ih =>
    have front : (sorted ++ first :: rest).Perm ((first :: sorted) ++ rest) := List.perm_middle
    have nodup' := (front.map Prod.fst).nodup_iff.mp nodup
    have absent : first.1 ∉ sorted.map Prod.fst := by
      rw [List.cons_append, List.map_cons, List.nodup_cons, List.map_append] at nodup'
      exact fun member => nodup'.1 (List.mem_append_left _ member)
    have inserted := (insertSorted_perm first.2 absent).append_right rest
    exact (ih ((inserted.map Prod.fst).nodup_iff.mpr nodup')).trans (inserted.trans front.symm)

theorem sortedLast_perm (nodup : (listed.map Prod.fst).Nodup) : (sortedLast listed).Perm listed := by
  have sorted := @foldl_insertSorted_perm α listed []
  rw [List.nil_append] at sorted
  exact sorted nodup

theorem Ordered.sortedLast_eq (ordered : Ordered entries) : sortedLast entries = entries := by
  refine (sortedLast_perm ordered.nodup_keys).eq_of_pairwise ?_ (ordered_sortedLast entries) ordered
  intro first second _ _ before after
  exact absurd before after.asymm

end RpcClient.Entries
