import Mathlib.Data.List.Induction
import Mathlib.Data.List.Perm.Basic
import Mathlib.Tactic.Common

/-!
# Sweeping an array while removing from it

A loop over an array that keeps the element it is at, or removes it by moving the last
element into its place. In the second case it does not go on to the next index. `Sweep`
is this loop on lists: `done` has been passed, `todo` lies ahead. Whatever is
removed, each element is met once (`Sweep.perm`), and what is left are the elements that
were kept, in the order they were met (`Sweep.final_eq`).
-/

namespace Sweeping

universe u

variable {α : Type u}

/-- The last element is moved to the front, where there is a hole. -/
def closeHole (l : List α) : List α := l.getLast?.toList ++ l.dropLast

@[simp] theorem closeHole_nil : closeHole ([] : List α) = [] := rfl

@[simp] theorem closeHole_concat (l : List α) (a : α) : closeHole (l ++ [a]) = a :: l := by
  simp [closeHole]

theorem closeHole_perm (l : List α) : (closeHole l).Perm l := by
  induction l using List.reverseRecOn with
  | nil => exact .refl _
  | append_singleton l a _ =>
    rw [closeHole_concat]
    exact (List.perm_append_singleton a l).symm

@[simp] theorem length_closeHole (l : List α) : (closeHole l).length = l.length :=
  (closeHole_perm l).length_eq

/-- The cells after the removal of `a`, which stands behind `done`: its own cell has what
stood in the last one, the others are as before. -/
theorem getElem?_closeHole (done todo : List α) (a : α) {i : Nat}
    (hi : i < (done ++ todo).length) :
    (done ++ closeHole todo)[i]? =
      (done ++ a :: todo)[if i = done.length then (done ++ todo).length else i]? := by
  induction todo using List.reverseRecOn with
  | nil =>
    have hlt : i < done.length := by simpa using hi
    rw [if_neg (by omega), closeHole_nil, List.getElem?_append_left (by simpa using hlt),
      List.getElem?_append_left hlt]
  | append_singleton todo b _ =>
    rw [closeHole_concat]
    rcases Nat.lt_trichotomy i done.length with hlt | rfl | hgt
    · rw [if_neg (by omega), List.getElem?_append_left hlt, List.getElem?_append_left hlt]
    · rw [if_pos rfl, List.getElem?_append_right (by omega), List.getElem?_append_right (by simp)]
      simp
    · -- behind the hole both lists have `todo`
      rw [if_neg (by omega), List.getElem?_append_right (by omega),
        List.getElem?_append_right (by omega)]
      obtain ⟨k, hk⟩ : ∃ k, i - done.length = k + 1 := ⟨i - done.length - 1, by omega⟩
      have hlt : k < todo.length := by
        simp only [List.length_append, List.length_cons, List.length_nil] at hi
        omega
      rw [hk, List.getElem?_cons_succ, List.getElem?_cons_succ, List.getElem?_append_left hlt]

/-- The loop: what it met, in order, each with whether it was removed, and what is left. -/
inductive Sweep : List α → List α → List (α × Bool) → List α → Prop where
  | finished (done : List α) : Sweep done [] [] done
  | keep {done todo final : List α} {met : List (α × Bool)} (a : α)
      (h : Sweep (done ++ [a]) todo met final) : Sweep done (a :: todo) ((a, false) :: met) final
  | remove {done todo final : List α} {met : List (α × Bool)} (a : α)
      (h : Sweep done (closeHole todo) met final) : Sweep done (a :: todo) ((a, true) :: met) final

/-- The elements that were kept, in the order they were met. -/
def kept (met : List (α × Bool)) : List α := (met.filter fun m => !m.2).map Prod.fst

variable {done todo final : List α} {met : List (α × Bool)}

/-- Each element is met once. -/
theorem Sweep.perm (h : Sweep done todo met final) : (met.map Prod.fst).Perm todo := by
  induction h with
  | finished => exact .refl _
  | keep a _ ih => exact ih.cons a
  | remove a _ ih => exact (ih.trans (closeHole_perm _)).cons a

theorem Sweep.final_eq (h : Sweep done todo met final) : final = done ++ kept met := by
  induction h with
  | finished => simp [kept]
  | keep a _ ih => simpa [kept] using ih
  | remove a _ ih => simpa [kept] using ih

end Sweeping
