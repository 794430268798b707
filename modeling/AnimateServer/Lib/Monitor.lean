import Mathlib.Algebra.BigOperators.Group.Finset.Basic
import Mathlib.Data.List.Basic
import Mathlib.Tactic.Common

/-!
# Monitors

A lock with one condition variable. `wait` gives up the lock and falls asleep in one
step, a broadcast wakes everybody who is asleep, and a thread that has been woken takes the
lock again before it goes on. Neither kind of waking needs the lock. Nobody wakes up on his own:
the spurious wake-ups of `pthread_cond_wait` are left out, so a waiter who tests its condition
again finds it changed only if somebody has changed it.
-/

namespace Monitors

universe u

/-- The holder of the lock and the threads asleep on the condition variable. -/
structure Monitor (ι : Type u) where
  owner : Option ι
  asleep : List ι

namespace Monitor

variable {ι : Type u}

/-- A free lock, nobody asleep. -/
def init : Monitor ι where
  owner := none
  asleep := []

/-- Taking the lock; `none` as long as it is held. -/
def acquire (i : ι) (m : Monitor ι) : Option (Monitor ι) :=
  match m.owner with
  | none => some { m with owner := some i }
  | some _ => none

/-- Waking everybody. -/
def broadcast (m : Monitor ι) : Monitor ι :=
  { m with asleep := [] }

section Threads

variable [DecidableEq ι]

/-- Giving the lock back. Only its holder can. -/
def release (i : ι) (m : Monitor ι) : Option (Monitor ι) :=
  if m.owner = some i then some { m with owner := none } else none

/-- Falling asleep, with the lock given back. -/
def wait (i : ι) (m : Monitor ι) : Option (Monitor ι) :=
  if m.owner = some i then some { owner := none, asleep := i :: m.asleep } else none

/-- Going on after a `wait`: not before somebody has woken the thread. -/
def wake (i : ι) (m : Monitor ι) : Option (Monitor ι) :=
  if i ∈ m.asleep then none else m.acquire i

/-- Waking one sleeper, or nobody if nobody is asleep. -/
def signal (woken : Option ι) (m : Monitor ι) : Option (Monitor ι) :=
  match woken with
  | none => if m.asleep.isEmpty then some m else none
  | some i => if i ∈ m.asleep then some { m with asleep := m.asleep.erase i } else none

end Threads

/-! ## What the operations do -/

@[simp] theorem owner_broadcast (m : Monitor ι) : m.broadcast.owner = m.owner := rfl

@[simp] theorem asleep_broadcast (m : Monitor ι) : m.broadcast.asleep = [] := rfl

variable {i : ι} {m m' : Monitor ι}

theorem acquire_eq_some :
    m.acquire i = some m' ↔ m.owner = none ∧ m' = { m with owner := some i } := by
  unfold acquire
  constructor
  · intro h
    split at h
    · rename_i ho
      exact ⟨ho, (Option.some.inj h).symm⟩
    · simp at h
  · rintro ⟨ho, rfl⟩
    rw [ho]

variable [DecidableEq ι]

theorem release_eq_some :
    m.release i = some m' ↔ m.owner = some i ∧ m' = { m with owner := none } := by
  unfold release
  rw [Option.ite_none_right_eq_some, Option.some_inj, eq_comm (a := m')]

theorem wait_eq_some :
    m.wait i = some m' ↔
      m.owner = some i ∧ m' = { owner := none, asleep := i :: m.asleep } := by
  unfold wait
  rw [Option.ite_none_right_eq_some, Option.some_inj, eq_comm (a := m')]

theorem wake_eq_some :
    m.wake i = some m' ↔
      i ∉ m.asleep ∧ m.owner = none ∧ m' = { m with owner := some i } := by
  unfold wake
  rw [Option.ite_none_left_eq_some, acquire_eq_some]

/-- A signal keeps the lock and puts nobody to sleep. -/
theorem signal_spec {woken : Option ι} (h : m.signal woken = some m') :
    m'.owner = m.owner ∧ ∀ j ∈ m'.asleep, j ∈ m.asleep := by
  unfold signal at h
  cases woken with
  | none =>
    rcases Option.ite_none_right_eq_some.mp h with ⟨-, h⟩
    obtain rfl := Option.some.inj h
    exact ⟨rfl, fun _ hj => hj⟩
  | some k =>
    rcases Option.ite_none_right_eq_some.mp h with ⟨-, h⟩
    obtain rfl := Option.some.inj h
    exact ⟨rfl, fun _ hj => List.mem_of_mem_erase hj⟩

/-- A signal keeps the sleepers apart. -/
theorem signal_sublist {woken : Option ι} (h : m.signal woken = some m') :
    m'.asleep.Sublist m.asleep := by
  unfold signal at h
  cases woken with
  | none =>
    rcases Option.ite_none_right_eq_some.mp h with ⟨-, h⟩
    obtain rfl := Option.some.inj h
    exact List.Sublist.refl _
  | some k =>
    rcases Option.ite_none_right_eq_some.mp h with ⟨-, h⟩
    obtain rfl := Option.some.inj h
    exact List.erase_sublist

end Monitor

/-! ## Figures over all threads -/

/-- A sum over the threads when one of them moves. -/
theorem sum_range_update {f f' : Nat → Nat} {n i : Nat} (hi : i < n)
    (hne : ∀ j, j ≠ i → f' j = f j) :
    (Finset.range n).sum f' + f i = (Finset.range n).sum f + f' i := by
  have hmem : i ∈ Finset.range n := Finset.mem_range.mpr hi
  have hnew := Finset.sum_erase_add (Finset.range n) f' hmem
  have hold := Finset.sum_erase_add (Finset.range n) f hmem
  have hrest : ∀ j ∈ (Finset.range n).erase i, f' j = f j := fun j hj =>
    hne j (Finset.ne_of_mem_erase hj)
  rw [Finset.sum_congr rfl hrest] at hnew
  rw [← hnew, ← hold]
  exact Nat.add_right_comm _ _ _

end Monitors
