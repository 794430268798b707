import Mathlib.Data.List.Nodup
import Mathlib.Data.List.Perm.Basic

/-!
# Ledgers

A keeper makes objects, holds them in the slots of an array and lets them go again.
The books balance if what is held and what is gone together are what was made, each
object once: nothing is leaked and nothing is let go twice.
-/

namespace Ledger

variable {α : Type}

/-! ## Slots -/

/-- The contents of the first `n` slots, in order. -/
def slots (f : Nat → Option α) (n : Nat) : List α := (List.range n).filterMap f

theorem mem_slots {f : Nat → Option α} {n : Nat} {x : α} :
    x ∈ slots f n ↔ ∃ i < n, f i = some x := by
  simp only [slots, List.mem_filterMap, List.mem_range]

/-- Slot `n` is filled, the others stay. -/
theorem slots_push {f g : Nat → Option α} {n : Nat} {x : α} (hnew : g n = some x)
    (hold : ∀ i < n, g i = f i) : slots g (n + 1) = slots f n ++ [x] := by
  unfold slots
  rw [List.range_succ, List.filterMap_append]
  congr 1
  · apply List.filterMap_congr
    intro i hi
    exact hold i (List.mem_range.mp hi)
  · simp [hnew]

/-- A full slot is emptied, the others stay. -/
theorem slots_clear {f g : Nat → Option α} {n i : Nat} {x : α} (hi : i < n)
    (hfull : f i = some x) (hempty : g i = none) (hold : ∀ j, j ≠ i → g j = f j) :
    (slots f n).Perm (x :: slots g n) := by
  have hmem : i ∈ List.range n := List.mem_range.mpr hi
  have hrest : ((List.range n).erase i).filterMap f = ((List.range n).erase i).filterMap g := by
    apply List.filterMap_congr
    intro j hj
    rw [hold j]
    rintro rfl
    exact List.nodup_range.not_mem_erase hj
  have hf := (List.perm_cons_erase hmem).filterMap f
  have hg := (List.perm_cons_erase hmem).filterMap g
  rw [List.filterMap_cons_some hfull, hrest] at hf
  rw [List.filterMap_cons_none hempty] at hg
  exact hf.trans (hg.symm.cons x)

/-- If no object is held twice, each is in one slot. -/
theorem slots_inj {f : Nat → Option α} {n i j : Nat} {x : α} (h : (slots f n).Nodup)
    (hi : i < n) (hj : j < n) (hfi : f i = some x) (hfj : f j = some x) : i = j := by
  unfold slots at h
  rw [List.Nodup, List.pairwise_filterMap] at h
  -- the later of two different slots holds something else
  have hlt : ∀ i j, i < j → j < n → f i = some x → f j = some x → False := by
    intro i j hij hj hfi hfj
    have hpair := List.pairwise_iff_getElem.mp h i j (by simp; omega) (by simpa using hj) hij
    simp only [List.getElem_range] at hpair
    exact hpair x hfi x hfj rfl
  rcases Nat.lt_trichotomy i j with hij | hij | hij
  · exact (hlt i j hij hj hfi hfj).elim
  · exact hij
  · exact (hlt j i hij hi hfj hfi).elim

/-! ## Balance -/

/-- What is held and what is gone are what was made, each object once. -/
structure Balanced (made held gone : List α) : Prop where
  perm : (held ++ gone).Perm made
  nodup : made.Nodup

namespace Balanced

variable {made held held' gone : List α} {x : α}

theorem nil : Balanced ([] : List α) [] [] where
  perm := .refl []
  nodup := .nil

/-- The slots may be read in another order. -/
theorem congr (h : Balanced made held gone) (hheld : held'.Perm held) :
    Balanced made held' gone where
  perm := (hheld.append_right gone).trans h.perm
  nodup := h.nodup

/-- A new object is made and held. -/
theorem make (h : Balanced made held gone) (hnew : x ∉ made) (hheld : held'.Perm (x :: held)) :
    Balanced (made ++ [x]) held' gone where
  perm := by
    calc
      List.Perm (held' ++ gone) (x :: held ++ gone) := hheld.append_right gone
      List.Perm _ (x :: made) := h.perm.cons x
      List.Perm _ (made ++ [x]) := (List.perm_append_singleton x made).symm
  nodup := by
    rw [List.nodup_append']
    refine ⟨h.nodup, List.nodup_singleton x, ?_⟩
    simpa using hnew

/-- An object that is held is let go. -/
theorem release (h : Balanced made held gone) (hheld : held.Perm (x :: held')) :
    Balanced made held' (gone ++ [x]) where
  perm := by
    have hmove : (held' ++ (gone ++ [x])).Perm (x :: held' ++ gone) := by
      rw [← List.append_assoc]
      exact List.perm_append_singleton x (held' ++ gone)
    exact hmove.trans ((hheld.symm.append_right gone).trans h.perm)
  nodup := h.nodup

/-- A new object is made and let go at once. -/
theorem make_release (h : Balanced made held gone) (hnew : x ∉ made) :
    Balanced (made ++ [x]) held (gone ++ [x]) :=
  (h.make hnew (.refl (x :: held))).release (.refl (x :: held))

/-- No object is held twice. -/
theorem nodup_held (h : Balanced made held gone) : held.Nodup :=
  (List.nodup_append'.mp (h.perm.nodup_iff.mpr h.nodup)).1

/-- What was made is held and never let go, or not held and let go once. -/
theorem held_or_gone [BEq α] [LawfulBEq α] (h : Balanced made held gone) (hx : x ∈ made) :
    (x ∈ held ∧ gone.count x = 0) ∨ (x ∉ held ∧ gone.count x = 1) := by
  have hone : held.count x + gone.count x = 1 := by
    rw [← List.count_append, h.perm.count_eq]
    exact List.count_eq_one_of_mem h.nodup hx
  by_cases hheld : x ∈ held
  · have hpos : 0 < held.count x := List.count_pos_iff.mpr hheld
    exact Or.inl ⟨hheld, by omega⟩
  · have hzero : held.count x = 0 := List.count_eq_zero.mpr hheld
    exact Or.inr ⟨hheld, by omega⟩

end Balanced

end Ledger
