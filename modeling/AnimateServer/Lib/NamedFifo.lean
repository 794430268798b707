import Mathlib.Data.Fintype.Basic
import Mathlib.Logic.Function.Basic
import Mathlib.Tactic.Common

/-!
# Named FIFOs

FIFOs as a POSIX kernel keeps them: names that lead to inodes, and descriptors that are open,
or about to be opened, at one end of an inode. An `open` that has to wait for the other end
counts as an end itself, and it goes through once there has been somebody at the other end,
even if that one has left again. A name can be unlinked while the ends of its inode are open.
-/

namespace NamedFifo

universe u v

inductive Mode where
  | read
  | write
deriving DecidableEq, Repr

def Mode.other : Mode → Mode
  | .read => .write
  | .write => .read

/-- A descriptor: closed, in an `open` that waits (`met` once the other end has been there), or
open. -/
inductive Desc where
  | closed
  | waiting (mode : Mode) (inode : Nat) (met : Bool)
  | opened (mode : Mode) (inode : Nat)
deriving DecidableEq, Repr

namespace Desc

/-- The inode of a descriptor that is open or waits, and which end it is. -/
def place? : Desc → Option (Mode × Nat)
  | .closed => none
  | .waiting mode inode _ => some (mode, inode)
  | .opened mode inode => some (mode, inode)

/-- Somebody has come to the end `mode` of `inode`. -/
def meet (mode : Mode) (inode : Nat) : Desc → Desc
  | .waiting m i met => .waiting m i (met || decide (m.other = mode ∧ i = inode))
  | d => d

/-- Meeting somebody does not move a descriptor. -/
@[simp] theorem place_meet (mode : Mode) (inode : Nat) (d : Desc) :
    (d.meet mode inode).place? = d.place? := by
  cases d <;> rfl

@[simp] theorem meet_closed (mode : Mode) (inode : Nat) : Desc.closed.meet mode inode = .closed :=
  rfl

@[simp] theorem meet_opened (mode m : Mode) (inode i : Nat) :
    (Desc.opened m i).meet mode inode = .opened m i := rfl

/-- Nobody is opened or closed by somebody else's arrival. -/
theorem meet_eq_opened {mode m : Mode} {inode i : Nat} {d : Desc} :
    d.meet mode inode = .opened m i ↔ d = .opened m i := by
  cases d <;> simp [meet]

end Desc

/-- The names `ν`, the inodes handed out so far, and the descriptors `δ` of all processes. -/
structure Fifos (ν : Type u) (δ : Type v) where
  dir : ν → Option Nat
  made : Nat
  desc : δ → Desc

/-- `ENOENT` and `ENXIO`: there is no such name, or nobody reads. -/
inductive OpenError where
  | noName
  | noReader
deriving DecidableEq, Repr

namespace Fifos

variable {ν : Type u} {δ : Type v}

/-- There is an open or a waiting descriptor at this end. -/
def Present (mode : Mode) (inode : Nat) (f : Fifos ν δ) : Prop :=
  ∃ d, (f.desc d).place? = some (mode, inode)

instance [Fintype δ] (mode : Mode) (inode : Nat) (f : Fifos ν δ) :
    Decidable (f.Present mode inode) := by
  unfold Present
  infer_instance

/-! ## System calls -/

section Names

variable [DecidableEq ν]

/-- `unlink`. -/
def unlink (n : ν) (f : Fifos ν δ) : Fifos ν δ :=
  { f with dir := Function.update f.dir n none }

/-- The name gets a new inode. -/
def link (n : ν) (f : Fifos ν δ) : Fifos ν δ :=
  { f with dir := Function.update f.dir n (some f.made), made := f.made + 1 }

/-- `mkfifo`; `none` if the name exists. -/
def mkfifo (n : ν) (f : Fifos ν δ) : Option (Fifos ν δ) :=
  match f.dir n with
  | some _ => none
  | none => some (f.link n)

variable {n : ν} {f f' : Fifos ν δ}

/-- Unlinking a name leaves the descriptors that are open on the inode. -/
@[simp] theorem desc_unlink : (f.unlink n).desc = f.desc := rfl

@[simp] theorem made_unlink : (f.unlink n).made = f.made := rfl

/-- A name that has been unlinked leads nowhere. -/
@[simp] theorem dir_unlink_self : (f.unlink n).dir n = none := by
  simp [unlink]

/-- Unlinking a name leaves the other ones. -/
theorem dir_unlink_of_ne {m : ν} (h : m ≠ n) : (f.unlink n).dir m = f.dir m := by
  simp [unlink, h]

/-- A name that still leads somewhere is another one. -/
theorem dir_unlink_eq_some {m : ν} {i : Nat} :
    (f.unlink n).dir m = some i ↔ m ≠ n ∧ f.dir m = some i := by
  by_cases h : m = n
  · subst h
    simp
  · simp [dir_unlink_of_ne h, h]

@[simp] theorem desc_link : (f.link n).desc = f.desc := rfl

@[simp] theorem made_link : (f.link n).made = f.made + 1 := rfl

/-- A new FIFO has a new inode. -/
@[simp] theorem dir_link_self : (f.link n).dir n = some f.made := by
  simp [link]

/-- A new FIFO leaves the other names. -/
theorem dir_link_of_ne {m : ν} (h : m ≠ n) : (f.link n).dir m = f.dir m := by
  simp [link, h]

/-- A name leads to the new inode or where it led before. -/
theorem dir_link_eq_some {m : ν} {i : Nat} :
    (f.link n).dir m = some i ↔ m = n ∧ i = f.made ∨ m ≠ n ∧ f.dir m = some i := by
  by_cases h : m = n
  · subst h
    simp [eq_comm]
  · simp [dir_link_of_ne h, h]

/-- `mkfifo` succeeds exactly if the name is free. -/
theorem mkfifo_eq_some : f.mkfifo n = some f' ↔ f.dir n = none ∧ f' = f.link n := by
  unfold mkfifo
  cases f.dir n <;> simp [eq_comm]

end Names

section Descriptors

variable [DecidableEq δ]

def set (d : δ) (state : Desc) (f : Fifos ν δ) : Fifos ν δ :=
  { f with desc := Function.update f.desc d state }

/-- Descriptor `d` comes to the end `mode` of `inode`, as `state`. -/
def arrive (d : δ) (mode : Mode) (inode : Nat) (state : Desc) (f : Fifos ν δ) : Fifos ν δ :=
  { f with desc := fun c => (f.desc c).meet mode inode }.set d state

/-- `open` with `O_NONBLOCK`: a writer does not wait for a reader. -/
def openNonblock [Fintype δ] (d : δ) (mode : Mode) (n : ν) (f : Fifos ν δ) :
    Except OpenError (Fifos ν δ) :=
  match f.dir n with
  | none => .error .noName
  | some i =>
    if mode = .write ∧ ¬f.Present .read i then .error .noReader
    else .ok (f.arrive d mode i (.opened mode i))

/-- `open` without `O_NONBLOCK` begins; `none` if there is no such name. -/
def openBlocking [Fintype δ] (d : δ) (mode : Mode) (n : ν) (f : Fifos ν δ) :
    Option (Fifos ν δ) :=
  (f.dir n).map fun i => f.arrive d mode i (.waiting mode i (decide (f.Present mode.other i)))

/-- An `open` that has waited goes through. -/
def finishOpen (d : δ) (f : Fifos ν δ) : Option (Fifos ν δ) :=
  match f.desc d with
  | .waiting mode i true => some (f.set d (.opened mode i))
  | _ => none

/-- The descriptor is closed, or its `open` is given up. -/
def close (d : δ) (f : Fifos ν δ) : Fifos ν δ := f.set d .closed

variable {n : ν} {d c : δ} {mode : Mode} {inode : Nat} {state : Desc} {f f' : Fifos ν δ}

/-- What a descriptor does changes no name. -/
@[simp] theorem dir_set : (f.set d state).dir = f.dir := rfl

@[simp] theorem made_set : (f.set d state).made = f.made := rfl

@[simp] theorem desc_set_self : (f.set d state).desc d = state := by
  simp [set]

/-- The other descriptors are as before. -/
theorem desc_set_of_ne (h : c ≠ d) : (f.set d state).desc c = f.desc c := by
  simp [set, h]

/-- Opening a descriptor changes no name. -/
@[simp] theorem dir_arrive : (f.arrive d mode inode state).dir = f.dir := rfl

@[simp] theorem made_arrive : (f.arrive d mode inode state).made = f.made := rfl

@[simp] theorem desc_arrive_self : (f.arrive d mode inode state).desc d = state := by
  simp [arrive]

/-- Whoever waits for the other end of this inode has met somebody. -/
theorem desc_arrive_of_ne (h : c ≠ d) :
    (f.arrive d mode inode state).desc c = (f.desc c).meet mode inode := by
  simp [arrive, desc_set_of_ne h]

@[simp] theorem dir_close : (f.close d).dir = f.dir := rfl

@[simp] theorem made_close : (f.close d).made = f.made := rfl

@[simp] theorem desc_close_self : (f.close d).desc d = .closed := by
  simp [close]

/-- Closing one descriptor leaves the others. -/
theorem desc_close_of_ne (h : c ≠ d) : (f.close d).desc c = f.desc c := by
  simp [close, desc_set_of_ne h]

/-- A non-blocking `open` needs the name and, for writing, a reader. -/
theorem openNonblock_eq_ok [Fintype δ] :
    f.openNonblock d mode n = .ok f' ↔ ∃ i, f.dir n = some i ∧
      (mode = .write → f.Present .read i) ∧ f' = f.arrive d mode i (.opened mode i) := by
  unfold openNonblock
  cases hdir : f.dir n with
  | none => simp
  | some i =>
    by_cases hp : mode = .write ∧ ¬f.Present .read i
    · simp [hp]
    · have hw : mode = .write → f.Present .read i := fun hm =>
        by_contra fun hn => hp ⟨hm, hn⟩
      simp only [if_neg hp, Except.ok.injEq, Option.some.injEq, exists_eq_left']
      exact ⟨fun h => ⟨hw, h.symm⟩, fun h => h.2.symm⟩

/-- A blocking `open` needs the name only, and waits unless somebody is there. -/
theorem openBlocking_eq_some [Fintype δ] :
    f.openBlocking d mode n = some f' ↔ ∃ i, f.dir n = some i ∧
      f' = f.arrive d mode i (.waiting mode i (decide (f.Present mode.other i))) := by
  unfold openBlocking
  rw [Option.map_eq_some_iff]
  simp only [eq_comm (b := f')]

/-- It returns when it has met somebody. -/
theorem finishOpen_eq_some :
    f.finishOpen d = some f' ↔ ∃ mode i, f.desc d = .waiting mode i true ∧
      f' = f.set d (.opened mode i) := by
  unfold finishOpen
  split
  · -- the descriptor waits and has met its peer
    rename_i mode i h
    rw [h]
    constructor
    · intro heq
      exact ⟨mode, i, rfl, (Option.some.inj heq).symm⟩
    · rintro ⟨m, j, heq, rfl⟩
      cases heq
      rfl
  · rename_i hne
    constructor
    · intro h
      cases h
    · rintro ⟨m, j, heq, -⟩
      exact absurd heq (hne m j)

end Descriptors

/-! ## What holds of any FIFOs -/

/-- Inodes are handed out in order, no two names lead to one inode, and an open that waits has
met nobody only as long as there is nobody at the other end. -/
structure WellFormed (f : Fifos ν δ) : Prop where
  named : ∀ n i, f.dir n = some i → i < f.made
  single : ∀ n m i, f.dir n = some i → f.dir m = some i → n = m
  placed : ∀ d mode i, (f.desc d).place? = some (mode, i) → i < f.made
  unmet : ∀ d mode i, f.desc d = .waiting mode i false → ¬f.Present mode.other i

/-- FIFOs that nobody has open. -/
theorem wellFormed_of_closed {f : Fifos ν δ} (hnamed : ∀ n i, f.dir n = some i → i < f.made)
    (hsingle : ∀ n m i, f.dir n = some i → f.dir m = some i → n = m)
    (hclosed : ∀ d, f.desc d = .closed) : f.WellFormed where
  named := hnamed
  single := hsingle
  placed := fun d mode i h => by simp [hclosed d, Desc.place?] at h
  unmet := fun d mode i h => by simp [hclosed d] at h

namespace WellFormed

variable {n : ν} {f f' : Fifos ν δ}

protected theorem unlink [DecidableEq ν] (h : f.WellFormed) (n : ν) : (f.unlink n).WellFormed where
  named := fun m i hm => h.named m i (dir_unlink_eq_some.mp hm).2
  single := fun m m' i hm hm' =>
    h.single m m' i (dir_unlink_eq_some.mp hm).2 (dir_unlink_eq_some.mp hm').2
  placed := h.placed
  unmet := h.unmet

/-- The new inode has no end yet, and no other name. -/
protected theorem mkfifo [DecidableEq ν] (h : f.WellFormed) (hn : f.mkfifo n = some f') :
    f'.WellFormed := by
  rcases mkfifo_eq_some.mp hn with ⟨-, rfl⟩
  refine ⟨fun m i hm => ?_, fun m m' i hm hm' => ?_,
    fun d mode i hd => Nat.lt_succ_of_lt (h.placed d mode i hd), h.unmet⟩
  · rcases dir_link_eq_some.mp hm with ⟨-, rfl⟩ | ⟨-, hold⟩
    · exact Nat.lt_succ_self _
    · exact Nat.lt_succ_of_lt (h.named m i hold)
  · rcases dir_link_eq_some.mp hm with ⟨rfl, rfl⟩ | ⟨-, hold⟩ <;>
      rcases dir_link_eq_some.mp hm' with ⟨rfl, hi⟩ | ⟨-, hold'⟩
    · rfl
    · exact absurd (h.named m' _ hold') (Nat.lt_irrefl _)
    · exact absurd (h.named m _ hold) (hi ▸ Nat.lt_irrefl _)
    · exact h.single m m' i hold hold'

variable [DecidableEq δ] {d : δ} {mode : Mode} {i : Nat}

/-- Leaving an end makes nobody present. -/
protected theorem close (h : f.WellFormed) (d : δ) : (f.close d).WellFormed := by
  -- closing opens nothing, so what is open was so before
  have hdesc : ∀ c, (f.close d).desc c ≠ .closed → (f.close d).desc c = f.desc c := by
    intro c hc
    by_cases hcd : c = d
    · subst hcd
      simp at hc
    · exact desc_close_of_ne hcd
  have hplace : ∀ c p, ((f.close d).desc c).place? = some p → (f.desc c).place? = some p := by
    intro c p hp
    rw [← hdesc c fun hc => by simp [hc, Desc.place?] at hp]
    exact hp
  refine ⟨h.named, h.single, fun c m j hc => h.placed c m j (hplace c _ hc), fun c m j hc hp => ?_⟩
  rcases hp with ⟨e, he⟩
  refine h.unmet c m j ?_ ⟨e, hplace e _ he⟩
  rw [← hdesc c fun hn => by simp [hn] at hc]
  exact hc

/-- Who comes to an end is seen by those who wait at the other one. -/
protected theorem arrive (h : f.WellFormed) {state : Desc} (hi : i < f.made)
    (hplace : state.place? = some (mode, i))
    (hmet : ∀ m j, state = .waiting m j false → ¬f.Present m.other j) :
    (f.arrive d mode i state).WellFormed := by
  -- after the arrival a place is that of the newcomer or an old one
  have hplaces : ∀ c p, ((f.arrive d mode i state).desc c).place? = some p →
      p = (mode, i) ∨ (f.desc c).place? = some p := by
    intro c p hp
    by_cases hcd : c = d
    · subst hcd
      rw [desc_arrive_self, hplace] at hp
      exact Or.inl (Option.some.inj hp).symm
    · rw [desc_arrive_of_ne hcd, Desc.place_meet] at hp
      exact Or.inr hp
  refine ⟨h.named, h.single, fun c m j hc => ?_, fun c m j hc hp => ?_⟩
  · rcases hplaces c _ hc with heq | hold
    · rw [(Prod.mk.inj heq).2]
      exact hi
    · exact h.placed c m j hold
  · rcases hp with ⟨e, he⟩
    have hhere := hplaces e _ he
    by_cases hcd : c = d
    · subst hcd
      rw [desc_arrive_self] at hc
      rcases hhere with heq | hold
      · -- nobody is at both ends of one open
        have hplace' := hplace
        rw [hc, Desc.place?, Option.some.injEq, ← heq] at hplace'
        cases m <;> simp [Mode.other] at hplace'
      · exact hmet m j hc ⟨e, hold⟩
    · rw [desc_arrive_of_ne hcd] at hc
      rcases hdesc : f.desc c with _ | ⟨m', j', met⟩ | ⟨m', j'⟩
      · simp [hdesc] at hc
      · simp only [hdesc, Desc.meet, Desc.waiting.injEq, Bool.or_eq_false_iff,
          decide_eq_false_iff_not] at hc
        rcases hc with ⟨rfl, rfl, rfl, hne⟩
        rcases hhere with heq | hold
        · exact hne (Prod.mk.inj heq)
        · exact h.unmet c m' j' hdesc ⟨e, hold⟩
      · simp [hdesc] at hc

/-- The three ways to open, and closing, keep what is well formed. -/
protected theorem openNonblock [Fintype δ] (h : f.WellFormed)
    (hn : f.openNonblock d mode n = .ok f') : f'.WellFormed := by
  rcases openNonblock_eq_ok.mp hn with ⟨i, hdir, -, rfl⟩
  exact h.arrive (h.named n i hdir) rfl fun m j hs => by cases hs

protected theorem openBlocking [Fintype δ] (h : f.WellFormed)
    (hn : f.openBlocking d mode n = some f') : f'.WellFormed := by
  rcases openBlocking_eq_some.mp hn with ⟨i, hdir, rfl⟩
  refine h.arrive (h.named n i hdir) rfl fun m j hs => ?_
  simp only [Desc.waiting.injEq, decide_eq_false_iff_not] at hs
  rcases hs with ⟨rfl, rfl, hp⟩
  exact hp

protected theorem finishOpen (h : f.WellFormed) (hn : f.finishOpen d = some f') :
    f'.WellFormed := by
  rcases finishOpen_eq_some.mp hn with ⟨mode, i, hd, rfl⟩
  -- the descriptor stays at the inode and the mode it waited with
  have hplace : ∀ c, ((f.set d (.opened mode i)).desc c).place? = (f.desc c).place? := by
    intro c
    by_cases hcd : c = d
    · subst hcd
      rw [desc_set_self, hd]
      rfl
    · rw [desc_set_of_ne hcd]
  refine ⟨h.named, h.single, fun c m j hc => h.placed c m j ?_, fun c m j hc hp => ?_⟩
  · rw [← hplace c]
    exact hc
  · rcases hp with ⟨e, he⟩
    refine h.unmet c m j ?_ ⟨e, by rw [← hplace e]; exact he⟩
    by_cases hcd : c = d
    · subst hcd
      simp at hc
    · rwa [desc_set_of_ne hcd] at hc

end WellFormed

end Fifos

end NamedFifo
