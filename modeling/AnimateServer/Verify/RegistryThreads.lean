import AnimateServer.Lib.Transition
import AnimateServer.Model.RegistryCalls
import AnimateServer.Verify.Registry

/-!
# Clients live as long as they are referenced

The invariant ties the three things a record can say about itself to the callers:
`dead` to the removals that have started, `refcount` to the references held, and
being freed to both. It holds between any two sections of any number of threads.
-/

namespace AnimateServer.RegistryThreads

open CLib ClientRegistry Registry RegistryCalls Transition

/-- Threads calling the registry from `creg_init` on. -/
abbrev system : LTS RegistryCalls RegistryLbl := ofStep .init RegistryCalls.step

/-- The references to `c` that threads have not passed to `creg_release_client` yet. -/
def holders (held : List (Thread × ClientRef)) (c : ClientRef) : Nat :=
  (held.map Prod.snd).count c

/-- A thread between the marking and the release of `creg_remove(c)`. -/
def Removing (pc : RegistryPc) (c : ClientRef) : Prop := pc = .marked c ∨ pc = .unlinked c

/-- Thread `t` has a reference to `c`, from the successful `creg_acquire_client` to the
return of `creg_release_client`. -/
def Holds (s : RegistryCalls) (t : Thread) (c : ClientRef) : Prop :=
  (t, c) ∈ s.held ∨ s.pc t = .destroying c false

/-- The reference of the registry itself, until `creg_remove` gives it back. -/
def registryRef (dropped : List ClientRef) (c : ClientRef) : Nat :=
  if c ∈ dropped then 0 else 1

/-- The list holds a reference until it has been given back. -/
theorem registryRef_of_mem {dropped : List ClientRef} {c : ClientRef} (h : c ∈ dropped) :
    registryRef dropped c = 0 := if_pos h

theorem registryRef_of_notMem {dropped : List ClientRef} {c : ClientRef} (h : c ∉ dropped) :
    registryRef dropped c = 1 := if_neg h

theorem registryRef_eq_zero {dropped : List ClientRef} {c : ClientRef} :
    registryRef dropped c = 0 ↔ c ∈ dropped := by
  simp [registryRef]

/-- Nobody holds a reference. -/
theorem holders_eq_zero {held : List (Thread × ClientRef)} {c : ClientRef} :
    holders held c = 0 ↔ ∀ t, (t, c) ∉ held := by
  simp [holders, List.count_eq_zero]

/-- Somebody does. -/
theorem holders_pos {held : List (Thread × ClientRef)} {t : Thread} {c : ClientRef}
    (h : (t, c) ∈ held) : 0 < holders held c :=
  List.count_pos_iff.mpr (List.mem_map.mpr ⟨(t, c), h, rfl⟩)

/-- Taking a reference adds a holder of that client. -/
@[simp] theorem holders_cons_self (held : List (Thread × ClientRef)) (t : Thread)
    (c : ClientRef) : holders ((t, c) :: held) c = holders held c + 1 := by
  simp [holders]

/-- Taking a reference adds no holder of another client. -/
@[simp] theorem holders_cons_of_ne (held : List (Thread × ClientRef)) (t : Thread)
    {c d : ClientRef} (h : d ≠ c) : holders ((t, c) :: held) d = holders held d := by
  simp [holders, List.count_cons_of_ne (Ne.symm h)]

/-- Giving it back takes one away. -/
theorem holders_erase_self {held : List (Thread × ClientRef)} {t : Thread} {c : ClientRef}
    (h : (t, c) ∈ held) : holders held c = holders (held.erase (t, c)) c + 1 := by
  rw [← holders_cons_self _ t]
  exact ((List.perm_cons_erase h).map Prod.snd).count_eq c

theorem holders_erase_of_ne {held : List (Thread × ClientRef)} {t : Thread}
    {c d : ClientRef} (h : (t, c) ∈ held) (hd : d ≠ c) :
    holders (held.erase (t, c)) d = holders held d := by
  rw [← holders_cons_of_ne _ t hd]
  exact ((List.perm_cons_erase h).map Prod.snd).symm.count_eq d

/-- What holds between two sections. -/
structure Inv (s : RegistryCalls) : Prop where
  dead : ∀ c < s.reg.brk, (s.reg.mem c).dead = true ↔ c ∈ s.marked
  refcount : ∀ c < s.reg.brk,
    (s.reg.mem c).refcount = registryRef s.dropped c + holders s.held c
  marked_old : ∀ c ∈ s.marked, c < s.reg.brk
  held_old : ∀ p ∈ s.held, p.2 < s.reg.brk
  dropped_marked : ∀ c ∈ s.dropped, c ∈ s.marked
  removed_dropped : ∀ c ∈ s.removed, c ∈ s.dropped
  removing : ∀ t c, Removing (s.pc t) c → c ∈ s.marked ∧ c ∉ s.dropped
  one_remover : ∀ t t' c, Removing (s.pc t) c → Removing (s.pc t') c → t = t'
  gone : ∀ c ∈ s.reg.freed, c ∈ s.dropped ∧ holders s.held c = 0
  going : ∀ t c b, s.pc t = .destroying c b →
    c ∈ s.dropped ∧ holders s.held c = 0 ∧ c ∉ s.reg.freed
  one_destroyer : ∀ t t' c b b',
    s.pc t = .destroying c b → s.pc t' = .destroying c b' → t = t'
  last : ∀ c ∈ s.dropped, holders s.held c = 0 →
    c ∈ s.reg.freed ∨ ∃ t b, s.pc t = .destroying c b
  unreturned : ∀ t c, s.pc t = .destroying c true → c ∉ s.removed
  once : s.reg.freed.Nodup
  same : s.reg.destroyed = s.reg.freed

/-- The empty registry. -/
theorem inv_init : Inv .init := by
  constructor <;> simp [RegistryCalls.init, ClientRegistry.init, Removing]

/-! ## The sections keep the invariant -/

/-- A thread that neither was in a release with `destroy` set nor gets there. -/
theorem destroying_update {pc : Thread → RegistryPc} {t : Thread} {p : RegistryPc}
    (hold : ∀ c b, pc t ≠ .destroying c b) (hnew : ∀ c b, p ≠ .destroying c b)
    (t' : Thread) (c : ClientRef) (b : Bool) :
    Function.update pc t p t' = .destroying c b ↔ pc t' = .destroying c b := by
  by_cases ht : t' = t
  · subst ht
    simp [hold, hnew]
  · simp [ht]

section Steps

variable {s : RegistryCalls}

/-- The invariant only sees records, bounds and frees. -/
theorem Inv.sameButLinks (h : Inv s) {r : ClientRegistry} (hr : SameButLinks s.reg r) :
    Inv { s with reg := r } where
  dead := fun c hc => (hr.dead c) ▸ h.dead c (hr.brk ▸ hc)
  refcount := fun c hc => (hr.refcount c) ▸ h.refcount c (hr.brk ▸ hc)
  marked_old := fun c hc => hr.brk ▸ h.marked_old c hc
  held_old := fun p hp => hr.brk ▸ h.held_old p hp
  dropped_marked := h.dropped_marked
  removed_dropped := h.removed_dropped
  removing := h.removing
  one_remover := h.one_remover
  gone := fun c hc => h.gone c (hr.freed ▸ hc)
  going := fun t c b hpc => by
    -- links are no part of the invariant; the fields that are have not changed
    rcases h.going t c b hpc with ⟨hd, hz, hf⟩
    exact ⟨hd, hz, fun hm => hf (hr.freed ▸ hm)⟩
  one_destroyer := h.one_destroyer
  last := fun c hc hz => (h.last c hc hz).imp_left fun hm => hr.freed ▸ hm
  unreturned := h.unreturned
  once := hr.freed ▸ h.once
  same := (hr.destroyed.trans h.same).trans hr.freed.symm

/-- A new record has the reference of the registry. -/
theorem Inv.insert (h : Inv s) (alloc : Bool) (pid c2s s2c : Int) :
    Inv { s with reg := (s.reg.cregInsert alloc pid c2s s2c).2 } := by
  cases alloc with
  | false => exact h
  | true =>
    -- the record at brk is new, so nobody marked, dropped or holds it
    have hnew : s.reg.brk ∉ s.marked := fun hm => Nat.lt_irrefl _ (h.marked_old _ hm)
    have hnew' : s.reg.brk ∉ s.dropped := fun hm => hnew (h.dropped_marked _ hm)
    have hfree : holders s.held s.reg.brk = 0 :=
      holders_eq_zero.mpr fun t ht => Nat.lt_irrefl _ (h.held_old _ ht)
    have hpushed : Inv { s with reg := pushed pid c2s s2c s.reg } := by
      refine { h with dead := ?_, refcount := ?_, marked_old := ?_, held_old := ?_ }
      · intro c hc
        rcases Nat.lt_succ_iff_lt_or_eq.mp hc with hc | rfl
        · simpa [pushed, Nat.ne_of_lt hc] using h.dead c hc
        · simpa [pushed, inserted] using hnew
      · intro c hc
        rcases Nat.lt_succ_iff_lt_or_eq.mp hc with hc | rfl
        · simpa [pushed, Nat.ne_of_lt hc] using h.refcount c hc
        · simp [pushed, inserted, hfree, registryRef_of_notMem hnew']
      · exact fun c hc => Nat.lt_succ_of_lt (h.marked_old c hc)
      · exact fun p hp => Nat.lt_succ_of_lt (h.held_old p hp)
    exact hpushed.sameButLinks (sameButLinks_cregInsert pid c2s s2c s.reg)

/-- A successful acquire adds a holder. -/
theorem Inv.acquire (h : Inv s) (t : Thread) {c : ClientRef} (hc : c < s.reg.brk)
    (hlive : c ∉ s.marked) :
    Inv { s with
      reg := s.reg.modify c fun a => { a with refcount := a.refcount + 1 },
      held := (t, c) :: s.held } := by
  have hd : c ∉ s.dropped := fun hm => hlive (h.dropped_marked c hm)
  -- who is acquired is still in the list, so nothing changes for those that have been dropped
  have hne : ∀ d ∈ s.dropped, d ≠ c := fun d hm hdc => hd (hdc ▸ hm)
  have hholders : ∀ d, d ≠ c → holders ((t, c) :: s.held) d = holders s.held d :=
    fun d hdc => holders_cons_of_ne s.held t hdc
  refine { h with
    dead := ?_, refcount := ?_, marked_old := ?_, held_old := ?_, gone := ?_, going := ?_,
    last := ?_, once := ?_, same := ?_ }
  · -- the new reference marks nobody dead
    intro d hdb
    by_cases hdc : d = c
    · subst hdc
      simpa using h.dead d hc
    · simpa [hdc] using h.dead d (by simpa using hdb)
  · -- one more holder and one more reference
    intro d hdb
    by_cases hdc : d = c
    · subst hdc
      have href := h.refcount d hc
      simp only [mem_modify, Function.update_self, holders_cons_self]
      omega
    · simpa [hdc] using h.refcount d (by simpa using hdb)
  · simpa using h.marked_old
  · intro p hp
    rcases List.mem_cons.mp hp with rfl | hp
    · simpa using hc
    · simpa using h.held_old p hp
  · -- a freed client is not the one acquired
    intro d hdf
    rcases h.gone d (by simpa using hdf) with ⟨hdd, hz⟩
    exact ⟨hdd, (hholders d (hne d hdd)).trans hz⟩
  · -- nor is one that is being destroyed
    intro t' d b hpc
    rcases h.going t' d b hpc with ⟨hdd, hz, hf⟩
    exact ⟨hdd, (hholders d (hne d hdd)).trans hz, by simpa using hf⟩
  · intro d hdd hz
    simpa using h.last d hdd ((hholders d (hne d hdd)).symm.trans hz)
  · simpa using h.once
  · simpa using h.same

/-- Marking a client starts its only removal. -/
theorem Inv.markdead (h : Inv s) {t : Thread} {c : ClientRef} (hidle : s.pc t = .idle)
    (hc : c < s.reg.brk) (hnew : c ∉ s.marked) :
    Inv ({ s with reg := s.reg.markdeadSection c, marked := c :: s.marked }.goto t
      (.marked c)) := by
  have hd : c ∉ s.dropped := fun hm => hnew (h.dropped_marked c hm)
  have hdes : ∀ t' d b, Function.update s.pc t (.marked c) t' = .destroying d b ↔
      s.pc t' = .destroying d b :=
    destroying_update (by simp [hidle]) (by simp)
  -- the thread that marks becomes the remover of `c`, which had none
  have hrem : ∀ t' d, Removing (Function.update s.pc t (.marked c) t') d →
      t' = t ∧ d = c ∨ d ≠ c ∧ Removing (s.pc t') d := by
    intro t' d hr
    by_cases ht : t' = t
    · subst ht
      simp [Removing] at hr
      exact Or.inl ⟨rfl, hr.symm⟩
    · rw [Function.update_of_ne ht] at hr
      exact Or.inr ⟨fun hdc => hnew (hdc ▸ (h.removing t' d hr).1), hr⟩
  refine { h with
    dead := ?_, refcount := ?_, marked_old := ?_, held_old := ?_, dropped_marked := ?_,
    removing := ?_, one_remover := ?_, gone := ?_, going := ?_, one_destroyer := ?_,
    last := ?_, unreturned := ?_, once := ?_, same := ?_ }
  · intro d hdb
    by_cases hdc : d = c
    · subst hdc
      simp
    · simpa [hdc] using h.dead d (by simpa using hdb)
  · intro d hdb
    by_cases hdc : d = c
    · subst hdc
      simpa using h.refcount d hc
    · simpa [hdc] using h.refcount d (by simpa using hdb)
  · simpa using ⟨hc, h.marked_old⟩
  · simpa using h.held_old
  · exact fun d hm => List.mem_cons_of_mem _ (h.dropped_marked d hm)
  · intro t' d hr
    rcases hrem t' d hr with ⟨rfl, rfl⟩ | ⟨-, hr⟩
    · exact ⟨List.mem_cons_self, hd⟩
    · exact (h.removing t' d hr).imp_left (List.mem_cons_of_mem _)
  · -- two removers of `d` would be two of before, or both the new one
    intro t₁ t₂ d h₁ h₂
    rcases hrem t₁ d h₁ with ⟨rfl, rfl⟩ | ⟨hne, h₁⟩
    · rcases hrem t₂ d h₂ with ⟨rfl, -⟩ | ⟨hne, -⟩
      · rfl
      · exact absurd rfl hne
    · rcases hrem t₂ d h₂ with ⟨-, hdc⟩ | ⟨-, h₂⟩
      · exact absurd hdc hne
      · exact h.one_remover t₁ t₂ d h₁ h₂
  · simpa using h.gone
  · simpa [hdes] using h.going
  · simpa only [pc_goto, hdes] using h.one_destroyer
  · simpa [hdes] using h.last
  · simpa [hdes] using h.unreturned
  · simpa using h.once
  · simpa using h.same
/-- `creg_unlink` moves its thread on. -/
theorem Inv.unlink (h : Inv s) {t : Thread} {c : ClientRef} (hpc : s.pc t = .marked c) :
    Inv ({ s with reg := s.reg.cregUnlink c }.goto t (.unlinked c)) := by
  have h' := h.sameButLinks (sameButLinks_cregUnlink c s.reg)
  have hdes : ∀ t' d b, Function.update s.pc t (.unlinked c) t' = .destroying d b ↔
      s.pc t' = .destroying d b :=
    destroying_update (by simp [hpc]) (by simp)
  -- the thread goes on removing the same client
  have hrem : ∀ t' d, Removing (Function.update s.pc t (.unlinked c) t') d ↔
      Removing (s.pc t') d := by
    intro t' d
    by_cases ht : t' = t
    · subst ht
      simp [Removing, hpc]
    · simp [ht]
  refine { h' with
    removing := ?_, one_remover := ?_, going := ?_, one_destroyer := ?_, last := ?_,
    unreturned := ?_ }
  · exact fun t' d hr => h'.removing t' d ((hrem t' d).mp hr)
  · exact fun t₁ t₂ d h₁ h₂ => h'.one_remover t₁ t₂ d ((hrem t₁ d).mp h₁) ((hrem t₂ d).mp h₂)
  · exact fun t' d b hd => h'.going t' d b ((hdes t' d b).mp hd)
  · exact fun t₁ t₂ d b₁ b₂ h₁ h₂ =>
      h'.one_destroyer t₁ t₂ d b₁ b₂ ((hdes t₁ d b₁).mp h₁) ((hdes t₂ d b₂).mp h₂)
  · exact fun d hd hz => (h'.last d hd hz).imp_right fun ⟨t', b, hp⟩ =>
      ⟨t', b, (hdes t' d b).mpr hp⟩
  · exact fun t' d hd => h'.unreturned t' d ((hdes t' d true).mp hd)

/-- The state at the end of a release section differs from the one in it by where the
thread is and by the removals that have returned. -/
theorem afterRelease_eq (s : RegistryCalls) (t : Thread) (c : ClientRef)
    (removing destroy : Bool) :
    s.afterRelease t c removing destroy =
      { s with
        pc := Function.update s.pc t (if destroy then .destroying c removing else .idle)
        removed := if removing && !destroy then c :: s.removed else s.removed } := by
  cases removing <;> cases destroy <;> rfl

/-- Who is destroying after a release has been before, or is the thread that has released the last
reference. -/
theorem destroying_afterRelease {pc : Thread → RegistryPc} {t : Thread} {c : ClientRef}
    {removing destroy : Bool} (hold : ∀ d b, pc t ≠ .destroying d b) {t' : Thread}
    {d : ClientRef} {b : Bool}
    (h : Function.update pc t (if destroy then .destroying c removing else .idle) t' =
      .destroying d b) :
    destroy = true ∧ t' = t ∧ d = c ∧ b = removing ∨ t' ≠ t ∧ pc t' = .destroying d b := by
  -- only the thread that releases can have begun to destroy
  by_cases ht : t' = t
  · subst ht
    rw [Function.update_self] at h
    cases destroy with
    | false => cases h
    | true =>
      cases h
      exact Or.inl ⟨rfl, rfl, rfl, rfl⟩
  · rw [Function.update_of_ne ht] at h
    exact Or.inr ⟨ht, h⟩

/-- The thread that has released is in no removal any more. -/
theorem removing_afterRelease {pc : Thread → RegistryPc} {t : Thread} {c : ClientRef}
    {removing destroy : Bool} {t' : Thread} {d : ClientRef}
    (h : Removing (Function.update pc t (if destroy then .destroying c removing else .idle) t')
      d) : t' ≠ t ∧ Removing (pc t') d := by
  by_cases ht : t' = t
  · subst ht
    rw [Function.update_self] at h
    cases destroy <;> simp [Removing] at h
  · rw [Function.update_of_ne ht] at h
    exact ⟨ht, h⟩

/-- A release section of thread `t` on a client that is not freed, seen from the
references it leaves: `held` and `dropped` are those of the state afterwards. -/
structure Releases (s : RegistryCalls) (t : Thread) (c : ClientRef) (removing : Bool)
    (held : List (Thread × ClientRef)) (dropped : List ClientRef) : Prop where
  old : c < s.reg.brk
  live : c ∉ s.reg.freed
  quiet : ∀ t' b, s.pc t' ≠ .destroying c b
  ready : ∀ d b, s.pc t ≠ .destroying d b
  refcount : (s.reg.mem c).refcount = registryRef dropped c + holders held c + 1
  holders_other : ∀ d, d ≠ c → holders held d = holders s.held d
  held_sub : ∀ p ∈ held, p ∈ s.held
  dropped_other : ∀ d, d ≠ c → (d ∈ dropped ↔ d ∈ s.dropped)
  dropped_mono : c ∈ s.dropped → c ∈ dropped
  dropped_marked : c ∈ dropped → c ∈ s.marked
  removers : ∀ t', t' ≠ t → Removing (s.pc t') c → c ∉ dropped
  returns : removing = true → c ∈ dropped ∧ c ∉ s.removed

/-- The local `destroy` tells whether the client has been dropped and nobody holds it
any more. -/
theorem Releases.destroy_iff (h : Inv s) {t : Thread} {c : ClientRef} {removing : Bool}
    {held : List (Thread × ClientRef)} {dropped : List ClientRef}
    (hr : Releases s t c removing held dropped) :
    (s.reg.releaseSection c).1 = true ↔ c ∈ dropped ∧ holders held c = 0 := by
  rw [releaseSection_fst, hr.refcount]
  simp only [decr_succ, Bool.and_eq_true, beq_iff_eq, Nat.add_eq_zero_iff, registryRef_eq_zero,
    h.dead c hr.old]
  exact ⟨fun hd => hd.2, fun hd => ⟨hr.dropped_marked hd.1, hd⟩⟩

/-- The records and the references after the section, with the thread still in it. -/
theorem Inv.released_reg (h : Inv s) {t : Thread} {c : ClientRef} {removing : Bool}
    {held : List (Thread × ClientRef)} {dropped : List ClientRef}
    (hr : Releases s t c removing held dropped) :
    ∀ d < (s.reg.releaseSection c).2.brk,
      (((s.reg.releaseSection c).2.mem d).dead = true ↔ d ∈ s.marked) ∧
      ((s.reg.releaseSection c).2.mem d).refcount = registryRef dropped d + holders held d := by
  intro d hd
  rw [releaseSection_snd, brk_modify] at hd
  rw [releaseSection_snd]
  -- the counts of other clients are untouched
  by_cases hdc : d = c
  · subst hdc
    simpa [hr.refcount] using h.dead d hd
  · have href : registryRef dropped d = registryRef s.dropped d := by
      simp only [registryRef, hr.dropped_other d hdc]
    simp only [mem_modify, Function.update_of_ne hdc, href, hr.holders_other d hdc]
    exact ⟨h.dead d hd, h.refcount d hd⟩

/-- A release keeps the books, and who gives back the last reference destroys. -/
theorem Inv.released (h : Inv s) {t : Thread} {c : ClientRef} {removing : Bool}
    {held : List (Thread × ClientRef)} {dropped : List ClientRef}
    (hr : Releases s t c removing held dropped) :
    Inv ({ s with reg := (s.reg.releaseSection c).2, held, dropped }.afterRelease t c removing
      (s.reg.releaseSection c).1) := by
  have hreg := h.released_reg hr
  -- the section only adds to what is dropped
  have hdrop : ∀ d ∈ s.dropped, d ∈ dropped := by
    intro d hd
    by_cases hdc : d = c
    · exact hdc ▸ hr.dropped_mono (hdc ▸ hd)
    · exact (hr.dropped_other d hdc).mpr hd
  have hmark : ∀ d ∈ dropped, d ∈ s.marked := by
    intro d hd
    by_cases hdc : d = c
    · exact hdc ▸ hr.dropped_marked (hdc ▸ hd)
    · exact h.dropped_marked d ((hr.dropped_other d hdc).mp hd)
  have hgone : ∀ d ∈ s.reg.freed, d ∈ dropped ∧ holders held d = 0 := by
    intro d hd
    have hdc : d ≠ c := fun hdc => hr.live (hdc ▸ hd)
    exact ⟨hdrop d (h.gone d hd).1, (hr.holders_other d hdc).trans (h.gone d hd).2⟩
  have hzero := hr.destroy_iff h
  generalize (s.reg.releaseSection c).1 = destroy at hzero
  -- who destroys another client is another thread
  have hgoing : ∀ d ∈ dropped, holders held d = 0 → d ≠ c →
      d ∈ s.reg.freed ∨ ∃ t' b, t' ≠ t ∧ s.pc t' = .destroying d b := by
    intro d hd hz hdc
    rcases h.last d ((hr.dropped_other d hdc).mp hd)
      ((hr.holders_other d hdc).symm.trans hz) with hf | ⟨t', b, hp⟩
    · exact Or.inl hf
    · refine Or.inr ⟨t', b, fun ht => ?_, hp⟩
      exact hr.ready d b (ht ▸ hp)
  rw [afterRelease_eq]
  refine ⟨fun d hd => (hreg d hd).1, fun d hd => (hreg d hd).2, ?_, ?_, hmark, ?_, ?_, ?_, ?_, ?_,
    ?_, ?_, ?_, ?_, ?_⟩
  · simpa [releaseSection_snd] using h.marked_old
  · intro p hp
    simpa [releaseSection_snd] using h.held_old p (hr.held_sub p hp)
  · -- a removal that returns has dropped its client
    intro d hd
    by_cases hret : (removing && !destroy) = true
    · simp only [hret, if_true, List.mem_cons] at hd
      rcases hd with rfl | hd
      · exact (hr.returns (by simp_all)).1
      · exact hdrop d (h.removed_dropped d hd)
    · simp only [hret] at hd
      exact hdrop d (h.removed_dropped d hd)
  · -- a removal still going on has not dropped its client
    intro t' d hrem
    rcases removing_afterRelease hrem with ⟨ht, hrem⟩
    rcases h.removing t' d hrem with ⟨hm, hd⟩
    refine ⟨hm, fun hd' => ?_⟩
    by_cases hdc : d = c
    · subst hdc
      exact hr.removers t' ht hrem hd'
    · exact hd ((hr.dropped_other d hdc).mp hd')
  · intro t₁ t₂ d h₁ h₂
    exact h.one_remover t₁ t₂ d (removing_afterRelease h₁).2 (removing_afterRelease h₂).2
  · simpa [releaseSection_snd] using hgone
  · -- the client to destroy is dropped, held by nobody and not freed
    intro t' d b hp
    rcases destroying_afterRelease hr.ready hp with ⟨hdes, -, rfl, -⟩ | ⟨-, hp⟩
    · rcases hzero.mp hdes with ⟨hd, hz⟩
      exact ⟨hd, hz, by simpa [releaseSection_snd] using hr.live⟩
    · rcases h.going t' d b hp with ⟨hd, hz, hf⟩
      have hdc : d ≠ c := fun hdc => hr.quiet t' b (hdc ▸ hp)
      exact ⟨hdrop d hd, (hr.holders_other d hdc).trans hz,
        by simpa [releaseSection_snd] using hf⟩
  · -- no thread was destroying `c` before
    intro t₁ t₂ d b₁ b₂ h₁ h₂
    rcases destroying_afterRelease hr.ready h₁ with ⟨-, rfl, rfl, -⟩ | ⟨-, hp₁⟩
    · rcases destroying_afterRelease hr.ready h₂ with ⟨-, rfl, -, -⟩ | ⟨-, hp₂⟩
      · rfl
      · exact absurd hp₂ (hr.quiet t₂ b₂)
    · rcases destroying_afterRelease hr.ready h₂ with ⟨-, -, rfl, -⟩ | ⟨-, hp₂⟩
      · exact absurd hp₁ (hr.quiet t₁ b₁)
      · exact h.one_destroyer t₁ t₂ d b₁ b₂ hp₁ hp₂
  · -- the last reference of `c` goes with this section, which then destroys it
    intro d hd hz
    by_cases hdc : d = c
    · subst hdc
      have hdes := hzero.mpr ⟨hd, hz⟩
      exact Or.inr ⟨t, removing, by simp [hdes]⟩
    · rcases hgoing d hd hz hdc with hf | ⟨t', b, ht, hp⟩
      · exact Or.inl (by simpa [releaseSection_snd] using hf)
      · exact Or.inr ⟨t', b, by simpa [ht] using hp⟩
  · -- the removal returns only after the destruction
    intro t' d hp hd
    rcases destroying_afterRelease hr.ready hp with ⟨hdes, -, rfl, hrm⟩ | ⟨-, hp⟩
    · simp only [hdes, Bool.not_true, Bool.and_false, Bool.false_eq_true, if_false] at hd
      exact (hr.returns hrm.symm).2 hd
    · have hdc : d ≠ c := fun hdc => hr.quiet t' true (hdc ▸ hp)
      have hd' : d ∈ s.removed := by
        by_cases hret : (removing && !destroy) = true
        · simpa [hret, hdc] using hd
        · simpa [hret] using hd
      exact h.unreturned t' d hp hd'
  · simpa [releaseSection_snd] using h.once
  · simpa [releaseSection_snd] using h.same

/-- `destroy_client_pipes` and `free` run. -/
theorem Inv.destroy (h : Inv s) {t : Thread} {c : ClientRef} {removing : Bool}
    (hpc : s.pc t = .destroying c removing) :
    Inv ({ s with reg := s.reg.destroyClient c }.afterRelease t c removing false) := by
  rcases h.going t c removing hpc with ⟨hdrop, hzero, hlive⟩
  -- nobody else destroys `c`
  have hother : ∀ {t' : Thread} {d : ClientRef} {b : Bool},
      Function.update s.pc t .idle t' = .destroying d b → d ≠ c ∧ s.pc t' = .destroying d b := by
    intro t' d b hp
    by_cases ht : t' = t
    · subst ht
      simp at hp
    · rw [Function.update_of_ne ht] at hp
      exact ⟨fun hdc => ht (h.one_destroyer t' t c b removing (hdc ▸ hp) hpc), hp⟩
  have hrem : ∀ {t' : Thread} {d : ClientRef},
      Removing (Function.update s.pc t .idle t') d → Removing (s.pc t') d := by
    intro t' d hr
    by_cases ht : t' = t
    · subst ht
      simp [Removing] at hr
    · rwa [Function.update_of_ne ht] at hr
  rw [afterRelease_eq]
  refine { h with
    dead := ?_, refcount := ?_, marked_old := ?_, held_old := ?_, removed_dropped := ?_,
    removing := ?_, one_remover := ?_, gone := ?_, going := ?_, one_destroyer := ?_,
    last := ?_, unreturned := ?_, once := ?_, same := ?_ }
  · simpa using h.dead
  · simpa using h.refcount
  · simpa using h.marked_old
  · simpa using h.held_old
  · -- if it was a removal, it returns now
    intro d hd
    cases removing with
    | false => exact h.removed_dropped d hd
    | true =>
      rcases List.mem_cons.mp hd with rfl | hd
      · exact hdrop
      · exact h.removed_dropped d hd
  · exact fun t' d hr => h.removing t' d (hrem hr)
  · exact fun t₁ t₂ d h₁ h₂ => h.one_remover t₁ t₂ d (hrem h₁) (hrem h₂)
  · -- `c` is freed now
    intro d hd
    rw [freed_destroyClient] at hd
    rcases List.mem_cons.mp hd with rfl | hd
    · exact ⟨hdrop, hzero⟩
    · exact h.gone d hd
  · intro t' d b hp
    rcases hother hp with ⟨hdc, hp⟩
    rcases h.going t' d b hp with ⟨hd, hz, hf⟩
    exact ⟨hd, hz, by simp [hdc, hf]⟩
  · exact fun t₁ t₂ d b₁ b₂ h₁ h₂ =>
      h.one_destroyer t₁ t₂ d b₁ b₂ (hother h₁).2 (hother h₂).2
  · -- the other clients keep their destroyer
    intro d hd hz
    by_cases hdc : d = c
    · exact Or.inl (by simp [hdc])
    · rcases h.last d hd hz with hf | ⟨t', b, hp⟩
      · exact Or.inl (by simp [hf])
      · refine Or.inr ⟨t', b, ?_⟩
        have ht : t' ≠ t := by
          intro ht
          rw [ht, hpc] at hp
          exact hdc (RegistryPc.destroying.inj hp).1.symm
        simpa [ht] using hp
  · intro t' d hp hd
    rcases hother hp with ⟨hdc, hp⟩
    have hd' : d ∈ s.removed := by
      cases removing with
      | false => exact hd
      | true => exact (List.mem_cons.mp hd).resolve_left hdc
    exact h.unreturned t' d hp hd'
  · rw [freed_destroyClient]
    exact List.nodup_cons.mpr ⟨hlive, h.once⟩
  · simp [h.same]

/-- A thread gives a reference back. -/
theorem Inv.releases (h : Inv s) {t : Thread} {c : ClientRef} (hidle : s.pc t = .idle)
    (hheld : (t, c) ∈ s.held) :
    Releases s t c false (s.held.erase (t, c)) s.dropped where
  old := h.held_old _ hheld
  live := fun hf => Nat.ne_of_gt (holders_pos hheld) (h.gone c hf).2
  quiet := fun t' b hp => Nat.ne_of_gt (holders_pos hheld) (h.going t' c b hp).2.1
  ready := by simp [hidle]
  -- one reference less is held, and the count falls by one
  refcount := by
    rw [h.refcount c (h.held_old _ hheld), holders_erase_self hheld, Nat.add_assoc]
  holders_other := fun d hd => holders_erase_of_ne hheld hd
  held_sub := fun p hp => List.mem_of_mem_erase hp
  dropped_other := fun _ _ => Iff.rfl
  dropped_mono := id
  dropped_marked := h.dropped_marked c
  removers := fun t' _ hr => (h.removing t' c hr).2
  returns := fun hf => absurd hf (by simp)

/-- `creg_remove` gives the reference of the registry back. -/
theorem Inv.drops (h : Inv s) {t : Thread} {c : ClientRef} (hpc : s.pc t = .unlinked c) :
    Releases s t c true s.held (c :: s.dropped) := by
  have hr : Removing (s.pc t) c := Or.inr hpc
  rcases h.removing t c hr with ⟨hm, hd⟩
  refine ⟨h.marked_old c hm, fun hf => hd (h.gone c hf).1, fun t' b hp => hd (h.going t' c b hp).1,
    by simp [hpc], ?_, fun _ _ => rfl, fun _ hp => hp, fun d hdc => by simp [hdc],
    fun _ => List.mem_cons_self, fun _ => hm, ?_, fun _ => ⟨List.mem_cons_self, ?_⟩⟩
  · rw [h.refcount c (h.marked_old c hm), registryRef_of_notMem hd,
      registryRef_of_mem List.mem_cons_self]
    omega
  · exact fun t' ht hr' => absurd (h.one_remover t' t c hr' hr) ht
  · exact fun hrm => hd (h.removed_dropped c hrm)

end Steps

/-! ## Runs -/

/-- Where the thread goes on changes no record. -/
theorem reg_afterRelease (s : RegistryCalls) (t : Thread) (c : ClientRef)
    (removing destroy : Bool) : (s.afterRelease t c removing destroy).reg = s.reg := by
  rw [afterRelease_eq]

/-- What a step does, with the condition it runs under. -/
inductive Moves (s : RegistryCalls) : RegistryLbl → RegistryCalls → Prop where
  | insert {t : Thread} {alloc : Bool} {pid c2s s2c : Int} (idle : s.pc t = .idle) :
      Moves s (.insert t alloc pid c2s s2c)
        { s with reg := (s.reg.cregInsert alloc pid c2s s2c).2 }
  | acquire {t : Thread} {c : ClientRef} (idle : s.pc t = .idle) (old : c < s.reg.brk)
      (live : (s.reg.mem c).dead = false) :
      Moves s (.acquire t c) { s with
        reg := s.reg.modify c fun a => { a with refcount := a.refcount + 1 },
        held := (t, c) :: s.held }
  | refuse {t : Thread} {c : ClientRef} (idle : s.pc t = .idle) (old : c < s.reg.brk)
      (dead : (s.reg.mem c).dead = true) :
      Moves s (.acquire t c) { s with reg := s.reg.touch c }
  | release {t : Thread} {c : ClientRef} (idle : s.pc t = .idle) (holds : (t, c) ∈ s.held) :
      Moves s (.release t c)
        ({ s with reg := (s.reg.releaseSection c).2, held := s.held.erase (t, c) }.afterRelease
          t c false (s.reg.releaseSection c).1)
  | markdead {t : Thread} {c : ClientRef} (idle : s.pc t = .idle) (old : c < s.reg.brk)
      (fresh : c ∉ s.marked) :
      Moves s (.markdead t c)
        ({ s with reg := s.reg.markdeadSection c, marked := c :: s.marked }.goto t (.marked c))
  | unlink {t : Thread} {c : ClientRef} (pc : s.pc t = .marked c) :
      Moves s (.unlink t) ({ s with reg := s.reg.cregUnlink c }.goto t (.unlinked c))
  | drop {t : Thread} {c : ClientRef} (pc : s.pc t = .unlinked c) :
      Moves s (.drop t)
        ({ s with reg := (s.reg.releaseSection c).2, dropped := c :: s.dropped }.afterRelease
          t c true (s.reg.releaseSection c).1)
  | destroy {t : Thread} {c : ClientRef} {removing : Bool}
      (pc : s.pc t = .destroying c removing) :
      Moves s (.destroy t) ({ s with reg := s.reg.destroyClient c }.afterRelease
        t c removing false)

theorem step_moves {lbl : RegistryLbl} {s s' : RegistryCalls} (hs : s.step lbl = some s') :
    Moves s lbl s' := by
  -- a thread that is idle calls, and one that is not goes on with its call
  cases lbl with
  | insert t alloc pid c2s s2c =>
    rcases Option.ite_none_right_eq_some.mp hs with ⟨hidle, heq⟩
    obtain rfl := Option.some.inj heq
    exact .insert hidle
  | acquire t c =>
    rcases Option.ite_none_right_eq_some.mp hs with ⟨⟨hidle, hc, -⟩, heq⟩
    cases hd : (s.reg.mem c).dead with
    | false =>
      rw [cregAcquireClient_live hd] at heq
      obtain rfl := Option.some.inj heq
      exact .acquire hidle hc hd
    | true =>
      rw [cregAcquireClient_dead hd] at heq
      obtain rfl := Option.some.inj heq
      exact .refuse hidle hc hd
  | release t c =>
    rcases Option.ite_none_right_eq_some.mp hs with ⟨⟨hidle, hheld⟩, heq⟩
    obtain rfl := Option.some.inj heq
    exact .release hidle hheld
  | markdead t c =>
    rcases Option.ite_none_right_eq_some.mp hs with ⟨⟨hidle, hc, hnew⟩, heq⟩
    obtain rfl := Option.some.inj heq
    exact .markdead hidle hc hnew
  | unlink t =>
    simp only [RegistryCalls.step] at hs
    split at hs
    · rename_i c hpc
      obtain rfl := Option.some.inj hs
      exact .unlink hpc
    · contradiction
  | drop t =>
    simp only [RegistryCalls.step] at hs
    split at hs
    · rename_i c hpc
      obtain rfl := Option.some.inj hs
      exact .drop hpc
    · contradiction
  | destroy t =>
    simp only [RegistryCalls.step] at hs
    split at hs
    · rename_i c removing hpc
      obtain rfl := Option.some.inj hs
      exact .destroy hpc
    · contradiction

/-- Every critical section keeps the invariant. -/
theorem step_inv {lbl : RegistryLbl} {s s' : RegistryCalls} (hs : s.step lbl = some s')
    (h : Inv s) : Inv s' := by
  cases step_moves hs with
  | insert => exact h.insert _ _ _ _
  | acquire _ hc hlive =>
    refine h.acquire _ hc fun hm => ?_
    rw [(h.dead _ hc).mpr hm] at hlive
    cases hlive
  | refuse => exact h.sameButLinks (sameButLinks_touch s.reg _)
  | release hidle hheld => exact h.released (h.releases hidle hheld)
  | markdead hidle hc hnew => exact h.markdead hidle hc hnew
  | unlink hpc => exact h.unlink hpc
  | drop hpc => exact h.released (h.drops hpc)
  | destroy hpc => exact h.destroy hpc

/-- The invariant holds however the calls interleave. -/
theorem reachable_inv {s : RegistryCalls} (h : system.Reachable s) : Inv s := by
  refine h.invariant (fun s hs => ?_) (fun lbl s s' hn hinv => step_inv hn hinv)
  subst hs
  exact inv_init

/-- A step frees nothing, or it is the end of a release with `destroy` set. -/
theorem step_freed {lbl : RegistryLbl} {s s' : RegistryCalls} (hs : s.step lbl = some s') :
    (s'.reg.destroyed = s.reg.destroyed ∧ s'.reg.freed = s.reg.freed) ∨
      ∃ t c b, s.pc t = .destroying c b ∧ s'.reg.destroyed = c :: s.reg.destroyed ∧
        s'.reg.freed = c :: s.reg.freed := by
  -- free is the last step of the thread that destroys
  cases step_moves hs with
  | @insert t alloc pid c2s s2c =>
    cases alloc with
    | false => exact Or.inl ⟨rfl, rfl⟩
    | true =>
      have hr := sameButLinks_cregInsert pid c2s s2c s.reg
      exact Or.inl ⟨hr.destroyed, hr.freed⟩
  | acquire => exact Or.inl (by simp)
  | refuse => exact Or.inl (by simp)
  | release => exact Or.inl (by simp [reg_afterRelease, releaseSection_snd])
  | markdead => exact Or.inl (by simp)
  | @unlink t c =>
    have hr := sameButLinks_cregUnlink c s.reg
    exact Or.inl ⟨hr.destroyed, hr.freed⟩
  | drop => exact Or.inl (by simp [reg_afterRelease, releaseSection_snd])
  | @destroy t c removing hpc =>
    exact Or.inr ⟨t, c, removing, hpc, by simp [reg_afterRelease]⟩

/-- For every client and in every state threads can reach: an acquire succeeds exactly
when no removal has marked the client; the pipes are destroyed and the record freed at
most once, never while a thread holds a reference and never before `creg_remove` has
released its own; and once `creg_remove` has returned and nobody holds a reference both
have happened. -/
theorem client_lifecycle {s : RegistryCalls} (h : system.Reachable s) {c : ClientRef}
    (hc : c < s.reg.brk) :
    ((s.reg.cregAcquireClient c).1 = .SUCCESS ↔ c ∉ s.marked) ∧
    s.reg.destroyed.count c ≤ 1 ∧ s.reg.freed.count c ≤ 1 ∧
    (∀ lbl s', s.step lbl = some s' →
      (s'.reg.destroyed.count c ≠ s.reg.destroyed.count c ∨
        s'.reg.freed.count c ≠ s.reg.freed.count c) →
      (∀ t, (t, c) ∉ s.held) ∧ c ∈ s.dropped) ∧
    (c ∈ s.removed → (∀ t, ¬ Holds s t c) → c ∈ s.reg.destroyed ∧ c ∈ s.reg.freed) := by
  have hinv := reachable_inv h
  have honce : s.reg.freed.count c ≤ 1 := List.nodup_iff_count_le_one.mp hinv.once c
  refine ⟨?_, hinv.same ▸ honce, honce, ?_, ?_⟩
  · rw [cregAcquireClient_fst, ← hinv.dead c hc]
    simp
  · intro lbl s' hs hchange
    rcases step_freed hs with ⟨hdes, hfree⟩ | ⟨t, d, b, hpc, hdes, hfree⟩
    · simp [hdes, hfree] at hchange
    · -- the step is the end of a release of `d`, so `d` is `c`
      have hdc : d = c := by
        by_contra hne
        simp [hdes, hfree, List.count_cons_of_ne hne] at hchange
      subst hdc
      rcases hinv.going t d b hpc with ⟨hd, hz, -⟩
      exact ⟨holders_eq_zero.mp hz, hd⟩
  · intro hrem hnone
    have hz : holders s.held c = 0 :=
      holders_eq_zero.mpr fun t ht => hnone t (Or.inl ht)
    have hf : c ∈ s.reg.freed := by
      rcases hinv.last c (hinv.removed_dropped c hrem) hz with hf | ⟨t, b, hpc⟩
      · exact hf
      · cases b with
        | false => exact absurd (Or.inr hpc) (hnone t)
        | true => exact absurd hrem (hinv.unreturned t c hpc)
    exact ⟨hinv.same ▸ hf, hf⟩

/-- Thread 1 removes a client while thread 2 holds it; the last release frees it. -/
def overlappingRemoval : List RegistryLbl :=
  [.insert 1 true 42 10 11, .acquire 2 0, .markdead 1 0, .acquire 3 0, .unlink 1, .drop 1,
    .release 2 0, .destroy 2]

theorem client_lifecycle_overlappingRemoval :
    ∃ s, system.Reachable s ∧ 0 < s.reg.brk ∧ 0 ∈ s.removed ∧ 0 ∈ s.reg.freed ∧
      s.reg.destroyed.count 0 ≤ 1 ∧
      ((s.reg.cregAcquireClient 0).1 = .SUCCESS ↔ 0 ∉ s.marked) := by
  obtain ⟨s, hs, hp⟩ := exists_reachable_of_run .init RegistryCalls.step overlappingRemoval
    (fun s => decide (0 < s.reg.brk ∧ 0 ∈ s.removed ∧ 0 ∈ s.reg.freed)) (by decide)
  rcases of_decide_eq_true hp with ⟨hbrk, hrem, hfreed⟩
  exact ⟨s, hs, hbrk, hrem, hfreed, (client_lifecycle hs hbrk).2.1, (client_lifecycle hs hbrk).1⟩

end AnimateServer.RegistryThreads
