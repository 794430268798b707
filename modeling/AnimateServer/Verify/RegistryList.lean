import AnimateServer.Verify.RegistryThreads

/-!
# What the registry lists

The sections of the registry functions run in any order, for any client that
`creg_insert` has returned: listed, removed before, or freed. A history keeps the
clients inserted and the clients unlinked. In every reachable state the pointers
spell the clients that are in the first log and not in the second, and the links of
the others are null.
-/

namespace AnimateServer.RegistryList

open CLib Links ClientRegistry Registry Transition

/-! ## Sections in any order -/

/-- The sections of the registry functions; `creg_remove` is the marking, the unlinking
and the release, and `destroy` is what a release does behind its section. -/
inductive SectionLbl where
  | insert (alloc : Bool) (clientPid c2sFd s2cFd : Int)
  | acquire (client : ClientRef)
  | release (client : ClientRef)
  | destroy (client : ClientRef)
  | markdead (client : ClientRef)
  | unlink (client : ClientRef)
deriving DecidableEq, Repr

def step : SectionLbl → ClientRegistry → Option ClientRegistry
  | .insert alloc pid c2s s2c, r => some (r.cregInsert alloc pid c2s s2c).2
  | .acquire c, r => if c < r.brk then some (r.cregAcquireClient c).2 else none
  | .release c, r => if c < r.brk then some (r.releaseSection c).2 else none
  | .destroy c, r => if c < r.brk then some (r.destroyClient c) else none
  | .markdead c, r => if c < r.brk then some (r.markdeadSection c) else none
  | .unlink c, r => if c < r.brk then some (r.cregUnlink c) else none

/-- The sections from `creg_init` on. -/
abbrev sections : LTS ClientRegistry SectionLbl := ofStep .init step

/-- The clients that `creg_insert` has returned and those that `creg_unlink` was called
for, the last one first. -/
structure History where
  inserted : List ClientRef
  unlinked : List ClientRef
deriving DecidableEq, Repr

namespace History

def empty : History := ⟨[], []⟩

def log : SectionLbl → ClientRegistry → ClientRegistry → History → History
  | .insert alloc pid c2s s2c, r, _, h =>
    match (r.cregInsert alloc pid c2s s2c).1 with
    | some c => { h with inserted := c :: h.inserted }
    | none => h
  | .unlink c, _, _, h => { h with unlinked := c :: h.unlinked }
  | _, _, _, h => h

/-- Inserted and not yet unlinked. -/
def listed (h : History) : List ClientRef := h.inserted.filter (· ∉ h.unlinked)

/-- Who is listed has been inserted and not unlinked. -/
theorem mem_listed {h : History} {c : ClientRef} :
    c ∈ h.listed ↔ c ∈ h.inserted ∧ c ∉ h.unlinked := by
  simp [listed]

/-- An insertion lists a client. -/
theorem listed_insert {h : History} {c : ClientRef} (hc : c ∉ h.unlinked) :
    ({ h with inserted := c :: h.inserted } : History).listed = c :: h.listed := by
  simp [listed, hc]

/-- An unlinking takes a client off, also if it was not there. -/
theorem listed_unlink {h : History} (hnd : h.listed.Nodup) (c : ClientRef) :
    ({ h with unlinked := c :: h.unlinked } : History).listed = h.listed.erase c := by
  rw [hnd.erase_eq_filter]
  simp only [listed, List.filter_filter]
  congr 1
  funext a
  by_cases ha : a = c <;> simp [ha]

end History

/-! ## What a section does to the links -/

/-- The client is linked to nothing. -/
def Detached (r : ClientRegistry) (c : ClientRef) : Prop :=
  (r.mem c).next = none ∧ (r.mem c).prev = none

/-- `r'` has the links of `r`. -/
structure SameLinks (r r' : ClientRegistry) : Prop where
  next : ∀ c, (r'.mem c).next = (r.mem c).next
  prev : ∀ c, (r'.mem c).prev = (r.mem c).prev
  clients : r'.clients = r.clients
  brk : r'.brk = r.brk
  count : r'.count = r.count

/-- Reading, acquiring, releasing, destroying and marking move no link. -/
theorem sameLinks_touch (r : ClientRegistry) (c : ClientRef) : SameLinks r (r.touch c) := by
  constructor <;> simp

/-- Writing a field that is no link moves none. -/
theorem sameLinks_modify (r : ClientRegistry) (c : ClientRef) {f : ActiveClient → ActiveClient}
    (hnext : ∀ a, (f a).next = a.next) (hprev : ∀ a, (f a).prev = a.prev) :
    SameLinks r (r.modify c f) where
  next := fun d => by by_cases hd : d = c <;> simp [hd, hnext]
  prev := fun d => by by_cases hd : d = c <;> simp [hd, hprev]
  clients := by simp
  brk := by simp
  count := by simp

theorem sameLinks_acquire (r : ClientRegistry) (c : ClientRef) :
    SameLinks r (r.cregAcquireClient c).2 := by
  cases hd : (r.mem c).dead with
  | true =>
    rw [cregAcquireClient_dead hd]
    exact sameLinks_touch r c
  | false =>
    rw [cregAcquireClient_live hd]
    exact sameLinks_modify r c (f := fun a => { a with refcount := a.refcount + 1 })
      (fun _ => rfl) fun _ => rfl

theorem sameLinks_release (r : ClientRegistry) (c : ClientRef) :
    SameLinks r (r.releaseSection c).2 := by
  rw [releaseSection_snd]
  exact sameLinks_modify r c (fun _ => rfl) fun _ => rfl

theorem sameLinks_destroy (r : ClientRegistry) (c : ClientRef) :
    SameLinks r (r.destroyClient c) := by
  constructor <;> simp [destroyClient]

theorem sameLinks_markdead (r : ClientRegistry) (c : ClientRef) :
    SameLinks r (r.markdeadSection c) :=
  sameLinks_modify r c (fun _ => rfl) fun _ => rfl

/-- An insertion writes to the links of the new record and of the old head. -/
theorem Detached.insert {r : ClientRegistry} {l : List ClientRef} (hr : RegList r l)
    {c : ClientRef} (hc : Detached r c) (hold : c < r.brk) (hout : c ∉ l)
    (pid c2s s2c : Int) : Detached (r.cregInsert true pid c2s s2c).2 c := by
  have hnew : c ≠ r.brk := Nat.ne_of_lt hold
  unfold Detached at hc ⊢
  cases hh : r.clients with
  | none =>
    rw [cregInsert_snd_none hh]
    simpa [pushed, hnew] using hc
  | some head =>
    -- c is not linked, so it is not the head whose prev is written
    have hhead : c ≠ head := by
      rintro rfl
      cases l with
      | nil =>
        have hnone : r.clients = none := hr.linked
        simp [hnone] at hh
      | cons a l =>
        have ha : r.clients = some a := hr.linked.1
        rw [ha] at hh
        simp [Option.some.inj hh] at hout
    rw [cregInsert_snd_some hh]
    simpa [pushed, hnew, hhead] using hc

/-- Unlinking a listed client clears its links. -/
theorem detached_unlink {r : ClientRegistry} {l : List ClientRef} (hr : RegList r l)
    {c : ClientRef} (hc : c ∈ l) : Detached (r.cregUnlink c) c := by
  rcases findClient_spec c l r.brk r.clients hr.linked.chain hr.length_le with ⟨-, hfound⟩
  rcases cregUnlink_eq c r with ⟨hf, -⟩ | ⟨-, heq⟩
  · rw [hfound, if_pos hc] at hf
    cases hf
  · rw [heq]
    constructor <;> simp [cutOut]

/-- Unlinking writes to the links of listed clients only. -/
theorem Detached.unlink {r : ClientRegistry} {l : List ClientRef} (hr : RegList r l)
    {d : ClientRef} (hd : Detached r d) (hout : d ∉ l) (c : ClientRef) :
    Detached (r.cregUnlink c) d := by
  rcases findClient_spec c l r.brk r.clients hr.linked.chain hr.length_le with ⟨-, hfound⟩
  rcases cregUnlink_eq c r with ⟨-, heq⟩ | ⟨hf, heq⟩
  · rcases r.touchAll_eq (findClient r.mem c r.brk r.clients).1 with ⟨fs, hfs⟩
    rw [heq, hfs]
    exact hd
  · have hc : c ∈ l := by
      by_contra hc
      rw [hfound, if_neg hc] at hf
      cases hf
    have hdc : d ≠ c := fun hdc => hout (hdc ▸ hc)
    -- the accesses of the search leave the list as it is
    have hr' := (hr.touchAll (findClient r.mem c r.brk r.clients).1).touch c
    rcases r.touchAll_eq (findClient r.mem c r.brk r.clients).1 with ⟨fs, hfs⟩
    rw [hfs] at hr' heq
    rw [heq]
    constructor
    · rw [next_cutOut c _ hdc, hr'.linked.cutNext_of_notMem hr'.nodup hc hout]
      simpa using hd.1
    · rw [prev_cutOut c _ hdc, hr'.linked.cutPrev_of_notMem hc hout]
      simpa using hd.2

/-! ## The invariant -/

/-- The registry lists what the history says, and the clients ever unlinked are
linked to nothing. -/
structure Inv (r : ClientRegistry) (h : History) : Prop where
  regList : RegList r h.listed
  known : ∀ c, c ∈ h.inserted ↔ c < r.brk
  unlinked_known : ∀ c ∈ h.unlinked, c < r.brk
  detached : ∀ c ∈ h.unlinked, Detached r c

/-- The empty list. -/
theorem inv_init : Inv .init .empty where
  regList := regList_init
  known := fun c => by simp [History.empty, ClientRegistry.init]
  unlinked_known := fun c hc => by simp [History.empty] at hc
  detached := fun c hc => by simp [History.empty] at hc

/-- A section that leaves the links alone. -/
theorem Inv.sameLinks {r r' : ClientRegistry} {h : History} (hinv : Inv r h)
    (hs : SameLinks r r') : Inv r' h where
  regList := hinv.regList.congr (fun c _ => hs.next c) (fun c _ => hs.prev c) hs.clients hs.brk
    hs.count
  known := fun c => by rw [hs.brk]; exact hinv.known c
  unlinked_known := fun c hc => by rw [hs.brk]; exact hinv.unlinked_known c hc
  detached := fun c hc => by
    rcases hinv.detached c hc with ⟨hn, hp⟩
    exact ⟨(hs.next c).trans hn, (hs.prev c).trans hp⟩

/-- An insertion puts the client in front of the list. -/
theorem Inv.insert {r : ClientRegistry} {h : History} (hinv : Inv r h) (pid c2s s2c : Int) :
    Inv (r.cregInsert true pid c2s s2c).2 { h with inserted := r.brk :: h.inserted } := by
  have hbrk : (r.cregInsert true pid c2s s2c).2.brk = r.brk + 1 :=
    (sameButLinks_cregInsert pid c2s s2c r).brk
  have hfresh : r.brk ∉ h.unlinked := fun hm => Nat.lt_irrefl _ (hinv.unlinked_known _ hm)
  refine ⟨?_, fun c => ?_, fun c hc => ?_, fun c hc => ?_⟩
  · rw [History.listed_insert hfresh]
    exact hinv.regList.cregInsert pid c2s s2c
  · rw [hbrk, List.mem_cons, hinv.known c, Nat.lt_succ_iff_lt_or_eq]
    exact or_comm
  · rw [hbrk]
    exact Nat.lt_succ_of_lt (hinv.unlinked_known c hc)
  · have hout : c ∉ h.listed := fun hm => (History.mem_listed.mp hm).2 hc
    exact (hinv.detached c hc).insert hinv.regList (hinv.unlinked_known c hc) hout pid c2s s2c

/-- An unlinking takes the client out, if it is there. -/
theorem Inv.unlink {r : ClientRegistry} {h : History} (hinv : Inv r h) {c : ClientRef}
    (hc : c < r.brk) :
    Inv (r.cregUnlink c) { h with unlinked := c :: h.unlinked } := by
  have hbrk : (r.cregUnlink c).brk = r.brk := (sameButLinks_cregUnlink c r).brk
  -- a client unlinked before stays as it is
  have hbefore : ∀ d ∈ h.unlinked, Detached (r.cregUnlink c) d := by
    intro d hd
    have hout : d ∉ h.listed := fun hm => (History.mem_listed.mp hm).2 hd
    exact (hinv.detached d hd).unlink hinv.regList hout c
  refine ⟨?_, fun d => ?_, fun d hd => ?_, fun d hd => ?_⟩
  · rw [History.listed_unlink hinv.regList.nodup]
    exact hinv.regList.cregUnlink c
  · rw [hbrk]
    exact hinv.known d
  · rw [hbrk]
    rcases List.mem_cons.mp hd with rfl | hd
    · exact hc
    · exact hinv.unlinked_known d hd
  · rcases List.mem_cons.mp hd with rfl | hd
    · by_cases hm : d ∈ h.listed
      · exact detached_unlink hinv.regList hm
      · -- it was inserted, so it is not listed because it was unlinked before
        have hold : d ∈ h.unlinked := by
          by_contra hno
          exact hm (History.mem_listed.mpr ⟨(hinv.known d).mpr hc, hno⟩)
        exact hbefore d hold
    · exact hbefore d hd

/-- Each critical section keeps the list in step with its history. -/
theorem step_inv {l : SectionLbl} {r r' : ClientRegistry} {h : History}
    (hs : step l r = some r') (hinv : Inv r h) : Inv r' (History.log l r r' h) := by
  -- only the insertion and the unlinking move a link
  cases l with
  | insert alloc pid c2s s2c =>
    obtain rfl := Option.some.inj hs
    cases alloc with
    | false => exact hinv
    | true => exact hinv.insert pid c2s s2c
  | acquire c =>
    rcases Option.ite_none_right_eq_some.mp hs with ⟨-, heq⟩
    obtain rfl := Option.some.inj heq
    exact hinv.sameLinks (sameLinks_acquire r c)
  | release c =>
    rcases Option.ite_none_right_eq_some.mp hs with ⟨-, heq⟩
    obtain rfl := Option.some.inj heq
    exact hinv.sameLinks (sameLinks_release r c)
  | destroy c =>
    rcases Option.ite_none_right_eq_some.mp hs with ⟨-, heq⟩
    obtain rfl := Option.some.inj heq
    exact hinv.sameLinks (sameLinks_destroy r c)
  | markdead c =>
    rcases Option.ite_none_right_eq_some.mp hs with ⟨-, heq⟩
    obtain rfl := Option.some.inj heq
    exact hinv.sameLinks (sameLinks_markdead r c)
  | unlink c =>
    rcases Option.ite_none_right_eq_some.mp hs with ⟨hc, heq⟩
    obtain rfl := Option.some.inj heq
    exact hinv.unlink hc

/-- The list is in step with its history in every order of the sections. -/
theorem reachable_inv {r : ClientRegistry} {h : History}
    (hr : (sections.recording .empty History.log).Reachable (r, h)) : Inv r h := by
  have hinv : ∀ p, (sections.recording .empty History.log).Reachable p → Inv p.1 p.2 := by
    intro p hp
    refine hp.invariant (fun p hi => ?_) (fun l p p' hn hinv => ?_)
    · rcases hi with ⟨hreg, hhist⟩
      rw [hreg, hhist]
      exact inv_init
    · rw [hn.2]
      exact step_inv hn.1 hinv
  exact hinv (r, h) hr

/-! ## The integrity of the list -/

/-- The pointers of the registry spell `l`, doubly linked. -/
structure Spells (r : ClientRegistry) (l : List ClientRef) : Prop where
  /-- From `cr_clients` along `next` come the clients of `l`, then the null pointer. -/
  walk : Chain (fun c => (r.mem c).next) r.clients l
  nodup : l.Nodup
  inverse : ∀ c d, (c ∈ l ∧ (r.mem c).next = some d) ↔ (d ∈ l ∧ (r.mem d).prev = some c)
  head : ∀ c, r.clients = some c → c ∈ l ∧ (r.mem c).prev = none
  count : r.count = l.length

/-- The list read forwards is the list read backwards. -/
theorem spells_of_regList {r : ClientRegistry} {l : List ClientRef} (h : RegList r l) :
    Spells r l where
  walk := h.linked.chain
  nodup := h.nodup
  inverse := fun c d => by simpa using h.linked.next_iff_prev (a := c) (b := d)
  head := fun c hc => by
    have hl := h.linked
    -- the head pointer is the first of the list, which has no predecessor
    cases l with
    | nil =>
      rw [linked_nil, hc] at hl
      cases hl
    | cons a l =>
      rcases hl with ⟨ha, hp, -⟩
      obtain rfl : a = c := Option.some.inj (ha.symm.trans hc)
      exact ⟨List.mem_cons_self, hp⟩
  count := h.count

/-- In every run of the sections the registry lists the clients inserted and not yet
unlinked, the last one first, and the links of an unlinked client are null. -/
theorem lists_inserted_not_unlinked {r : ClientRegistry} {h : History}
    (hr : (sections.recording .empty History.log).Reachable (r, h)) :
    Spells r (h.inserted.filter (· ∉ h.unlinked)) ∧
      ∀ c ∈ h.unlinked, (r.mem c).next = none ∧ (r.mem c).prev = none :=
  ⟨spells_of_regList (reachable_inv hr).regList, (reachable_inv hr).detached⟩

/-- The sections of a `creg_remove` that does not destroy the client. -/
def removal (c : ClientRef) : List SectionLbl := [.markdead c, .unlink c, .release c]

/-- Of three clients the middle one is removed twice, under a reference of another
thread, and then the head. -/
theorem lists_inserted_not_unlinked_twice :
    ∃ r, ∃ h : History, h = ⟨[2, 1, 0], [2, 1, 1]⟩ ∧ Spells r [0] ∧
      (r.mem 1).next = none ∧ (r.mem 1).prev = none := by
  obtain ⟨⟨r, h⟩, hr, hp⟩ := exists_reachable_of_run (ClientRegistry.init, History.empty)
    (recordStep History.log step)
    ([.insert true 100 4 5, .insert true 101 6 7, .insert true 102 8 9, .acquire 1] ++
      removal 1 ++ removal 1 ++ removal 2)
    (fun p => decide (p.2 = ⟨[2, 1, 0], [2, 1, 1]⟩)) (by decide)
  rw [← recording_ofStep] at hr
  have hh : h = ⟨[2, 1, 0], [2, 1, 1]⟩ := of_decide_eq_true hp
  subst hh
  rcases lists_inserted_not_unlinked hr with ⟨hlist, hout⟩
  exact ⟨r, _, rfl, hlist, hout 1 (by simp)⟩

/-! ## The threads -/

/-- Threads calling the registry functions run its sections in some order. -/
theorem threads_refine : Refines RegistryThreads.system sections RegistryCalls.reg where
  init := fun s hs => by
    subst hs
    rfl
  step := fun lbl s s' hr hn => by
    have hinv := RegistryThreads.reachable_inv hr
    refine Or.inl ?_
    -- each section of a thread is the section of the registry
    cases RegistryThreads.step_moves hn with
    | @insert t alloc pid c2s s2c => exact ⟨.insert alloc pid c2s s2c, rfl⟩
    | @acquire t c _ hc hlive =>
      refine ⟨.acquire c, (if_pos hc).trans ?_⟩
      rw [cregAcquireClient_live hlive]
    | @refuse t c _ hc hdead =>
      refine ⟨.acquire c, (if_pos hc).trans ?_⟩
      rw [cregAcquireClient_dead hdead]
    | @release t c _ hheld =>
      have hc : c < s.reg.brk := hinv.held_old _ hheld
      rw [RegistryThreads.reg_afterRelease]
      exact ⟨.release c, if_pos hc⟩
    | @markdead t c _ hc => exact ⟨.markdead c, if_pos hc⟩
    | @unlink t c hpc =>
      have hc : c < s.reg.brk := hinv.marked_old c (hinv.removing t c (Or.inl hpc)).1
      exact ⟨.unlink c, if_pos hc⟩
    | @drop t c hpc =>
      have hc : c < s.reg.brk := hinv.marked_old c (hinv.removing t c (Or.inr hpc)).1
      rw [RegistryThreads.reg_afterRelease]
      exact ⟨.release c, if_pos hc⟩
    | @destroy t c removing hpc =>
      have hc : c < s.reg.brk :=
        hinv.marked_old c (hinv.dropped_marked c (hinv.going t c removing hpc).1)
      rw [RegistryThreads.reg_afterRelease]
      exact ⟨.destroy c, if_pos hc⟩

/-- Between any two sections of the threads the registry is a doubly linked list. -/
theorem threads_spell {s : RegistryCalls} (h : RegistryThreads.system.Reachable s) :
    ∃ l, Spells s.reg l := by
  rcases (threads_refine.reachable h).exists_recording .empty History.log with ⟨hist, hr⟩
  exact ⟨hist.listed, spells_of_regList (reachable_inv hr).regList⟩

end AnimateServer.RegistryList
