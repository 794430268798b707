import AnimateServer.Verify.Accounting

/-!
# The poll slots mirror the registry

As long as no freed client has been touched, the slots behind the two self pipes
hold exactly the clients of the registry list, one slot for each. `Descriptors`
has one direction, which holds in every run: a slot names a client that has not
been removed. The other one needs the descriptor of the client that is removed
to be its own: after a use of a freed client, `server_remove_pollslots` may take
out the slot of whoever has got the descriptor since.
-/

namespace AnimateServer.SlotMirror

open CLib Server ServerSteps ServerInv Descriptors Registry Transition Accounting

/-! ## Accesses to freed clients are not forgotten -/

section Faults

variable (r : ClientRegistry) (c : ClientRef)

/-- Every operation on the registry adds faults at most. -/
theorem faults_suffix_touch : r.faults <:+ (r.touch c).faults := by
  unfold ClientRegistry.touch
  split
  · exact List.suffix_cons c r.faults
  · exact List.suffix_refl _

theorem faults_suffix_modify (f : ActiveClient → ActiveClient) :
    r.faults <:+ (r.modify c f).faults := faults_suffix_touch r c

theorem faults_suffix_touchAll (cs : List ClientRef) : r.faults <:+ (r.touchAll cs).faults := by
  induction cs generalizing r with
  | nil => exact List.suffix_refl _
  | cons c cs ih => exact (faults_suffix_touch r c).trans (ih (r.touch c))

/-- Unlinking reads the records of the neighbours. -/
theorem faults_suffix_cregUnlink : r.faults <:+ (r.cregUnlink c).faults := by
  -- cutting out touches the two neighbours and the client
  have hcut : ∀ r : ClientRegistry, r.faults <:+ (cutOut c r).faults := by
    intro r
    have hnext : r.faults <:+ (skipNext c r).faults := by
      unfold skipNext
      split
      · exact faults_suffix_modify r _ _
      · exact List.suffix_refl _
    have hprev : (skipNext c r).faults <:+
        (skipPrev (r.mem c).next (r.mem c).prev (skipNext c r)).faults := by
      unfold skipPrev
      split
      · exact faults_suffix_modify _ _ _
      · exact List.suffix_refl _
    refine (hnext.trans hprev).trans ?_
    unfold cutOut
    generalize skipPrev (r.mem c).next (r.mem c).prev (skipNext c r) = r'
    exact faults_suffix_touch { r' with count := decr r'.count } c
  rcases cregUnlink_eq c r with ⟨-, heq⟩ | ⟨-, heq⟩
  · rw [heq]
    exact faults_suffix_touchAll r _
  · rw [heq]
    exact ((faults_suffix_touchAll r _).trans (faults_suffix_touch _ c)).trans (hcut _)

theorem faults_suffix_release : r.faults <:+ (r.cregReleaseClient c).faults := by
  have hmod := faults_suffix_modify r c fun a => { a with refcount := decr a.refcount }
  rw [cregReleaseClient_eq]
  split
  · exact hmod.trans (faults_suffix_touch _ c)
  · exact hmod

theorem faults_suffix_remove :
    r.faults <:+ (((r.markdeadSection c).cregUnlink c).cregReleaseClient c).faults :=
  ((faults_suffix_modify r c _).trans (faults_suffix_cregUnlink _ c)).trans
    (faults_suffix_release _ c)

/-- An insertion reads the old head. -/
theorem faults_suffix_insert (pid c2s s2c : Int) :
    r.faults <:+ (r.cregInsert true pid c2s s2c).2.faults := by
  cases hh : r.clients with
  | none =>
    rw [cregInsert_snd_none hh]
    exact List.suffix_refl _
  | some head =>
    rw [cregInsert_snd_some hh]
    exact faults_suffix_touch (pushed pid c2s s2c r) head

end Faults

/-- So no result makes a fault undone. -/
theorem faults_suffix_handleResult (ins : Inserts) (res : TaskResult) (s : Server) :
    s.reg.faults <:+ (s.handleResult ins res).reg.faults := by
  -- releasing, reading and removing each add faults at most
  have hreject : ∀ c stamp msg, s.reg.faults <:+ (s.reject c stamp msg).reg.faults := by
    intro c stamp msg
    rw [reg_reject]
    exact (((faults_suffix_release s.reg c).trans (faults_suffix_touch _ c)).trans
      (faults_suffix_touch _ c)).trans (faults_suffix_remove _ c)
  rcases res with ⟨stamp, body⟩
  cases body with
  | HSK_OK pid c2s s2c =>
    have hnew : s.reg.faults <:+ (withClient pid c2s s2c s).reg.faults :=
      faults_suffix_insert s.reg pid c2s s2c
    rcases handshakeDone_cases ins pid c2s s2c s with heq | ⟨slots, ⟨-, heq⟩ | ⟨-, heq⟩⟩
    · exact (congrArg (fun s => s.reg.faults) heq) ▸ List.suffix_refl _
    · exact (congrArg (fun s => s.reg.faults) heq) ▸ hnew
    · exact (congrArg (fun s => s.reg.faults) heq) ▸ hnew.trans (faults_suffix_remove _ _)
  | AUTH_OK c username balance =>
    exact ((((faults_suffix_touch s.reg c).trans (faults_suffix_release _ c)).trans
      (faults_suffix_modify _ c _)).trans (faults_suffix_touch _ c)).trans
      (faults_suffix_modify _ c _)
  | AUTH_NO c => exact hreject c stamp _
  | AUTH_UN c => exact hreject c stamp _
  | RPC_DONE c rv => exact (faults_suffix_release s.reg c).trans (faults_suffix_touch _ c)

/-- A step forgets no access to a freed client. -/
theorem faults_suffix_step {cfg : Config} {lbl : ServerLbl} {s s' : Server}
    (hs : step cfg lbl s = some s') (hwired : Wired cfg s) : s.reg.faults <:+ s'.reg.faults := by
  cases hwired.step_moves hs with
  | poll | ignored | dequeue => exact List.suffix_refl _
  | handshake pid alloc => cases alloc <;> exact List.suffix_refl _
  | request i cmd alloc c => cases alloc <;> exact faults_suffix_modify s.reg c _
  | disconnect i cmd alloc c => exact faults_suffix_remove s.reg c
  | hangup i c => exact faults_suffix_remove s.reg c
  -- a handler follows clients when it searches for a user
  | posts =>
    rw [postResult_eq]
    split <;> exact faults_suffix_touchAll s.reg _
  | silent => exact faults_suffix_touchAll s.reg _
  | deliver ins res pipe =>
    exact faults_suffix_handleResult ins res { s with
      pipe
      history := { s.history with handled := s.history.handled ++ [res] } }

/-! ## The two self pipes and the lengths -/

/-- The first two slots are those of the self pipes, and the slots fit into the arrays. -/
structure Shape (cfg : Config) (p : PollSlots) : Prop where
  hsk : (p.pfds 0).fd = cfg.hskR ∧ p.clients 0 = none
  rpc : (p.pfds 1).fd = cfg.rpcR ∧ p.clients 1 = none
  two_le : 2 ≤ p.count
  count_le : p.count ≤ p.capacity
  pfds_le : p.capacity ≤ p.pfdsLen
  clients_le : p.capacity ≤ p.clientsLen

section Shape

variable {cfg : Config} {p : PollSlots}

/-- `poll` writes no descriptor and no event. -/
theorem Shape.poll (h : Shape cfg p) (revents : Nat → Revents) : Shape cfg (p.poll revents) where
  hsk := ⟨(fd_poll revents p 0).trans h.hsk.1, h.hsk.2⟩
  rpc := ⟨(fd_poll revents p 1).trans h.rpc.1, h.rpc.2⟩
  two_le := h.two_le
  count_le := h.count_le
  pfds_le := h.pfds_le
  clients_le := h.clients_le

/-- Slots behind the first two are filled. -/
theorem Shape.push (h : Shape cfg p) (fd : Int) (client : ClientRef)
    (hroom : p.count < p.capacity) : Shape cfg (p.push fd client) := by
  have hne : ∀ i < 2, i ≠ p.count := fun i hi => Nat.ne_of_lt (Nat.lt_of_lt_of_le hi h.two_le)
  refine ⟨?_, ?_, Nat.le_succ_of_le h.two_le, hroom, h.pfds_le, h.clients_le⟩
  · simpa [PollSlots.push, hne 0 (by decide)] using h.hsk
  · simpa [PollSlots.push, hne 1 (by decide)] using h.rpc

/-- The two calls of `reallocarray` may fail one without the other. -/
theorem Shape.grow (h : Shape cfg p) (pf cl : Bool) :
    Shape cfg (p.serverGrowPollslots pf cl).2 ∧
      ((p.serverGrowPollslots pf cl).1 = true →
        (p.serverGrowPollslots pf cl).2.capacity = p.capacity * 2) ∧
      (p.serverGrowPollslots pf cl).2.count = p.count := by
  have hcap : p.capacity ≤ p.capacity * 2 := Nat.le_mul_of_pos_right _ (by decide)
  unfold PollSlots.serverGrowPollslots
  cases pf with
  | false => exact ⟨h, nofun, rfl⟩
  | true =>
    cases cl with
    | false => exact ⟨⟨h.hsk, h.rpc, h.two_le, h.count_le, hcap, h.clients_le⟩, nofun, rfl⟩
    | true =>
      exact ⟨⟨h.hsk, h.rpc, h.two_le, h.count_le.trans hcap, Nat.le_refl _, Nat.le_refl _⟩,
        fun _ => rfl, rfl⟩

/-- A new slot is behind the others, and if one of the two arrays could not grow the count stays. -/
theorem Shape.insert (h : Shape cfg p) (pf cl : Bool) (fd : Int) (client : ClientRef) :
    Shape cfg (p.serverInsertPollslots pf cl fd client).2 := by
  unfold PollSlots.serverInsertPollslots
  split
  · rename_i hfull
    rcases h.grow pf cl with ⟨hgrown, hcap, hcount⟩
    cases hok : (p.serverGrowPollslots pf cl).1 with
    | false => simpa [hok] using hgrown
    | true =>
      -- growing doubled the capacity of a full array
      have hroom : (p.serverGrowPollslots pf cl).2.count <
          (p.serverGrowPollslots pf cl).2.capacity := by
        rw [hcap hok, hcount, hfull]
        have htwo := h.two_le
        omega
      simpa [hok] using hgrown.push fd client hroom
  · rename_i hne
    exact h.push fd client (Nat.lt_of_le_of_ne h.count_le (Ne.symm hne))

/-- When the last slot fills the gap the first two stay as they are. -/
theorem Shape.moveLast (h : Shape cfg p) {i : Nat} (h₂ : 2 ≤ i) (hi : i < p.count) :
    Shape cfg (p.moveLast i) := by
  have hfirst : ∀ k < 2, k ≠ i ∧ k ≠ p.count - 1 := fun k hk => by omega
  refine ⟨?_, ?_, Nat.le_sub_one_of_lt (Nat.lt_of_le_of_lt h₂ hi),
    (Nat.sub_le _ 1).trans h.count_le, h.pfds_le, h.clients_le⟩
  · simpa [PollSlots.moveLast, hfirst 0 (by decide)] using h.hsk
  · simpa [PollSlots.moveLast, hfirst 1 (by decide)] using h.rpc

/-- Removing a client's descriptor leaves the first two slots. -/
theorem Shape.remove (h : Shape cfg p) {fd : Int} (hfd : fd ∉ selfFds cfg) :
    Shape cfg (p.serverRemovePollslots fd) := by
  rcases serverRemovePollslots_cases fd p with ⟨-, heq⟩ | ⟨i, hi, hmatch, heq⟩
  · rwa [heq]
  · rw [heq]
    refine h.moveLast ?_ hi
    by_contra hlt
    obtain rfl | rfl : i = 0 ∨ i = 1 := by omega
    · exact hfd (by rw [← hmatch, h.hsk.1]; simp [selfFds])
    · exact hfd (by rw [← hmatch, h.rpc.1]; simp [selfFds])

end Shape

/-! ## A slot for every client -/

/-- Every client that has not been removed, `c` left aside, has a slot. -/
def SeatedBut (c : ClientRef) (s : Server) : Prop :=
  ∀ d < s.reg.brk, d ≠ c → d ∉ s.history.removed →
    ∃ i, 2 ≤ i ∧ i < s.slots.count ∧ s.slots.clients i = some d

/-- Every client that has not been removed has a slot. -/
def Seated (s : Server) : Prop :=
  ∀ d < s.reg.brk, d ∉ s.history.removed →
    ∃ i, 2 ≤ i ∧ i < s.slots.count ∧ s.slots.clients i = some d

section Seated

variable {cfg : Config} {s s' : Server}

/-- Who sits where depends on the slots and the removals only. -/
theorem Seated.congr (h : Seated s) (hbrk : s'.reg.brk = s.reg.brk) (hslots : s'.slots = s.slots)
    (hremoved : s'.history.removed = s.history.removed) : Seated s' := by
  unfold Seated
  rw [hbrk, hslots, hremoved]
  exact h

/-- Taking out the slot with the descriptor of a client whose pipes are open leaves the
slots of all others. -/
theorem Seated.removeSlot (h : Seated s) (hwired : Wired cfg s) {c : ClientRef}
    (hc : c < s.reg.brk) (hopen : c ∉ s.reg.freed) :
    SeatedBut c (s.removeSlot (s.reg.mem c).c2sFd) := by
  intro d hd hne hrem
  rcases h d hd hrem with ⟨i, h₂, hi, hslot⟩
  rcases serverRemovePollslots_cases (s.reg.mem c).c2sFd s.slots with
    ⟨-, heq⟩ | ⟨j, hj, hmatch, heq⟩
  · exact ⟨i, h₂, by simpa [Server.removeSlot, heq] using hi,
      by simpa [Server.removeSlot, heq] using hslot⟩
  · have hj₂ : 2 ≤ j := by
      by_contra hlt
      exact hwired.c2sFd_notMem_self hc (hmatch ▸ hwired.slot.self j (by omega))
    -- the slot that is taken out is not that of `d`
    have hij : i ≠ j := by
      rintro rfl
      rcases hwired.slot.client i h₂ hi with ⟨e, he, hlt, hnot, hfd⟩
      obtain rfl : e = d := Option.some.inj (he.symm.trans hslot)
      refine hne (hwired.fd.c2sFd_inj (mem_openClients.mpr ⟨hlt, fun hf => ?_⟩)
        (mem_openClients.mpr ⟨hc, hopen⟩) (hfd.symm.trans hmatch))
      exact hnot (hwired.base.reg.freed_removed e hf)
    have hcount : (s.slots.moveLast j).count = s.slots.count - 1 := count_moveLast s.slots j
    simp only [Server.removeSlot, heq]
    by_cases hlast : i = s.slots.count - 1
    · refine ⟨j, hj₂, by omega, ?_⟩
      rw [(pfds_moveLast (by omega)).2, movedFrom, if_pos rfl, ← hlast, hslot]
    · refine ⟨i, h₂, by omega, ?_⟩
      rw [(pfds_moveLast (by omega)).2, movedFrom, if_neg hij, hslot]

/-- A client without a slot may be removed. -/
theorem SeatedBut.cregRemove {c : ClientRef} (h : SeatedBut c s) : Seated (s.cregRemove c) := by
  intro d hd hrem
  rcases not_or.mp (mt List.mem_cons.mpr hrem) with ⟨hne, hrem⟩
  exact h d (by simpa using hd) hne hrem

/-- A client that is removed loses its slot. -/
theorem Seated.removeAt (h : Seated s) (hwired : Wired cfg s) {i : Nat} {c : ClientRef}
    (hc : s.clientAt i = some c) : Seated (s.removeAt i c) := by
  rcases clientAt_eq_some hc with ⟨h₂, hi, hslot⟩
  rcases hwired.slot.client i h₂ hi with ⟨d, hd, hlt, hnot, hfd⟩
  obtain rfl : d = c := Option.some.inj (hd.symm.trans hslot)
  unfold Server.removeAt
  rw [hfd]
  exact (h.removeSlot hwired hlt fun hf =>
    hnot (hwired.base.reg.freed_removed d hf)).cregRemove

/-- A rejection that does not free the client by its first release. -/
theorem Seated.reject (h : Seated s) (hwired : Wired cfg s) {c : ClientRef} (stamp : Nat)
    (msg : CStr) (hc : c < s.reg.brk) (hopen : c ∉ (s.release c).reg.freed) :
    Seated (s.reject c stamp msg) := by
  have hrel : Wired cfg ((s.release c).touch c) := (hwired.release hc).touch c
  have hseated : Seated ((s.release c).touch c) :=
    h.congr (by simp) rfl rfl
  have hbut := hseated.removeSlot hrel (c := c) (by simpa using hc)
    (by simpa [Server.touch] using hopen)
  have hsent : SeatedBut c ((((s.release c).touch c).removeSlot
      (((s.release c).touch c).reg.mem c).c2sFd).send c stamp msg) := by
    intro d hd
    exact hbut d (by simpa using hd)
  exact hsent.cregRemove

/-- A new client gets a slot or is removed again. -/
theorem Seated.handshakeDone (h : Seated s) (ins : Inserts) (pid c2s s2c : Int)
    (hwired : Wired cfg s) : Seated (s.handshakeDone ins pid c2s s2c) := by
  have hbrk := brk_withClient pid c2s s2c s
  have htwo := hwired.slot.two
  rcases handshakeDone_cases ins pid c2s s2c s with
    heq | ⟨slots, ⟨⟨hcount, -, hclients⟩, heq⟩ | ⟨⟨hcount, -, hclients⟩, heq⟩⟩
  · rwa [heq]
  · -- the new client sits at `count`
    rw [heq]
    intro d hd hrem
    change d < (withClient pid c2s s2c s).reg.brk at hd
    simp only [hcount, hclients]
    rw [hbrk] at hd
    rcases Nat.lt_succ_iff_lt_or_eq.mp hd with hd | rfl
    · rcases h d hd hrem with ⟨i, h₂, hi, hslot⟩
      exact ⟨i, h₂, Nat.lt_succ_of_lt hi, by rwa [Function.update_of_ne (Nat.ne_of_lt hi)]⟩
    · exact ⟨s.slots.count, htwo, Nat.lt_succ_self _, Function.update_self ..⟩
  · rw [heq]
    refine SeatedBut.cregRemove fun d hd hne hrem => ?_
    change d < (withClient pid c2s s2c s).reg.brk at hd
    simp only [hcount, hclients]
    rw [hbrk] at hd
    exact h d (Nat.lt_of_le_of_ne (Nat.le_of_lt_succ hd) hne) hrem

end Seated

/-! ## Runs -/

/-- At the start there are the two self-pipes. -/
theorem shape_init (cfg : Config) : Shape cfg (init cfg).slots :=
  ⟨⟨rfl, rfl⟩, ⟨rfl, rfl⟩, Nat.le_refl 2, (by decide : 2 ≤ POLLFD_INIT_N), Nat.le_refl _,
    Nat.le_refl _⟩

/-- A handshake inserts one slot at most. -/
theorem slots_handshakeDone (ins : Inserts) (pid c2s s2c : Int) (s : Server) :
    (s.handshakeDone ins pid c2s s2c).slots = s.slots ∨
      (s.handshakeDone ins pid c2s s2c).slots =
        (s.slots.serverInsertPollslots ins.pfds ins.clients c2s s.reg.brk).2 := by
  unfold Server.handshakeDone
  cases ins.client with
  | false => exact Or.inl rfl
  | true =>
    rw [cregInsert_true]
    dsimp only
    split <;> exact Or.inr rfl

/-- No result changes the two slots of the self-pipes. -/
theorem shape_handleResult {cfg : Config} {s : Server} (hwired : Wired cfg s)
    (h : Shape cfg s.slots) (ins : Inserts) {res : TaskResult}
    (hc : ∀ c, res.client? = some c → c < s.reg.brk) :
    Shape cfg (s.handleResult ins res).slots := by
  -- a rejected client's slot is removed by its descriptor
  have hreject : ∀ c stamp msg, c < s.reg.brk → Shape cfg (s.reject c stamp msg).slots :=
    fun c stamp msg hc => h.remove
      (((hwired.release hc).touch c).c2sFd_notMem_self (c := c) (by simpa using hc))
  rcases res with ⟨stamp, body⟩
  cases body with
  | HSK_OK pid c2s s2c =>
    rcases slots_handshakeDone ins pid c2s s2c s with heq | heq
    · exact heq.symm ▸ h
    · exact heq.symm ▸ h.insert _ _ _ _
  | AUTH_OK c username balance => exact h
  | AUTH_NO c => exact hreject c stamp _ (hc c rfl)
  | AUTH_UN c => exact hreject c stamp _ (hc c rfl)
  | RPC_DONE c rv => exact h

/-- As long as no freed record is read, every result leaves each client in its slot. -/
theorem seated_handleResult {cfg : Config} {s : Server} (hwired : Wired cfg s) (h : Seated s)
    (ins : Inserts) {res : TaskResult} (hc : ∀ c, res.client? = some c → c < s.reg.brk)
    (hclean : (s.handleResult ins res).reg.faults = []) : Seated (s.handleResult ins res) := by
  have hreject : ∀ c stamp msg, c < s.reg.brk → (s.reject c stamp msg).reg.faults = [] →
      Seated (s.reject c stamp msg) := by
    intro c stamp msg hlt hclean
    refine h.reject hwired stamp msg hlt fun hfreed => ?_
    -- the client is looked at again after its release
    have htouched : ((s.release c).touch c).reg.faults <:+ (s.reject c stamp msg).reg.faults :=
      (faults_suffix_touch _ c).trans (faults_suffix_remove _ c)
    rw [hclean, List.suffix_nil] at htouched
    have hfault := (s.release c).reg.faults_touch_of_mem c hfreed
    exact List.cons_ne_nil _ _ (hfault.symm.trans htouched)
  rcases res with ⟨stamp, body⟩
  cases body with
  | HSK_OK pid c2s s2c => exact h.handshakeDone ins pid c2s s2c hwired
  | AUTH_OK c username balance => exact h.congr (by simp [Server.handleResult, authDone]) rfl rfl
  | AUTH_NO c => exact hreject c stamp _ (hc c rfl) hclean
  | AUTH_UN c => exact hreject c stamp _ (hc c rfl) hclean
  | RPC_DONE c rv => exact h.congr (by simp [Server.handleResult]) rfl rfl

/-- The arrays keep their shape in every step. -/
theorem shape_step {cfg : Config} {lbl : ServerLbl} {s s' : Server}
    (hs : step cfg lbl s = some s') (hwired : Wired cfg s) (h : Shape cfg s.slots) :
    Shape cfg s'.slots := by
  -- the slot of a client is not one of the two of the server itself
  have hremoveAt : ∀ i c, s.clientAt i = some c → Shape cfg (s.removeAt i c).slots := by
    intro i c hc
    rcases clientAt_eq_some hc with ⟨h₂, hi, -⟩
    rcases hwired.slot.client i h₂ hi with ⟨d, -, hlt, -, hfd⟩
    refine h.remove ?_
    rw [hfd]
    exact hwired.c2sFd_notMem_self hlt
  -- slots come in with a handshake and go with a removal; the other steps leave them
  cases hwired.step_moves hs with
  | poll revents => exact h.poll revents
  | ignored | dequeue | silent => exact h
  | handshake pid alloc => cases alloc <;> exact h
  | request i cmd alloc => cases alloc <;> exact h
  | disconnect i cmd alloc c hc => exact hremoveAt i c hc
  | hangup i c hc => exact hremoveAt i c hc
  | posts =>
    rw [postResult_eq]
    split <;> exact h
  | deliver ins res pipe hp =>
    rcases hwired.pop hp (s.history.handled ++ [res]) with ⟨hpop, -⟩
    exact shape_handleResult hpop h ins fun c hc =>
      hwired.base.old.pipe res (hp ▸ List.mem_cons_self) c hc

/-- A step that makes no fault leaves each client in its slot. -/
theorem seated_step {cfg : Config} {lbl : ServerLbl} {s s' : Server}
    (hs : step cfg lbl s = some s') (hwired : Wired cfg s) (hclean : s'.reg.faults = [])
    (h : Seated s) : Seated s' := by
  -- the fault of a second release would show in the list of faults
  cases hwired.step_moves hs with
  | poll | ignored | dequeue => exact h
  | handshake pid alloc => cases alloc <;> exact h
  | request i cmd alloc c =>
    have hacq : Seated (acquired c s) := h.congr (by simp [acquired, Server.modify]) rfl rfl
    cases alloc <;> exact hacq
  | disconnect i cmd alloc c hc => exact h.removeAt hwired hc
  | hangup i c hc => exact h.removeAt hwired hc
  | posts w env task =>
    have hafter : Seated (afterTask w env task s) :=
      h.congr (sameButLinks_afterTask w env task s).brk rfl rfl
    rw [postResult_eq]
    split <;> exact hafter
  | silent w env task => exact h.congr (sameButLinks_afterTask w env task s).brk rfl rfl
  | deliver ins res pipe hp =>
    rcases hwired.pop hp (s.history.handled ++ [res]) with ⟨hpop, -⟩
    exact seated_handleResult hpop h ins
      (fun c hc => hwired.base.old.pipe res (hp ▸ List.mem_cons_self) c hc) hclean

/-- The slots behind the first two and the clients of the registry list `l` stand in
one-to-one correspondence. -/
structure Mirrors (s : Server) (l : List ClientRef) : Prop where
  slot : ∀ i, 2 ≤ i → i < s.slots.count → ∃ c ∈ l, s.slots.clients i = some c ∧
    (s.slots.pfds i).fd = (s.reg.mem c).c2sFd
  seat : ∀ c ∈ l, ∃! i, 2 ≤ i ∧ i < s.slots.count ∧ s.slots.clients i = some c

/-- So the two arrays have their shape in every reachable state. -/
theorem reachable_shape {cfg : Config} {s : Server} (h : (system cfg).Reachable s) :
    Shape cfg s.slots := by
  refine h.invariant_with (fun s hr => reachable_wired hr) (fun s hs => ?_)
    (fun lbl s s' hn hw hi => shape_step hn hw hi)
  subst hs
  exact shape_init cfg

/-- Until a freed client is touched, the slots are the self pipes and one slot for each
client of the registry list. -/
theorem slots_mirror_registry {cfg : Config} {s : Server} (h : (system cfg).Reachable s)
    (hclean : s.reg.faults = []) :
    Shape cfg s.slots ∧ ∃ l, RegList s.reg l ∧ Mirrors s l := by
  have hwired := reachable_wired h
  -- faults are never taken back, so there was none before
  have hseated : s.reg.faults = [] → Seated s := by
    refine h.invariant_with (fun s hr => reachable_wired hr) (fun s hs _ => ?_)
      (fun lbl s s' hn hw hi hclean => ?_)
    · subst hs
      intro d hd
      exact absurd hd (Nat.not_lt_zero d)
    · have hbefore := faults_suffix_step hn hw
      rw [hclean, List.suffix_nil] at hbefore
      exact seated_step hn hw hclean (hi hbefore)
  rcases hwired.base.reg.list with ⟨l, hl, hmem⟩
  refine ⟨reachable_shape h, l, hl, fun i h₂ hi => ?_, fun c hc => ?_⟩
  · rcases hwired.slot.client i h₂ hi with ⟨c, hslot, hlt, hnot, hfd⟩
    exact ⟨c, (hmem c).mpr ⟨hlt, hnot⟩, hslot, hfd⟩
  · rcases (hmem c).mp hc with ⟨hlt, hnot⟩
    rcases hseated hclean c hlt hnot with ⟨i, h₂, hi, hslot⟩
    exact ⟨i, ⟨h₂, hi, hslot⟩, fun j ⟨hj₂, hj, hjslot⟩ =>
      hwired.slot.inj j i hj₂ hj h₂ hi (hjslot.trans hslot.symm)⟩

/-- Two clients connect, and the first one hangs up. -/
theorem slots_mirror_registry_hangup :
    ∃ s : Server, s.slots.count = 3 ∧ s.reg.freed = [0] ∧ Shape oneWorker s.slots ∧
      ∃ l, RegList s.reg l ∧ Mirrors s l := by
  obtain ⟨s, hs, hp⟩ := exists_reachable_of_run (init oneWorker) (step oneWorker)
    (connection ++
      .handshake 43 true :: answers { Env.allSucceed 7 with hsk := some (12, 13) } ++
      [.deliver ⟨true, true, true⟩, .hangup 2])
    (fun s => decide (s.slots.count = 3 ∧ s.reg.freed = [0] ∧ s.reg.faults = [])) (by decide)
  rcases of_decide_eq_true hp with ⟨hcount, hfreed, hclean⟩
  exact ⟨s, hcount, hfreed, slots_mirror_registry hs hclean⟩

end AnimateServer.SlotMirror
