import AnimateServer.Model.Rendezvous
import AnimateServer.Verify.Handshake

/-!
# Client and server meet at their FIFOs

The client opens the s2c FIFO first and waits there; the server opens the c2s FIFO first, does
not wait, and opens the other one only when the client is there. So the first `open` of the
client goes through only on a FIFO that the server has opened as well, and its second one
finds the server already there. A FIFO left over from an earlier process meets nobody.
-/

namespace AnimateServer.Rendezvous

open NamedFifo NamedFifo.Fifos Transition
open Client (ClientLbl ClientPc Connection)

/-! ## Where the server is -/

/-- The left-over FIFO has been unlinked. -/
def HskPc.cleared : FifoType → HskPc → Bool
  | _, .idle | _, .queued | _, .unlinkC2s | .S2C, .unlinkS2c => false
  | _, _ => true

/-- The FIFO of the worker has been unlinked. -/
def HskPc.swept : FifoType → HskPc → Bool
  | .C2S, .failS2c | .C2S, .removeS2c | _, .dropped | _, .gone => true
  | _, _ => false

/-- The server has this descriptor open. -/
def HskPc.holds : FifoFd → HskPc → Bool
  | .c2sFd, .openS2c _ | .c2sFd, .closeC2s | .c2sFd, .closeC2sFd
  | .c2sFd, .post | .c2sFd, .lost | .c2sFd, .posted | .c2sFd, .registered
  | .s2cFd, .post | .s2cFd, .lost | .s2cFd, .posted | .s2cFd, .registered
  | .s2cFd, .closeC2sFd | .s2cFd, .closeS2cFd => true
  | _, _ => false

/-- The client has not returned from its first `open` yet. -/
def before : ClientPc → Bool
  | .start | .blocked | .killing | .waitTest | .suspended | .woken | .restoring | .timeoutTest
  | .openRead => true
  | _ => false

/-- `perform_handshake` has returned `SUCCESS`. -/
def Succeeded (c : Connection) : Prop := ∃ r ∈ c.returned, r.err = .SUCCESS

/-- Both opens of the client have gone through. -/
def BothOpened (c : Connection) : Prop := c.pc = .opened ∨ c.pc = .success ∨ Succeeded c

/-! ## The steps of the client -/

/-- What a step of the client other than an `open` can do. -/
structure ClientMoves (c c' : Connection) : Prop where
  before : before c'.pc = true → before c.pc = true
  openRead : c.pc = .openRead → c'.pc = .openRead ∨ c'.pc = .killed
  openWrite : c'.pc = .openWrite → c.pc = .openWrite
  both : BothOpened c' → BothOpened c

/-- A step that leaves the client where it is. -/
theorem ClientMoves.refl (c : Connection) : ClientMoves c c where
  before := id
  openRead := Or.inl
  openWrite := id
  both := id

/-- Moving on from one place to another without returning. -/
theorem clientMoves_of_pc {c c' : Connection} (hret : c'.returned = c.returned)
    (hbefore : before c'.pc = true → before c.pc = true)
    (hread : c.pc = .openRead → c'.pc = .openRead ∨ c'.pc = .killed)
    (hwrite : c'.pc = .openWrite → c.pc = .openWrite)
    (hopened : c'.pc = .opened → c.pc = .opened)
    (hsuccess : c'.pc = .success → c.pc = .opened ∨ c.pc = .success) : ClientMoves c c' where
  before := hbefore
  openRead := hread
  openWrite := hwrite
  both := by
    rintro (h | h | ⟨r, hr, herr⟩)
    · exact Or.inl (hopened h)
    · exact (hsuccess h).imp_right Or.inl
    · exact Or.inr (Or.inr ⟨r, hret ▸ hr, herr⟩)

/-- Returning from `perform_handshake`. -/
theorem clientMoves_ret {c : Connection} {err : ErrType} {pc : ClientPc}
    (hsucc : err = .SUCCESS → c.pc = .success) (hread : c.pc ≠ .openRead)
    (hpc : pc = .authorise ∨ pc = .teardown) : ClientMoves c (c.ret err pc) where
  before := fun h => by rcases hpc with rfl | rfl <;> cases h
  openRead := fun h => absurd h hread
  openWrite := fun h => by
    have h : pc = .openWrite := h
    rcases hpc with rfl | rfl <;> cases h
  both := by
    -- SUCCESS is returned from the program point behind both opens only
    rintro (h | h | ⟨r, hr, herr⟩)
    · have h : pc = .opened := h
      rcases hpc with rfl | rfl <;> cases h
    · have h : pc = .success := h
      rcases hpc with rfl | rfl <;> cases h
    · obtain rfl := Option.some.inj hr
      exact Or.inr (Or.inl (hsucc herr))

/-- A signal sends the client on at most. -/
theorem deliver_moves {sig : Client.Signal} {c c' : Connection} (h : c.deliver sig = some c') :
    ClientMoves c c' := by
  unfold Connection.deliver at h
  rcases Option.ite_none_left_eq_some.mp h with ⟨hdeaf, h⟩
  -- the reply sets its flag, SIGINT its own, and only sigsuspend returns for either
  split at h
  · obtain rfl := Option.some.inj h
    refine clientMoves_of_pc rfl ?_ (fun _ => Or.inr rfl) ?_ ?_ ?_ <;> intro hpc <;> cases hpc
  · obtain rfl := Option.some.inj h
    split
    · rename_i hsus
      have hsus : c.pc = .suspended := hsus
      refine clientMoves_of_pc rfl (fun _ => by rw [hsus]; rfl) ?_ ?_ ?_ ?_
      · intro hpc
        rw [hsus] at hpc
        cases hpc
      all_goals intro hpc; cases hpc
    · exact clientMoves_of_pc rfl id Or.inl id id Or.inr

/-- What the client does by itself sends it on. -/
theorem next_moves {c c' : Connection} (h : c.nextStep = some c') : ClientMoves c c' := by
  unfold Connection.nextStep at h
  -- by the place where the client is
  cases hpc : c.pc with
  | sigFail | hskTo | pipeFail =>
    simp only [hpc, Option.some_inj] at h
    subst h
    exact clientMoves_ret (by simp) (by simp [hpc]) (Or.inr rfl)
  | success =>
    simp only [hpc, Option.some_inj] at h
    subst h
    exact clientMoves_ret (fun _ => hpc) (by simp [hpc]) (Or.inl rfl)
  | joining =>
    simp only [hpc] at h
    rcases Option.ite_none_left_eq_some.mp h with ⟨-, h⟩
    obtain rfl := Option.some.inj h
    refine clientMoves_of_pc rfl ?_ ?_ ?_ ?_ ?_ <;> simp [Connection.goto, before, hpc]
  | killing | suspended | openRead | openWrite | authorise | spawnReceiver | exited | killed =>
    simp [hpc] at h
  | waitTest | timeoutTest | sending | teardown =>
    simp only [hpc, Option.some_inj] at h
    subst h
    split <;> refine clientMoves_of_pc rfl ?_ ?_ ?_ ?_ ?_ <;>
      simp [Connection.goto, before, hpc]
  | start | blocked | killFailed | woken | restoring | closing | opened | hskFail =>
    simp only [hpc, Option.some_inj] at h
    subst h
    refine clientMoves_of_pc rfl ?_ ?_ ?_ ?_ ?_ <;>
      simp [Connection.goto, Connection.setStage, before, hpc]

/-- Every step of the client but an `open` sends it on. -/
theorem step_client {l : ClientLbl} {c c' : Connection} (hl : isOpenFifo l = false)
    (h : Connection.step l c = some c') : ClientMoves c c' := by
  -- each label fits one program point, none of them an open
  cases l with
  | deliver sig => exact deliver_moves h
  | next => exact next_moves h
  | openFifo fd => cases hl
  | kill succeeds =>
    simp only [Connection.step] at h
    split at h
    · rename_i hpc
      obtain rfl := Option.some.inj h
      cases succeeds <;> refine clientMoves_of_pc rfl ?_ ?_ ?_ ?_ ?_ <;>
        simp [Connection.goto, before, hpc]
    · cases h
  | authorise accepted =>
    simp only [Connection.step] at h
    split at h
    · rename_i hpc
      rcases accepted with _ | _ | _ <;> obtain rfl := Option.some.inj h <;>
        refine clientMoves_of_pc rfl ?_ ?_ ?_ ?_ ?_ <;>
          simp [Connection.goto, Connection.setStage, before, hpc]
    · cases h
  | spawnReceiver succeeds =>
    simp only [Connection.step] at h
    split at h
    · rename_i hpc
      obtain rfl := Option.some.inj h
      cases succeeds <;> refine clientMoves_of_pc rfl ?_ ?_ ?_ ?_ ?_ <;>
        simp [Connection.goto, before, hpc]
    · cases h
  | inputEnds =>
    simp only [Connection.step] at h
    split at h
    · rename_i hpc
      obtain rfl := Option.some.inj h
      refine clientMoves_of_pc rfl ?_ ?_ ?_ ?_ ?_ <;>
        simp [Connection.goto, Connection.disconnect, Connection.setStage, before, hpc]
    · cases h
  | receiverEnds =>
    simp only [Connection.step] at h
    split at h
    · obtain rfl := Option.some.inj h
      exact clientMoves_of_pc rfl id Or.inl id id Or.inr
    · cases h

/-- An `open` of the client that fails. -/
theorem step_openFifo_none {c c' : Connection} (h : Connection.step (.openFifo none) c = some c') :
    (c'.pc = .hskFail ∨ c'.pc = .closing) ∧ c'.returned = c.returned := by
  simp only [Connection.step] at h
  split at h
  · obtain rfl := Option.some.inj h
    exact ⟨Or.inl rfl, rfl⟩
  · obtain rfl := Option.some.inj h
    exact ⟨Or.inr rfl, rfl⟩
  · cases h

/-- An `open` of the client that goes through. -/
theorem step_openFifo_some {fd : Nat} {c c' : Connection}
    (h : Connection.step (.openFifo (some fd)) c = some c') :
    (c.pc = .openRead ∧ c'.pc = .openWrite ∨ c.pc = .openWrite ∧ c'.pc = .opened) ∧
      c'.returned = c.returned := by
  simp only [Connection.step] at h
  split at h
  · rename_i hpc
    rcases Option.ite_none_left_eq_some.mp h with ⟨-, h⟩
    obtain rfl := Option.some.inj h
    exact ⟨Or.inl ⟨hpc, rfl⟩, rfl⟩
  · rename_i hpc
    rcases Option.ite_none_left_eq_some.mp h with ⟨-, h⟩
    obtain rfl := Option.some.inj h
    exact ⟨Or.inr ⟨hpc, rfl⟩, rfl⟩
  · cases h

/-! ## The invariant -/

/-- What holds between two steps. -/
structure Inv (s : Rendezvous) : Prop where
  wf : s.fifos.WellFormed
  /-- Once the left-over FIFO is unlinked, a name leads to the worker's FIFO or nowhere. -/
  names : ∀ t, HskPc.cleared t s.server = true →
    s.fifos.dir t = if HskPc.swept t s.server then none else s.made t
  fresh : ∀ t, HskPc.cleared t s.server = false → s.made t = none
  held : ∀ d, HskPc.holds d s.server = true →
    ∃ i, s.opened d = some i ∧ s.fifos.desc d = .opened d.mode i
  notHeld : ∀ d, d = .c2sFd ∨ d = .s2cFd → HskPc.holds d s.server = false →
    s.fifos.desc d = .closed
  bound : ∀ t i, s.made t = some i → i < s.fifos.made
  apart : ∀ t u i, s.made t = some i → s.made u = some i → t = u
  ofMade : ∀ d i, s.opened d = some i → s.made d.fifo = some i
  current : ∀ d m i, s.fifos.desc d = .opened m i → s.opened d = some i
  /-- The server opens the c2s FIFO first. -/
  order : s.opened .s2cFd ≠ none → s.opened .c2sFd ≠ none
  placed : ∀ d m i, (s.fifos.desc d).place? = some (m, i) → m = d.mode
  /-- Whom the client meets in its first `open` is the server. -/
  readWaits : ∀ m i met, s.fifos.desc .S_READ = .waiting m i met →
    s.client.pc = .openRead ∧ (met = true → s.opened .s2cFd = some i)
  readOpened : ∀ m i, s.fifos.desc .S_READ = .opened m i → before s.client.pc = false
  /-- The server opens the s2c FIFO only when the client is there. -/
  reader : s.opened .s2cFd ≠ none → before s.client.pc = true →
    ∃ m i, s.fifos.desc .S_READ = .waiting m i true
  writeAt : ∀ m i, (s.fifos.desc .C_WRITE).place? = some (m, i) →
    before s.client.pc = false ∧ s.made .C2S = some i
  writeOpened : ∀ m i, s.fifos.desc .C_WRITE = .opened m i → s.client.pc ≠ .openWrite
  second : s.client.pc = .openWrite → s.opened .S_READ ≠ none ∧ s.opened .s2cFd ≠ none
  both : BothOpened s.client → ∀ d, s.opened d ≠ none

/-- Before the client begins, nothing is open and the left-over names are nobody's. -/
theorem inv_start {s : Rendezvous} (h : Start s) : Inv s where
  wf := wellFormed_of_closed h.named h.single h.closed
  -- nothing is cleared, made or opened yet, so every other field is vacuous
  names := fun t ht => by
    rw [h.server] at ht
    cases t <;> cases ht
  fresh := fun t _ => by rw [h.made]
  held := fun d hd => by
    rw [h.server] at hd
    cases d <;> cases hd
  notHeld := fun d _ _ => h.closed d
  bound := fun t i ht => by simp [h.made] at ht
  apart := fun t u i ht => by simp [h.made] at ht
  ofMade := fun d i hd => by simp [h.opened] at hd
  current := fun d m i hd => by simp [h.closed] at hd
  order := fun hne => by simp [h.opened] at hne
  placed := fun d m i hd => by simp [h.closed, Desc.place?] at hd
  readWaits := fun m i met hd => by simp [h.closed] at hd
  readOpened := fun m i hd => by simp [h.closed] at hd
  reader := fun hne => by simp [h.opened] at hne
  writeAt := fun m i hd => by simp [h.closed, Desc.place?] at hd
  writeOpened := fun m i hd => by simp [h.closed] at hd
  second := fun hpc => by simp [h.client, Connection.init] at hpc
  both := by
    rintro (hpc | hpc | ⟨r, hr, -⟩)
    · simp [h.client, Connection.init] at hpc
    · simp [h.client, Connection.init] at hpc
    · simp [h.client, Connection.init] at hr

variable {s s' : Rendezvous}

/-! ### The client -/

/-- On its way out the client closes its own descriptors and no others. -/
theorem closes_spec (pc pc' : ClientPc) (f : Fifos FifoType FifoFd) :
    (closes pc pc' f).dir = f.dir ∧ (closes pc pc' f).made = f.made ∧
      ∀ d, (closes pc pc' f).desc d = f.desc d ∨
        (d = .S_READ ∨ d = .C_WRITE) ∧ (closes pc pc' f).desc d = .closed := by
  -- one close: its own descriptor, and no other
  have hone : ∀ (g : Fifos FifoType FifoFd) c d, (g.close c).desc d = g.desc d ∨
      d = c ∧ (g.close c).desc d = .closed := by
    intro g c d
    by_cases hd : d = c
    · exact Or.inr ⟨hd, hd ▸ desc_close_self⟩
    · exact Or.inl (desc_close_of_ne hd)
  have hboth : ∀ d, ((f.close .S_READ).close .C_WRITE).desc d = f.desc d ∨
      (d = .S_READ ∨ d = .C_WRITE) ∧ ((f.close .S_READ).close .C_WRITE).desc d = .closed := by
    intro d
    rcases hone (f.close .S_READ) .C_WRITE d with h | ⟨rfl, h⟩
    · rw [h]
      exact (hone f .S_READ d).imp_right fun hd => ⟨Or.inl hd.1, hd.2⟩
    · exact Or.inr ⟨Or.inr rfl, h⟩
  unfold closes
  split
  · exact ⟨rfl, rfl, hboth⟩
  · exact ⟨rfl, rfl, hboth⟩
  · exact ⟨rfl, rfl, hboth⟩
  · exact ⟨rfl, rfl, fun d => (hone f .S_READ d).imp_right fun hd => ⟨Or.inl hd.1, hd.2⟩⟩
  · exact ⟨rfl, rfl, fun d => Or.inl rfl⟩

/-- Closing keeps what is well formed. -/
theorem wellFormed_closes (pc pc' : ClientPc) {f : Fifos FifoType FifoFd} (h : f.WellFormed) :
    (closes pc pc' f).WellFormed := by
  unfold closes
  split
  · exact (h.close _).close _
  · exact (h.close _).close _
  · exact (h.close _).close _
  · exact h.close _
  · exact h

/-- A place that is there after the client has closed something was there before. -/
theorem place_closes (pc pc' : ClientPc) {f : Fifos FifoType FifoFd} {d : FifoFd}
    (h : (closes pc pc' f).desc d ≠ .closed) : (closes pc pc' f).desc d = f.desc d :=
  ((closes_spec pc pc' f).2.2 d).resolve_right fun hc => h hc.2

/-- A step of the client outside `open` keeps the invariant. -/
theorem Inv.clientStep (h : Inv s) {l : ClientLbl} (hl : isOpenFifo l = false)
    (hs : s.clientStep l = some s') : Inv s' := by
  rcases Option.map_eq_some_iff.mp hs with ⟨c, hc, rfl⟩
  have hmoves := step_client hl hc
  have hdesc : ∀ d m i met, (closes s.client.pc c.pc s.fifos).desc d = .waiting m i met →
      s.fifos.desc d = .waiting m i met := fun d m i met hd => by
    rw [← place_closes s.client.pc c.pc (by simp [hd])]
    exact hd
  have hopened : ∀ d m i, (closes s.client.pc c.pc s.fifos).desc d = .opened m i →
      s.fifos.desc d = .opened m i := fun d m i hd => by
    rw [← place_closes s.client.pc c.pc (by simp [hd])]
    exact hd
  have hplace : ∀ d p, ((closes s.client.pc c.pc s.fifos).desc d).place? = some p →
      (s.fifos.desc d).place? = some p := fun d p hd => by
    rw [← place_closes s.client.pc c.pc (fun hn => by simp [hn, Desc.place?] at hd)]
    exact hd
  have hserver : ∀ d, d = .c2sFd ∨ d = .s2cFd →
      (closes s.client.pc c.pc s.fifos).desc d = s.fifos.desc d := fun d hd =>
    ((closes_spec s.client.pc c.pc s.fifos).2.2 d).resolve_right fun hn => by
      rcases hd with rfl | rfl <;> simp at hn
  exact {
    wf := wellFormed_closes _ _ h.wf
    names := fun t ht => by
      rw [(closes_spec s.client.pc c.pc s.fifos).1]
      exact h.names t ht
    fresh := h.fresh
    held := fun d hd => by
      have hd' : d = .c2sFd ∨ d = .s2cFd := by
        cases d <;> simp [HskPc.holds] at hd ⊢
      rw [hserver d hd']
      exact h.held d hd
    notHeld := fun d hd hn => by
      rw [hserver d hd]
      exact h.notHeld d hd hn
    bound := fun t i ht => by
      rw [(closes_spec s.client.pc c.pc s.fifos).2.1]
      exact h.bound t i ht
    apart := h.apart
    ofMade := h.ofMade
    current := fun d m i hd => h.current d m i (hopened d m i hd)
    order := h.order
    placed := fun d m i hd => h.placed d m i (hplace d _ hd)
    readWaits := fun m i met hd => by
      rcases h.readWaits m i met (hdesc _ _ _ _ hd) with ⟨hpc, hmet⟩
      -- the client has moved on or closed its descriptors; the server is where it was
      refine ⟨(hmoves.openRead hpc).resolve_right fun hk => ?_, hmet⟩
      -- the end of the process ends the wait
      have hk : c.pc = .killed := hk
      simp [closes, hk, desc_close_of_ne] at hd
    readOpened := fun m i hd => by
      refine Bool.eq_false_iff.mpr fun hb => ?_
      have hold' := h.readOpened m i (hopened _ _ _ hd)
      rw [hmoves.before hb] at hold'
      cases hold'
    reader := fun hne hb => by
      rcases h.reader hne (hmoves.before hb) with ⟨m, i, hd⟩
      have hpc := (h.readWaits m i true hd).1
      have hpc' := (hmoves.openRead hpc).resolve_right fun hk => by
        rw [show before c.pc = before .killed from congrArg before hk] at hb
        cases hb
      refine ⟨m, i, ?_⟩
      show (closes s.client.pc c.pc s.fifos).desc _ = _
      rw [hpc, hpc']
      exact hd
    writeAt := fun m i hd => by
      rcases h.writeAt m i (hplace _ _ hd) with ⟨hb, hmade⟩
      refine ⟨Bool.eq_false_iff.mpr fun hb' => ?_, hmade⟩
      rw [hmoves.before hb'] at hb
      cases hb
    writeOpened := fun m i hd hpc => h.writeOpened m i (hopened _ _ _ hd) (hmoves.openWrite hpc)
    second := fun hpc => h.second (hmoves.openWrite hpc)
    both := fun hb => h.both (hmoves.both hb) }

/-- There are two places at which the client opens. -/
theorem opening_cases {pc : ClientPc} {d : FifoFd} (h : opening pc = some d) :
    pc = .openRead ∧ d = .S_READ ∨ pc = .openWrite ∧ d = .C_WRITE := by
  cases pc <;> simp [opening, eq_comm] at h ⊢ <;> exact h

/-- The server does not wait in an `open`. -/
theorem Inv.server_cases (h : Inv s) {d : FifoFd} (hd : d = .c2sFd ∨ d = .s2cFd) :
    HskPc.holds d s.server = false ∧ s.fifos.desc d = .closed ∨
      ∃ i, s.opened d = some i ∧ s.fifos.desc d = .opened d.mode i := by
  cases hh : HskPc.holds d s.server with
  | false => exact Or.inl ⟨rfl, h.notHeld d hd hh⟩
  | true => exact Or.inr (h.held d hh)

/-- The server does not wait, so nobody's coming changes its descriptors. -/
theorem Inv.server_meet (h : Inv s) {d : FifoFd} (hd : d = .c2sFd ∨ d = .s2cFd) (m : Mode)
    (i : Nat) : (s.fifos.desc d).meet m i = s.fifos.desc d := by
  rcases h.server_cases hd with ⟨-, hc⟩ | ⟨j, -, ho⟩
  · rw [hc]
    rfl
  · rw [ho]
    rfl

/-- An `open` that fails sends the client to `hsk_fail` or to closing. -/
theorem Inv.openFailed (h : Inv s)
    (hclosed : ∀ d, opening s.client.pc = some d → s.fifos.desc d = .closed)
    (hs : s.openFailed = some s') : Inv s' := by
  rcases Option.map_eq_some_iff.mp hs with ⟨c, hc, rfl⟩
  rcases step_openFifo_none hc with ⟨hpc, hret⟩
  -- a failed open sends the client to the error path, behind both opens
  have hbefore : before c.pc = false := by rcases hpc with hpc | hpc <;> rw [hpc] <;> rfl
  exact { h with
    readWaits := fun m i met hd => by
      have hread := (h.readWaits m i met hd).1
      rw [hclosed .S_READ (by rw [hread]; rfl)] at hd
      cases hd
    readOpened := fun _ _ _ => hbefore
    reader := fun _ hb => by
      have hb : before c.pc = true := hb
      rw [hbefore] at hb
      cases hb
    writeAt := fun m i hd => ⟨hbefore, (h.writeAt m i hd).2⟩
    writeOpened := fun _ _ _ hw => by
      have hw : c.pc = .openWrite := hw
      rcases hpc with hpc | hpc <;> rw [hpc] at hw <;> cases hw
    second := fun hw => by
      have hw : c.pc = .openWrite := hw
      rcases hpc with hpc | hpc <;> rw [hpc] at hw <;> cases hw
    both := fun hb => by
      rcases hb with hb | hb | ⟨r, hr, herr⟩
      · have hb : c.pc = .opened := hb
        rcases hpc with hpc | hpc <;> rw [hpc] at hb <;> cases hb
      · have hb : c.pc = .success := hb
        rcases hpc with hpc | hpc <;> rw [hpc] at hb <;> cases hb
      · exact h.both (Or.inr (Or.inr ⟨r, hret ▸ hr, herr⟩)) }

/-- An `open` that has met nobody is given up. -/
theorem Inv.abandon (h : Inv s) {d : FifoFd} (hd : opening s.client.pc = some d)
    (hi : s.Interruptible d = true) : Inv { s with fifos := s.fifos.close d } := by
  have hdesc : ∀ c, (s.fifos.close d).desc c = s.fifos.desc c ∨
      c = d ∧ (s.fifos.close d).desc c = .closed := by
    intro c
    by_cases hc : c = d
    · exact Or.inr ⟨hc, hc ▸ desc_close_self⟩
    · exact Or.inl (desc_close_of_ne hc)
  have hplace : ∀ c p, ((s.fifos.close d).desc c).place? = some p →
      (s.fifos.desc c).place? = some p := by
    intro c p hp
    rcases hdesc c with hc | ⟨-, hc⟩
    · rwa [hc] at hp
    · rw [hc] at hp
      cases hp
  have hclient : d ≠ .c2sFd ∧ d ≠ .s2cFd := by
    rcases opening_cases hd with ⟨-, rfl⟩ | ⟨-, rfl⟩ <;> decide
  have hserver : ∀ c, c = .c2sFd ∨ c = .s2cFd → (s.fifos.close d).desc c = s.fifos.desc c :=
    fun c hc => (hdesc c).resolve_right fun hn => by
      rcases hc with rfl | rfl
      · exact hclient.1 hn.1.symm
      · exact hclient.2 hn.1.symm
  exact { h with
    wf := h.wf.close d
    held := fun c hc => by
      have hc' : c = .c2sFd ∨ c = .s2cFd := by
        cases c <;> simp [HskPc.holds] at hc ⊢
      rw [hserver c hc']
      exact h.held c hc
    notHeld := fun c hc hn => by
      rw [hserver c hc]
      exact h.notHeld c hc hn
    current := fun c m i hc => by
      rcases hdesc c with hold | ⟨-, hcl⟩
      · exact h.current c m i (hold ▸ hc)
      · have hc : (s.fifos.close d).desc c = .opened m i := hc
        rw [hcl] at hc
        cases hc
    placed := fun c m i hc => h.placed c m i (hplace c _ hc)
    readWaits := fun m i met hc => by
      rcases hdesc .S_READ with hold | ⟨-, hcl⟩
      · exact h.readWaits m i met (hold ▸ hc)
      · have hc : (s.fifos.close d).desc .S_READ = .waiting m i met := hc
        rw [hcl] at hc
        cases hc
    readOpened := fun m i hc => by
      rcases hdesc .S_READ with hold | ⟨-, hcl⟩
      · exact h.readOpened m i (hold ▸ hc)
      · have hc : (s.fifos.close d).desc .S_READ = .opened m i := hc
        rw [hcl] at hc
        cases hc
    reader := fun hne hb => by
      rcases h.reader hne hb with ⟨m, i, hw⟩
      -- who has met the server goes through
      have hread := (h.readWaits m i true hw).1
      rcases opening_cases hd with ⟨-, rfl⟩ | ⟨hpc, -⟩
      · simp [Interruptible, hw] at hi
      · rw [hpc] at hread
        cases hread
    writeAt := fun m i hc => h.writeAt m i (hplace _ _ hc)
    writeOpened := fun m i hc => by
      rcases hdesc .C_WRITE with hold | ⟨-, hcl⟩
      · exact h.writeOpened m i (hold ▸ hc)
      · have hc : (s.fifos.close d).desc .C_WRITE = .opened m i := hc
        rw [hcl] at hc
        cases hc }

/-- Who is at the writing end when the client is at its first `open`. -/
theorem Inv.present_write (h : Inv s) (hb : before s.client.pc = true) {i : Nat}
    (hp : s.fifos.Present .write i) : s.opened .s2cFd = some i := by
  rcases hp with ⟨d, hd⟩
  have hmode := h.placed d _ _ hd
  -- of the two writing descriptors the client's is not open yet
  cases d with
  | c2sFd | S_READ => cases hmode
  | s2cFd =>
    rcases h.server_cases (d := .s2cFd) (Or.inr rfl) with ⟨-, hc⟩ | ⟨j, ho, hdesc⟩
    · rw [hc] at hd
      cases hd
    · rw [hdesc] at hd
      obtain rfl := (Prod.mk.inj (Option.some.inj hd)).2
      exact ho
  | C_WRITE =>
    rw [(h.writeAt _ _ hd).1] at hb
    cases hb

/-- At the second `open` of the client, the name leads to the worker's FIFO or nowhere. -/
theorem Inv.made_of_openWrite (h : Inv s) (hpc : s.client.pc = .openWrite) {i : Nat}
    (hdir : s.fifos.dir .C2S = some i) : s.made .C2S = some i := by
  have hcleared : HskPc.cleared .C2S s.server = true := by
    by_contra hn
    have hmade := h.fresh .C2S (Bool.eq_false_iff.mpr hn)
    rcases Option.ne_none_iff_exists'.mp (h.order (h.second hpc).2) with ⟨j, hj⟩
    have hj' := h.ofMade .c2sFd j hj
    rw [show FifoFd.c2sFd.fifo = .C2S from rfl, hmade] at hj'
    cases hj'
  have hname := h.names .C2S hcleared
  rw [hdir] at hname
  split at hname
  · cases hname
  · exact hname.symm

/-- An `open` of the client begins to wait. -/
theorem Inv.begin (h : Inv s) {d : FifoFd} (hd : opening s.client.pc = some d)
    (hclosed : s.fifos.desc d = .closed) {f : Fifos FifoType FifoFd}
    (hf : s.fifos.openBlocking d d.mode d.fifo = some f) (interrupted : Bool) :
    Inv { s with fifos := f, interrupted } := by
  have hwf := h.wf.openBlocking hf
  rcases openBlocking_eq_some.mp hf with ⟨i, hdir, rfl⟩
  have hclient : d ≠ .c2sFd ∧ d ≠ .s2cFd := by
    rcases opening_cases hd with ⟨-, rfl⟩ | ⟨-, rfl⟩ <;> decide
  have hserver : ∀ c, c = .c2sFd ∨ c = .s2cFd →
      (s.fifos.arrive d d.mode i (.waiting d.mode i (decide (s.fifos.Present d.mode.other i)))).desc
        c = s.fifos.desc c := fun c hc => by
    have hne : c ≠ d := by
      rintro rfl
      rcases hc with rfl | rfl
      · exact hclient.1 rfl
      · exact hclient.2 rfl
    rw [desc_arrive_of_ne hne, h.server_meet hc]
  exact { h with
    wf := hwf
    held := fun c hc => by
      have hc' : c = .c2sFd ∨ c = .s2cFd := by
        cases c <;> simp [HskPc.holds] at hc ⊢
      rw [hserver c hc']
      exact h.held c hc
    notHeld := fun c hc hn => by
      rw [hserver c hc]
      exact h.notHeld c hc hn
    current := fun c m j hc => by
      by_cases hcd : c = d
      · subst hcd
        rw [desc_arrive_self] at hc
        cases hc
      · rw [desc_arrive_of_ne hcd, Desc.meet_eq_opened] at hc
        exact h.current c m j hc
    placed := fun c m j hc => by
      by_cases hcd : c = d
      · subst hcd
        rw [desc_arrive_self] at hc
        exact (Prod.mk.inj (Option.some.inj hc)).1.symm
      · rw [desc_arrive_of_ne hcd, Desc.place_meet] at hc
        exact h.placed c m j hc
    readWaits := fun m j met hc => by
      rcases opening_cases hd with ⟨hpc, rfl⟩ | ⟨hpc, rfl⟩
      · rw [desc_arrive_self] at hc
        simp only [Desc.waiting.injEq] at hc
        rcases hc with ⟨-, rfl, rfl⟩
        refine ⟨hpc, fun hmet => h.present_write (by rw [hpc]; rfl) ?_⟩
        exact of_decide_eq_true hmet
      · -- the client waits for one FIFO at a time
        rw [desc_arrive_of_ne (by decide)] at hc
        cases hold : s.fifos.desc .S_READ with
        | closed => simp [hold] at hc
        | opened m' j' => simp [hold] at hc
        | waiting m' j' met' =>
          have hread := (h.readWaits m' j' met' hold).1
          rw [hpc] at hread
          cases hread
    readOpened := fun m j hc => by
      rcases opening_cases hd with ⟨-, rfl⟩ | ⟨hpc, -⟩
      · rw [desc_arrive_self] at hc
        cases hc
      · show before s.client.pc = false
        rw [hpc]
        rfl
    reader := fun hne hb => by
      rcases h.reader hne hb with ⟨m, j, hw⟩
      have hread := (h.readWaits m j true hw).1
      rcases opening_cases hd with ⟨-, rfl⟩ | ⟨hpc, -⟩
      · rw [hclosed] at hw
        cases hw
      · rw [hpc] at hread
        cases hread
    writeAt := fun m j hc => by
      rcases opening_cases hd with ⟨-, rfl⟩ | ⟨hpc, rfl⟩
      · rw [desc_arrive_of_ne (by decide), Desc.place_meet] at hc
        exact h.writeAt m j hc
      · rw [desc_arrive_self] at hc
        obtain rfl := (Prod.mk.inj (Option.some.inj hc)).2
        exact ⟨by rw [hpc]; rfl, h.made_of_openWrite hpc hdir⟩
    writeOpened := fun m j hc hw => by
      have hw : s.client.pc = .openWrite := hw
      rcases opening_cases hd with ⟨hpc, -⟩ | ⟨-, rfl⟩
      · rw [hpc] at hw
        cases hw
      · rw [desc_arrive_self] at hc
        cases hc }

/-- The books gain an entry. -/
theorem ne_none_update {opened : FifoFd → Option Nat} {d e : FifoFd} {i : Nat}
    (h : opened e ≠ none) : Function.update opened d (some i) e ≠ none := by
  by_cases hed : e = d
  · subst hed
    rw [Function.update_self]
    exact Option.some_ne_none i
  · rwa [Function.update_of_ne hed]

/-- The books gain the entry of a descriptor that is open at the worker's FIFO. -/
theorem Inv.ofMade_update (h : Inv s) {d : FifoFd} {i : Nat} (hmade : s.made d.fifo = some i)
    (e : FifoFd) (j : Nat) (he : Function.update s.opened d (some i) e = some j) :
    s.made e.fifo = some j := by
  by_cases hed : e = d
  · subst hed
    rw [Function.update_self] at he
    obtain rfl := Option.some.inj he
    exact hmade
  · rw [Function.update_of_ne hed] at he
    exact h.ofMade e j he

/-- One descriptor is opened and no other one becomes open: the books say where each is. -/
theorem Inv.current_update (h : Inv s) {d : FifoFd} {i : Nat} {desc : FifoFd → Desc}
    (hself : desc d = .opened d.mode i)
    (hother : ∀ e, e ≠ d → ∀ m j, desc e = .opened m j → s.fifos.desc e = .opened m j)
    (e : FifoFd) (m : Mode) (j : Nat) (he : desc e = .opened m j) :
    Function.update s.opened d (some i) e = some j := by
  by_cases hed : e = d
  · subst hed
    rw [hself] at he
    cases he
    rw [Function.update_self]
  · rw [Function.update_of_ne hed]
    exact h.current e m j (hother e hed m j he)

/-- One descriptor is opened in its own mode, the others stay where they are. -/
theorem Inv.placed_update (h : Inv s) {d : FifoFd} {i : Nat} {desc : FifoFd → Desc}
    (hself : desc d = .opened d.mode i)
    (hother : ∀ e, e ≠ d → (desc e).place? = (s.fifos.desc e).place?)
    (e : FifoFd) (m : Mode) (j : Nat) (he : (desc e).place? = some (m, j)) : m = e.mode := by
  by_cases hed : e = d
  · subst hed
    rw [hself] at he
    exact (Prod.mk.inj (Option.some.inj he)).1.symm
  · exact h.placed e m j (hother e hed ▸ he)

/-- An `open` of the client has returned the inode of the worker's FIFO. What depends on which
of the two it was is left to the caller. -/
theorem Inv.opened_client (h : Inv s) {d : FifoFd} {i : Nat} {c : Connection}
    (hclient : d ≠ .c2sFd ∧ d ≠ .s2cFd) (hfinish : s.fifos.finishOpen d =
      some (s.fifos.set d (.opened d.mode i))) (hmade : s.made d.fifo = some i)
    (hc2s : s.opened .c2sFd ≠ none) (hbefore : before c.pc = false)
    (hread : ∀ m j met, (s.fifos.set d (.opened d.mode i)).desc .S_READ ≠ .waiting m j met)
    (hwrite : ∀ m j, ((s.fifos.set d (.opened d.mode i)).desc .C_WRITE).place? = some (m, j) →
      s.made .C2S = some j)
    (hdone : ∀ m j, (s.fifos.set d (.opened d.mode i)).desc .C_WRITE = .opened m j →
      c.pc ≠ .openWrite)
    (hsecond : c.pc = .openWrite → Function.update s.opened d (some i) .S_READ ≠ none ∧
      Function.update s.opened d (some i) .s2cFd ≠ none)
    (hboth : BothOpened c → ∀ e, Function.update s.opened d (some i) e ≠ none) :
    Inv { s with
      client := c
      fifos := s.fifos.set d (.opened d.mode i)
      opened := Function.update s.opened d (some i) } := by
  -- the descriptors of the server are not the one that is opened
  have hserver : ∀ e, e = .c2sFd ∨ e = .s2cFd → e ≠ d := by
    rintro e he rfl
    rcases he with rfl | rfl
    · exact hclient.1 rfl
    · exact hclient.2 rfl
  exact { h with
    wf := h.wf.finishOpen hfinish
    held := fun e he => by
      have hne : e ≠ d := hserver e (by cases e <;> simp [HskPc.holds] at he ⊢)
      show ∃ j, Function.update s.opened d _ e = some j ∧ (s.fifos.set d _).desc e = _
      rw [Function.update_of_ne hne, desc_set_of_ne hne]
      exact h.held e he
    notHeld := fun e he hn => by
      rw [desc_set_of_ne (hserver e he)]
      exact h.notHeld e he hn
    current := h.current_update desc_set_self fun e hed m j he => by
      rwa [desc_set_of_ne hed] at he
    ofMade := h.ofMade_update hmade
    order := fun _ => ne_none_update hc2s
    placed := h.placed_update desc_set_self fun e hed => by rw [desc_set_of_ne hed]
    readWaits := fun m j met he => absurd he (hread m j met)
    readOpened := fun _ _ _ => hbefore
    reader := fun _ hb => by
      have hb : before c.pc = true := hb
      rw [hbefore] at hb
      cases hb
    writeAt := fun m j he => ⟨hbefore, hwrite m j he⟩
    writeOpened := hdone
    second := hsecond
    both := hboth }

/-- The first `open` of the client goes through: it has met the server. -/
theorem Inv.return_read (h : Inv s) (hpc : s.client.pc = .openRead) {i : Nat}
    (hw : s.fifos.desc .S_READ = .waiting .read i true) {c : Connection}
    (hnext : c.pc = .openWrite) (hret : c.returned = s.client.returned) :
    Inv { s with
      client := c
      fifos := s.fifos.set .S_READ (.opened .read i)
      opened := Function.update s.opened .S_READ (some i) } := by
  have hmet : s.opened .s2cFd = some i := (h.readWaits _ _ _ hw).2 rfl
  have hs2c : s.opened .s2cFd ≠ none := by simp [hmet]
  refine h.opened_client (d := .S_READ) (by decide) (finishOpen_eq_some.mpr ⟨_, i, hw, rfl⟩)
    (h.ofMade .s2cFd i hmet) (h.order hs2c) (by rw [hnext]; rfl) ?_ ?_ ?_ ?_ ?_
  · intro m j met he
    rw [desc_set_self] at he
    cases he
  · intro m j he
    rw [desc_set_of_ne (by decide)] at he
    exact (h.writeAt m j he).2
  · -- the other `open` has not even begun
    intro m j he
    rw [desc_set_of_ne (by decide)] at he
    have hb := (h.writeAt m j (by rw [he]; rfl)).1
    rw [hpc] at hb
    cases hb
  · exact fun _ => ⟨by simp, ne_none_update hs2c⟩
  · rintro (hb | hb | ⟨r, hr, herr⟩)
    · rw [hnext] at hb
      cases hb
    · rw [hnext] at hb
      cases hb
    · exact fun e => ne_none_update (h.both (Or.inr (Or.inr ⟨r, hret ▸ hr, herr⟩)) e)

/-- The second `open` of the client goes through, and all four ends have been opened. -/
theorem Inv.return_write (h : Inv s) (hpc : s.client.pc = .openWrite) {i : Nat}
    (hw : s.fifos.desc .C_WRITE = .waiting .write i true) {c : Connection}
    (hnext : c.pc = .opened) :
    Inv { s with
      client := c
      fifos := s.fifos.set .C_WRITE (.opened .write i)
      opened := Function.update s.opened .C_WRITE (some i) } := by
  rcases h.second hpc with ⟨hread, hs2c⟩
  have hmade : s.made .C2S = some i := (h.writeAt _ _ (by rw [hw]; rfl)).2
  refine h.opened_client (d := .C_WRITE) (by decide) (finishOpen_eq_some.mpr ⟨_, i, hw, rfl⟩)
    hmade (h.order hs2c) (by rw [hnext]; rfl) ?_ ?_ ?_ ?_ ?_
  · intro m j met he
    rw [desc_set_of_ne (by decide)] at he
    have hfirst := (h.readWaits m j met he).1
    rw [hpc] at hfirst
    cases hfirst
  · intro m j he
    rw [desc_set_self] at he
    obtain rfl := (Prod.mk.inj (Option.some.inj he)).2
    exact hmade
  · intro _ _ _ hback
    rw [hnext] at hback
    cases hback
  · intro hback
    rw [hnext] at hback
    cases hback
  · -- the last of the four: the other three were opened before
    intro _ e
    cases e with
    | C_WRITE => simp
    | c2sFd => exact ne_none_update (h.order hs2c)
    | s2cFd => exact ne_none_update hs2c
    | S_READ => exact ne_none_update hread

/-- An `open` of the client goes through. -/
theorem Inv.return (h : Inv s) {d : FifoFd} (hd : opening s.client.pc = some d) {fd : Nat}
    (hs : s.returnOpen d fd = some s') : Inv s' := by
  unfold returnOpen at hs
  split at hs
  swap
  · cases hs
  rename_i f c hf hc
  obtain rfl := Option.some.inj hs
  rcases finishOpen_eq_some.mp hf with ⟨m, i, hw, rfl⟩
  rcases step_openFifo_some hc with ⟨hpcs, hret⟩
  obtain rfl : m = d.mode := h.placed d m i (by rw [hw]; rfl)
  -- the inode recorded is the one the call waited at
  have hinode : (s.fifos.desc d).place?.map Prod.snd = some i := by
    rw [hw]
    rfl
  rw [hinode]
  rcases opening_cases hd with ⟨hpc, rfl⟩ | ⟨hpc, rfl⟩
  · rcases hpcs with ⟨-, hnext⟩ | ⟨hpc', -⟩
    · exact h.return_read hpc hw hnext hret
    · rw [hpc] at hpc'
      cases hpc'
  · rcases hpcs with ⟨hpc', -⟩ | ⟨-, hnext⟩
    · rw [hpc] at hpc'
      cases hpc'
    · exact h.return_write hpc hw hnext

end AnimateServer.Rendezvous
