import Mathlib.Data.Fintype.EquivFin
import AnimateServer.Verify.RendezvousClient

/-!
# The server's part of the rendezvous, and what comes of it

Whom the server finds at the s2c FIFO is the client in its first `open`, so the two processes
meet at the FIFOs that the worker has made and nowhere else. While the server holds its two
ends the client gets through on its own, and whatever the client does the server comes to an
end.
-/

namespace AnimateServer.Rendezvous

open NamedFifo NamedFifo.Fifos Transition
open Client (ClientLbl ClientPc Connection)

variable {s s' : Rendezvous}

/-! ### The server -/

/-- Going on without a system call on the FIFOs. -/
theorem Inv.goto (h : Inv s) {pc : HskPc}
    (hcleared : ∀ t, HskPc.cleared t pc = HskPc.cleared t s.server)
    (hswept : ∀ t, HskPc.swept t pc = HskPc.swept t s.server)
    (hholds : ∀ d, HskPc.holds d pc = HskPc.holds d s.server) : Inv (s.goto pc) :=
  { h with
    names := fun t ht => by
      have ht : HskPc.cleared t pc = true := ht
      show s.fifos.dir t = if HskPc.swept t pc then none else s.made t
      rw [hswept t]
      exact h.names t (hcleared t ▸ ht)
    fresh := fun t ht => h.fresh t (hcleared t ▸ ht)
    held := fun d hd => h.held d (hholds d ▸ hd)
    notHeld := fun d hd hn => h.notHeld d hd (hholds d ▸ hn) }

/-- Unlinking the FIFO `t`, either the left-over one or the worker's. -/
theorem Inv.unlink (h : Inv s) {t : FifoType} {pc : HskPc}
    (hcleared : ∀ u, u ≠ t → HskPc.cleared u pc = HskPc.cleared u s.server)
    (hswept : ∀ u, u ≠ t → HskPc.swept u pc = HskPc.swept u s.server)
    (hholds : ∀ d, HskPc.holds d pc = HskPc.holds d s.server)
    (ht : HskPc.cleared t pc = true) (hmade : HskPc.swept t pc = false → s.made t = none) :
    Inv ({ s with fifos := s.fifos.unlink t }.goto pc) :=
  { h with
    wf := h.wf.unlink t
    names := fun u hu => by
      show (s.fifos.unlink t).dir u = if HskPc.swept u pc then none else s.made u
      -- the other name is as it was, this one is gone
      by_cases hut : u = t
      · subst hut
        rw [dir_unlink_self]
        split
        · rfl
        · rename_i hsw
          exact (hmade (Bool.eq_false_iff.mpr hsw)).symm
      · rw [dir_unlink_of_ne hut, hswept u hut]
        exact h.names u (hcleared u hut ▸ hu)
    fresh := fun u hu => by
      have hu : HskPc.cleared u pc = false := hu
      have hut : u ≠ t := fun heq => by
        rw [heq, ht] at hu
        cases hu
      exact h.fresh u (hcleared u hut ▸ hu)
    held := fun d hd => h.held d (hholds d ▸ hd)
    notHeld := fun d hd hn => h.notHeld d hd (hholds d ▸ hn) }

/-- The worker makes the FIFO `t`, or gives up. -/
theorem Inv.make (h : Inv s) {succeeds : Bool} {t : FifoType} {pc : HskPc}
    (hpcs : ∀ pc', pc' = pc ∨ pc' = .failC2s →
      (∀ u, HskPc.cleared u pc' = HskPc.cleared u s.server) ∧
      (∀ u, HskPc.swept u pc' = HskPc.swept u s.server) ∧
      ∀ d, HskPc.holds d pc' = HskPc.holds d s.server)
    (hcl : HskPc.cleared t s.server = true) (hsw : HskPc.swept t s.server = false) :
    Inv (s.make succeeds t pc) := by
  unfold Rendezvous.make
  split
  swap
  · rcases hpcs .failC2s (Or.inr rfl) with ⟨h₁, h₂, h₃⟩
    exact h.goto h₁ h₂ h₃
  rename_i f hf
  rcases Option.ite_none_right_eq_some.mp hf with ⟨-, hf⟩
  have hwf := h.wf.mkfifo hf
  rcases mkfifo_eq_some.mp hf with ⟨hnone, rfl⟩
  have hmade : s.made t = none := by
    have hname := h.names t hcl
    rw [hsw, hnone] at hname
    exact hname.symm
  have hkeep : ∀ u i, s.made u = some i → u ≠ t := by
    rintro u i hu rfl
    rw [hmade] at hu
    cases hu
  -- the new inode is different from all the others
  have hnew : ∀ u i, Function.update s.made t ((s.fifos.link t).dir t) u = some i →
      u = t ∧ i = s.fifos.made ∨ u ≠ t ∧ s.made u = some i := by
    intro u i hu
    by_cases hut : u = t
    · subst hut
      rw [Function.update_self, dir_link_self] at hu
      exact Or.inl ⟨rfl, (Option.some.inj hu).symm⟩
    · rw [Function.update_of_ne hut] at hu
      exact Or.inr ⟨hut, hu⟩
  rcases hpcs pc (Or.inl rfl) with ⟨hcleared, hswept, hholds⟩
  refine Inv.goto (s := { s with
    fifos := s.fifos.link t
    made := Function.update s.made t ((s.fifos.link t).dir t) })
    { h with
      wf := hwf, names := ?_, fresh := ?_, bound := ?_, apart := ?_, ofMade := ?_, writeAt := ?_ }
    hcleared hswept hholds
  · intro u hu
    show (s.fifos.link t).dir u =
      if HskPc.swept u s.server then none else Function.update s.made t _ u
    by_cases hut : u = t
    · subst hut
      rw [hsw, Function.update_self]
      rfl
    · rw [dir_link_of_ne hut, Function.update_of_ne hut]
      exact h.names u hu
  · intro u hu
    have hut : u ≠ t := by
      rintro rfl
      rw [hcl] at hu
      cases hu
    show Function.update s.made t _ u = none
    rw [Function.update_of_ne hut]
    exact h.fresh u hu
  · intro u i hu
    exact (hnew u i hu).elim (fun heq => heq.2 ▸ Nat.lt_succ_self _) fun hold =>
      Nat.lt_succ_of_lt (h.bound u i hold.2)
  · intro u v i hu hv
    rcases hnew u i hu with ⟨rfl, rfl⟩ | ⟨-, hold⟩ <;>
      rcases hnew v _ hv with ⟨rfl, hi⟩ | ⟨-, hold'⟩
    · rfl
    · exact absurd (h.bound v _ hold') (Nat.lt_irrefl _)
    · exact absurd (h.bound u _ hold) (hi ▸ Nat.lt_irrefl _)
    · exact h.apart u v i hold hold'
  · intro d i hd
    have hold := h.ofMade d i hd
    show Function.update s.made t _ d.fifo = some i
    rw [Function.update_of_ne (hkeep _ _ hold)]
    exact hold
  · intro m i hd
    rcases h.writeAt m i hd with ⟨hb, hold⟩
    refine ⟨hb, ?_⟩
    show Function.update s.made t _ .C2S = some i
    rw [Function.update_of_ne (hkeep _ _ hold)]
    exact hold

/-- The server closes `d`. -/
theorem Inv.closeFd (h : Inv s) {d : FifoFd} {pc : HskPc} (hd : d = .c2sFd ∨ d = .s2cFd)
    (hcleared : ∀ t, HskPc.cleared t pc = HskPc.cleared t s.server)
    (hswept : ∀ t, HskPc.swept t pc = HskPc.swept t s.server)
    (hself : HskPc.holds d pc = false)
    (hholds : ∀ e, e ≠ d → HskPc.holds e pc = HskPc.holds e s.server) :
    Inv ({ s with fifos := s.fifos.close d }.goto pc) := by
  -- the client's two descriptors are not the one that is closed
  have hread : (s.fifos.close d).desc .S_READ = s.fifos.desc .S_READ :=
    desc_close_of_ne (by rcases hd with rfl | rfl <;> decide)
  have hwrite : (s.fifos.close d).desc .C_WRITE = s.fifos.desc .C_WRITE :=
    desc_close_of_ne (by rcases hd with rfl | rfl <;> decide)
  exact { h with
    wf := h.wf.close d
    names := fun t ht => by
      have ht : HskPc.cleared t pc = true := ht
      show s.fifos.dir t = if HskPc.swept t pc then none else s.made t
      rw [hswept t]
      exact h.names t (hcleared t ▸ ht)
    fresh := fun t ht => h.fresh t (hcleared t ▸ ht)
    held := fun e he => by
      have he : HskPc.holds e pc = true := he
      have hne : e ≠ d := fun heq => by
        rw [heq, hself] at he
        cases he
      show ∃ i, s.opened e = some i ∧ (s.fifos.close d).desc e = .opened e.mode i
      rw [desc_close_of_ne hne]
      exact h.held e (hholds e hne ▸ he)
    notHeld := fun e he hn => by
      show (s.fifos.close d).desc e = .closed
      by_cases hne : e = d
      · subst hne
        exact desc_close_self
      · rw [desc_close_of_ne hne]
        exact h.notHeld e he (hholds e hne ▸ hn)
    current := fun e m i he => by
      have he : (s.fifos.close d).desc e = .opened m i := he
      by_cases hne : e = d
      · subst hne
        rw [desc_close_self] at he
        cases he
      · rw [desc_close_of_ne hne] at he
        exact h.current e m i he
    placed := fun e m i he => by
      have he : ((s.fifos.close d).desc e).place? = some (m, i) := he
      by_cases hne : e = d
      · subst hne
        rw [desc_close_self] at he
        cases he
      · rw [desc_close_of_ne hne] at he
        exact h.placed e m i he
    readWaits := fun m i met he => h.readWaits m i met (hread ▸ he)
    readOpened := fun m i he => h.readOpened m i (hread ▸ he)
    reader := fun hne hb => by
      rcases h.reader hne hb with ⟨m, i, hw⟩
      exact ⟨m, i, hread.trans hw⟩
    writeAt := fun m i he => h.writeAt m i (hwrite ▸ he)
    writeOpened := fun m i he => h.writeOpened m i (hwrite ▸ he) }

/-- Who comes to an end changes nothing for a client that waits at the other one's side. -/
theorem Inv.meet_read (h : Inv s) (i : Nat) :
    (s.fifos.desc .S_READ).meet .read i = s.fifos.desc .S_READ := by
  cases hdesc : s.fifos.desc .S_READ with
  | closed | opened => rfl
  | waiting m j met =>
    obtain rfl := h.placed .S_READ m j (by rw [hdesc]; rfl)
    simp [Desc.meet, FifoFd.mode, Mode.other]

/-- What the server has open is open, with `d` among it. -/
theorem Inv.held_arrive (h : Inv s) {d : FifoFd} {i : Nat} {pc : HskPc}
    (hholds : ∀ e, e ≠ d → HskPc.holds e pc = HskPc.holds e s.server) (e : FifoFd)
    (he : HskPc.holds e pc = true) :
    ∃ j, Function.update s.opened d (some i) e = some j ∧
      (s.fifos.arrive d d.mode i (.opened d.mode i)).desc e = .opened e.mode j := by
  by_cases hed : e = d
  · subst hed
    rw [Function.update_self, desc_arrive_self]
    exact ⟨i, rfl, rfl⟩
  · have he : HskPc.holds e s.server = true := hholds e hed ▸ he
    have hserver : e = .c2sFd ∨ e = .s2cFd := by cases e <;> simp [HskPc.holds] at he ⊢
    rw [Function.update_of_ne hed, desc_arrive_of_ne hed, h.server_meet hserver]
    exact h.held e he

/-- A client that waits in its first `open` has met the server, or meets it now. -/
theorem Inv.readWaits_arrive (h : Inv s) {d : FifoFd} {i : Nat} (hd : d = .c2sFd ∨ d = .s2cFd)
    (hmade : s.made d.fifo = some i) (m : Mode) (j : Nat) (met : Bool)
    (he : (s.fifos.arrive d d.mode i (.opened d.mode i)).desc .S_READ = .waiting m j met) :
    s.client.pc = .openRead ∧
      (met = true → Function.update s.opened d (some i) .s2cFd = some j) := by
  rw [desc_arrive_of_ne (by rcases hd with rfl | rfl <;> decide)] at he
  rcases hd with rfl | rfl
  · exact h.readWaits m j met (h.meet_read i ▸ he)
  · cases hdesc : s.fifos.desc .S_READ with
    | closed => simp [hdesc] at he
    | opened m' j' => simp [hdesc] at he
    | waiting m' j' met' =>
      rcases h.readWaits m' j' met' hdesc with ⟨hpc, hmet⟩
      simp only [hdesc, Desc.meet, Desc.waiting.injEq] at he
      rcases he with ⟨rfl, rfl, rfl⟩
      refine ⟨hpc, fun hm => ?_⟩
      rw [Function.update_self]
      rcases Bool.or_eq_true_iff.mp hm with hold | hnew
      · exact hmade.symm.trans (h.ofMade _ _ (hmet hold))
      · rw [(of_decide_eq_true hnew).2]

/-- The server opens an end of the worker's FIFO. -/
theorem Inv.openFd (h : Inv s) {d : FifoFd} {f : Fifos FifoType FifoFd} {pc : HskPc}
    (hd : d = .c2sFd ∨ d = .s2cFd) (hopen : s.fifos.openNonblock d d.mode d.fifo = .ok f)
    (hcl : HskPc.cleared d.fifo s.server = true) (hsw : HskPc.swept d.fifo s.server = false)
    (hcleared : ∀ t, HskPc.cleared t pc = HskPc.cleared t s.server)
    (hswept : ∀ t, HskPc.swept t pc = HskPc.swept t s.server)
    (hself : HskPc.holds d pc = true)
    (hholds : ∀ e, e ≠ d → HskPc.holds e pc = HskPc.holds e s.server)
    (horder : d = .s2cFd → s.opened .c2sFd ≠ none)
    (hreader : d = .s2cFd ∨ s.opened .s2cFd ≠ none → before s.client.pc = true →
      ∃ m i, f.desc .S_READ = .waiting m i true) :
    Inv ((s.openedAt d f).goto pc) := by
  have hwf := h.wf.openNonblock hopen
  rcases openNonblock_eq_ok.mp hopen with ⟨i, hdir, -, rfl⟩
  have hmade : s.made d.fifo = some i := by
    have hname := h.names _ hcl
    rw [hsw, hdir] at hname
    exact hname.symm
  have hread : FifoFd.S_READ ≠ d := by rcases hd with rfl | rfl <;> decide
  have hwrite : FifoFd.C_WRITE ≠ d := by rcases hd with rfl | rfl <;> decide
  unfold openedAt
  rw [hdir]
  exact {
    wf := hwf
    names := fun t ht => by
      have ht : HskPc.cleared t pc = true := ht
      show s.fifos.dir t = if HskPc.swept t pc then none else s.made t
      rw [hswept t]
      exact h.names t (hcleared t ▸ ht)
    fresh := fun t ht => h.fresh t (hcleared t ▸ ht)
    held := h.held_arrive hholds
    notHeld := fun e he hn => by
      have hn : HskPc.holds e pc = false := hn
      have hed : e ≠ d := fun heq => by
        rw [heq, hself] at hn
        cases hn
      show (s.fifos.arrive d d.mode i _).desc e = .closed
      rw [desc_arrive_of_ne hed, h.server_meet he]
      exact h.notHeld e he (hholds e hed ▸ hn)
    bound := h.bound
    apart := h.apart
    ofMade := h.ofMade_update hmade
    -- whoever waits at the other end is let go, which opens nothing yet
    current := h.current_update desc_arrive_self fun e hed m j he => by
      have he : (s.fifos.arrive d d.mode i (.opened d.mode i)).desc e = .opened m j := he
      rwa [desc_arrive_of_ne hed, Desc.meet_eq_opened] at he
    order := fun _ => by
      show Function.update s.opened d (some i) .c2sFd ≠ none
      rcases hd with rfl | rfl
      · simp
      · exact ne_none_update (horder rfl)
    placed := h.placed_update desc_arrive_self fun e hed => by
      show ((s.fifos.arrive d d.mode i _).desc e).place? = _
      rw [desc_arrive_of_ne hed, Desc.place_meet]
    readWaits := h.readWaits_arrive hd hmade
    readOpened := fun m j he => by
      have he : (s.fifos.arrive d d.mode i (.opened d.mode i)).desc .S_READ = .opened m j := he
      rw [desc_arrive_of_ne hread, Desc.meet_eq_opened] at he
      exact h.readOpened m j he
    reader := fun he hb => by
      refine hreader ?_ hb
      by_contra hn
      rw [not_or] at hn
      have he : Function.update s.opened d (some i) .s2cFd ≠ none := he
      rw [Function.update_of_ne (Ne.symm hn.1)] at he
      exact hn.2 he
    writeAt := fun m j he => by
      have he : ((s.fifos.arrive d d.mode i (.opened d.mode i)).desc .C_WRITE).place? =
          some (m, j) := he
      rw [desc_arrive_of_ne hwrite, Desc.place_meet] at he
      exact h.writeAt m j he
    writeOpened := fun m j he => by
      have he : (s.fifos.arrive d d.mode i (.opened d.mode i)).desc .C_WRITE = .opened m j := he
      rw [desc_arrive_of_ne hwrite, Desc.meet_eq_opened] at he
      exact h.writeOpened m j he
    second := fun hpc => (h.second hpc).imp ne_none_update ne_none_update
    both := fun hb e => ne_none_update (h.both hb e) }

/-- Whom the server finds at the s2c FIFO is the client, still in its first `open`. -/
theorem Inv.reader_there (h : Inv s) {attempts : Nat} (hpc : s.server = .openS2c attempts)
    {i : Nat} (hdir : s.fifos.dir .S2C = some i) (hp : s.fifos.Present .read i)
    (hb : before s.client.pc = true) :
    ∃ met, s.fifos.desc .S_READ = .waiting .read i met := by
  rcases hp with ⟨d, hd⟩
  have hmode := h.placed d _ _ hd
  -- of the four descriptors only two read, and c2sFd reads another FIFO
  cases d with
  | s2cFd | C_WRITE => cases hmode
  | c2sFd =>
    rcases h.held .c2sFd (by rw [hpc]; rfl) with ⟨j, ho, hdesc⟩
    rw [hdesc] at hd
    obtain rfl := (Prod.mk.inj (Option.some.inj hd)).2
    have hname := h.names .S2C (by rw [hpc]; rfl)
    rw [hpc, hdir] at hname
    cases h.apart _ _ j (h.ofMade _ _ ho) hname.symm
  | S_READ =>
    cases hdesc : s.fifos.desc .S_READ with
    | closed =>
      rw [hdesc] at hd
      cases hd
    | opened m j =>
      rw [h.readOpened m j hdesc] at hb
      cases hb
    | waiting m j met =>
      rw [hdesc] at hd
      cases hd
      exact ⟨met, rfl⟩

/-- The worker opens the c2s FIFO without waiting: for reading there is no need of a writer. -/
theorem Inv.openC2s (h : Inv s) (hpc : s.server = .openC2s) (succeeds : Bool) :
    Inv (s.openC2s succeeds) := by
  have hfail : Inv (s.goto .failC2s) := h.goto (fun t => by cases t <;> rw [hpc] <;> rfl)
    (fun t => by cases t <;> rw [hpc] <;> rfl) fun d => by cases d <;> rw [hpc] <;> rfl
  unfold Rendezvous.openC2s
  split
  swap
  · exact hfail
  rename_i f hf
  split
  swap
  · exact hfail
  refine h.openFd (Or.inl rfl) hf (by rw [hpc]; rfl) (by rw [hpc]; rfl)
    (fun t => by cases t <;> rw [hpc] <;> rfl) (fun t => by cases t <;> rw [hpc] <;> rfl) rfl
    (fun e he => by cases e <;> rw [hpc] <;> first | rfl | exact absurd rfl he) (by simp) ?_
  -- the client may be waiting in its own open, which this one lets go
  intro hne hb
  rcases h.reader (hne.resolve_left (by decide)) hb with ⟨m, i, hw⟩
  rcases openNonblock_eq_ok.mp hf with ⟨j, -, -, rfl⟩
  refine ⟨m, i, ?_⟩
  rw [desc_arrive_of_ne (by decide)]
  exact (h.meet_read j).trans hw

/-- It opens the s2c FIFO as soon as the client is there, or gives up. -/
theorem Inv.openS2c (h : Inv s) {attempts : Nat} (hpc : s.server = .openS2c attempts)
    (succeeds : Bool) : Inv (s.openS2c succeeds attempts) := by
  -- both failures only move the server on
  have hgoto : ∀ pc, pc = .closeC2s ∨ pc = .openS2c (attempts + 1) → Inv (s.goto pc) := by
    rintro pc (rfl | rfl)
    all_goals
      exact h.goto (fun t => by cases t <;> rw [hpc] <;> rfl)
        (fun t => by cases t <;> rw [hpc] <;> rfl) fun d => by cases d <;> rw [hpc] <;> rfl
  unfold Rendezvous.openS2c
  split
  case h_3 => exact hgoto _ (Or.inl rfl)
  case h_2 =>
    split
    · exact hgoto _ (Or.inr rfl)
    · exact hgoto _ (Or.inl rfl)
  rename_i f hf
  split
  swap
  · exact hgoto _ (Or.inl rfl)
  refine h.openFd (Or.inr rfl) hf (by rw [hpc]; rfl) (by rw [hpc]; rfl)
    (fun t => by cases t <;> rw [hpc] <;> rfl) (fun t => by cases t <;> rw [hpc] <;> rfl) rfl
    (fun e he => by cases e <;> rw [hpc] <;> first | rfl | exact absurd rfl he) ?_ ?_
  · intro _
    rcases h.held .c2sFd (by rw [hpc]; rfl) with ⟨j, ho, -⟩
    simp [ho]
  · intro _ hb
    rcases openNonblock_eq_ok.mp hf with ⟨i, hdir, hp, rfl⟩
    rcases h.reader_there hpc hdir (hp rfl) hb with ⟨met, hw⟩
    refine ⟨.read, i, ?_⟩
    rw [desc_arrive_of_ne (by decide), hw]
    simp [Desc.meet, Mode.other]

/-- Each place of the server has one of the six kinds of steps. -/
theorem Inv.serverStep (h : Inv s) {succeeds : Bool} (hs : s.serverStep succeeds = some s') :
    Inv s' := by
  unfold Rendezvous.serverStep at hs
  -- the places by what is done there: unlink the old, unlink the own, make, open, close, go on
  cases hpc : s.server with
  | idle | dropped | lost | gone => simp [hpc] at hs
  | unlinkC2s | unlinkS2c =>
    simp only [hpc, Option.some_inj] at hs
    subst hs
    refine h.unlink ?_ ?_ ?_ rfl fun _ => h.fresh _ (by rw [hpc]; rfl)
    · intro u hu
      cases u <;> rw [hpc] <;> first | rfl | exact absurd rfl hu
    · intro u _
      cases u <;> rw [hpc] <;> rfl
    · intro d
      cases d <;> rw [hpc] <;> rfl
  | failC2s | failS2c | removeC2s | removeS2c =>
    simp only [hpc, Option.some_inj] at hs
    subst hs
    refine h.unlink ?_ ?_ ?_ rfl (by simp [HskPc.swept])
    · intro u hu
      cases u <;> rw [hpc] <;> rfl
    · intro u hu
      cases u <;> rw [hpc] <;> first | rfl | exact absurd rfl hu
    · intro d
      cases d <;> rw [hpc] <;> rfl
  | mkfifoC2s | mkfifoS2c =>
    simp only [hpc, Option.some_inj] at hs
    subst hs
    refine h.make ?_ (by rw [hpc]; rfl) (by rw [hpc]; rfl)
    rintro pc' (rfl | rfl) <;> rw [hpc]
    all_goals exact ⟨fun t => by cases t <;> rfl, fun t => by cases t <;> rfl,
      fun d => by cases d <;> rfl⟩
  | openC2s =>
    simp only [hpc, Option.some_inj] at hs
    subst hs
    exact h.openC2s hpc succeeds
  | openS2c attempts =>
    simp only [hpc, Option.some_inj] at hs
    subst hs
    exact h.openS2c hpc succeeds
  | closeC2s | closeC2sFd | closeS2cFd =>
    simp only [hpc, Option.some_inj] at hs
    subst hs
    refine h.closeFd (by simp) ?_ ?_ rfl ?_
    · intro t
      cases t <;> rw [hpc] <;> rfl
    · intro t
      cases t <;> rw [hpc] <;> rfl
    · intro e he
      cases e <;> rw [hpc] <;> first | rfl | exact absurd rfl he
  | queued | kill | post | posted | registered =>
    simp only [hpc, Option.some_inj] at hs
    subst hs
    cases succeeds
    all_goals
      exact h.goto (fun t => by cases t <;> rw [hpc] <;> rfl)
        (fun t => by cases t <;> rw [hpc] <;> rfl) fun d => by cases d <;> rw [hpc] <;> rfl

/-- The server's steps are not the client's. -/
@[simp] theorem client_make (succeeds : Bool) (t : FifoType) (pc : HskPc) (s : Rendezvous) :
    (s.make succeeds t pc).client = s.client := by
  unfold Rendezvous.make
  split <;> rfl

@[simp] theorem client_openC2s (succeeds : Bool) (s : Rendezvous) :
    (s.openC2s succeeds).client = s.client := by
  unfold Rendezvous.openC2s
  split
  · split <;> rfl
  · rfl

@[simp] theorem client_openS2c (succeeds : Bool) (attempts : Nat) (s : Rendezvous) :
    (s.openS2c succeeds attempts).client = s.client := by
  unfold Rendezvous.openS2c
  split
  · split <;> rfl
  · split <;> rfl
  · rfl

theorem serverStep_client {succeeds : Bool} (hs : s.serverStep succeeds = some s') :
    s'.client = s.client := by
  unfold Rendezvous.serverStep at hs
  cases hpc : s.server <;> simp only [hpc] at hs
  case idle | dropped | lost | gone => cases hs
  case mkfifoC2s | mkfifoS2c | openC2s | openS2c =>
    obtain rfl := Option.some.inj hs
    simp
  all_goals
    obtain rfl := Option.some.inj hs
    rfl

/-- Whoever takes the step. -/
theorem step_inv {l : RendezvousLbl} (h : Inv s) (hs : step l s = some s') : Inv s' := by
  -- the client outside `open`, the client in `open`, and the server
  cases l with
  | client l =>
    simp only [step] at hs
    rcases Option.ite_none_left_eq_some.mp hs with ⟨hl, hs⟩
    exact h.clientStep (Bool.eq_false_iff.mpr hl) hs
  | openBegins =>
    simp only [step] at hs
    split at hs
    swap
    · cases hs
    rename_i d hd
    rcases Option.ite_none_right_eq_some.mp hs with ⟨hclosed, hs⟩
    unfold beginOpen at hs
    split at hs
    · rename_i f hf
      obtain rfl := Option.some.inj hs
      exact h.begin hd hclosed hf false
    · exact h.openFailed (fun e he => by cases hd.symm.trans he; exact hclosed) hs
  | openFails =>
    simp only [step] at hs
    split at hs
    swap
    · cases hs
    rename_i d hd
    rcases Option.ite_none_right_eq_some.mp hs with ⟨hclosed, hs⟩
    exact h.openFailed (fun e he => by cases hd.symm.trans he; exact hclosed) hs
  | openReturns fd =>
    simp only [step] at hs
    split at hs
    · rename_i d hd
      exact h.return hd hs
    · cases hs
  | openInterrupted =>
    simp only [step] at hs
    split at hs
    swap
    · cases hs
    rename_i d hd
    rcases Option.ite_none_right_eq_some.mp hs with ⟨hi, hs⟩
    refine (h.abandon hd hi).openFailed (fun e he => ?_) hs
    cases hd.symm.trans he
    exact desc_close_self
  | arrives =>
    simp only [step] at hs
    rcases Option.ite_none_right_eq_some.mp hs with ⟨⟨-, hidle⟩, hs⟩
    obtain rfl := Option.some.inj hs
    have hsame : Inv { s with syn := false } := { h with }
    refine hsame.goto ?_ ?_ ?_
    · intro t
      show HskPc.cleared t .queued = HskPc.cleared t s.server
      cases t <;> rw [hidle] <;> rfl
    · intro t
      show HskPc.swept t .queued = HskPc.swept t s.server
      cases t <;> rw [hidle] <;> rfl
    · intro d
      show HskPc.holds d .queued = HskPc.holds d s.server
      cases d <;> rw [hidle] <;> rfl
  | server succeeds => exact h.serverStep hs

/-- The invariant holds in every interleaving. -/
theorem reachable_inv (h : system.Reachable s) : Inv s :=
  h.invariant (fun _ => inv_start) fun _ _ _ hs hi => step_inv hi hs

/-! ## Where they meet -/

/-- The client on its own: every step of the two is one of its steps or none. -/
theorem client_refines : Refines system Client.Handshake.system Rendezvous.client where
  init := fun s hs => hs.client
  step := fun l s s' _ hs => by
    -- an `open` that fails is a step of the client, whatever it has failed for
    have hfailed : ∀ {t t' : Rendezvous}, t.openFailed = some t' → t.client = s.client →
        ∃ l', Connection.step l' s.client = some t'.client := by
      intro t t' ht heq
      rcases Option.map_eq_some_iff.mp ht with ⟨c, hc, rfl⟩
      exact ⟨.openFifo none, heq ▸ hc⟩
    cases l with
    | client l =>
      rcases Option.ite_none_left_eq_some.mp hs with ⟨-, hs⟩
      rcases Option.map_eq_some_iff.mp hs with ⟨c, hc, rfl⟩
      exact Or.inl ⟨l, hc⟩
    | openBegins =>
      simp only [step] at hs
      split at hs
      swap
      · cases hs
      rcases Option.ite_none_right_eq_some.mp hs with ⟨-, hs⟩
      unfold beginOpen at hs
      split at hs
      · obtain rfl := Option.some.inj hs
        exact Or.inr rfl
      · exact Or.inl (hfailed hs rfl)
    | openFails =>
      simp only [step] at hs
      split at hs
      swap
      · cases hs
      rcases Option.ite_none_right_eq_some.mp hs with ⟨-, hs⟩
      exact Or.inl (hfailed hs rfl)
    | openReturns fd =>
      simp only [step] at hs
      split at hs
      swap
      · cases hs
      unfold returnOpen at hs
      split at hs
      · rename_i hc
        obtain rfl := Option.some.inj hs
        exact Or.inl ⟨_, hc⟩
      · cases hs
    | openInterrupted =>
      simp only [step] at hs
      split at hs
      swap
      · cases hs
      rcases Option.ite_none_right_eq_some.mp hs with ⟨-, hs⟩
      exact Or.inl (hfailed hs rfl)
    | arrives =>
      rcases Option.ite_none_right_eq_some.mp hs with ⟨-, hs⟩
      obtain rfl := Option.some.inj hs
      exact Or.inr rfl
    | server succeeds => exact Or.inr (serverStep_client hs)

/-- An earlier process with the pid has left its FIFOs. -/
def leftover : Rendezvous where
  client := .init
  interrupted := false
  fifos := {
    dir := fun t => match t with
      | .C2S => some 0
      | .S2C => some 1
    made := 2
    desc := fun _ => .closed }
  server := .idle
  syn := false
  made := fun _ => none
  opened := fun _ => none

/-- A FIFO of an earlier process stands at each name. -/
theorem start_leftover : Start leftover where
  client := rfl
  server := rfl
  syn := rfl
  made := rfl
  opened := rfl
  named := fun t i h => by
    cases t <;> obtain rfl := Option.some.inj h <;> decide
  single := fun t t' i h h' => by
    cases t <;> cases t' <;> obtain rfl := Option.some.inj h <;>
      first | rfl | exact absurd (Option.some.inj h') (by decide)
  closed := fun _ => rfl

/-- A run from there. -/
theorem exists_run_leftover (ls : List RendezvousLbl) (p : Rendezvous → Prop) [DecidablePred p]
    (h : (run step ls leftover).map (fun s => decide (p s)) = some true) :
    ∃ s, run step ls leftover = some s ∧ system.Reachable s ∧ p s := by
  rcases Option.map_eq_some_iff.mp h with ⟨s, hrun, hp⟩
  exact ⟨s, hrun, LTS.Reachable.run (fun _ _ _ hn => hn) (.init start_leftover) hrun,
    of_decide_eq_true hp⟩

/-- The server has both its ends open. -/
def Holding (s : Rendezvous) : Prop :=
  HskPc.holds .c2sFd s.server = true ∧ HskPc.holds .s2cFd s.server = true

/-- While the server holds its ends the two names are those of the worker. -/
theorem Holding.named (hs : Holding s) (h : Inv s) (t : FifoType) :
    ∃ i, s.made t = some i ∧ s.fifos.dir t = some i := by
  have hmade : ∃ i, s.made t = some i := by
    cases t with
    | C2S =>
      rcases h.held _ hs.1 with ⟨i, ho, -⟩
      exact ⟨i, h.ofMade _ _ ho⟩
    | S2C =>
      rcases h.held _ hs.2 with ⟨i, ho, -⟩
      exact ⟨i, h.ofMade _ _ ho⟩
  rcases hmade with ⟨i, hi⟩
  refine ⟨i, hi, ?_⟩
  -- the names are still there: cleared before mkfifo, swept only after the closes
  have hcleared : HskPc.cleared t s.server = true := by
    by_contra hn
    rw [h.fresh t (Bool.eq_false_iff.mpr hn)] at hi
    cases hi
  have hswept : HskPc.swept t s.server = false := by
    rcases hs with ⟨hs, -⟩
    revert hs
    cases s.server <;> cases t <;> simp [HskPc.holds, HskPc.swept]
  rw [h.names t hcleared, hswept]
  exact hi

/-- The reading end of the c2s FIFO is there for the client to write to. -/
theorem Holding.present_read (hs : Holding s) (h : Inv s) {i : Nat} (hi : s.made .C2S = some i) :
    s.fifos.Present .read i := by
  rcases h.held _ hs.1 with ⟨j, ho, hdesc⟩
  have hj := h.ofMade _ _ ho
  rw [show FifoFd.c2sFd.fifo = .C2S from rfl, hi] at hj
  obtain rfl := Option.some.inj hj
  exact ⟨.c2sFd, by rw [hdesc]; rfl⟩

/-- Nobody waits in vain. -/
theorem Holding.met (hs : Holding s) (h : Inv s) {d : FifoFd} {m : Mode} {i : Nat} {met : Bool}
    (hd : s.fifos.desc d = .waiting m i met) : met = true := by
  -- the server's two are open, so nothing waits in them
  cases d with
  | c2sFd =>
    rcases h.held _ hs.1 with ⟨j, -, hdesc⟩
    rw [hdesc] at hd
    cases hd
  | s2cFd =>
    rcases h.held _ hs.2 with ⟨j, -, hdesc⟩
    rw [hdesc] at hd
    cases hd
  | S_READ =>
    rcases h.held _ hs.2 with ⟨j, ho, -⟩
    rcases h.reader (by simp [ho]) (by rw [(h.readWaits m i met hd).1]; rfl) with ⟨m', i', hw⟩
    rw [hd] at hw
    cases hw
    rfl
  | C_WRITE =>
    by_contra hn
    rw [Bool.eq_false_iff.mpr hn] at hd
    have hplace : (s.fifos.desc .C_WRITE).place? = some (m, i) := by rw [hd]; rfl
    refine h.wf.unmet _ m i hd ?_
    rw [h.placed _ m i hplace]
    exact hs.present_read h (h.writeAt m i hplace).2

/-- The steps that an `open` of the client takes. -/
def isOpening : RendezvousLbl → Bool
  | .openBegins | .openReturns _ => true
  | _ => false

/-- A descriptor that is not in use is taken. -/
theorem step_openFifo_fresh {c : Connection} {d : FifoFd} (hd : opening c.pc = some d) :
    ∃ fd c', Connection.step (.openFifo (some fd)) c = some c' ∧
      (c.pc = .openRead → c'.pc = .openWrite) ∧ (c.pc = .openWrite → c'.pc = .opened) := by
  -- some descriptor number is always free
  rcases Infinite.exists_notMem_finset c.fds.toFinset with ⟨fd, hfd⟩
  rw [List.mem_toFinset] at hfd
  rcases opening_cases hd with ⟨hpc, rfl⟩ | ⟨hpc, rfl⟩
  · refine ⟨fd, { c with S_READ := fd, fds := fd :: c.fds }.goto .openWrite, ?_, fun _ => rfl,
      fun h => ?_⟩
    · simp only [Connection.step, hpc, if_neg hfd]
    · rw [hpc] at h
      cases h
  · refine ⟨fd, { c with C_WRITE := fd, fds := fd :: c.fds }.goto .opened, ?_, fun h => ?_,
      fun _ => rfl⟩
    · simp only [Connection.step, hpc, if_neg hfd]
    · rw [hpc] at h
      cases h

/-- An `open` of the client that has met the server returns. -/
theorem openReturns_met {d : FifoFd} {m : Mode} {i : Nat} (hd : opening s.client.pc = some d)
    (hw : s.fifos.desc d = .waiting m i true) :
    ∃ fd s', step (.openReturns fd) s = some s' ∧ s'.server = s.server ∧
      (s.client.pc = .openRead → s'.client.pc = .openWrite) ∧
      (s.client.pc = .openWrite → s'.client.pc = .opened) := by
  have hf : s.fifos.finishOpen d = some (s.fifos.set d (.opened m i)) :=
    finishOpen_eq_some.mpr ⟨m, i, hw, rfl⟩
  rcases step_openFifo_fresh hd with ⟨fd, c, hc, hread, hwrite⟩
  refine ⟨fd, { s with
    client := c
    fifos := s.fifos.set d (.opened m i)
    opened := Function.update s.opened d ((s.fifos.desc d).place?.map Prod.snd) }, ?_, rfl,
    hread, hwrite⟩
  simp only [step, hd, returnOpen, hf, hc]

/-- At its second `open` the client needs nobody any more. -/
theorem Holding.openWrite (hs : Holding s) (h : system.Reachable s)
    (hpc : s.client.pc = .openWrite) :
    ∃ ls s', run step ls s = some s' ∧ s'.client.pc = .opened ∧ ls.all isOpening = true := by
  have hd : opening s.client.pc = some .C_WRITE := by rw [hpc]; rfl
  have hi := reachable_inv h
  -- not yet in the call, in the call and let go, or through: the last is past this point
  cases hdesc : s.fifos.desc .C_WRITE with
  | opened m i => exact absurd hpc (hi.writeOpened m i hdesc)
  | waiting m i met =>
    obtain rfl := hs.met hi hdesc
    rcases openReturns_met hd hdesc with ⟨fd, s', hstep, -, -, hopened⟩
    exact ⟨[.openReturns fd], s', by simp [run, hstep], hopened hpc, rfl⟩
  | closed =>
    rcases hs.named hi .C2S with ⟨i, hmade, hdir⟩
    have hp : s.fifos.Present (Mode.other .write) i := hs.present_read hi hmade
    have hb : s.fifos.openBlocking .C_WRITE .write .C2S =
        some (s.fifos.arrive .C_WRITE .write i (.waiting .write i true)) :=
      openBlocking_eq_some.mpr ⟨i, hdir, by rw [decide_eq_true hp]⟩
    let t : Rendezvous := { s with
      fifos := s.fifos.arrive .C_WRITE .write i (.waiting .write i true), interrupted := false }
    have hbegin : step .openBegins s = some t := by
      simp only [step, hd, hdesc, if_pos, beginOpen]
      rw [show s.fifos.openBlocking FifoFd.C_WRITE FifoFd.C_WRITE.mode FifoFd.C_WRITE.fifo = _
        from hb]
    rcases openReturns_met (s := t) hd desc_arrive_self with ⟨fd, s', hstep, -, -, hopened⟩
    exact ⟨[.openBegins, .openReturns fd], s', by simp [run, hbegin, hstep], hopened hpc, rfl⟩

/-- How many steps the server has before it at most. -/
def HskPc.rank : HskPc → Nat
  | .idle | .queued => 25
  | .unlinkC2s => 24
  | .unlinkS2c => 23
  | .mkfifoC2s => 22
  | .mkfifoS2c => 21
  | .kill => 20
  | .openC2s => 19
  | .openS2c attempts => 8 + (MAX_OPEN_RETRIES - attempts)
  | .post => 7
  | .posted => 6
  | .registered => 5
  | .closeC2sFd => 4
  | .closeS2cFd => 3
  | .removeC2s => 2
  | .removeS2c => 1
  | .closeC2s => 3
  | .failC2s => 2
  | .failS2c => 1
  | .dropped | .lost | .gone => 0

def isServer : RendezvousLbl → Bool
  | .server _ => true
  | _ => false

/-- Every step of the server comes closer to its end. -/
theorem rank_serverStep {succeeds : Bool} (hs : s.serverStep succeeds = some s') :
    HskPc.rank s'.server < HskPc.rank s.server := by
  unfold Rendezvous.serverStep at hs
  -- the rank falls at every program point, the retries included
  cases hpc : s.server <;> simp only [hpc] at hs
  case idle | dropped | lost | gone => cases hs
  case mkfifoC2s | mkfifoS2c =>
    obtain rfl := Option.some.inj hs
    unfold Rendezvous.make
    split <;> simp [Rendezvous.goto, HskPc.rank]
  case openC2s =>
    obtain rfl := Option.some.inj hs
    unfold Rendezvous.openC2s
    split
    · split <;> simp [Rendezvous.goto, HskPc.rank, MAX_OPEN_RETRIES]
    · simp [Rendezvous.goto, HskPc.rank]
  case openS2c attempts =>
    obtain rfl := Option.some.inj hs
    unfold Rendezvous.openS2c
    split
    · split <;> simp [Rendezvous.goto, HskPc.rank] <;> omega
    · split
      · rename_i hlt
        simp only [Rendezvous.goto, HskPc.rank]
        omega
      · simp only [Rendezvous.goto, HskPc.rank]
        omega
    · simp only [Rendezvous.goto, HskPc.rank]
      omega
  all_goals
    obtain rfl := Option.some.inj hs
    cases succeeds <;> simp [Rendezvous.goto, HskPc.rank]

/-- An `open` of the client that fails leaves the server where it is. -/
theorem openFailed_server (h : s.openFailed = some s') : s'.server = s.server := by
  rcases Option.map_eq_some_iff.mp h with ⟨c, -, rfl⟩
  rfl

/-- No other step moves the server, but for the pid that arrives. -/
theorem server_step_other {l : RendezvousLbl} (hl : isServer l = false) (hs : step l s = some s') :
    s'.server = s.server ∨ s.server = .idle ∧ s'.server = .queued := by
  -- only the arrival of the pid moves the server
  cases l with
  | server succeeds => cases hl
  | arrives =>
    rcases Option.ite_none_right_eq_some.mp hs with ⟨⟨-, hidle⟩, hs⟩
    obtain rfl := Option.some.inj hs
    exact Or.inr ⟨hidle, rfl⟩
  | client l =>
    rcases Option.ite_none_left_eq_some.mp hs with ⟨-, hs⟩
    rcases Option.map_eq_some_iff.mp hs with ⟨c, -, rfl⟩
    exact Or.inl rfl
  | openBegins | openFails | openInterrupted =>
    simp only [step] at hs
    split at hs
    swap
    · cases hs
    rcases Option.ite_none_right_eq_some.mp hs with ⟨-, hs⟩
    first
    | unfold beginOpen at hs
      split at hs
      · obtain rfl := Option.some.inj hs
        exact Or.inl rfl
      · exact Or.inl (openFailed_server hs)
    | have hserver := openFailed_server hs
      exact Or.inl hserver
  | openReturns fd =>
    simp only [step] at hs
    split at hs
    swap
    · cases hs
    unfold returnOpen at hs
    split at hs
    · obtain rfl := Option.some.inj hs
      exact Or.inl rfl
    · cases hs

/-- The client cannot send the server back. -/
theorem rank_step {l : RendezvousLbl} (hs : step l s = some s') :
    HskPc.rank s'.server + (if isServer l then 1 else 0) ≤ HskPc.rank s.server := by
  cases hl : isServer l with
  | true =>
    cases l with
    | server succeeds => exact rank_serverStep hs
    | _ => cases hl
  | false =>
    rcases server_step_other hl hs with hsame | ⟨hidle, hqueued⟩
    · rw [hsame]
      exact Nat.le_refl _
    · rw [hidle, hqueued]
      exact Nat.le_refl _

/-- How many calls the `HANDSHAKE` case and `destroy_client_pipes` have before them at most. -/
def HskPc.budget : HskPc → Nat
  | .idle | .queued | .unlinkC2s => 34
  | .unlinkS2c => 33
  | .mkfifoC2s => 32
  | .mkfifoS2c => 30
  | .kill => 28
  | .openC2s => 27
  | .openS2c 0 => 26
  | .openS2c (attempts + 1) => 7 + 2 * (MAX_OPEN_RETRIES - attempts - 1)
  | .post => 5
  | .posted | .registered | .closeC2sFd => 4
  | .closeS2cFd => 3
  | .removeC2s => 2
  | .removeS2c => 1
  | .closeC2s => 5
  | .failC2s => 4
  | .failS2c => 3
  | .dropped | .lost | .gone => 0

/-- The calls of a step. -/
def serverCalls (l : RendezvousLbl) (s s' : Rendezvous) : Nat :=
  if isServer l then HskPc.calls s.server s'.server else 0

/-- The budget pays for every step of the server. -/
theorem budget_serverStep {succeeds : Bool} (hs : s.serverStep succeeds = some s') :
    HskPc.budget s'.server + HskPc.calls s.server s'.server ≤ HskPc.budget s.server := by
  unfold Rendezvous.serverStep at hs
  cases hpc : s.server <;> simp only [hpc] at hs
  case idle | dropped | lost | gone => cases hs
  case mkfifoC2s | mkfifoS2c =>
    obtain rfl := Option.some.inj hs
    unfold Rendezvous.make
    split <;> simp [Rendezvous.goto, HskPc.budget, HskPc.calls]
  case openC2s =>
    obtain rfl := Option.some.inj hs
    unfold Rendezvous.openC2s
    split
    · split <;> simp [Rendezvous.goto, HskPc.budget, HskPc.calls]
    · simp [Rendezvous.goto, HskPc.budget, HskPc.calls]
  case openS2c attempts =>
    obtain rfl := Option.some.inj hs
    -- the first `open` and the retries
    cases attempts with
    | zero =>
      unfold Rendezvous.openS2c
      split
      · split <;> simp [Rendezvous.goto, HskPc.budget, HskPc.calls]
      · split <;> simp [Rendezvous.goto, HskPc.budget, HskPc.calls, MAX_OPEN_RETRIES]
      · simp [Rendezvous.goto, HskPc.budget, HskPc.calls]
    | succ attempts =>
      unfold Rendezvous.openS2c
      split
      · split <;> simp only [Rendezvous.goto, HskPc.budget, HskPc.calls] <;> omega
      · split
        · rename_i hlt
          simp only [Rendezvous.goto, HskPc.budget, HskPc.calls]
          omega
        · simp only [Rendezvous.goto, HskPc.budget, HskPc.calls]
          omega
      · simp only [Rendezvous.goto, HskPc.budget, HskPc.calls]
        omega
  all_goals
    obtain rfl := Option.some.inj hs
    cases succeeds <;> simp [Rendezvous.goto, HskPc.budget, HskPc.calls]

/-- A step of anybody else costs the server nothing. -/
theorem budget_step {l : RendezvousLbl} (hs : step l s = some s') :
    HskPc.budget s'.server + serverCalls l s s' ≤ HskPc.budget s.server := by
  unfold serverCalls
  cases hl : isServer l with
  | true =>
    cases l with
    | server succeeds => exact budget_serverStep hs
    | _ => cases hl
  | false =>
    rcases server_step_other hl hs with hsame | ⟨hidle, hqueued⟩
    · rw [hsame]
      exact Nat.le_refl _
    · rw [hidle, hqueued]
      exact Nat.le_refl _

/-- Whatever the client does, the server is done with it after 25 steps of its own, none of
which waits for it, and after 34 calls. When it is done, no name and no descriptor of it is
left, unless it could not write its result. -/
theorem server_finishes {s₀ : Rendezvous} (h₀ : Start s₀) {ls : List RendezvousLbl}
    (hrun : run step ls s₀ = some s) :
    ls.countP isServer ≤ 25 ∧ cost step serverCalls ls s₀ ≤ 34 ∧
      (∀ succeeds, s.serverStep succeeds = none →
        s.server = .idle ∨ s.server = .lost ∨ s.server = .dropped ∨ s.server = .gone) ∧
      (s.server = .dropped ∨ s.server = .gone →
        (∀ t, s.fifos.dir t = none) ∧ s.fifos.desc .c2sFd = .closed ∧
          s.fifos.desc .s2cFd = .closed) := by
  have hi := reachable_inv (LTS.Reachable.run (M := system) (fun _ _ _ h => h) (.init h₀) hrun)
  -- steps, calls, where it stops, and what is left behind
  refine ⟨?_, ?_, fun succeeds hs => ?_, fun hend => ⟨fun t => ?_, ?_, ?_⟩⟩
  · have hle := countP_run_le isServer (HskPc.rank ·.server) (fun _ _ _ _ _ => trivial)
      (fun _ _ _ _ => rank_step) trivial hrun
    rw [h₀.server] at hle
    exact Nat.le_of_add_right_le hle
  · have hle := cost_run_le (HskPc.budget ·.server) (fun _ _ _ _ _ => trivial)
      (fun _ _ _ _ => budget_step) trivial hrun
    rw [h₀.server] at hle
    exact Nat.le_of_add_right_le hle
  · cases hpc : s.server <;> simp [Rendezvous.serverStep, hpc] at hs ⊢
  · have hname := hi.names t (by rcases hend with hpc | hpc <;> rw [hpc] <;> cases t <;> rfl)
    have hswept : HskPc.swept t s.server = true := by
      rcases hend with hpc | hpc <;> rw [hpc] <;> cases t <;> rfl
    rw [hname, hswept]
    rfl
  · exact hi.notHeld _ (Or.inl rfl) (by rcases hend with hpc | hpc <;> rw [hpc] <;> rfl)
  · exact hi.notHeld _ (Or.inr rfl) (by rcases hend with hpc | hpc <;> rw [hpc] <;> rfl)

/-- The client does not come, and every retry is made. -/
def noClient : List RendezvousLbl :=
  [.client .next, .client .next, .client (.kill true), .arrives] ++
    List.replicate 21 (.server true)

theorem server_finishes_noClient :
    ∃ s, run step noClient leftover = some s ∧ s.server = .dropped ∧
      cost step serverCalls noClient leftover = 34 ∧ (∀ t, s.fifos.dir t = none) ∧
        s.fifos.desc .c2sFd = .closed ∧ s.fifos.desc .s2cFd = .closed := by
  rcases exists_run_leftover noClient (fun s => s.server = .dropped) (by decide) with
    ⟨s, hrun, -, hpc⟩
  have hend := (server_finishes start_leftover hrun).2.2.2 (Or.inl hpc)
  exact ⟨s, hrun, hpc, by decide, hend⟩

end AnimateServer.Rendezvous
