import AnimateServer.Lib.Transition
import AnimateServer.Model.Handshake

/-!
# The life of a connection

The handlers write `CONNECTION_STATE` whatever it is, and `perform_handshake` looks for
nothing but a timeout after its wait. So the stages come in the right order only as long as
the signals do: `SIGUSR2` before everything that ends the session, and nothing that ends
the session before the handshake is over. The descriptors are closed in any case.
-/

namespace AnimateServer.Client.Handshake

open CLib Transition Connection

/-- The client, from `client_setup_signals` on. -/
abbrev system : LTS Connection ClientLbl := ofStep .init Connection.step

/-- What is promised about a return of `perform_handshake`. -/
structure SoundReturn (r : Returned) : Prop where
  success : r.err = .SUCCESS → r.usr2 = true ∧ r.stage = .CONNECTED
  error : r.err ≠ .SUCCESS → r.fds = []

/-- A session that is over does not become connected again, `perform_handshake` succeeds only
after `SIGUSR2` and with the state `CONNECTED`, and with an error it leaves no descriptor
open. -/
structure Sound (c : Connection) : Prop where
  stays : c.ended = true → c.CONNECTION_STATE ≠ .CONNECTED
  ret : ∀ r, c.returned = some r → SoundReturn r

/-- `SIGUSR2` comes before all that ends the session, and so does the successful return of
`perform_handshake`. -/
def InOrder (lbl : ClientLbl) (c : Connection) : Prop :=
  lbl = .deliver .SIGUSR2 ∨ lbl = .next ∧ c.pc = .success → c.ended = false

instance (lbl : ClientLbl) (c : Connection) : Decidable (InOrder lbl c) := by
  unfold InOrder
  infer_instance

/-! ### The invariant -/

/-- The stages that `CONNECTION_STATE` cannot have at a place in `perform_handshake`: behind
`CONNECTION_STATE = SYN_SENT` it is not `IDLE`, and behind the wait it is not `SYN_SENT`. -/
def excluded : ClientPc → List ConnectStage
  | .killing | .waitTest | .suspended | .woken => [.IDLE]
  | .restoring | .timeoutTest | .openRead | .openWrite | .closing | .opened | .success =>
    [.IDLE, .SYN_SENT]
  | _ => []

/-- The descriptors that are open at a place in `perform_handshake`. Of the places behind
it nothing is said. -/
def OpenAt (c : Connection) : Prop :=
  match c.pc with
  | .openWrite | .closing => c.fds = [c.S_READ]
  | .opened | .success | .authorise | .spawnReceiver | .sending | .teardown | .joining | .exited
  | .killed => True
  | _ => c.fds = []

/-- What holds between two steps, whatever the order of the signals. -/
structure Tidy (c : Connection) : Prop where
  fds : OpenAt c
  error : ∀ r, c.returned = some r → r.err ≠ .SUCCESS → r.fds = []

/-- What holds between two steps if the signals come in order. -/
structure Ordered (c : Connection) : Prop where
  stays : c.ended = true → c.CONNECTION_STATE ≠ .CONNECTED
  /-- The history remembers the stages that end a session. -/
  fresh : c.ended = false → c.CONNECTION_STATE.isOver = false
  usr2 : c.CONNECTION_STATE = .CONNECTED → c.usr2 = true
  stage : c.CONNECTION_STATE ∉ excluded c.pc
  success : ∀ r, c.returned = some r → r.err = .SUCCESS → r.usr2 = true ∧ r.stage = .CONNECTED

/-! ### The descriptors -/

variable {c c' : Connection}

/-- The client starts with nothing open. -/
theorem tidy_init : Tidy .init where
  fds := rfl
  error := fun r h => absurd h (by simp [Connection.init])

/-- A step that opens and closes nothing. -/
theorem Tidy.congr (h : Tidy c) (hret : c'.returned = c.returned) (hfds : OpenAt c') : Tidy c' where
  fds := hfds
  error := fun r hr => h.error r (hret ▸ hr)

/-- A return with an error happens with no descriptor open. -/
theorem tidy_ret {err : ErrType} (hopen : err ≠ .SUCCESS → c.fds = []) {pc : ClientPc}
    (hfds : OpenAt (c.ret err pc)) : Tidy (c.ret err pc) where
  fds := hfds
  error := fun r hr => by
    obtain rfl := Option.some.inj hr
    exact hopen

/-- A step of its own keeps the client tidy: what is open is what its place says. -/
theorem Tidy.next (h : Tidy c) (hn : c.nextStep = some c') : Tidy c' := by
  have hfds := h.fds
  unfold nextStep at hn
  -- by the place where the client is
  cases hpc : c.pc with
  | start | blocked | killFailed | woken | restoring | hskFail =>
    simp only [hpc, Option.some_inj] at hn
    subst hn
    simp only [OpenAt, hpc] at hfds
    exact h.congr rfl hfds
  | waitTest | timeoutTest =>
    simp only [hpc, Option.some_inj] at hn
    subst hn
    simp only [OpenAt, hpc] at hfds
    split
    · exact h.congr rfl hfds
    · exact h.congr rfl hfds
  | sigFail | hskTo | pipeFail =>
    simp only [hpc, Option.some_inj] at hn
    subst hn
    simp only [OpenAt, hpc] at hfds
    exact tidy_ret (fun _ => hfds) trivial
  | success =>
    simp only [hpc, Option.some_inj] at hn
    subst hn
    exact tidy_ret (fun hne => absurd rfl hne) trivial
  | closing =>
    -- the read end, which is all that has been opened
    simp only [hpc, Option.some_inj] at hn
    subst hn
    simp only [OpenAt, hpc] at hfds
    refine h.congr rfl ?_
    show c.fds.erase c.S_READ = []
    rw [hfds]
    exact List.erase_cons_head _ _
  | opened =>
    simp only [hpc, Option.some_inj] at hn
    subst hn
    exact h.congr rfl trivial
  | sending =>
    simp only [hpc, Option.some_inj] at hn
    subst hn
    split
    · exact h
    · exact h.congr rfl trivial
  | teardown =>
    simp only [hpc, Option.some_inj] at hn
    subst hn
    split
    · exact h.congr rfl trivial
    · exact h.congr rfl trivial
  | joining =>
    simp only [hpc] at hn
    rcases Option.ite_none_left_eq_some.mp hn with ⟨-, hn⟩
    obtain rfl := Option.some.inj hn
    exact h.congr rfl trivial
  | killing | suspended | openRead | openWrite | authorise | spawnReceiver | exited | killed =>
    simp [hpc] at hn

/-- A handler touches no descriptor. -/
theorem Tidy.deliver {sig : Signal} (h : Tidy c) (hd : c.deliver sig = some c') : Tidy c' := by
  have hfds := h.fds
  unfold Connection.deliver at hd
  rcases Option.ite_none_left_eq_some.mp hd with ⟨hdeaf, hd⟩
  split at hd
  · obtain rfl := Option.some.inj hd
    exact h.congr rfl trivial
  · obtain rfl := Option.some.inj hd
    split
    · rename_i hpc
      have hpc : c.pc = .suspended := hpc
      simp only [OpenAt, hpc] at hfds
      exact h.congr rfl hfds
    · exact h.congr rfl hfds

/-- Every step keeps the client tidy. -/
theorem Tidy.step {lbl : ClientLbl} (h : Tidy c) (hs : Connection.step lbl c = some c') :
    Tidy c' := by
  have hfds := h.fds
  -- what the client does itself, and what happens to it
  cases lbl with
  | deliver sig => exact h.deliver hs
  | next => exact h.next hs
  | kill succeeds =>
    rcases Option.ite_none_right_eq_some.mp hs with ⟨hpc, hs⟩
    obtain rfl := Option.some.inj hs
    simp only [OpenAt, hpc] at hfds
    split
    · exact h.congr rfl hfds
    · exact h.congr rfl hfds
  | openFifo fd =>
    simp only [Connection.step] at hs
    cases hpc : c.pc with
    | openRead =>
      simp only [OpenAt, hpc] at hfds
      cases fd with
      | none =>
        simp only [hpc, Option.some_inj] at hs
        subst hs
        exact h.congr rfl hfds
      | some r_temp =>
        -- the read end is the only descriptor
        simp only [hpc] at hs
        rcases Option.ite_none_left_eq_some.mp hs with ⟨-, hs⟩
        obtain rfl := Option.some.inj hs
        refine h.congr rfl ?_
        show r_temp :: c.fds = [r_temp]
        rw [hfds]
    | openWrite =>
      simp only [OpenAt, hpc] at hfds
      cases fd with
      | none =>
        simp only [hpc, Option.some_inj] at hs
        subst hs
        exact h.congr rfl hfds
      | some w_temp =>
        simp only [hpc] at hs
        rcases Option.ite_none_left_eq_some.mp hs with ⟨-, hs⟩
        obtain rfl := Option.some.inj hs
        exact h.congr rfl trivial
    | _ => simp [hpc] at hs
  | authorise accepted =>
    rcases Option.ite_none_right_eq_some.mp hs with ⟨hpc, hs⟩
    split at hs <;>
    · obtain rfl := Option.some.inj hs
      exact h.congr rfl trivial
  | spawnReceiver succeeds =>
    rcases Option.ite_none_right_eq_some.mp hs with ⟨hpc, hs⟩
    obtain rfl := Option.some.inj hs
    split
    · exact h.congr rfl trivial
    · exact h.congr rfl trivial
  | inputEnds =>
    rcases Option.ite_none_right_eq_some.mp hs with ⟨-, hs⟩
    obtain rfl := Option.some.inj hs
    exact h.congr rfl trivial
  | receiverEnds =>
    rcases Option.ite_none_right_eq_some.mp hs with ⟨-, hs⟩
    obtain rfl := Option.some.inj hs
    exact h.congr rfl hfds

/-- So the client is tidy wherever it is. -/
theorem reachable_tidy (h : system.Reachable c) : Tidy c := by
  refine h.invariant (fun c hc => ?_) (fun lbl c c' hn ht => ?_)
  · subst hc
    exact tidy_init
  · exact ht.step hn

/-! ### The order of the stages -/

/-- At the start no signal has come. -/
theorem ordered_init : Ordered .init where
  stays := by simp [Connection.init]
  fresh := fun _ => rfl
  usr2 := by simp [Connection.init]
  stage := by simp [Connection.init, excluded]
  success := by simp [Connection.init]

/-- No place excludes a stage that a handler writes. -/
theorem notMem_excluded {stage : ConnectStage} (h : stage = .CONNECTED ∨ stage.isOver = true)
    (pc : ClientPc) : stage ∉ excluded pc := by
  have hst : stage ≠ .IDLE ∧ stage ≠ .SYN_SENT := by
    constructor <;> rintro rfl <;> simp [ConnectStage.isOver] at h
  unfold excluded
  split <;> simp [hst]

/-- A step that leaves the stage and the history alone. -/
theorem Ordered.congr (h : Ordered c) (hstage : c'.CONNECTION_STATE = c.CONNECTION_STATE)
    (hended : c'.ended = c.ended) (husr2 : c'.usr2 = c.usr2) (hret : c'.returned = c.returned)
    (hpc : c.CONNECTION_STATE ∉ excluded c'.pc) : Ordered c' where
  stays := by rw [hstage, hended]; exact h.stays
  fresh := by rw [hstage, hended]; exact h.fresh
  usr2 := by rw [hstage, husr2]; exact h.usr2
  stage := by rw [hstage]; exact hpc
  success := by rw [hret]; exact h.success

/-- Moving on to a place that excludes no further stages. -/
theorem Ordered.goto (h : Ordered c) {pc : ClientPc} (hpc : excluded pc ⊆ excluded c.pc) :
    Ordered (c.goto pc) :=
  h.congr rfl rfl rfl rfl fun hm => h.stage (hpc hm)

/-- A stage that is not `CONNECTED`. -/
theorem Ordered.setStage (h : Ordered c) {stage : ConnectStage} (hne : stage ≠ .CONNECTED)
    (hpc : stage ∉ excluded c.pc) : Ordered (c.setStage stage) where
  stays := fun _ => hne
  fresh := fun he => by
    simp only [Connection.setStage, Bool.or_eq_false_iff] at he
    exact he.2
  usr2 := fun hc => absurd hc hne
  stage := hpc
  success := h.success

/-- The session is ended. -/
theorem Ordered.disconnected (h : Ordered c) : Ordered (c.setStage .DISCONNECTED) :=
  h.setStage (by simp) (notMem_excluded (Or.inr rfl) c.pc)

/-- A handler runs. -/
theorem Ordered.handler (h : Ordered c) (sig : Signal)
    (hok : sig = .SIGUSR2 → c.ended = false) :
    Ordered { c.setStage sig.handler with usr2 := c.usr2 || sig == .SIGUSR2 } := by
  by_cases hsig : sig = .SIGUSR2
  · subst hsig
    refine ⟨fun he => ?_, fun _ => rfl, fun _ => by simp, ?_, h.success⟩
    · -- nothing has ended the session yet
      have he : c.ended = true := by
        simpa [Connection.setStage, Signal.handler, ConnectStage.isOver] using he
      rw [hok rfl] at he
      exact absurd he (by simp)
    · exact notMem_excluded (Or.inl rfl) c.pc
  · have hover : sig.handler.isOver = true := by
      cases sig with
      | SIGUSR2 => exact absurd rfl hsig
      | _ => rfl
    have hne : sig.handler ≠ .CONNECTED := by
      intro heq
      rw [heq] at hover
      simp [ConnectStage.isOver] at hover
    have hs := h.setStage hne (notMem_excluded (Or.inr hover) c.pc)
    exact { hs with usr2 := fun hc => absurd hc hne }

/-- A signal that comes in order keeps the client in step. -/
theorem Ordered.deliver {sig : Signal} (h : Ordered c) (hok : InOrder (.deliver sig) c)
    (hd : c.deliver sig = some c') : Ordered c' := by
  unfold Connection.deliver at hd
  rcases Option.ite_none_left_eq_some.mp hd with ⟨-, hd⟩
  split at hd
  · obtain rfl := Option.some.inj hd
    exact h.goto (by simp [excluded])
  · obtain rfl := Option.some.inj hd
    have hs := h.handler sig fun hsig => hok (Or.inl (hsig ▸ rfl))
    split
    · -- sigsuspend returns for any signal, the stage is what tells
      rename_i hpc
      have hpc : c.pc = .suspended := hpc
      refine hs.goto ?_
      show [ConnectStage.IDLE] ⊆ excluded c.pc
      rw [hpc]
      simp [excluded]
    · exact hs

/-- At the successful return, with nothing that ends the session delivered, the client is
connected. -/
theorem Ordered.connected (h : Ordered c) (hpc : c.pc = .success) (he : c.ended = false) :
    c.CONNECTION_STATE = .CONNECTED := by
  have hfresh := h.fresh he
  have hstage := h.stage
  rw [hpc] at hstage
  cases hst : c.CONNECTION_STATE with
  | IDLE | SYN_SENT => simp [hst, excluded] at hstage
  | CONNECTED => rfl
  | DISCONNECTED | TIMED_OUT => simp [hst, ConnectStage.isOver] at hfresh

/-- A return, which succeeds only in the state `CONNECTED`. -/
theorem Ordered.ret (h : Ordered c) {err : ErrType} {pc : ClientPc}
    (hsucc : err = .SUCCESS → c.CONNECTION_STATE = .CONNECTED) (hpc : excluded pc = []) :
    Ordered (c.ret err pc) :=
  { h with
    stage := by
      show c.CONNECTION_STATE ∉ excluded pc
      simp [hpc]
    success := fun r hr herr => by
      obtain rfl := Option.some.inj hr
      exact ⟨h.usr2 (hsucc herr), hsucc herr⟩ }

/-- A step of the client's own keeps it in step with the signals. -/
theorem Ordered.next (h : Ordered c) (hok : InOrder .next c) (hn : c.nextStep = some c') :
    Ordered c' := by
  have hstage := h.stage
  unfold nextStep at hn
  -- by the place where the client is
  cases hpc : c.pc with
  | start | killFailed =>
    simp only [hpc, Option.some_inj] at hn
    subst hn
    exact h.goto (by simp [excluded])
  | woken | restoring =>
    simp only [hpc, Option.some_inj] at hn
    subst hn
    exact h.goto (by simp [hpc, excluded])
  | blocked =>
    simp only [hpc, Option.some_inj] at hn
    subst hn
    have hs : Ordered (c.setStage .SYN_SENT) := h.setStage (by simp) (by simp [hpc, excluded])
    exact hs.congr rfl rfl rfl rfl (by simp [Connection.setStage, Connection.goto, excluded])
  | waitTest =>
    simp only [hpc, Option.some_inj] at hn
    subst hn
    split
    · exact h.goto (by simp [hpc, excluded])
    · -- the wait ends when a handler has overwritten `SYN_SENT`
      rename_i hst
      simp only [hpc, excluded, List.mem_singleton] at hstage
      exact h.congr rfl rfl rfl rfl (by simp [Connection.goto, excluded, hstage, hst])
  | timeoutTest =>
    simp only [hpc, Option.some_inj] at hn
    subst hn
    split
    · exact h.goto (by simp [excluded])
    · exact h.goto (by simp [hpc, excluded])
  | closing =>
    simp only [hpc, Option.some_inj] at hn
    subst hn
    exact h.congr rfl rfl rfl rfl (by simp [Connection.goto, excluded])
  | opened =>
    simp only [hpc, Option.some_inj] at hn
    subst hn
    refine h.congr rfl rfl rfl rfl ?_
    rw [hpc] at hstage
    exact hstage
  | sigFail | hskTo | pipeFail =>
    simp only [hpc, Option.some_inj] at hn
    subst hn
    exact h.ret (by simp) rfl
  | success =>
    simp only [hpc, Option.some_inj] at hn
    subst hn
    refine h.ret (fun _ => ?_) rfl
    exact h.connected hpc (hok (Or.inr ⟨rfl, hpc⟩))
  | hskFail =>
    simp only [hpc, Option.some_inj] at hn
    subst hn
    exact h.disconnected.goto (by simp [excluded])
  | sending =>
    simp only [hpc, Option.some_inj] at hn
    subst hn
    split
    · exact h
    · exact h.goto (by simp [excluded])
  | teardown =>
    simp only [hpc, Option.some_inj] at hn
    subst hn
    split
    · exact h.congr rfl rfl rfl rfl (by simp [Connection.goto, excluded])
    · exact h.goto (by simp [excluded])
  | joining =>
    simp only [hpc] at hn
    rcases Option.ite_none_left_eq_some.mp hn with ⟨-, hn⟩
    obtain rfl := Option.some.inj hn
    exact h.goto (by simp [excluded])
  | killing | suspended | openRead | openWrite | authorise | spawnReceiver | exited | killed =>
    simp [hpc] at hn

/-- A step in order keeps the client in step with the signals. -/
theorem Ordered.step {lbl : ClientLbl} (h : Ordered c) (hok : InOrder lbl c)
    (hs : Connection.step lbl c = some c') : Ordered c' := by
  have hstage := h.stage
  -- the answers of the system calls, and the signals
  cases lbl with
  | deliver sig => exact h.deliver hok hs
  | next => exact h.next hok hs
  | kill succeeds =>
    rcases Option.ite_none_right_eq_some.mp hs with ⟨hpc, hs⟩
    obtain rfl := Option.some.inj hs
    refine h.goto ?_
    split <;> simp [hpc, excluded]
  | openFifo fd =>
    simp only [Connection.step] at hs
    cases hpc : c.pc with
    | openRead =>
      rw [hpc] at hstage
      cases fd with
      | none =>
        simp only [hpc, Option.some_inj] at hs
        subst hs
        exact h.goto (by simp [excluded])
      | some r_temp =>
        simp only [hpc] at hs
        rcases Option.ite_none_left_eq_some.mp hs with ⟨-, hs⟩
        obtain rfl := Option.some.inj hs
        exact h.congr rfl rfl rfl rfl hstage
    | openWrite =>
      rw [hpc] at hstage
      cases fd with
      | none =>
        simp only [hpc, Option.some_inj] at hs
        subst hs
        exact h.goto (by simp [hpc, excluded])
      | some w_temp =>
        simp only [hpc] at hs
        rcases Option.ite_none_left_eq_some.mp hs with ⟨-, hs⟩
        obtain rfl := Option.some.inj hs
        exact h.congr rfl rfl rfl rfl hstage
    | _ => simp [hpc] at hs
  | authorise accepted =>
    rcases Option.ite_none_right_eq_some.mp hs with ⟨hpc, hs⟩
    split at hs
    · obtain rfl := Option.some.inj hs
      exact h.goto (by simp [excluded])
    · -- a rejected login
      obtain rfl := Option.some.inj hs
      exact h.disconnected.goto (by simp [excluded])
    · obtain rfl := Option.some.inj hs
      exact h.congr rfl rfl rfl rfl (by simp [Connection.goto, excluded])
  | spawnReceiver succeeds =>
    rcases Option.ite_none_right_eq_some.mp hs with ⟨hpc, hs⟩
    obtain rfl := Option.some.inj hs
    split
    · exact h.congr rfl rfl rfl rfl (by simp [Connection.goto, excluded])
    · exact h.goto (by simp [excluded])
  | inputEnds =>
    rcases Option.ite_none_right_eq_some.mp hs with ⟨-, hs⟩
    obtain rfl := Option.some.inj hs
    exact h.disconnected.congr rfl rfl rfl rfl (by simp [Connection.goto, excluded])
  | receiverEnds =>
    rcases Option.ite_none_right_eq_some.mp hs with ⟨-, hs⟩
    obtain rfl := Option.some.inj hs
    exact h.disconnected.congr rfl rfl rfl rfl h.disconnected.stage

/-- The client is in step with the signals in every run in which they come in their order. -/
theorem reachable_ordered (h : (system.under InOrder).Reachable c) : Ordered c := by
  refine h.invariant (fun c hc => ?_) (fun lbl c c' hn ho => ?_)
  · subst hc
    exact ordered_init
  · exact ho.step hn.1 hn.2

/-- The condition is exact: the first step that does not meet it ends in a state that is not
sound. -/
theorem not_sound_of_not_inOrder {lbl : ClientLbl} (h : Ordered c) (hok : ¬ InOrder lbl c)
    (hs : Connection.step lbl c = some c') : ¬ Sound c' := by
  intro hsound
  rcases Classical.not_imp.mp hok with ⟨hlbl, hended⟩
  have hended : c.ended = true := by simpa using hended
  rcases hlbl with rfl | ⟨rfl, hpc⟩
  · -- `sigusr2_handler` does not look at the stage
    simp only [Connection.step, Connection.deliver] at hs
    rcases Option.ite_none_left_eq_some.mp hs with ⟨-, hs⟩
    simp only [reduceCtorEq, false_and, if_false, Option.some_inj] at hs
    subst hs
    have hover := hsound.stays
    split at hover
    · exact hover (by simp [Connection.goto, Connection.setStage, hended]) rfl
    · exact hover (by simp [Connection.setStage, hended]) rfl
  · -- only `TIMED_OUT` is looked at after the wait
    simp only [Connection.step, nextStep, hpc, Option.some_inj] at hs
    subst hs
    exact h.stays hended ((hsound.ret _ rfl).success rfl).2

/-! ### Results -/

/-- In every run in which `SIGUSR2` comes before all that ends the session, and nothing that
ends it comes before the successful return of `perform_handshake`: a session that is over does
not become connected again, `perform_handshake` succeeds only after `SIGUSR2` and in the state
`CONNECTED`, and it leaves no descriptor open when it fails. -/
theorem sound_of_inOrder (h : (system.under InOrder).Reachable c) : Sound c where
  stays := (reachable_ordered h).stays
  ret := fun r hr =>
    ⟨(reachable_ordered h).success r hr, (reachable_tidy h.of_under).error r hr⟩

/-- A handshake, a rejected login and the teardown. -/
def rejectedLogin : List ClientLbl :=
  [.next, .next, .kill true, .next, .deliver .SIGUSR2, .next, .next, .next, .next,
    .openFifo (some 3), .openFifo (some 4), .next, .next, .authorise (some false), .next]

theorem sound_of_inOrder_rejectedLogin :
    ∃ c, (system.under InOrder).Reachable c ∧
      c.returned = some ⟨.SUCCESS, .CONNECTED, true, [4, 3]⟩ ∧
      c.CONNECTION_STATE = .DISCONNECTED ∧ c.fds = [] ∧ Sound c := by
  obtain ⟨c, hr, hc⟩ := exists_reachable_of_run .init
    (guarded InOrder Connection.step) rejectedLogin
    (fun c => c.returned = some ⟨.SUCCESS, .CONNECTED, true, [4, 3]⟩ ∧
      c.CONNECTION_STATE = .DISCONNECTED ∧ c.fds = []) (by decide)
  rw [← under_ofStep] at hr
  rcases of_decide_eq_true hc with ⟨hret, hst, hfds⟩
  exact ⟨c, hr, hret, hst, hfds, sound_of_inOrder hr⟩

/-- A shutdown signal ends the wait of `perform_handshake`, which goes on to open the FIFOs. -/
def interruptedWait : List ClientLbl :=
  [.next, .next, .kill true, .next, .deliver .SIGINT, .next, .next, .next, .next,
    .openFifo (some 3), .openFifo (some 4), .next, .next]

/-- Signals out of order. -/
theorem unsound_interruptedWait : ¬ ∀ c, system.Reachable c → Sound c := by
  intro h
  obtain ⟨c, hr, hc⟩ := exists_reachable_of_run .init Connection.step interruptedWait
    (fun c => c.returned = some ⟨.SUCCESS, .DISCONNECTED, false, [4, 3]⟩) (by decide)
  have hsucc := ((h c hr).ret _ (of_decide_eq_true hc)).success rfl
  exact absurd hsucc.1 (by simp)

end AnimateServer.Client.Handshake
