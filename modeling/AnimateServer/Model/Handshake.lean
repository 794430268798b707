import AnimateServer.Model.Types

/-!
# The connection of the client (`client/src/c_helper.c`, `client/src/animate_client.c`)

`CONNECTION_STATE` is written by three signal handlers, by `perform_handshake`, by the
main thread and by the receiver thread. Here `perform_handshake` is taken apart into the
steps between which a signal can arrive; all signals are blocked from its start to the end
of its wait, except in `sigsuspend`. Anybody can send the client a signal, so `SIGALRM` is
not tied to the calls of `alarm`.
-/

namespace AnimateServer.Client

/-- `ConnectStage`. -/
inductive ConnectStage where
  | IDLE
  | SYN_SENT
  | CONNECTED
  | DISCONNECTED
  | TIMED_OUT
deriving DecidableEq, Repr

/-- The stages after which the session is over. -/
def ConnectStage.isOver : ConnectStage → Bool
  | .DISCONNECTED | .TIMED_OUT => true
  | _ => false

/-- The signals that `client_setup_signals` installs a handler for. -/
inductive Signal where
  | SIGUSR2
  | SIGALRM
  | SIGINT
  | SIGTERM
  | SIGQUIT
  | SIGHUP
deriving DecidableEq, Repr

/-- `sigusr2_handler`, `alarm_handler` and `shutdown_handler`: what each writes to
`CONNECTION_STATE`. -/
def Signal.handler : Signal → ConnectStage
  | .SIGUSR2 => .CONNECTED
  | .SIGALRM => .TIMED_OUT
  | .SIGINT | .SIGTERM | .SIGQUIT | .SIGHUP => .DISCONNECTED

/-- Where the main thread is. -/
inductive ClientPc where
  /-- Behind `client_setup_signals`. -/
  | start
  /-- At `CONNECTION_STATE = SYN_SENT`. -/
  | blocked
  | killing
  /-- Behind a failed `kill`, before and after the mask is restored. -/
  | killFailed
  | sigFail
  /-- At `while (CONNECTION_STATE == SYN_SENT)`. -/
  | waitTest
  /-- In `sigsuspend`, before and after the first delivery. -/
  | suspended
  | woken
  /-- Behind the wait. -/
  | restoring
  | timeoutTest
  | openRead
  | openWrite
  /-- At `close(S_READ)`. -/
  | closing
  /-- At `reset_alarm_handler`. -/
  | opened
  /-- At the three returns. -/
  | success
  | hskTo
  | hskFail
  | pipeFail
  /-- The rest of `main`. -/
  | authorise
  | spawnReceiver
  | sending
  | teardown
  /-- At `pthread_join`. -/
  | joining
  | exited
  /-- Ended by a signal without a handler. -/
  | killed
deriving DecidableEq, Repr

/-- No signal is delivered. -/
def ClientPc.deaf : ClientPc → Bool
  -- masked
  | .blocked | .killing | .killFailed | .waitTest | .restoring => true
  -- no process
  | .exited | .killed => true
  | _ => false

/-- What `perform_handshake` has returned, and what was the case at that moment. -/
structure Returned where
  err : ErrType
  stage : ConnectStage
  usr2 : Bool
  fds : List Nat
deriving DecidableEq, Repr

/-- The state of the client. `fds` are the descriptors that `perform_handshake` has opened
and that are still open, `alarmReset` says that `SIGALRM` has its default action. The last
three fields are history: whether `SIGUSR2` has been delivered, whether
`CONNECTION_STATE` has ever been `DISCONNECTED` or `TIMED_OUT`, and the return of
`perform_handshake`. -/
structure Connection where
  CONNECTION_STATE : ConnectStage
  retval : ErrType
  LOGGED_IN : Bool
  S_READ : Nat
  C_WRITE : Nat
  pc : ClientPc
  alarmReset : Bool
  receiver : Bool
  fds : List Nat
  usr2 : Bool
  ended : Bool
  returned : Option Returned
deriving DecidableEq, Repr

inductive ClientLbl where
  /-- A signal is delivered. -/
  | deliver (sig : Signal)
  /-- The outcome of `kill`. -/
  | kill (succeeds : Bool)
  /-- The outcome of an `open`; `none` is -1. -/
  | openFifo (fd : Option Nat)
  /-- How `authorise` ends; `none` is an end without an answer to a `Login`. -/
  | authorise (accepted : Option Bool)
  /-- The outcome of `pthread_create`. -/
  | spawnReceiver (succeeds : Bool)
  /-- `send_user_input` has returned -1 or 0. -/
  | inputEnds
  /-- The receiver thread reads the end of the stream. -/
  | receiverEnds
  /-- The next step where nothing is left to chance. -/
  | next
deriving DecidableEq, Repr

namespace Connection

def init : Connection where
  CONNECTION_STATE := .IDLE
  retval := .SUCCESS
  LOGGED_IN := false
  S_READ := 0
  C_WRITE := 0
  pc := .start
  alarmReset := false
  receiver := false
  fds := []
  usr2 := false
  ended := false
  returned := none

def goto (pc : ClientPc) (c : Connection) : Connection :=
  { c with pc }

/-- `CONNECTION_STATE = stage`. -/
def setStage (stage : ConnectStage) (c : Connection) : Connection :=
  { c with CONNECTION_STATE := stage, ended := c.ended || stage.isOver }

/-- `return err` of `perform_handshake`, to `pc` in `main`. -/
def ret (err : ErrType) (pc : ClientPc) (c : Connection) : Connection :=
  { c with
    retval := if err = .SUCCESS then c.retval else err
    pc
    returned := some ⟨err, c.CONNECTION_STATE, c.usr2, c.fds⟩ }

/-- The delivery of a signal. In `sigsuspend` it ends the wait, after the other pending
signals have been delivered too. -/
def deliver (sig : Signal) (c : Connection) : Option Connection :=
  if c.pc.deaf then none
  else if sig = .SIGALRM ∧ c.alarmReset = true then some (c.goto .killed)
  else
    let c := { c.setStage sig.handler with usr2 := c.usr2 || sig == .SIGUSR2 }
    some (if c.pc = .suspended then c.goto .woken else c)

/-- `pipes_opened`, which `main` sets after a successful handshake. -/
def pipesOpened (c : Connection) : Bool :=
  match c.returned with
  | some r => r.err == .SUCCESS
  | none => false

/-- The steps without an outcome. -/
def nextStep (c : Connection) : Option Connection :=
  match c.pc with
  | .start => some (c.goto .blocked)
  | .blocked => some ((c.setStage .SYN_SENT).goto .killing)
  | .killFailed => some (c.goto .sigFail)
  | .sigFail => some (c.ret .SIG_FAIL .teardown)
  | .waitTest => some (c.goto (if c.CONNECTION_STATE = .SYN_SENT then .suspended else .restoring))
  | .woken => some (c.goto .waitTest)
  | .restoring => some (c.goto .timeoutTest)
  -- the only stage that is looked at after the wait
  | .timeoutTest => some (c.goto (if c.CONNECTION_STATE = .TIMED_OUT then .hskTo else .openRead))
  | .closing => some ({ c with fds := c.fds.erase c.S_READ }.goto .hskFail)
  | .opened => some ({ c with alarmReset := true }.goto .success)
  | .success => some (c.ret .SUCCESS .authorise)
  | .hskTo => some (c.ret .TIMEDOUT .teardown)
  | .hskFail => some ((c.setStage .DISCONNECTED).goto .pipeFail)
  | .pipeFail => some (c.ret .PIPE_FAIL .teardown)
  -- `while (CONNECTION_STATE == CONNECTED && LOGGED_IN)`
  | .sending =>
    some (if c.CONNECTION_STATE = .CONNECTED ∧ c.LOGGED_IN = true then c else c.goto .teardown)
  | .teardown =>
    some (if c.pipesOpened then
      { c with fds := (c.fds.erase c.S_READ).erase c.C_WRITE }.goto .joining
    else c.goto .exited)
  -- the receiver is joined behind the two `close`
  | .joining => if c.receiver then none else some (c.goto .exited)
  | _ => none

/-- `CONNECTION_STATE = DISCONNECTED; LOGGED_IN = 0;`. -/
def disconnect (c : Connection) : Connection :=
  { c.setStage .DISCONNECTED with LOGGED_IN := false }

/-- One step of the client. An `open` returns no descriptor that is open. -/
def step : ClientLbl → Connection → Option Connection
  | .deliver sig, c => c.deliver sig
  | .kill succeeds, c =>
    if c.pc = .killing then some (c.goto (if succeeds then .waitTest else .killFailed)) else none
  | .openFifo fd, c =>
    match c.pc with
    | .openRead =>
      match fd with
      | none => some (c.goto .hskFail)
      | some r_temp =>
        if r_temp ∈ c.fds then none
        else some ({ c with S_READ := r_temp, fds := r_temp :: c.fds }.goto .openWrite)
    | .openWrite =>
      match fd with
      | none => some (c.goto .closing)
      | some w_temp =>
        if w_temp ∈ c.fds then none
        else some ({ c with C_WRITE := w_temp, fds := w_temp :: c.fds }.goto .opened)
    | _ => none
  | .authorise accepted, c =>
    if c.pc = .authorise then
      match accepted with
      | none => some (c.goto .teardown)
      | some false => some ((c.setStage .DISCONNECTED).goto .teardown)
      | some true => some ({ c with LOGGED_IN := true }.goto .spawnReceiver)
    else none
  | .spawnReceiver succeeds, c =>
    if c.pc = .spawnReceiver then
      some (if succeeds then { c with receiver := true }.goto .sending else c.goto .teardown)
    else none
  | .inputEnds, c => if c.pc = .sending then some (c.disconnect.goto .teardown) else none
  | .receiverEnds, c => if c.receiver then some { c.disconnect with receiver := false } else none
  | .next, c => c.nextStep

end Connection

end AnimateServer.Client
