import AnimateServer.Lib.Sweep
import AnimateServer.Model.ClientHandler
import AnimateServer.Verify.RpcPipe
import AnimateServer.Verify.SlotMirror

/-!
# One turn for each client slot

The client request handler removes slots from the array it goes through. As long as no two
slots have the same descriptor, `server_remove_pollslots` takes out the slot the loop is at
and moves the last one there, so that the loop is a `Sweep` of the client slots.
-/

namespace AnimateServer.SlotSweep

open CLib Sweeping ServerSteps

/-! ## The slots as a list -/

/-- Behind the two self pipes stand these slots. -/
structure Holds (p : PollSlots) (l : List ClientSlot) : Prop where
  count : p.count = l.length + 2
  slot : ∀ k slot, l[k]? = some slot →
    p.pfds (k + 2) = slot.pfd ∧ p.clients (k + 2) = some slot.client

/-- No two slots have the same descriptor. -/
def DistinctFds (p : PollSlots) : Prop :=
  ∀ i j, i < p.count → j < p.count → (p.pfds i).fd = (p.pfds j).fd → i = j

/-- The slots of the self pipes are the same. -/
def SameSelf (p p' : PollSlots) : Prop :=
  ∀ k < 2, p'.pfds k = p.pfds k ∧ p'.clients k = p.clients k

section Slots

variable {p : PollSlots} {done todo : List ClientSlot} {slot : ClientSlot}

/-- The slot between those that are done and those to do is where the loop stands. -/
theorem Holds.at_mid (h : Holds p (done ++ slot :: todo)) :
    done.length + 2 < p.count ∧ p.pfds (done.length + 2) = slot.pfd ∧
      p.clients (done.length + 2) = some slot.client := by
  constructor
  · rw [h.count]
    simp
  · exact h.slot _ _ (by simp)

/-- With distinct descriptors the slot that is found is the one the loop is at. -/
theorem Holds.serverRemovePollslots (h : Holds p (done ++ slot :: todo)) (hfd : DistinctFds p) :
    p.serverRemovePollslots slot.pfd.fd = p.moveLast (done.length + 2) := by
  rcases h.at_mid with ⟨hlt, hpfd, -⟩
  rcases serverRemovePollslots_cases slot.pfd.fd p with ⟨hnone, -⟩ | ⟨i, hi, hmatch, heq⟩
  · exact absurd (by rw [hpfd]) (hnone _ hlt)
  · rw [heq, hfd i (done.length + 2) hi hlt (by rw [hmatch, hpfd])]

/-- When a slot goes, the last one of those to do takes its place. -/
theorem Holds.moveLast (h : Holds p (done ++ slot :: todo)) :
    Holds (p.moveLast (done.length + 2)) (done ++ closeHole todo) := by
  have hcount : p.count = (done ++ todo).length + 3 := by
    rw [h.count]
    simp only [List.length_append, List.length_cons]
    omega
  constructor
  · rw [count_moveLast, hcount]
    simp
  · intro k x hx
    have hk : k < (done ++ todo).length := by
      simpa using (List.getElem?_eq_some_iff.mp hx).1
    rw [getElem?_closeHole done todo slot hk] at hx
    -- the last slot fills the hole, the others stay
    have hfrom : movedFrom p (done.length + 2) (k + 2) =
        (if k = done.length then (done ++ todo).length else k) + 2 := by
      unfold movedFrom
      split_ifs <;> omega
    obtain ⟨hpfds, hclients⟩ := pfds_moveLast (p := p) (i := done.length + 2) (k := k + 2)
      (by omega)
    rw [hpfds, hclients, hfrom]
    exact h.slot _ _ hx

/-- The descriptors stay apart when the last slot fills the gap. -/
theorem DistinctFds.moveLast (hfd : DistinctFds p) {i : Nat} (hi : i < p.count) :
    DistinctFds (p.moveLast i) := by
  intro j k hj hk heq
  rw [count_moveLast] at hj hk
  rw [(pfds_moveLast hj).1, (pfds_moveLast hk).1] at heq
  have hfrom := hfd _ _ (by unfold movedFrom; split_ifs <;> omega)
    (by unfold movedFrom; split_ifs <;> omega) heq
  unfold movedFrom at hfrom
  split_ifs at hfrom <;> omega

/-- The first two slots stay when the last slot fills the gap. -/
theorem sameSelf_moveLast {i : Nat} (h₂ : 2 ≤ i) (hi : i < p.count) :
    SameSelf p (p.moveLast i) := by
  intro k hk
  have hfrom : movedFrom p i k = k := if_neg (by omega)
  have hmoved := pfds_moveLast (p := p) (i := i) (k := k) (by omega)
  rwa [hfrom] at hmoved

end Slots

/-! ## What a turn leaves alone -/

section Frame

variable (cfg : Config) (s : Server)

/-- What the workers do in the meantime touches no slot. -/
theorem slots_meanwhile (steps : List WorkerLbl) : (s.meanwhile cfg steps).slots = s.slots := by
  induction steps generalizing s with
  | nil => rfl
  | cons l rest ih =>
    -- workers take tasks and post results, the slots are main's
    cases l with
    | dequeue w =>
      rw [Server.meanwhile, ih]
      cases hs : s.dequeue w with
      | none => rfl
      | some s' =>
        rcases dequeue_cases hs with ⟨task, queue, -, -, rfl⟩
        rfl
    | finish w env =>
      rw [Server.meanwhile, ih]
      cases hs : s.finish cfg w env with
      | none => rfl
      | some s' =>
        rcases finish_cases hs with ⟨task, -, ⟨body, -, -, -, rfl⟩ | ⟨-, rfl⟩⟩
        · rw [Option.getD_some, postResult_eq]
          split <;> rfl
        · rfl

theorem slots_acquireAndEnqueue (alloc : Bool) (type : TaskType) (request : CStr)
    (client : ClientRef) :
    (s.acquireAndEnqueue alloc type request client).2.slots = s.slots := by
  unfold Server.acquireAndEnqueue
  split
  · rfl
  · unfold Server.taskEnqueue
    split <;> rfl

/-- A request touches no slot. -/
theorem slots_handleCommand (alloc : Bool) (client : ClientRef) (cmd : CStr) :
    (s.handleCommand alloc client cmd).2.slots = s.slots := by
  rcases handleCommand_cases alloc client cmd s with
    ⟨-, s', rfl | rfl, heq⟩ | ⟨-, -, heq⟩ | ⟨-, s', type, args, rfl | rfl, -, heq⟩
  · rw [heq]
  · rw [heq]
    rfl
  · rw [heq]
  · rw [heq, slots_acquireAndEnqueue]
  · rw [heq, slots_acquireAndEnqueue]
    rfl

/-- The requests of one wake touch no slot. -/
theorem slots_requestLoop (call : Nat → ReadCall) (client : ClientRef) (n : Nat) :
    (s.requestLoop cfg call client n).2.slots = s.slots := by
  induction n generalizing s with
  | zero => rfl
  | succ n ih =>
    rw [Server.requestLoop]
    split
    · -- no command of a client changes the slots
      have hcmd : ∀ alloc cmd, ((s.meanwhile cfg
          (call (FIFO_MAX_PER_WAKE - (n + 1))).workers).handleCommand alloc client cmd).2.slots =
          s.slots := fun alloc cmd => (slots_handleCommand _ alloc client cmd).trans
            (slots_meanwhile _ _ _)
      dsimp only
      split
      · exact hcmd _ _
      · exact (ih _).trans (hcmd _ _)
    · exact slots_meanwhile _ _ _
    · exact slots_meanwhile _ _ _
    · exact slots_meanwhile _ _ _
    · rw [ih, slots_meanwhile]

/-- Serving a client touches no slot; only its removal does, which comes after that. -/
theorem slots_serveSlot (call : Nat → ReadCall) (slot : ClientSlot) :
    (s.serveSlot cfg call slot).2.slots = s.slots := by
  unfold Server.serveSlot
  split
  · rfl
  · split
    · exact slots_requestLoop _ _ _ _ _
    · rfl

end Frame

/-! ## The loop -/

/-- `to_remove` goes by the slot's own `revents`: it is set after an error, and not set if the
slot has nothing to read. In the other cases the requests of the client decide. -/
def Judged (m : ClientSlot × Bool) : Prop :=
  (m.1.pfd.revents.failed = true → m.2 = true) ∧
    (m.1.pfd.revents.failed = false → m.1.pfd.revents.readable = false → m.2 = false)

/-- Whether a client goes is decided by its own `revents`, or by its requests. -/
theorem judged_serveSlot (cfg : Config) (call : Nat → ReadCall) (slot : ClientSlot) (s : Server) :
    Judged (slot, (s.serveSlot cfg call slot).1) := by
  constructor
  · intro hfail
    rw [Server.serveSlot, if_pos hfail]
  · intro hok hread
    rw [Server.serveSlot, if_neg (by simpa using hok), if_neg (by simpa using hread)]

section Loop

variable {cfg : Config} {turn : Nat → HandlerTurn}

/-- What a turn at a client slot does. -/
theorem clientHandler_turn {t i : Nat} {s : Server} {client : ClientRef}
    (hrun : (turn t).running = true) (hi : i < s.slots.count)
    (hclient : s.slots.clients i = some client) :
    ∃ (toRemove : Bool) (s' : Server), s'.slots = s.slots ∧
      Judged (⟨s.slots.pfds i, client⟩, toRemove) ∧
      ∀ fuel, s.clientHandler cfg turn (fuel + 1) t i =
        (if toRemove then
          ((s'.removeSlot (s.slots.pfds i).fd).cregRemove client).clientHandler
            cfg turn fuel (t + 1) i
        else s'.clientHandler cfg turn fuel (t + 1) (i + 1)).map fun r =>
          ((⟨s.slots.pfds i, client⟩, toRemove) :: r.1, r.2) := by
  -- what the workers did before this turn left the slots alone
  have hslots := slots_meanwhile cfg s (turn t).workers
  generalize hw : s.meanwhile cfg (turn t).workers = s₁ at hslots
  refine ⟨(s₁.serveSlot cfg (turn t).call ⟨s.slots.pfds i, client⟩).1,
    (s₁.serveSlot cfg (turn t).call ⟨s.slots.pfds i, client⟩).2,
    (slots_serveSlot _ _ _ _).trans hslots, judged_serveSlot _ _ _ _, fun fuel => ?_⟩
  rw [Server.clientHandler]
  simp only [hw, hslots, hrun, hi, hclient, and_self, if_true]
  cases (s₁.serveSlot cfg (turn t).call ⟨s.slots.pfds i, client⟩).1 <;> rfl

/-- Past the last slot the loop ends. -/
theorem clientHandler_end {t i : Nat} {s : Server} (fuel : Nat) (hi : s.slots.count ≤ i) :
    s.clientHandler cfg turn (fuel + 1) t i = some ([], s.meanwhile cfg (turn t).workers) := by
  rw [Server.clientHandler, slots_meanwhile, if_neg (by omega)]

/-- The loop is a sweep of the slots that lie ahead, and takes one turn for each. -/
theorem clientHandler_sweeps (hrun : ∀ t, (turn t).running = true) :
    ∀ (n t : Nat) (s : Server) (done todo : List ClientSlot), todo.length = n →
      Holds s.slots (done ++ todo) → DistinctFds s.slots →
      ∃ met s' final, (∀ fuel, n < fuel →
          s.clientHandler cfg turn fuel t (done.length + 2) = some (met, s')) ∧
        Sweep done todo met final ∧ Holds s'.slots final ∧ SameSelf s.slots s'.slots ∧
        ∀ m ∈ met, Judged m := by
  intro n
  induction n with
  | zero =>
    intro t s done todo hlen hholds _
    obtain rfl := List.length_eq_zero_iff.mp hlen
    have hcount : s.slots.count ≤ done.length + 2 := by
      rw [hholds.count]
      simp
    refine ⟨[], s.meanwhile cfg (turn t).workers, done, fun fuel hfuel => ?_, .finished done, ?_,
      ?_, by simp⟩
    · obtain ⟨f, rfl⟩ : ∃ f, fuel = f + 1 := ⟨fuel - 1, by omega⟩
      exact clientHandler_end f hcount
    · rw [slots_meanwhile]
      simpa using hholds
    · rw [slots_meanwhile]
      exact fun _ _ => ⟨rfl, rfl⟩
  | succ n ih =>
    intro t s done todo hlen hholds hfd
    obtain ⟨slot, todo, rfl⟩ : ∃ a l, todo = a :: l := List.exists_cons_of_length_eq_add_one hlen
    rcases hholds.at_mid with ⟨hlt, hpfd, hclient⟩
    rcases clientHandler_turn (hrun t) hlt hclient with ⟨toRemove, s₁, hslots, hjudged, hturn⟩
    rw [hpfd] at hjudged hturn
    cases toRemove with
    | false =>
      obtain ⟨met, s', final, hruns, hsweep, hheld, hself, hall⟩ :=
        ih (t + 1) s₁ (done ++ [slot]) todo (by simpa using hlen) (by simpa [hslots] using hholds)
          (by rwa [hslots])
      refine ⟨(slot, false) :: met, s', final, fun fuel hfuel => ?_, .keep slot hsweep, hheld,
        hslots ▸ hself, List.forall_mem_cons.mpr ⟨hjudged, hall⟩⟩
      obtain ⟨f, rfl⟩ : ∃ f, fuel = f + 1 := ⟨fuel - 1, by omega⟩
      have hrest := hruns f (by omega)
      rw [List.length_append, List.length_singleton] at hrest
      rw [hturn, if_neg (by simp), hrest]
      rfl
    | true =>
      -- the last slot has been moved here, so the index stays
      have hmoved : ((s₁.removeSlot slot.pfd.fd).cregRemove slot.client).slots =
          s.slots.moveLast (done.length + 2) := by
        show s₁.slots.serverRemovePollslots slot.pfd.fd = _
        rw [hslots, hholds.serverRemovePollslots hfd]
      have hself₁ := sameSelf_moveLast (by omega) hlt
      obtain ⟨met, s', final, hruns, hsweep, hheld, hself, hall⟩ :=
        ih (t + 1) ((s₁.removeSlot slot.pfd.fd).cregRemove slot.client) done (closeHole todo)
          (by simpa using hlen) (by rw [hmoved]; exact hholds.moveLast)
          (by rw [hmoved]; exact hfd.moveLast hlt)
      refine ⟨(slot, true) :: met, s', final, fun fuel hfuel => ?_, .remove slot hsweep, hheld, ?_,
        List.forall_mem_cons.mpr ⟨hjudged, hall⟩⟩
      · obtain ⟨f, rfl⟩ : ∃ f, fuel = f + 1 := ⟨fuel - 1, by omega⟩
        rw [hturn, if_pos rfl, hruns f (by omega)]
        rfl
      · intro k hk
        rw [hmoved] at hself
        exact ⟨(hself k hk).1.trans (hself₁ k hk).1, (hself k hk).2.trans (hself₁ k hk).2⟩

end Loop

/-- However many clients leave in the pass, the loop ends after one turn for each client slot
that was there when it started, with the `revents` of that slot, and leaves the slots of the
clients that it did not remove. -/
theorem each_slot_serviced_once (cfg : Config) (turn : Nat → HandlerTurn) (s : Server)
    (slots : List ClientSlot) (hslots : Holds s.slots slots) (hfds : DistinctFds s.slots)
    (hrun : ∀ t, (turn t).running = true) :
    ∃ met s', (∀ fuel, slots.length < fuel → s.clientHandler cfg turn fuel 0 2 = some (met, s')) ∧
      (met.map Prod.fst).Perm slots ∧ (met.map Prod.fst).Nodup ∧ (∀ m ∈ met, Judged m) ∧
      Holds s'.slots (kept met) ∧ SameSelf s.slots s'.slots := by
  obtain ⟨met, s', final, hruns, hsweep, hheld, hself, hall⟩ :=
    clientHandler_sweeps hrun slots.length 0 s [] slots rfl hslots hfds
  have hfinal : final = kept met := by simpa using hsweep.final_eq
  -- two equal slots would have one descriptor twice
  have hnodup : slots.Nodup := by
    rw [List.nodup_iff_getElem?_ne_getElem?]
    intro i j hij hj heq
    have hi := List.getElem?_eq_getElem (hij.trans hj)
    have hj' := List.getElem?_eq_getElem hj
    have hpfd := (hslots.slot i _ hi).1.trans (hslots.slot j _ (heq ▸ hi)).1.symm
    have hcount := hslots.count
    have hsame := hfds (i + 2) (j + 2) (by omega) (by omega) (by rw [hpfd])
    omega
  exact ⟨met, s', hruns, hsweep.perm, (hsweep.perm.nodup_iff).mpr hnodup, hall,
    hfinal ▸ hheld, hself⟩

/-! ## Three clients, two of which leave -/

/-- The slots `slots` behind the self pipes. -/
def seat (slots : List ClientSlot) (p : PollSlots) : PollSlots :=
  { p with
    pfds := fun i => if i < 2 then p.pfds i
      else ((slots[i - 2]?).map ClientSlot.pfd).getD (p.pfds i)
    clients := fun i => if i < 2 then p.clients i else (slots[i - 2]?).map ClientSlot.client
    count := slots.length + 2 }

/-- The arrays made from a list hold that list. -/
theorem holds_seat (slots : List ClientSlot) (p : PollSlots) : Holds (seat slots p) slots :=
  ⟨rfl, fun k slot hk => by simp [seat, hk]⟩

/-- A slot that `poll` has reported to be readable. -/
def readableSlot (fd : Int) (client : ClientRef) : ClientSlot :=
  ⟨⟨fd, true, ⟨true, false, false, false⟩⟩, client⟩

/-- The pipe of the first client has failed, the others have something to read. -/
def failedFirst : List ClientSlot :=
  [⟨⟨10, true, ⟨false, false, true, false⟩⟩, 0⟩, readableSlot 12 1, readableSlot 14 2]

def threeClients : Server :=
  { Server.init Accounting.oneWorker with slots := seat failedFirst (.init 3 5) }

/-- The client in the last turn disconnects, the one before it has nothing to say. -/
def disconnectLast (t : Nat) : HandlerTurn :=
  ⟨true, [], fun _ => if t = 2 then ⟨[], .SUCCESS, "Disconnect".toList, true⟩
    else ⟨[], .PIPE_EMPTY, [], true⟩⟩

theorem each_slot_serviced_once_threeClients :
    ∃ met s', threeClients.clientHandler Accounting.oneWorker disconnectLast 4 0 2 =
        some (met, s') ∧
      (met.map Prod.fst).Perm failedFirst ∧ met.map Prod.snd = [true, false, true] ∧
      Holds s'.slots [readableSlot 14 2] := by
  have hfds : DistinctFds threeClients.slots := by
    have hall : ∀ i < 5, ∀ j < 5,
        (threeClients.slots.pfds i).fd = (threeClients.slots.pfds j).fd → i = j := by decide
    exact fun i j hi hj => hall i hi j hj
  obtain ⟨met, s', hruns, hperm, -, -, hheld, -⟩ :=
    each_slot_serviced_once Accounting.oneWorker disconnectLast threeClients failedFirst
      (holds_seat _ _) hfds (fun _ => rfl)
  -- the last client is moved into the place of the first, which disconnects
  have hmet : (threeClients.clientHandler Accounting.oneWorker disconnectLast 4 0 2).map Prod.fst =
      some [(failedFirst[0], true), (readableSlot 14 2, false), (readableSlot 12 1, true)] := by
    decide
  have hrun := hruns 4 (by decide)
  rw [hrun] at hmet
  obtain rfl := Option.some.inj hmet
  exact ⟨_, s', hrun, hperm, rfl, hheld⟩

/-! ## The loop within a run of the server -/

section MainLoop

open Transition Descriptors SlotMirror

variable {cfg : Config} {s : Server}

/-- The steps that the workers take in the meantime are turns of the system. -/
theorem reachable_meanwhile (steps : List WorkerLbl) {pc : LoopPc}
    (h : (MainLoop.system cfg).Reachable ⟨s, pc⟩) :
    (MainLoop.system cfg).Reachable ⟨s.meanwhile cfg steps, pc⟩ := by
  induction steps generalizing s with
  | nil => exact h
  | cons l rest ih =>
    -- a worker's step that is not possible now is passed over
    cases l with
    | dequeue w =>
      apply ih
      cases hs : s.dequeue w with
      | none => exact h
      | some s' => exact h.step (l := .dequeue w) (by show (s.dequeue w).map _ = _; rw [hs]; rfl)
    | finish w env =>
      apply ih
      cases hs : s.finish cfg w env with
      | none => exact h
      | some s' =>
        exact h.step (l := .finish w env) (by show (s.finish cfg w env).map _ = _; rw [hs]; rfl)

/-- The state of the main loop after the test of `to_remove`. -/
def AfterTurn (cfg : Config) (i : Nat) (client : ClientRef) (r : Bool × Server) : Prop :=
  if r.1 then (MainLoop.system cfg).Reachable ⟨r.2.removeAt i client, .client i 0⟩
  else ∃ req, (MainLoop.system cfg).Reachable ⟨r.2, .client i req⟩

/-- A hang-up that the sweep finds is a turn of the main loop. -/
theorem reachable_hangup {i req : Nat} {client : ClientRef}
    (hc : s.clientAt i = some client)
    (hrev : (s.slots.pfds i).revents.failed = true ∨
      (s.slots.pfds i).revents.readable = true ∧ req < FIFO_MAX_PER_WAKE)
    (h : (MainLoop.system cfg).Reachable ⟨s, .client i req⟩) :
    (MainLoop.system cfg).Reachable ⟨s.removeAt i client, .client i 0⟩ := by
  refine h.step (l := .hangup) ?_
  show (if _ ∨ _ then (s.hangup i).map _ else none) = _
  rw [if_pos hrev, Server.hangup, hc]
  rfl

/-- A request that the sweep finds is a turn of the main loop. -/
theorem reachable_request (cmd : CStr) (alloc : Bool) {i req : Nat} {client : ClientRef}
    (hc : s.clientAt i = some client) (hread : (s.slots.pfds i).revents.readable = true)
    (hreq : req < FIFO_MAX_PER_WAKE) (h : (MainLoop.system cfg).Reachable ⟨s, .client i req⟩) :
    (MainLoop.system cfg).Reachable
      (if (s.handleCommand alloc client cmd).1 then
        ⟨(s.handleCommand alloc client cmd).2.removeAt i client, .client i 0⟩
      else ⟨(s.handleCommand alloc client cmd).2, .client i (req + 1)⟩) := by
  refine h.step (l := .request cmd alloc) ?_
  show (if _ ∧ _ then (s.request i cmd alloc).map _ else none) = _
  rw [if_pos ⟨hread, hreq⟩, Server.request, MainLoop.removes, hc]
  cases hrem : (s.handleCommand alloc client cmd).1 <;> simp [hrem]

/-- The requests of one wake are turns of the main loop. -/
theorem reachable_requestLoop (call : Nat → ReadCall) {i : Nat} {client : ClientRef} (n : Nat) :
    ∀ {s : Server} {req : Nat}, req + n ≤ FIFO_MAX_PER_WAKE → s.clientAt i = some client →
      (s.slots.pfds i).revents.readable = true →
      (MainLoop.system cfg).Reachable ⟨s, .client i req⟩ →
      AfterTurn cfg i client (s.requestLoop cfg call client n) := by
  induction n with
  | zero => exact fun {s req} _ _ _ h => ⟨req, h⟩
  | succ n ih =>
    intro s req hreq hc hread h
    rw [Server.requestLoop]
    -- the workers run before the call; they leave the slots alone
    have h₁ := reachable_meanwhile (call (FIFO_MAX_PER_WAKE - (n + 1))).workers h
    have hslots := slots_meanwhile cfg s
      (call (FIFO_MAX_PER_WAKE - (n + 1))).workers
    generalize s.meanwhile cfg (call (FIFO_MAX_PER_WAKE - (n + 1))).workers = s₁ at h₁ hslots
    generalize call (FIFO_MAX_PER_WAKE - (n + 1)) = c
    have hc₁ : s₁.clientAt i = some client := by rwa [Server.clientAt, hslots]
    have hread₁ : (s₁.slots.pfds i).revents.readable = true := by rwa [hslots]
    have hgone : AfterTurn cfg i client (true, s₁) :=
      reachable_hangup hc₁ (Or.inr ⟨hread₁, by omega⟩) h₁
    dsimp only
    split
    · have hrequest := reachable_request c.request c.alloc hc₁ hread₁ (by omega) h₁
      have hcmd := slots_handleCommand s₁ c.alloc client c.request
      split
      · rename_i hrem
        -- the command asks for the removal, which ends the loop
        simpa only [AfterTurn, hrem, if_true] using hrequest
      · rename_i hrem
        simp only [hrem, Bool.false_eq_true, if_false] at hrequest
        exact ih (by omega) (by rwa [Server.clientAt, hcmd]) (by rwa [hcmd]) hrequest
    · exact ⟨req, h₁⟩
    · exact hgone
    · exact hgone
    · exact ih (by omega) hc₁ hread₁ h₁

/-- The service of one client is made of turns of the main loop. -/
theorem reachable_serveSlot (call : Nat → ReadCall) {i : Nat} {client : ClientRef}
    (hc : s.clientAt i = some client) (h : (MainLoop.system cfg).Reachable ⟨s, .client i 0⟩) :
    AfterTurn cfg i client (s.serveSlot cfg call ⟨s.slots.pfds i, client⟩) := by
  unfold Server.serveSlot
  split
  · rename_i hfail
    exact reachable_hangup hc (Or.inl hfail) h
  · split
    · rename_i hread
      exact reachable_requestLoop call FIFO_MAX_PER_WAKE (by simp) hc hread h
    · exact ⟨0, h⟩

/-- The loop takes the server from the first client slot to the next `poll`. -/
theorem reachable_clientHandler {turn : Nat → HandlerTurn} (hrun : ∀ t, (turn t).running = true)
    (fuel : Nat) : ∀ {t i : Nat} {s s' : Server} {met : List (ClientSlot × Bool)}, 2 ≤ i →
      s.clientHandler cfg turn fuel t i = some (met, s') →
      (MainLoop.system cfg).Reachable ⟨s, .client i 0⟩ →
      (MainLoop.system cfg).Reachable ⟨s', .poll⟩ := by
  induction fuel with
  | zero => exact fun _ hres _ => by cases hres
  | succ fuel ih =>
    intro t i s s' met h₂ hres h
    rw [Server.clientHandler] at hres
    have h₁ := reachable_meanwhile (turn t).workers h
    generalize s.meanwhile cfg (turn t).workers = s₁ at h₁ hres
    simp only [hrun, true_and] at hres
    split at hres
    · rename_i hi
      cases hclient : s₁.slots.clients i with
      | none => simp [hclient] at hres
      | some client =>
        have hc : s₁.clientAt i = some client := by
          rw [Server.clientAt, if_pos ⟨h₂, hi⟩, hclient]
        have hafter := reachable_serveSlot (turn t).call hc h₁
        have hslots := slots_serveSlot cfg s₁ (turn t).call ⟨s₁.slots.pfds i, client⟩
        have hjudged := judged_serveSlot cfg (turn t).call ⟨s₁.slots.pfds i, client⟩ s₁
        simp only [hclient] at hres
        generalize s₁.serveSlot cfg (turn t).call ⟨s₁.slots.pfds i, client⟩ = r at *
        rcases r with ⟨toRemove, s₂⟩
        rcases Option.map_eq_some_iff.mp hres with ⟨⟨met₂, s₃⟩, hrest, heq⟩
        rcases Prod.mk.inj heq with ⟨-, rfl⟩
        -- a removed client leaves the last one in its slot, so the index stays
        cases toRemove with
        | true =>
          refine ih h₂ hrest ?_
          rw [← hslots]
          exact hafter
        | false =>
          rcases hafter with ⟨req, hreach⟩
          refine ih (by omega) hrest (hreach.step (l := .nextSlot) (if_pos ?_))
          rw [hslots]
          refine ⟨hi, ?_⟩
          by_contra hfail
          exact absurd (hjudged.1 (by simpa using hfail)) (by simp)
    · -- behind the last slot the loop is done
      rename_i hend
      rcases Prod.mk.inj (Option.some.inj hres) with ⟨-, rfl⟩
      exact h₁.step (l := .wakeDone) (if_pos (by omega))

/-- In a run of the server the loop starts with distinct descriptors. -/
theorem distinctFds_reachable (hself : cfg.hskR ≠ cfg.rpcR)
    (h : (Server.system cfg).Reachable s) : DistinctFds s.slots := by
  have hwired := reachable_wired h
  have hshape := reachable_shape h
  have hpipe : ∀ i < 2, (s.slots.pfds i).fd = if i = 0 then cfg.hskR else cfg.rpcR := by
    intro i hi
    obtain rfl | rfl : i = 0 ∨ i = 1 := by omega
    · exact hshape.hsk.1
    · exact hshape.rpc.1
  have hapart : ∀ i j, i < 2 → 2 ≤ j → j < s.slots.count →
      (s.slots.pfds i).fd ≠ (s.slots.pfds j).fd := by
    intro i j hi hj₂ hj heq
    rcases hwired.slot.client j hj₂ hj with ⟨c, -, hlt, -, hfd⟩
    exact hwired.c2sFd_notMem_self hlt (hfd ▸ heq ▸ hwired.slot.self i hi)
  intro i j hi hj heq
  rcases Nat.lt_or_ge i 2 with hi₂ | hi₂ <;> rcases Nat.lt_or_ge j 2 with hj₂ | hj₂
  · rw [hpipe i hi₂, hpipe j hj₂] at heq
    split_ifs at heq
    · omega
    · exact absurd heq hself
    · exact absurd heq.symm hself
    · omega
  · exact absurd heq (hapart i j hi₂ hj₂ hj)
  · exact absurd heq.symm (hapart j i hj₂ hi₂ hi)
  · -- two clients that are still there do not share a descriptor
    rcases hwired.slot.client i hi₂ hi with ⟨c, hc, hclt, hcnot, hcfd⟩
    rcases hwired.slot.client j hj₂ hj with ⟨d, hd, hdlt, hdnot, hdfd⟩
    have hopen : ∀ e < s.reg.brk, e ∉ s.history.removed → e ∈ openClients s.reg :=
      fun e he hnot => mem_openClients.mpr ⟨he, fun hf => hnot (hwired.base.reg.freed_removed e hf)⟩
    obtain rfl : c = d := hwired.fd.c2sFd_inj (hopen c hclt hcnot) (hopen d hdlt hdnot)
      (by rw [← hcfd, heq, hdfd])
    exact hwired.slot.inj i j hi₂ hi hj₂ hj (hc.trans hd.symm)

/-- The client slots of a reachable server, as a list. -/
theorem exists_holds (h : (Server.system cfg).Reachable s) : ∃ slots, Holds s.slots slots := by
  have hwired := reachable_wired h
  refine ⟨(List.range (s.slots.count - 2)).map fun k =>
    ⟨s.slots.pfds (k + 2), (s.slots.clients (k + 2)).getD 0⟩, ?_, fun k slot hk => ?_⟩
  · have htwo := hwired.slot.two
    simp only [List.length_map, List.length_range]
    omega
  · rcases Option.map_eq_some_iff.mp (List.getElem?_map ▸ hk) with ⟨j, hj, rfl⟩
    rcases List.getElem?_eq_some_iff.mp hj with ⟨hlt, rfl⟩
    rw [List.length_range] at hlt
    rcases hwired.slot.client (k + 2) (by omega) (by omega) with ⟨c, hc, -⟩
    simp [hc]

/-- So in every wake of the server the handler meets each client slot once, and the main loop
goes on to its next `poll` with the slots of the clients that stay. -/
theorem wake_meets_each_slot (hself : cfg.hskR ≠ cfg.rpcR) {turn : Nat → HandlerTurn}
    (hrun : ∀ t, (turn t).running = true)
    (h : (MainLoop.system cfg).Reachable ⟨s, .client 2 0⟩) :
    ∃ slots fuel met s', Holds s.slots slots ∧
      s.clientHandler cfg turn fuel 0 2 = some (met, s') ∧ (met.map Prod.fst).Perm slots ∧
      Holds s'.slots (kept met) ∧ (MainLoop.system cfg).Reachable ⟨s', .poll⟩ := by
  have hserver : (Server.system cfg).Reachable s := (RpcPipe.mainLoop_refines cfg).reachable h
  rcases exists_holds hserver with ⟨slots, hholds⟩
  obtain ⟨met, s', final, hruns, hsweep, hheld, -, -⟩ :=
    clientHandler_sweeps hrun slots.length 0 s []
    slots rfl hholds (distinctFds_reachable hself hserver)
  have hres := hruns (slots.length + 1) (Nat.lt_succ_self _)
  have hfinal : final = kept met := by simpa using hsweep.final_eq
  exact ⟨slots, _, met, s', hholds, hres, hsweep.perm, hfinal ▸ hheld,
    reachable_clientHandler hrun _ (Nat.le_refl 2) hres h⟩

end MainLoop

end AnimateServer.SlotSweep
