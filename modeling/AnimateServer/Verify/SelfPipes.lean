import AnimateServer.Model.SelfPipe

/-!
# A self pipe is a queue of records

All writes are of one size and atomic, and there is one reader, so the bytes between the last
record that was read and the last one written are whole records. A call that has got part of
a record finds the rest of it, whoever writes meanwhile, and the only other return is that of
the empty pipe.
-/

namespace AnimateServer.SelfPipes

open CLib Transition SelfPipe

variable {β : Type}

/-- The loop of `read_nonblock_pipe` is the turns one after the other. -/
theorem readNonblockPipe_cons {nTarget : Nat} {res : ReadCount} {k : List ReadCount}
    {buf pipe : List β} (h : buf.length < nTarget) :
    readNonblockPipe nTarget (res :: k) buf pipe =
      match readTurn nTarget buf pipe res with
      | some (.returns ret) => some (ret, buf, pipe)
      | some (.goesOn buf pipe) => readNonblockPipe nTarget k buf pipe
      | none => none := by
  conv_lhs => unfold readNonblockPipe
  rw [if_pos h]
  -- the loop of the source and one turn of it take the same branches
  cases res with
  | got n =>
    cases n with
    | zero => rfl
    | succ n =>
      simp only [readTurn]
      by_cases hn : n + 1 ≤ nTarget - buf.length ∧ n + 1 ≤ pipe.length
      · rw [if_pos hn, if_pos hn]
      · rw [if_neg hn, if_neg hn]
  | errno e =>
    cases e with
    | EAGAIN =>
      simp only [readTurn]
      split <;> rfl
    | EINTR | EPIPE | other => rfl

/-! ## The invariant -/

/-- What holds between two system calls, with `pending` the records that have been written and
not been read. -/
structure Inv (size cap : Nat) (s : SelfPipe β) (pending : List (List β)) : Prop where
  whole : ∀ r ∈ pending, r.length = size
  order : s.sent = s.received ++ pending
  bytes : pending.flatten = s.call.getD [] ++ s.bytes
  buf : ∀ buf, s.call = some buf → buf.length ≤ size
  room : s.bytes.length ≤ cap
  returned : ∀ ret ∈ s.returned, ret = .SUCCESS ∨ ret = .PIPE_EMPTY

theorem inv_init (size cap : Nat) : Inv size cap (.init : SelfPipe β) [] where
  whole := fun r hr => by cases hr
  order := rfl
  bytes := rfl
  buf := fun buf h => by cases h
  room := Nat.zero_le _
  returned := fun ret h => by cases h

variable {size cap : Nat} {s s' : SelfPipe β} {pending : List (List β)}

/-- Whole records that begin with part of one are not empty behind it. -/
theorem eq_nil_of_flatten_lt (h : ∀ r ∈ pending, r.length = size)
    (hlt : pending.flatten.length < size) : pending = [] := by
  cases pending with
  | nil => rfl
  | cons r rs =>
    have hr := h r List.mem_cons_self
    rw [List.flatten_cons, List.length_append] at hlt
    omega

/-- The empty pipe has been read to its end. -/
theorem Inv.empty (h : Inv size cap s pending) {buf : List β} (hcall : s.call = some buf)
    (hlt : buf.length < size) (hbytes : s.bytes = []) : pending = [] ∧ buf = [] := by
  have hflat := h.bytes
  rw [hcall, hbytes, List.append_nil, Option.getD_some] at hflat
  obtain rfl := eq_nil_of_flatten_lt h.whole (hflat ▸ hlt)
  exact ⟨rfl, hflat.symm⟩

theorem Inv.write (h : Inv size cap s pending) {record : List β} (hsize : record.length = size) :
    ∃ pending', Inv size cap (s.write cap record) pending' := by
  unfold SelfPipe.write
  split
  · -- there is room for the whole record
    rename_i hroom
    refine ⟨pending ++ [record], fun r hr => ?_, ?_, ?_, h.buf, ?_, h.returned⟩
    · rcases List.mem_append.mp hr with hold | hnew
      · exact h.whole r hold
      · rw [List.mem_singleton.mp hnew]
        exact hsize
    · show s.sent ++ [record] = s.received ++ (pending ++ [record])
      rw [h.order, List.append_assoc]
    · show (pending ++ [record]).flatten = s.call.getD [] ++ (s.bytes ++ record)
      rw [List.flatten_append, h.bytes, List.flatten_singleton, List.append_assoc]
    · rw [List.length_append]
      exact hroom
  · exact ⟨pending, { h with }⟩

/-- A turn of the loop moves bytes from the pipe to the buffer, or finds the pipe empty. -/
theorem Inv.turn (h : Inv size cap s pending) {buf : List β} (hcall : s.call = some buf)
    {res : ReadCount} (hlt : buf.length < size) (hpermits : s.permits res = true)
    (hs : s.turn size res buf = some s') :
    Inv size cap s' pending ∧ s'.sent = s.sent ∧ s'.received = s.received ∧
      (s'.returned = s.returned ∨ s'.returned = s.returned ++ [.PIPE_EMPTY] ∧ pending = []) := by
  -- what the call has read and what is in the pipe are the records that are left
  have hflat := h.bytes
  rw [hcall, Option.getD_some] at hflat
  unfold SelfPipe.turn at hs
  cases res with
  | got n =>
    cases n with
    | zero => cases hpermits
    | succ n =>
      simp only [readTurn] at hs
      by_cases hn : n + 1 ≤ size - buf.length ∧ n + 1 ≤ s.bytes.length
      swap
      · rw [if_neg hn] at hs
        cases hs
      rw [if_pos hn] at hs
      obtain rfl := Option.some.inj hs
      refine ⟨{ h with bytes := ?_, buf := ?_, room := ?_ }, rfl, rfl, Or.inl rfl⟩
      · show pending.flatten = buf ++ s.bytes.take (n + 1) ++ s.bytes.drop (n + 1)
        rw [List.append_assoc, List.take_append_drop]
        exact hflat
      · intro buf' hbuf'
        obtain rfl := Option.some.inj hbuf'
        rw [List.length_append, List.length_take]
        omega
      · rw [List.length_drop]
        exact Nat.le_trans (Nat.sub_le _ _) h.room
  | errno e =>
    cases e with
    | EPIPE | other => cases hpermits
    | EINTR =>
      obtain rfl := Option.some.inj hs
      exact ⟨{ h with
        bytes := hflat
        buf := fun buf' hbuf' => h.buf buf' (hcall.trans hbuf') }, rfl, rfl, Or.inl rfl⟩
    | EAGAIN =>
      -- EAGAIN means an empty pipe, and records are whole, so the call holds nothing
      rcases h.empty hcall hlt (List.isEmpty_iff.mp hpermits) with ⟨hpending, rfl⟩
      obtain rfl := Option.some.inj hs
      refine ⟨{ h with bytes := ?_, buf := ?_, returned := ?_ }, rfl, rfl, Or.inr ⟨rfl, hpending⟩⟩
      · exact hflat
      · intro buf' hbuf'
        cases hbuf'
      · intro ret hret
        rcases List.mem_append.mp hret with hold | hnew
        · exact h.returned ret hold
        · rw [List.mem_singleton.mp hnew]
          exact Or.inr rfl

/-- A full buffer is the first record. -/
theorem Inv.ret (hsize : 0 < size) (h : Inv size cap s pending) {buf : List β}
    (hcall : s.call = some buf) (hfull : size ≤ buf.length) :
    ∃ rest, pending = buf :: rest ∧ Inv size cap { s with
      call := none
      received := s.received ++ [buf]
      returned := s.returned ++ [.SUCCESS] } rest := by
  have hflat := h.bytes
  rw [hcall, Option.getD_some] at hflat
  have hlen : buf.length = size := Nat.le_antisymm (h.buf buf hcall) hfull
  cases pending with
  | nil =>
    have hnil := congrArg List.length hflat
    rw [List.length_append, hlen] at hnil
    exact absurd hnil (by simp only [List.flatten_nil, List.length_nil]; omega)
  | cons r rest =>
    have hr := h.whole r List.mem_cons_self
    rw [List.flatten_cons] at hflat
    -- a full buffer is exactly the first record that is left
    rcases List.append_inj hflat (hr.trans hlen.symm) with ⟨rfl, hrest⟩
    refine ⟨rest, rfl, fun r' hr' => h.whole r' (List.mem_cons_of_mem _ hr'), ?_, hrest,
      fun buf hbuf => ?_, h.room, fun ret hret => ?_⟩
    · show s.sent = s.received ++ [r] ++ rest
      rw [h.order, List.append_assoc]
      rfl
    · cases hbuf
    · rcases List.mem_append.mp hret with hold | hnew
      · exact h.returned ret hold
      · rw [List.mem_singleton.mp hnew]
        exact Or.inl rfl

theorem Inv.step (hsize : 0 < size) (h : Inv size cap s pending) {lbl : SelfPipeLbl β}
    (hs : SelfPipe.step size cap lbl s = some s') : ∃ pending', Inv size cap s' pending' := by
  -- a write appends a record, a finished call takes the first one
  cases lbl with
  | write record =>
    rcases Option.ite_none_right_eq_some.mp hs with ⟨hlen, hs⟩
    obtain rfl := Option.some.inj hs
    exact h.write hlen
  | call =>
    simp only [SelfPipe.step] at hs
    split at hs
    swap
    · cases hs
    rename_i hcall
    obtain rfl := Option.some.inj hs
    have hflat := h.bytes
    rw [hcall] at hflat
    exact ⟨pending, { h with
      bytes := hflat
      buf := fun buf hbuf => by
        obtain rfl := Option.some.inj hbuf
        exact Nat.zero_le _ }⟩
  | read res =>
    simp only [SelfPipe.step] at hs
    split at hs
    swap
    · cases hs
    rename_i buf hcall
    rcases Option.ite_none_right_eq_some.mp hs with ⟨⟨hlt, hpermits⟩, hs⟩
    exact ⟨pending, (h.turn hcall hlt hpermits hs).1⟩
  | ret =>
    simp only [SelfPipe.step] at hs
    split at hs
    swap
    · cases hs
    rename_i buf hcall
    rcases Option.ite_none_right_eq_some.mp hs with ⟨hfull, hs⟩
    obtain rfl := Option.some.inj hs
    rcases h.ret hsize hcall hfull with ⟨rest, -, hrest⟩
    exact ⟨rest, hrest⟩

theorem reachable_inv (hsize : 0 < size) (h : (system size cap).Reachable s) :
    ∃ pending, Inv size cap s pending := by
  refine h.invariant (fun t ht => ?_) fun lbl t t' hn ht => ?_
  · obtain rfl : t = .init := ht
    exact ⟨[], inv_init size cap⟩
  · rcases ht with ⟨pending, hp⟩
    exact hp.step hsize hn

/-- In every run: the records that the main loop has got are the first ones written, in order
and unchanged, and the others are in the pipe, the first one perhaps in part in the buffer.
`read_nonblock_pipe` returns nothing but `SUCCESS` and `PIPE_EMPTY`, and the latter only when
all records have been read; so the main loop does not give up because of its pipes. -/
theorem selfPipe_fifo (hsize : 0 < size) (h : (system size cap).Reachable s) :
    (∃ pending, s.sent = s.received ++ pending ∧
      pending.flatten = s.call.getD [] ++ s.bytes) ∧
      (∀ ret ∈ s.returned, ret = .SUCCESS ∨ ret = .PIPE_EMPTY) ∧
      ∀ res s', SelfPipe.step size cap (.read res) s = some s' → s'.returned = s.returned ∨
        s'.returned = s.returned ++ [.PIPE_EMPTY] ∧ s.sent = s.received := by
  rcases reachable_inv hsize h with ⟨pending, hp⟩
  refine ⟨⟨pending, hp.order, hp.bytes⟩, hp.returned, fun res s' hs => ?_⟩
  simp only [SelfPipe.step] at hs
  split at hs
  swap
  · cases hs
  rename_i buf hcall
  rcases Option.ite_none_right_eq_some.mp hs with ⟨⟨hlt, hpermits⟩, hs⟩
  -- PIPE_EMPTY is returned only when no record is left
  rcases (hp.turn hcall hlt hpermits hs).2.2.2 with hsame | ⟨hempty, rfl⟩
  · exact Or.inl hsame
  · refine Or.inr ⟨hempty, ?_⟩
    rw [hp.order, List.append_nil]

/-- Two pids of four bytes, the first of which comes in two reads with the second one between
them, and a read of the empty pipe. -/
def twoPids : List (SelfPipeLbl Nat) :=
  [.write [1, 2, 3, 4], .call, .read (.got 3), .write [5, 6, 7, 8], .read (.errno .EINTR),
    .read (.got 1), .ret, .call, .read (.got 4), .ret, .call, .read (.errno .EAGAIN)]

theorem selfPipe_fifo_twoPids :
    ∃ s : SelfPipe Nat, (system 4 8).Reachable s ∧
      s.received = [[1, 2, 3, 4], [5, 6, 7, 8]] ∧
      s.returned = [.SUCCESS, .SUCCESS, .PIPE_EMPTY] ∧
      ∃ pending, s.sent = s.received ++ pending ∧
        pending.flatten = s.call.getD [] ++ s.bytes := by
  obtain ⟨s, h, hs⟩ := exists_reachable_of_run .init (SelfPipe.step 4 8) twoPids
    (fun s => s.received = [[1, 2, 3, 4], [5, 6, 7, 8]] ∧
      s.returned = [.SUCCESS, .SUCCESS, .PIPE_EMPTY]) (by decide)
  rcases of_decide_eq_true hs with ⟨hreceived, hreturned⟩
  exact ⟨s, h, hreceived, hreturned, (selfPipe_fifo (by decide) h).1⟩

/-! ## One call as a whole -/

/-- The results of the reads among the steps. -/
def readsOf (ls : List (SelfPipeLbl β)) : List ReadCount :=
  ls.filterMap fun l => match l with
    | .read res => some res
    | _ => none

/-- Bytes that come later do not matter to a turn. -/
theorem readTurn_append {buf pipe more : List β} {res : ReadCount} {turn : ReadTurn β}
    (h : readTurn size buf pipe res = some turn) :
    readTurn size buf (pipe ++ more) res = some (match turn with
      | .returns ret => .returns ret
      | .goesOn buf pipe => .goesOn buf (pipe ++ more)) := by
  cases res with
  | got n =>
    cases n with
    | zero =>
      obtain rfl := Option.some.inj h
      rfl
    | succ n =>
      simp only [readTurn] at h ⊢
      rcases Option.ite_none_right_eq_some.mp h with ⟨⟨hroom, hn⟩, h⟩
      obtain rfl := Option.some.inj h
      -- what was there can still be read
      have hn' : n + 1 ≤ (pipe ++ more).length := by
        rw [List.length_append]
        exact Nat.le_add_right_of_le hn
      rw [if_pos ⟨hroom, hn'⟩, List.take_append_of_le_length hn,
        List.drop_append_of_le_length hn]
  | errno e =>
    cases e <;>
    · obtain rfl := Option.some.inj h
      rfl

/-- What a write adds to the history and to the pipe. -/
theorem write_spec (cap : Nat) (record : List β) (s : SelfPipe β) :
    ∃ new, (s.write cap record).sent = s.sent ++ new ∧
      (s.write cap record).bytes = s.bytes ++ new.flatten ∧
      (s.write cap record).call = s.call ∧ (s.write cap record).returned = s.returned ∧
      (s.write cap record).received = s.received := by
  unfold SelfPipe.write
  split
  · exact ⟨[record], rfl, by simp, rfl, rfl, rfl⟩
  · exact ⟨[], by simp, by simp, rfl, rfl, rfl⟩

/-- Behind the call there are only writes. -/
theorem run_writes {ls : List (SelfPipeLbl β)} (hls : ∀ l ∈ ls, l ≠ .call)
    (hcall : s.call = none) (hrun : run (SelfPipe.step size cap) ls s = some s') :
    readsOf ls = [] ∧ s'.returned = s.returned ∧ s'.received = s.received ∧
      ∃ new, s'.sent = s.sent ++ new ∧ s'.bytes = s.bytes ++ new.flatten := by
  induction ls generalizing s with
  | nil =>
    cases hrun
    exact ⟨rfl, rfl, rfl, [], by simp, by simp⟩
  | cons l ls ih =>
    rcases Option.bind_eq_some_iff.mp hrun with ⟨t, hl, ht⟩
    have hls' : ∀ l' ∈ ls, l' ≠ .call := fun l' hl' => hls l' (List.mem_cons_of_mem _ hl')
    -- without a call in progress no read and no return is possible
    cases l with
    | call => exact absurd rfl (hls .call List.mem_cons_self)
    | read res => simp [SelfPipe.step, hcall] at hl
    | ret => simp [SelfPipe.step, hcall] at hl
    | write record =>
      rcases Option.ite_none_right_eq_some.mp hl with ⟨-, hl⟩
      obtain rfl := Option.some.inj hl
      rcases write_spec cap record s with ⟨new, hsent, hbytes, hcall', hreturned, hreceived⟩
      rcases ih hls' (hcall'.trans hcall) ht with ⟨hreads, hret, hrec, new', hsent', hbytes'⟩
      refine ⟨hreads, hret.trans hreturned, hrec.trans hreceived, new ++ new', ?_, ?_⟩
      · rw [hsent', hsent, List.append_assoc]
      · rw [hbytes', hbytes, List.flatten_append, List.append_assoc]

/-- A call that has come to its end, whoever has written meanwhile, is a call of
`read_nonblock_pipe` on what was and what came into the pipe. -/
theorem run_call {ls : List (SelfPipeLbl β)} (hls : ∀ l ∈ ls, l ≠ .call) {buf : List β}
    (hcall : s.call = some buf) (hrun : run (SelfPipe.step size cap) ls s = some s')
    (hdone : s'.call = none) :
    ∃ ret buf' new, s'.sent = s.sent ++ new ∧ s'.returned = s.returned ++ [ret] ∧
      readNonblockPipe size (readsOf ls) buf (s.bytes ++ new.flatten) =
        some (ret, buf', s'.bytes) ∧
      (s'.received = s.received ++ [buf'] ∧ ret = .SUCCESS ∨ s'.received = s.received) := by
  induction ls generalizing s buf with
  | nil =>
    cases hrun
    rw [hcall] at hdone
    cases hdone
  | cons l ls ih =>
    rcases Option.bind_eq_some_iff.mp hrun with ⟨t, hl, ht⟩
    have hls' : ∀ l' ∈ ls, l' ≠ .call := fun l' hl' => hls l' (List.mem_cons_of_mem _ hl')
    cases l with
    | call => exact absurd rfl (hls .call List.mem_cons_self)
    | write record =>
      rcases Option.ite_none_right_eq_some.mp hl with ⟨-, hl⟩
      obtain rfl := Option.some.inj hl
      rcases write_spec cap record s with ⟨new, hsent, hbytes, hcall', hreturned, hreceived⟩
      rcases ih hls' (hcall'.trans hcall) ht with ⟨ret, buf', new', hsent', hret, hcalls, hrec⟩
      refine ⟨ret, buf', new ++ new', ?_, hreturned ▸ hret, ?_, hreceived ▸ hrec⟩
      · rw [hsent', hsent, List.append_assoc]
      · rw [List.flatten_append, ← List.append_assoc, ← hbytes]
        exact hcalls
    | ret =>
      simp only [SelfPipe.step, hcall] at hl
      rcases Option.ite_none_right_eq_some.mp hl with ⟨hfull, hl⟩
      obtain rfl := Option.some.inj hl
      rcases run_writes hls' rfl ht with ⟨hreads, hret, hrec, new, hsent, hbytes⟩
      refine ⟨.SUCCESS, buf, new, hsent, hret, ?_, Or.inl ⟨hrec, rfl⟩⟩
      rw [show readsOf (.ret :: ls) = readsOf ls from rfl, hreads, readNonblockPipe,
        if_neg (Nat.not_lt_of_le hfull), hbytes]
    -- a turn either ends the call or leaves the loop one turn further
    | read res =>
      simp only [SelfPipe.step, hcall] at hl
      rcases Option.ite_none_right_eq_some.mp hl with ⟨⟨hlt, -⟩, hl⟩
      rw [show readsOf (.read res :: ls) = res :: readsOf ls from rfl]
      unfold SelfPipe.turn at hl
      split at hl
      · rename_i ret hturn
        obtain rfl := Option.some.inj hl
        rcases run_writes hls' rfl ht with ⟨hreads, hret, hrec, new, hsent, hbytes⟩
        refine ⟨ret, buf, new, hsent, hret, ?_, Or.inr hrec⟩
        rw [readNonblockPipe_cons hlt, readTurn_append hturn, hbytes]
      · rename_i buf₁ bytes hturn
        obtain rfl := Option.some.inj hl
        rcases ih hls' rfl ht with ⟨ret, buf', new, hsent, hret, hcalls, hrec⟩
        refine ⟨ret, buf', new, hsent, hret, ?_, hrec⟩
        rw [readNonblockPipe_cons hlt, readTurn_append hturn]
        exact hcalls
      · cases hl

end AnimateServer.SelfPipes
