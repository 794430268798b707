import AnimateServer.Model.Fifo

/-!
# Transfers of a fixed size

The loops of `write_block_pipe` and `read_nonblock_pipe`, under any results of the system
calls, and `write_blob` and `read_blob`, which are two such transfers each.
-/

namespace AnimateServer.Transfer

open CLib

/-! ### Blocks -/

section Blocks

variable {β : Type}

/-- What is in the pipe is a prefix of the block, and all of it exactly on success. -/
theorem writeBlockPipe_spec {k : List WriteRes} {buf out : List β} {ret : ErrType}
    (h : writeBlockPipe k buf = some (ret, out)) :
    out <+: buf ∧ (ret = .SUCCESS ↔ out = buf) := by
  -- on the results, with what is still to be written
  induction k generalizing buf ret out with
  | nil =>
    cases buf with
    | nil =>
      cases h
      exact ⟨List.prefix_rfl, iff_of_true rfl rfl⟩
    | cons b buf => cases h
  | cons e k ih =>
    cases buf with
    | nil =>
      unfold writeBlockPipe at h
      cases h
      exact ⟨List.prefix_rfl, iff_of_true rfl rfl⟩
    | cons b buf =>
      have hstop : ∀ {ret : ErrType}, ret ≠ .SUCCESS →
          [] <+: b :: buf ∧ (ret = .SUCCESS ↔ [] = b :: buf) := by
        intro ret hret
        exact ⟨List.nil_prefix, iff_of_false hret (by simp)⟩
      cases e with
      | wrote n =>
        cases n with
        | zero =>
          cases h
          exact hstop (by decide)
        | succ n =>
          -- a short count: the rest is written by the next turns
          rcases Option.map_eq_some_iff.mp h with ⟨r, hr, heq⟩
          rcases ih hr with ⟨hpre, hall⟩
          cases heq
          have hsplit := List.take_append_drop (n + 1) (b :: buf)
          constructor
          · conv => rhs; rw [← hsplit]
            exact (List.prefix_append_right_inj _).mpr hpre
          · rw [hall]
            conv => rhs; rhs; rw [← hsplit]
            exact List.append_right_inj _ |>.symm
      | errno e =>
        cases e with
        | EINTR => exact ih h
        | _ =>
          cases h
          exact hstop (by decide)

/-- The bytes taken are the next ones of the pipe, as many as asked for exactly on success. -/
structure Taken (nTarget : Nat) (buf pipe : List β) (ret : ErrType) (buf' pipe' : List β) :
    Prop where
  inOrder : buf' ++ pipe' = buf ++ pipe
  bound : buf.length ≤ nTarget → buf'.length ≤ nTarget
  success : ret = .SUCCESS ↔ nTarget ≤ buf'.length
  empty : ret = .PIPE_EMPTY → buf' = []
  partly : ret = .PIPE_PARTIAL → buf' ≠ []

theorem readNonblockPipe_taken {nTarget : Nat} {k : List ReadCount} {buf pipe buf' pipe' : List β}
    {ret : ErrType} (h : readNonblockPipe nTarget k buf pipe = some (ret, buf', pipe')) :
    Taken nTarget buf pipe ret buf' pipe' := by
  have hfull : nTarget ≤ buf.length → Taken nTarget buf pipe .SUCCESS buf pipe := fun hle =>
    ⟨rfl, id, iff_of_true rfl hle, by simp, by simp⟩
  -- on the results, with what is in the buffer
  induction k generalizing buf pipe with
  | nil =>
    unfold readNonblockPipe at h
    split at h
    · cases h
    · rename_i hle
      cases h
      exact hfull (Nat.le_of_not_lt hle)
  | cons e k ih =>
    unfold readNonblockPipe at h
    split at h
    · rename_i hlt
      have hshort : ¬nTarget ≤ buf.length := Nat.not_le_of_lt hlt
      have hnext : ∀ {buf pipe : List β}, readNonblockPipe nTarget k buf pipe =
          some (ret, buf', pipe') → Taken nTarget buf pipe ret buf' pipe' := by
        intro buf pipe h
        exact ih h fun hle => ⟨rfl, id, iff_of_true rfl hle, by simp, by simp⟩
      split at h
      · cases h
        exact ⟨rfl, id, iff_of_false (by simp) hshort, by simp, by simp⟩
      · -- a short count: it goes behind what is there
        rename_i n
        split at h
        · rename_i hcount
          have hrest := hnext h
          constructor
          · rw [hrest.inOrder, List.append_assoc, List.take_append_drop]
          · intro _
            refine hrest.bound ?_
            rw [List.length_append, List.length_take]
            omega
          · exact hrest.success
          · exact hrest.empty
          · exact hrest.partly
        · cases h
      · exact hnext h
      · split at h
        · rename_i hzero
          cases h
          exact ⟨rfl, id, iff_of_false (by simp) hshort,
            fun _ => List.length_eq_zero_iff.mp hzero, by simp⟩
        · rename_i hsome
          cases h
          exact ⟨rfl, id, iff_of_false (by simp) hshort, by simp,
            fun _ hnil => hsome (by rw [hnil]; rfl)⟩
      · cases h
        exact ⟨rfl, id, iff_of_false (by simp) hshort, by simp, by simp⟩
    · rename_i hle
      cases h
      exact hfull (Nat.le_of_not_lt hle)

/-- What `read_nonblock_pipe` has taken when it returns. -/
theorem readNonblockPipe_spec {nTarget : Nat} {k : List ReadCount} {pipe buf rest : List β}
    {ret : ErrType} (h : readNonblockPipe nTarget k [] pipe = some (ret, buf, rest)) :
    pipe = buf ++ rest ∧ buf.length ≤ nTarget ∧ (ret = .SUCCESS ↔ buf.length = nTarget) ∧
      (ret = .PIPE_EMPTY → buf = []) ∧
      (ret = .PIPE_PARTIAL → 0 < buf.length ∧ buf.length < nTarget) := by
  have htaken := readNonblockPipe_taken h
  have hbound := htaken.bound (Nat.zero_le nTarget)
  refine ⟨htaken.inOrder.symm, hbound, ?_, htaken.empty, ?_⟩
  · rw [htaken.success]
    exact ⟨fun hle => Nat.le_antisymm hbound hle, fun heq => Nat.le_of_eq heq.symm⟩
  · intro hpart
    have hnot : ¬nTarget ≤ buf.length := by
      rw [← htaken.success, hpart]
      decide
    exact ⟨List.length_pos_iff.mpr (htaken.partly hpart), Nat.lt_of_not_le hnot⟩

/-! ### The loops end -/

/-- A `write` that was not interrupted. -/
def wroteOrFailed : WriteRes → Bool
  | .errno .EINTR => false
  | _ => true

/-- A `read` that was not interrupted. -/
def gotOrFailed : ReadCount → Bool
  | .errno .EINTR => false
  | _ => true

/-- Counts that `read` can return when `asked` bytes are still wanted and `avail` are still to
come. -/
def Fits : List ReadCount → Nat → Nat → Prop
  | [], _, _ => True
  | .got n :: k, asked, avail =>
    asked = 0 ∨ n ≤ asked ∧ n ≤ avail ∧ Fits k (asked - n) (avail - n)
  | .errno _ :: k, asked, avail => Fits k asked avail

/-- Every result but an interruption moves `write_block_pipe` on. -/
theorem writeBlockPipe_returns {k : List WriteRes} {buf : List β}
    (h : buf.length ≤ k.countP wroteOrFailed) : (writeBlockPipe k buf).isSome := by
  induction k generalizing buf with
  | nil =>
    obtain rfl : buf = [] := List.length_eq_zero_iff.mp (Nat.le_zero.mp h)
    rfl
  | cons e k ih =>
    cases buf with
    | nil => simp [writeBlockPipe]
    | cons b buf =>
      cases e with
      | wrote n =>
        cases n with
        | zero => rfl
        | succ n =>
          have hcount : buf.length ≤ k.countP wroteOrFailed := by
            simpa [List.countP_cons, wroteOrFailed] using h
          -- a write that takes bytes leaves a shorter rest and one good write less
          have hlen : ((b :: buf).drop (n + 1)).length ≤ k.countP wroteOrFailed := by
            rw [List.drop_succ_cons, List.length_drop]
            omega
          have hrest := ih hlen
          simp only [writeBlockPipe, Option.isSome_map]
          exact hrest
      | errno e =>
        cases e with
        | EINTR => exact ih (by simpa [List.countP_cons, wroteOrFailed] using h)
        | _ => rfl

/-- Every result but an interruption moves `read_nonblock_pipe` on. -/
theorem readNonblockPipe_returns {nTarget : Nat} {k : List ReadCount} {buf pipe : List β}
    (hfits : Fits k (nTarget - buf.length) pipe.length)
    (h : nTarget ≤ buf.length + k.countP gotOrFailed) :
    (readNonblockPipe nTarget k buf pipe).isSome := by
  induction k generalizing buf pipe with
  | nil =>
    have hle : ¬buf.length < nTarget := Nat.not_lt_of_le h
    simp [readNonblockPipe, hle]
  | cons e k ih =>
    by_cases hlt : buf.length < nTarget
    · cases e with
      | got n =>
        cases n with
        | zero => simp [readNonblockPipe, hlt]
        | succ n =>
          -- at least one byte, as `write_block_pipe` has it
          rcases hfits with hzero | ⟨hasked, havail, hfits⟩
          · omega
          · have hlen : (buf ++ pipe.take (n + 1)).length = buf.length + (n + 1) := by
              rw [List.length_append, List.length_take, Nat.min_eq_left havail]
            have hcount : nTarget ≤ buf.length + (k.countP gotOrFailed + 1) := by
              simpa [List.countP_cons, gotOrFailed] using h
            have hfits' : Fits k (nTarget - (buf ++ pipe.take (n + 1)).length)
                (pipe.drop (n + 1)).length := by
              rwa [hlen, List.length_drop, ← Nat.sub_sub]
            have hrest := ih hfits' (by omega)
            rw [readNonblockPipe, if_pos hlt]
            simp only [hasked, havail, and_self, if_true]
            exact hrest
      | errno e =>
        cases e with
        | EINTR =>
          have hrest := ih hfits (by simpa [List.countP_cons, gotOrFailed] using h)
          simpa [readNonblockPipe, hlt] using hrest
        | EAGAIN =>
          simp only [readNonblockPipe, hlt, if_true]
          split <;> rfl
        | EPIPE => simp [readNonblockPipe, hlt]
        | other => simp [readNonblockPipe, hlt]
    · simp [readNonblockPipe, hlt]

/-! ### Sequences of blocks -/

/-- Blocks written one after the other: what is in the pipe if every call succeeds. -/
def writeBlocks : List (List WriteRes × List β) → Option (List β)
  | [] => some []
  | (k, block) :: rest =>
    match writeBlockPipe k block with
    | some (.SUCCESS, out) => (writeBlocks rest).map (out ++ ·)
    | _ => none

/-- Blocks of given sizes read one after the other: the blocks, and the rest of the pipe, if
every call succeeds. -/
def readBlocks : List (List ReadCount × Nat) → List β → Option (List (List β) × List β)
  | [], pipe => some ([], pipe)
  | (k, nTarget) :: rest, pipe =>
    match readNonblockPipe nTarget k [] pipe with
    | some (.SUCCESS, buf, pipe) => (readBlocks rest pipe).map fun r => (buf :: r.1, r.2)
    | _ => none

theorem writeBlocks_eq {ws : List (List WriteRes × List β)} {out : List β}
    (h : writeBlocks ws = some out) : out = (ws.map Prod.snd).flatten := by
  induction ws generalizing out with
  | nil =>
    cases h
    rfl
  | cons w ws ih =>
    rcases w with ⟨k, block⟩
    unfold writeBlocks at h
    split at h
    · rename_i first hfirst
      rcases Option.map_eq_some_iff.mp h with ⟨rest, hrest, rfl⟩
      obtain rfl := (writeBlockPipe_spec hfirst).2.mp rfl
      rw [ih hrest, List.map_cons, List.flatten_cons]
    · cases h

/-- Reading the sizes that were written gives the blocks back. -/
theorem readBlocks_eq {blocks : List (List β)} {rs : List (List ReadCount × Nat)}
    {more rest : List β} {got : List (List β)}
    (hsizes : rs.map Prod.snd = blocks.map List.length)
    (h : readBlocks rs (blocks.flatten ++ more) = some (got, rest)) :
    got = blocks ∧ rest = more := by
  induction blocks generalizing rs got with
  | nil =>
    obtain rfl : rs = [] := List.map_eq_nil_iff.mp hsizes
    cases h
    exact ⟨rfl, rfl⟩
  | cons block blocks ih =>
    cases rs with
    | nil => cases hsizes
    | cons r rs =>
      rcases r with ⟨k, nTarget⟩
      rcases List.cons.inj hsizes with ⟨rfl, hrest_sizes⟩
      unfold readBlocks at h
      split at h
      · rename_i buf pipe hfirst
        rcases Option.map_eq_some_iff.mp h with ⟨r, hrest, heq⟩
        rcases readNonblockPipe_spec hfirst with ⟨hpipe, -, hfull, -, -⟩
        rw [List.flatten_cons, List.append_assoc] at hpipe
        -- as many bytes as the block has are the block
        rcases List.append_inj hpipe (hfull.mp rfl).symm with ⟨rfl, rfl⟩
        cases heq
        rcases ih hrest_sizes hrest with ⟨hgot, hmore⟩
        exact ⟨by rw [hgot], hmore⟩
      · cases h

end Blocks

/-- Under any results of `write` and `read`: what `write_block_pipe` has put into the pipe is a
prefix of the block, all of it exactly on success; what `read_nonblock_pipe` has taken are the
next bytes of the pipe, all of those asked for exactly on success, none on `PIPE_EMPTY`, some
but not all on `PIPE_PARTIAL`; enough calls that are not interrupted end both loops; and blocks
that were all written and read with the same sizes arrive unchanged and in order. -/
theorem transfer {β : Type} :
    (∀ (k : List WriteRes) (block out : List β) (ret : ErrType),
      writeBlockPipe k block = some (ret, out) →
        out <+: block ∧ (ret = .SUCCESS ↔ out = block)) ∧
    (∀ (nTarget : Nat) (k : List ReadCount) (pipe buf rest : List β) (ret : ErrType),
      readNonblockPipe nTarget k [] pipe = some (ret, buf, rest) →
        pipe = buf ++ rest ∧ buf.length ≤ nTarget ∧ (ret = .SUCCESS ↔ buf.length = nTarget) ∧
          (ret = .PIPE_EMPTY → buf = []) ∧
          (ret = .PIPE_PARTIAL → 0 < buf.length ∧ buf.length < nTarget)) ∧
    (∀ (k : List WriteRes) (block : List β),
      block.length ≤ k.countP wroteOrFailed → (writeBlockPipe k block).isSome) ∧
    (∀ (nTarget : Nat) (k : List ReadCount) (pipe : List β), Fits k nTarget pipe.length →
      nTarget ≤ k.countP gotOrFailed → (readNonblockPipe nTarget k [] pipe).isSome) ∧
    ∀ (ws : List (List WriteRes × List β)) (rs : List (List ReadCount × Nat))
      (stream more rest : List β) (got : List (List β)),
      writeBlocks ws = some stream →
        rs.map Prod.snd = ws.map (fun w => w.2.length) →
          readBlocks rs (stream ++ more) = some (got, rest) →
            got = ws.map Prod.snd ∧ rest = more := by
  refine ⟨fun _ _ _ _ h => writeBlockPipe_spec h, fun _ _ _ _ _ _ h => readNonblockPipe_spec h,
    fun _ _ h => writeBlockPipe_returns h, ?_, ?_⟩
  · intro nTarget k pipe hfits h
    exact readNonblockPipe_returns hfits (by simpa using h)
  · -- the stream is the blocks one after the other, so equal sizes cut it back
    intro ws rs stream more rest got hwrite hsizes hread
    rw [writeBlocks_eq hwrite] at hread
    exact readBlocks_eq (by rw [hsizes, List.map_map]; rfl) hread

/-- Two blocks with short counts and interruptions on both sides, and a byte behind them. -/
theorem transfer_short_counts :
    ∃ stream got rest,
      writeBlocks [([.wrote 1, .errno .EINTR, .wrote 2], ['a', 'b', 'c']), ([.wrote 1], ['d'])] =
        some stream ∧
      readBlocks [([.errno .EINTR, .got 2, .got 1], 3), ([.got 1], 1)] (stream ++ ['e']) =
        some (got, rest) ∧
      got = [['a', 'b', 'c'], ['d']] ∧ rest = ['e'] :=
  ⟨_, _, _, rfl, rfl, (transfer (β := Char)).2.2.2.2
    [([.wrote 1, .errno .EINTR, .wrote 2], ['a', 'b', 'c']), ([.wrote 1], ['d'])]
    [([.errno .EINTR, .got 2, .got 1], 3), ([.got 1], 1)] _ _ _ _ rfl rfl rfl⟩

/-! ### Blobs -/

section Blobs

variable {order : ByteOrder} {block more : List UInt8} {maxlen : Nat}

/-- `read_blob` takes half of the length for the length: the low half or the high one. -/
theorem objectValue_take {n : Nat} (h : n < 2 ^ 32) :
    objectValue order ((objectBytes order sizeofSizeT n).take sizeofUint32) =
      match order with
      | .little => n
      | .big => 0 := by
  have h : n < 256 ^ 4 := by omega
  cases order with
  | little =>
    show ofLowBytes ((lowBytes 8 n).take 4) = n
    rw [take_lowBytes (by decide), ofLowBytes_lowBytes, Nat.mod_eq_of_lt h]
  | big =>
    show ofLowBytes ((lowBytes 8 n).reverse.take 4).reverse = 0
    rw [List.take_reverse, List.reverse_reverse, length_lowBytes]
    show ofLowBytes ((lowBytes (4 + 4) n).drop 4) = 0
    rw [drop_lowBytes, ofLowBytes_lowBytes, Nat.div_eq_of_lt h, Nat.zero_mod]

/-- What is in the pipe after a `write_blob` in full. -/
theorem writeBlob_success {wh wb : List WriteRes} {stream : List UInt8}
    (h : writeBlob order wh wb block = some (.SUCCESS, stream)) :
    stream = objectBytes order sizeofSizeT block.length ++ block := by
  unfold writeBlob at h
  split at h
  · rename_i header hheader
    rcases Option.map_eq_some_iff.mp h with ⟨r, hr, heq⟩
    rcases Prod.mk.inj heq with ⟨hret, rfl⟩
    rcases r with ⟨ret, out⟩
    rw [(writeBlockPipe_spec hheader).2.mp rfl, (writeBlockPipe_spec hr).2.mp hret]
  · rename_i hfail
    exact absurd h (hfail stream)

/-- Where a successful `read_blob` leaves the pipe. -/
theorem readBlob_success {rh rb : List ReadCount} {pipe : List UInt8} {out : BlobRead}
    (h : readBlob order rh rb maxlen pipe = some out) (hret : out.ret = .SUCCESS) :
    pipe.length = sizeofUint32 + objectValue order (pipe.take sizeofUint32) + out.pipe.length := by
  unfold readBlob at h
  split at h
  · rename_i len rest hlen
    rcases readNonblockPipe_spec hlen with ⟨hpipe, -, hfull, -, -⟩
    -- the four bytes of the header are the ones the length is read from
    have hheader : pipe.take sizeofUint32 = len := by
      rw [hpipe, ← hfull.mp rfl, List.take_left]
    dsimp only at h
    split at h
    · cases h
      cases hret
    · split at h
      · rename_i buf rest' hbuf
        rcases readNonblockPipe_spec hbuf with ⟨hpipe', -, hfull', -, -⟩
        cases h
        rw [hheader, ← hfull'.mp rfl, ← hfull.mp rfl, hpipe, hpipe']
        simp only [List.length_append]
        omega
      · rename_i hfail hbuf
        cases h
        exact (hfail hret).elim
      · cases h
  · rename_i hfail hlen
    cases h
    exact (hfail hret).elim
  · cases h

theorem writeBlockPipe_whole (buf : List UInt8) :
    writeBlockPipe [.wrote buf.length] buf = some (.SUCCESS, buf) := by
  cases buf with
  | nil => rfl
  | cons b buf => simp [writeBlockPipe]

theorem readNonblockPipe_whole {n : Nat} {pipe : List UInt8} (h : n ≤ pipe.length) :
    readNonblockPipe n [.got n] [] pipe = some (.SUCCESS, pipe.take n, pipe.drop n) := by
  cases n with
  | zero => rfl
  | succ n => simp [readNonblockPipe, h]

theorem writeBlob_whole : writeBlob order [.wrote sizeofSizeT] [.wrote block.length] block =
    some (.SUCCESS, objectBytes order sizeofSizeT block.length ++ block) := by
  have hheader := writeBlockPipe_whole (objectBytes order sizeofSizeT block.length)
  rw [length_objectBytes] at hheader
  unfold writeBlob
  simp only [hheader, writeBlockPipe_whole, Option.map_some]

theorem readBlob_whole {pipe : List UInt8} {v : Nat}
    (hv : objectValue order (pipe.take sizeofUint32) = v)
    (hlen : sizeofUint32 + v ≤ pipe.length) (hmax : v < maxlen) :
    readBlob order [.got sizeofUint32] [.got v] maxlen pipe =
      some ⟨.SUCCESS, (pipe.drop sizeofUint32).take v, some v,
        (pipe.drop sizeofUint32).drop v⟩ := by
  have hheader := readNonblockPipe_whole (Nat.le_trans (Nat.le_add_right _ v) hlen)
  have hrest : v ≤ (pipe.drop sizeofUint32).length := by
    rw [List.length_drop]
    omega
  have hblock := readNonblockPipe_whole hrest
  unfold readBlob
  simp only [hheader, hv, Nat.not_le_of_lt hmax, if_false, hblock]

/-- `read_blob` leaves `out` on a pipe into which `write_blob` has put the block in full, with
`more` behind it. -/
def BlobRun (order : ByteOrder) (maxlen : Nat) (block more : List UInt8) (out : BlobRead) :
    Prop :=
  ∃ wh wb rh rb stream, writeBlob order wh wb block = some (.SUCCESS, stream) ∧
    readBlob order rh rb maxlen (stream ++ more) = some out

/-- A blob is never read back: `write_blob` puts the eight bytes of a `size_t` in front of the
block and `read_blob` takes four of them, so also when it succeeds it leaves the pipe in front
of what it should have taken. -/
theorem blob_not_read_back (order : ByteOrder) (block more : List UInt8) (maxlen : Nat)
    (hmax : block.length < maxlen) (h32 : block.length < 2 ^ 32) :
    (∃ out, out.ret = .SUCCESS ∧ BlobRun order maxlen block more out) ∧
      ∀ out, BlobRun order maxlen block more out →
        out ≠ ⟨.SUCCESS, block, some block.length, more⟩ := by
  have htake : (objectBytes order sizeofSizeT block.length ++ block ++ more).take sizeofUint32 =
      (objectBytes order sizeofSizeT block.length).take sizeofUint32 := by
    rw [List.append_assoc, List.take_append_of_le_length]
    simp [sizeofUint32, sizeofSizeT]
  have hlen : (objectBytes order sizeofSizeT block.length ++ block ++ more).length =
      sizeofSizeT + block.length + more.length := by
    simp [Nat.add_assoc]
  have hle : objectValue order
      ((objectBytes order sizeofSizeT block.length).take sizeofUint32) ≤ block.length := by
    rw [objectValue_take h32]
    cases order
    · exact Nat.le_refl _
    · exact Nat.zero_le _
  constructor
  · have hroom : sizeofUint32 + objectValue order ((objectBytes order sizeofSizeT block.length).take
        sizeofUint32) ≤ (objectBytes order sizeofSizeT block.length ++ block ++ more).length := by
      rw [hlen]
      unfold sizeofUint32 sizeofSizeT at *
      omega
    have hread := readBlob_whole (congrArg (objectValue order) htake) hroom
      (Nat.lt_of_le_of_lt hle hmax)
    exact ⟨_, rfl, _, _, _, _, _, writeBlob_whole, hread⟩
  · rintro out ⟨wh, wb, rh, rb, stream, hwrite, hread⟩ rfl
    obtain rfl := writeBlob_success hwrite
    have hpos := readBlob_success hread rfl
    rw [htake, hlen] at hpos
    -- eight bytes and the block are behind, four and no more than the block were taken
    unfold sizeofUint32 sizeofSizeT at *
    dsimp only at hpos
    omega

end Blobs

/-- The single byte `a` is read back as a zero byte, with four bytes left over. -/
theorem blob_read_back_wrong :
    writeBlob .little [.wrote 8] [.wrote 1] [97] =
        some (.SUCCESS, [1, 0, 0, 0, 0, 0, 0, 0, 97]) ∧
      readBlob .little [.got 4] [.got 1] 16 [1, 0, 0, 0, 0, 0, 0, 0, 97] =
        some ⟨.SUCCESS, [0], some 1, [0, 0, 0, 97]⟩ := by decide

/-- The same for one byte. -/
theorem blob_not_read_back_byte :
    (∃ out, out.ret = .SUCCESS ∧ BlobRun .little 16 [97] [] out) ∧
      ¬BlobRun .little 16 [97] [] ⟨.SUCCESS, [97], some 1, []⟩ := by
  rcases blob_not_read_back .little [97] [] 16 (by decide) (by decide) with ⟨hsuccess, hnever⟩
  exact ⟨hsuccess, fun hrun => hnever _ hrun rfl⟩

end AnimateServer.Transfer
