import AnimateServer.Model.Types

/-!
# `misc/src/fifo.c`

FIFO names, white-space normalisation and the pipe transfer loops. A loop over
`read` or `write` is a recursion over the list of results the kernel gives to
the successive system calls; `none` means that the list ran out while the loop
was still going.
-/

namespace AnimateServer

open CLib

/-! ## Names and white space -/

inductive FifoType where
  | C2S
  | S2C
deriving DecidableEq, Repr

/-- `set_name`. -/
def setName (type : FifoType) (pid : Int) : CStr :=
  match type with
  | .C2S => ("FIFO_C2S_".toList ++ decimal pid).take (FIFO_MAX_NAME - 1)
  | .S2C => ("FIFO_S2C_".toList ++ decimal pid).take (FIFO_MAX_NAME - 1)

theorem setName_eq {type : FifoType} {pid : Int} (h₁ : INT_MIN ≤ pid) (h₂ : pid ≤ INT_MAX) :
    setName type pid =
      (match type with | .C2S => "FIFO_C2S_".toList | .S2C => "FIFO_S2C_".toList) ++
        decimal pid := by
  have hlen := length_decimal_le h₁ h₂
  cases type <;> refine List.take_of_length_le ?_ <;> simp [FIFO_MAX_NAME] <;> omega

/-- No two pids share a name. -/
theorem setName_inj {type type' : FifoType} {pid pid' : Int} (h₁ : INT_MIN ≤ pid)
    (h₂ : pid ≤ INT_MAX) (h₁' : INT_MIN ≤ pid') (h₂' : pid' ≤ INT_MAX)
    (h : setName type pid = setName type' pid') : pid = pid' := by
  rw [setName_eq h₁ h₂, setName_eq h₁' h₂'] at h
  apply decimal_injective
  have hdrop := congrArg (List.drop 9) h
  cases type <;> cases type' <;> simpa using hdrop

/-- The locals of `sanitise_whitespace`; `str` is the buffer that is read and
written in place. -/
structure Sanitise where
  str : CStr
  read : Nat
  write : Nat
  inWhitespace : Bool
deriving DecidableEq, Repr

/-- One turn of the loop, on the byte `c = str[read]`. -/
def Sanitise.step (s : Sanitise) (c : Char) : Sanitise :=
  if isspace c then
    { s with read := s.read + 1, inWhitespace := true }
  else
    -- no space goes into the first cell
    let spaced := s.inWhitespace && decide (0 < s.write)
    let str := if spaced then s.str.set s.write ' ' else s.str
    let write := if spaced then s.write + 1 else s.write
    { str := str.set write c, read := s.read + 1, write := write + 1, inWhitespace := false }

/-- `while (str[read])`, for at most `n` turns. -/
def Sanitise.loop : Nat → Sanitise → Sanitise
  | 0, s => s
  | n + 1, s =>
    match s.str[s.read]? with
    | none => s
    | some c => loop n (s.step c)

/-- `sanitise_whitespace`: each turn reads one byte, so the length bounds the turns. -/
def sanitiseWhitespace (str : CStr) : CStr :=
  let s := Sanitise.loop str.length ⟨str, 0, 0, false⟩
  s.str.take s.write

/-! ## System calls -/

inductive Errno where
  | EINTR
  | EAGAIN
  | EPIPE
  | other
deriving DecidableEq, Repr

/-- The result of one `write`. -/
inductive WriteRes where
  | wrote (n : Nat)
  | errno (e : Errno)
deriving DecidableEq, Repr

/-- The result of a `read` of several bytes; `got 0` is the end of the file. -/
inductive ReadCount where
  | got (n : Nat)
  | errno (e : Errno)
deriving DecidableEq, Repr

/-- The result of a one-byte `read`. -/
inductive ReadRes where
  | byte (c : Char)
  | eof
  | errno (e : Errno)
deriving DecidableEq, Repr

/-! ## Transfer loops -/

/-- `write_block_pipe` with `buf` still to be written: the return value and the
bytes that went into the pipe. -/
def writeBlockPipe {β : Type} : List WriteRes → List β → Option (ErrType × List β)
  | _, [] => some (.SUCCESS, [])
  | [], _ :: _ => none
  | .wrote 0 :: _, _ :: _ => some (.PIPE_WRITE_FAIL, [])
  | .wrote (n + 1) :: k, b :: buf =>
    (writeBlockPipe k ((b :: buf).drop (n + 1))).map
      fun r => (r.1, (b :: buf).take (n + 1) ++ r.2)
  | .errno .EINTR :: k, b :: buf => writeBlockPipe k (b :: buf)
  | .errno .EPIPE :: _, _ :: _ => some (.PIPE_CLOSED, [])
  | .errno _ :: _, _ :: _ => some (.PIPE_WRITE_FAIL, [])

/-- `read_nonblock_pipe` with `buf` already in the buffer, where `pipe` is what the other end
has put or will put into the pipe behind it: the return value, the buffer and the rest of the
pipe. It is also `none` for a count that `read` cannot return. -/
def readNonblockPipe {β : Type} (nTarget : Nat) :
    List ReadCount → List β → List β → Option (ErrType × List β × List β)
  | [], buf, pipe => if buf.length < nTarget then none else some (.SUCCESS, buf, pipe)
  | e :: es, buf, pipe =>
    if buf.length < nTarget then
      match e with
      | .got 0 => some (.PIPE_CLOSED, buf, pipe)
      | .got (n + 1) =>
        if n + 1 ≤ nTarget - buf.length ∧ n + 1 ≤ pipe.length then
          readNonblockPipe nTarget es (buf ++ pipe.take (n + 1)) (pipe.drop (n + 1))
        else none
      | .errno .EINTR => readNonblockPipe nTarget es buf pipe
      | .errno .EAGAIN =>
        if buf.length = 0 then some (.PIPE_EMPTY, buf, pipe) else some (.PIPE_PARTIAL, buf, pipe)
      | .errno _ => some (.PIPE_READ_FAIL, buf, pipe)
    else some (.SUCCESS, buf, pipe)

/-- `read_until_delim` with `buf` already in the buffer: the return value, the
buffer as the call leaves it, and the kernel results not yet used. -/
def readUntilDelim (maxlen : Nat) (delim : Char) :
    CStr → List ReadRes → Option (ErrType × CStr × List ReadRes)
  | buf, [] => if buf.length < maxlen - 1 then none else some (.SUCCESS, buf, [])
  | buf, e :: es =>
    if buf.length < maxlen - 1 then
      match e with
      | .byte c =>
        if c = delim then some (.SUCCESS, buf, es)
        else readUntilDelim maxlen delim (buf ++ [c]) es
      | .eof => some (.PIPE_CLOSED, buf, es)
      | .errno .EAGAIN => some (.PIPE_EMPTY, buf, es)
      | .errno .EINTR => readUntilDelim maxlen delim buf es
      | .errno _ => some (.PIPE_READ_FAIL, buf, es)
    else some (.SUCCESS, buf, e :: es)

/-! ## Blobs -/

/-- `sizeof(size_t)` on LP64. -/
def sizeofSizeT : Nat := 8

/-- `sizeof(uint32_t)`. -/
def sizeofUint32 : Nat := 4

/-- `write_blob`; `header` and `block` are the results of the `write`s of its two calls. -/
def writeBlob (order : ByteOrder) (header block : List WriteRes) (buf : List UInt8) :
    Option (ErrType × List UInt8) :=
  match writeBlockPipe header (objectBytes order sizeofSizeT buf.length) with
  | some (.SUCCESS, out) => (writeBlockPipe block buf).map fun r => (r.1, out ++ r.2)
  | r => r

/-- What `read_blob` leaves: its return value, the bytes in `buf`, `*out_len` if it has been
set, and the rest of the pipe. -/
structure BlobRead where
  ret : ErrType
  buf : List UInt8
  outLen : Option Nat
  pipe : List UInt8
deriving DecidableEq, Repr

/-- `read_blob`; `header` and `block` are the results of the `read`s of its two calls. -/
def readBlob (order : ByteOrder) (header block : List ReadCount) (maxlen : Nat)
    (pipe : List UInt8) : Option BlobRead :=
  match readNonblockPipe sizeofUint32 header [] pipe with
  | some (.SUCCESS, len, pipe) =>
    let len := objectValue order len
    if maxlen ≤ len then some ⟨.PIPE_PARTIAL, [], none, pipe⟩
    else
      match readNonblockPipe len block [] pipe with
      | some (.SUCCESS, buf, pipe) => some ⟨.SUCCESS, buf, some len, pipe⟩
      | some (ret, buf, pipe) => some ⟨ret, buf, none, pipe⟩
      | none => none
  | some (ret, _, pipe) => some ⟨ret, [], none, pipe⟩
  | none => none

end AnimateServer
