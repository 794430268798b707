import AnimateServer.Model.Fifo

/-!
# The receiving side of the client (`client/src/receiver.c`)

The receiver thread reads one reply after the other from the s2c FIFO, which is open without
`O_NONBLOCK`. How many integers `sscanf` finds decides what a reply means.
-/

namespace AnimateServer.Client

open CLib

/-- `sscanf(s, "%d %d ...", ...)` with `n` conversions: the integers stored. -/
def scanInts : Nat → CStr → List Int
  | 0, _ => []
  | n + 1, s =>
    match scanInt s with
    | none => []
    | some (v, s) => v :: scanInts n s

/-- What is printed for the fields of a reply. -/
def replyText : List Int → CStr
  | [a] =>
    if a = -1 then "RPC Failed\n".toList
    else if a = -2 then "Value error\n".toList
    else if a = -3 then "Internal error\n".toList
    else if a = 0 then "Success\n".toList
    else decimal a ++ "\n".toList
  | [a, b] =>
    if a = 0 ∧ b = -1 then "Data write failed\n".toList
    else if a = 0 then "Success ".toList ++ decimal b ++ "\n".toList
    else decimal a ++ " ".toList ++ decimal b ++ "\n".toList
  | [a, b, c] =>
    if a = 0 ∧ b = 0 ∧ c = -1 then "Movie write failed\n".toList
    else if a = 0 ∧ b = 0 ∧ c = 0 then "Success\n".toList
    else decimal a ++ " ".toList ++ decimal b ++ " ".toList ++ decimal c ++ "\n".toList
  | _ => []

/-- What one call of `recv_server_reply` did: its return value, the fields of the reply, if it
has read one, the text it has printed, and the kernel results not yet used. -/
structure Received where
  alive : Bool
  fields : Option (List Int)
  printed : CStr
  rest : List ReadRes
deriving DecidableEq, Repr

/-- `recv_server_reply`. -/
def recvServerReply (es : List ReadRes) : Option Received :=
  match readUntilDelim MAX_RPC_BUF_LEN '\n' [] es with
  | none => none
  | some (.PIPE_EMPTY, _, es) => some ⟨true, none, [], es⟩
  | some (.PIPE_CLOSED, _, es) | some (.PIPE_READ_FAIL, _, es) => some ⟨false, none, [], es⟩
  | some (.SUCCESS, out, es) =>
    let fields := scanInts 3 (sanitiseWhitespace out)
    some ⟨true, some fields, replyText fields, es⟩
  | some (_, _, es) => some ⟨true, none, [], es⟩

/-- What `n` calls of `recv_server_reply` in the loop of `receiver_thread` find and print, and
the kernel results left; `none` if the loop ends, or has to wait, before it has `n` replies. -/
def recvReplies : Nat → List ReadRes → Option (List (List Int) × CStr × List ReadRes)
  | 0, es => some ([], [], es)
  | n + 1, es =>
    match recvServerReply es with
    | some ⟨true, some fields, text, es⟩ =>
      (recvReplies n es).map fun r => (fields :: r.1, text ++ r.2.1, r.2.2)
    | _ => none

end AnimateServer.Client
