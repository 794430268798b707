import AnimateServer.Model.Fifo

/-!
# The sending side of the client (`client/src/c_helper.c`, `client/src/sender.c`)

The client reads lines from its standard input with `fgets` into a buffer of
`MAX_RPC_BUF_LEN` bytes. `authorise` sends nothing but the first `Login` line;
once the server has accepted it, every further line goes through
`send_user_input`. A `Message` is a text the client has decided to send, next to
the bytes it writes for it.
-/

namespace AnimateServer.Client

open CLib

structure Message where
  text : CStr
  bytes : CStr
deriving DecidableEq, Repr

/-- `snprintf(buf, n, "%s\n", s)`, read back as a string. -/
def printLine (n : Nat) (s : CStr) : CStr := (s ++ "\n".toList).take (n - 1)

/-- `if (len > 0 && INPUT[len - 1] == '\n') INPUT[len - 1] = '\0';` -/
def stripNewline (s : CStr) : CStr := if s.getLast? = some '\n' then s.dropLast else s

/-- One turn of the loop of `authorise`, up to the write: the message it sends, if any. -/
def authoriseLine (input : CStr) : Option Message :=
  let input := sanitiseWhitespace (stripNewline input)
  if input = [] then none
  else if !strncmpEq input "Login ".toList 6 then none
  else some ⟨input, printLine (MAX_RPC_BUF_LEN + 1) input⟩

/-- The loop of `authorise`: the message it sends and the input lines it has not read. -/
def authorise : List CStr → Option (Message × List CStr)
  | [] => none
  | input :: inputs =>
    match authoriseLine input with
    | some message => some (message, inputs)
    | none => authorise inputs

/-- `LOGGED_IN` after `authorise` has read the server's reply; `none` is a failed read. -/
def loggedIn (reply : Option CStr) : Bool :=
  match reply with
  | none => false
  | some reply => !strncmpEq reply "Reject".toList 6

/-- `send_user_input`: the return value and the message it sends; `none` is the end of the
standard input. -/
def sendUserInput (input : Option CStr) : Int × Option Message :=
  match input with
  | none => (-1, none)
  | some out =>
    let out := sanitiseWhitespace out
    if out = [] then (1, none)
    else if out = "Disconnect".toList then (0, some ⟨out, "Disconnect\n".toList⟩)
    else (1, some ⟨out, printLine MAX_RPC_BUF_LEN out⟩)

/-- The request loop of `main`. -/
def sendRequests : List CStr → List Message
  | [] => []
  | input :: inputs =>
    match sendUserInput (some input) with
    | (1, message) => message.toList ++ sendRequests inputs
    | (_, message) => message.toList

/-- What the client sends, given its input lines and the reply to its `Login`. -/
def session (reply : Option CStr) (inputs : List CStr) : List Message :=
  match authorise inputs with
  | none => []
  | some (message, inputs) =>
    message :: if loggedIn reply then sendRequests inputs else []

end AnimateServer.Client
