import AnimateServer.Model.Fifo

/-!
# The per-client read loop of `main` (`animate_server.c`)

On each wake the main loop calls `read_until_delim` on a readable client's FIFO
at most `FIFO_MAX_PER_WAKE` times and hands every request it gets to
`handle_command`. What `handle_command` does with it is a parameter here: only
its return value, whether the client is to be removed, steers the loop.
-/

namespace AnimateServer

open CLib

/-- What one wake did for one client: the requests handed to `handle_command`,
the bytes left behind in the buffer of a call that gave no request, whether the
client is to be removed, and the kernel results not yet used. -/
structure Wake where
  requests : List CStr
  leftover : CStr
  removed : Bool
  rest : List ReadRes
deriving DecidableEq, Repr

/-- The `for (req = 0; req < FIFO_MAX_PER_WAKE; req++)` loop. A request is the whole line that
the buffer holds; if there is a NUL in it, `handle_command` sees the line up to there. -/
def serveWake (removes : CStr → Bool) : Nat → List ReadRes → Wake
  | 0, es => ⟨[], [], false, es⟩
  | req + 1, es =>
    match readUntilDelim MAX_RPC_BUF_LEN '\n' [] es with
    | none => ⟨[], [], false, []⟩
    | some (.SUCCESS, request, es') =>
      if removes request then ⟨[request], [], true, es'⟩
      else
        let w := serveWake removes req es'
        { w with requests := request :: w.requests }
    | some (.PIPE_EMPTY, buf, es') => ⟨[], buf, false, es'⟩
    | some (_, buf, es') => ⟨[], buf, true, es'⟩

/-- At most `n` wakes, as long as the client stays and the kernel has results:
all requests handed over, and all bytes left behind in abandoned buffers. -/
def serveClient (removes : CStr → Bool) : Nat → List ReadRes → List CStr × CStr
  | 0, _ => ([], [])
  | _ + 1, [] => ([], [])
  | n + 1, e :: es =>
    let w := serveWake removes FIFO_MAX_PER_WAKE (e :: es)
    if w.removed then (w.requests, w.leftover)
    else
      let r := serveClient removes n w.rest
      (w.requests ++ r.1, w.leftover ++ r.2)

/-- The requests that at most `n` calls of `read_until_delim` return. -/
def readRequests : Nat → List ReadRes → List CStr
  | 0, _ => []
  | n + 1, es =>
    match readUntilDelim MAX_RPC_BUF_LEN '\n' [] es with
    | some (.SUCCESS, request, es') => request :: readRequests n es'
    | some (.PIPE_EMPTY, _, es') => readRequests n es'
    | _ => []

end AnimateServer
