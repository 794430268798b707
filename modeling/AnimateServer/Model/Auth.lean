import AnimateServer.Model.Fifo

/-!
# `server/src/auth.c`

The login lookup in `users.txt`. The file is its contents, `none` if it cannot be
opened.
-/

namespace AnimateServer

open CLib

/-- The part of `ResultType` that `usertxt_get_balance` returns. -/
inductive AuthResult where
  | AUTH_OK
  | AUTH_NO
  | AUTH_UN
deriving DecidableEq, Repr

def MSG_REJECT_BALANCE : CStr := "Reject BALANCE\n".toList
def MSG_REJECT_UNAUTHORISED : CStr := "Reject UNAUTHORISED\n".toList

/-- One turn of the loop, on a chunk with its white space normalised: the balance,
or `none` for `continue`. -/
def balanceOf (username buffer : CStr) : Option Int :=
  if !strncmpEq username buffer username.length then none
  else
    match buffer[username.length]? with
    | none => none
    | some c =>
      if !isspace c then none
      else
        let (bal, endptr) := strtol (buffer.drop username.length)
        if endptr = buffer.drop username.length then none else some bal

/-- The `while (fgets(...))` loop, for at most `n` chunks. -/
def findBalance (username : CStr) : Nat → CStr → Option Int
  | 0, _ => none
  | n + 1, usertxt =>
    match fgets MAX_UTXT_LINEBUF_LEN usertxt with
    | none => none
    | some (buffer, rest) =>
      match balanceOf username (sanitiseWhitespace buffer) with
      | some bal => some bal
      | none => findBalance username n rest

/-- `usertxt_get_balance`: every chunk takes at least one byte of the file. -/
def usertxtGetBalance (usertxt : Option CStr) (username : CStr) : AuthResult × Int :=
  match usertxt with
  | none => (.AUTH_UN, 0)
  | some text =>
    match findBalance username text.length text with
    | some bal => (if 0 < bal then .AUTH_OK else .AUTH_NO, bal)
    | none => (.AUTH_UN, 0)

end AnimateServer
