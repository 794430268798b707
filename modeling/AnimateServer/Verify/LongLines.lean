import AnimateServer.Verify.Framing
import AnimateServer.Verify.ServerSteps

/-!
# Lines longer than the reader's buffer

`read_until_delim` returns when it has seen a newline and when its buffer is full, and its
caller cannot tell which. So a long line is handed to `handle_command` in pieces of
`MAX_RPC_BUF_LEN - 1` bytes. A piece that is no command is ignored, and the first piece is a
prefix of the line: what matters is whether a later piece begins with the name of a command.
-/

namespace AnimateServer.LongLines

open CLib Framing
open ServerSteps (match_iff)

/-! ### Commands -/

/-- `handle_command` acts on the request: it begins with the name of a command. -/
def isCommand (request : CStr) : Bool :=
  strncmpEq request "Login ".toList 6 || strncmpEq request "Disconnect".toList 10 ||
    rpcCommands.any fun command => strncmpEq request command.name command.len

/-- The request makes `handle_command` ask for the removal of a client that is still there. -/
def disconnects (request : CStr) : Bool :=
  !strncmpEq request "Login ".toList 6 && strncmpEq request "Disconnect".toList 10

/-- What begins with the name of a command still does so with more bytes behind it. -/
theorem isCommand_of_prefix {a b : CStr} (hab : a <+: b) (h : isCommand a = true) :
    isCommand b = true := by
  have hname : ∀ name : CStr, strncmpEq a name name.length = true →
      strncmpEq b name name.length = true := by
    intro name hn
    exact strncmpEq_length_iff.mpr ((strncmpEq_length_iff.mp hn).trans hab)
  simp only [isCommand, Bool.or_eq_true, List.any_eq_true] at h ⊢
  rcases h with (hlogin | hdisc) | ⟨command, hmem, hcmd⟩
  · exact Or.inl (Or.inl (hname "Login ".toList hlogin))
  · exact Or.inl (Or.inr (hname "Disconnect".toList hdisc))
  · exact Or.inr ⟨command, hmem, (match_iff hmem).mpr (((match_iff hmem).mp hcmd).trans hab)⟩

/-! ### Pieces -/

/-- The bytes that one call of `read_until_delim` takes at most. -/
def pieceLen : Nat := MAX_RPC_BUF_LEN - 1

/-- The `i`-th piece of a line. -/
def piece (line : CStr) (i : Nat) : CStr := (line.drop (pieceLen * i)).take pieceLen

/-- The full pieces of a line. -/
def fullPieces (line : CStr) : List CStr := (List.range (line.length / pieceLen)).map (piece line)

/-- The pieces in which a line with its newline is handed over. If the last piece is full, the
newline makes an empty one. -/
def pieces (line : CStr) : List CStr :=
  (List.range (line.length / pieceLen + 1)).map (piece line)

/-- What is left of a line behind its first piece begins with its second piece. -/
theorem map_piece_succ (line : CStr) (n : Nat) :
    (List.range (n + 1)).map (piece line) =
      line.take pieceLen :: (List.range n).map (piece (line.drop pieceLen)) := by
  rw [List.range_succ_eq_map, List.map_cons, List.map_map]
  congr 1
  apply List.map_congr_left
  intro i _
  show (line.drop (pieceLen * (i + 1))).take pieceLen = _
  rw [piece, List.drop_drop, Nat.mul_succ, Nat.add_comm]

/-- The first piece is one piece. -/
theorem length_div {line : CStr} (h : pieceLen ≤ line.length) :
    line.length / pieceLen = (line.drop pieceLen).length / pieceLen + 1 := by
  rw [List.length_drop]
  exact Nat.div_eq_sub_div (by decide) h

/-- A short line is one piece. -/
theorem pieces_of_lt {line : CStr} (h : line.length < pieceLen) : pieces line = [line] := by
  rw [pieces, Nat.div_eq_of_lt h, map_piece_succ, List.take_of_length_le h.le]
  rfl

/-- A long line is a full piece and the pieces of the rest. -/
theorem pieces_of_le {line : CStr} (h : pieceLen ≤ line.length) :
    pieces line = line.take pieceLen :: pieces (line.drop pieceLen) := by
  rw [pieces, length_div h, map_piece_succ]
  rfl

theorem fullPieces_of_lt {line : CStr} (h : line.length < pieceLen) : fullPieces line = [] := by
  rw [fullPieces, Nat.div_eq_of_lt h]
  rfl

theorem fullPieces_of_le {line : CStr} (h : pieceLen ≤ line.length) :
    fullPieces line = line.take pieceLen :: fullPieces (line.drop pieceLen) := by
  rw [fullPieces, length_div h, map_piece_succ]
  rfl

/-- There is a first piece, and any other is behind `pieceLen` bytes. -/
theorem pieces_cases (line : CStr) :
    ∃ later, pieces line = line.take pieceLen :: later ∧ (later ≠ [] → pieceLen ≤ line.length) ∧
      ∀ r ∈ later, r.length ≤ pieceLen := by
  rcases Nat.lt_or_ge line.length pieceLen with hlt | hge
  · refine ⟨[], ?_, by simp, by simp⟩
    rw [pieces_of_lt hlt, List.take_of_length_le hlt.le]
  · refine ⟨_, pieces_of_le hge, fun _ => hge, fun r hr => ?_⟩
    rcases List.mem_map.mp hr with ⟨i, -, rfl⟩
    exact List.length_take_le _ _

/-! ### The pass -/

/-- What the reader does with a request, in front of the `rest`. -/
def emit (removes : CStr → Bool) (request : CStr) (rest : List CStr × CStr) : List CStr × CStr :=
  if removes request then ([request], []) else (request :: rest.1, rest.2)

/-- The reader without budgets: one pass over all results of the kernel, whatever the length
of the lines. -/
def readCut (removes : CStr → Bool) : CStr → List ReadRes → List CStr × CStr
  | _, [] => ([], [])
  | buf, .byte c :: es =>
    if c = '\n' then emit removes buf (readCut removes [] es)
    else if (buf ++ [c]).length < pieceLen then readCut removes (buf ++ [c]) es
    else emit removes (buf ++ [c]) (readCut removes [] es)
  | buf, .errno .EAGAIN :: es => ((readCut removes [] es).1, buf ++ (readCut removes [] es).2)
  | buf, .errno .EINTR :: es => readCut removes buf es
  | buf, .eof :: _ | buf, .errno .EPIPE :: _ | buf, .errno .other :: _ => ([], buf)

/-- A full buffer ends the call without a read. -/
theorem readUntilDelim_of_full {buf : CStr} (h : ¬ buf.length < MAX_RPC_BUF_LEN - 1)
    (es : List ReadRes) :
    readUntilDelim MAX_RPC_BUF_LEN '\n' buf es = some (.SUCCESS, buf, es) := by
  cases es <;> simp [readUntilDelim, h]

/-- One call of `read_until_delim` is a piece of the pass. -/
theorem readCut_call (removes : CStr → Bool) (buf : CStr) (hbuf : buf.length < pieceLen)
    (es : List ReadRes) :
    match readUntilDelim MAX_RPC_BUF_LEN '\n' buf es with
    | none => readCut removes buf es = ([], [])
    | some (.SUCCESS, request, es') =>
      es'.length < es.length ∧
      readCut removes buf es = emit removes request (readCut removes [] es')
    | some (.PIPE_EMPTY, left, es') =>
      es'.length < es.length ∧
      readCut removes buf es = ((readCut removes [] es').1, left ++ (readCut removes [] es').2)
    | some (_, left, es') => es'.length < es.length ∧ readCut removes buf es = ([], left) := by
  have hroom : buf.length < MAX_RPC_BUF_LEN - 1 := hbuf
  induction es generalizing buf with
  | nil => simp [readUntilDelim, hroom, readCut]
  | cons e es ih =>
    cases e with
    | byte c =>
      by_cases hc : c = '\n'
      · simp [readUntilDelim, hroom, hc, readCut]
      · by_cases hnext : (buf ++ [c]).length < pieceLen
        · have h := ih (buf ++ [c]) hnext hnext
          simp only [readUntilDelim, hroom, hc, readCut, hnext, if_true, if_false]
          split at h <;> simp_all <;> omega
        · -- the byte fills the buffer
          simp only [readUntilDelim, hroom, hc, readCut, hnext, if_true, if_false,
            readUntilDelim_of_full hnext]
          simp
    | eof => simp [readUntilDelim, hroom, readCut]
    | errno n =>
      cases n with
      | EAGAIN => simp [readUntilDelim, hroom, readCut]
      | EINTR =>
        have h := ih buf hbuf hroom
        simp only [readUntilDelim, hroom, readCut, if_true]
        split at h <;> simp_all <;> omega
      | EPIPE => simp [readUntilDelim, hroom, readCut]
      | other => simp [readUntilDelim, hroom, readCut]

/-- The reader of the main loop makes the pass, whatever it reads. -/
theorem pass_readCut (removes : CStr → Bool) :
    Pass removes (fun _ => True) (readCut removes []) where
  nil := ⟨trivial, rfl⟩
  call := fun es _ => by
    have h := readCut_call removes [] (by decide) es
    split at h <;> simp_all [emit]

/-! ### Requests and lines -/

/-- The requests handed over out of `requests`, and out of `rest` if the client is still there. -/
def handOver (removes : CStr → Bool) (requests rest : List CStr) : List CStr :=
  upToRemoval removes requests ++ if requests.any removes then [] else rest

/-- A request that is handed over comes first, and ends the session or not. -/
theorem emit_handOver (removes : CStr → Bool) (request : CStr) {requests rest : List CStr}
    {r : List CStr × CStr} (hr : r.1 = handOver removes requests rest) :
    (emit removes request r).1 = handOver removes (request :: requests) rest := by
  unfold emit handOver
  by_cases h : removes request = true
  · simp [h, upToRemoval]
  · simp [h, hr, upToRemoval, handOver]

/-- The requests of each line that is read, in order. -/
def lineRequests (removes : CStr → Bool) : List CStr → List (List CStr)
  | [] => []
  | line :: lines =>
    upToRemoval removes (pieces line) ::
      if (pieces line).any removes then [] else lineRequests removes lines

/-- The kernel's answers behind the last byte: nothing there, or the client has closed. -/
def AtEnd (fin : List ReadRes) : Prop := ∀ e ∈ fin, e = .eof ∨ e = .errno .EAGAIN

/-- At the end of the stream nothing is handed over. -/
theorem readCut_atEnd (removes : CStr → Bool) {fin : List ReadRes} (h : AtEnd fin) (buf : CStr) :
    (readCut removes buf fin).1 = [] := by
  induction fin generalizing buf with
  | nil => rfl
  | cons e fin ih =>
    rcases h e List.mem_cons_self with rfl | rfl
    · rfl
    · exact ih (fun e he => h e (List.mem_cons_of_mem _ he)) []

/-- A line with its newline is handed over in pieces. -/
theorem readCut_line (removes : CStr → Bool) (buf : CStr) {text stream : CStr} {es : List ReadRes}
    (hes : Delivers (text ++ '\n' :: stream) es) (hnl : '\n' ∉ text)
    (hbuf : buf.length < pieceLen) :
    ∃ es', Delivers stream es' ∧ ∀ fin, (readCut removes buf (es ++ fin)).1 =
      handOver removes (pieces (buf ++ text)) (readCut removes [] (es' ++ fin)).1 := by
  generalize hbs : text ++ '\n' :: stream = bs at hes
  induction hes generalizing buf text with
  | nil => simp at hbs
  | @byte bs es c hes ih =>
    cases text with
    | nil =>
      rcases List.cons.inj hbs with ⟨rfl, rfl⟩
      refine ⟨es, hes, fun fin => ?_⟩
      rw [List.append_nil, pieces_of_lt hbuf]
      simp only [List.cons_append, readCut, if_true]
      exact emit_handOver removes buf (by simp [handOver, upToRemoval])
    | cons d text =>
      rcases List.cons.inj hbs with ⟨rfl, htext⟩
      rcases not_or.mp (mt List.mem_cons.mpr hnl) with ⟨hd, hnl'⟩
      have hd' : ¬ d = '\n' := Ne.symm hd
      by_cases hnext : (buf ++ [d]).length < pieceLen
      · rcases ih (buf ++ [d]) hnl' hnext htext with ⟨es', htail, hread⟩
        refine ⟨es', htail, fun fin => ?_⟩
        simp only [List.cons_append, readCut, hd', hnext, if_true, if_false]
        rw [hread, List.append_assoc, List.singleton_append]
      · -- the byte fills the buffer
        rcases ih [] hnl' (by decide) htext with ⟨es', htail, hread⟩
        have hfull : (buf ++ [d]).length = pieceLen := by
          simp only [List.length_append, List.length_singleton] at hnext ⊢
          omega
        refine ⟨es', htail, fun fin => ?_⟩
        simp only [List.cons_append, readCut, hd', hnext, if_false]
        have hsplit : pieces (buf ++ d :: text) = (buf ++ [d]) :: pieces text := by
          rw [List.append_cons, pieces_of_le (by simp only [List.length_append] at hfull ⊢; omega),
            ← hfull, List.take_left, List.drop_left]
        rw [hsplit]
        exact emit_handOver removes _ (hread fin)
  | @interrupted bs es hes ih =>
    rcases ih buf hnl hbuf hbs with ⟨es', htail, hread⟩
    exact ⟨es', htail, fun fin => hread fin⟩

/-- Of an unfinished line the full pieces are handed over. -/
theorem readCut_unfinished (removes : CStr → Bool) (buf : CStr) {text : CStr}
    {es fin : List ReadRes}
    (hes : Delivers text es) (hnl : '\n' ∉ text) (hbuf : buf.length < pieceLen)
    (hfin : AtEnd fin) :
    (readCut removes buf (es ++ fin)).1 = handOver removes (fullPieces (buf ++ text)) [] := by
  induction hes generalizing buf with
  | nil =>
    rw [List.append_nil, fullPieces_of_lt hbuf]
    exact readCut_atEnd removes hfin buf
  | @byte bs es c hes ih =>
    rcases not_or.mp (mt List.mem_cons.mpr hnl) with ⟨hc, hnl'⟩
    have hc' : ¬ c = '\n' := Ne.symm hc
    by_cases hnext : (buf ++ [c]).length < pieceLen
    · simp only [List.cons_append, readCut, hc', hnext, if_true, if_false]
      rw [ih (buf ++ [c]) hnl' hnext, List.append_assoc, List.singleton_append]
    · -- the buffer is full with this byte: a piece goes out
      have hfull : (buf ++ [c]).length = pieceLen := by
        simp only [List.length_append, List.length_singleton] at hnext ⊢
        omega
      simp only [List.cons_append, readCut, hc', hnext, if_false]
      have hsplit : fullPieces (buf ++ c :: bs) = (buf ++ [c]) :: fullPieces bs := by
        rw [List.append_cons, fullPieces_of_le
          (by simp only [List.length_append] at hfull ⊢; omega),
          ← hfull, List.take_left, List.drop_left]
      rw [hsplit]
      exact emit_handOver removes _ (ih [] hnl' (by decide))
  | @interrupted bs es hes ih => exact ih buf hnl hbuf

/-- A text up to the first newline is a line. -/
theorem splitLines_line {text : CStr} (hnl : '\n' ∉ text) (cur rest : CStr) :
    splitLines cur (text ++ '\n' :: rest) =
      ((cur ++ text) :: (splitLines [] rest).1, (splitLines [] rest).2) := by
  induction text generalizing cur with
  | nil => simp [splitLines]
  | cons c text ih =>
    rcases not_or.mp (mt List.mem_cons.mpr hnl) with ⟨hc, hnl'⟩
    simp [splitLines, Ne.symm hc, ih hnl']

/-- A text without a newline is no line yet. -/
theorem splitLines_unfinished {text : CStr} (hnl : '\n' ∉ text) (cur : CStr) :
    splitLines cur text = ([], cur ++ text) := by
  induction text generalizing cur with
  | nil => simp [splitLines]
  | cons c text ih =>
    rcases not_or.mp (mt List.mem_cons.mpr hnl) with ⟨hc, hnl'⟩
    simp [splitLines, Ne.symm hc, ih hnl']

/-- The requests of the unfinished line at the end, if the client is still there. -/
def unfinishedRequests (removes : CStr → Bool) (stream : CStr) : List CStr :=
  if (splitLines [] stream).1.any fun line => (pieces line).any removes then []
  else upToRemoval removes (fullPieces (splitLines [] stream).2)

/-- The requests of a whole stream. -/
theorem readCut_stream (removes : CStr → Bool) {stream : CStr} {es fin : List ReadRes}
    (hes : Delivers stream es) (hfin : AtEnd fin) :
    (readCut removes [] (es ++ fin)).1 =
      (lineRequests removes (splitLines [] stream).1).flatten ++
        unfinishedRequests removes stream := by
  induction hlen : stream.length using Nat.strong_induction_on generalizing stream es with
  | _ len ih =>
    by_cases hnl : '\n' ∈ stream
    · rcases List.eq_append_cons_of_mem hnl with ⟨text, rest, rfl, htext⟩
      rcases readCut_line removes [] hes htext (by decide) with ⟨es', hrest, hread⟩
      have hlt : rest.length < len := by
        rw [← hlen, List.length_append, List.length_cons]
        omega
      have hstream := ih rest.length hlt hrest rfl
      rw [hread fin, hstream]
      unfold unfinishedRequests handOver
      rw [splitLines_line htext]
      simp only [List.nil_append, lineRequests, List.flatten_cons, List.any_cons]
      -- the line may be the last one that is read
      by_cases hrem : (pieces text).any removes = true
      · simp [hrem]
      · simp [hrem]
    · rw [readCut_unfinished removes [] hes hnl (by decide) hfin]
      unfold unfinishedRequests handOver
      simp [splitLines_unfinished hnl, lineRequests]

/-! ### Commands of a line -/

/-- At most one request of the line is a command, and such a request is a prefix of the line. -/
structure OneCommand (line : CStr) (requests : List CStr) : Prop where
  once : (requests.filter isCommand).length ≤ 1
  isPrefix : ∀ r ∈ requests, isCommand r = true → r <+: line

/-- The requests up to the one that ends the session. -/
theorem upToRemoval_cons (removes : CStr → Bool) (request : CStr) (requests : List CStr) :
    upToRemoval removes (request :: requests) =
      request :: if removes request then [] else upToRemoval removes requests := by
  rw [upToRemoval]
  split <;> rfl

theorem upToRemoval_sublist (removes : CStr → Bool) (requests : List CStr) :
    (upToRemoval removes requests).Sublist requests := by
  induction requests with
  | nil => exact List.Sublist.slnil
  | cons request requests ih =>
    rw [upToRemoval_cons]
    split
    · exact (List.nil_sublist requests).cons_cons request
    · exact ih.cons_cons request

/-- For one line, everything depends on the pieces behind the first. -/
theorem oneCommand_iff (removes : CStr → Bool) (line : CStr) :
    OneCommand line (upToRemoval removes (pieces line)) ↔
      ∀ r ∈ (upToRemoval removes (pieces line)).tail, isCommand r = false := by
  rcases pieces_cases line with ⟨later, hpieces, hlong, hlen⟩
  rw [hpieces, upToRemoval_cons, List.tail_cons]
  have hsub : (if removes (line.take pieceLen) then []
      else upToRemoval removes later).Sublist later := by
    split
    · exact List.nil_sublist later
    · exact upToRemoval_sublist removes later
  generalize (if removes (line.take pieceLen) then [] else upToRemoval removes later) = read at hsub
  constructor
  · intro h r hr
    by_contra hcmd
    have hcmd : isCommand r = true := by simpa using hcmd
    -- a command behind the first piece is a prefix of the first piece
    have hmem : r ∈ later := hsub.subset hr
    have hfull : r.length ≤ (line.take pieceLen).length := by
      rw [List.length_take_of_le (hlong (List.ne_nil_of_mem hmem))]
      exact hlen r hmem
    have hpre := h.isPrefix r (List.mem_cons_of_mem _ hr) hcmd
    have hfirst : isCommand (line.take pieceLen) = true :=
      isCommand_of_prefix (List.prefix_of_prefix_length_le hpre (List.take_prefix _ _) hfull) hcmd
    have hpos : 0 < (read.filter isCommand).length :=
      List.length_pos_of_mem (List.mem_filter.mpr ⟨hr, hcmd⟩)
    have honce := h.once
    rw [List.filter_cons_of_pos hfirst, List.length_cons] at honce
    omega
  · intro h
    have hnone : read.filter isCommand = [] := by
      rw [List.filter_eq_nil_iff]
      intro r hr
      simp [h r hr]
    constructor
    · rw [List.filter_cons]
      split <;> simp [hnone]
    · intro r hr hcmd
      rcases List.mem_cons.mp hr with rfl | hr
      · exact List.take_prefix _ _
      · rw [h r hr] at hcmd
        exact absurd hcmd (by simp)

/-- After the removal the lines have no requests. -/
theorem length_lineRequests_le (removes : CStr → Bool) (lines : List CStr) :
    (lineRequests removes lines).length ≤ lines.length := by
  induction lines with
  | nil => exact Nat.le_refl 0
  | cons line lines ih =>
    rw [lineRequests, List.length_cons, List.length_cons]
    apply Nat.succ_le_succ
    split
    · exact Nat.zero_le _
    · exact ih

/-- The lines that are read, with their requests. -/
def readLines (removes : CStr → Bool) (stream : CStr) : List (CStr × List CStr) :=
  (splitLines [] stream).1.zip (lineRequests removes (splitLines [] stream).1)

/-- The requests of a line are its pieces, up to a removal. -/
theorem mem_zip_lineRequests {removes : CStr → Bool} {lines : List CStr} {line : CStr}
    {requests : List CStr} (h : (line, requests) ∈ lines.zip (lineRequests removes lines)) :
    requests = upToRemoval removes (pieces line) := by
  induction lines with
  | nil => simp at h
  | cons l lines ih =>
    simp only [lineRequests, List.zip_cons_cons, List.mem_cons, Prod.mk.injEq] at h
    rcases h with ⟨rfl, rfl⟩ | h
    · rfl
    · split at h
      · simp at h
      · exact ih h

/-! ### Results -/

/-- For every stream, every way in which signals interrupt its reading and enough wakes: the
requests handed over are those of the lines, and of the unfinished one at the end. Each line
that is read gives at most one command, a prefix of the line, if and only if none of its pieces
but the first is a command. -/
theorem one_command_per_line_iff (removes : CStr → Bool) {stream : CStr} {es : List ReadRes}
    (hes : Delivers stream es) {fin : List ReadRes} (hfin : AtEnd fin) {n : Nat}
    (hn : (es ++ fin).length ≤ n) :
    (serveClient removes n (es ++ fin)).1 =
        ((readLines removes stream).map Prod.snd).flatten ++ unfinishedRequests removes stream ∧
      ((∀ line ∈ readLines removes stream, OneCommand line.1 line.2) ↔
        ∀ line ∈ readLines removes stream, ∀ r ∈ line.2.tail, isCommand r = false) := by
  constructor
  · -- a Disconnect ends the reading, so the requests may be fewer than the lines
    have hlen : (lineRequests removes (splitLines [] stream).1).length ≤
        (splitLines [] stream).1.length := length_lineRequests_le removes _
    rw [(pass_readCut removes).serveClient_eq hn trivial, readCut_stream removes hes hfin,
      readLines, List.map_snd_zip hlen]
  · refine forall_congr' fun line => imp_congr_right fun hline => ?_
    rcases line with ⟨text, requests⟩
    obtain rfl := mem_zip_lineRequests hline
    exact oneCommand_iff removes text

/-- A login, and a command whose second piece is no command. -/
def longCommand : CStr :=
  "Login bob\ngenerate 0 ".toList ++ List.replicate 150 'x' ++ "\n".toList

theorem one_command_per_line_iff_longCommand :
    (∀ line ∈ readLines disconnects longCommand, OneCommand line.1 line.2) ∧
      (serveClient disconnects 400 (longCommand.map .byte ++ [.eof])).1 =
        ["Login bob".toList, "generate 0 ".toList ++ List.replicate 116 'x',
          List.replicate 34 'x'] := by
  have hmain := one_command_per_line_iff disconnects (delivers_map_byte longCommand)
    (by simp [AtEnd] : AtEnd [.eof]) (n := 400) (by decide +kernel)
  constructor
  · exact hmain.2.mpr (by decide +kernel)
  · rw [hmain.1]
    decide +kernel

/-- One line of 137 bytes, the last ten of which are `Disconnect`. -/
def hiddenDisconnect : CStr := List.replicate 127 'x' ++ "Disconnect\n".toList

/-- The end of a line disconnects the client. -/
theorem end_of_line_is_command :
    (serveClient disconnects 138 (hiddenDisconnect.map .byte)).1 =
        [List.replicate 127 'x', "Disconnect".toList] ∧
      ¬ ∀ removes stream, ∀ line ∈ readLines removes stream, OneCommand line.1 line.2 := by
  constructor
  · decide +kernel
  · intro h
    have hline : (List.replicate 127 'x' ++ "Disconnect".toList,
        [List.replicate 127 'x', "Disconnect".toList]) ∈
        readLines disconnects hiddenDisconnect := by decide +kernel
    have hpre := (h _ _ _ hline).isPrefix "Disconnect".toList (by simp) (by decide +kernel)
    exact absurd hpre (by decide +kernel)

end AnimateServer.LongLines
