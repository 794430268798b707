import AnimateServer.Model.RequestReader

/-!
# Framing of the client's byte stream

The stream a client writes is a sequence of newline-terminated lines; the server
sees it through one-byte reads, between which the kernel may answer `EAGAIN`.
`read_until_delim` keeps an unfinished line only in the caller's local buffer, so
an `EAGAIN` in the middle of a line throws away what was read of it. The reader
delivers the lines of the stream, whatever the cuts, exactly when every `EAGAIN`
falls on a line boundary.

The proof goes through `readAll`, the reader without budgets: one pass over all
results of the kernel.
-/

namespace AnimateServer.Framing

open CLib

/-! ## The stream and its lines -/

/-- The bytes a sequence of read results delivers. -/
def bytesOf : List ReadRes → CStr
  | [] => []
  | .byte c :: es => c :: bytesOf es
  | _ :: es => bytesOf es

/-- The newline-terminated lines of a stream whose current line began with
`cur`, and the unfinished line at its end. -/
def splitLines (cur : CStr) : CStr → List CStr × CStr
  | [] => ([], cur)
  | c :: s =>
    if c = '\n' then (cur :: (splitLines [] s).1, (splitLines [] s).2)
    else splitLines (cur ++ [c]) s

/-- The lines and the rest spell the stream. -/
theorem splitLines_spell (cur s : CStr) :
    ((splitLines cur s).1.map (· ++ ['\n'])).flatten ++ (splitLines cur s).2 = cur ++ s := by
  induction s generalizing cur with
  | nil => simp [splitLines]
  | cons c s ih =>
    by_cases hc : c = '\n'
    · simp [splitLines, hc, ih]
    · simp [splitLines, hc, ih]

/-- No line contains a newline. -/
theorem splitLines_newline {cur s : CStr} (hcur : '\n' ∉ cur) :
    (∀ l ∈ (splitLines cur s).1, '\n' ∉ l) ∧ '\n' ∉ (splitLines cur s).2 := by
  induction s generalizing cur with
  | nil => simpa [splitLines] using hcur
  | cons c s ih =>
    by_cases hc : c = '\n'
    · have h := @ih [] (by simp)
      simpa [splitLines, hc] using ⟨⟨hcur, h.1⟩, h.2⟩
    · have h := @ih (cur ++ [c]) (by simpa [hcur] using Ne.symm hc)
      simpa [splitLines, hc] using h

/-- The lines the main loop reads: up to and including the first one that makes
`handle_command` ask for the client's removal. -/
def upToRemoval (removes : CStr → Bool) : List CStr → List CStr
  | [] => []
  | l :: ls => if removes l then [l] else l :: upToRemoval removes ls

/-- Every line of the stream, the unfinished one included, is shorter than the
`MAX_RPC_BUF_LEN - 1` bytes the reader holds. -/
def ShortLines (s : CStr) : Prop :=
  (∀ l ∈ (splitLines [] s).1, l.length < MAX_RPC_BUF_LEN - 1) ∧
    (splitLines [] s).2.length < MAX_RPC_BUF_LEN - 1

/-- The client keeps its FIFO open and no read fails: the kernel answers with a
byte, `EAGAIN` or `EINTR`. -/
def Open (es : List ReadRes) : Prop :=
  ∀ e ∈ es, e ≠ .eof ∧ e ≠ .errno .EPIPE ∧ e ≠ .errno .other

/-- Every `EAGAIN` comes between two lines, up to the line that removes the
client; `cur` is what has been read of the current line. -/
def EagainBetweenLines (removes : CStr → Bool) : CStr → List ReadRes → Prop
  | _, [] => True
  | cur, .byte c :: es =>
    if c = '\n' then removes cur = true ∨ EagainBetweenLines removes [] es
    else EagainBetweenLines removes (cur ++ [c]) es
  | cur, .errno .EAGAIN :: es => cur = [] ∧ EagainBetweenLines removes [] es
  | cur, .eof :: es | cur, .errno .EINTR :: es | cur, .errno .EPIPE :: es
  | cur, .errno .other :: es => EagainBetweenLines removes cur es

/-- The results of reading a stream whose bytes are there when they are asked for: the bytes,
and now and then the arrival of a signal. -/
inductive Delivers : CStr → List ReadRes → Prop where
  | nil : Delivers [] []
  | byte {bs es} (c : Char) : Delivers bs es → Delivers (c :: bs) (.byte c :: es)
  | interrupted {bs es} : Delivers bs es → Delivers bs (.errno .EINTR :: es)

/-- A stream without interruptions. -/
theorem delivers_map_byte (bs : CStr) : Delivers bs (bs.map .byte) := by
  induction bs with
  | nil => exact .nil
  | cons c bs ih => exact .byte c ih

/-! ## The reader without budgets -/

/-- One pass over the results of the kernel: the requests, and the bytes thrown
away when a call returns without a request. -/
def readAll (removes : CStr → Bool) : CStr → List ReadRes → List CStr × CStr
  | _, [] => ([], [])
  | buf, .byte c :: es =>
    if c = '\n' then
      if removes buf then ([buf], [])
      else (buf :: (readAll removes [] es).1, (readAll removes [] es).2)
    else readAll removes (buf ++ [c]) es
  | buf, .errno .EAGAIN :: es => ((readAll removes [] es).1, buf ++ (readAll removes [] es).2)
  | buf, .errno .EINTR :: es => readAll removes buf es
  | buf, .eof :: _ | buf, .errno .EPIPE :: _ | buf, .errno .other :: _ => ([], buf)

/-- Starting `k` bytes into a line, no line grows past the reader's buffer. -/
def Fits : Nat → List ReadRes → Prop
  | k, [] => k < MAX_RPC_BUF_LEN - 1
  | k, .byte c :: es =>
    k < MAX_RPC_BUF_LEN - 1 ∧ if c = '\n' then Fits 0 es else Fits (k + 1) es
  | k, _ :: es => k < MAX_RPC_BUF_LEN - 1 ∧ Fits k es

theorem Fits.lt {k : Nat} {es : List ReadRes} (h : Fits k es) : k < MAX_RPC_BUF_LEN - 1 := by
  cases es with
  | nil => exact h
  | cons e es => cases e <;> exact h.1

/-- A shorter start fits too: an `EAGAIN` that empties the buffer does no harm. -/
theorem Fits.mono {k k' : Nat} {es : List ReadRes} (hk : k' ≤ k) (h : Fits k es) :
    Fits k' es := by
  induction es generalizing k k' with
  | nil => exact Nat.lt_of_le_of_lt hk h
  | cons e es ih =>
    have hlt : k' < MAX_RPC_BUF_LEN - 1 := Nat.lt_of_le_of_lt hk h.lt
    cases e with
    | byte c =>
      refine ⟨hlt, ?_⟩
      -- behind a newline the count starts again
      by_cases hc : c = '\n'
      · simpa [Fits, hc] using h.2
      · simp only [hc, if_false]
        refine ih (Nat.succ_le_succ hk) ?_
        simpa [Fits, hc] using h.2
    | eof => exact ⟨hlt, ih hk h.2⟩
    | errno n => exact ⟨hlt, ih hk h.2⟩

/-- What has been read of the current line is a prefix of a line or of the rest. -/
theorem exists_longer (cur s : CStr) :
    (∃ l ∈ (splitLines cur s).1, cur.length ≤ l.length) ∨
      cur.length ≤ (splitLines cur s).2.length := by
  induction s generalizing cur with
  | nil => exact Or.inr (Nat.le_refl _)
  | cons c s ih =>
    by_cases hc : c = '\n'
    · simp [splitLines, hc]
    · simp only [splitLines, hc, if_false]
      have hle : cur.length ≤ (cur ++ [c]).length := by simp
      rcases ih (cur ++ [c]) with ⟨l, hl, hlen⟩ | hlen
      · exact Or.inl ⟨l, hl, hle.trans hlen⟩
      · exact Or.inr (hle.trans hlen)

/-- Short lines fit. -/
theorem fits_of_short (cur : CStr) (es : List ReadRes)
    (h : (∀ l ∈ (splitLines cur (bytesOf es)).1, l.length < MAX_RPC_BUF_LEN - 1) ∧
      (splitLines cur (bytesOf es)).2.length < MAX_RPC_BUF_LEN - 1) :
    Fits cur.length es := by
  -- the part read so far belongs to a line, all of which are short
  have hcur : cur.length < MAX_RPC_BUF_LEN - 1 := by
    rcases exists_longer cur (bytesOf es) with ⟨l, hl, hlen⟩ | hlen
    · exact Nat.lt_of_le_of_lt hlen (h.1 l hl)
    · exact Nat.lt_of_le_of_lt hlen h.2
  induction es generalizing cur with
  | nil => exact hcur
  | cons e es ih =>
    cases e with
    | byte c =>
      refine ⟨hcur, ?_⟩
      by_cases hc : c = '\n'
      · simp only [bytesOf, splitLines, hc, if_true, List.forall_mem_cons] at h ⊢
        exact ih [] ⟨h.1.2, h.2⟩ (by decide)
      · simp only [bytesOf, splitLines, hc, if_false] at h ⊢
        have hlen : (cur ++ [c]).length < MAX_RPC_BUF_LEN - 1 := by
          rcases exists_longer (cur ++ [c]) (bytesOf es) with ⟨l, hl, hle⟩ | hle
          · exact Nat.lt_of_le_of_lt hle (h.1 l hl)
          · exact Nat.lt_of_le_of_lt hle h.2
        simpa using ih (cur ++ [c]) h hlen
    | eof => exact ⟨hcur, ih cur h hcur⟩
    | errno n => exact ⟨hcur, ih cur h hcur⟩

/-! ## Budgets do not matter -/

/-- One call of `read_until_delim` is a piece of the pass: what it returns, and
where the next call starts. -/
theorem readAll_call (removes : CStr → Bool) (buf : CStr) {es : List ReadRes}
    (hfit : Fits buf.length es) :
    match readUntilDelim MAX_RPC_BUF_LEN '\n' buf es with
    | none => readAll removes buf es = ([], [])
    | some (.SUCCESS, request, es') =>
      Fits 0 es' ∧ es'.length < es.length ∧
      readAll removes buf es =
        if removes request then ([request], [])
        else (request :: (readAll removes [] es').1, (readAll removes [] es').2)
    | some (.PIPE_EMPTY, left, es') =>
      Fits 0 es' ∧ es'.length < es.length ∧
      readAll removes buf es = ((readAll removes [] es').1, left ++ (readAll removes [] es').2)
    | some (_, left, es') =>
      Fits 0 es' ∧ es'.length < es.length ∧ readAll removes buf es = ([], left) := by
  -- on the reads: an ordinary byte and an `EINTR` leave the call where it is
  induction es generalizing buf with
  | nil =>
    have hlt : buf.length < MAX_RPC_BUF_LEN - 1 := hfit
    simp [readUntilDelim, hlt, readAll]
  | cons e es ih =>
    have hlt := hfit.lt
    cases e with
    | byte c =>
      by_cases hc : c = '\n'
      · have hfit' : Fits 0 es := by simpa [Fits, hc] using hfit.2
        simp [readUntilDelim, hlt, hc, readAll, hfit']
      · have hfit' : Fits (buf ++ [c]).length es := by
          simpa [Fits, hc] using hfit.2
        have h := ih _ hfit'
        simp only [readUntilDelim, hlt, hc, readAll, if_true, if_false]
        split at h <;> simp_all <;> omega
    | eof => simp [readUntilDelim, hlt, readAll, hfit.2.mono (Nat.zero_le _)]
    | errno n =>
      have hfit' : Fits 0 es := hfit.2.mono (Nat.zero_le _)
      cases n with
      | EAGAIN => simp [readUntilDelim, hlt, readAll, hfit']
      | EINTR =>
        have h := ih _ hfit.2
        simp only [readUntilDelim, hlt, readAll, if_true]
        split at h <;> simp_all <;> omega
      | EPIPE => simp [readUntilDelim, hlt, readAll, hfit']
      | other => simp [readUntilDelim, hlt, readAll, hfit']

/-- `R` is one pass over the results of the kernel: what a call of `read_until_delim` returns
is a piece of it. `P` holds of what is left after each call. -/
structure Pass (removes : CStr → Bool) (P : List ReadRes → Prop)
    (R : List ReadRes → List CStr × CStr) : Prop where
  nil : P [] ∧ R [] = ([], [])
  call : ∀ es, P es →
    match readUntilDelim MAX_RPC_BUF_LEN '\n' [] es with
    | none => R es = ([], [])
    | some (.SUCCESS, request, es') =>
      P es' ∧ es'.length < es.length ∧
      R es = if removes request then ([request], []) else (request :: (R es').1, (R es').2)
    | some (.PIPE_EMPTY, left, es') =>
      P es' ∧ es'.length < es.length ∧ R es = ((R es').1, left ++ (R es').2)
    | some (_, left, es') => P es' ∧ es'.length < es.length ∧ R es = ([], left)

/-- One wake is a piece of the pass. -/
theorem Pass.wake {removes : CStr → Bool} {P : List ReadRes → Prop}
    {R : List ReadRes → List CStr × CStr} (h : Pass removes P R) (n : Nat) {es : List ReadRes}
    (hP : P es) :
    let w := serveWake removes n es
    P w.rest ∧ w.rest.length ≤ es.length ∧ (0 < n → es ≠ [] → w.rest.length < es.length) ∧
      R es =
        if w.removed then (w.requests, w.leftover)
        else (w.requests ++ (R w.rest).1, w.leftover ++ (R w.rest).2) := by
  induction n generalizing es with
  | zero => simp [serveWake, hP]
  | succ n ih =>
    have hcall := h.call es hP
    simp only [serveWake]
    cases hr : readUntilDelim MAX_RPC_BUF_LEN '\n' [] es with
    | none =>
      rw [hr] at hcall
      have hpos : es ≠ [] → 0 < es.length := List.length_pos_iff.mpr
      refine ⟨h.nil.1, by simp, fun _ hne => hpos hne, ?_⟩
      simpa [h.nil.2] using hcall
    | some r =>
      rcases r with ⟨err, buf, es'⟩
      rw [hr] at hcall
      cases err with
      | SUCCESS =>
        rcases hcall with ⟨hP', hlen, hread⟩
        by_cases hrem : removes buf = true
        · simp [hrem, hP', hread, hlen, hlen.le]
        · rcases ih hP' with ⟨hf, hl, -, hw⟩
          simp only [hrem, Bool.false_eq_true, if_false] at hread ⊢
          refine ⟨hf, hl.trans hlen.le, fun _ _ => Nat.lt_of_le_of_lt hl hlen, ?_⟩
          rw [hread, hw]
          split <;> simp
      | PIPE_EMPTY =>
        rcases hcall with ⟨hP', hlen, hread⟩
        simp [hP', hread, hlen, hlen.le]
      | _ =>
        -- end of file or a failed read: the client is removed
        rcases hcall with ⟨hP', hlen, hread⟩
        simp [hP', hread, hlen, hlen.le]

/-- The wakes of the main loop read what the pass reads, if there are enough of them. -/
theorem Pass.serveClient_eq {removes : CStr → Bool} {P : List ReadRes → Prop}
    {R : List ReadRes → List CStr × CStr} (h : Pass removes P R) {n : Nat} {es : List ReadRes}
    (hn : es.length ≤ n) (hP : P es) : serveClient removes n es = R es := by
  induction n generalizing es with
  | zero =>
    have hnil : es = [] := List.length_eq_zero_iff.mp (Nat.le_zero.mp hn)
    simp [hnil, serveClient, h.nil.2]
  | succ n ih =>
    cases es with
    | nil => simp [serveClient, h.nil.2]
    | cons e es =>
      rcases h.wake FIFO_MAX_PER_WAKE hP with ⟨hf, -, hlt, hread⟩
      have hlt' := hlt (by decide) (List.cons_ne_nil e es)
      have hrest := ih (Nat.le_of_lt_succ (Nat.lt_of_lt_of_le hlt' hn)) hf
      simp only [serveClient, hread, hrest]

/-- For lines that fit into the buffer. -/
theorem pass_readAll (removes : CStr → Bool) : Pass removes (Fits 0) (readAll removes []) where
  nil := ⟨by simp [Fits, MAX_RPC_BUF_LEN], rfl⟩
  call := fun _ hfit => readAll_call removes [] hfit

/-! ## When the lines come through -/

/-- Nothing is thrown away exactly when every `EAGAIN` falls between lines. -/
theorem readAll_nothing_lost (removes : CStr → Bool) {buf : CStr} {es : List ReadRes}
    (hopen : Open es) :
    (readAll removes buf es).2 = [] ↔ EagainBetweenLines removes buf es := by
  induction es generalizing buf with
  | nil => simp [readAll, EagainBetweenLines]
  | cons e es ih =>
    have hopen' : Open es := fun x hx => hopen x (List.mem_cons_of_mem _ hx)
    have he := hopen e List.mem_cons_self
    cases e with
    | byte c =>
      by_cases hc : c = '\n'
      · -- a line that removes the client ends the reading
        by_cases hrem : removes buf = true
        · simp [readAll, EagainBetweenLines, hc, hrem]
        · simp [readAll, EagainBetweenLines, hc, hrem, ih hopen']
      · simp [readAll, EagainBetweenLines, hc, ih hopen']
    | eof => exact absurd rfl he.1
    | errno n =>
      cases n with
      | EAGAIN => simp [readAll, EagainBetweenLines, ih hopen']
      | EINTR => simp [readAll, EagainBetweenLines, ih hopen']
      | EPIPE => exact absurd rfl he.2.1
      | other => exact absurd rfl he.2.2

/-- If every `EAGAIN` falls between lines, the requests are the lines. -/
theorem readAll_requests (removes : CStr → Bool) {buf : CStr} {es : List ReadRes}
    (hopen : Open es) (hb : EagainBetweenLines removes buf es) :
    (readAll removes buf es).1 = upToRemoval removes (splitLines buf (bytesOf es)).1 := by
  induction es generalizing buf with
  | nil => rfl
  | cons e es ih =>
    have hopen' : Open es := fun x hx => hopen x (List.mem_cons_of_mem _ hx)
    have he := hopen e List.mem_cons_self
    cases e with
    | byte c =>
      by_cases hc : c = '\n'
      · by_cases hrem : removes buf = true
        · simp [readAll, bytesOf, splitLines, upToRemoval, hc, hrem]
        · have hb' : EagainBetweenLines removes [] es := by
            simpa [EagainBetweenLines, hc, hrem] using hb
          simp [readAll, bytesOf, splitLines, upToRemoval, hc, hrem, ih hopen' hb']
      · have hb' : EagainBetweenLines removes (buf ++ [c]) es := by
          simpa [EagainBetweenLines, hc] using hb
        simpa [readAll, bytesOf, splitLines, hc] using ih hopen' hb'
    | eof => exact absurd rfl he.1
    | errno n =>
      cases n with
      | EAGAIN =>
        -- the call drops its buffer, which is empty between two lines
        rcases hb with ⟨hnil, hb'⟩
        subst hnil
        simpa [readAll, bytesOf] using ih hopen' hb'
      | EINTR => simpa [readAll, bytesOf] using ih hopen' hb
      | EPIPE => exact absurd rfl he.2.1
      | other => exact absurd rfl he.2.2

/-! ## The framing theorem -/

/-- The requests handed to `handle_command` are the newline-terminated lines of
the stream in order, up to the one that removes the client, and no byte is
thrown away. -/
def LinesDelivered (removes : CStr → Bool) (n : Nat) (es : List ReadRes) : Prop :=
  (serveClient removes n es).1 = upToRemoval removes (splitLines [] (bytesOf es)).1 ∧
    (serveClient removes n es).2 = []

/-- For every stream of short lines, every way the bytes arrive and any number
of wakes that is large enough, the lines are delivered if and only if no read
answers `EAGAIN` in the middle of a line. -/
theorem lines_delivered_iff (removes : CStr → Bool) (n : Nat) (es : List ReadRes)
    (hopen : Open es) (hshort : ShortLines (bytesOf es)) (hn : es.length ≤ n) :
    LinesDelivered removes n es ↔ EagainBetweenLines removes [] es := by
  have hfit : Fits 0 es := fits_of_short [] es hshort
  unfold LinesDelivered
  rw [(pass_readAll removes).serveClient_eq hn hfit]
  constructor
  · intro h
    exact (readAll_nothing_lost removes hopen).mp h.2
  · intro hb
    exact ⟨readAll_requests removes hopen hb, (readAll_nothing_lost removes hopen).mpr hb⟩

/-- Read results that deliver a string without interruption. -/
def arrive (s : String) : List ReadRes := s.toList.map .byte

theorem lines_delivered_example :
    LinesDelivered (fun _ => false) 8
        (arrive "bob\n" ++ [.errno .EAGAIN] ++ arrive "al\n") ↔
      EagainBetweenLines (fun _ => false) []
        (arrive "bob\n" ++ [.errno .EAGAIN] ++ arrive "al\n") :=
  lines_delivered_iff _ 8 _ (by unfold Open; decide) (by unfold ShortLines; decide) (by decide)

/-- One stream, two cuts, two request sequences: with an `EAGAIN` after `Login `
the server is handed `bob`, and the first six bytes are gone. -/
theorem eagain_in_line_changes_request :
    bytesOf (arrive "Login " ++ [.errno .EAGAIN] ++ arrive "bob\n") =
        bytesOf (arrive "Login bob\n") ∧
      Open (arrive "Login " ++ [.errno .EAGAIN] ++ arrive "bob\n") ∧
      ShortLines (bytesOf (arrive "Login bob\n")) ∧
      serveClient (fun _ => false) 11 (arrive "Login bob\n") = (["Login bob".toList], []) ∧
      serveClient (fun _ => false) 11 (arrive "Login " ++ [.errno .EAGAIN] ++ arrive "bob\n") =
        (["bob".toList], "Login ".toList) ∧
      ¬ LinesDelivered (fun _ => false) 11
        (arrive "Login " ++ [.errno .EAGAIN] ++ arrive "bob\n") := by
  refine ⟨by decide, by unfold Open; decide, by unfold ShortLines; decide, by decide,
    by decide, ?_⟩
  unfold LinesDelivered
  decide

end AnimateServer.Framing
