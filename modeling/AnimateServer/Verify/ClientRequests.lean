import AnimateServer.Model.Client
import AnimateServer.Model.RequestReader
import AnimateServer.Verify.Whitespace

/-!
# From the client's input to the server's requests

A sanitised text is at most `MAX_RPC_BUF_LEN - 1` bytes long and has no newline.
The server's reader stops at a newline or after as many bytes, so it takes one
text out of every message: a text that leaves no room for its newline fills the
reader's buffer by itself, and a newline behind such a text is read as an empty
request.
-/

namespace AnimateServer.ClientRequests

open CLib Client Whitespace

/-! ## Messages -/

/-- A message the reader takes for one request. -/
structure Framed (m : Message) : Prop where
  text_ne : m.text ≠ []
  newline : '\n' ∉ m.text
  length_le : m.text.length ≤ MAX_RPC_BUF_LEN - 1
  bytes : m.bytes = m.text ++ ['\n'] ∨
    m.bytes = m.text ∧ m.text.length = MAX_RPC_BUF_LEN - 1

theorem framed_authoriseLine {input : CStr} {m : Message}
    (hlen : input.length ≤ MAX_RPC_BUF_LEN - 1) (h : authoriseLine input = some m) :
    Framed m := by
  -- neither stripping nor sanitising makes a line longer
  have hstrip : (stripNewline input).length ≤ input.length := by
    unfold stripNewline
    split <;> simp
  rcases sanitiseWhitespace_spec (stripNewline input) with ⟨hnl, hshort⟩
  have htext := hshort.trans (hstrip.trans hlen)
  unfold Client.authoriseLine at h
  dsimp only at h
  split at h
  · cases h
  · rename_i hne
    split at h
    · cases h
    · obtain rfl := Option.some.inj h
      refine ⟨hne, hnl, htext, Or.inl (List.take_of_length_le ?_)⟩
      simp only [List.length_append, MAX_RPC_BUF_LEN] at htext ⊢
      exact Nat.succ_le_succ htext

theorem framed_sendUserInput {input : CStr} (hlen : input.length ≤ MAX_RPC_BUF_LEN - 1) :
    ∀ m ∈ (sendUserInput (some input)).2, Framed m := by
  rcases sanitiseWhitespace_spec input with ⟨hnl, hshort⟩
  have htext := hshort.trans hlen
  intro m hm
  unfold sendUserInput at hm
  dsimp only at hm
  split at hm
  · cases hm
  · rename_i hne
    split at hm
    · rename_i hdisc
      obtain rfl := Option.some.inj hm
      exact ⟨hne, hnl, htext, Or.inl (by rw [hdisc]; rfl)⟩
    · obtain rfl := Option.some.inj hm
      refine ⟨hne, hnl, htext, ?_⟩
      rcases Nat.lt_or_eq_of_le htext with hroom | hfull
      · exact Or.inl (List.take_of_length_le (by simpa using Nat.succ_le_of_lt hroom))
      · -- no room for the newline
        refine Or.inr ⟨?_, hfull⟩
        simp [printLine, ← hfull]

theorem framed_sendRequests {inputs : List CStr}
    (hlen : ∀ s ∈ inputs, s.length ≤ MAX_RPC_BUF_LEN - 1) :
    ∀ m ∈ sendRequests inputs, Framed m := by
  induction inputs with
  | nil => simp [sendRequests]
  | cons input inputs ih =>
    have hhead := framed_sendUserInput (hlen input List.mem_cons_self)
    have htail := ih fun s hs => hlen s (List.mem_cons_of_mem _ hs)
    intro m hm
    unfold sendRequests at hm
    -- the loop goes on after a line, or this was the last
    split at hm
    · rename_i message heq
      rcases List.mem_append.mp hm with hm | hm
      · exact hhead m (by simpa [heq] using hm)
      · exact htail m hm
    · rename_i message _ heq
      exact hhead m (by simpa [heq] using hm)

theorem framed_session {reply : Option CStr} {inputs : List CStr}
    (hlen : ∀ s ∈ inputs, s.length ≤ MAX_RPC_BUF_LEN - 1) :
    ∀ m ∈ session reply inputs, Framed m := by
  induction inputs with
  | nil => simp [session, Client.authorise]
  | cons input inputs ih =>
    have hrest : ∀ s ∈ inputs, s.length ≤ MAX_RPC_BUF_LEN - 1 :=
      fun s hs => hlen s (List.mem_cons_of_mem _ hs)
    -- a line that is no Login is asked for again
    cases hline : authoriseLine input with
    | none => simpa [session, Client.authorise, hline] using ih hrest
    | some message =>
      intro m hm
      simp only [session, Client.authorise, hline, List.mem_cons] at hm
      rcases hm with rfl | hm
      · exact framed_authoriseLine (hlen input List.mem_cons_self) hline
      · split at hm
        · exact framed_sendRequests hrest m hm
        · cases hm

/-! ## The reader -/

/-- The reader takes bytes that are no newline into its buffer. -/
theorem readUntilDelim_bytes {buf w : CStr} (es : List ReadRes) (hnl : '\n' ∉ w)
    (hlen : (buf ++ w).length ≤ MAX_RPC_BUF_LEN - 1) :
    readUntilDelim MAX_RPC_BUF_LEN '\n' buf (w.map .byte ++ es) =
      readUntilDelim MAX_RPC_BUF_LEN '\n' (buf ++ w) es := by
  induction w generalizing buf with
  | nil => simp
  | cons c w ih =>
    rcases not_or.mp (mt List.mem_cons.mpr hnl) with ⟨hc, hw⟩
    -- the buffer has room for a byte that is not the delimiter
    have hroom : buf.length < MAX_RPC_BUF_LEN - 1 := by
      simp only [List.length_append, List.length_cons] at hlen
      omega
    have hstep : readUntilDelim MAX_RPC_BUF_LEN '\n' (buf ++ [c]) (w.map .byte ++ es) =
        readUntilDelim MAX_RPC_BUF_LEN '\n' (buf ++ [c] ++ w) es := ih hw (by simpa using hlen)
    rw [List.append_assoc, List.singleton_append] at hstep
    rw [← hstep]
    simp [readUntilDelim, hroom, Ne.symm hc]

theorem readUntilDelim_line {text : CStr} (es : List ReadRes) (hnl : '\n' ∉ text)
    (hlen : text.length < MAX_RPC_BUF_LEN - 1) :
    readUntilDelim MAX_RPC_BUF_LEN '\n' [] ((text ++ ['\n']).map .byte ++ es) =
      some (.SUCCESS, text, es) := by
  rw [List.map_append, List.append_assoc, readUntilDelim_bytes _ hnl (by simpa using hlen.le)]
  simp [readUntilDelim, hlen]

/-- A text that fills the buffer ends the call without a newline. -/
theorem readUntilDelim_full {text : CStr} (es : List ReadRes) (hnl : '\n' ∉ text)
    (hlen : text.length = MAX_RPC_BUF_LEN - 1) :
    readUntilDelim MAX_RPC_BUF_LEN '\n' [] (text.map .byte ++ es) =
      some (.SUCCESS, text, es) := by
  rw [readUntilDelim_bytes _ hnl (by simpa using hlen.le)]
  cases es <;> simp [readUntilDelim, hlen]

/-! ## Arrival -/

/-- Read results that deliver the messages one after the other, each of them whole; the
pipe may be found empty in between. -/
inductive Arrives : List CStr → List ReadRes → Prop where
  | nil : Arrives [] []
  | empty {ms es} : Arrives ms es → Arrives ms (.errno .EAGAIN :: es)
  | message {ms es} (m : CStr) : Arrives ms es → Arrives (m :: ms) (m.map .byte ++ es)

theorem readRequests_success {n : Nat} {es es' : List ReadRes} {request : CStr}
    (h : readUntilDelim MAX_RPC_BUF_LEN '\n' [] es = some (.SUCCESS, request, es')) :
    readRequests (n + 1) es = request :: readRequests n es' := by
  simp [readRequests, h]

/-- A message gives one request, and perhaps an empty one behind it. -/
theorem readRequests_message {m : Message} (hm : Framed m) (es : List ReadRes) {n : Nat}
    (hn : (m.bytes.map ReadRes.byte ++ es).length ≤ n) :
    ∃ n', es.length ≤ n' ∧
      (readRequests n (m.bytes.map .byte ++ es)).filter (· ≠ []) =
        m.text :: (readRequests n' es).filter (· ≠ []) := by
  have hpos : 0 < m.text.length := List.length_pos_iff.mpr hm.text_ne
  simp only [List.length_append, List.length_map] at hn
  rcases hm.bytes with hbytes | ⟨hbytes, hfull⟩
  · rw [hbytes] at hn ⊢
    simp only [List.length_append, List.length_singleton] at hn
    rcases Nat.lt_or_eq_of_le hm.length_le with hroom | hfull
    · obtain ⟨n', rfl⟩ : ∃ n', n = n' + 1 := ⟨n - 1, by omega⟩
      refine ⟨n', by omega, ?_⟩
      rw [readRequests_success (readUntilDelim_line es hm.newline hroom)]
      simp [hm.text_ne]
    · -- the newline is read by a call of its own
      obtain ⟨n', rfl⟩ : ∃ n', n = n' + 1 + 1 := ⟨n - 2, by omega⟩
      have hempty : readUntilDelim MAX_RPC_BUF_LEN '\n' [] (.byte '\n' :: es) =
          some (.SUCCESS, [], es) := rfl
      refine ⟨n', by omega, ?_⟩
      rw [List.map_append, List.append_assoc,
        readRequests_success (readUntilDelim_full _ hm.newline hfull)]
      simp [readRequests_success hempty, hm.text_ne]
  · rw [hbytes] at hn ⊢
    obtain ⟨n', rfl⟩ : ∃ n', n = n' + 1 := ⟨n - 1, by omega⟩
    refine ⟨n', by omega, ?_⟩
    rw [readRequests_success (readUntilDelim_full es hm.newline hfull)]
    simp [hm.text_ne]

/-- However the messages arrive, the requests that are not empty are the texts. -/
theorem readRequests_of_arrives {messages : List Message} {es : List ReadRes} {n : Nat}
    (hframed : ∀ m ∈ messages, Framed m) (harr : Arrives (messages.map Message.bytes) es)
    (hn : es.length ≤ n) :
    (readRequests n es).filter (· ≠ []) = messages.map Message.text := by
  -- by induction on how the bytes arrive
  generalize hms : messages.map Message.bytes = ms at harr
  induction harr generalizing messages n with
  | nil =>
    obtain rfl := List.map_eq_nil_iff.mp hms
    cases n <;> rfl
  | empty _ ih =>
    obtain ⟨n, rfl⟩ : ∃ n', n = n' + 1 := ⟨n - 1, by simp only [List.length_cons] at hn; omega⟩
    have hrest := ih hframed (Nat.le_of_succ_le_succ hn) hms
    simpa [readRequests, readUntilDelim, MAX_RPC_BUF_LEN] using hrest
  | @message ms es bytes _ ih =>
    rcases List.map_eq_cons_iff.mp hms with ⟨m, messages, rfl, rfl, htail⟩
    rcases readRequests_message (hframed m List.mem_cons_self) es hn with ⟨n', hn', heq⟩
    have hrest := ih (fun m' hm' => hframed m' (List.mem_cons_of_mem _ hm')) hn' htail
    rw [heq, hrest, List.map_cons]

/-- The server's requests that are not empty are the texts the client decided to send. -/
theorem requests_roundtrip {reply : Option CStr} {inputs : List CStr}
    (hinputs : ∀ s ∈ inputs, s.length ≤ MAX_RPC_BUF_LEN - 1) {es : List ReadRes}
    (harr : Arrives ((session reply inputs).map Message.bytes) es) {n : Nat}
    (hn : es.length ≤ n) :
    (readRequests n es).filter (· ≠ []) = (session reply inputs).map Message.text :=
  readRequests_of_arrives (framed_session hinputs) harr hn

/-- The bytes of the messages, without a gap. -/
theorem arrives_flatten (ms : List CStr) : Arrives ms (ms.flatten.map .byte) := by
  induction ms with
  | nil => exact .nil
  | cons m ms ih =>
    rw [List.flatten_cons, List.map_append]
    exact .message m ih

/-- A login, a line of 127 bytes, whose newline `fgets` leaves for the next call, and the
end of the session. -/
def fullLine : List CStr :=
  ["hello\n".toList, "Login  bob\n".toList, List.replicate 127 'x', "\n".toList,
    "Disconnect\n".toList]

theorem requests_roundtrip_fullLine :
    ∃ es, (readRequests es.length es).filter (· ≠ []) =
        (session (some "12".toList) fullLine).map Message.text ∧
      (session (some "12".toList) fullLine).map Message.text =
        ["Login bob".toList, List.replicate 127 'x', "Disconnect".toList] :=
  ⟨_, requests_roundtrip (by decide +kernel) (arrives_flatten _) (Nat.le_refl _),
    by decide +kernel⟩

end AnimateServer.ClientRequests
