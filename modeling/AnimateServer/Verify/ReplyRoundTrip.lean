import AnimateServer.Model.MainLoop
import AnimateServer.Model.Receiver
import AnimateServer.Verify.Framing
import AnimateServer.Verify.Whitespace

/-!
# From the server's results to the client's fields

The server leaves out the fields of a result that hold `INT_MIN`, from the end on, and the
client finds out how many there are by reading as many as it can. A reply is one line of
numbers with single spaces between them, which `sanitise_whitespace` does not change and which
fits into the client's buffer, so both sides agree.
-/

namespace AnimateServer.ReplyRoundTrip

open CLib Client Server Framing Whitespace

/-! ### One reply -/

/-- The fields of a result that are sent. -/
def sentFields (rv : RetVal) : List Int :=
  if rv.c ≠ INT_MIN then [rv.a, rv.b, rv.c]
  else if rv.b ≠ INT_MIN then [rv.a, rv.b]
  else [rv.a]

/-- Numbers, each behind a space. -/
def spaced (vs : List Int) : CStr := (vs.map fun v => ' ' :: decimal v).flatten

/-- The text of a reply, without its newline. -/
def replyBody : List Int → CStr
  | [] => []
  | v :: vs => decimal v ++ spaced vs

/-- A value of the type `int`. -/
def IsInt (v : Int) : Prop := INT_MIN ≤ v ∧ v ≤ INT_MAX

/-- The three values of a result are of the type `int`. -/
structure IntRetVal (rv : RetVal) : Prop where
  a : IsInt rv.a
  b : IsInt rv.b
  c : IsInt rv.c

@[simp] theorem spaced_nil : spaced [] = [] := rfl

theorem spaced_cons (v : Int) (vs : List Int) :
    spaced (v :: vs) = ' ' :: decimal v ++ spaced vs := rfl

/-- A reply is the fields that are sent, with a space between them. -/
theorem replyLine_eq (rv : RetVal) : replyLine rv = replyBody (sentFields rv) ++ ['\n'] := by
  unfold replyLine sentFields
  split
  · simp [replyBody, spaced_cons]
  · split <;> simp [replyBody, spaced_cons]

/-- One to three values are sent. -/
theorem sentFields_cases (rv : RetVal) :
    ∃ vs, sentFields rv = rv.a :: vs ∧ vs.length ≤ 2 ∧ ∀ v ∈ vs, v = rv.b ∨ v = rv.c := by
  unfold sentFields
  split
  · exact ⟨[rv.b, rv.c], rfl, Nat.le_refl 2, by simp⟩
  · split
    · exact ⟨[rv.b], rfl, Nat.le_succ 1, by simp⟩
    · exact ⟨[], rfl, Nat.zero_le 2, by simp⟩

/-! ### The text is normalised -/

/-- A printed number has no white space in it. -/
theorem word_decimal (v : Int) : Word (decimal v) := by
  have hdigits : ∀ c ∈ Nat.toDigits 10 v.natAbs, isspace c = false := fun c hc =>
    not_isspace_of_isDigit (isDigit_of_mem_toDigits hc)
  intro c hc
  unfold decimal at hc
  split at hc
  · rcases List.mem_cons.mp hc with rfl | hc
    · rfl
    · exact hdigits c hc
  · exact hdigits c hc

/-- A printed number is not empty. -/
theorem decimal_ne_nil (v : Int) : decimal v ≠ [] := by
  unfold decimal
  split
  · simp
  · exact Nat.toDigits_ne_nil

/-- The spaces between the fields are single ones already. -/
theorem squeeze_spaced (vs : List Int) : squeeze false true (spaced vs) = spaced vs := by
  induction vs with
  | nil => rfl
  | cons v vs ih =>
    rw [spaced_cons, squeeze_space (word_decimal v) (decimal_ne_nil v), ih]

/-- The client's sanitising changes nothing in a reply. -/
theorem sanitiseWhitespace_replyBody (vs : List Int) :
    sanitiseWhitespace (replyBody vs) = replyBody vs := by
  rw [sanitiseWhitespace_eq_normalise, normalise]
  cases vs with
  | nil => rfl
  | cons v vs =>
    have hne : (false || decide (decimal v ≠ [])) = true := by simp [decimal_ne_nil]
    rw [replyBody, squeeze_word (word_decimal v), hne, squeeze_spaced]

/-- A text that normalising does not change has no newline. -/
theorem newline_notMem_replyBody (vs : List Int) : '\n' ∉ replyBody vs := by
  rw [← sanitiseWhitespace_replyBody]
  exact (sanitiseWhitespace_spec _).1

/-- Each field takes twelve bytes at most. -/
theorem length_spaced_le {vs : List Int} (h : ∀ v ∈ vs, IsInt v) :
    (spaced vs).length ≤ 12 * vs.length := by
  induction vs with
  | nil => exact Nat.zero_le _
  | cons v vs ih =>
    have hv := h v List.mem_cons_self
    have hlen := length_decimal_le hv.1 hv.2
    have hrest := ih fun w hw => h w (List.mem_cons_of_mem _ hw)
    rw [spaced_cons]
    simp only [List.cons_append, List.length_cons, List.length_append]
    omega

/-! ### The fields are read back -/

/-- A number ends where the next space is. -/
theorem noDigit_spaced (vs : List Int) : NoDigit (spaced vs) := by
  cases vs with
  | nil => simp [NoDigit]
  | cons v vs => simp [NoDigit, spaced_cons]

/-- Reading as many numbers as there are, or fewer than are asked for. -/
theorem scanInts_spaced {n : Nat} {vs : List Int} (h : ∀ v ∈ vs, IsInt v) (hn : vs.length ≤ n) :
    scanInts n (spaced vs) = vs := by
  induction vs generalizing n with
  | nil => cases n <;> rfl
  | cons v vs ih =>
    obtain ⟨n, rfl⟩ : ∃ n', n = n' + 1 := ⟨n - 1, by simp only [List.length_cons] at hn; omega⟩
    have hv := h v List.mem_cons_self
    have hscan : scanInt (spaced (v :: vs)) = some (v, spaced vs) := by
      rw [spaced_cons]
      show scanInt (decimal v ++ spaced vs) = _
      exact scanInt_decimal hv.1 hv.2 (noDigit_spaced vs)
    have hrest := ih (fun w hw => h w (List.mem_cons_of_mem _ hw)) (Nat.le_of_succ_le_succ hn)
    simp only [scanInts, hscan, hrest]

/-- The numbers are read back in order. -/
theorem scanInts_replyBody {n : Nat} {vs : List Int} (h : ∀ v ∈ vs, IsInt v)
    (hn : vs.length ≤ n) : scanInts n (replyBody vs) = vs := by
  cases vs with
  | nil => cases n <;> rfl
  | cons v vs =>
    -- the space in front of a number does not matter
    have hspace : scanInts n (replyBody (v :: vs)) = scanInts n (spaced (v :: vs)) := by
      cases n <;> rfl
    rw [hspace, scanInts_spaced h hn]

/-! ### The stream -/

/-- A line that fits into the buffer is read by one call, and the call leaves the rest of the
stream alone. -/
theorem readUntilDelim_delivers {buf text tail : CStr} {es : List ReadRes}
    (hes : Delivers (text ++ '\n' :: tail) es) (hnl : '\n' ∉ text)
    (hlen : (buf ++ text).length < MAX_RPC_BUF_LEN - 1) :
    ∃ es', readUntilDelim MAX_RPC_BUF_LEN '\n' buf es = some (.SUCCESS, buf ++ text, es') ∧
      Delivers tail es' := by
  generalize hbs : text ++ '\n' :: tail = bs at hes
  -- on how the bytes are delivered; an interrupted `read` delivers none
  induction hes generalizing buf text with
  | nil => simp at hbs
  | @byte bs es c hes ih =>
    have hroom : buf.length < MAX_RPC_BUF_LEN - 1 := by
      rw [List.length_append] at hlen
      omega
    cases text with
    | nil =>
      rcases List.cons.inj hbs with ⟨rfl, rfl⟩
      exact ⟨es, by simp [readUntilDelim, hroom], hes⟩
    | cons d text =>
      rcases List.cons.inj hbs with ⟨rfl, htext⟩
      rcases not_or.mp (mt List.mem_cons.mpr hnl) with ⟨hd, hnl'⟩
      rcases @ih (buf ++ [d]) text hnl' (by simpa using hlen) htext with ⟨es', hread, htail⟩
      refine ⟨es', ?_, htail⟩
      simp [readUntilDelim, hroom, Ne.symm hd, hread]
  | @interrupted bs es hes ih =>
    have hroom : buf.length < MAX_RPC_BUF_LEN - 1 := by
      rw [List.length_append] at hlen
      omega
    rcases ih hnl hlen hbs with ⟨es', hread, htail⟩
    exact ⟨es', by simp [readUntilDelim, hroom, hread], htail⟩

/-- One reply. -/
theorem recvServerReply_replyLine {rv : RetVal} (hrv : IntRetVal rv) {tail : CStr}
    {es : List ReadRes} (hes : Delivers (replyLine rv ++ tail) es) :
    ∃ es', recvServerReply es =
        some ⟨true, some (sentFields rv), replyText (sentFields rv), es'⟩ ∧ Delivers tail es' := by
  rcases sentFields_cases rv with ⟨vs, hsent, hle, hvs⟩
  have hints : ∀ v ∈ sentFields rv, IsInt v := by
    rw [hsent]
    intro v hv
    rcases List.mem_cons.mp hv with rfl | hv
    · exact hrv.a
    · rcases hvs v hv with rfl | rfl
      · exact hrv.b
      · exact hrv.c
  -- three ints and their separators fit into the buffer
  have hlen : ([] ++ replyBody (sentFields rv)).length < MAX_RPC_BUF_LEN - 1 := by
    have hhead := length_decimal_le hrv.a.1 hrv.a.2
    have htail := length_spaced_le
      fun v hv => hints v (by rw [hsent]; exact List.mem_cons_of_mem _ hv)
    rw [hsent]
    simp only [replyBody, List.nil_append, List.length_append, MAX_RPC_BUF_LEN]
    omega
  have hn : (sentFields rv).length ≤ 3 := by
    rw [hsent]
    exact Nat.succ_le_succ hle
  rw [replyLine_eq, List.append_assoc] at hes
  rcases readUntilDelim_delivers hes (newline_notMem_replyBody _) hlen with ⟨es', hread, hrest⟩
  refine ⟨es', ?_, hrest⟩
  rw [List.nil_append] at hread
  simp only [recvServerReply, hread, sanitiseWhitespace_replyBody, scanInts_replyBody hints hn]

/-! ### The round trip -/

/-- However the replies arrive, the client finds the fields of each of them, in order, in one
call for each, and is then at the end of the last one. -/
theorem replies_roundtrip {rvs : List RetVal} (hrvs : ∀ rv ∈ rvs, IntRetVal rv) (tail : CStr)
    {es : List ReadRes} (hes : Delivers ((rvs.map replyLine).flatten ++ tail) es) :
    ∃ es', recvReplies rvs.length es =
        some (rvs.map sentFields, ((rvs.map sentFields).map replyText).flatten, es') ∧
      Delivers tail es' := by
  induction rvs generalizing es with
  | nil => exact ⟨es, rfl, hes⟩
  | cons rv rvs ih =>
    rw [List.map_cons, List.flatten_cons, List.append_assoc] at hes
    rcases recvServerReply_replyLine (hrvs rv List.mem_cons_self) hes with ⟨es₁, hfirst, hes₁⟩
    rcases ih (fun rv' h => hrvs rv' (List.mem_cons_of_mem _ h)) hes₁ with ⟨es', hrest, htail⟩
    refine ⟨es', ?_, htail⟩
    simp [recvReplies, hfirst, hrest]

/-- Results of one, two and three fields; in the last one `INT_MIN` is an inner field. -/
def sampleResults : List RetVal :=
  [⟨-1, INT_MIN, INT_MIN⟩, ⟨0, 12, INT_MIN⟩, ⟨0, INT_MIN, INT_MAX⟩]

theorem replies_roundtrip_sampleResults :
    ∃ es', recvReplies 3 (.errno .EINTR ::
          "-1\n0 12\n0 -2147483648 2147483647\n7\n".toList.map .byte) =
        some ([[-1], [0, 12], [0, INT_MIN, INT_MAX]],
          "RPC Failed\nSuccess 12\n0 -2147483648 2147483647\n".toList, es') ∧
      Delivers "7\n".toList es' := by
  have hrvs : ∀ rv ∈ sampleResults, IntRetVal rv := by
    intro rv hrv
    simp only [sampleResults, List.mem_cons, List.not_mem_nil, or_false] at hrv
    rcases hrv with rfl | rfl | rfl <;>
    · constructor <;> unfold IsInt <;> decide
  exact replies_roundtrip hrvs "7\n".toList (.interrupted (delivers_map_byte _))

end AnimateServer.ReplyRoundTrip
