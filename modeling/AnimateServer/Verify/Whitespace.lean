import AnimateServer.Model.Fifo

/-!
# White-space normalisation

`sanitise_whitespace` works in place, with a read and a write index into one buffer. What it
computes is a function of the text: runs of white space between words become one space, and
at both ends they vanish. The write index never overtakes the read index.
-/

namespace AnimateServer.Whitespace

open CLib

/-- The normalised rest of a text, of which `started` says whether there are words in front of
it and `pending` whether white space has been read since the last of them. -/
def squeeze (pending started : Bool) : CStr → CStr
  | [] => []
  | c :: s =>
    if isspace c then squeeze true started s
    else (if pending && started then [' '] else []) ++ c :: squeeze false true s

/-- A text with its white space normalised. -/
def normalise (s : CStr) : CStr := squeeze false false s

/-- A text without white space. -/
def Word (w : CStr) : Prop := ∀ c ∈ w, isspace c = false

/-! ### The loop -/

/-- The write index is behind the read index, with room for a pending space. -/
structure Behind (s : Sanitise) : Prop where
  write_le : s.write ≤ s.read
  spaced : s.inWhitespace = true → s.write < s.read
  read_le : s.read ≤ s.str.length

/-- Writing behind what has been written makes it longer by one. -/
theorem take_set_succ {l : List Char} {i : Nat} (c : Char) (h : i < l.length) :
    (l.set i c).take (i + 1) = l.take i ++ [c] := by
  rw [List.take_add_one, List.take_set_of_le (Nat.le_refl i)]
  simp [h]

/-- The next character is there, and behind it the rest. -/
theorem drop_succ_of_drop_eq_cons {l : List Char} {i : Nat} {c : Char} {rest : List Char}
    (h : l.drop i = c :: rest) : i < l.length ∧ l.drop (i + 1) = rest := by
  constructor
  · by_contra hle
    rw [List.drop_eq_nil_of_le (Nat.le_of_not_lt hle)] at h
    simp at h
  · rw [← List.tail_drop, h, List.tail_cons]

/-- One turn reads the byte `c`, and leaves what is behind it alone. -/
structure Turn (s s' : Sanitise) (c : Char) (rest : CStr) : Prop where
  behind : Behind s'
  drop : s'.str.drop s'.read = rest
  take : s'.str.take s'.write ++ squeeze s'.inWhitespace (decide (0 < s'.write)) rest =
    s.str.take s.write ++ squeeze s.inWhitespace (decide (0 < s.write)) (c :: rest)

/-- A turn of the loop reads a character and writes one or none. -/
theorem turn_step {s : Sanitise} {c : Char} {rest : CStr} (h : Behind s)
    (hc : s.str.drop s.read = c :: rest) : Turn s (s.step c) c rest := by
  rcases drop_succ_of_drop_eq_cons hc with ⟨hlt, hrest⟩
  have hw : s.write < s.str.length := Nat.lt_of_le_of_lt h.write_le hlt
  cases hspace : isspace c with
  | true =>
    have heq : s.step c = { s with read := s.read + 1, inWhitespace := true } := by
      simp [Sanitise.step, hspace]
    rw [heq]
    constructor
    · exact ⟨Nat.le_succ_of_le h.write_le, fun _ => Nat.lt_succ_of_le h.write_le, hlt⟩
    · exact hrest
    · simp [squeeze, hspace]
  | false =>
    cases hspaced : s.inWhitespace && decide (0 < s.write) with
    | false =>
      have heq : s.step c = ⟨s.str.set s.write c, s.read + 1, s.write + 1, false⟩ := by
        simp only [Sanitise.step, hspace, hspaced]
        rfl
      rw [heq]
      constructor
      · exact ⟨Nat.succ_le_succ h.write_le, by simp, by simpa using Nat.succ_le_of_lt hlt⟩
      · show (s.str.set s.write c).drop (s.read + 1) = rest
        rw [List.drop_set_of_lt (Nat.lt_succ_of_le h.write_le), hrest]
      · show (s.str.set s.write c).take (s.write + 1) ++ _ = _
        rw [take_set_succ c hw]
        simp [squeeze, hspace, hspaced]
    | true =>
      -- the space goes into a cell that has been read
      rcases Bool.and_eq_true_iff.mp hspaced with ⟨hws, hpos⟩
      have hroom := h.spaced hws
      have heq : s.step c =
          ⟨(s.str.set s.write ' ').set (s.write + 1) c, s.read + 1, s.write + 2, false⟩ := by
        simp only [Sanitise.step, hspace, hspaced]
        rfl
      have hnext : s.write + 1 < (s.str.set s.write ' ').length := by
        simpa using Nat.lt_of_le_of_lt hroom hlt
      rw [heq]
      constructor
      · exact ⟨Nat.succ_le_succ hroom, by simp, by simpa using Nat.succ_le_of_lt hlt⟩
      · show ((s.str.set s.write ' ').set (s.write + 1) c).drop (s.read + 1) = rest
        rw [List.drop_set_of_lt (by omega), List.drop_set_of_lt (by omega), hrest]
      · show ((s.str.set s.write ' ').set (s.write + 1) c).take (s.write + 2) ++ _ = _
        rw [take_set_succ c hnext, take_set_succ ' ' hw]
        simp [squeeze, hspace, hws, of_decide_eq_true hpos]

/-- The loop writes what is left to read, squeezed. -/
theorem loop_spec {n : Nat} {s : Sanitise} (h : Behind s)
    (hn : (s.str.drop s.read).length ≤ n) :
    (Sanitise.loop n s).str.take (Sanitise.loop n s).write =
      s.str.take s.write ++
        squeeze s.inWhitespace (decide (0 < s.write)) (s.str.drop s.read) := by
  -- on the fuel, which covers what is left to read
  induction n generalizing s with
  | zero =>
    have hnil : s.str.drop s.read = [] := List.length_eq_zero_iff.mp (Nat.le_zero.mp hn)
    simp [Sanitise.loop, hnil, squeeze]
  | succ n ih =>
    cases hd : s.str.drop s.read with
    | nil =>
      have hnone : s.str[s.read]? = none := by
        rw [List.getElem?_eq_none_iff]
        exact List.drop_eq_nil_iff.mp hd
      simp [Sanitise.loop, hnone, squeeze]
    | cons c rest =>
      have hsome : s.str[s.read]? = some c := by
        rw [← List.head?_drop, hd]
        rfl
      have hturn := turn_step h hd
      rw [hd] at hn
      simp only [Sanitise.loop, hsome]
      rw [ih hturn.behind (by rw [hturn.drop]; exact Nat.le_of_succ_le_succ hn), hturn.drop]
      exact hturn.take

/-- `sanitise_whitespace` normalises the white space of its text. -/
theorem sanitiseWhitespace_eq_normalise (str : CStr) :
    sanitiseWhitespace str = normalise str := by
  have hinit : Behind ⟨str, 0, 0, false⟩ := ⟨Nat.le_refl 0, by simp, Nat.zero_le _⟩
  exact loop_spec hinit (Nat.le_refl _)

/-! ### Normalised texts -/

/-- Words are copied. -/
theorem squeeze_word {w : CStr} (hw : Word w) (started : Bool) (s : CStr) :
    squeeze false started (w ++ s) = w ++ squeeze false (started || w ≠ []) s := by
  induction w generalizing started with
  | nil => simp
  | cons c w ih =>
    have hc : isspace c = false := hw c List.mem_cons_self
    have hrest := ih (fun d hd => hw d (List.mem_cons_of_mem _ hd)) true
    simp only [List.cons_append, squeeze, hc, Bool.false_and, Bool.false_eq_true, if_false,
      List.nil_append, hrest]
    simp

/-- A single space between words stays. -/
theorem squeeze_space {w : CStr} (hw : Word w) (hne : w ≠ []) (s : CStr) :
    squeeze false true (' ' :: w ++ s) = ' ' :: w ++ squeeze false true s := by
  rcases List.exists_cons_of_ne_nil hne with ⟨c, w, rfl⟩
  have hc : isspace c = false := hw c List.mem_cons_self
  have hrest := squeeze_word (fun d hd => hw d (List.mem_cons_of_mem _ hd)) true s
  have hsp : isspace ' ' = true := rfl
  simp only [List.cons_append, squeeze, hsp, if_true, hc, Bool.true_and, Bool.false_eq_true,
    if_false]
  rw [hrest]
  simp

/-- What is normalised has no newline. -/
theorem newline_notMem_squeeze (pending started : Bool) (s : CStr) :
    '\n' ∉ squeeze pending started s := by
  induction s generalizing pending started with
  | nil => simp [squeeze]
  | cons c s ih =>
    unfold squeeze
    split
    · exact ih true started
    · rename_i hc
      have hne : '\n' ≠ c := by
        rintro rfl
        exact hc rfl
      -- what stands for a run of white space is a blank
      have hsp : '\n' ∉ (if pending && started then [' '] else []) := by
        split <;> simp
      simp only [List.mem_append, List.mem_cons, not_or]
      exact ⟨hsp, hne, ih false true⟩

/-- The only white space in it is the space. -/
theorem eq_space_of_mem_squeeze {pending started : Bool} {s : CStr} {c : Char}
    (hc : c ∈ squeeze pending started s) (hsp : isspace c = true) : c = ' ' := by
  induction s generalizing pending started with
  | nil => simp [squeeze] at hc
  | cons d s ih =>
    unfold squeeze at hc
    split at hc
    · exact ih hc
    · rename_i hd
      rcases List.mem_append.mp hc with hc | hc
      · split at hc
        · -- the blank that stands for a run
          exact List.mem_singleton.mp hc
        · simp at hc
      · rcases List.mem_cons.mp hc with rfl | hc
        · exact absurd hsp hd
        · exact ih hc

/-- White space at the end vanishes. -/
theorem squeeze_append_space (pending started : Bool) (s : CStr) {c : Char}
    (hc : isspace c = true) : squeeze pending started (s ++ [c]) = squeeze pending started s := by
  induction s generalizing pending started with
  | nil => simp [squeeze, hc]
  | cons d s ih =>
    simp only [List.cons_append, squeeze, ih]

/-- Squeezing does not make a text longer. -/
theorem length_squeeze_le (started : Bool) (s : CStr) :
    (squeeze false started s).length ≤ s.length ∧
      (squeeze true started s).length ≤ s.length + 1 := by
  induction s generalizing started with
  | nil => simp [squeeze]
  | cons c s ih =>
    -- a pending blank may add one letter, which the white space paid for
    have h₁ := ih started
    have h₂ := ih true
    unfold squeeze
    split
    · simp only [List.length_cons]
      omega
    · cases started <;>
        simp only [Bool.and_false, Bool.and_true, Bool.false_eq_true, if_false, if_true,
          List.nil_append, List.singleton_append, List.length_cons] <;>
        omega

/-- A sanitised text has no newline and is no longer than the input. -/
theorem sanitiseWhitespace_spec (str : CStr) :
    '\n' ∉ sanitiseWhitespace str ∧ (sanitiseWhitespace str).length ≤ str.length := by
  rw [sanitiseWhitespace_eq_normalise]
  exact ⟨newline_notMem_squeeze false false str, (length_squeeze_le false str).1⟩

/-! ### Words -/

/-- The maximal runs of bytes that are no white space, in order. -/
def words (s : CStr) : List CStr := (s.splitOnP isspace).filter (· ≠ [])

/-- Each word with a space in front of it. -/
def spaced (ws : List CStr) : CStr := ws.flatMap (' ' :: ·)

/-- Between two white spaces stands a word. -/
theorem word_of_mem_splitOnP {s w : CStr} (h : w ∈ s.splitOnP isspace) : Word w := by
  induction s generalizing w with
  | nil =>
    rw [List.splitOnP_nil, List.mem_singleton] at h
    subst h
    intro c hc
    simp at hc
  | cons c s ih =>
    rw [List.splitOnP_cons_eq_if_modifyHead] at h
    rcases List.exists_cons_of_ne_nil (List.splitOnP_ne_nil isspace s) with ⟨v, vs, hvs⟩
    rw [hvs] at h ih
    split at h
    · rcases List.mem_cons.mp h with rfl | h
      · intro c hc
        simp at hc
      · exact ih h
    · rename_i hc
      rw [List.modifyHead_cons] at h
      rcases List.mem_cons.mp h with rfl | h
      · -- the first run has got one more byte
        intro d hd
        rcases List.mem_cons.mp hd with rfl | hd
        · exact Bool.eq_false_iff.mpr hc
        · exact ih List.mem_cons_self d hd
      · exact ih (List.mem_cons_of_mem v h)

/-- The words of a text are words. -/
theorem mem_words {s w : CStr} (h : w ∈ words s) : Word w ∧ w ≠ [] := by
  rcases List.mem_filter.mp h with ⟨hmem, hne⟩
  exact ⟨word_of_mem_splitOnP hmem, of_decide_eq_true hne⟩

/-- White space in front belongs to no word. -/
theorem words_space {c : Char} (hc : isspace c = true) (s : CStr) :
    words (c :: s) = words s := by
  simp [words, List.splitOnP_cons_eq_if_modifyHead, hc]

/-- A word is its only word. -/
theorem words_word {w : CStr} (hw : Word w) (hne : w ≠ []) : words w = [w] := by
  simp [words, List.splitOnP_eq_singleton hw, hne]

/-- White space ends a word. -/
theorem words_append {w : CStr} (hw : Word w) (hne : w ≠ []) {c : Char}
    (hc : isspace c = true) (s : CStr) : words (w ++ c :: s) = w :: words s := by
  simp [words, List.splitOnP_append_cons_of_forall_mem hw c hc, hne]

/-- A word goes on up to the next white space. -/
theorem words_cons {c : Char} (hc : isspace c = false) (s : CStr) :
    words (c :: s) =
      (c :: s.takeWhile (!isspace ·)) :: words (s.dropWhile (!isspace ·)) := by
  have hword : Word (c :: s.takeWhile (!isspace ·)) := by
    intro d hd
    rcases List.mem_cons.mp hd with rfl | hd
    · exact hc
    · have hall := List.all_eq_true.mp (List.all_takeWhile (p := (!isspace ·)) (l := s)) d hd
      simpa using hall
  -- the first word is what stands before the next white space
  have hsplit : c :: s = (c :: s.takeWhile (!isspace ·)) ++ s.dropWhile (!isspace ·) := by
    rw [List.cons_append, List.takeWhile_append_dropWhile]
  rw [hsplit]
  cases hd : s.dropWhile (!isspace ·) with
  | nil =>
    rw [List.append_nil, words_word hword (List.cons_ne_nil _ _)]
    rfl
  | cons d rest =>
    have hspace : isspace d = true := by
      have hnot := List.head_dropWhile_not (!isspace ·) (l := s) (by simp [hd])
      simpa [hd] using hnot
    rw [words_append hword (List.cons_ne_nil _ _) hspace, words_space hspace]

/-- The words of a text with a space between any two of them. -/
theorem intercalate_cons (w : CStr) (ws : List CStr) :
    [' '].intercalate (w :: ws) = w ++ spaced ws := by
  induction ws generalizing w with
  | nil => simp [spaced]
  | cons v ws ih =>
    rw [List.intercalate_cons_cons, ih]
    simp [spaced]

/-- The normalised rest of a text, by its words: after a space, at the start, inside a word. -/
theorem squeeze_eq (s : CStr) :
    squeeze true true s = spaced (words s) ∧
      (∀ pending, squeeze pending false s = [' '].intercalate (words s)) ∧
        squeeze false true s =
          s.takeWhile (!isspace ·) ++ spaced (words (s.dropWhile (!isspace ·))) := by
  induction s with
  | nil => simp [squeeze, spaced, words]
  | cons c s ih =>
    rcases ih with ⟨hafter, hstart, hinside⟩
    cases hc : isspace c with
    | true => simp [squeeze, hc, hafter, hstart, words_space hc]
    | false =>
      rw [words_cons hc, intercalate_cons]
      simp [squeeze, hc, hinside, spaced]

/-- The normal form joins the words of the text. -/
theorem normalise_eq_words (s : CStr) : normalise s = [' '].intercalate (words s) :=
  (squeeze_eq s).2.1 false

/-- The words of a normalised text are those it is made of. -/
theorem words_intercalate {ws : List CStr} (h : ∀ w ∈ ws, Word w ∧ w ≠ []) :
    words ([' '].intercalate ws) = ws := by
  induction ws with
  | nil => rfl
  | cons w ws ih =>
    rcases h w List.mem_cons_self with ⟨hword, hne⟩
    cases ws with
    | nil => rw [List.intercalate_singleton, words_word hword hne]
    | cons v ws =>
      have hrest := ih (fun u hu => h u (List.mem_cons_of_mem w hu))
      have hsp : isspace ' ' = true := rfl
      rw [List.intercalate_cons_cons, List.append_assoc, List.singleton_append,
        words_append hword hne hsp, hrest]

/-- It is its own normal form. -/
theorem normalise_normalise (s : CStr) : normalise (normalise s) = normalise s := by
  rw [normalise_eq_words (normalise s), normalise_eq_words s,
    words_intercalate (fun _ hw => mem_words hw)]

/-- A normalised text neither starts nor ends with white space. -/
theorem ends_intercalate {ws : List CStr} (h : ∀ w ∈ ws, Word w ∧ w ≠ []) :
    (∀ c ∈ ([' '].intercalate ws).head?, isspace c = false) ∧
      ∀ c ∈ ([' '].intercalate ws).getLast?, isspace c = false := by
  constructor
  · intro c hc
    cases ws with
    | nil => simp at hc
    | cons w ws =>
      rcases h w List.mem_cons_self with ⟨hword, hne⟩
      rcases List.exists_cons_of_ne_nil hne with ⟨d, w, rfl⟩
      rw [intercalate_cons, List.cons_append, List.head?_cons, Option.mem_some_iff] at hc
      rw [← hc]
      exact hword d List.mem_cons_self
  · induction ws with
    | nil => simp
    | cons w ws ih =>
      intro c hc
      rcases h w List.mem_cons_self with ⟨hword, hne⟩
      cases ws with
      | nil =>
        rw [List.intercalate_singleton] at hc
        exact hword c (List.mem_of_getLast? hc)
      | cons v ws =>
        -- the last word is in what follows
        have hne' : [' '].intercalate (v :: ws) ≠ [] := by
          rw [intercalate_cons]
          exact List.append_ne_nil_of_left_ne_nil (h v (by simp)).2 _
        rw [List.intercalate_cons_cons, List.getLast?_append, List.getLast?_eq_some_getLast hne',
          Option.some_or, ← List.getLast?_eq_some_getLast hne'] at hc
        exact ih (fun u hu => h u (List.mem_cons_of_mem w hu)) c hc

/-! ### The buffer -/

/-- What every state of the loop keeps, where `str` is the text it started with. -/
structure Unread (str : CStr) (s : Sanitise) : Prop where
  behind : Behind s
  rest : s.str.drop s.read = str.drop s.read
  length : s.str.length = str.length

/-- What has not been read has not been overwritten. -/
theorem unread_step {str : CStr} {s : Sanitise} {c : Char} (h : Unread str s)
    (hc : s.str[s.read]? = some c) : Unread str (s.step c) := by
  have hd : s.str.drop s.read = c :: s.str.drop (s.read + 1) := by
    rcases List.getElem?_eq_some_iff.mp hc with ⟨hlt, hget⟩
    rw [List.drop_eq_getElem_cons hlt, hget]
  have hturn := turn_step h.behind hd
  have hread : (s.step c).read = s.read + 1 := by
    unfold Sanitise.step
    split <;> rfl
  -- the write is within the part that was read, so the length stays
  have hlen : (s.step c).str.length = s.str.length := by
    unfold Sanitise.step
    split
    · rfl
    · dsimp only
      split <;> simp
  constructor
  · exact hturn.behind
  · rw [hturn.drop, hread, ← List.drop_drop, h.rest, List.drop_drop]
  · rw [hlen, h.length]

/-- After any number of turns, and at the end the whole text has been read. -/
theorem unread_loop {str : CStr} (n : Nat) {s : Sanitise} (h : Unread str s) :
    Unread str (Sanitise.loop n s) ∧
      (str.length ≤ s.read + n → (Sanitise.loop n s).read = str.length) := by
  induction n generalizing s with
  | zero =>
    refine ⟨h, fun hn => Nat.le_antisymm ?_ hn⟩
    show s.read ≤ str.length
    rw [← h.length]
    exact h.behind.read_le
  | succ n ih =>
    cases hc : s.str[s.read]? with
    | none =>
      have hend := List.getElem?_eq_none_iff.mp hc
      rw [h.length] at hend
      have hle := h.behind.read_le
      rw [h.length] at hle
      simp only [Sanitise.loop, hc]
      exact ⟨h, fun _ => Nat.le_antisymm hle hend⟩
    | some c =>
      rcases ih (unread_step h hc) with ⟨hrun, hdone⟩
      -- each turn reads one letter, so n turns suffice
      have hread : (s.step c).read = s.read + 1 := by
        unfold Sanitise.step
        split <;> rfl
      simp only [Sanitise.loop, hc]
      exact ⟨hrun, fun hn => hdone (by rw [hread]; omega)⟩

/-- `sanitise_whitespace` leaves the words of its text in order with single spaces between
them, a second call changes nothing, and no byte is overwritten before it is read. -/
theorem sanitiseWhitespace_words (str : CStr) :
    sanitiseWhitespace str = [' '].intercalate (words str) ∧
      ((∀ c ∈ (sanitiseWhitespace str).head?, isspace c = false) ∧
        ∀ c ∈ (sanitiseWhitespace str).getLast?, isspace c = false) ∧
      sanitiseWhitespace (sanitiseWhitespace str) = sanitiseWhitespace str ∧
      (∀ n, let s := Sanitise.loop n ⟨str, 0, 0, false⟩
        s.write ≤ s.read ∧ s.read ≤ str.length ∧ s.str.drop s.read = str.drop s.read) ∧
      (Sanitise.loop str.length ⟨str, 0, 0, false⟩).read = str.length := by
  -- before the first turn nothing is read or written
  have hinit : Unread str ⟨str, 0, 0, false⟩ :=
    ⟨⟨Nat.le_refl 0, by simp, Nat.zero_le _⟩, rfl, rfl⟩
  have hwords : sanitiseWhitespace str = [' '].intercalate (words str) := by
    rw [sanitiseWhitespace_eq_normalise, normalise_eq_words]
  refine ⟨hwords, ?_, ?_, ?_, ?_⟩
  · rw [hwords]
    exact ends_intercalate (fun _ hw => mem_words hw)
  · simp only [sanitiseWhitespace_eq_normalise, normalise_normalise]
  · intro n
    rcases unread_loop n hinit with ⟨hrun, -⟩
    have hle := hrun.behind.read_le
    rw [hrun.length] at hle
    exact ⟨hrun.behind.write_le, hle, hrun.rest⟩
  · exact (unread_loop str.length hinit).2 (by simp)

end AnimateServer.Whitespace
