import AnimateServer.Model.Auth
import AnimateServer.Verify.Whitespace

/-!
# The login lookup against its specification

The specification looks at whole lines. `usertxt_get_balance` looks at what `fgets` puts into
a buffer of `MAX_UTXT_LINEBUF_LEN` bytes, so a longer line comes in pieces, and a piece from
the middle of a line reads like a line of its own. The two agree as long as no line is cut in
a way that matters.
-/

namespace AnimateServer.LoginLookup

open CLib Whitespace

/-! ### The specification -/

/-- The balance that a normalised line holds for a user: the line is the name, one space and a
text that `strtol` can convert. -/
def entry (username line : CStr) : Option Int :=
  if username ++ [' '] <+: line then
    let balance := line.drop (username.length + 1)
    (splitNumber balance).map fun _ => (strtol balance).1
  else none

/-- The balance in the first line that is an entry of the user. -/
def lookup (username usertxt : CStr) : Option Int :=
  (usertxt.splitOn '\n').findSome? fun line => entry username (normalise line)

/-- What a balance means for the login. -/
def verdict : Option Int → AuthResult × Int
  | some bal => (if 0 < bal then .AUTH_OK else .AUTH_NO, bal)
  | none => (.AUTH_UN, 0)

/-- What the specification gives for a file. -/
def reference (username usertxt : CStr) : AuthResult × Int := verdict (lookup username usertxt)

/-! ### When a cut does not matter -/

/-- The bytes that `fgets` takes at most. -/
def pieceLen : Nat := MAX_UTXT_LINEBUF_LEN - 1

/-- The `i`-th piece of a line, read as a line. -/
def pieceEntry (username line : CStr) (i : Nat) : Option Int :=
  entry username (normalise ((line.drop (pieceLen * i)).take pieceLen))

/-- Cutting the line does not matter for the user: the first piece gives what the whole line
gives, and if that is nothing, no later piece reads like an entry of the user. -/
structure Uncut (username line : CStr) : Prop where
  first : pieceEntry username line 0 = entry username (normalise line)
  later : entry username (normalise line) = none → ∀ i > 0, pieceEntry username line i = none

/-- Cutting does not matter in the lines up to the first entry of the user. -/
def UncutLines (username : CStr) : List CStr → Prop
  | [] => True
  | line :: lines =>
    Uncut username line ∧ (entry username (normalise line) = none → UncutLines username lines)

/-! ### One chunk -/

/-- What the loop does with a chunk, if it has only spaces for white space. -/
theorem balanceOf_eq_entry {username line : CStr} (h : ∀ c ∈ line, isspace c = true → c = ' ') :
    balanceOf username line = entry username line := by
  unfold balanceOf entry
  by_cases hp : username ++ [' '] <+: line
  · rcases hp with ⟨t, rfl⟩
    have hcmp : strncmpEq username (username ++ [' '] ++ t) username.length = true := by
      simp [strncmpEq]
    have hsp : (username ++ [' '] ++ t)[username.length]? = some ' ' := by simp
    have hdrop : (username ++ [' '] ++ t).drop username.length = ' ' :: t := by simp
    have hdrop' : (username ++ [' '] ++ t).drop (username.length + 1) = t := by simp
    have hval : (strtol (' ' :: t)).1 = (strtol t).1 := by
      unfold strtol
      rw [splitNumber_space]
      cases splitNumber t <;> rfl
    have hisp : isspace ' ' = true := rfl
    rw [if_pos (List.prefix_append _ t)]
    simp only [hcmp, hsp, hdrop, hdrop', hisp, Bool.not_true, Bool.false_eq_true, if_false]
    have hend := strtol_end_eq_self (' ' :: t)
    rw [splitNumber_space] at hend
    cases hs : splitNumber t with
    | none =>
      rw [if_pos (hend.mpr hs)]
      rfl
    | some r =>
      have hsome : (strtol (' ' :: t)).2 ≠ ' ' :: t := by
        intro he
        rw [hend.mp he] at hs
        simp at hs
      rw [if_neg hsome, hval]
      rfl
  · rw [if_neg hp]
    split
    · rfl
    · rename_i hcmp
      split
      · rfl
      · rename_i c hc
        split
        · rfl
        · rename_i hsp
          -- the byte behind the name could only be a space
          refine absurd ?_ hp
          have hc' : c = ' ' := h c (List.mem_of_getElem? hc) (by simpa using hsp)
          have hname : username = line.take username.length := by
            simpa [strncmpEq] using hcmp
          have htake := List.take_append_drop (username.length + 1) line
          rw [List.take_add_one, hc, ← hname, hc'] at htake
          exact ⟨_, htake⟩
/-- A chunk is looked at like a normalised line. -/
theorem balanceOf_sanitise (username buffer : CStr) :
    balanceOf username (sanitiseWhitespace buffer) = entry username (normalise buffer) := by
  rw [sanitiseWhitespace_eq_normalise]
  exact balanceOf_eq_entry fun c hc => eq_space_of_mem_squeeze hc

/-- No user has an entry in an empty line. -/
theorem entry_nil (username : CStr) : entry username (normalise []) = none := by
  unfold entry
  rw [if_neg]
  intro hp
  have hlen := hp.length_le
  simp [normalise, squeeze] at hlen

/-- The newline of a line does not matter. -/
theorem normalise_newline (line : CStr) : normalise (line ++ ['\n']) = normalise line :=
  squeeze_append_space false false line rfl

/-! ### Chunks of the file -/

/-- `fgets` with room for a whole line. -/
theorem takeLine_line {n : Nat} {line : CStr} (rest : CStr) (hnl : '\n' ∉ line)
    (hn : line.length < n) : takeLine n (line ++ '\n' :: rest) = (line ++ ['\n'], rest) := by
  induction line generalizing n with
  | nil =>
    obtain ⟨n, rfl⟩ : ∃ n', n = n' + 1 := ⟨n - 1, by simp only [List.length_nil] at hn; omega⟩
    simp [takeLine]
  | cons c line ih =>
    obtain ⟨n, rfl⟩ : ∃ n', n = n' + 1 := ⟨n - 1, by omega⟩
    rcases not_or.mp (mt List.mem_cons.mpr hnl) with ⟨hc, hnl'⟩
    have hrest := ih hnl' (Nat.lt_of_succ_lt_succ hn)
    simp [takeLine, Ne.symm hc, hrest]

/-- `fgets` with no room for a whole line, or at the end of the file. -/
theorem takeLine_piece {n : Nat} {line : CStr} (tail : CStr) (hnl : '\n' ∉ line)
    (hn : n ≤ line.length ∨ tail = []) :
    takeLine n (line ++ tail) = (line.take n, line.drop n ++ tail) := by
  induction line generalizing n with
  | nil =>
    rcases hn with hn | rfl
    · obtain rfl := Nat.le_zero.mp hn
      simp [takeLine]
    · cases n <;> simp [takeLine]
  | cons c line ih =>
    rcases not_or.mp (mt List.mem_cons.mpr hnl) with ⟨hc, hnl'⟩
    cases n with
    | zero => simp [takeLine]
    | succ n =>
      -- one letter less of the line, one less to take
      have hn' : n ≤ line.length ∨ tail = [] := hn.imp_left Nat.le_of_succ_le_succ
      simp [takeLine, Ne.symm hc, ih hnl' hn']

/-- What follows a line in the file. -/
def LineEnd (tail : CStr) : Prop := tail = [] ∨ ∃ rest, tail = '\n' :: rest

/-- The chunk at the start of a line is the line's first piece. -/
theorem normalise_takeLine {line tail : CStr} (hnl : '\n' ∉ line) (htail : LineEnd tail) :
    normalise (takeLine pieceLen (line ++ tail)).1 = normalise (line.take pieceLen) := by
  by_cases hlen : pieceLen ≤ line.length
  · rw [takeLine_piece tail hnl (Or.inl hlen)]
  · rcases htail with rfl | ⟨rest, rfl⟩
    · rw [takeLine_piece [] hnl (Or.inr rfl)]
    · have hlt := Nat.lt_of_not_le hlen
      rw [takeLine_line rest hnl hlt, normalise_newline, List.take_of_length_le hlt.le]

/-- One turn of the loop, at the start of a line. -/
theorem findBalance_line {u line tail : CStr} (n : Nat) (hnl : '\n' ∉ line)
    (htail : LineEnd tail) :
    findBalance u (n + 1) (line ++ tail) =
      match pieceEntry u line 0 with
      | some bal => some bal
      | none => findBalance u n (takeLine pieceLen (line ++ tail)).2 := by
  have hpiece : pieceEntry u line 0 = entry u (normalise (line.take pieceLen)) := rfl
  rw [findBalance, fgets]
  by_cases hne : line ++ tail = []
  · -- the end of the file
    rcases List.append_eq_nil_iff.mp hne with ⟨rfl, rfl⟩
    rw [hpiece, List.take_nil, entry_nil]
    cases n <;> rfl
  · rw [if_neg hne, hpiece, ← normalise_takeLine hnl htail]
    simp only [balanceOf_sanitise]
    rfl

/-- The pieces of the rest of a line are its later pieces. -/
theorem pieceEntry_drop (username line : CStr) (i : Nat) :
    pieceEntry username (line.drop pieceLen) i = pieceEntry username line (i + 1) := by
  unfold pieceEntry
  rw [List.drop_drop, Nat.mul_succ, Nat.add_comm]

/-! ### Lines -/

/-- A line without an entry in its pieces is read and left. -/
theorem findBalance_skip {username line : CStr} {n : Nat} {rest : CStr} (hnl : '\n' ∉ line)
    (hnone : ∀ i, pieceEntry username line i = none)
    (hn : (line ++ '\n' :: rest).length ≤ n) :
    ∃ m, rest.length ≤ m ∧
      findBalance username n (line ++ '\n' :: rest) = findBalance username m rest := by
  induction n generalizing line with
  | zero => simp at hn
  | succ n ih =>
    rw [findBalance_line n hnl (Or.inr ⟨rest, rfl⟩), hnone 0]
    simp only [List.length_append, List.length_cons] at hn
    rcases Nat.lt_or_ge line.length pieceLen with hlt | hge
    · rw [takeLine_line rest hnl hlt]
      exact ⟨n, by omega, rfl⟩
    · -- the rest of the line is still there
      rw [takeLine_piece _ hnl (Or.inl hge)]
      have hdrop : (line.drop pieceLen).length + 63 = line.length := by
        rw [List.length_drop]
        exact Nat.sub_add_cancel hge
      refine ih (fun hm => hnl (List.mem_of_mem_drop hm)) (fun i => ?_) ?_
      · rw [pieceEntry_drop]
        exact hnone (i + 1)
      · simp only [List.length_append, List.length_cons]
        omega

/-- The last line. -/
theorem findBalance_last {username line : CStr} (n : Nat) (hnl : '\n' ∉ line)
    (hnone : ∀ i, pieceEntry username line i = none) : findBalance username n line = none := by
  induction n generalizing line with
  | zero => rfl
  | succ n ih =>
    have hturn := findBalance_line (u := username) n hnl (Or.inl rfl : LineEnd [])
    rw [List.append_nil, hnone 0] at hturn
    rw [hturn]
    have hchunk := takeLine_piece (n := pieceLen) [] hnl (Or.inr rfl)
    rw [List.append_nil] at hchunk
    rw [hchunk, List.append_nil]
    refine ih (fun hm => hnl (List.mem_of_mem_drop hm)) fun i => ?_
    rw [pieceEntry_drop]
    exact hnone (i + 1)

/-- Beyond the end of a line its pieces are empty. -/
theorem pieceEntry_of_length_le {username line : CStr} {i : Nat}
    (h : line.length ≤ pieceLen * i) : pieceEntry username line i = none := by
  unfold pieceEntry
  rw [List.drop_eq_nil_of_le h, List.take_nil]
  exact entry_nil username

/-- If the loop finds nothing, it has found nothing in the pieces of the first line. -/
theorem pieces_of_findBalance {username line tail : CStr} {n : Nat} (hnl : '\n' ∉ line)
    (htail : LineEnd tail) (hn : line.length ≤ n)
    (h : findBalance username n (line ++ tail) = none) (i : Nat) :
    pieceEntry username line i = none := by
  induction i generalizing line n with
  | zero =>
    cases n with
    | zero => exact pieceEntry_of_length_le hn
    | succ n =>
      rw [findBalance_line n hnl htail] at h
      cases hp : pieceEntry username line 0 with
      | none => rfl
      | some bal => simp [hp] at h
  | succ i ih =>
    rcases Nat.lt_or_ge line.length pieceLen with hlt | hge
    · exact pieceEntry_of_length_le
        (hlt.le.trans (Nat.le_mul_of_pos_right pieceLen (Nat.succ_pos i)))
    · have hpos : 0 < pieceLen := by decide
      obtain ⟨n, rfl⟩ : ∃ n', n = n' + 1 := ⟨n - 1, by omega⟩
      rw [findBalance_line n hnl htail] at h
      cases hp : pieceEntry username line 0 with
      | some bal => simp [hp] at h
      | none =>
        -- the next turn starts at the second piece
        rw [hp, takeLine_piece tail hnl (Or.inl hge)] at h
        rw [← pieceEntry_drop]
        refine ih (fun hm => hnl (List.mem_of_mem_drop hm)) ?_ h
        rw [List.length_drop]
        omega

/-- A text is one line, or a line and the rest. -/
theorem exists_line (text : CStr) :
    ('\n' ∉ text ∧ text.splitOn '\n' = [text]) ∨
      ∃ line rest, text = line ++ '\n' :: rest ∧ '\n' ∉ line ∧
        text.splitOn '\n' = line :: rest.splitOn '\n' := by
  by_cases hnl : '\n' ∈ text
  · rcases List.eq_append_cons_of_mem hnl with ⟨line, rest, htext, hline⟩
    refine Or.inr ⟨line, rest, htext, hline, ?_⟩
    rw [htext]
    exact List.splitOn_append_cons_self_of_not_mem hline rest
  · exact Or.inl ⟨hnl, List.splitOn_eq_singleton hnl⟩

/-- A line that gives nothing gives nothing in any of its pieces, if cutting does not matter. -/
theorem Uncut.pieces {username line : CStr} (h : Uncut username line)
    (hnone : entry username (normalise line) = none) (i : Nat) :
    pieceEntry username line i = none := by
  cases i with
  | zero => exact h.first.trans hnone
  | succ i => exact h.later hnone (i + 1) (Nat.succ_pos i)

/-- If the line has an entry in its first piece, the loop stops there. -/
theorem findBalance_first {username line tail : CStr} {n : Nat} {bal : Int} (hnl : '\n' ∉ line)
    (htail : LineEnd tail) (hn : (line ++ tail).length ≤ n)
    (h : pieceEntry username line 0 = some bal) :
    findBalance username n (line ++ tail) = some bal := by
  cases n with
  | zero =>
    have hline : line.length ≤ pieceLen * 0 := by
      rw [List.length_append] at hn
      omega
    rw [pieceEntry_of_length_le hline] at h
    exact absurd h (by simp)
  | succ n => rw [findBalance_line n hnl htail, h]

/-- If cutting does not matter, the loop finds what the specification looks up. -/
theorem findBalance_eq_lookup {username text : CStr} {n : Nat} (hn : text.length ≤ n)
    (h : UncutLines username (text.splitOn '\n')) :
    findBalance username n text = lookup username text := by
  induction hlen : text.length using Nat.strong_induction_on generalizing text n with
  | _ len ih =>
    unfold lookup
    rcases exists_line text with ⟨hnl, hlines⟩ | ⟨line, rest, rfl, hnl, hlines⟩
    · -- the last line
      rw [hlines] at h ⊢
      rcases h with ⟨huncut, -⟩
      rw [List.findSome?_singleton]
      cases he : entry username (normalise text) with
      | none => exact findBalance_last n hnl (huncut.pieces he)
      | some bal =>
        have hfirst := findBalance_first hnl (Or.inl rfl : LineEnd []) (by simpa using hn)
          (huncut.first.trans he)
        rwa [List.append_nil] at hfirst
    · rw [hlines] at h ⊢
      rcases h with ⟨huncut, hrest⟩
      rw [List.findSome?_cons]
      cases he : entry username (normalise line) with
      | none =>
        rcases findBalance_skip hnl (huncut.pieces he) hn with ⟨m, hm, heq⟩
        have hlt : rest.length < len := by
          rw [← hlen, List.length_append, List.length_cons]
          omega
        rw [heq, ih rest.length hlt hm (hrest he) rfl]
        rfl
      | some bal => exact findBalance_first hnl (Or.inr ⟨rest, rfl⟩) hn (huncut.first.trans he)

/-- If neither the specification nor the loop finds anything, cutting does not matter. -/
theorem uncutLines_of_findBalance {username text : CStr} {n : Nat} (hn : text.length ≤ n)
    (hlookup : lookup username text = none) (h : findBalance username n text = none) :
    UncutLines username (text.splitOn '\n') := by
  have huncut {line tail : CStr} {k : Nat} (hnl : '\n' ∉ line) (htail : LineEnd tail)
      (hk : line.length ≤ k) (hnone : findBalance username k (line ++ tail) = none)
      (he : entry username (normalise line) = none) : Uncut username line :=
    ⟨(pieces_of_findBalance hnl htail hk hnone 0).trans he.symm,
      fun _ i _ => pieces_of_findBalance hnl htail hk hnone i⟩
  -- on the text, a line at a time, with the fuel that is left of the loop
  induction hlen : text.length using Nat.strong_induction_on generalizing text n with
  | _ len ih =>
    unfold lookup at hlookup
    rcases exists_line text with ⟨hnl, hlines⟩ | ⟨line, rest, rfl, hnl, hlines⟩
    · rw [hlines] at hlookup ⊢
      rw [List.findSome?_singleton] at hlookup
      refine ⟨huncut hnl (Or.inl rfl : LineEnd []) hn ?_ hlookup, fun _ => trivial⟩
      rwa [List.append_nil]
    · rw [hlines] at hlookup ⊢
      rw [List.findSome?_cons] at hlookup
      cases he : entry username (normalise line) with
      | some bal => simp [he] at hlookup
      | none =>
        rw [he] at hlookup
        have hline : line.length ≤ n := by
          rw [List.length_append] at hn
          omega
        have htail : LineEnd ('\n' :: rest) := Or.inr ⟨rest, rfl⟩
        refine ⟨huncut hnl htail hline h he, fun _ => ?_⟩
        -- the loop has passed the whole line, in one piece or in several
        obtain ⟨m, hm, heq⟩ := findBalance_skip hnl
          (pieces_of_findBalance hnl htail hline h) hn
        have hlt : rest.length < len := by
          rw [← hlen, List.length_append, List.length_cons]
          omega
        exact ih rest.length hlt hm hlookup (heq ▸ h) rfl

/-! ### Results -/

theorem usertxtGetBalance_eq (text username : CStr) :
    usertxtGetBalance (some text) username = verdict (findBalance username text.length text) := by
  unfold usertxtGetBalance verdict
  cases h : findBalance username text.length text <;> simp only [h]

/-- A line that `fgets` takes as one chunk, its newline apart. -/
theorem uncut_of_length_le {line : CStr} (username : CStr) (h : line.length ≤ pieceLen) :
    Uncut username line := by
  constructor
  · unfold pieceEntry
    rw [Nat.mul_zero, List.drop_zero, List.take_of_length_le h]
  · intro _ i hi
    exact pieceEntry_of_length_le (h.trans (Nat.le_mul_of_pos_right pieceLen hi))

/-- Short lines are no problem. -/
theorem uncutLines_of_length_le {lines : List CStr} (username : CStr)
    (h : ∀ line ∈ lines, line.length ≤ pieceLen) : UncutLines username lines := by
  induction lines with
  | nil => trivial
  | cons line lines ih =>
    exact ⟨uncut_of_length_le username (h line List.mem_cons_self),
      fun _ => ih fun l hl => h l (List.mem_cons_of_mem _ hl)⟩

/-- For every file and user: if in no line up to the user's first entry the cut into pieces
matters, the login lookup gives what the specification gives. For a user without an entry this
is also necessary. -/
theorem lookup_meets_reference (text username : CStr) :
    (UncutLines username (text.splitOn '\n') →
        usertxtGetBalance (some text) username = reference username text) ∧
      ((reference username text).1 = .AUTH_UN →
        usertxtGetBalance (some text) username = reference username text →
        UncutLines username (text.splitOn '\n')) := by
  -- AUTH_UN is the verdict on nothing only
  have hun : ∀ found, (verdict found).1 = .AUTH_UN → found = none := by
    intro found hf
    cases found with
    | none => rfl
    | some bal =>
      simp only [verdict] at hf
      split at hf <;> simp at hf
  rw [usertxtGetBalance_eq, reference]
  constructor
  · intro h
    rw [findBalance_eq_lookup (Nat.le_refl _) h]
  · intro href heq
    have hlookup := hun _ href
    have hfind := hun _ (by rw [heq]; exact href)
    exact uncutLines_of_findBalance (Nat.le_refl _) hlookup hfind

/-- A comment of three pieces in front of an entry. -/
def longComment : CStr := List.replicate 150 '#' ++ "\n bob\t5 \n".toList

theorem lookup_meets_reference_longComment :
    usertxtGetBalance (some longComment) "bob".toList = (.AUTH_OK, 5) := by
  have hlines : longComment.splitOn '\n' = [List.replicate 150 '#', " bob\t5 ".toList, []] := by
    decide +kernel
  -- no piece of the comment has the form of an entry
  have huncut : UncutLines "bob".toList (longComment.splitOn '\n') := by
    rw [hlines]
    refine ⟨⟨by decide +kernel, fun _ i hi => ?_⟩, fun _ =>
      uncutLines_of_length_le _ (by decide +kernel)⟩
    match i, hi with
    | 1, _ => decide +kernel
    | 2, _ => decide +kernel
    | i + 3, _ =>
      refine pieceEntry_of_length_le ?_
      simp only [List.length_replicate, pieceLen, MAX_UTXT_LINEBUF_LEN]
      omega
  have href : reference "bob".toList longComment = (.AUTH_OK, 5) := by decide +kernel
  rw [(lookup_meets_reference _ _).1 huncut, href]

/-- A line of 68 bytes that names nobody, with `bob 5` behind the first 63 bytes. -/
def longLine : CStr := List.replicate 63 'x' ++ "bob 5\n".toList

/-- `bob` is let in although no line starts with this name. -/
theorem stranger_let_in :
    usertxtGetBalance (some longLine) "bob".toList = (.AUTH_OK, 5) ∧
      (∀ line ∈ longLine.splitOn '\n', ¬ "bob".toList <+: line) ∧
      ¬ ∀ text username, usertxtGetBalance (some text) username = reference username text := by
  have hcode : usertxtGetBalance (some longLine) "bob".toList = (.AUTH_OK, 5) := by
    decide +kernel
  refine ⟨hcode, by decide +kernel, fun h => ?_⟩
  have href : reference "bob".toList longLine = (.AUTH_UN, 0) := by decide +kernel
  rw [h, href] at hcode
  simp at hcode

end AnimateServer.LoginLookup
