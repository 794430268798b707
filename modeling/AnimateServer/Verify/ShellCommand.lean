import AnimateServer.Lib.Shell
import AnimateServer.Verify.Dimensions

/-!
# The command line that `GENERATE` passes to `system`

The file name goes from the request into the command line as it is, three times and without
quotes. No buffer on the way is too small. The shell takes it as it is if it is a plain text, and
`ffmpeg` takes it for a file if it does not begin with a hyphen; the parser checks neither.
-/

namespace AnimateServer.ShellCommand

open CLib CommandCases ObjectIds Generation Dimensions

/-! ### The text of the command -/

/-- The text that the four `snprintf` produce between them, nothing cut off. -/
def commandText (ce : CanvasEntry) (rate : Int) (filename : CStr) : CStr :=
  "ffmpeg -y -f rawvideo -pixel_format rgba -video_size ".toList ++ decimal ce.width ++
    "x".toList ++ decimal ce.height ++ " -framerate ".toList ++ decimal rate ++
    " -i ".toList ++ (filename ++ ".dat".toList) ++ " ".toList ++
    (filename ++ ".mp4".toList) ++ " > ".toList ++ (filename ++ ".log".toList) ++
    " 2>&1".toList

theorem pathOf_eq {filename : CStr} (hlen : filename.length ≤ MAX_FILENAME_LEN - 1)
    {suffix : String} (hsuffix : suffix.toList.length = 4) :
    pathOf filename suffix = filename ++ suffix.toList := by
  unfold pathOf
  rw [List.take_of_length_le]
  rw [List.length_append, hsuffix]
  unfold MAX_FILENAME_LEN at hlen
  unfold MAX_PATH_LEN
  omega

/-- Nothing is cut off. -/
theorem ffmpegCommand_eq {ce : CanvasEntry} {rate : Int} {filename : CStr}
    (hlen : filename.length ≤ MAX_FILENAME_LEN - 1)
    (hwidth : INT_MIN ≤ ce.width ∧ ce.width ≤ INT_MAX)
    (hheight : INT_MIN ≤ ce.height ∧ ce.height ≤ INT_MAX)
    (hrate : INT_MIN ≤ rate ∧ rate ≤ INT_MAX) :
    ffmpegCommand ce rate (pathOf filename ".dat") (pathOf filename ".mp4")
      (pathOf filename ".log") = commandText ce rate filename := by
  rw [pathOf_eq hlen (by decide), pathOf_eq hlen (by decide), pathOf_eq hlen (by decide)]
  have hw := length_decimal_le hwidth.1 hwidth.2
  have hh := length_decimal_le hheight.1 hheight.2
  have hr := length_decimal_le hrate.1 hrate.2
  -- the fixed pieces of the format, with their lengths
  have hpieces : "ffmpeg -y -f rawvideo -pixel_format rgba -video_size ".toList.length = 53 ∧
      "x".toList.length = 1 ∧ " -framerate ".toList.length = 12 ∧ " -i ".toList.length = 4 ∧
      ".dat".toList.length = 4 ∧ " ".toList.length = 1 ∧ ".mp4".toList.length = 4 ∧
      " > ".toList.length = 3 ∧ ".log".toList.length = 4 ∧ " 2>&1".toList.length = 5 := by
    decide
  rcases hpieces with ⟨h₁, h₂, h₃, h₄, h₅, h₆, h₇, h₈, h₉, h₁₀⟩
  unfold MAX_FILENAME_LEN at hlen
  apply List.take_of_length_le
  simp only [List.length_append, h₁, h₂, h₃, h₄, h₅, h₆, h₇, h₈, h₉, h₁₀]
  unfold COMMAND_LEN
  omega

/-! ### The command that is meant -/

/-- The words in front of the file names. -/
def options (ce : CanvasEntry) (rate : Int) : List CStr :=
  ["ffmpeg", "-y", "-f", "rawvideo", "-pixel_format", "rgba", "-video_size"].map String.toList ++
    [decimal ce.width ++ 'x' :: decimal ce.height, "-framerate".toList, decimal rate, "-i".toList]

/-- `ffmpeg` with the three files. -/
def ffmpegCall (ce : CanvasEntry) (rate : Int) (filename : CStr) : Shell.SimpleCommand where
  words := options ce rate ++ [filename ++ ".dat".toList, filename ++ ".mp4".toList]
  redirects :=
    [⟨none, .great, filename ++ ".log".toList⟩, ⟨some "2".toList, .greatAnd, "1".toList⟩]

/-- What comes behind the options. -/
def files (filename : CStr) : CStr :=
  (filename ++ ".dat".toList) ++ ' ' :: ((filename ++ ".mp4".toList) ++ ' ' :: '>' :: ' ' ::
    ((filename ++ ".log".toList) ++ ' ' :: "2>&1".toList))

theorem commandText_eq (ce : CanvasEntry) (rate : Int) (filename : CStr) :
    commandText ce rate filename =
      (options ce rate).flatMap (· ++ [' ']) ++ files filename := by
  -- the blanks between the fixed pieces go to the word before them
  have h₁ : "ffmpeg -y -f rawvideo -pixel_format rgba -video_size ".toList =
      (["ffmpeg", "-y", "-f", "rawvideo", "-pixel_format", "rgba", "-video_size"].map
        String.toList).flatMap (· ++ [' ']) := by decide
  have h₂ : "x".toList = ['x'] := by decide
  have h₃ : " -framerate ".toList = ' ' :: ("-framerate".toList ++ [' ']) := by decide
  have h₄ : " -i ".toList = ' ' :: ("-i".toList ++ [' ']) := by decide
  have h₅ : " ".toList = [' '] := by decide
  have h₆ : " > ".toList = [' ', '>', ' '] := by decide
  have h₇ : " 2>&1".toList = ' ' :: "2>&1".toList := by decide
  unfold commandText options files
  rw [h₁, h₂, h₃, h₄, h₅, h₆, h₇, List.flatMap_append]
  simp only [List.flatMap_cons, List.flatMap_nil, List.append_assoc, List.cons_append,
    List.nil_append, List.append_nil]

theorem plain_decimal (v : Int) : ∀ c ∈ decimal v, Shell.harmless c = true := by
  intro c hc
  rcases mem_decimal hc with rfl | hdigit
  · decide
  · exact Shell.harmless_of_isDigit hdigit

theorem decimal_ne_nil (v : Int) : decimal v ≠ [] := by
  unfold decimal
  split
  · exact List.cons_ne_nil _ _
  · exact Nat.toDigits_ne_nil

theorem plain_options (ce : CanvasEntry) (rate : Int) :
    ∀ s ∈ options ce rate, Shell.Plain s ∧ s ≠ [] := by
  have hfixed : ∀ s ∈ ["ffmpeg", "-y", "-f", "rawvideo", "-pixel_format", "rgba",
      "-video_size"].map String.toList, Shell.Plain s ∧ s ≠ [] := by decide
  intro s hs
  rcases List.mem_append.mp hs with hs | hs
  · exact hfixed s hs
  · simp only [List.mem_cons, List.not_mem_nil, or_false] at hs
    -- the size and the rate are decimals, the other two fixed
    rcases hs with rfl | rfl | rfl | rfl
    · refine ⟨Shell.plain_of_harmless fun c hc => ?_, by simp⟩
      rcases List.mem_append.mp hc with hc | hc
      · exact plain_decimal _ c hc
      · rcases List.mem_cons.mp hc with rfl | hc
        · decide
        · exact plain_decimal _ c hc
    · decide
    · exact ⟨Shell.plain_of_harmless (plain_decimal rate), decimal_ne_nil rate⟩
    · decide

/-- The options read as the words that they are. -/
theorem simpleCommand_commandText {ce : CanvasEntry} {rate : Int} {filename : CStr}
    {c : Shell.SimpleCommand} :
    Shell.simpleCommand (commandText ce rate filename) = some c ↔
      ∃ ts c', Shell.tokens .start (files filename) = some ts ∧ Shell.suffix ts = some c' ∧
        c = { c' with words := options ce rate ++ c'.words } := by
  have hplain := plain_options ce rate
  -- the command begins with ffmpeg, which is no reserved word
  have hhead : ∀ ts, ((options ce rate).map (fun s => Shell.Token.word (Shell.unquoted s)) ++
      ts).head? ∉ Shell.reservedWords.map fun r => some (.word (Shell.unquoted r)) := by
    intro ts
    show some (Shell.Token.word (Shell.unquoted "ffmpeg".toList)) ∉ _
    decide
  rw [commandText_eq, Shell.simpleCommand, Shell.tokens_words hplain]
  cases htokens : Shell.tokens .start (files filename) with
  | none => simp
  | some ts =>
    rw [Option.map_some, Option.bind_some, if_neg (hhead ts),
      Shell.suffix_words fun s hs => (hplain s hs).1]
    constructor
    · intro h
      rcases Option.map_eq_some_iff.mp h with ⟨c', hc', rfl⟩
      exact ⟨ts, c', rfl, hc', rfl⟩
    · rintro ⟨ts', c', hts', hc', rfl⟩
      obtain rfl := Option.some.inj hts'
      rw [hc']
      rfl

/-! ### The file name -/

section FileName

variable {filename : CStr}

/-- None of the suffixes means anything to the shell. -/
theorem plain_suffix (hne : filename ≠ []) {suffix : CStr}
    (hsuffix : suffix ∈ [".dat", ".mp4", ".log"].map String.toList) :
    Shell.Plain (filename ++ suffix) ↔ Shell.Plain filename := by
  have hharmless : ∀ suffix ∈ [".dat", ".mp4", ".log"].map String.toList,
      suffix.all Shell.harmless = true := by decide
  exact Shell.plain_append_iff hne (List.all_eq_true.mp (hharmless suffix hsuffix))

/-- A plain name reads as three words. -/
theorem tokens_files (hne : filename ≠ []) (h : Shell.Plain filename) :
    Shell.tokens .start (files filename) = some
      [.word (Shell.unquoted (filename ++ ".dat".toList)),
        .word (Shell.unquoted (filename ++ ".mp4".toList)), .operator .great,
        .word (Shell.unquoted (filename ++ ".log".toList)), .ioNumber "2".toList,
        .operator .greatAnd, .word (Shell.unquoted "1".toList)] := by
  -- each path is one word, for the name is plain and so are the suffixes
  have hword : ∀ suffix ∈ [".dat", ".mp4", ".log"].map String.toList, ∀ r,
      Shell.tokens .start ((filename ++ suffix) ++ ' ' :: r) =
        (Shell.tokens .start r).map (.word (Shell.unquoted (filename ++ suffix)) :: ·) := by
    intro suffix hsuffix r
    have hplain := (plain_suffix hne hsuffix).mpr h
    exact Shell.tokens_word hplain.ordinary hplain.noComment (by simp [hne]) r
  have hgreat : ∀ r, Shell.tokens .start ('>' :: ' ' :: r) =
      (Shell.tokens .start r).map (.operator .great :: ·) := by
    intro r
    have h₁ : Shell.step .start '>' = some ([], .operator .great) := by decide
    have h₂ : Shell.step (.operator .great) ' ' = some ([.operator .great], .start) := by decide
    rw [Shell.tokens_of_step h₁, Shell.tokens_of_step h₂, Option.map_map]
    rfl
  have hlast : Shell.tokens .start "2>&1".toList =
      some [.ioNumber "2".toList, .operator .greatAnd, .word (Shell.unquoted "1".toList)] := by
    decide
  unfold files
  rw [hword _ (by simp), hword _ (by simp), hgreat, hword _ (by simp), hlast]
  rfl

theorem suffix_files (hne : filename ≠ []) (h : Shell.Plain filename) :
    (Shell.tokens .start (files filename)).bind Shell.suffix = some
      ⟨[filename ++ ".dat".toList, filename ++ ".mp4".toList],
        [⟨none, .great, filename ++ ".log".toList⟩, ⟨some "2".toList, .greatAnd, "1".toList⟩]⟩ := by
  have hplain : ∀ suffix ∈ [".dat", ".mp4", ".log"].map String.toList,
      Shell.Plain (filename ++ suffix) := fun suffix hsuffix => (plain_suffix hne hsuffix).mpr h
  have hone : Shell.target (Shell.unquoted "1".toList) = some "1".toList := by decide
  rw [tokens_files hne h, Option.bind_some]
  simp only [Shell.suffix, (hplain ".dat".toList (by simp)).argument,
    (hplain ".mp4".toList (by simp)).argument, (hplain ".log".toList (by simp)).target, hone,
    Option.bind_some, Option.map_some, Shell.Operator.redirects, if_true]
  rfl

/-- No other operator goes on to `>`. -/
theorem extend_ne_great (o : Shell.Operator) (c : Char) : o.extend c ≠ some .great := by
  unfold Shell.Operator.extend
  split <;> simp

/-- Only a plain name reads as the three files. -/
theorem plain_of_suffix (hne : filename ≠ []) (hspace : ∀ c ∈ filename, isspace c = false)
    {ts : List Shell.Token} (htokens : Shell.tokens .start (files filename) = some ts)
    (h : Shell.suffix ts = some
      ⟨[filename ++ ".dat".toList, filename ++ ".mp4".toList],
        [⟨none, .great, filename ++ ".log".toList⟩, ⟨some "2".toList, .greatAnd, "1".toList⟩]⟩) :
    Shell.Plain filename := by
  have hblank : ∀ suffix ∈ [".dat", ".mp4", ".log"].map String.toList,
      ∀ c ∈ filename ++ suffix, Shell.isBlank c = false := by
    have hfixed : ∀ suffix ∈ [".dat", ".mp4", ".log"].map String.toList,
        suffix.all (!Shell.isBlank ·) = true := by decide
    intro suffix hsuffix c hc
    rcases List.mem_append.mp hc with hc | hc
    · have hsp := hspace c hc
      rw [Bool.eq_false_iff]
      intro hb
      rcases Bool.or_eq_true_iff.mp hb with hb | hb <;> rw [beq_iff_eq.mp hb] at hsp <;>
        exact absurd hsp (by decide)
    · simpa using List.all_eq_true.mp (hfixed suffix hsuffix) c hc
  unfold files at htokens
  unfold Shell.suffix at h
  split at h
  · cases h
  · -- a word comes first
    rename_i v ts
    rcases Option.bind_eq_some_iff.mp h with ⟨l, harg, hrest⟩
    rcases Option.map_eq_some_iff.mp hrest with ⟨c, -, hc⟩
    obtain rfl : l = filename ++ ".dat".toList :=
      (List.cons.inj (congrArg Shell.SimpleCommand.words hc)).1
    have hdat := Shell.plain_of_argument (hblank _ (by simp)) (by simp [hne]) htokens harg
    exact (plain_suffix hne (by simp)).mp hdat
  · -- a redirection comes first
    rename_i o v ts
    split at h
    · rcases Option.bind_eq_some_iff.mp h with ⟨l, htarget, hrest⟩
      rcases Option.map_eq_some_iff.mp hrest with ⟨c, -, hc⟩
      have hredirect := (List.cons.inj (congrArg Shell.SimpleCommand.redirects hc)).1
      rcases Shell.Redirect.mk.inj hredirect with ⟨-, rfl, rfl⟩
      have hchars : Shell.chars v = filename ++ ".log".toList :=
        Option.some.inj (Option.ite_none_left_eq_some.mp htarget).2
      have hsp : ' ' ∉ Shell.chars v := by
        rw [hchars]
        exact fun hmem => absurd (hblank _ (by simp) ' ' hmem) (by decide)
      have hsuffixes : ".dat".toList.length = 4 ∧ ".log".toList.length = 4 := by decide
      have hpos := List.length_pos_iff.mpr hne
      have hlen := congrArg List.length hchars
      rw [Shell.length_chars, List.length_append, hsuffixes.2] at hlen
      -- the operator has used up a character
      have hlt := Shell.operator_length_lt (hblank ".dat".toList (by simp))
        (by rw [List.length_append, hsuffixes.1]; omega) extend_ne_great (by decide) htokens hsp
      rw [List.length_append, hsuffixes.1] at hlt
      omega
    · cases h
  · -- a number comes first
    split at h
    · rcases Option.bind_eq_some_iff.mp h with ⟨l, -, hrest⟩
      rcases Option.map_eq_some_iff.mp hrest with ⟨c, -, hc⟩
      have hredirect := (List.cons.inj (congrArg Shell.SimpleCommand.redirects hc)).1
      cases (Shell.Redirect.mk.inj hredirect).1
    · cases h
  · cases h

end FileName

/-- The command line is whole, it reads as the call of `ffmpeg` that is meant, and `ffmpeg` does
not take its output for an option. -/
structure AsData (ce : CanvasEntry) (rate : Int) (filename cmd : CStr) : Prop where
  whole : cmd = commandText ce rate filename
  call : Shell.simpleCommand cmd = some (ffmpegCall ce rate filename)
  noOption : (filename ++ ".mp4".toList).head? ≠ some '-'

/-- The file name reaches the shell as data exactly if it is a plain text and does not begin with
a hyphen. -/
theorem asData_iff {env : Env} {request filename cmd : CStr} {canvasId start last rate : Int}
    {w : World} (hw : tables.Reachable w)
    (hparse : parseGenerate request = .ok (canvasId, filename, start, last, rate))
    (hcmd : .system cmd ∈ (generate env request w).effects) :
    (∃ i ce, w.canvases.lookup canvasId = some i ∧ w.canvases.entryAt i = some ce ∧
      AsData ce rate filename cmd) ↔
    Shell.Plain filename ∧ filename.head? ≠ some '-' := by
  rcases generate_system hcmd with ⟨id, name, first, final, fps, i, ce, hparse', hi, hce, rfl⟩
  rw [hparse, Except.ok.injEq, Prod.mk.injEq, Prod.mk.injEq, Prod.mk.injEq,
    Prod.mk.injEq] at hparse'
  rcases hparse' with ⟨rfl, rfl, -, -, rfl⟩
  have hacc := parseGenerate_ok hparse
  rcases hacc.name with ⟨s, rest, hscan⟩
  rcases scanWord_some hscan with ⟨hne, hlen, hspace⟩
  have hpos := hacc.rate_pos
  rcases reachable_intDims hw i (Table.lookup_eq_some hi).2 ce hce with ⟨hwidth, hheight⟩
  -- the command fits its buffer, so snprintf writes all of it
  rw [ffmpegCommand_eq hlen hwidth hheight ⟨by unfold INT_MIN; omega, hacc.rate_le⟩]
  have hhead : (filename ++ ".mp4".toList).head? = filename.head? :=
    List.head?_append_of_ne_nil filename hne
  constructor
  · rintro ⟨j, ce', hj, hce', hdata⟩
    obtain rfl := Option.some.inj (hi.symm.trans hj)
    obtain rfl := Option.some.inj (hce.symm.trans hce')
    rcases simpleCommand_commandText.mp hdata.call with ⟨ts, c, htokens, hsuffix, hc⟩
    rcases c with ⟨words, redirects⟩
    obtain rfl : _ = words := List.append_cancel_left (congrArg Shell.SimpleCommand.words hc)
    obtain rfl : _ = redirects := congrArg Shell.SimpleCommand.redirects hc
    -- the shell took the name for one word, so it is plain
    exact ⟨plain_of_suffix hne hspace htokens hsuffix, hhead ▸ hdata.noOption⟩
  · rintro ⟨hplain, hhyphen⟩
    refine ⟨i, ce, hi, hce, rfl, ?_, hhead ▸ hhyphen⟩
    rcases Option.bind_eq_some_iff.mp (suffix_files hne hplain) with ⟨ts, htokens, hsuffix⟩
    exact simpleCommand_commandText.mpr ⟨ts, _, htokens, hsuffix, rfl⟩

/-- The command line for the canvas of `oneCanvas`. -/
def oneFrame (filename : CStr) : CStr :=
  ffmpegCommand (newCanvas 7 0 10 10 0) 25 (pathOf filename ".dat") (pathOf filename ".mp4")
    (pathOf filename ".log")

/-- An ordinary name. -/
theorem asData_iff_film :
    ∃ i ce, oneCanvas.canvases.lookup 0 = some i ∧ oneCanvas.canvases.entryAt i = some ce ∧
      AsData ce 25 "film".toList (oneFrame "film".toList) := by
  have hparse : parseGenerate "0 film 0 0 25".toList = .ok (0, "film".toList, 0, 0, 25) := by
    decide
  have hcmd : .system (oneFrame "film".toList) ∈
      (generate (.allSucceed 1) "0 film 0 0 25".toList oneCanvas).effects := by decide +kernel
  exact (asData_iff reachable_oneCanvas hparse hcmd).mpr (by decide)

/-- A name that is three commands. -/
theorem filename_runs_commands :
    tables.Reachable oneCanvas ∧
      parseGenerate "0 a;id;b 0 0 25".toList = .ok (0, "a;id;b".toList, 0, 0, 25) ∧
      .system (oneFrame "a;id;b".toList) ∈
        (generate (.allSucceed 1) "0 a;id;b 0 0 25".toList oneCanvas).effects ∧
      -- behind the options and the word `a`
      (Shell.tokens .start (oneFrame "a;id;b".toList)).map (fun ts => (ts.drop 12).take 3) =
        some [.operator .semi, .word (Shell.unquoted "id".toList), .operator .semi] ∧
      ∀ ce, ¬AsData ce 25 "a;id;b".toList (oneFrame "a;id;b".toList) := by
  have hread : Shell.simpleCommand (oneFrame "a;id;b".toList) = none := by
    decide +kernel
  refine ⟨reachable_oneCanvas, by decide, by decide +kernel, by decide +kernel, fun ce hdata => ?_⟩
  rw [hdata.call] at hread
  cases hread

end AnimateServer.ShellCommand
