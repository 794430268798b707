import Mathlib.Data.List.Infix
import Mathlib.Tactic.Common

/-!
# Reading a command line

How the POSIX shell reads a line: the characters go one by one into tokens, with the three kinds
of quoting, and the tokens into a simple command, with its words and its redirections. A line
that is anything else (a list, a pipeline, a compound command, an open quote, a here-document)
or in which something is expanded is not read.

A text reads as a word with the same characters only if it is `Plain`.
-/

namespace Shell

/-! ## Tokens -/

/-- A character of a word, marked if it is quoted. -/
structure WordChar where
  char : Char
  quoted : Bool
deriving DecidableEq, Repr

abbrev Word := List WordChar

/-- Quote removal. -/
def chars (w : Word) : List Char := w.map WordChar.char

/-- The word that a text is without quotes. -/
def unquoted (s : List Char) : Word := s.map (WordChar.mk · false)

/-- The text of a word is made of the texts of its parts. -/
@[simp] theorem chars_append (v w : Word) : chars (v ++ w) = chars v ++ chars w :=
  List.map_append

@[simp] theorem length_chars (w : Word) : (chars w).length = w.length := List.length_map _

@[simp] theorem chars_unquoted (s : List Char) : chars (unquoted s) = s := by
  simp [chars, unquoted, Function.comp_def]

inductive Operator where
  | amp
  | pipe
  | semi
  | less
  | great
  | lparen
  | rparen
  | newline
  | andIf
  | orIf
  | dsemi
  | dless
  | dgreat
  | lessAnd
  | greatAnd
  | lessGreat
  | dlessDash
  | clobber
deriving DecidableEq, Repr

/-- The operator that a character is. -/
def Operator.ofChar : Char → Option Operator
  | '&' => some .amp
  | '|' => some .pipe
  | ';' => some .semi
  | '<' => some .less
  | '>' => some .great
  | '(' => some .lparen
  | ')' => some .rparen
  | '\n' => some .newline
  | _ => none

/-- A longer operator. -/
def Operator.extend : Operator → Char → Option Operator
  | .amp, '&' => some .andIf
  | .pipe, '|' => some .orIf
  | .semi, ';' => some .dsemi
  | .less, '<' => some .dless
  | .less, '&' => some .lessAnd
  | .less, '>' => some .lessGreat
  | .dless, '-' => some .dlessDash
  | .great, '>' => some .dgreat
  | .great, '&' => some .greatAnd
  | .great, '|' => some .clobber
  | _, _ => none

/-- The operators of a redirection to or from a file. -/
def Operator.redirects : Operator → Bool
  | .less | .great | .dgreat | .lessAnd | .greatAnd | .lessGreat | .clobber => true
  | _ => false

inductive Token where
  | word (w : Word)
  | ioNumber (digits : List Char)
  | operator (o : Operator)
deriving DecidableEq, Repr

/-! ## Token recognition -/

def backslash : Char := Char.ofNat 92
def quote : Char := Char.ofNat 39
def doubleQuote : Char := Char.ofNat 34
def backquote : Char := Char.ofNat 96

def isBlank (c : Char) : Bool := c == ' ' || c == '\t'

/-- Parameter, command and arithmetic expansion start with one of these. -/
def expands (c : Char) : Bool := c == '$' || c == backquote

/-- What the reader is in the middle of. -/
inductive Mode where
  | start
  | word (w : Word)
  | escape (w : Word)
  | single (w : Word)
  | double (w : Word)
  | doubleEscape (w : Word)
  | operator (o : Operator)
  | comment
deriving DecidableEq, Repr

/-- A word goes on with a character that is neither blank nor an operator. -/
def inWord (w : Word) (c : Char) : Option Mode :=
  if c = backslash then some (.escape w)
  else if c = quote then some (.single w)
  else if c = doubleQuote then some (.double w)
  else if expands c then none
  else some (.word (w ++ [⟨c, false⟩]))

/-- A new token. -/
def fresh (c : Char) : Option Mode :=
  if isBlank c then some .start
  else if c = '#' then some .comment
  else match Operator.ofChar c with
    | some o => some (.operator o)
    | none => inWord [] c

/-- The token that ends before `c`: digits in front of a redirection are its number. -/
def delimit (w : Word) (c : Char) : Token :=
  if (c = '<' ∨ c = '>') ∧ w ≠ [] ∧ w.all (fun x => !x.quoted && x.char.isDigit) then
    .ioNumber (chars w)
  else .word w

/-- One more character: the tokens that end and what the reader is in then. -/
def step : Mode → Char → Option (List Token × Mode)
  | .start, c => (fresh c).map ([], ·)
  | .word w, c =>
    if isBlank c ∨ (Operator.ofChar c).isSome then (fresh c).map ([delimit w c], ·)
    else (inWord w c).map ([], ·)
  -- a newline behind a backslash would join two lines
  | .escape w, c => if c = '\n' then none else some ([], .word (w ++ [⟨c, true⟩]))
  | .single w, c =>
    if c = quote then some ([], .word w) else some ([], .single (w ++ [⟨c, true⟩]))
  | .double w, c =>
    if c = doubleQuote then some ([], .word w)
    else if c = backslash then some ([], .doubleEscape w)
    else if expands c then none
    else some ([], .double (w ++ [⟨c, true⟩]))
  | .doubleEscape w, c =>
    if c = '\n' then none
    -- in double quotes the backslash quotes only these
    else if expands c ∨ c = doubleQuote ∨ c = backslash then some ([], .double (w ++ [⟨c, true⟩]))
    else some ([], .double (w ++ [⟨backslash, true⟩, ⟨c, true⟩]))
  | .operator o, c =>
    match o.extend c with
    | some o' => some ([], .operator o')
    | none => (fresh c).map ([.operator o], ·)
  | .comment, c => some ([], if c = '\n' then .operator .newline else .comment)

/-- The end of the line. -/
def finish : Mode → Option (List Token)
  | .start | .comment => some []
  | .word w => some [.word w]
  | .operator o => some [.operator o]
  | _ => none

/-- The tokens of a line. -/
def tokens : Mode → List Char → Option (List Token)
  | m, [] => finish m
  | m, c :: s => (step m c).bind fun r => (tokens r.2 s).map (r.1 ++ ·)

/-- Reading a character yields its tokens, and the rest is read in the new mode. -/
theorem tokens_cons {m : Mode} {c : Char} {s : List Char} {ts : List Token}
    (h : tokens m (c :: s) = some ts) :
    ∃ ts₁ m' ts₂, step m c = some (ts₁, m') ∧ tokens m' s = some ts₂ ∧ ts = ts₁ ++ ts₂ := by
  rcases Option.bind_eq_some_iff.mp h with ⟨⟨ts₁, m'⟩, hstep, hrest⟩
  rcases Option.map_eq_some_iff.mp hrest with ⟨ts₂, hts₂, rfl⟩
  exact ⟨ts₁, m', ts₂, hstep, hts₂, rfl⟩

/-- The same from left to right. -/
theorem tokens_of_step {m m' : Mode} {c : Char} {ts : List Token}
    (h : step m c = some (ts, m')) (s : List Char) :
    tokens m (c :: s) = (tokens m' s).map (ts ++ ·) := by
  rw [tokens, h]
  rfl

/-! ## Simple commands -/

/-- How far a bracket expression has been read. -/
inductive Bracket where
  | outside
  | opened
  | negated
  | inside
deriving DecidableEq, Repr

/-- Whether the word has a bracket expression: `[`, perhaps `!`, at least one character, `]`, and
no slash up to there. -/
def hasBracket : Bracket → Word → Bool
  | _, [] => false
  | .outside, c :: w => hasBracket (if c = ⟨'[', false⟩ then .opened else .outside) w
  | .opened, c :: w =>
    hasBracket (if c.char = '/' then .outside else if c = ⟨'!', false⟩ then .negated
      else .inside) w
  | .negated, c :: w => hasBracket (if c.char = '/' then .outside else .inside) w
  | .inside, c :: w =>
    c = ⟨']', false⟩ || hasBracket (if c.char = '/' then .outside else .inside) w

/-- Pathname expansion. -/
def isPattern (w : Word) : Bool :=
  w.any (fun c => c = ⟨'*', false⟩ || c = ⟨'?', false⟩) || hasBracket .outside w

/-- Tilde expansion. -/
def isTilde (w : Word) : Bool := w.head? = some ⟨'~', false⟩

/-- The literal argument that a word is, if nothing in it is expanded. -/
def argument (w : Word) : Option (List Char) :=
  if isTilde w || isPattern w then none else some (chars w)

/-- In the target of a redirection there is no pathname expansion. -/
def target (w : Word) : Option (List Char) := if isTilde w then none else some (chars w)

structure Redirect where
  number : Option (List Char)
  operator : Operator
  target : List Char
deriving DecidableEq, Repr

/-- Assignments in front of a command count among its words. -/
structure SimpleCommand where
  words : List (List Char)
  redirects : List Redirect
deriving DecidableEq, Repr

def SimpleCommand.addWord (l : List Char) (c : SimpleCommand) : SimpleCommand :=
  { c with words := l :: c.words }

def SimpleCommand.addRedirect (r : Redirect) (c : SimpleCommand) : SimpleCommand :=
  { c with redirects := r :: c.redirects }

/-- The words and redirections of a simple command. -/
def suffix : List Token → Option SimpleCommand
  | [] => some ⟨[], []⟩
  | .word w :: ts => (argument w).bind fun l => (suffix ts).map (.addWord l)
  | .operator o :: .word w :: ts =>
    if o.redirects then
      (target w).bind fun l => (suffix ts).map (.addRedirect ⟨none, o, l⟩)
    else none
  | .ioNumber n :: .operator o :: .word w :: ts =>
    if o.redirects then
      (target w).bind fun l => (suffix ts).map (.addRedirect ⟨some n, o, l⟩)
    else none
  | _ => none

/-- A compound command starts with one of these. -/
def reservedWords : List (List Char) :=
  ["!", "\x7b", "\x7d", "case", "do", "done", "elif", "else", "esac", "fi", "for", "if", "in",
    "then", "until", "while"].map String.toList

/-- The simple command that a line is. -/
def simpleCommand (line : List Char) : Option SimpleCommand :=
  (tokens .start line).bind fun ts =>
    if ts.head? ∈ reservedWords.map (fun r => some (.word (unquoted r))) then none else suffix ts

/-! ## Words that read as themselves -/

/-- The characters that have a meaning of their own inside a word. -/
def special (c : Char) : Bool :=
  isBlank c || (Operator.ofChar c).isSome || c = backslash || c = quote || c = doubleQuote ||
    expands c

/-- The text reads as a word with the same characters. -/
structure Plain (s : List Char) : Prop where
  ordinary : ∀ c ∈ s, special c = false
  noComment : s.head? ≠ some '#'
  noTilde : s.head? ≠ some '~'
  noPattern : isPattern (unquoted s) = false

instance (s : List Char) : Decidable (Plain s) :=
  decidable_of_iff (s.all (fun c => !special c) = true ∧ s.head? ≠ some '#' ∧
      s.head? ≠ some '~' ∧ isPattern (unquoted s) = false) <| by
    rw [List.all_eq_true]
    constructor
    · intro h
      exact ⟨fun c hc => by simpa using h.1 c hc, h.2.1, h.2.2.1, h.2.2.2⟩
    · intro h
      exact ⟨fun c hc => by simpa using h.ordinary c hc, h.noComment, h.noTilde, h.noPattern⟩

/-- The word under way. -/
def Mode.under : Mode → Option Word
  | .word w | .escape w | .single w | .double w | .doubleEscape w => some w
  | _ => none

/-- A backslash that may turn out to be part of the word. -/
def Mode.held : Mode → Nat
  | .doubleEscape _ => 1
  | _ => 0

section Step

variable {w : Word} {c : Char}

/-- An ordinary character goes into the word, unquoted. -/
theorem inWord_ordinary (hc : special c = false) (w : Word) :
    inWord w c = some (.word (w ++ [⟨c, false⟩])) := by
  simp only [special, Bool.or_eq_false_iff, decide_eq_false_iff_not] at hc
  rcases hc with ⟨⟨⟨⟨-, hback⟩, hquote⟩, hdouble⟩, hexp⟩
  simp [inWord, hback, hquote, hdouble, hexp]

theorem fresh_ordinary (hc : special c = false) (hcomment : c ≠ '#') :
    fresh c = some (.word [⟨c, false⟩]) := by
  have hin := inWord_ordinary hc []
  simp only [special, Bool.or_eq_false_iff, decide_eq_false_iff_not] at hc
  have hop : Operator.ofChar c = none := by simpa using hc.1.1.1.1.2
  simp [fresh, hc.1.1.1.1.1, hcomment, hop, hin]

/-- Inside a word it changes nothing else. -/
theorem step_ordinary (hc : special c = false) (w : Word) :
    step (.word w) c = some ([], .word (w ++ [⟨c, false⟩])) := by
  have hin := inWord_ordinary hc w
  simp only [special, Bool.or_eq_false_iff, decide_eq_false_iff_not] at hc
  simp [step, hc.1.1.1.1.1, hc.1.1.1.1.2, hin]

/-- An operator or a blank ends a word, with or without another token under way. -/
theorem step_delimit (h : isBlank c ∨ (Operator.ofChar c).isSome) {ts : List Token} {m : Mode}
    (hstep : step (.word w) c = some (ts, m)) : ts = [delimit w c] := by
  simp only [step, if_pos h, Option.map_eq_some_iff, Prod.mk.injEq] at hstep
  rcases hstep with ⟨-, -, rfl, -⟩
  rfl

end Step

/-- A special character that does not end a word begins a quotation. -/
theorem inWord_special {w : Word} {c : Char} {m : Mode} (hc : special c ≠ false)
    (hend : ¬(isBlank c ∨ (Operator.ofChar c).isSome)) (h : inWord w c = some m) :
    m.under = some w ∧ m.held = 0 := by
  unfold inWord at h
  split_ifs at h <;> obtain rfl := Option.some.inj h
  · exact ⟨rfl, rfl⟩
  · exact ⟨rfl, rfl⟩
  · exact ⟨rfl, rfl⟩
  · simp_all [special]

/-- A character with a meaning of its own ends the word or is not added to it. -/
theorem step_special {w : Word} {c : Char} {ts : List Token} {m : Mode} (hc : special c ≠ false)
    (h : step (.word w) c = some (ts, m)) :
    ts = [delimit w c] ∨ (ts = [] ∧ m.under = some w ∧ m.held = 0) := by
  by_cases hend : isBlank c ∨ (Operator.ofChar c).isSome
  · exact .inl (step_delimit hend h)
  · simp only [step, if_neg hend, Option.map_eq_some_iff, Prod.mk.injEq] at h
    rcases h with ⟨m, hin, rfl, rfl⟩
    exact .inr ⟨rfl, inWord_special hc hend hin⟩

section Forward

variable {s r : List Char}

/-- A run of ordinary characters goes into the word. -/
theorem tokens_ordinary (hs : ∀ c ∈ s, special c = false) (w : Word) (r : List Char) :
    tokens (.word w) (s ++ r) = tokens (.word (w ++ unquoted s)) r := by
  induction s generalizing w with
  | nil => simp [unquoted]
  | cons c s ih =>
    rw [List.cons_append, tokens_of_step (step_ordinary (hs c List.mem_cons_self) w),
      ih (fun d hd => hs d (List.mem_cons_of_mem c hd))]
    simp [unquoted]

/-- A blank ends the word. -/
theorem tokens_blank (w : Word) (r : List Char) :
    tokens (.word w) (' ' :: r) = (tokens .start r).map (.word w :: ·) := by
  have hstep : step (.word w) ' ' = some ([.word w], .start) := by
    simp [step, isBlank, fresh, delimit]
  rw [tokens_of_step hstep]
  rfl

/-- A word that stands in front of a blank. -/
theorem tokens_word (hs : ∀ c ∈ s, special c = false) (hcomment : s.head? ≠ some '#')
    (hne : s ≠ []) (r : List Char) :
    tokens .start (s ++ ' ' :: r) = (tokens .start r).map (.word (unquoted s) :: ·) := by
  rcases List.exists_cons_of_ne_nil hne with ⟨c, t, rfl⟩
  have hstep : step .start c = some ([], .word [⟨c, false⟩]) := by
    rw [step, fresh_ordinary (hs c List.mem_cons_self) (by simpa using hcomment)]
    rfl
  rw [List.cons_append, tokens_of_step hstep,
    tokens_ordinary (fun d hd => hs d (List.mem_cons_of_mem c hd)), tokens_blank]
  simp [unquoted, Function.comp_def]

/-- A word that does not begin with a tilde is not expanded. -/
theorem isTilde_unquoted (hs : s.head? ≠ some '~') : isTilde (unquoted s) = false := by
  cases s with
  | nil => rfl
  | cons c s =>
    have hc : c ≠ '~' := by simpa using hs
    simp [isTilde, unquoted, hc]

/-- A plain word is taken as it is, as an argument and as the file of a redirection. -/
theorem Plain.argument (h : Plain s) : argument (unquoted s) = some s := by
  simp [Shell.argument, isTilde_unquoted h.noTilde, h.noPattern]

theorem Plain.target (h : Plain s) : target (unquoted s) = some s := by
  simp [Shell.target, isTilde_unquoted h.noTilde]

/-- A sequence of plain words, each with a blank behind it. -/
theorem tokens_words {ws : List (List Char)} (hws : ∀ s ∈ ws, Plain s ∧ s ≠ []) (r : List Char) :
    tokens .start (ws.flatMap (· ++ [' ']) ++ r) =
      (tokens .start r).map (ws.map (fun s => .word (unquoted s)) ++ ·) := by
  induction ws with
  | nil => simp
  | cons s ws ih =>
    rcases hws s List.mem_cons_self with ⟨hplain, hne⟩
    rw [List.flatMap_cons, List.append_assoc, List.append_assoc, List.singleton_append,
      tokens_word hplain.ordinary hplain.noComment hne,
      ih (fun t ht => hws t (List.mem_cons_of_mem s ht))]
    simp [Function.comp_def]

/-- Plain words are arguments of the command they belong to. -/
theorem suffix_words {ws : List (List Char)} (hws : ∀ s ∈ ws, Plain s) (ts : List Token) :
    suffix (ws.map (fun s => .word (unquoted s)) ++ ts) =
      (suffix ts).map fun c => { c with words := ws ++ c.words } := by
  induction ws with
  | nil => simp
  | cons s ws ih =>
    rw [List.map_cons, List.cons_append, suffix, (hws s List.mem_cons_self).argument,
      Option.bind_some, ih (fun t ht => hws t (List.mem_cons_of_mem s ht)), Option.map_map]
    rfl

end Forward

/-! ## Words that do not

A quote uses up a character of the text that the word does not get, and a blank ends the word
or, in quotes, is part of it. -/

/-- A character ends the word under way or adds at most itself to it, and a blank that does not
end it is added. -/
theorem step_under {m m' : Mode} {w : Word} {c : Char} {ts : List Token}
    (hw : m.under = some w) (h : step m c = some (ts, m')) :
    (m = .word w ∧ ts = [delimit w c]) ∨
    (ts = [] ∧ ∃ v, m'.under = some (w ++ v) ∧ v.length + m'.held ≤ 1 + m.held ∧
      (c = ' ' → ' ' ∈ chars v)) := by
  -- inside a word a character ends it, is added to it, or is held back by a quotation
  cases m with
  | start => cases hw
  | comment => cases hw
  | operator o => cases hw
  | word w' =>
    obtain rfl := Option.some.inj hw
    by_cases hend : isBlank c ∨ (Operator.ofChar c).isSome
    · exact .inl ⟨rfl, step_delimit hend h⟩
    · have hsp : c ≠ ' ' := by
        rintro rfl
        exact hend (.inl rfl)
      simp only [step, if_neg hend, Option.map_eq_some_iff, Prod.mk.injEq] at h
      rcases h with ⟨m, hin, rfl, rfl⟩
      refine .inr ⟨rfl, ?_⟩
      unfold inWord at hin
      split_ifs at hin <;> obtain rfl := Option.some.inj hin
      · exact ⟨[], by simp [Mode.under], by simp [Mode.held], fun h => absurd h hsp⟩
      · exact ⟨[], by simp [Mode.under], by simp [Mode.held], fun h => absurd h hsp⟩
      · exact ⟨[], by simp [Mode.under], by simp [Mode.held], fun h => absurd h hsp⟩
      · exact ⟨_, rfl, by simp [Mode.held], fun h => absurd h hsp⟩
  | escape w' =>
    obtain rfl := Option.some.inj hw
    simp only [step] at h
    split_ifs at h
    rcases Prod.mk.inj (Option.some.inj h) with ⟨rfl, rfl⟩
    exact .inr ⟨rfl, _, rfl, by simp [Mode.held], by rintro rfl; simp [chars]⟩
  | single w' =>
    obtain rfl := Option.some.inj hw
    simp only [step] at h
    split_ifs at h with hq <;> obtain ⟨rfl, rfl⟩ := Prod.mk.inj (Option.some.inj h)
    · exact .inr ⟨rfl, [], by simp [Mode.under], by simp [Mode.held], by rintro rfl; cases hq⟩
    · exact .inr ⟨rfl, _, rfl, by simp [Mode.held], by rintro rfl; simp [chars]⟩
  | double w' =>
    obtain rfl := Option.some.inj hw
    simp only [step] at h
    split_ifs at h with hq hb <;> obtain ⟨rfl, rfl⟩ := Prod.mk.inj (Option.some.inj h)
    · exact .inr ⟨rfl, [], by simp [Mode.under], by simp [Mode.held], by rintro rfl; cases hq⟩
    · exact .inr ⟨rfl, [], by simp [Mode.under], by simp [Mode.held], by rintro rfl; cases hb⟩
    · exact .inr ⟨rfl, _, rfl, by simp [Mode.held], by rintro rfl; simp [chars]⟩
  | doubleEscape w' =>
    obtain rfl := Option.some.inj hw
    simp only [step] at h
    split_ifs at h <;> obtain ⟨rfl, rfl⟩ := Prod.mk.inj (Option.some.inj h)
    · exact .inr ⟨rfl, _, rfl, by simp [Mode.held], by rintro rfl; simp [chars]⟩
    · exact .inr ⟨rfl, _, rfl, by simp [Mode.held], by rintro rfl; simp [chars]⟩

section Backward

variable {m : Mode} {w v : Word} {c : Char} {s r : List Char} {t : Token} {ts : List Token}

/-- The token that a delimiter makes of a word is the word, or a number in front of a redirection.
-/
theorem delimit_eq_word (h : delimit w c = .word v) : v = w := by
  unfold delimit at h
  split at h
  · cases h
  · exact (Token.word.inj h).symm

theorem delimit_ne_operator (w : Word) (c : Char) (o : Operator) : delimit w c ≠ .operator o := by
  unfold delimit
  split <;> simp

/-- The end of the line ends the word under way. -/
theorem under_nil (hw : m.under = some w) (h : tokens m [] = some (t :: ts)) : t = .word w := by
  cases m with
  | word w' =>
    obtain rfl := Option.some.inj hw
    have hend : Token.word w' = t ∧ [] = ts := by simpa [tokens, finish] using h
    exact hend.1.symm
  | _ => simp_all [tokens, finish, Mode.under]

/-- What a character does to the word under way, seen from the next token. -/
theorem under_cons (hw : m.under = some w) (h : tokens m (c :: s) = some (t :: ts)) :
    (m = .word w ∧ t = delimit w c) ∨
    ∃ m' x, tokens m' s = some (t :: ts) ∧ m'.under = some (w ++ x) ∧
      x.length + m'.held ≤ 1 + m.held ∧ (c = ' ' → ' ' ∈ chars x) := by
  rcases tokens_cons h with ⟨ts₁, m', ts₂, hstep, hrest, heq⟩
  rcases step_under hw hstep with ⟨hm, rfl⟩ | ⟨rfl, x, hx⟩
  · exact .inl ⟨hm, (List.cons.inj heq).1⟩
  · rw [List.nil_append] at heq
    rw [← heq] at hrest
    exact .inr ⟨m', x, hrest, hx⟩

/-- The next token is no operator. -/
theorem under_first (hw : m.under = some w) (h : tokens m s = some (t :: ts)) (o : Operator) :
    t ≠ .operator o := by
  induction s generalizing m w with
  | nil => simp [under_nil hw h]
  | cons c s ih =>
    rcases under_cons hw h with ⟨-, rfl⟩ | ⟨m', x, hrest, hx, -⟩
    · exact delimit_ne_operator w c o
    · exact ih hx hrest

/-- The next word token starts with the word under way. -/
theorem under_prefix (hw : m.under = some w) (h : tokens m s = some (.word v :: ts)) :
    w <+: v := by
  induction s generalizing m w with
  | nil => rw [Token.word.inj (under_nil hw h)]
  | cons c s ih =>
    rcases under_cons hw h with ⟨-, heq⟩ | ⟨m', x, hrest, hx, -⟩
    · rw [delimit_eq_word heq.symm]
    · exact (List.prefix_append w x).trans (ih hx hrest)

/-- A word without blanks gets at most the characters up to the next blank. -/
theorem under_length_le (hw : m.under = some w)
    (h : tokens m (s ++ ' ' :: r) = some (.word v :: ts)) (hblank : ' ' ∉ chars v) :
    v.length ≤ w.length + s.length + m.held := by
  induction s generalizing m w with
  | nil =>
    rcases under_cons hw h with ⟨-, heq⟩ | ⟨m', x, hrest, hx, -, hsp⟩
    · rw [delimit_eq_word heq.symm]
      omega
    · -- the blank is part of the word
      rcases under_prefix hx hrest with ⟨y, rfl⟩
      exact absurd (by simp [hsp rfl]) hblank
  | cons c s ih =>
    rw [List.length_cons]
    rcases under_cons hw h with ⟨-, heq⟩ | ⟨m', x, hrest, hx, hlen, -⟩
    · rw [delimit_eq_word heq.symm]
      omega
    · have hle := ih hx hrest
      rw [List.length_append] at hle
      omega

/-- Outside of quotes and under way, every character has to be ordinary if none is to be lost. -/
theorem ordinary_of_length (h : tokens (.word w) (s ++ ' ' :: r) = some (.word v :: ts))
    (hblank : ' ' ∉ chars v) (hlen : v.length = w.length + s.length) :
    ∀ c ∈ s, special c = false := by
  induction s generalizing w with
  | nil => simp
  | cons c s ih =>
    rw [List.length_cons] at hlen
    rcases tokens_cons h with ⟨ts₁, m', ts₂, hstep, hrest, heq⟩
    by_cases hc : special c = false
    · rw [step_ordinary hc w] at hstep
      rcases Prod.mk.inj (Option.some.inj hstep) with ⟨rfl, rfl⟩
      have hs := ih (hrest.trans (by rw [heq]; rfl)) (by simp; omega)
      intro d hd
      rcases List.mem_cons.mp hd with rfl | hd
      · exact hc
      · exact hs d hd
    · exfalso
      rcases step_special hc hstep with rfl | ⟨rfl, hunder, hheld⟩
      · -- the word ends here
        rw [delimit_eq_word (List.cons.inj heq).1.symm] at hlen
        omega
      · have hle := under_length_le hunder (hrest.trans (by rw [heq]; rfl)) hblank
        omega

/-- An operator under way ends, or it goes on with the next character. -/
theorem operator_cases {o : Operator} {t : Token} (h : tokens (.operator o) s = some (t :: ts)) :
    (t = .operator o ∧ tokens .start s = some ts) ∨
    ∃ c s' o', s = c :: s' ∧ o.extend c = some o' ∧ tokens (.operator o') s' = some (t :: ts) := by
  cases s with
  | nil =>
    have hend : Token.operator o = t ∧ [] = ts := by simpa [tokens, finish] using h
    rcases hend with ⟨rfl, rfl⟩
    exact .inl ⟨rfl, rfl⟩
  | cons c s =>
    rcases tokens_cons h with ⟨ts₁, m', ts₂, hstep, hrest, heq⟩
    simp only [step] at hstep
    -- the operator grows by this character, or it ends before it
    split at hstep
    · rename_i o' ho'
      rcases Prod.mk.inj (Option.some.inj hstep) with ⟨rfl, rfl⟩
      exact .inr ⟨c, s, o', rfl, ho', hrest.trans (by rw [heq]; rfl)⟩
    · rcases Option.map_eq_some_iff.mp hstep with ⟨m, hm, hpair⟩
      rcases Prod.mk.inj hpair with ⟨rfl, rfl⟩
      rcases List.cons.inj heq with ⟨rfl, rfl⟩
      have hfresh : step .start c = some ([], m) := by simp [step, hm]
      exact .inl ⟨rfl, by rw [tokens_of_step hfresh, hrest]; rfl⟩

/-- An operator that has begun is the first token. -/
theorem operator_first {o : Operator} {t : Token} (h : tokens (.operator o) s = some (t :: ts)) :
    ∃ p, t = .operator p := by
  induction s generalizing o with
  | nil =>
    rcases operator_cases h with ⟨rfl, -⟩ | ⟨c, s', o', hs, -⟩
    · exact ⟨o, rfl⟩
    · cases hs
  | cons c s ih =>
    rcases operator_cases h with ⟨rfl, -⟩ | ⟨c', s', o', hs, -, hrest⟩
    · exact ⟨o, rfl⟩
    · rcases List.cons.inj hs with ⟨rfl, rfl⟩
      exact ih hrest

/-- An operator that does not go on from a shorter one has just been begun. -/
theorem operator_eq {o p : Operator} (hext : ∀ o' c, Operator.extend o' c ≠ some p)
    (h : tokens (.operator o) s = some (.operator p :: ts)) :
    p = o ∧ tokens .start s = some ts := by
  induction s generalizing o with
  | nil =>
    rcases operator_cases h with ⟨heq, hrest⟩ | ⟨c, s', o', hs, -⟩
    · exact ⟨Token.operator.inj heq, hrest⟩
    · cases hs
  | cons c s ih =>
    rcases operator_cases h with ⟨heq, hrest⟩ | ⟨c', s', o', hs, ho', hrest⟩
    · exact ⟨Token.operator.inj heq, hrest⟩
    · rcases List.cons.inj hs with ⟨rfl, rfl⟩
      rcases ih hrest with ⟨rfl, -⟩
      exact absurd ho' (hext o c)

/-- A comment ends with the line. -/
theorem comment_first {t : Token} (h : tokens .comment s = some (t :: ts)) :
    t = .operator .newline := by
  induction s with
  | nil => simp [tokens, finish] at h
  | cons c s ih =>
    rcases tokens_cons h with ⟨ts₁, m', ts₂, hstep, hrest, heq⟩
    simp only [step] at hstep
    rcases Prod.mk.inj (Option.some.inj hstep) with ⟨rfl, rfl⟩
    rw [List.nil_append] at heq
    rw [← heq] at hrest
    split at hrest
    · rcases operator_cases hrest with ⟨rfl, -⟩ | ⟨c, s', o', -, ho', -⟩
      · rfl
      · simp [Operator.extend] at ho'
    · exact ih hrest

/-- What the first character of a token that is not blank begins. -/
theorem fresh_cases {c : Char} {m : Mode} (hc : isBlank c = false) (h : fresh c = some m) :
    (c = '#' ∧ m = .comment) ∨ (∃ o, m = .operator o) ∨
    (special c = false ∧ c ≠ '#' ∧ m = .word [⟨c, false⟩]) ∨
    (m.under = some [] ∧ m.held = 0) := by
  -- a comment, a letter of a word, an operator, or a quote of some kind
  by_cases hcomment : c = '#'
  · subst hcomment
    exact .inl ⟨rfl, (Option.some.inj h).symm⟩
  by_cases hsp : special c = false
  · rw [fresh_ordinary hsp hcomment] at h
    exact .inr (.inr (.inl ⟨hsp, hcomment, (Option.some.inj h).symm⟩))
  unfold fresh at h
  rw [hc, if_neg (by simp), if_neg hcomment] at h
  split at h
  · rename_i o _
    exact .inr (.inl ⟨o, (Option.some.inj h).symm⟩)
  · rename_i ho
    exact .inr (.inr (.inr (inWord_special hsp (by simp [hc, ho]) h)))

/-- At the start a character begins something new. -/
theorem start_cons {c : Char} (h : tokens .start (c :: s) = some ts) :
    ∃ m, fresh c = some m ∧ tokens m s = some ts := by
  rcases tokens_cons h with ⟨ts₁, m, ts₂, hstep, hrest, heq⟩
  rcases Option.map_eq_some_iff.mp hstep with ⟨m', hm', hpair⟩
  rcases Prod.mk.inj hpair with ⟨rfl, rfl⟩
  exact ⟨m', hm', hrest.trans (by rw [heq]; rfl)⟩

/-- The first word of a text gets at most the characters up to the next blank. -/
theorem start_length_le (hs : ∀ c ∈ s, isBlank c = false) (hne : s ≠ [])
    (h : tokens .start (s ++ ' ' :: r) = some (.word v :: ts)) (hblank : ' ' ∉ chars v) :
    v.length ≤ s.length := by
  rcases List.exists_cons_of_ne_nil hne with ⟨c, t, rfl⟩
  rw [List.length_cons]
  rcases start_cons h with ⟨m, hm, hrest⟩
  -- a comment gives no word, an operator none first; the rest hold what they read
  rcases fresh_cases (hs c List.mem_cons_self) hm with
    ⟨-, rfl⟩ | ⟨o, rfl⟩ | ⟨-, -, rfl⟩ | ⟨hunder, hheld⟩
  · cases comment_first hrest
  · rcases operator_first hrest with ⟨p, hp⟩
    cases hp
  · have hle := under_length_le rfl hrest hblank
    have hheld : (Mode.word [⟨c, false⟩]).held = 0 := rfl
    rw [hheld, List.length_singleton] at hle
    omega
  · have hle := under_length_le hunder hrest hblank
    rw [hheld, List.length_nil] at hle
    omega

/-- A text that begins with an operator loses it for the word behind. -/
theorem operator_length_lt {o : Operator} (hs : ∀ c ∈ s, isBlank c = false) (hlen : 2 ≤ s.length)
    (hext : ∀ o' c, Operator.extend o' c ≠ some o) (hline : o ≠ .newline)
    (h : tokens .start (s ++ ' ' :: r) = some (.operator o :: .word v :: ts))
    (hblank : ' ' ∉ chars v) : v.length < s.length := by
  rcases List.exists_cons_of_length_pos (Nat.lt_of_lt_of_le Nat.zero_lt_two hlen) with ⟨c, t, rfl⟩
  rw [List.length_cons] at hlen ⊢
  rcases start_cons h with ⟨m, hm, hrest⟩
  rcases fresh_cases (hs c List.mem_cons_self) hm with
    ⟨-, rfl⟩ | ⟨p, rfl⟩ | ⟨-, -, rfl⟩ | ⟨hunder, -⟩
  · exact absurd (Token.operator.inj (comment_first hrest)) hline
  · -- the operator took the first character, and the word stands in the others
    rcases operator_eq hext hrest with ⟨-, hrest⟩
    have hne : t ≠ [] := List.length_pos_iff.mp (by omega)
    have hle := start_length_le (fun d hd => hs d (List.mem_cons_of_mem c hd)) hne hrest hblank
    omega
  · exact absurd rfl (under_first rfl hrest o)
  · exact absurd rfl (under_first hunder hrest o)

/-- Only a plain text reads as a word with the same characters. -/
theorem plain_of_argument (hs : ∀ c ∈ s, isBlank c = false) (hne : s ≠ [])
    (h : tokens .start (s ++ ' ' :: r) = some (.word v :: ts)) (harg : argument v = some s) :
    Plain s := by
  rcases Option.ite_none_left_eq_some.mp harg with ⟨hexp, hchars⟩
  have hchars : chars v = s := Option.some.inj hchars
  have hlen : v.length = s.length := by rw [← length_chars, hchars]
  have hblank : ' ' ∉ chars v := fun hmem => absurd (hs ' ' (hchars ▸ hmem)) (by decide)
  rcases List.exists_cons_of_ne_nil hne with ⟨c, t, rfl⟩
  have hplain : (∀ d ∈ c :: t, special d = false) ∧ c ≠ '#' := by
    rcases start_cons h with ⟨m, hm, hrest⟩
    rcases fresh_cases (hs c List.mem_cons_self) hm with
      ⟨-, rfl⟩ | ⟨o, rfl⟩ | ⟨hc, hcomment, rfl⟩ | ⟨hunder, hheld⟩
    · cases comment_first hrest
    · rcases operator_first hrest with ⟨p, hp⟩
      cases hp
    · have ht := ordinary_of_length hrest hblank (by simp [hlen]; omega)
      refine ⟨fun d hd => ?_, hcomment⟩
      rcases List.mem_cons.mp hd with rfl | hd
      · exact hc
      · exact ht d hd
    · -- the first character is a quote
      have hle := under_length_le hunder hrest hblank
      rw [hheld, hlen, List.length_cons, List.length_nil] at hle
      omega
  have hcomment : (c :: t).head? ≠ some '#' := by simpa using hplain.2
  rw [tokens_word hplain.1 hcomment hne] at h
  rcases Option.map_eq_some_iff.mp h with ⟨ts', -, heq⟩
  obtain rfl := Token.word.inj (List.cons.inj heq).1
  rw [Bool.or_eq_true, not_or] at hexp
  refine ⟨hplain.1, hcomment, ?_, by simpa using hexp.2⟩
  intro hhead
  exact hexp.1 (by simpa [isTilde, unquoted] using hhead)

end Backward

/-! ## Behind a plain text -/

/-- Without a closing bracket there is no bracket expression. -/
theorem hasBracket_eq_false {d : Word} (hd : ⟨']', false⟩ ∉ d) (b : Bracket) :
    hasBracket b d = false := by
  induction d generalizing b with
  | nil => cases b <;> rfl
  | cons c d ih =>
    rcases not_or.mp (List.mem_cons.not.mp hd) with ⟨hc, hd⟩
    cases b with
    | inside => simp [hasBracket, ih hd, Ne.symm hc]
    | _ => simp [hasBracket, ih hd]

/-- An ending without a closing bracket makes no bracket expression. -/
theorem hasBracket_append {d : Word} (hd : ⟨']', false⟩ ∉ d) (b : Bracket) (w : Word) :
    hasBracket b (w ++ d) = hasBracket b w := by
  induction w generalizing b with
  | nil =>
    rw [List.nil_append, hasBracket_eq_false hd]
    cases b <;> rfl
  | cons c w ih => cases b <;> simp [hasBracket, ih]

/-- A suffix without pattern characters does not make a pattern of a word. -/
theorem isPattern_append {d : Word}
    (hd : ∀ c ∈ d, c ≠ ⟨'*', false⟩ ∧ c ≠ ⟨'?', false⟩ ∧ c ≠ ⟨']', false⟩) (w : Word) :
    isPattern (w ++ d) = isPattern w := by
  have hstar : d.any (fun c => c = ⟨'*', false⟩ || c = ⟨'?', false⟩) = false := by
    rw [List.any_eq_false]
    intro c hc
    simp [(hd c hc).1, (hd c hc).2.1]
  have hbracket : ⟨']', false⟩ ∉ d := fun hmem => (hd _ hmem).2.2 rfl
  rw [isPattern, List.any_append, hstar, hasBracket_append hbracket, Bool.or_false]
  rfl

/-- A character that has no meaning, wherever it stands in a word. -/
def harmless (c : Char) : Bool :=
  !special c && c != '#' && c != '~' && c != '*' && c != '?' && c != ']'

/-- A harmless ending makes no pattern of a word that is none. -/
theorem isPattern_append_harmless {d : List Char} (hd : ∀ c ∈ d, harmless c = true)
    (s : List Char) : isPattern (unquoted (s ++ d)) = isPattern (unquoted s) := by
  rw [unquoted, List.map_append]
  apply isPattern_append
  intro c hc
  rcases List.mem_map.mp hc with ⟨e, he, rfl⟩
  have hharmless := hd e he
  simp only [harmless, Bool.and_eq_true, bne_iff_ne] at hharmless
  simp [hharmless.2, hharmless.1.2, hharmless.1.1.2]

theorem special_of_harmless {c : Char} (h : harmless c = true) : special c = false := by
  simp only [harmless, Bool.and_eq_true, Bool.not_eq_true'] at h
  exact h.1.1.1.1.1

/-- A harmless suffix changes nothing. -/
theorem plain_append_iff {s d : List Char} (hne : s ≠ []) (hd : ∀ c ∈ d, harmless c = true) :
    Plain (s ++ d) ↔ Plain s := by
  have hhead : (s ++ d).head? = s.head? := List.head?_append_of_ne_nil s hne
  have hpattern := isPattern_append_harmless hd s
  constructor
  · intro h
    exact ⟨fun c hc => h.ordinary c (List.mem_append_left d hc), hhead ▸ h.noComment,
      hhead ▸ h.noTilde, hpattern ▸ h.noPattern⟩
  · intro h
    refine ⟨fun c hc => ?_, hhead ▸ h.noComment, hhead ▸ h.noTilde, hpattern ▸ h.noPattern⟩
    rcases List.mem_append.mp hc with hc | hc
    · exact h.ordinary c hc
    · exact special_of_harmless (hd c hc)

/-- Harmless characters make a plain word. -/
theorem plain_of_harmless {s : List Char} (hs : ∀ c ∈ s, harmless c = true) : Plain s := by
  have hhead : ∀ c, s.head? = some c → c ≠ '#' ∧ c ≠ '~' := by
    intro c hc
    have hharmless := hs c (List.mem_of_mem_head? hc)
    simp only [harmless, Bool.and_eq_true, bne_iff_ne] at hharmless
    exact ⟨hharmless.1.1.1.1.2, hharmless.1.1.1.2⟩
  constructor
  · exact fun c hc => special_of_harmless (hs c hc)
  · exact fun hc => (hhead _ hc).1 rfl
  · exact fun hc => (hhead _ hc).2 rfl
  · exact isPattern_append_harmless hs []

/-- Digits are harmless. -/
theorem harmless_of_isDigit {c : Char} (h : c.isDigit = true) : harmless c = true := by
  have hne : ∀ d : Char, d.isDigit = false → c ≠ d := by
    rintro d hd rfl
    rw [h] at hd
    cases hd
  have hop : Operator.ofChar c = none := by
    unfold Operator.ofChar
    split <;> first | rfl | exact absurd h (by decide)
  simp [harmless, special, isBlank, expands, hop, hne ' ' (by decide), hne '\t' (by decide),
    hne backslash (by decide), hne quote (by decide), hne doubleQuote (by decide),
    hne '$' (by decide), hne backquote (by decide), hne '#' (by decide), hne '~' (by decide),
    hne '*' (by decide), hne '?' (by decide), hne ']' (by decide)]

end Shell
