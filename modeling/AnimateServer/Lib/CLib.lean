import Mathlib.Data.List.TakeDrop
import Mathlib.Data.Nat.Digits.Defs
import Mathlib.Tactic.Common

/-!
# The C library functions a string-handling server rests on

A C string is the list of its bytes before the terminating NUL, each byte
written as a character. The functions follow their documented behaviour in the
C locale: `strtol` skips white space and a sign and saturates at the bounds of
`long`, `strtoul` negates modulo `2^64`, `strtok_r` skips delimiters and cuts
the next run of other bytes, `fgets` reads up to a newline or a full buffer.
`written` is the other side: the mathematical integer a whole string denotes,
with no bound on its size.
-/

namespace CLib

abbrev CStr := List Char

/-! ## Machine integers (LP64) -/

def INT_MAX : Int := 2147483647
def INT_MIN : Int := -2147483648
def LONG_MAX : Int := 9223372036854775807
def LONG_MIN : Int := -9223372036854775808
def ULONG_MAX : Nat := 18446744073709551615

/-- Conversion of a wider integer to `int`: the low 32 bits, as a signed number. -/
def toInt (v : Int) : Int := v.bmod 4294967296

/-- Conversion of an `int` to `size_t`, modulo `2^64`. -/
def asSizeT (v : Int) : Int := v % 18446744073709551616

/-- The conversion keeps the numbers that are in the range of `int`. -/
theorem toInt_of_range {v : Int} (h₁ : INT_MIN ≤ v) (h₂ : v ≤ INT_MAX) : toInt v = v := by
  unfold toInt INT_MIN INT_MAX at *
  rw [Int.bmod_eq_of_le] <;> omega

/-- The result of a conversion is an `int`. -/
theorem toInt_range (v : Int) : INT_MIN ≤ toInt v ∧ toInt v ≤ INT_MAX := by
  have hlo := Int.le_bmod (x := v) (m := 4294967296) (by decide)
  have hhi := Int.bmod_lt (x := v) (m := 4294967296) (by decide)
  unfold toInt INT_MIN INT_MAX
  omega

/-- Saturation at the bounds of `long`. -/
def clampLong (v : Int) : Int :=
  if v < LONG_MIN then LONG_MIN else if LONG_MAX < v then LONG_MAX else v

/-- Narrowing what `strtol` returns gives back exactly the integers in the range of `int`. -/
theorem toInt_clampLong_eq_iff {v : Int} :
    toInt (clampLong v) = v ↔ INT_MIN ≤ v ∧ v ≤ INT_MAX := by
  unfold toInt clampLong INT_MIN INT_MAX LONG_MIN LONG_MAX
  constructor
  · intro h
    have hlo := Int.le_bmod (x := clampLong v) (m := 4294967296) (by decide)
    have hhi := Int.bmod_lt (x := clampLong v) (m := 4294967296) (by decide)
    unfold clampLong LONG_MIN LONG_MAX at hlo hhi
    rw [h] at hlo hhi
    omega
  · rintro ⟨hlo, hhi⟩
    rw [if_neg (by omega), if_neg (by omega), Int.bmod_eq_of_le] <;> omega

/-- What `strtol` returns is the number itself if it is in the range of `int`. -/
theorem eq_of_clampLong_range {v : Int} (h₁ : INT_MIN ≤ clampLong v)
    (h₂ : clampLong v ≤ INT_MAX) : clampLong v = v := by
  unfold clampLong INT_MIN INT_MAX LONG_MIN LONG_MAX at *
  split at h₁ <;> split at h₂ <;> split <;> omega

/-! ## Characters and prefixes -/

/-- `isspace` in the C locale: space, and `\t \n \v \f \r`. -/
def isspace (c : Char) : Bool := c == ' ' || (9 ≤ c.toNat && c.toNat ≤ 13)

/-- `strncmp(a, b, n) == 0`. -/
def strncmpEq (a b : CStr) (n : Nat) : Bool := a.take n == b.take n

/-- Comparing with a whole string is a test for a prefix. -/
theorem strncmpEq_length_iff {s name : CStr} :
    strncmpEq s name name.length = true ↔ name <+: s := by
  unfold strncmpEq
  rw [beq_iff_eq, List.take_length, eq_comm]
  exact List.prefix_iff_eq_take.symm

/-- `char buf[n]; strncpy(buf, s, n); buf[n - 1] = '\0';` read back as a string. -/
def strncpyBuf (n : Nat) (s : CStr) : CStr := s.take (n - 1)

/-! ## Numbers -/

/-- The value of a run of decimal digits. -/
def natOfDigits (ds : CStr) : Nat :=
  ds.foldl (fun n c => 10 * n + (c.toNat - '0'.toNat)) 0

/-- The sign of a number and what follows it. -/
def signOf : CStr → Bool × CStr
  | '-' :: s => (true, s)
  | '+' :: s => (false, s)
  | s => (false, s)

/-- White space, an optional sign and a non-empty run of digits at the front of a
string: the signed number and the bytes behind it, `none` if there is no digit. -/
def splitNumber (s : CStr) : Option (Bool × Nat × CStr) :=
  let (neg, u) := signOf (s.dropWhile isspace)
  let ds := u.takeWhile Char.isDigit
  if ds = [] then none else some (neg, natOfDigits ds, u.dropWhile Char.isDigit)

def signed (neg : Bool) (m : Nat) : Int := if neg then -(m : Int) else m

/-- `strtol(s, &end, 10)`: the value and the string at `end`. -/
def strtol (s : CStr) : Int × CStr :=
  match splitNumber s with
  | none => (0, s)
  | some (neg, m, rest) => (clampLong (signed neg m), rest)

/-- `strtol` saturates. -/
theorem strtol_le (s : CStr) : (strtol s).1 ≤ LONG_MAX := by
  unfold strtol clampLong LONG_MAX LONG_MIN
  split
  · show (0 : Int) ≤ _
    omega
  · show ite _ _ _ ≤ _
    split
    · omega
    · split <;> omega

/-- A sign is one byte at most. -/
theorem length_signOf_le (s : CStr) : (signOf s).2.length ≤ s.length := by
  unfold signOf
  split <;> simp

/-- A number takes at least one byte. -/
theorem length_splitNumber_lt {s rest : CStr} {neg : Bool} {m : Nat}
    (h : splitNumber s = some (neg, m, rest)) : rest.length < s.length := by
  unfold splitNumber at h
  dsimp only at h
  rcases Option.ite_none_left_eq_some.mp h with ⟨hne, h⟩
  have hrest := (Prod.mk.inj (Prod.mk.inj (Option.some.inj h)).2).2
  have hlen := congrArg List.length
    (List.takeWhile_append_dropWhile (p := Char.isDigit) (l := (signOf (s.dropWhile isspace)).2))
  have hpos := List.length_pos_iff.mpr hne
  have hsign := length_signOf_le (s.dropWhile isspace)
  have hdrop := (List.dropWhile_sublist isspace (l := s)).length_le
  rw [List.length_append, hrest] at hlen
  omega

/-- `strtol` leaves the string as it is exactly if it converts nothing. -/
theorem strtol_end_eq_self (s : CStr) : (strtol s).2 = s ↔ splitNumber s = none := by
  unfold strtol
  cases h : splitNumber s with
  | none => simp
  | some r =>
    rcases r with ⟨neg, m, rest⟩
    have hlt := length_splitNumber_lt h
    simp only [reduceCtorEq, iff_false]
    intro heq
    rw [heq] at hlt
    exact Nat.lt_irrefl _ hlt

/-- `strtoul(s, &end, 10)`: a minus sign negates modulo `2^64`. -/
def strtoul (s : CStr) : Nat × CStr :=
  match splitNumber s with
  | none => (0, s)
  | some (neg, m, rest) =>
    (if ULONG_MAX < m then ULONG_MAX
      else if neg then (ULONG_MAX + 1 - m) % (ULONG_MAX + 1) else m, rest)

/-- The mathematical integer that a whole string denotes: optional white space,
an optional sign, digits and nothing else. -/
def written (s : CStr) : Option Int :=
  match splitNumber s with
  | some (neg, m, []) => some (signed neg m)
  | _ => none

/-- `%d` and `%ld`. -/
def decimal (v : Int) : CStr :=
  if v < 0 then '-' :: Nat.toDigits 10 v.natAbs else Nat.toDigits 10 v.natAbs

/-- Two numbers with the same digits are the same. -/
theorem toDigits_injective {m n : Nat} (h : Nat.toDigits 10 m = Nat.toDigits 10 n) : m = n := by
  rw [← Nat.ofDigitChars_ten_toDigits (n := m), h, Nat.ofDigitChars_ten_toDigits]

/-- A number without a sign does not read like one with a minus sign. -/
theorem toDigits_ne_minus (m : Nat) (s : CStr) : Nat.toDigits 10 m ≠ '-' :: s := by
  intro h
  have hdigit := Nat.isDigit_of_mem_toDigits (b := 10) (n := m) (c := '-') (by decide) (by decide)
    (h ▸ List.mem_cons_self)
  exact absurd hdigit (by decide)

/-- A printed number tells which one it was. -/
theorem decimal_injective {v w : Int} (h : decimal v = decimal w) : v = w := by
  unfold decimal at h
  split at h
  · split at h
    · have habs := toDigits_injective (List.cons.inj h).2
      omega
    · exact absurd h.symm (toDigits_ne_minus _ _)
  · split at h
    · exact absurd h (toDigits_ne_minus _ _)
    · have habs := toDigits_injective h
      omega

/-- An `int` has at most ten digits and a sign. -/
theorem length_decimal_le {v : Int} (h₁ : INT_MIN ≤ v) (h₂ : v ≤ INT_MAX) :
    (decimal v).length ≤ 11 := by
  have hdigits : (Nat.toDigits 10 v.natAbs).length ≤ 10 := by
    apply (Nat.length_toDigits_le_iff (by decide) (by decide)).mpr
    unfold INT_MIN INT_MAX at *
    omega
  unfold decimal
  split
  · exact Nat.succ_le_succ hdigits
  · omega

/-! ### Reading back what has been printed -/

/-- A text that does not go on with a digit. -/
def NoDigit (s : CStr) : Prop := ∀ c ∈ s.head?, c.isDigit = false

/-- Printed digits are read back. -/
theorem natOfDigits_toDigits (m : Nat) : natOfDigits (Nat.toDigits 10 m) = m := by
  rw [natOfDigits, ← Nat.ofDigitChars_eq_foldl, Nat.ofDigitChars_ten_toDigits]

theorem isDigit_of_mem_toDigits {m : Nat} {c : Char} (h : c ∈ Nat.toDigits 10 m) :
    c.isDigit = true :=
  Nat.isDigit_of_mem_toDigits (by decide) (by decide) h

/-- A printed number consists of digits and a minus sign. -/
theorem mem_decimal {v : Int} {c : Char} (h : c ∈ decimal v) : c = '-' ∨ c.isDigit = true := by
  unfold decimal at h
  split at h
  · rcases List.mem_cons.mp h with rfl | hc
    · exact .inl rfl
    · exact .inr (isDigit_of_mem_toDigits hc)
  · exact .inr (isDigit_of_mem_toDigits h)

/-- A run of digits ends where it ends. -/
theorem takeWhile_isDigit {ds rest : CStr} (hds : ∀ c ∈ ds, c.isDigit = true)
    (hrest : NoDigit rest) :
    (ds ++ rest).takeWhile Char.isDigit = ds ∧ (ds ++ rest).dropWhile Char.isDigit = rest := by
  rw [List.takeWhile_append_of_pos hds, List.dropWhile_append_of_pos hds]
  cases rest with
  | nil => simp
  | cons c rest =>
    have hc : c.isDigit = false := hrest c rfl
    simp [hc]

/-- A digit is no white space. -/
theorem not_isspace_of_isDigit {c : Char} (h : c.isDigit = true) : isspace c = false := by
  simp only [Char.isDigit, Bool.and_eq_true, decide_eq_true_eq] at h
  unfold isspace
  have h1 : 48 ≤ c.toNat := h.1
  have hne : c ≠ ' ' := by
    rintro rfl
    exact absurd h1 (by decide)
  simp [hne]
  omega

/-- Reading a number that has been printed. -/
theorem splitNumber_decimal (v : Int) {rest : CStr} (hrest : NoDigit rest) :
    splitNumber (decimal v ++ rest) = some (decide (v < 0), v.natAbs, rest) := by
  have hdigits : ∀ c ∈ Nat.toDigits 10 v.natAbs, c.isDigit = true := fun c =>
    isDigit_of_mem_toDigits
  rcases takeWhile_isDigit hdigits hrest with ⟨htake, hdrop⟩
  have hne : Nat.toDigits 10 v.natAbs ≠ [] := Nat.toDigits_ne_nil
  -- a minus sign is written for negative numbers only
  have hsign : signOf ((decimal v ++ rest).dropWhile isspace) =
      (decide (v < 0), Nat.toDigits 10 v.natAbs ++ rest) := by
    unfold decimal
    split
    · rename_i hv
      simp [signOf, hv, isspace]
    · rename_i hv
      rcases List.exists_cons_of_ne_nil hne with ⟨c, ds, hcs⟩
      have hc : c.isDigit = true := hdigits c (by simp [hcs])
      have hsp := not_isspace_of_isDigit hc
      rw [hcs, List.cons_append, List.dropWhile_cons_of_neg (by simp [hsp])]
      unfold signOf
      split
      · simp_all
      · simp_all
      · simp [hv]
  simp only [splitNumber, hsign, htake, hdrop, hne, if_false, natOfDigits_toDigits]

/-- A number is its sign and its size. -/
theorem signed_natAbs (v : Int) : signed (decide (v < 0)) v.natAbs = v := by
  unfold signed
  by_cases hv : v < 0
  · simp only [hv, decide_true, if_true]
    omega
  · simp only [hv, decide_false, Bool.false_eq_true, if_false]
    omega

/-- White space in front of a number is skipped. -/
theorem splitNumber_space (s : CStr) : splitNumber (' ' :: s) = splitNumber s := rfl

/-- A run of `k` digits is less than `10 ^ k`. -/
theorem natOfDigits_lt {ds : CStr} (h : ∀ c ∈ ds, c.isDigit = true) :
    natOfDigits ds < 10 ^ ds.length := by
  have hval : natOfDigits ds = Nat.ofDigitChars 10 ds 0 := by
    rw [natOfDigits, ← Nat.ofDigitChars_eq_foldl]
  rw [hval]
  induction ds with
  | nil => exact Nat.one_pos
  | cons c ds ih =>
    have hc := h c List.mem_cons_self
    simp only [Char.isDigit, Bool.and_eq_true, decide_eq_true_eq] at hc
    -- the code of a digit is at most nine above that of zero
    have hdigit : c.toNat - '0'.toNat ≤ 9 := by
      have hnine : c.toNat ≤ 57 := hc.2
      have hzero : '0'.toNat = 48 := rfl
      omega
    have htail := ih (fun d hd => h d (List.mem_cons_of_mem _ hd)) (by
      rw [natOfDigits, ← Nat.ofDigitChars_eq_foldl])
    rw [Nat.ofDigitChars_cons, Nat.ofDigitChars_eq_ofDigitChars_zero, Nat.mul_zero, Nat.zero_add,
      List.length_cons, Nat.pow_succ]
    calc 10 ^ ds.length * (c.toNat - '0'.toNat) + Nat.ofDigitChars 10 ds 0
        < 10 ^ ds.length * (c.toNat - '0'.toNat) + 10 ^ ds.length := Nat.add_lt_add_left htail _
      _ = 10 ^ ds.length * (c.toNat - '0'.toNat + 1) := (Nat.mul_succ _ _).symm
      _ ≤ 10 ^ ds.length * 10 := Nat.mul_le_mul_left _ (Nat.succ_le_succ hdigit)

/-- What stands in front of the digits of a number, and the digits. -/
theorem splitNumber_some {s rest : CStr} {neg : Bool} {m : Nat}
    (h : splitNumber s = some (neg, m, rest)) :
    ∃ front ds, s = front ++ (ds ++ rest) ∧ ds ≠ [] ∧ m < 10 ^ ds.length ∧ NoDigit rest ∧
      (NoDigit s → front ≠ []) := by
  unfold splitNumber at h
  dsimp only at h
  rcases Option.ite_none_left_eq_some.mp h with ⟨hne, h⟩
  rcases Prod.mk.inj (Option.some.inj h) with ⟨-, h⟩
  rcases Prod.mk.inj h with ⟨rfl, rfl⟩
  have hsign : ∃ front, s = front ++ (signOf (s.dropWhile isspace)).2 := by
    have hspace := List.takeWhile_append_dropWhile (p := isspace) (l := s)
    generalize hu : s.dropWhile isspace = u at hspace ⊢
    unfold signOf
    split
    · rename_i v
      exact ⟨s.takeWhile isspace ++ ['-'], by simp [hspace]⟩
    · rename_i v
      exact ⟨s.takeWhile isspace ++ ['+'], by simp [hspace]⟩
    · exact ⟨_, hspace.symm⟩
  rcases hsign with ⟨front, hfront⟩
  generalize (signOf (s.dropWhile isspace)).2 = u at hne hfront ⊢
  have hsplit := List.takeWhile_append_dropWhile (p := Char.isDigit) (l := u)
  have hdigits : ∀ c ∈ u.takeWhile Char.isDigit, c.isDigit = true := fun c hc =>
    List.all_eq_true.mp List.all_takeWhile c hc
  refine ⟨front, u.takeWhile Char.isDigit, by rw [hsplit, hfront], hne, natOfDigits_lt hdigits,
    fun c hc => ?_, fun hs hnil => ?_⟩
  · have hhead := List.head?_dropWhile_not Char.isDigit u
    rw [Option.mem_def.mp hc] at hhead
    simpa using hhead
  · -- without anything in front the text would start with a digit
    rcases List.exists_cons_of_ne_nil hne with ⟨c, ds, hcs⟩
    have hhead : c ∈ s.head? := by rw [hfront, hnil, ← hsplit, hcs]; rfl
    have hdigit := hdigits c (hcs ▸ List.mem_cons_self)
    rw [hs c hhead] at hdigit
    cases hdigit

/-- An `int` that comes from a run of `k` digits has at most `k` digits. -/
theorem natAbs_toInt_lt (neg : Bool) {m k : Nat} (hm : m < 10 ^ k) :
    (toInt (clampLong (signed neg m))).natAbs < 10 ^ k := by
  rcases Nat.lt_or_ge k 10 with hk | hk
  · -- fewer than ten digits are converted without loss
    have hle : m < 10 ^ 9 := Nat.lt_of_lt_of_le hm (Nat.pow_le_pow_right (by decide) (by omega))
    have habs : (signed neg m).natAbs = m := by
      unfold signed
      split <;> omega
    have hrange : INT_MIN ≤ signed neg m ∧ signed neg m ≤ INT_MAX := by
      unfold INT_MIN INT_MAX
      omega
    rw [toInt_clampLong_eq_iff.mpr hrange, habs]
    exact hm
  · have hrange := toInt_range (clampLong (signed neg m))
    have hpow : 10 ^ 10 ≤ 10 ^ k := Nat.pow_le_pow_right (by decide) hk
    unfold INT_MIN INT_MAX at hrange
    omega

/-- A number below `10 ^ k` is printed with `k` digits, and a sign if it is negative. -/
theorem length_decimal_of_lt {v : Int} {k : Nat} (hk : 0 < k) (h : v.natAbs < 10 ^ k) :
    (decimal v).length ≤ k + 1 ∧ (0 ≤ v → (decimal v).length ≤ k) := by
  have hdigits : (Nat.toDigits 10 v.natAbs).length ≤ k :=
    (Nat.length_toDigits_le_iff (by decide) hk).mpr h
  unfold decimal
  split
  · exact ⟨Nat.succ_le_succ hdigits, fun hv => by omega⟩
  · exact ⟨Nat.le_succ_of_le hdigits, fun _ => hdigits⟩

/-! ## Tokens -/

/-- `strtok_r(s, " ", &save)`: the token, if any, and the new `save`. -/
def strtokR (s : CStr) : Option CStr × CStr :=
  let t := s.dropWhile (· == ' ')
  if t = [] then (none, []) else (some (t.takeWhile (· != ' ')), (t.dropWhile (· != ' ')).drop 1)

/-- The `n`-th token of a string, counted from 0. -/
def token : Nat → CStr → Option CStr
  | 0, s => (strtokR s).1
  | n + 1, s => token n (strtokR s).2

/-- A token is not empty. -/
theorem strtokR_ne_nil {s t : CStr} (h : (strtokR s).1 = some t) : t ≠ [] := by
  unfold strtokR at h
  by_cases hs : s.dropWhile (· == ' ') = []
  · simp [hs] at h
  · rcases List.exists_cons_of_ne_nil hs with ⟨c, u, hcu⟩
    have hc : (c == ' ') = false := by
      have hhead := List.head?_dropWhile_not (· == ' ') s
      simpa [hcu] using hhead
    have hc' : (c != ' ') = true := by simpa using hc
    simp only [hcu, List.takeWhile_cons, hc', reduceCtorEq, if_false, if_true,
      Option.some.injEq] at h
    simp [← h]

/-- A token and the rest, with the space between them, come out of the text. -/
theorem length_strtokR {s t : CStr} (h : (strtokR s).1 = some t) :
    t.length ≤ s.length ∧
      ((strtokR s).2 ≠ [] → t.length + 1 + (strtokR s).2.length ≤ s.length) := by
  unfold strtokR at h ⊢
  dsimp only at h ⊢
  have hspace := (List.dropWhile_sublist (· == ' ') (l := s)).length_le
  generalize s.dropWhile (· == ' ') = u at h hspace ⊢
  split at h
  · cases h
  · rename_i hne
    obtain rfl := Option.some.inj h
    -- the token and the rest make up the text behind the leading spaces
    have hlen := congrArg List.length
      (List.takeWhile_append_dropWhile (p := (· != ' ')) (l := u))
    rw [List.length_append] at hlen
    refine ⟨by omega, fun hrest => ?_⟩
    rw [if_neg hne] at hrest ⊢
    have hpos := List.length_pos_iff.mpr hrest
    simp only [List.length_drop] at hpos ⊢
    omega

/-! ## Formatted and line-wise input -/

/-- `%d` of `sscanf`: the number is read as a `long` and stored as an `int`. -/
def scanInt (s : CStr) : Option (Int × CStr) :=
  match splitNumber s with
  | none => none
  | some (neg, m, rest) => some (toInt (clampLong (signed neg m)), rest)

/-- `%d` reads back an `int` that `%d` has printed. -/
theorem scanInt_decimal {v : Int} (h₁ : INT_MIN ≤ v) (h₂ : v ≤ INT_MAX) {rest : CStr}
    (hrest : NoDigit rest) : scanInt (decimal v ++ rest) = some (v, rest) := by
  unfold scanInt
  rw [splitNumber_decimal v hrest]
  simp only [signed_natAbs]
  rw [toInt_clampLong_eq_iff.mpr ⟨h₁, h₂⟩]

/-- `%Ns` of `sscanf` with width `n`. -/
def scanWord (n : Nat) (s : CStr) : Option (CStr × CStr) :=
  let t := s.dropWhile isspace
  let w := (t.takeWhile (fun c => !isspace c)).take n
  if w = [] then none else some (w, t.drop w.length)

/-- `%Ns` converts at least one byte and at most `n`, and no white space. -/
theorem scanWord_some {n : Nat} {s w rest : CStr} (h : scanWord n s = some (w, rest)) :
    w ≠ [] ∧ w.length ≤ n ∧ ∀ c ∈ w, isspace c = false := by
  unfold scanWord at h
  dsimp only at h
  rcases Option.ite_none_left_eq_some.mp h with ⟨hne, h⟩
  rcases Prod.mk.inj (Option.some.inj h) with ⟨rfl, -⟩
  refine ⟨hne, List.length_take_le _ _, fun c hc => ?_⟩
  have hall := List.all_eq_true.mp List.all_takeWhile c (List.mem_of_mem_take hc)
  simpa using hall

/-- Printed again, an `int` that `%d` has read is longer by a sign at most, and not longer at
all if it has none. Behind a text that ends a number, its blank counts too. -/
theorem length_scanInt {s rest : CStr} {v : Int} (h : scanInt s = some (v, rest)) :
    NoDigit rest ∧ (decimal v).length + rest.length ≤ s.length + 1 ∧
      (NoDigit s → 0 ≤ v → 1 + (decimal v).length + rest.length ≤ s.length) := by
  unfold scanInt at h
  split at h
  · cases h
  · rename_i neg m rest' hsplit
    cases h
    rcases splitNumber_some hsplit with ⟨front, ds, rfl, hne, hm, hrest, hfront⟩
    -- the value needs no more digits than were read, and a sign at most
    rcases length_decimal_of_lt (List.length_pos_iff.mpr hne) (natAbs_toInt_lt neg hm)
      with ⟨hany, hnonneg⟩
    refine ⟨hrest, ?_, fun hs hv => ?_⟩
    · simp only [List.length_append]
      omega
    · have hpos := List.length_pos_iff.mpr (hfront hs)
      have hle := hnonneg hv
      simp only [List.length_append]
      omega

/-- A word of `%Ns` that was not cut ends where white space begins. -/
theorem length_scanWord {n : Nat} {s w rest : CStr} (h : scanWord n s = some (w, rest))
    (hn : s.length ≤ n) : NoDigit rest ∧ w.length + rest.length ≤ s.length := by
  unfold scanWord at h
  dsimp only at h
  rcases Option.ite_none_left_eq_some.mp h with ⟨-, h⟩
  rcases Prod.mk.inj (Option.some.inj h) with ⟨rfl, rfl⟩
  have hspace := (List.dropWhile_sublist isspace (l := s)).length_le
  generalize s.dropWhile isspace = t at hspace ⊢
  have hword := (List.takeWhile_sublist (fun c => !isspace c) (l := t)).length_le
  have htake : (t.takeWhile fun c => !isspace c).take n = t.takeWhile fun c => !isspace c :=
    List.take_of_length_le (by omega)
  -- the word ends at white space or with the text, so no digit follows it
  have hsplit := List.takeWhile_append_dropWhile (p := fun c => !isspace c) (l := t)
  have hdrop : t.drop (t.takeWhile fun c => !isspace c).length =
      t.dropWhile fun c => !isspace c := by
    have hleft := @List.drop_left _ (t.takeWhile fun c => !isspace c)
      (t.dropWhile fun c => !isspace c)
    rwa [hsplit] at hleft
  rw [htake, hdrop]
  constructor
  · intro c hc
    have hhead := List.head?_dropWhile_not (fun c => !isspace c) t
    rw [Option.mem_def.mp hc] at hhead
    by_contra hdigit
    have hnot := not_isspace_of_isDigit (Bool.eq_true_of_not_eq_false hdigit)
    simp [hnot] at hhead
  · rw [← List.length_append, hsplit]
    exact hspace

/-- At most `n` bytes of a stream, up to and including a newline. -/
def takeLine : Nat → CStr → CStr × CStr
  | 0, s => ([], s)
  | _ + 1, [] => ([], [])
  | n + 1, c :: s =>
    if c = '\n' then ([c], s) else ((c :: (takeLine n s).1), (takeLine n s).2)

/-- `fgets(buf, size, stream)`: the line read and the rest of the stream. -/
def fgets (size : Nat) (stream : CStr) : Option (CStr × CStr) :=
  if stream = [] then none else some (takeLine (size - 1) stream)

/-! ## Integers in memory -/

inductive ByteOrder where
  | little
  | big
deriving DecidableEq, Repr

/-- The `w` low bytes of a number, the lowest first. -/
def lowBytes : Nat → Nat → List UInt8
  | 0, _ => []
  | w + 1, n => UInt8.ofNat n :: lowBytes w (n / 256)

/-- The number with these bytes, the lowest first. -/
def ofLowBytes : List UInt8 → Nat
  | [] => 0
  | b :: bs => b.toNat + 256 * ofLowBytes bs

/-- The bytes of an unsigned object of `w` bytes. -/
def objectBytes (order : ByteOrder) (w n : Nat) : List UInt8 :=
  match order with
  | .little => lowBytes w n
  | .big => (lowBytes w n).reverse

/-- The value of an unsigned object with these bytes. -/
def objectValue (order : ByteOrder) (bs : List UInt8) : Nat :=
  match order with
  | .little => ofLowBytes bs
  | .big => ofLowBytes bs.reverse

/-- An object has as many bytes as its type is wide. -/
@[simp] theorem length_lowBytes (w n : Nat) : (lowBytes w n).length = w := by
  induction w generalizing n with
  | zero => rfl
  | succ w ih => simp [lowBytes, ih]

@[simp] theorem length_objectBytes (order : ByteOrder) (w n : Nat) :
    (objectBytes order w n).length = w := by
  cases order <;> simp [objectBytes]

/-- The bytes give the number back, cut to the width. -/
theorem ofLowBytes_lowBytes (w n : Nat) : ofLowBytes (lowBytes w n) = n % 256 ^ w := by
  induction w generalizing n with
  | zero => simp [lowBytes, ofLowBytes, Nat.mod_one]
  | succ w ih =>
    rw [lowBytes, ofLowBytes, ih, Nat.pow_succ', Nat.mod_mul]
    simp

/-- The low half of a number is in front in one order, the high half in the other. -/
theorem take_lowBytes {v w : Nat} (h : v ≤ w) (n : Nat) :
    (lowBytes w n).take v = lowBytes v n := by
  induction v generalizing w n with
  | zero => rfl
  | succ v ih =>
    rcases Nat.exists_eq_add_of_le' (Nat.le_trans (Nat.succ_pos v) h) with ⟨w, rfl⟩
    simp only [lowBytes, List.take_succ_cons]
    rw [ih (Nat.le_of_succ_le_succ h)]

/-- The other half holds the high digits. -/
theorem drop_lowBytes (v w n : Nat) :
    (lowBytes (v + w) n).drop v = lowBytes w (n / 256 ^ v) := by
  induction v generalizing n with
  | zero => simp
  | succ v ih =>
    rw [Nat.succ_add, lowBytes, List.drop_succ_cons, ih, Nat.div_div_eq_div_mul, Nat.pow_succ']

end CLib
