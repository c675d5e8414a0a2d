import Aesmsg.Lib.Binary64

/-!
# The text of a number

`Number::toString` of a finite number in base ten, and the number of a JSON literal: the double
nearest to the decimal that it spells.

## Main results

- `readNumber_numberText`: the text of a number is a literal of it.
- `mem_numberText`: the characters of that text.
-/

namespace NumberText

/-- `digits` times a power of ten. -/
structure Decimal where
  digits : ℕ
  exponent : ℤ

def Decimal.value (d : Decimal) : ℚ := d.digits * 10 ^ d.exponent

/-! ## Literals -/

/-- The characters of literals, keywords among them. -/
def isLiteralChar (c : Char) : Bool :=
  c.isDigit ∨ ('a' ≤ c ∧ c ≤ 'z') ∨ ('A' ≤ c ∧ c ≤ 'Z') ∨ c = '+' ∨ c = '-' ∨ c = '.'

/-- Decimal digits, at least one. -/
def readDigits (cs : List Char) : Option ℕ :=
  if cs ≠ [] ∧ cs.all Char.isDigit then some (Nat.ofDigitChars 10 cs 0) else none

/-- The exponent of a literal, up to its end. -/
def readExponent : List Char → Option ℤ
  | [] => some 0
  | c :: cs =>
    if c = 'e' ∨ c = 'E' then
      match cs with
      | '+' :: cs => (readDigits cs).map Nat.cast
      | '-' :: cs => (readDigits cs).map fun n : ℕ ↦ -(n : ℤ)
      | cs => (readDigits cs).map Nat.cast
    else none

/-- A literal without its sign. -/
def readDecimal (cs : List Char) : Option Decimal :=
  let int := cs.takeWhile Char.isDigit
  let rest := cs.dropWhile Char.isDigit
  if int = [] ∨ (int.head? = some '0' ∧ int.length ≠ 1) then none
  else
    match rest with
    | '.' :: rest =>
      let fraction := rest.takeWhile Char.isDigit
      if fraction = [] then none
      else (readExponent (rest.dropWhile Char.isDigit)).map fun exponent ↦
        ⟨Nat.ofDigitChars 10 (int ++ fraction) 0, exponent - fraction.length⟩
    | rest => (readExponent rest).map fun exponent ↦ ⟨Nat.ofDigitChars 10 int 0, exponent⟩

/-- A literal with its sign: none where it is malformed, and an infinity where it is too large. -/
def readNumber : List Char → Option (Option Binary64)
  | '-' :: cs => (readDecimal cs).map fun d ↦ (Binary64.round d.value).map Binary64.neg
  | cs => (readDecimal cs).map fun d ↦ Binary64.round d.value

/-! ## Texts -/

/-- The decimal of `k` digits below a positive number. -/
def below (q : ℚ) (k : ℕ) : Decimal :=
  let exponent := Int.log 10 q + 1 - k
  ⟨⌊q / 10 ^ exponent⌋.toNat, exponent⟩

/-- The next one. -/
def above (q : ℚ) (k : ℕ) : Decimal :=
  let d := below q k
  if d.digits + 1 = 10 ^ k then ⟨1, d.exponent + k⟩ else ⟨d.digits + 1, d.exponent⟩

/-- The decimal is read as the number. -/
def Decimal.reads (d : Decimal) (x : Binary64) : Bool := Binary64.round d.value = some x

/-- The decimal of `k` digits closest to a number among those that are read as it, of two the even
one. -/
def closest (x : Binary64) (k : ℕ) : Option Decimal :=
  let lower := below x.value k
  let upper := above x.value k
  if lower.reads x then
    if upper.reads x then
      if x.value - lower.value < upper.value - x.value then some lower
      else if upper.value - x.value < x.value - lower.value then some upper
      else if lower.digits % 2 = 0 then some lower
      else some upper
    else some lower
  else if upper.reads x then some upper
  else none

/-- The number itself. -/
def exact (x : Binary64) : Decimal := ⟨⌊x.value * 10 ^ 1074⌋.toNat, -1074⟩

/-- The shortest decimal that is read as a positive number.  Seventeen digits are always enough, so
the exact decimal is never taken. -/
def shortest (x : Binary64) : Decimal :=
  ((List.range 17).findSome? fun i ↦ closest x (i + 1)).getD (exact x)

def exponentText (n : ℤ) : List Char :=
  if 0 ≤ n then '+' :: Nat.toDigits 10 n.toNat else '-' :: Nat.toDigits 10 (-n).toNat

/-- The first digit, and the others behind the point. -/
def pointed : List Char → List Char
  | [] => []
  | [c] => [c]
  | c :: cs => c :: '.' :: cs

/-- The layout of the digits, `n` of which stand before the point. -/
def Decimal.text (d : Decimal) : List Char :=
  let ds := Nat.toDigits 10 d.digits
  let n := d.exponent + ds.length
  if ds.length ≤ n ∧ n ≤ 21 then ds ++ List.replicate (n - ds.length).toNat '0'
  else if 0 < n ∧ n ≤ 21 then ds.take n.toNat ++ '.' :: ds.drop n.toNat
  else if -6 < n ∧ n ≤ 0 then '0' :: '.' :: (List.replicate (-n).toNat '0' ++ ds)
  else pointed ds ++ 'e' :: exponentText (n - 1)

def numberText (x : Binary64) : List Char :=
  if x.value = 0 then ['0']
  else if x.value < 0 then '-' :: (shortest x.neg).text
  else (shortest x).text

/-! ## The shortest decimal is read back -/

section Shortest

variable {x : Binary64} {d : Decimal} {k : ℕ}

theorem reads_closest (h : closest x k = some d) : d.reads x = true := by
  unfold closest at h
  dsimp only at h
  split_ifs at h with hlower hupper hcloser hfarther heven hupper <;> cases h <;> assumption

/-- A power of two times a power of ten is an integer. -/
theorem mul_ten_pow {m e : ℤ} {n k : ℕ} (h : e + n = k) :
    (m * 2 ^ e : ℚ) * 10 ^ n = ((m * 2 ^ k * 5 ^ n : ℤ) : ℚ) := by
  have htwo : (2 : ℚ) ^ k = 2 ^ n * 2 ^ e := by
    rw [← Binary64.two_zpow_add, h, zpow_natCast]
  have hten : (10 : ℚ) ^ n = 2 ^ n * 5 ^ n := by
    rw [← mul_pow]
    norm_num
  push_cast
  rw [htwo, hten]
  ring

theorem exact_value (hx : 0 < x.value) : (exact x).value = x.value := by
  obtain ⟨m, e, -, he, -, hvalue⟩ := x.representable
  obtain ⟨k, hk⟩ := Int.eq_ofNat_of_zero_le (show 0 ≤ e + (1074 : ℕ) by omega)
  have hint := mul_ten_pow (m := m) hk
  rw [← hvalue] at hint
  have hpow : (0 : ℚ) < 10 ^ 1074 := by positivity
  have hnonneg : 0 ≤ m * 2 ^ k * 5 ^ 1074 := by
    have hcast : (0 : ℚ) ≤ ((m * 2 ^ k * 5 ^ 1074 : ℤ) : ℚ) := hint ▸ (mul_pos hx hpow).le
    exact_mod_cast hcast
  have hdigits : ((⌊x.value * 10 ^ 1074⌋.toNat : ℕ) : ℚ) = x.value * 10 ^ 1074 := by
    rw [hint, Int.floor_intCast, ← Int.cast_natCast, Int.toNat_of_nonneg hnonneg]
  unfold exact Decimal.value
  rw [hdigits, zpow_neg, show (1074 : ℤ) = ((1074 : ℕ) : ℤ) from rfl, zpow_natCast,
    mul_inv_cancel_right₀ hpow.ne']

theorem round_shortest (hx : 0 < x.value) : Binary64.round (shortest x).value = some x := by
  unfold shortest
  cases hfind : (List.range 17).findSome? fun i ↦ closest x (i + 1) with
  | none =>
    rw [Option.getD_none, exact_value hx, Binary64.round_value]
  | some d =>
    obtain ⟨i, -, hclosest⟩ := List.exists_of_findSome?_eq_some hfind
    exact of_decide_eq_true (reads_closest hclosest)

end Shortest

/-! ## Texts are literals -/

section Texts

variable {n k : ℕ} {cs ds rest : List Char} {e : ℤ}

theorem all_digits (n : ℕ) : ∀ c ∈ Nat.toDigits 10 n, c.isDigit = true :=
  fun _ hc ↦ Nat.isDigit_of_mem_toDigits (by decide) (by decide) hc

theorem all_zeros (n : ℕ) : ∀ c ∈ List.replicate n '0', c.isDigit = true := by
  intro c hc
  rw [List.eq_of_mem_replicate hc]
  rfl

/-- A positive number has no leading zero. -/
theorem head_toDigits (hn : 0 < n) : (Nat.toDigits 10 n).head? ≠ some '0' := by
  induction n using Nat.strong_induction_on with
  | _ n ih =>
    rw [Nat.toDigits_eq_if (by decide)]
    split
    · simpa using hn.ne'
    · rename_i hlarge
      rw [List.head?_append_of_ne_nil _ Nat.toDigits_ne_nil]
      exact ih (n / 10) (by omega) (by omega)

theorem takeWhile_digits (hds : ∀ c ∈ ds, c.isDigit = true)
    (hrest : ∀ c ∈ rest.head?, c.isDigit = false) :
    (ds ++ rest).takeWhile Char.isDigit = ds ∧ (ds ++ rest).dropWhile Char.isDigit = rest := by
  rw [List.takeWhile_append_of_pos hds, List.dropWhile_append_of_pos hds]
  cases rest with
  | nil => exact ⟨List.append_nil ds, rfl⟩
  | cons c rest =>
    have hc : ¬c.isDigit = true := by
      rw [hrest c rfl]
      decide
    rw [List.takeWhile_cons_of_neg hc, List.dropWhile_cons_of_neg hc]
    exact ⟨List.append_nil ds, rfl⟩

theorem readDigits_toDigits (n : ℕ) : readDigits (Nat.toDigits 10 n) = some n := by
  unfold readDigits
  rw [if_pos ⟨Nat.toDigits_ne_nil, List.all_eq_true.mpr (all_digits n)⟩,
    Nat.ofDigitChars_ten_toDigits]

theorem readExponent_exponentText (n : ℤ) : readExponent ('e' :: exponentText n) = some n := by
  unfold exponentText
  split
  · rename_i hn
    simp only [readExponent, readDigits_toDigits, Option.map_some, true_or, if_true,
      Option.some.injEq]
    omega
  · rename_i hn
    simp only [readExponent, readDigits_toDigits, Option.map_some, true_or, if_true,
      Option.some.injEq]
    omega

/-- Digits without a fraction. -/
theorem readDecimal_integer (hne : ds ≠ []) (hds : ∀ c ∈ ds, c.isDigit = true)
    (hzero : ds.head? ≠ some '0' ∨ ds.length = 1)
    (hrest : ∀ c ∈ rest.head?, c.isDigit = false ∧ c ≠ '.') :
    readDecimal (ds ++ rest) =
      (readExponent rest).map fun exponent ↦ ⟨Nat.ofDigitChars 10 ds 0, exponent⟩ := by
  obtain ⟨htake, hdrop⟩ := takeWhile_digits hds fun c hc ↦ (hrest c hc).1
  have hvalid : ¬(ds = [] ∨ ds.head? = some '0' ∧ ds.length ≠ 1) := by tauto
  unfold readDecimal
  dsimp only
  rw [htake, hdrop, if_neg hvalid]
  split
  · exact absurd rfl (hrest '.' rfl).2
  · rfl

/-- Digits with a fraction. -/
theorem readDecimal_fraction {fraction : List Char} (hne : ds ≠ [])
    (hds : ∀ c ∈ ds, c.isDigit = true) (hzero : ds.head? ≠ some '0' ∨ ds.length = 1)
    (hfraction : fraction ≠ [])
    (hdigits : ∀ c ∈ fraction, c.isDigit = true) (hrest : ∀ c ∈ rest.head?, c.isDigit = false) :
    readDecimal (ds ++ '.' :: (fraction ++ rest)) = (readExponent rest).map fun exponent ↦
      ⟨Nat.ofDigitChars 10 (ds ++ fraction) 0, exponent - fraction.length⟩ := by
  have hpoint : ∀ c ∈ ('.' :: (fraction ++ rest)).head?, c.isDigit = false := by
    intro c hc
    cases hc
    rfl
  obtain ⟨htake, hdrop⟩ := takeWhile_digits hds hpoint
  obtain ⟨htake', hdrop'⟩ := takeWhile_digits hdigits hrest
  have hvalid : ¬(ds = [] ∨ ds.head? = some '0' ∧ ds.length ≠ 1) := by tauto
  unfold readDecimal
  dsimp only
  rw [htake, hdrop, if_neg hvalid]
  split
  · rename_i heq
    cases heq
    rw [htake', hdrop', if_neg hfraction]
  · rename_i hpoint
    exact absurd rfl (hpoint _)

theorem head?_append_ne (hne : ds ≠ []) (hhead : ds.head? ≠ some '0') (rest : List Char) :
    (ds ++ rest).head? ≠ some '0' := by
  rw [List.head?_append_of_ne_nil _ hne]
  exact hhead

theorem forall_append_digits (hds : ∀ c ∈ ds, c.isDigit = true) (hcs : ∀ c ∈ cs, c.isDigit = true) :
    ∀ c ∈ ds ++ cs, c.isDigit = true :=
  fun c hc ↦ (List.mem_append.mp hc).elim (hds c) (hcs c)

/-! One lemma for each layout of the digits. -/

theorem readDecimal_zeros (hne : ds ≠ []) (hds : ∀ c ∈ ds, c.isDigit = true)
    (hhead : ds.head? ≠ some '0') (j : ℕ) :
    readDecimal (ds ++ List.replicate j '0') = some ⟨10 ^ j * Nat.ofDigitChars 10 ds 0, 0⟩ := by
  have hread : readDecimal (ds ++ List.replicate j '0' ++ []) = _ :=
    readDecimal_integer (List.append_ne_nil_of_left_ne_nil hne _)
      (forall_append_digits hds (all_zeros j)) (.inl (head?_append_ne hne hhead _))
      (fun c hc ↦ nomatch hc)
  rw [List.append_nil, Nat.ofDigitChars_append, Nat.ofDigitChars_replicate_zero] at hread
  exact hread

theorem readDecimal_split (hds : ∀ c ∈ ds, c.isDigit = true) (hhead : ds.head? ≠ some '0')
    (hn : 0 < n) (hlt : n < ds.length) : readDecimal (ds.take n ++ '.' :: ds.drop n) =
      some ⟨Nat.ofDigitChars 10 ds 0, 0 - (ds.drop n).length⟩ := by
  have htake : ds.take n ≠ [] := by
    rw [← List.length_pos_iff, List.length_take]
    omega
  have hdrop : ds.drop n ≠ [] := by
    rw [← List.length_pos_iff, List.length_drop]
    omega
  have hfirst : (ds.take n).head? ≠ some '0' := by
    have happend : (ds.take n ++ ds.drop n).head? = (ds.take n).head? :=
      List.head?_append_of_ne_nil _ htake
    rw [← happend, List.take_append_drop]
    exact hhead
  have hread : readDecimal (ds.take n ++ '.' :: (ds.drop n ++ [])) = _ :=
    readDecimal_fraction htake (fun c hc ↦ hds c (List.mem_of_mem_take hc)) (.inl hfirst) hdrop
      (fun c hc ↦ hds c (List.mem_of_mem_drop hc)) (fun c hc ↦ nomatch hc)
  rw [List.append_nil, List.take_append_drop] at hread
  exact hread

theorem readDecimal_small (hne : ds ≠ []) (hds : ∀ c ∈ ds, c.isDigit = true) (j : ℕ) :
    readDecimal ('0' :: '.' :: (List.replicate j '0' ++ ds)) =
      some ⟨Nat.ofDigitChars 10 ds 0, 0 - (List.replicate j '0' ++ ds).length⟩ := by
  have hread : readDecimal (['0'] ++ '.' :: (List.replicate j '0' ++ ds ++ [])) = _ :=
    readDecimal_fraction (List.cons_ne_nil _ _) (all_zeros 1) (.inr rfl)
      (List.append_ne_nil_of_right_ne_nil _ hne) (forall_append_digits (all_zeros j) hds)
      (fun c hc ↦ nomatch hc)
  have hzeros : Nat.ofDigitChars 10 (['0'] ++ (List.replicate j '0' ++ ds)) 0 =
      Nat.ofDigitChars 10 ds 0 := by
    rw [Nat.ofDigitChars_append, Nat.ofDigitChars_append,
      show Nat.ofDigitChars 10 ['0'] 0 = 0 from rfl, Nat.ofDigitChars_replicate_zero, Nat.mul_zero]
  rw [List.append_nil, hzeros] at hread
  exact hread

theorem readDecimal_pointed (hne : ds ≠ []) (hds : ∀ c ∈ ds, c.isDigit = true) (e : ℤ) :
    readDecimal (pointed ds ++ 'e' :: exponentText e) =
      some ⟨Nat.ofDigitChars 10 ds 0, e - (ds.length - 1 : ℕ)⟩ := by
  have hletter : ∀ c ∈ ('e' :: exponentText e).head?, c.isDigit = false ∧ c ≠ '.' := by
    intro c hc
    cases hc
    decide
  cases ds with
  | nil => exact absurd rfl hne
  | cons c cs =>
    cases cs with
    | nil =>
      have hread := readDecimal_integer (List.cons_ne_nil c []) hds (.inr rfl) hletter
      rw [readExponent_exponentText] at hread
      rw [List.length_singleton, Nat.sub_self, Nat.cast_zero, sub_zero]
      exact hread
    | cons c' cs =>
      have hfirst : ∀ a ∈ [c], a.isDigit = true := by
        intro a ha
        rw [List.mem_singleton.mp ha]
        exact hds c List.mem_cons_self
      have hread := readDecimal_fraction (List.cons_ne_nil c []) hfirst (.inr rfl)
        (List.cons_ne_nil c' cs) (fun a ha ↦ hds a (List.mem_cons_of_mem _ ha))
        (fun a ha ↦ (hletter a ha).1)
      rw [readExponent_exponentText] at hread
      exact hread

theorem readDecimal_text {d : Decimal} (hd : 0 < d.digits) :
    ∃ d', readDecimal d.text = some d' ∧ d'.value = d.value := by
  obtain ⟨s, exponent⟩ := d
  have hds := all_digits s
  have hhead := head_toDigits hd
  have hne : Nat.toDigits 10 s ≠ [] := Nat.toDigits_ne_nil
  have hvalue : Nat.ofDigitChars 10 (Nat.toDigits 10 s) 0 = s := Nat.ofDigitChars_ten_toDigits
  have hlength := List.length_pos_iff.mpr hne
  unfold Decimal.text
  dsimp only
  split_ifs with hinteger hpoint hsmall
  · refine ⟨_, readDecimal_zeros hne hds hhead _, ?_⟩
    obtain ⟨j, hj⟩ := Int.eq_ofNat_of_zero_le (show 0 ≤ exponent by omega)
    have htoNat :
        (exponent + (Nat.toDigits 10 s).length - (Nat.toDigits 10 s).length).toNat = j := by
      omega
    rw [htoNat, hj]
    unfold Decimal.value
    rw [hvalue, zpow_zero, mul_one, zpow_natCast, Nat.cast_mul, Nat.cast_pow, Nat.cast_ofNat,
      mul_comm]
  · refine ⟨_, readDecimal_split hds hhead (by omega) (by omega), ?_⟩
    unfold Decimal.value
    rw [hvalue, List.length_drop]
    dsimp only
    congr 2
    omega
  · refine ⟨_, readDecimal_small hne hds _, ?_⟩
    unfold Decimal.value
    rw [hvalue, List.length_append, List.length_replicate]
    dsimp only
    congr 2
    omega
  · refine ⟨_, readDecimal_pointed hne hds _, ?_⟩
    unfold Decimal.value
    rw [hvalue]
    dsimp only
    congr 2
    omega

/-- A decimal that is read as a positive number has digits. -/
theorem digits_pos_of_round {x : Binary64} {d : Decimal} (hx : 0 < x.value)
    (h : Binary64.round d.value = some x) : 0 < d.digits := by
  refine Nat.pos_of_ne_zero fun hzero ↦ ?_
  have hvalue : d.value =
      (⟨0, 0, 0, by norm_num, by norm_num, by norm_num, by norm_num⟩ : Binary64).value := by
    unfold Decimal.value
    rw [hzero, Nat.cast_zero, zero_mul]
  rw [hvalue, Binary64.round_value] at h
  obtain rfl := Option.some.inj h
  exact lt_irrefl 0 hx

theorem readDecimal_shortest {x : Binary64} (hx : 0 < x.value) :
    ∃ d, readDecimal (shortest x).text = some d ∧ Binary64.round d.value = some x := by
  have hround := round_shortest hx
  obtain ⟨d, hread, hvalue⟩ := readDecimal_text (digits_pos_of_round hx hround)
  exact ⟨d, hread, hvalue ▸ hround⟩

/-- A decimal has no sign. -/
theorem readNumber_of_readDecimal {d : Decimal} (h : readDecimal cs = some d) :
    readNumber cs = some (Binary64.round d.value) := by
  unfold readNumber
  split
  · cases h
  · rw [h]
    rfl

theorem readNumber_numberText (x : Binary64) : readNumber (numberText x) = some (some x) := by
  rcases lt_trichotomy x.value 0 with hneg | hzero | hpos
  · obtain ⟨d, hread, hvalue⟩ := readDecimal_shortest (x := x.neg) (neg_pos.mpr hneg)
    unfold numberText
    rw [if_neg hneg.ne, if_pos hneg]
    change (readDecimal (shortest x.neg).text).map _ = _
    rw [hread, Option.map_some, hvalue, Option.map_some, Binary64.neg_neg]
  · have hround : Binary64.round (Decimal.value ⟨0, 0⟩) = some x := by
      have hdecimal : Decimal.value ⟨0, 0⟩ = x.value := by
        unfold Decimal.value
        rw [hzero, Nat.cast_zero, zero_mul]
      rw [hdecimal, Binary64.round_value]
    unfold numberText
    rw [if_pos hzero]
    exact congrArg some hround
  · obtain ⟨d, hread, hround⟩ := readDecimal_shortest hpos
    unfold numberText
    rw [if_neg hpos.ne', if_neg hpos.not_gt, readNumber_of_readDecimal hread, hround]

/-! The characters of a text. -/

theorem isLiteralChar_of_isDigit {c : Char} (h : c.isDigit = true) : isLiteralChar c = true :=
  decide_eq_true (.inl h)

theorem isLiteralChar_of_mem_toDigits {c : Char} (h : c ∈ Nat.toDigits 10 n) :
    isLiteralChar c = true := isLiteralChar_of_isDigit (all_digits n c h)

theorem mem_exponentText {c : Char} (h : c ∈ exponentText e) : isLiteralChar c = true := by
  unfold exponentText at h
  split at h
  · rcases List.mem_cons.mp h with rfl | h
    · rfl
    · exact isLiteralChar_of_mem_toDigits h
  · rcases List.mem_cons.mp h with rfl | h
    · rfl
    · exact isLiteralChar_of_mem_toDigits h

theorem mem_pointed {c : Char} (h : c ∈ pointed ds) : c ∈ ds ∨ c = '.' := by
  unfold pointed at h
  split at h
  · exact .inl h
  · exact .inl h
  · grind

theorem mem_text {d : Decimal} {c : Char} (h : c ∈ d.text) : isLiteralChar c = true := by
  have hzeros : ∀ k, c ∈ List.replicate k '0' → isLiteralChar c = true :=
    fun k hc ↦ isLiteralChar_of_isDigit (all_zeros k c hc)
  have hdigits : c ∈ Nat.toDigits 10 d.digits → isLiteralChar c = true :=
    isLiteralChar_of_mem_toDigits
  unfold Decimal.text at h
  dsimp only at h
  split_ifs at h
  · exact (List.mem_append.mp h).elim hdigits (hzeros _)
  · rcases List.mem_append.mp h with h | h
    · exact hdigits (List.mem_of_mem_take h)
    · rcases List.mem_cons.mp h with rfl | h
      · rfl
      · exact hdigits (List.mem_of_mem_drop h)
  · rw [List.mem_cons, List.mem_cons, List.mem_append] at h
    rcases h with rfl | rfl | h | h
    · rfl
    · rfl
    · exact hzeros _ h
    · exact hdigits h
  · rw [List.mem_append, List.mem_cons] at h
    rcases h with h | rfl | h
    · rcases mem_pointed h with h | rfl
      · exact hdigits h
      · rfl
    · rfl
    · exact mem_exponentText h

theorem mem_numberText {x : Binary64} {c : Char} (h : c ∈ numberText x) :
    isLiteralChar c = true := by
  unfold numberText at h
  split_ifs at h
  · rw [List.mem_singleton.mp h]
    rfl
  · rcases List.mem_cons.mp h with rfl | h
    · rfl
    · exact mem_text h
  · exact mem_text h

/-- A number has a text. -/
theorem numberText_ne_nil (x : Binary64) : numberText x ≠ [] := by
  intro hnil
  have hread := readNumber_numberText x
  rw [hnil] at hread
  cases hread

theorem isLiteralChar_lt {c : Char} (h : isLiteralChar c = true) : c.toNat < 2 ^ 16 := by
  rcases of_decide_eq_true h with h | h | h | rfl | rfl | rfl
  · exact lt_of_le_of_lt (Char.isDigit_iff_toNat.mp h).2 (by decide)
  · exact lt_of_le_of_lt (UInt32.le_iff_toNat_le.mp h.2) (by decide)
  · exact lt_of_le_of_lt (UInt32.le_iff_toNat_le.mp h.2) (by decide)
  · decide
  · decide
  · decide

end Texts

end NumberText
