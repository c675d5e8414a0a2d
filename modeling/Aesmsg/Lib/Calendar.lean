import Mathlib.Algebra.BigOperators.Group.List.Basic
import Mathlib.Tactic.Ring

/-!
# Date and time strings

The conversion between time values, in milliseconds since 1970, and the date time string format of
ECMAScript, in UTC: `toISOString` writes a time value, `parseISO` reads a string of that form.

## Main results

- `parseISO_toISOString`: every time value that a date can have is read back as it was written.
-/

namespace Calendar

/-! ## Days and years -/

/-- `DayFromYear(y)`, the number of the first day of the year. -/
def dayFromYear (y : Int) : Int :=
  365 * (y - 1970) + (y - 1969) / 4 - (y - 1901) / 100 + (y - 1601) / 400

def isLeap (y : Int) : Bool := dayFromYear (y + 1) - dayFromYear y = 366

/-- The year of a day: the estimate from the mean length of a year, off by at most one. -/
def yearOfDay (day : Int) : Int :=
  let y := 1970 + 400 * day / 146097
  if day < dayFromYear y then y - 1 else if dayFromYear (y + 1) ≤ day then y + 1 else y

theorem dayFromYear_yearOfDay (day : Int) :
    dayFromYear (yearOfDay day) ≤ day ∧ day < dayFromYear (yearOfDay day + 1) := by
  unfold yearOfDay
  dsimp only
  split
  · rename_i h
    rw [Int.sub_add_cancel]
    refine ⟨?_, h⟩
    unfold dayFromYear
    omega
  · rename_i h
    split
    · rename_i h'
      refine ⟨h', ?_⟩
      unfold dayFromYear
      omega
    · rename_i h'
      exact ⟨Int.not_lt.mp h, Int.not_le.mp h'⟩

/-- A year has 365 days, or 366. -/
theorem dayFromYear_succ (y : Int) : dayFromYear (y + 1) = dayFromYear y + if isLeap y then 366 else 365 := by
  unfold isLeap
  by_cases h : dayFromYear (y + 1) - dayFromYear y = 366
  · rw [decide_eq_true h, if_pos rfl]
    omega
  · rw [decide_eq_false h, if_neg (by decide)]
    unfold dayFromYear at *
    omega

/-! ## Days and months -/

def monthLengths (leap : Bool) : List Nat :=
  [31, if leap then 29 else 28, 31, 30, 31, 30, 31, 31, 30, 31, 30, 31]

/-- The month that day `n` of a year falls into, and its day in the month, both from zero. -/
def splitMonth : List Nat → Nat → Nat × Nat
  | [], n => (0, n)
  | length :: rest, n =>
    if n < length then (0, n)
    else
      let (month, day) := splitMonth rest (n - length)
      (month + 1, day)

theorem sum_take_splitMonth (lengths : List Nat) (n : Nat) :
    (lengths.take (splitMonth lengths n).1).sum + (splitMonth lengths n).2 = n := by
  induction lengths generalizing n with
  | nil => exact Nat.zero_add n
  | cons length rest ih =>
    unfold splitMonth
    split
    · exact Nat.zero_add n
    · rename_i h
      have hrest := ih (n - length)
      dsimp only
      rw [List.take_succ_cons, List.sum_cons]
      omega

/-- A day of the year falls into a month, on one of its days. -/
theorem splitMonth_lt (lengths : List Nat) {n : Nat} (h : n < lengths.sum) :
    ∃ length, lengths[(splitMonth lengths n).1]? = some length ∧ (splitMonth lengths n).2 < length := by
  induction lengths generalizing n with
  | nil => cases h
  | cons length rest ih =>
    unfold splitMonth
    split
    · rename_i hn
      exact ⟨length, rfl, hn⟩
    · rename_i hn
      rw [List.sum_cons] at h
      exact ih (n := n - length) (by omega)

/-! ## Decimal digits -/

def digitChar (d : Nat) : Char := Char.ofNat (48 + d)

def digit? (c : Char) : Option Nat :=
  if 48 ≤ c.toNat ∧ c.toNat ≤ 57 then some (c.toNat - 48) else none

theorem digit?_digitChar : ∀ d < 10, digit? (digitChar d) = some d := by
  decide

/-- The last `width` digits of `n`. -/
def pad : Nat → Nat → List Char
  | 0, _ => []
  | width + 1, n => digitChar (n / 10 ^ width % 10) :: pad width n

/-- Reads `width` digits after those that make `acc`. -/
def readDigits : Nat → Nat → List Char → Option (Nat × List Char)
  | 0, acc, s => some (acc, s)
  | _ + 1, _, [] => none
  | width + 1, acc, c :: s =>
    match digit? c with
    | none => none
    | some d => readDigits width (10 * acc + d) s

theorem readDigits_pad (width acc n : Nat) (rest : List Char) :
    readDigits width acc (pad width n ++ rest) = some (10 ^ width * acc + n % 10 ^ width, rest) := by
  induction width generalizing acc with
  | zero => simp [readDigits, pad, Nat.mod_one]
  | succ width ih =>
    have hd := digit?_digitChar (n / 10 ^ width % 10) (Nat.mod_lt _ (by decide))
    rw [pad, List.cons_append]
    simp only [readDigits, hd, ih]
    rw [Nat.mod_pow_succ, Nat.pow_succ]
    congr 2
    ring

theorem readDigits_of_lt (width : Nat) {n : Nat} (h : n < 10 ^ width) (rest : List Char) :
    readDigits width 0 (pad width n ++ rest) = some (n, rest) := by
  rw [readDigits_pad, Nat.mul_zero, Nat.zero_add, Nat.mod_eq_of_lt h]

/-- Reads `sep` and then `width` digits. -/
def readField (sep : Char) (width : Nat) : List Char → Option (Nat × List Char)
  | [] => none
  | c :: s => if c = sep then readDigits width 0 s else none

/-- A field that is written is read, and what follows goes on from there. -/
theorem readField_pad {α : Type} {sep : Char} {width n : Nat} (h : n < 10 ^ width) (rest : List Char)
    (next : Nat × List Char → Option α) :
    (readField sep width (sep :: pad width n ++ rest)).bind next = next (n, rest) := by
  rw [List.cons_append, readField, if_pos rfl, readDigits_of_lt _ h, Option.bind_some]

/-! ## Time values -/

def msPerDay : Int := 86400000

/-- A date and a time of the day, in UTC.  The month and the day are counted from zero. -/
structure DateTime where
  year : Int
  month : Nat
  day : Nat
  ms : Nat
deriving DecidableEq

/-- The fields of a time value. -/
def split (t : Int) : DateTime :=
  let day := t / msPerDay
  let year := yearOfDay day
  let (month, dayInMonth) := splitMonth (monthLengths (isLeap year)) (day - dayFromYear year).toNat
  ⟨year, month, dayInMonth, (t % msPerDay).toNat⟩

def DateTime.time (d : DateTime) : Int :=
  (dayFromYear d.year + ((monthLengths (isLeap d.year)).take d.month).sum + d.day) * msPerDay + d.ms

theorem time_split (t : Int) : (split t).time = t := by
  obtain ⟨hle, -⟩ := dayFromYear_yearOfDay (t / msPerDay)
  have hmonth := sum_take_splitMonth (monthLengths (isLeap (yearOfDay (t / msPerDay))))
    (t / msPerDay - dayFromYear (yearOfDay (t / msPerDay))).toNat
  have hms : 0 ≤ t % msPerDay := Int.emod_nonneg t (by decide)
  have hdiv := Int.mul_ediv_add_emod t msPerDay
  simp only [split, DateTime.time]
  generalize splitMonth _ _ = m at hmonth ⊢
  unfold msPerDay at *
  omega

/-- The largest magnitude of a time value. -/
def maxTime : Int := 8640000000000000

/-- The fields of a time value are those of a date. -/
structure DateTime.Valid (d : DateTime) : Prop where
  month : d.month < 12
  day : d.day < 31
  inMonth : ∃ length, (monthLengths (isLeap d.year))[d.month]? = some length ∧ d.day < length
  ms : d.ms < 86400000

theorem sum_monthLengths (leap : Bool) :
    ((monthLengths leap).sum : Int) = if leap then 366 else 365 := by
  cases leap with
  | false => rfl
  | true => rfl

theorem valid_split (t : Int) : (split t).Valid := by
  obtain ⟨hle, hlt⟩ := dayFromYear_yearOfDay (t / msPerDay)
  have hsum := sum_monthLengths (isLeap (yearOfDay (t / msPerDay)))
  rw [dayFromYear_succ] at hlt
  obtain ⟨length, hlen, hday⟩ := splitMonth_lt (monthLengths (isLeap (yearOfDay (t / msPerDay))))
    (n := (t / msPerDay - dayFromYear (yearOfDay (t / msPerDay))).toNat) (by omega)
  have hmonth := (List.getElem?_eq_some_iff.mp hlen).1
  have hshort : ∀ leap, ∀ l ∈ monthLengths leap, l ≤ 31 := by decide
  refine ⟨hmonth, Nat.lt_of_lt_of_le hday (hshort _ _ (List.mem_of_getElem? hlen)),
    ⟨length, hlen, hday⟩, ?_⟩
  have hms : t % msPerDay < msPerDay := Int.emod_lt_of_pos t (by decide)
  change (t % msPerDay).toNat < 86400000
  unfold msPerDay at *
  omega

/-- The years of the time values that a date can have fit in six digits. -/
theorem natAbs_year_split {t : Int} (h : -maxTime ≤ t ∧ t ≤ maxTime) :
    (split t).year.natAbs < 10 ^ 6 := by
  obtain ⟨hle, hlt⟩ := dayFromYear_yearOfDay (t / msPerDay)
  change (yearOfDay (t / msPerDay)).natAbs < 1000000
  generalize yearOfDay (t / msPerDay) = y at hle hlt ⊢
  unfold dayFromYear at hle hlt
  unfold maxTime at h
  unfold msPerDay at hle hlt
  omega

/-! ## The format -/

/-- Four digits, or a sign and six. -/
def yearText (year : Int) : List Char :=
  if 0 ≤ year ∧ year ≤ 9999 then pad 4 year.toNat
  else (if year < 0 then '-' else '+') :: pad 6 year.natAbs

def isoText (t : Int) : List Char :=
  let d := split t
  yearText d.year ++ ('-' :: pad 2 (d.month + 1) ++ ('-' :: pad 2 (d.day + 1) ++
    ('T' :: pad 2 (d.ms / 3600000) ++ (':' :: pad 2 (d.ms / 60000 % 60) ++
      (':' :: pad 2 (d.ms / 1000 % 60) ++ ('.' :: pad 3 (d.ms % 1000) ++ ['Z']))))))

/-- `date.toISOString()`, of a valid date. -/
def toISOString (t : Int) : String := String.ofList (isoText t)

theorem length_pad (width n : Nat) : (pad width n).length = width := by
  induction width with
  | zero => rfl
  | succ width ih => exact congrArg (· + 1) ih

/-- The form has 24 characters, or 27 with a signed year. -/
theorem length_toISOString_le (t : Int) : (toISOString t).length ≤ 27 := by
  have hyear : ∀ year, (yearText year).length ≤ 7 := by
    intro year
    unfold yearText
    split
    · rw [length_pad]
      decide
    · rw [List.length_cons, length_pad]
  have := hyear (split t).year
  simp only [toISOString, String.length_ofList, isoText, List.length_append, List.length_cons,
    List.length_nil, length_pad]
  omega

def readYear : List Char → Option (Int × List Char)
  | [] => none
  | c :: s =>
    if c = '+' then (readDigits 6 0 s).map fun r ↦ ((r.1 : Int), r.2)
    else if c = '-' then
      ((readDigits 6 0 s).filter fun r ↦ r.1 ≠ 0).map fun r ↦ (-(r.1 : Int), r.2)
    else (readDigits 4 0 (c :: s)).map fun r ↦ ((r.1 : Int), r.2)

theorem readYear_yearText {year : Int} (h : year.natAbs < 10 ^ 6) (rest : List Char) :
    readYear (yearText year ++ rest) = some (year, rest) := by
  unfold yearText
  split
  · rename_i hy
    have hsign : ∀ d < 10, digitChar d ≠ '+' ∧ digitChar d ≠ '-' := by decide
    obtain ⟨hplus, hminus⟩ := hsign (year.toNat / 10 ^ 3 % 10) (Nat.mod_lt _ (by decide))
    have hdigits := readDigits_of_lt 4 (n := year.toNat) (by omega) rest
    rw [pad, List.cons_append] at hdigits ⊢
    rw [readYear, if_neg hplus, if_neg hminus, hdigits, Option.map_some, Int.toNat_of_nonneg hy.1]
  · rename_i hy
    have hdigits := readDigits_of_lt _ h rest
    rw [List.cons_append]
    split
    · rename_i hneg
      have hne : year.natAbs ≠ 0 := by omega
      have habs : -(year.natAbs : Int) = year := by omega
      rw [readYear, if_neg (by decide), if_pos rfl, hdigits, Option.filter_some,
        if_pos (decide_eq_true hne), Option.map_some, habs]
    · rename_i hneg
      have habs : (year.natAbs : Int) = year := by omega
      rw [readYear, if_pos rfl, hdigits, Option.map_some, habs]

/-- Whether the parts of a date time string are those of a date. -/
def inRange (year : Int) (month day hour minute second : Nat) : Bool :=
  1 ≤ month ∧ 1 ≤ day ∧
    ((monthLengths (isLeap year))[month - 1]?).any (day ≤ ·) ∧ hour < 24 ∧ minute < 60 ∧ second < 60

/-- The time value of a string in the form that `toISOString` writes. -/
def parseText (s : List Char) : Option Int := do
  let (year, s) ← readYear s
  let (month, s) ← readField '-' 2 s
  let (day, s) ← readField '-' 2 s
  let (hour, s) ← readField 'T' 2 s
  let (minute, s) ← readField ':' 2 s
  let (second, s) ← readField ':' 2 s
  let (ms, s) ← readField '.' 3 s
  if s = ['Z'] ∧ inRange year month day hour minute second then
    let t := DateTime.time ⟨year, month - 1, day - 1,
      hour * 3600000 + minute * 60000 + second * 1000 + ms⟩
    if -maxTime ≤ t ∧ t ≤ maxTime then some t else none
  else none

def parseISO (s : String) : Option Int := parseText s.toList

theorem parseText_isoText {t : Int} (h : -maxTime ≤ t ∧ t ≤ maxTime) :
    parseText (isoText t) = some t := by
  have hv := valid_split t
  have htime := time_split t
  have hyear := natAbs_year_split h
  obtain ⟨length, hlen, hday⟩ := hv.inMonth
  have hmonth := hv.month
  have hday31 := hv.day
  have hms := hv.ms
  unfold isoText parseText
  dsimp only
  generalize split t = d at *
  have hrange : inRange d.year (d.month + 1) (d.day + 1) (d.ms / 3600000) (d.ms / 60000 % 60)
      (d.ms / 1000 % 60) = true := by
    unfold inRange
    rw [decide_eq_true_eq, Nat.add_sub_cancel, hlen, Option.any_some, decide_eq_true_eq]
    omega
  have hparts : d.ms / 3600000 * 3600000 + d.ms / 60000 % 60 * 60000 + d.ms / 1000 % 60 * 1000 +
      d.ms % 1000 = d.ms := by
    omega
  simp only [Option.bind_eq_bind, readYear_yearText hyear, Option.bind_some]
  rw [readField_pad (by omega), readField_pad (by omega), readField_pad (by omega),
    readField_pad (by omega), readField_pad (by omega), readField_pad (by omega)]
  rw [if_pos ⟨rfl, hrange⟩, Nat.add_sub_cancel, Nat.add_sub_cancel, hparts]
  rw [htime, if_pos h]

/-- A time value is read back as it was written. -/
theorem parseISO_toISOString {t : Int} (h : -maxTime ≤ t ∧ t ≤ maxTime) :
    parseISO (toISOString t) = some t := by
  unfold parseISO toISOString
  rw [String.toList_ofList]
  exact parseText_isoText h

/-- A valid date. -/
structure Date where
  time : Int
  valid : -maxTime ≤ time ∧ time ≤ maxTime

/-- A valid date is read back as it was written. -/
theorem Date.parseISO_toISOString (d : Date) : parseISO (Calendar.toISOString d.time) = some d.time :=
  Calendar.parseISO_toISOString d.valid

example : toISOString 1767225599999 = "2025-12-31T23:59:59.999Z" := by decide

end Calendar
