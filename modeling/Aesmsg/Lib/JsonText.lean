import Aesmsg.Lib.NumberText

/-!
# JSON texts

`JSON.stringify` and `JSON.parse`, on strings as lists of UTF-16 code units.  The parser reads unit
by unit, with the open arrays and objects on a stack, so that it ends on every text.

## Main results

- `parse_stringify`: the text of a value is parsed to it, but for its numbers that are not finite.
-/

namespace JsonText

open NumberText

/-- A parsed value.  A number without a double is not finite. -/
inductive Value where
  | null
  | boolean (value : Bool)
  | number (value : Option Binary64)
  | string (value : List UInt16)
  | array (items : List Value)
  | object (fields : List (List UInt16 × Value))

/-- Induction over the items of arrays and the fields of objects. -/
theorem Value.induction {P : Value → Prop} (null : P .null) (boolean : ∀ b, P (.boolean b))
    (number : ∀ n, P (.number n)) (string : ∀ s, P (.string s))
    (array : ∀ items, (∀ item ∈ items, P item) → P (.array items))
    (object : ∀ fields, (∀ field ∈ fields, P field.2) → P (.object fields)) (value : Value) :
    P value :=
  @Value.rec P (fun items ↦ ∀ item ∈ items, P item) (fun fields ↦ ∀ field ∈ fields, P field.2)
    (fun field ↦ P field.2) null boolean number string array object
    (fun _ hitem ↦ absurd hitem List.not_mem_nil)
    (fun _ _ hhead htail ↦ List.forall_mem_cons.mpr ⟨hhead, htail⟩)
    (fun _ hfield ↦ absurd hfield List.not_mem_nil)
    (fun _ _ hhead htail ↦ List.forall_mem_cons.mpr ⟨hhead, htail⟩) (fun _ _ hvalue ↦ hvalue) value

def unit (c : Char) : UInt16 := UInt16.ofNat c.toNat

def units (cs : List Char) : List UInt16 := cs.map unit

/-- The character of one unit.  A surrogate is none, and gives the character of code zero. -/
def char (u : UInt16) : Char := Char.ofNat u.toNat

/-! ## Writing -/

/-- `\u` and four digits. -/
def unicodeEscape (u : UInt16) : List UInt16 :=
  [unit '\\', unit 'u', unit (Nat.digitChar (u.toNat / 4096)),
    unit (Nat.digitChar (u.toNat / 256 % 16)), unit (Nat.digitChar (u.toNat / 16 % 16)),
    unit (Nat.digitChar (u.toNat % 16))]

def isLeading (u : UInt16) : Bool := 0xD800 ≤ u ∧ u < 0xDC00

def isTrailing (u : UInt16) : Bool := 0xDC00 ≤ u ∧ u < 0xE000

/-- The text of a unit that is not half of a surrogate pair. -/
def escape (u : UInt16) : List UInt16 :=
  if u = unit '"' ∨ u = unit '\\' then [unit '\\', u]
  else if u = 8 then [unit '\\', unit 'b']
  else if u = 9 then [unit '\\', unit 't']
  else if u = 10 then [unit '\\', unit 'n']
  else if u = 12 then [unit '\\', unit 'f']
  else if u = 13 then [unit '\\', unit 'r']
  else if u < 32 ∨ isLeading u ∨ isTrailing u then unicodeEscape u
  else [u]

def escapes : List UInt16 → List UInt16
  | [] => []
  | [u] => escape u
  | u :: v :: us =>
    if isLeading u ∧ isTrailing v then u :: v :: escapes us
    else escape u ++ escapes (v :: us)

def quote (s : List UInt16) : List UInt16 := unit '"' :: (escapes s ++ [unit '"'])

/-- The texts with commas between them. -/
def commas : List (List UInt16) → List UInt16
  | [] => []
  | [text] => text
  | text :: texts => text ++ unit ',' :: commas texts

mutual

/-- `JSON.stringify(value)`. -/
def stringify : Value → List UInt16
  | .null => units ['n', 'u', 'l', 'l']
  | .boolean true => units ['t', 'r', 'u', 'e']
  | .boolean false => units ['f', 'a', 'l', 's', 'e']
  | .number none => units ['n', 'u', 'l', 'l']
  | .number (some x) => units (numberText x)
  | .string value => quote value
  | .array items => unit '[' :: (commas (itemTexts items) ++ [unit ']'])
  | .object fields => unit '{' :: (commas (fieldTexts fields) ++ [unit '}'])

def itemTexts : List Value → List (List UInt16)
  | [] => []
  | item :: items => stringify item :: itemTexts items

def fieldTexts : List (List UInt16 × Value) → List (List UInt16)
  | [] => []
  | (name, value) :: fields => (quote name ++ unit ':' :: stringify value) :: fieldTexts fields

end

mutual

/-- What the text of a value keeps of it: a number that is not finite becomes null. -/
def stored : Value → Value
  | .null => .null
  | .boolean value => .boolean value
  | .number none => .null
  | .number (some x) => .number (some x)
  | .string value => .string value
  | .array items => .array (storedItems items)
  | .object fields => .object (storedFields fields)

def storedItems : List Value → List Value
  | [] => []
  | item :: items => stored item :: storedItems items

def storedFields : List (List UInt16 × Value) → List (List UInt16 × Value)
  | [] => []
  | (name, value) :: fields => (name, stored value) :: storedFields fields

end

theorem storedItems_eq_map (items : List Value) : storedItems items = items.map stored := by
  induction items with
  | nil => rfl
  | cons item items ih => rw [storedItems, ih, List.map_cons]

theorem storedFields_eq_map (fields : List (List UInt16 × Value)) :
    storedFields fields = fields.map fun field ↦ (field.1, stored field.2) := by
  induction fields with
  | nil => rfl
  | cons field fields ih => rw [storedFields, ih, List.map_cons]

/-! ## Reading -/

inductive Token where
  | openArray
  | closeArray
  | openObject
  | closeObject
  | colon
  | comma
  | string (value : List UInt16)
  | scalar (value : Value)

/-- An array or an object that is read, its last item or field first. -/
inductive Frame where
  | array (items : List Value)
  | member (fields : List (List UInt16 × Value)) (name : List UInt16)

/-- What is expected next.  `first` says that the array or object may end before the value or
name. -/
inductive Parsing where
  | value (first : Bool) (stack : List Frame)
  | name (first : Bool) (fields : List (List UInt16 × Value)) (stack : List Frame)
  | colon (fields : List (List UInt16 × Value)) (name : List UInt16) (stack : List Frame)
  | done (value : Value) (stack : List Frame)

def Parsing.take : Parsing → Token → Option Parsing
  | value _ stack, .scalar v => some (done v stack)
  | value _ stack, .string s => some (done (.string s) stack)
  | value _ stack, .openArray => some (value true (.array [] :: stack))
  | value _ stack, .openObject => some (name true [] stack)
  | value true (.array items :: stack), .closeArray => some (done (.array items.reverse) stack)
  | name _ fields stack, .string s => some (colon fields s stack)
  | name true fields stack, .closeObject => some (done (.object fields.reverse) stack)
  | colon fields s stack, .colon => some (value false (.member fields s :: stack))
  | done v (.array items :: stack), .comma => some (value false (.array (v :: items) :: stack))
  | done v (.array items :: stack), .closeArray => some (done (.array (v :: items).reverse) stack)
  | done v (.member fields s :: stack), .comma => some (name false ((s, v) :: fields) stack)
  | done v (.member fields s :: stack), .closeObject =>
    some (done (.object ((s, v) :: fields).reverse) stack)
  | _, _ => none

def mark? (u : UInt16) : Option Token :=
  if u = unit '[' then some .openArray
  else if u = unit ']' then some .closeArray
  else if u = unit '{' then some .openObject
  else if u = unit '}' then some .closeObject
  else if u = unit ':' then some .colon
  else if u = unit ',' then some .comma
  else none

def isSpace (u : UInt16) : Bool := u = unit ' ' ∨ u = 9 ∨ u = 10 ∨ u = 13

def isLiteral (u : UInt16) : Bool := isLiteralChar (char u)

/-- A keyword or a number. -/
def literal (us : List UInt16) : Option Value :=
  if us = units ['n', 'u', 'l', 'l'] then some .null
  else if us = units ['t', 'r', 'u', 'e'] then some (.boolean true)
  else if us = units ['f', 'a', 'l', 's', 'e'] then some (.boolean false)
  else (readNumber (us.map char)).map .number

/-- The unit that a letter stands for behind a backslash. -/
def unescape (u : UInt16) : Option UInt16 :=
  if u = unit '"' ∨ u = unit '\\' ∨ u = unit '/' then some u
  else if u = unit 'b' then some 8
  else if u = unit 't' then some 9
  else if u = unit 'n' then some 10
  else if u = unit 'f' then some 12
  else if u = unit 'r' then some 13
  else none

def hexDigit? (u : UInt16) : Option ℕ :=
  let c := char u
  if c.isDigit then some (c.toNat - 48)
  else if 'a' ≤ c ∧ c ≤ 'f' then some (c.toNat - 87)
  else if 'A' ≤ c ∧ c ≤ 'F' then some (c.toNat - 55)
  else none

/-- Where in a token the reader is.  The units of a literal or string that are read stand last
first. -/
inductive Lexing where
  | between
  | literal (read : List UInt16)
  | string (read : List UInt16)
  | backslash (read : List UInt16)
  | unicode (read : List UInt16) (code left : ℕ)

abbrev State := Lexing × Parsing

def between (p : Parsing) (u : UInt16) : Option State :=
  match mark? u with
  | some token => (p.take token).map (.between, ·)
  | none =>
    if isSpace u then some (.between, p)
    else if u = unit '"' then some (.string [], p)
    else if isLiteral u then some (.literal [u], p)
    else none

/-- The end of a literal that is read. -/
def settle : State → Option Parsing
  | (.between, p) => some p
  | (.literal read, p) => (literal read.reverse).bind fun v ↦ p.take (.scalar v)
  | _ => none

def step : State → UInt16 → Option State
  | (.between, p), u => between p u
  | (.literal read, p), u =>
    if isLiteral u then some (.literal (u :: read), p)
    else (settle (.literal read, p)).bind fun p ↦ between p u
  | (.string read, p), u =>
    if u = unit '"' then (p.take (.string read.reverse)).map (.between, ·)
    else if u = unit '\\' then some (.backslash read, p)
    else if u < 32 then none
    else some (.string (u :: read), p)
  | (.backslash read, p), u =>
    if u = unit 'u' then some (.unicode read 0 4, p)
    else (unescape u).map fun v ↦ (.string (v :: read), p)
  | (.unicode read code left, p), u =>
    (hexDigit? u).map fun d ↦
      if left = 1 then (.string (UInt16.ofNat (16 * code + d) :: read), p)
      else (.unicode read (16 * code + d) (left - 1), p)

def run (us : List UInt16) (s : State) : Option State := us.foldlM step s

/-- `JSON.parse(text)`, none where it throws. -/
def parse (us : List UInt16) : Option Value := do
  match settle (← run us (.between, .value false [])) with
  | some (.done value []) => some value
  | _ => none

/-! ## Units -/

section Units

variable {c : Char} {cs : List Char} {x : Binary64}

theorem char_unit (h : c.toNat < 2 ^ 16) : char (unit c) = c := by
  unfold char unit
  rw [UInt16.toNat_ofNat', Nat.mod_eq_of_lt h, Char.ofNat_toNat]

theorem map_char_units (h : ∀ c ∈ cs, c.toNat < 2 ^ 16) : (units cs).map char = cs := by
  unfold units
  rw [List.map_map]
  have hmap : cs.map (char ∘ unit) = cs.map id := List.map_congr_left fun c hc ↦ char_unit (h c hc)
  rw [hmap, List.map_id]

theorem map_char_numberText (x : Binary64) : (units (numberText x)).map char = numberText x :=
  map_char_units fun _ hc ↦ isLiteralChar_lt (mem_numberText hc)

/-- The text of a number is no keyword. -/
theorem units_numberText_ne (hcs : cs.all isLiteralChar = true) (hread : readNumber cs = none) :
    units (numberText x) ≠ units cs := by
  intro heq
  have hlt : ∀ c ∈ cs, c.toNat < 2 ^ 16 :=
    fun c hc ↦ isLiteralChar_lt (List.all_eq_true.mp hcs c hc)
  have htext : numberText x = cs := by
    rw [← map_char_numberText, heq, map_char_units hlt]
  rw [← htext, readNumber_numberText] at hread
  cases hread

theorem literal_numberText (x : Binary64) :
    literal (units (numberText x)) = some (.number (some x)) := by
  unfold literal
  rw [if_neg (units_numberText_ne rfl rfl), if_neg (units_numberText_ne rfl rfl),
    if_neg (units_numberText_ne rfl rfl), map_char_numberText, readNumber_numberText]
  rfl

theorem isLiteral_of_mem_numberText {u : UInt16} (h : u ∈ units (numberText x)) :
    isLiteral u = true := by
  obtain ⟨c, hc, rfl⟩ := List.mem_map.mp h
  unfold isLiteral
  rw [char_unit (isLiteralChar_lt (mem_numberText hc))]
  exact mem_numberText hc

theorem hexDigit?_digitChar : ∀ n < 16, hexDigit? (unit (Nat.digitChar n)) = some n := by decide

end Units

/-! ## Runs -/

section Runs

variable {u v : UInt16} {us vs s read : List UInt16} {p q r : Parsing} {state : State}
  {token : Token} {code d : ℕ}

theorem run_nil : run [] state = some state := rfl

theorem run_cons : run (u :: us) state = (step state u).bind (run us) := List.foldlM_cons

theorem run_cons_of_step {state' : State} (h : step state u = some state') :
    run (u :: us) state = run us state' := by
  rw [run_cons, h, Option.bind_some]

theorem run_append : run (us ++ vs) state = (run us state).bind (run vs) := List.foldlM_append

theorem step_raw (hquote : u ≠ unit '"') (hbackslash : u ≠ unit '\\') (hcontrol : ¬u < 32) :
    step (.string read, p) u = some (.string (u :: read), p) := by
  unfold step
  dsimp only
  rw [if_neg hquote, if_neg hbackslash, if_neg hcontrol]

theorem step_surrogate (h : 0xD800 ≤ u) :
    step (.string read, p) u = some (.string (u :: read), p) := by
  refine step_raw ?_ ?_ ?_
  · rintro rfl
    exact absurd h (by decide)
  · rintro rfl
    exact absurd h (by decide)
  · exact UInt16.not_lt.mpr (UInt16.le_trans (by decide) h)

theorem step_digit (hd : hexDigit? u = some d) (left : ℕ) :
    step (.unicode read code (left + 2), p) u =
      some (.unicode read (16 * code + d) (left + 1), p) := by
  unfold step
  dsimp only
  rw [hd]
  rfl

theorem step_last_digit (hd : hexDigit? u = some d) :
    step (.unicode read code 1, p) u =
      some (.string (UInt16.ofNat (16 * code + d) :: read), p) := by
  unfold step
  dsimp only
  rw [hd]
  rfl

theorem run_unicodeEscape :
    run (unicodeEscape u ++ us) (.string read, p) = run us (.string (u :: read), p) := by
  have hbackslash : step (.string read, p) (unit '\\') = some (.backslash read, p) := rfl
  have hletter : step (.backslash read, p) (unit 'u') = some (.unicode read 0 4, p) := rfl
  have hlt := u.toNat_lt
  have hcode : 16 * (16 * (16 * (16 * 0 + u.toNat / 4096) + u.toNat / 256 % 16) +
      u.toNat / 16 % 16) + u.toNat % 16 = u.toNat := by omega
  unfold unicodeEscape
  rw [List.cons_append, run_cons_of_step hbackslash, List.cons_append, run_cons_of_step hletter,
    List.cons_append, run_cons_of_step (step_digit (hexDigit?_digitChar _ (by omega)) 2),
    List.cons_append, run_cons_of_step (step_digit (hexDigit?_digitChar _ (by omega)) 1),
    List.cons_append, run_cons_of_step (step_digit (hexDigit?_digitChar _ (by omega)) 0),
    List.cons_append, run_cons_of_step (step_last_digit (hexDigit?_digitChar _ (by omega))), hcode,
    UInt16.ofNat_toNat, List.nil_append]

theorem run_escape : run (escape u ++ us) (.string read, p) = run us (.string (u :: read), p) := by
  unfold escape
  split_ifs with hself h8 h9 h10 h12 h13 hunicode
  · rcases hself with rfl | rfl <;> rfl
  · rw [h8]
    rfl
  · rw [h9]
    rfl
  · rw [h10]
    rfl
  · rw [h12]
    rfl
  · rw [h13]
    rfl
  · exact run_unicodeEscape
  · rw [not_or] at hself hunicode
    exact run_cons_of_step (step_raw hself.1 hself.2 hunicode.1)

theorem run_escapes (s : List UInt16) :
    ∀ read, run (escapes s ++ us) (.string read, p) = run us (.string (s.reverse ++ read), p) := by
  induction s using escapes.induct with
  | case1 => exact fun read ↦ rfl
  | case2 u => exact fun read ↦ run_escape
  | case3 u v s hpair ih =>
    intro read
    obtain ⟨hleading, htrailing⟩ := hpair
    have hu : 0xD800 ≤ u := (of_decide_eq_true hleading).1
    have hv : 0xD800 ≤ v := UInt16.le_trans (by decide) (of_decide_eq_true htrailing).1
    rw [escapes, if_pos ⟨hleading, htrailing⟩, List.cons_append,
      run_cons_of_step (step_surrogate hu), List.cons_append,
      run_cons_of_step (step_surrogate hv), ih]
    simp only [List.reverse_cons, List.append_assoc, List.cons_append, List.nil_append]
  | case4 u v s hpair ih =>
    intro read
    rw [escapes, if_neg hpair, List.append_assoc, run_escape, ih]
    simp only [List.reverse_cons, List.append_assoc, List.cons_append, List.nil_append]

theorem run_literal (hus : ∀ u ∈ us, isLiteral u = true) :
    ∀ read, run us (.literal read, p) = some (.literal (us.reverse ++ read), p) := by
  induction us with
  | nil => exact fun read ↦ rfl
  | cons u us ih =>
    intro read
    obtain ⟨hu, hus⟩ := List.forall_mem_cons.mp hus
    have hstep : step (.literal read, p) u = some (.literal (u :: read), p) := if_pos hu
    rw [run_cons_of_step hstep, ih hus]
    simp only [List.reverse_cons, List.append_assoc, List.cons_append, List.nil_append]

end Runs

/-! ## Values -/

section Values

variable {u : UInt16} {us vs s : List UInt16} {p q r t : Parsing} {state : State} {token : Token}

theorem mark?_openArray : mark? (unit '[') = some .openArray := rfl

theorem mark?_closeArray : mark? (unit ']') = some .closeArray := rfl

theorem mark?_openObject : mark? (unit '{') = some .openObject := rfl

theorem mark?_closeObject : mark? (unit '}') = some .closeObject := rfl

theorem mark?_colon : mark? (unit ':') = some .colon := rfl

theorem mark?_comma : mark? (unit ',') = some .comma := rfl

theorem isLiteral_of_mark? (h : mark? u = some token) : isLiteral u = false := by
  unfold mark? at h
  split_ifs at h with h1 h2 h3 h4 h5 h6
  · rw [h1]
    rfl
  · rw [h2]
    rfl
  · rw [h3]
    rfl
  · rw [h4]
    rfl
  · rw [h5]
    rfl
  · rw [h6]
    rfl

theorem mark?_of_isLiteral (h : isLiteral u = true) : mark? u = none := by
  cases hmark : mark? u with
  | none => rfl
  | some token =>
    rw [isLiteral_of_mark? hmark] at h
    cases h

/-- A literal starts between tokens. -/
theorem between_literal (h : isLiteral u = true) : between p u = some (.literal [u], p) := by
  have hspace : ¬isSpace u = true := by
    intro hspace
    rcases of_decide_eq_true hspace with rfl | rfl | rfl | rfl <;> cases h
  have hquote : u ≠ unit '"' := by
    rintro rfl
    cases h
  unfold between
  rw [mark?_of_isLiteral h]
  dsimp only
  rw [if_neg hspace, if_neg hquote, if_pos h]

/-- A mark ends a literal before it. -/
theorem step_mark (hsettle : settle state = some p) (hmark : mark? u = some token)
    (htake : p.take token = some q) : step state u = some (.between, q) := by
  have hbetween : between p u = some (.between, q) := by
    unfold between
    rw [hmark]
    dsimp only
    rw [htake]
    rfl
  obtain ⟨lexing, p'⟩ := state
  cases lexing with
  | between =>
    obtain rfl := Option.some.inj hsettle
    exact hbetween
  | literal read =>
    have hliteral : ¬isLiteral u = true := by
      rw [isLiteral_of_mark? hmark]
      decide
    unfold step
    dsimp only
    rw [if_neg hliteral, hsettle, Option.bind_some, hbetween]
  | string read => cases hsettle
  | backslash read => cases hsettle
  | unicode read code left => cases hsettle

/-- The units take the parser from one state between tokens to another, where a literal at their end
counts as read. -/
def Reads (us : List UInt16) (p q : Parsing) : Prop :=
  ∃ state, run us (.between, p) = some state ∧ settle state = some q

theorem Reads.nil : Reads [] p p := ⟨_, rfl, rfl⟩

theorem Reads.mark (h : Reads us p q) (hmark : mark? u = some token) (htake : q.take token = some r)
    (hrest : Reads vs r t) : Reads (us ++ u :: vs) p t := by
  obtain ⟨state, hrun, hsettle⟩ := h
  obtain ⟨state', hrun', hsettle'⟩ := hrest
  refine ⟨state', ?_, hsettle'⟩
  rw [run_append, hrun, Option.bind_some, run_cons_of_step (step_mark hsettle hmark htake), hrun']

theorem reads_quote (htake : p.take (.string s) = some q) : Reads (quote s) p q := by
  have hopen : step (.between, p) (unit '"') = some (.string [], p) := rfl
  have hclose : step (.string s.reverse, p) (unit '"') = some (.between, q) := by
    change (p.take (.string s.reverse.reverse)).map _ = _
    rw [List.reverse_reverse, htake]
    rfl
  refine ⟨(.between, q), ?_, rfl⟩
  unfold quote
  rw [run_cons_of_step hopen, run_escapes, List.append_nil, run_cons_of_step hclose]
  rfl

theorem reads_literal {value : Value} (hus : ∀ u ∈ us, isLiteral u = true) (hne : us ≠ [])
    (hliteral : literal us = some value) (htake : p.take (.scalar value) = some q) :
    Reads us p q := by
  cases us with
  | nil => exact absurd rfl hne
  | cons u us =>
    obtain ⟨hu, hus⟩ := List.forall_mem_cons.mp hus
    have hstep : step (.between, p) u = some (.literal [u], p) := between_literal hu
    refine ⟨(.literal (us.reverse ++ [u]), p), ?_, ?_⟩
    · rw [run_cons_of_step hstep, run_literal hus]
    · change (literal (us.reverse ++ [u]).reverse).bind _ = _
      rw [← List.reverse_cons, List.reverse_reverse, hliteral]
      exact htake

theorem Reads.close (h : Reads us p q) (hmark : mark? u = some token)
    (htake : q.take token = some r) : Reads (us ++ [u]) p r := h.mark hmark htake .nil

theorem Reads.open (hmark : mark? u = some token) (htake : p.take token = some q)
    (h : Reads us q r) : Reads (u :: us) p r := Reads.nil.mark hmark htake h

theorem commas_cons {text text' : List UInt16} {texts : List (List UInt16)} :
    commas (text :: text' :: texts) ++ [u] =
      text ++ unit ',' :: (commas (text' :: texts) ++ [u]) := by
  rw [commas, List.append_assoc, List.cons_append]
  exact List.cons_ne_nil text' texts

/-- The items of an array up to its end, behind those that are read. -/
theorem reads_items {items : List Value} (hne : items ≠ [])
    (hitems : ∀ item ∈ items, ∀ first stack,
      Reads (stringify item) (.value first stack) (.done (stored item) stack)) :
    ∀ first read stack,
      Reads (commas (itemTexts items) ++ [unit ']']) (.value first (.array read :: stack))
        (.done (.array (read.reverse ++ storedItems items)) stack) := by
  induction items with
  | nil => exact absurd rfl hne
  | cons item items ih =>
    intro first read stack
    obtain ⟨hitem, hitems⟩ := List.forall_mem_cons.mp hitems
    have hread := hitem first (.array read :: stack)
    cases items with
    | nil =>
      have hclose := hread.close mark?_closeArray rfl
      rw [List.reverse_cons] at hclose
      exact hclose
    | cons item' items =>
      have hrest := ih (List.cons_ne_nil item' items) hitems false (stored item :: read) stack
      rw [List.reverse_cons, List.append_assoc] at hrest
      have hcomma := hread.mark mark?_comma rfl hrest
      rw [itemTexts, itemTexts, commas_cons]
      exact hcomma

/-- The fields of an object up to its end, behind those that are read. -/
theorem reads_fields {fields : List (List UInt16 × Value)} (hne : fields ≠ [])
    (hfields : ∀ field ∈ fields, ∀ first stack,
      Reads (stringify field.2) (.value first stack) (.done (stored field.2) stack)) :
    ∀ first read stack, Reads (commas (fieldTexts fields) ++ [unit '}']) (.name first read stack)
      (.done (.object (read.reverse ++ storedFields fields)) stack) := by
  induction fields with
  | nil => exact absurd rfl hne
  | cons field fields ih =>
    intro first read stack
    obtain ⟨name, value⟩ := field
    obtain ⟨hvalue, hfields⟩ := List.forall_mem_cons.mp hfields
    have hname : Reads (quote name) (.name first read stack) (.colon read name stack) :=
      reads_quote rfl
    have hread := hname.mark mark?_colon rfl (hvalue false (.member read name :: stack))
    cases fields with
    | nil =>
      have hclose := hread.close mark?_closeObject rfl
      rw [List.reverse_cons] at hclose
      exact hclose
    | cons field fields =>
      have hrest :=
        ih (List.cons_ne_nil field fields) hfields false ((name, stored value) :: read) stack
      rw [List.reverse_cons, List.append_assoc] at hrest
      have hcomma := hread.mark mark?_comma rfl hrest
      rw [fieldTexts, fieldTexts, commas_cons]
      exact hcomma

theorem reads_null (first : Bool) (stack : List Frame) :
    Reads (units ['n', 'u', 'l', 'l']) (.value first stack) (.done .null stack) :=
  reads_literal (List.all_eq_true.mp rfl) (List.cons_ne_nil _ _) rfl rfl

theorem reads_boolean (value first : Bool) (stack : List Frame) :
    Reads (stringify (.boolean value)) (.value first stack) (.done (.boolean value) stack) := by
  cases value with
  | false => exact reads_literal (List.all_eq_true.mp rfl) (List.cons_ne_nil _ _) rfl rfl
  | true => exact reads_literal (List.all_eq_true.mp rfl) (List.cons_ne_nil _ _) rfl rfl

theorem reads_number (x : Binary64) (first : Bool) (stack : List Frame) :
    Reads (units (numberText x)) (.value first stack) (.done (.number (some x)) stack) := by
  have hne : units (numberText x) ≠ [] :=
    fun hnil ↦ numberText_ne_nil x (List.map_eq_nil_iff.mp hnil)
  exact reads_literal (fun u ↦ isLiteral_of_mem_numberText) hne (literal_numberText x) rfl

theorem reads_stringify (value : Value) :
    ∀ first stack, Reads (stringify value) (.value first stack) (.done (stored value) stack) := by
  induction value using Value.induction with
  | null => exact reads_null
  | boolean value => exact reads_boolean value
  | number value =>
    cases value with
    | none => exact reads_null
    | some x => exact reads_number x
  | string value => exact fun first stack ↦ reads_quote rfl
  | array items ih =>
    intro first stack
    cases items with
    | nil => exact .open mark?_openArray rfl (.open mark?_closeArray rfl .nil)
    | cons item items =>
      exact .open mark?_openArray rfl
        (reads_items (List.cons_ne_nil item items) ih true [] stack)
  | object fields ih =>
    intro first stack
    cases fields with
    | nil => exact .open mark?_openObject rfl (.open mark?_closeObject rfl .nil)
    | cons field fields =>
      exact .open mark?_openObject rfl
        (reads_fields (List.cons_ne_nil field fields) ih true [] stack)

/-- The text of a value is parsed to what it keeps of the value. -/
theorem parse_stringify (value : Value) : parse (stringify value) = some (stored value) := by
  obtain ⟨state, hrun, hsettle⟩ := reads_stringify value false []
  unfold parse
  rw [hrun, Option.bind_eq_bind, Option.bind_some, hsettle]

/-- A value has a text. -/
theorem stringify_ne_nil (value : Value) : stringify value ≠ [] := by
  intro hnil
  have hparse := parse_stringify value
  rw [hnil] at hparse
  cases hparse

end Values

end JsonText
