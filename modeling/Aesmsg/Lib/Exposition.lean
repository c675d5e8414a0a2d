import Mathlib.Data.List.Basic

/-!
# The text format of metrics

A sample is a line with its name, its labels in braces, a blank and its value; lines that start with `#`
say what a name means.  The value of a label stands in quotes, where a backslash, a quote and the end of a
line are escaped.

## Main results

- `labels_inj`: different values of the labels have different texts.
- `read_lines`: the samples are read back from the lines.
-/

namespace Exposition

/-! ## Labels -/

def escapeChar (c : Char) : List Char :=
  if c = '\\' then ['\\', '\\']
  else if c = '"' then ['\\', '"']
  else if c = '\n' then ['\\', 'n']
  else [c]

def escape (value : List Char) : List Char := value.flatMap escapeChar

def pair (label : String × String) : List Char :=
  label.1.toList ++ '=' :: '"' :: (escape label.2.toList ++ ['"'])

def commas : List (List Char) → List Char
  | [] => []
  | [text] => text
  | text :: texts => text ++ ',' :: commas texts

def labels : List (String × String) → List Char
  | [] => []
  | label :: rest => '{' :: (commas ((label :: rest).map pair) ++ ['}'])

section Labels

variable {a b : List Char} {x y : List Char}

/-- A text starts with a backslash and a sign that tells which character it is of, or is that character. -/
theorem escapeChar_cases (c : Char) : (∃ d, escapeChar c = ['\\', d] ∧
    ∀ c', escapeChar c' = ['\\', d] → c' = c) ∨ escapeChar c = [c] ∧ c ≠ '\\' ∧ c ≠ '"' ∧ c ≠ '\n' := by
  unfold escapeChar
  by_cases hslash : c = '\\'
  · refine .inl ⟨'\\', if_pos hslash, fun c' h ↦ ?_⟩
    grind
  · by_cases hquote : c = '"'
    · refine .inl ⟨'"', ?_, fun c' h ↦ ?_⟩
      · rw [if_neg hslash, if_pos hquote]
      · grind
    · by_cases hline : c = '\n'
      · refine .inl ⟨'n', ?_, fun c' h ↦ ?_⟩
        · rw [if_neg hslash, if_neg hquote, if_pos hline]
        · grind
      · refine .inr ⟨?_, hslash, hquote, hline⟩
        rw [if_neg hslash, if_neg hquote, if_neg hline]

/-- The texts of two characters are the same only at the same character. -/
theorem escapeChar_append_inj {c d : Char} (h : escapeChar c ++ x = escapeChar d ++ y) : c = d ∧ x = y := by
  rcases escapeChar_cases c with ⟨c', hc, hunique⟩ | ⟨hc, hslash, -, -⟩
  · rcases escapeChar_cases d with ⟨d', hd, -⟩ | ⟨hd, hslash, -, -⟩
    · rw [hc, hd] at h
      obtain ⟨-, h⟩ := List.cons.inj h
      obtain ⟨rfl, rfl⟩ := List.cons.inj h
      exact ⟨(hunique d hd).symm, rfl⟩
    · rw [hc, hd] at h
      exact absurd (List.cons.inj h).1.symm hslash
  · rcases escapeChar_cases d with ⟨d', hd, -⟩ | ⟨hd, -, -, -⟩
    · rw [hc, hd] at h
      exact absurd (List.cons.inj h).1 hslash
    · rw [hc, hd] at h
      exact List.cons.inj h

/-- A text is not empty and does not start with a quote. -/
theorem head_escapeChar_ne (c : Char) : escapeChar c ++ x ≠ '"' :: y := by
  intro h
  rcases escapeChar_cases c with ⟨c', hc, -⟩ | ⟨hc, -, hquote, -⟩
  · rw [hc] at h
    exact absurd (List.cons.inj h).1 (by decide)
  · rw [hc] at h
    exact hquote (List.cons.inj h).1

/-- The quote behind a value is its end. -/
theorem escape_append_inj (h : escape a ++ '"' :: x = escape b ++ '"' :: y) : a = b ∧ x = y := by
  induction a generalizing b with
  | nil =>
    cases b with
    | nil => exact ⟨rfl, (List.cons.inj h).2⟩
    | cons d b =>
      unfold escape at h
      rw [List.flatMap_nil, List.nil_append, List.flatMap_cons, List.append_assoc] at h
      exact absurd h.symm (head_escapeChar_ne d)
  | cons c a ih =>
    cases b with
    | nil =>
      unfold escape at h
      rw [List.flatMap_nil, List.nil_append, List.flatMap_cons, List.append_assoc] at h
      exact absurd h (head_escapeChar_ne c)
    | cons d b =>
      unfold escape at h
      rw [List.flatMap_cons, List.flatMap_cons, List.append_assoc, List.append_assoc] at h
      obtain ⟨rfl, hrest⟩ := escapeChar_append_inj h
      obtain ⟨rfl, hxy⟩ := ih hrest
      exact ⟨rfl, hxy⟩

theorem pair_append_inj {name value value' : String}
    (h : pair (name, value) ++ x = pair (name, value') ++ y) : value = value' ∧ x = y := by
  unfold pair at h
  simp only [List.append_assoc, List.cons_append, List.nil_append] at h
  have hrest := List.append_cancel_left h
  obtain ⟨hvalue, hxy⟩ := escape_append_inj (List.cons.inj (List.cons.inj hrest).2).2
  exact ⟨String.toList_injective hvalue, hxy⟩

theorem commas_cons {text : List Char} {texts : List (List Char)} (h : texts ≠ []) :
    commas (text :: texts) = text ++ ',' :: commas texts := by
  cases texts with
  | nil => exact absurd rfl h
  | cons other texts => rfl

theorem commas_append_inj {ls ms : List (String × String)} (hnames : ls.map Prod.fst = ms.map Prod.fst)
    (h : commas (ls.map pair) ++ x = commas (ms.map pair) ++ y) : ls = ms := by
  induction ls generalizing ms with
  | nil =>
    cases ms with
    | nil => rfl
    | cons m ms => cases hnames
  | cons l ls ih =>
    cases ms with
    | nil => cases hnames
    | cons m ms =>
      obtain ⟨name, value⟩ := l
      obtain ⟨name', value'⟩ := m
      obtain ⟨hname, hrest⟩ := List.cons.inj hnames
      dsimp only at hname
      subst hname
      rw [List.map_cons, List.map_cons] at h
      cases ls with
      | nil =>
        obtain rfl : ms = [] := List.map_eq_nil_iff.mp hrest.symm
        rw [(pair_append_inj h).1]
      | cons l ls =>
        have hls : (l :: ls).map pair ≠ [] := List.cons_ne_nil _ _
        have hms : ms.map pair ≠ [] := by
          rintro hnil
          rw [List.map_eq_nil_iff.mp hnil] at hrest
          cases hrest
        rw [commas_cons hls, commas_cons hms, List.append_assoc, List.append_assoc] at h
        obtain ⟨rfl, htail⟩ := pair_append_inj h
        rw [ih hrest (List.cons.inj htail).2]

theorem labels_inj {ls ms : List (String × String)} (hnames : ls.map Prod.fst = ms.map Prod.fst)
    (h : labels ls = labels ms) : ls = ms := by
  cases ls with
  | nil => exact (List.map_eq_nil_iff.mp hnames.symm).symm
  | cons l ls =>
    cases ms with
    | nil => cases hnames
    | cons m ms => exact commas_append_inj hnames (List.cons.inj h).2

theorem mem_commas {c : Char} {texts : List (List Char)} (h : c ∈ commas texts) :
    c = ',' ∨ ∃ text ∈ texts, c ∈ text := by
  induction texts with
  | nil => cases h
  | cons text texts ih =>
    cases texts with
    | nil => exact .inr ⟨text, List.mem_cons_self, h⟩
    | cons other texts =>
      rcases List.mem_append.mp h with h | h
      · exact .inr ⟨text, List.mem_cons_self, h⟩
      · rcases List.mem_cons.mp h with rfl | h
        · exact .inl rfl
        · rcases ih h with h | ⟨text', hmem, h⟩
          · exact .inl h
          · exact .inr ⟨text', List.mem_cons_of_mem _ hmem, h⟩

theorem newline_not_mem_escape (value : List Char) : '\n' ∉ escape value := by
  intro h
  obtain ⟨c, -, hc⟩ := List.mem_flatMap.mp h
  unfold escapeChar at hc
  grind

/-- Labels take one line. -/
theorem newline_not_mem_labels {ls : List (String × String)} (h : ∀ l ∈ ls, '\n' ∉ l.1.toList) :
    '\n' ∉ labels ls := by
  cases ls with
  | nil => exact List.not_mem_nil
  | cons l ls =>
    intro hmem
    unfold labels at hmem
    rcases List.mem_cons.mp hmem with hc | hmem
    · exact absurd hc (by decide)
    · rcases List.mem_append.mp hmem with hmem | hc
      · rcases mem_commas hmem with hc | ⟨text, htext, hmem⟩
        · exact absurd hc (by decide)
        · obtain ⟨label, hlabel, rfl⟩ := List.mem_map.mp htext
          unfold pair at hmem
          rcases List.mem_append.mp hmem with hmem | hmem
          · exact h label hlabel hmem
          · have hescape := newline_not_mem_escape label.2.toList
            simp [hescape] at hmem
      · exact absurd (List.mem_singleton.mp hc) (by decide)

end Labels

/-! ## Lines -/

/-- A line of a sample and its value. -/
def sample (series value : List Char) : List Char := series ++ ' ' :: value

/-- What stands before and behind the last blank. -/
def split (line : List Char) : List Char × List Char :=
  ((line.reverse.dropWhile (· ≠ ' ')).tail.reverse, (line.reverse.takeWhile (· ≠ ' ')).reverse)

/-- The samples of a text. -/
def read (text : List Char) : List (List Char × List Char) :=
  ((text.splitOn '\n').filter fun line ↦ line ≠ [] ∧ line.head? ≠ some '#').map split

section Lines

variable {series value : List Char}

theorem split_sample (h : ' ' ∉ value) : split (sample series value) = (series, value) := by
  have hall : ∀ c ∈ value.reverse, decide (c ≠ ' ') = true := by
    intro c hc
    refine decide_eq_true ?_
    rintro rfl
    exact h (List.mem_reverse.mp hc)
  have hreverse : (sample series value).reverse = value.reverse ++ ' ' :: series.reverse := by
    unfold sample
    rw [List.reverse_append, List.reverse_cons, List.append_assoc, List.singleton_append]
  unfold split
  rw [hreverse, List.dropWhile_append_of_pos hall, List.takeWhile_append_of_pos hall,
    List.dropWhile_cons_of_neg (by simp), List.takeWhile_cons_of_neg (by simp), List.tail_cons,
    List.append_nil, List.reverse_reverse, List.reverse_reverse]

theorem splitOn_lines {lines : List (List Char)} (h : ∀ line ∈ lines, '\n' ∉ line) :
    (lines.flatMap (· ++ ['\n'])).splitOn '\n' = lines ++ [[]] := by
  induction lines with
  | nil => rfl
  | cons line lines ih =>
    obtain ⟨hline, hlines⟩ := List.forall_mem_cons.mp h
    rw [List.flatMap_cons, List.append_assoc, List.singleton_append,
      List.splitOn_append_cons_self_of_not_mem hline, ih hlines]
    rfl

/-- The samples among the lines. -/
theorem read_lines {lines : List (List Char)} (h : ∀ line ∈ lines, '\n' ∉ line) :
    read (lines.flatMap (· ++ ['\n'])) =
      (lines.filter fun line ↦ line ≠ [] ∧ line.head? ≠ some '#').map split := by
  unfold read
  rw [splitOn_lines h, List.filter_append]
  exact congrArg (List.map split) (List.append_nil _)

/-- The lines with their ends. -/
theorem intercalate_append {lines : List (List Char)} (h : lines ≠ []) :
    ['\n'].intercalate lines ++ ['\n'] = lines.flatMap (· ++ ['\n']) := by
  induction lines with
  | nil => exact absurd rfl h
  | cons line lines ih =>
    cases lines with
    | nil => simp
    | cons other lines =>
      rw [List.intercalate_cons_cons, List.append_assoc, List.append_assoc, ih (List.cons_ne_nil _ _),
        List.flatMap_cons (x := line), List.append_assoc]

end Lines

end Exposition
