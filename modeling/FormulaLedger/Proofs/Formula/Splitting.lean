import FormulaLedger.Proofs.Formula.Tokens
import FormulaLedger.Proofs.Text.Trim
import Mathlib.Data.List.TakeWhile

set_option autoImplicit false

namespace FormulaLedger.Formula

def signs : List (Char × Token) :=
  [('+', .operator .add), ('-', .operator .subtract), ('*', .operator .multiply),
    ('/', .operator .divide), ('(', .opening), (')', .closing)]

structure IsNumeral (run : List Char) : Prop where
  chars : ∀ c ∈ run, c.isDigit = true ∨ c = '.'
  digit : ∃ c ∈ run, c.isDigit = true
  point : run.count '.' ≤ 1

/-- The number that a numeral writes: all digits, and a decimal place for each that follows the
point. -/
def written (run : List Char) : Decimal :=
  ⟨Decimal.ofDigits (run.filter (· != '.')), -((run.dropWhile (· != '.')).tail.length : Int)⟩

/-- The words of a text from left to right. Blanks only separate them, and a numeral goes on as long
as digits or points follow. -/
inductive Splits : List Char → List Token → Prop
  | nil : Splits [] []
  | blank {c : Char} {cs : List Char} {ts : List Token} : Text.isBlank c = true → Splits cs ts →
      Splits (c :: cs) ts
  | sign {c : Char} {token : Token} {cs : List Char} {ts : List Token} : (c, token) ∈ signs →
      Splits cs ts → Splits (c :: cs) (token :: ts)
  | numeral {run rest : List Char} {ts : List Token} : IsNumeral run →
      (∀ c ∈ rest.head?, ¬ (c.isDigit = true ∨ c = '.')) → Splits rest ts →
      Splits (run ++ rest) (.number (written run).toFloat :: ts)

theorem isNumeralChar_iff {c : Char} : isNumeralChar c = true ↔ c.isDigit = true ∨ c = '.' := by
  rw [isNumeralChar, Bool.or_eq_true, beq_iff_eq]

theorem sign?_eq_some_iff {c : Char} {token : Token} :
    sign? c = some token ↔ (c, token) ∈ signs := by
  unfold sign?
  split <;> simp_all [signs, eq_comm]

section numerals

variable {whole fraction more run : List Char}

theorem splitPoint_digits (h : ∀ c ∈ whole, c.isDigit = true) :
    Decimal.splitPoint whole = (whole, [], []) := by
  have htake : whole.takeWhile Char.isDigit = whole := List.takeWhile_eq_self_iff.2 h
  have hdrop : whole.dropWhile Char.isDigit = [] := List.dropWhile_eq_nil_iff.2 h
  rw [Decimal.splitPoint, htake, hdrop]

theorem splitPoint_point (h : ∀ c ∈ whole, c.isDigit = true) (more : List Char) :
    Decimal.splitPoint (whole ++ '.' :: more) =
      (whole, more.takeWhile Char.isDigit, more.dropWhile Char.isDigit) := by
  have hpoint : ∀ c ∈ ('.' :: more).head?, c.isDigit = false := by simp
  simp only [Decimal.splitPoint, Text.takeWhile_run h hpoint, Text.dropWhile_run h hpoint]

theorem exists_digits (h : ∀ c ∈ run, c.isDigit = true ∨ c = '.') :
    ∃ whole, (∀ c ∈ whole, c.isDigit = true) ∧
      (run = whole ∨ ∃ more, run = whole ++ '.' :: more) := by
  induction run with
  | nil => exact ⟨[], by simp, .inl rfl⟩
  | cons c run ih =>
    rcases h c List.mem_cons_self with hdigit | rfl
    · obtain ⟨whole, hwhole, hrun⟩ := ih fun d hd => h d (List.mem_cons_of_mem _ hd)
      refine ⟨c :: whole, ?_, ?_⟩
      · simpa [hdigit] using hwhole
      · rcases hrun with rfl | ⟨more, rfl⟩
        · exact .inl rfl
        · exact .inr ⟨more, rfl⟩
    · exact ⟨[], by simp, .inr ⟨run, rfl⟩⟩

theorem ne_point_of_digits (h : ∀ c ∈ whole, c.isDigit = true) : ∀ c ∈ whole, c ≠ '.' := by
  intro c hc heq
  have hdigit := h c hc
  rw [heq] at hdigit
  contradiction

theorem count_point_of_digits (h : ∀ c ∈ whole, c.isDigit = true) : whole.count '.' = 0 :=
  List.count_eq_zero.2 fun hmem => ne_point_of_digits h '.' hmem rfl

theorem filter_of_digits (h : ∀ c ∈ whole, c.isDigit = true) : whole.filter (· != '.') = whole :=
  List.filter_eq_self.2 fun c hc => by simpa using ne_point_of_digits h c hc

theorem dropWhile_of_digits (h : ∀ c ∈ whole, c.isDigit = true) (rest : List Char) :
    (whole ++ rest).dropWhile (· != '.') = rest.dropWhile (· != '.') :=
  List.dropWhile_append_of_pos fun c hc => by simpa using ne_point_of_digits h c hc

theorem written_digits (h : ∀ c ∈ whole, c.isDigit = true) :
    written whole = ⟨Decimal.ofDigits whole, 0⟩ := by
  have hdrop := dropWhile_of_digits h []
  rw [List.append_nil] at hdrop
  rw [written, filter_of_digits h, hdrop]
  rfl

theorem written_point (hwhole : ∀ c ∈ whole, c.isDigit = true)
    (hfraction : ∀ c ∈ fraction, c.isDigit = true) :
    written (whole ++ '.' :: fraction) =
      ⟨Decimal.ofDigits (whole ++ fraction), -fraction.length⟩ := by
  rw [written, List.filter_append, filter_of_digits hwhole, dropWhile_of_digits hwhole]
  simp [filter_of_digits hfraction]

theorem isNumeral_digits (h : ∀ c ∈ whole, c.isDigit = true) : IsNumeral whole ↔ whole ≠ [] := by
  constructor
  · rintro ⟨_, ⟨c, hc, _⟩, _⟩
    exact List.ne_nil_of_mem hc
  · intro hne
    obtain ⟨c, hc⟩ := List.exists_mem_of_ne_nil whole hne
    have hcount := count_point_of_digits h
    exact ⟨fun d hd => .inl (h d hd), ⟨c, hc, h c hc⟩, by omega⟩

theorem isNumeral_point (hwhole : ∀ c ∈ whole, c.isDigit = true)
    (hfraction : ∀ c ∈ fraction, c.isDigit = true) :
    IsNumeral (whole ++ '.' :: fraction) ↔ whole ++ fraction ≠ [] := by
  have hall : ∀ c ∈ whole ++ fraction, c.isDigit = true := by
    intro c hc
    rcases List.mem_append.1 hc with hc | hc
    · exact hwhole c hc
    · exact hfraction c hc
  have hmem : ∀ c, c ∈ whole ++ '.' :: fraction ↔ c = '.' ∨ c ∈ whole ++ fraction := by
    intro c
    rw [List.mem_append, List.mem_cons, List.mem_append]
    exact or_left_comm
  constructor
  · rintro ⟨_, ⟨c, hc, hdigit⟩, _⟩
    rcases (hmem c).1 hc with rfl | hc
    · contradiction
    · exact List.ne_nil_of_mem hc
  · intro hne
    obtain ⟨c, hc⟩ := List.exists_mem_of_ne_nil _ hne
    refine ⟨fun d hd => ?_, ⟨c, (hmem c).2 (.inr hc), hall c hc⟩, ?_⟩
    · rcases (hmem d).1 hd with rfl | hd
      · exact .inr rfl
      · exact .inl (hall d hd)
    · rw [List.count_append, count_point_of_digits hwhole, List.count_cons,
        count_point_of_digits hfraction]
      simp

theorem read?_eq_some_iff (h : ∀ c ∈ run, c.isDigit = true ∨ c = '.') {d : Decimal} :
    Decimal.read? run = some d ↔ IsNumeral run ∧ written run = d := by
  obtain ⟨whole, hwhole, rfl | ⟨more, rfl⟩⟩ := exists_digits h
  · rw [isNumeral_digits hwhole, written_digits hwhole, Decimal.read?, splitPoint_digits hwhole]
    cases run with
    | nil => simp
    | cons c cs => simp
  · have hmore : ∀ c ∈ more, c.isDigit = true ∨ c = '.' := fun c hc => h c (by simp [hc])
    obtain ⟨fraction, hfraction, rfl | ⟨rest, rfl⟩⟩ := exists_digits hmore
    · have htake : more.takeWhile Char.isDigit = more := List.takeWhile_eq_self_iff.2 hfraction
      have hdrop : more.dropWhile Char.isDigit = [] := List.dropWhile_eq_nil_iff.2 hfraction
      rw [isNumeral_point hwhole hfraction, written_point hwhole hfraction, Decimal.read?,
        splitPoint_point hwhole, htake, hdrop]
      by_cases hempty : (whole.isEmpty && more.isEmpty) = true
      · simp_all
      · simp only [hempty, Bool.false_eq_true, ↓reduceIte, Option.some.injEq]
        simp_all
    · -- a second point stands where only an exponent could
      have hdrop : (fraction ++ '.' :: rest).dropWhile Char.isDigit = '.' :: rest := by
        rw [List.dropWhile_append_of_pos hfraction]
        simp
      have hnone : Decimal.read? (whole ++ '.' :: (fraction ++ '.' :: rest)) = none := by
        rw [Decimal.read?, splitPoint_point hwhole, hdrop]
        simp
      have hnot : ¬ IsNumeral (whole ++ '.' :: (fraction ++ '.' :: rest)) := by
        intro hnumeral
        have hpoint := hnumeral.point
        simp at hpoint
        omega
      rw [hnone]
      simp [hnot]

end numerals

theorem not_isNumeralChar_of_isBlank {c : Char} (h : Text.isBlank c = true) :
    isNumeralChar c = false := by
  rw [Bool.eq_false_iff, Ne, isNumeralChar_iff]
  rintro (hdigit | rfl)
  · rw [Text.not_isBlank_of_isDigit hdigit] at h
    contradiction
  · contradiction

theorem of_mem_signs {c : Char} {token : Token} (h : (c, token) ∈ signs) :
    isNumeralChar c = false ∧ Text.isBlank c = false := by
  have hall : ∀ entry ∈ signs, isNumeralChar entry.1 = false ∧ Text.isBlank entry.1 = false := by
    decide
  exact hall _ h

namespace Splits

variable {cs : List Char} {ts us : List Token}

theorem tokens?_eq (h : Splits cs ts) : tokens? cs = some ts := by
  induction h with
  | nil => rfl
  | blank hblank _ ih =>
    rw [tokens?_cons (not_isNumeralChar_of_isBlank hblank), tokensOfChar, if_pos hblank, ih]
    rfl
  | sign hsign _ ih =>
    obtain ⟨hnumeral, hblank⟩ := of_mem_signs hsign
    rw [tokens?_cons hnumeral, tokensOfChar, hblank, sign?_eq_some_iff.2 hsign, ih]
    rfl
  | @numeral run rest ts hrun hrest _ ih =>
    have hchars : ∀ c ∈ run, isNumeralChar c = true :=
      fun c hc => isNumeralChar_iff.2 (hrun.chars c hc)
    have hstop : ∀ c ∈ rest.head?, isNumeralChar c = false := fun c hc => by
      rw [Bool.eq_false_iff, Ne, isNumeralChar_iff]
      exact hrest c hc
    have hread := (read?_eq_some_iff hrun.chars).2 ⟨hrun, rfl⟩
    have hne : (run.reverse ++ []).isEmpty = false := by
      obtain ⟨c, hc, _⟩ := hrun.digit
      simpa using List.ne_nil_of_mem hc
    rw [tokens?, tokensFrom_run [] run rest hchars, tokensFrom_stop _ hstop, tokensOfRun, hne,
      List.append_nil, List.reverse_reverse, hread, ih]
    rfl

theorem of_run {run rest : List Char} {numeral : List Token}
    (hrun : ∀ c ∈ run, isNumeralChar c = true) (hread : tokensOfRun run = some numeral)
    (hstop : ∀ c ∈ rest.head?, isNumeralChar c = false) (hrest : Splits rest us) :
    Splits (run.reverse ++ rest) (numeral ++ us) := by
  rw [tokensOfRun] at hread
  cases run with
  | nil =>
    obtain rfl := Option.some.inj hread
    exact hrest
  | cons c run =>
    have hchars : ∀ d ∈ (c :: run).reverse, d.isDigit = true ∨ d = '.' :=
      fun d hd => isNumeralChar_iff.1 (hrun d (List.mem_reverse.1 hd))
    obtain ⟨d, hd, rfl⟩ := Option.map_eq_some_iff.1 hread
    obtain ⟨hnumeral, rfl⟩ := (read?_eq_some_iff hchars).1 hd
    exact .numeral hnumeral (fun d hd => by rw [← isNumeralChar_iff]; simp [hstop d hd]) hrest

theorem of_char {c : Char} {here : List Token} (hread : tokensOfChar c = some here)
    (hrest : Splits cs us) : Splits (c :: cs) (here ++ us) := by
  rw [tokensOfChar] at hread
  by_cases hblank : Text.isBlank c = true
  · rw [if_pos hblank] at hread
    obtain rfl := Option.some.inj hread
    exact .blank hblank hrest
  · rw [if_neg hblank] at hread
    obtain ⟨token, htoken, rfl⟩ := Option.map_eq_some_iff.1 hread
    exact .sign (sign?_eq_some_iff.1 htoken) hrest

theorem of_tokensFrom {run : List Char} (hrun : ∀ c ∈ run, isNumeralChar c = true)
    (h : tokensFrom run cs = some ts) : Splits (run.reverse ++ cs) ts := by
  -- the run in hand is kept in reverse, and it grows until another character ends it
  induction cs generalizing run ts with
  | nil =>
    have hstop : ∀ d ∈ ([] : List Char).head?, isNumeralChar d = false := by simp
    have hsplits := of_run hrun h hstop .nil
    rwa [List.append_nil ts] at hsplits
  | cons c cs ih =>
    by_cases hc : isNumeralChar c = true
    · rw [tokensFrom, if_pos hc] at h
      have hrun' : ∀ d ∈ c :: run, isNumeralChar d = true := by simpa [hc] using hrun
      simpa using ih hrun' h
    · have hstop : ∀ d ∈ (c :: cs).head?, isNumeralChar d = false := by simpa using hc
      have hnil : ∀ d ∈ ([] : List Char), isNumeralChar d = true := by simp
      rw [tokensFrom_stop run hstop, tokens?_cons (by simpa using hc)] at h
      simp only [Option.bind_eq_bind, Option.bind_eq_some_iff, Option.pure_def,
        Option.some.injEq] at h
      obtain ⟨numeral, hnumeral, later, ⟨here, hhere, rest, hrest, rfl⟩, rfl⟩ := h
      exact of_run hrun hnumeral hstop (of_char hhere (ih hnil hrest))

end Splits

theorem tokens?_eq_some_iff {cs : List Char} {ts : List Token} :
    tokens? cs = some ts ↔ Splits cs ts := by
  constructor
  · intro h
    have hnil : ∀ c ∈ ([] : List Char), isNumeralChar c = true := by simp
    exact Splits.of_tokensFrom hnil h
  · exact Splits.tokens?_eq

theorem splits_append_iff {cs ds : List Char} {ts : List Token} (h : Apart cs ds) :
    Splits (cs ++ ds) ts ↔ ∃ us vs, ts = us ++ vs ∧ Splits cs us ∧ Splits ds vs := by
  simp only [← tokens?_eq_some_iff, tokens?_append h, Option.bind_eq_bind, Option.bind_eq_some_iff,
    Option.pure_def, Option.some.injEq]
  constructor
  · rintro ⟨us, hus, vs, hvs, rfl⟩
    exact ⟨us, vs, rfl, hus, hvs⟩
  · rintro ⟨us, vs, rfl, hus, hvs⟩
    exact ⟨us, hus, vs, hvs, rfl⟩

theorem Splits.append {cs ds : List Char} {ts us : List Token} (hts : Splits cs ts)
    (h : Apart cs ds) (hus : Splits ds us) : Splits (cs ++ ds) (ts ++ us) :=
  (splits_append_iff h).2 ⟨ts, us, rfl, hts, hus⟩

end FormulaLedger.Formula
