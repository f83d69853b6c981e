import FormulaLedger.Period
import FormulaLedger.Proofs.Decimal.Reading
import FormulaLedger.Proofs.Json.Scalar
import FormulaLedger.Proofs.Text.Trim

set_option autoImplicit false

namespace FormulaLedger

open Json (NoDigit)

namespace Date

theorem isDigit_of_mem_padded {width n : Nat} {c : Char} (h : c ∈ padded width n) :
    c.isDigit = true := by
  rcases List.mem_append.1 h with h | h
  · exact Decimal.isDigit_of_mem_zeros c h
  · exact Nat.isDigit_of_mem_toDigits (by decide) (by decide) h

theorem ofDigits_padded (width n : Nat) : Decimal.ofDigits (padded width n) = n := by
  rw [padded, Decimal.ofDigits_append, Decimal.ofDigits_zeros, Decimal.ofDigits_eq,
    Nat.ofDigitChars_ten_toDigits, Nat.mul_zero, Nat.zero_add]

theorem padded_ne_nil (width n : Nat) : padded width n ≠ [] :=
  List.append_ne_nil_of_right_ne_nil _ Nat.toDigits_ne_nil

theorem length_padded {width n : Nat} (hw : 0 < width) (hn : n < 10 ^ width) :
    (padded width n).length = width := by
  have hle := (Nat.length_toDigits_le_iff (by decide) hw).2 hn
  rw [padded, List.length_append, List.length_replicate]
  omega

def isDateChar (c : Char) : Bool := c.isDigit || c == '-' || c == '+'

theorem not_isBlank_of_isDateChar {c : Char} (h : isDateChar c = true) :
    Text.isBlank c = false := by
  simp only [isDateChar, Bool.or_eq_true, beq_iff_eq] at h
  rcases h with (hdigit | rfl) | rfl
  · exact Text.not_isBlank_of_isDigit hdigit
  · rfl
  · rfl

theorem isDateChar_of_mem_padded {width n : Nat} {c : Char} (h : c ∈ padded width n) :
    isDateChar c = true := by
  rw [isDateChar, isDigit_of_mem_padded h]
  rfl

theorem isDateChar_of_mem {d : Date} {c : Char} (h : c ∈ d.textChars) : isDateChar c = true := by
  have hyear : ∀ {y : Int}, c ∈ yearChars y → isDateChar c = true := by
    intro y hc
    unfold yearChars at hc
    split at hc
    · rcases List.mem_cons.1 hc with rfl | hc
      · rfl
      · exact isDateChar_of_mem_padded hc
    · split at hc
      · rcases List.mem_cons.1 hc with rfl | hc
        · rfl
        · exact isDateChar_of_mem_padded hc
      · exact isDateChar_of_mem_padded hc
  rw [textChars] at h
  simp only [List.mem_append, List.mem_cons] at h
  rcases h with (hc | rfl | hc) | rfl | hc
  · exact hyear hc
  · rfl
  · exact isDateChar_of_mem_padded hc
  · rfl
  · exact isDateChar_of_mem_padded hc

theorem trimChars_textChars (d : Date) : Text.trimChars d.textChars = d.textChars :=
  Text.trimChars_of_forall fun _ hc => not_isBlank_of_isDateChar (isDateChar_of_mem hc)

theorem of?_eq_some_iff {year : Int} {month day : Nat} {d : Date} :
    of? year month day = some d ↔ d.year = year ∧ d.month = month ∧ d.day = day := by
  obtain ⟨y, m, n, hvalid⟩ := d
  rw [of?]
  split
  · simp [eq_comm]
  · next hnot =>
    simp only [reduceCtorEq, false_iff]
    rintro ⟨rfl, rfl, rfl⟩
    exact hnot hvalid

theorem bounds (d : Date) : -262143 ≤ d.year ∧ d.year ≤ 262142 ∧ d.month < 10 ^ 2 ∧
    d.day < 10 ^ 2 := by
  have hvalid := d.valid
  simp only [isDay, Bool.and_eq_true, decide_eq_true_eq] at hvalid
  have hdays : daysInMonth d.year d.month ≤ 31 := by
    unfold daysInMonth
    split <;> (try split) <;> decide
  omega

end Date

namespace Period

variable {cs rest : List Char}

theorem takeWhile_of_noDigit (h : NoDigit cs) : cs.takeWhile Char.isDigit = [] :=
  Text.takeWhile_run (List.forall_mem_nil _) h

theorem readDigits?_append {width : Nat} {ds : List Char} (hne : ds ≠ [])
    (hds : ∀ c ∈ ds, c.isDigit = true) (hwidth : ds.length ≤ width) (hrest : NoDigit rest) :
    readDigits? width (ds ++ rest) = some (Decimal.ofDigits ds, rest) := by
  have hstop : NoDigit (rest.take (width - ds.length)) := by
    intro c hc
    rw [List.head?_take] at hc
    split at hc
    · contradiction
    · exact hrest c hc
  have htake : ((ds ++ rest).take width).takeWhile Char.isDigit = ds := by
    rw [List.take_append, List.take_of_length_le hwidth, List.takeWhile_append_of_pos hds,
      takeWhile_of_noDigit hstop, List.append_nil]
  rw [readDigits?, htake]
  simp [hne]

theorem head?_padded_append {width n : Nat} {c : Char}
    (h : c ∈ (Date.padded width n ++ rest).head?) : c.isDigit = true := by
  rw [List.head?_append_of_ne_nil _ (Date.padded_ne_nil width n)] at h
  exact Date.isDigit_of_mem_padded (List.mem_of_head? h)

theorem readField?_padded {n : Nat} (hn : n < 10 ^ 2) (hrest : NoDigit rest) :
    readField? 2 (Date.padded 2 n ++ rest) = some (n, rest) := by
  have hlength := Nat.le_of_eq (Date.length_padded (by decide) hn)
  rw [readField?, Text.dropWhile_isBlank fun c hc =>
      Text.not_isBlank_of_isDigit (head?_padded_append hc),
    readDigits?_append (Date.padded_ne_nil 2 n) (fun _ => Date.isDigit_of_mem_padded) hlength hrest,
    Date.ofDigits_padded]

theorem readDigits?_signed (n : Nat) (hrest : NoDigit rest) :
    readDigits? (Date.padded 4 n ++ rest).length (Date.padded 4 n ++ rest) = some (n, rest) := by
  rw [readDigits?_append (Date.padded_ne_nil 4 n) (fun _ => Date.isDigit_of_mem_padded)
    (by simp) hrest, Date.ofDigits_padded]

theorem readYear?_yearChars {year : Int} (hrest : NoDigit rest) :
    readYear? (Date.yearChars year ++ rest) = some (year, rest) := by
  unfold Date.yearChars
  dsimp only
  split
  · next hnegative =>
    rw [readYear?, List.cons_append, Text.dropWhile_isBlank (by simp; rfl)]
    simp only [readDigits?_signed _ hrest, Option.map_some, Option.some.injEq, Prod.mk.injEq,
      and_true]
    omega
  · split
    · next hlarge =>
      rw [readYear?, List.cons_append, Text.dropWhile_isBlank (by simp; rfl)]
      simp only [readDigits?_signed _ hrest, Option.map_some, Option.some.injEq, Prod.mk.injEq,
        and_true]
      omega
    · have hlength : (Date.padded 4 year.natAbs).length = 4 :=
        Date.length_padded (by decide) (by omega)
      have hread := readDigits?_append (Date.padded_ne_nil 4 year.natAbs)
        (fun _ => Date.isDigit_of_mem_padded) (Nat.le_of_eq hlength) hrest
      have hsign : ∀ c ∈ (Date.padded 4 year.natAbs ++ rest).head?, c.isDigit = true :=
        fun _ hc => head?_padded_append hc
      rw [readYear?, Text.dropWhile_isBlank fun c hc => Text.not_isBlank_of_isDigit (hsign c hc)]
      split
      -- a year without a sign starts with a digit
      · next heq => exact absurd (hsign '-' (by rw [heq]; rfl)) (by decide)
      · next heq => exact absurd (hsign '+' (by rw [heq]; rfl)) (by decide)
      · rw [hread, Date.ofDigits_padded]
        simp
        omega

theorem readDate?_textChars (d : Date) : readDate? d.textChars = some d := by
  obtain ⟨_, _, hmonth, hday⟩ := d.bounds
  have hyear : readYear? d.textChars =
      some (d.year, '-' :: (Date.padded 2 d.month ++ '-' :: Date.padded 2 d.day)) := by
    rw [Date.textChars, List.append_assoc, List.cons_append]
    exact readYear?_yearChars ((Json.noDigit_cons _ _).2 rfl)
  have hlast : readField? 2 (Date.padded 2 d.day) = some (d.day, []) := by
    have hread := readField?_padded hday Json.noDigit_nil
    rwa [List.append_nil] at hread
  have hmiddle : readField? 2 (Date.padded 2 d.month ++ '-' :: Date.padded 2 d.day) =
      some (d.month, '-' :: Date.padded 2 d.day) :=
    readField?_padded hmonth ((Json.noDigit_cons _ _).2 rfl)
  rw [readDate?, hyear]
  simp [expect?, hmiddle, hlast, Date.of?, d.valid]

theorem splitRange?_append {before : List Char} (h : '.' ∉ before) (after : List Char) :
    splitRange? (before ++ '.' :: '.' :: after) = some (before, after) := by
  induction before with
  | nil => rfl
  | cons c before ih =>
    obtain ⟨hc, hbefore⟩ := List.ne_and_not_mem_of_not_mem_cons h
    rw [List.cons_append, splitRange?, ih hbefore]
    · rfl
    · rintro rest rfl -
      exact hc rfl

theorem splitRange?_of_not_mem (h : '.' ∉ cs) : splitRange? cs = none := by
  induction cs with
  | nil => rfl
  | cons c cs ih =>
    obtain ⟨hc, hcs⟩ := List.ne_and_not_mem_of_not_mem_cons h
    rw [splitRange?, ih hcs]
    · rfl
    · rintro rest rfl -
      exact hc rfl

theorem between?_eq_some_iff {start stop : Date} {p : Period} :
    between? start stop = some p ↔ p.start = start ∧ p.stop = stop := by
  obtain ⟨first, last, hle⟩ := p
  rw [between?]
  split
  · simp [eq_comm]
  · next hnot =>
    simp only [reduceCtorEq, false_iff]
    rintro ⟨rfl, rfl⟩
    exact hnot hle

theorem ofYear?_eq_some_iff {year : Int} {p : Period} :
    ofYear? year = some p ↔ p.isCalendarYear = true ∧ p.start.year = year := by
  simp only [ofYear?, Option.bind_eq_bind, Option.bind_eq_some_iff, Date.of?_eq_some_iff,
    between?_eq_some_iff, isCalendarYear, Bool.and_eq_true, beq_iff_eq]
  grind

theorem toList_toString (year : Int) : (toString year).toList =
    if year < 0 then '-' :: Nat.toDigits 10 year.natAbs else Nat.toDigits 10 year.natAbs := by
  cases year with
  | ofNat n =>
    rw [Int.ofNat_eq_natCast, if_neg (Int.not_lt.2 (Int.natCast_nonneg n))]
    exact Nat.toList_repr
  | negSucc n =>
    rw [if_pos (Int.negSucc_lt_zero n), Int.toString_eq_repr, Int.repr, String.toList_append,
      Nat.toList_repr]
    rfl

theorem digits?_toDigits (n : Nat) : readSignedYear?.digits? (Nat.toDigits 10 n) = some n := by
  have hall : (Nat.toDigits 10 n).all Char.isDigit = true :=
    List.all_eq_true.2 fun _ hc => Nat.isDigit_of_mem_toDigits (by decide) (by decide) hc
  rw [readSignedYear?.digits?, hall, Decimal.ofDigits_eq, Nat.ofDigitChars_ten_toDigits]
  simp

theorem readSignedYear?_toString (year : Int) :
    readSignedYear? (toString year).toList = some year := by
  rw [toList_toString]
  split
  · rw [readSignedYear?, digits?_toDigits]
    exact congrArg some (by omega : -(year.natAbs : Int) = year)
  · have hdigit : ∀ c ∈ Nat.toDigits 10 year.natAbs, c.isDigit = true :=
      fun _ hc => Nat.isDigit_of_mem_toDigits (by decide) (by decide) hc
    unfold readSignedYear?
    split
    -- a year without a sign starts with a digit
    · next heq => exact absurd (hdigit '-' (by rw [heq]; exact List.mem_cons_self)) (by decide)
    · next heq => exact absurd (hdigit '+' (by rw [heq]; exact List.mem_cons_self)) (by decide)
    · rw [digits?_toDigits]
      exact congrArg some (by omega : (year.natAbs : Int) = year)

theorem isDateChar_of_mem_toString {year : Int} {c : Char} (h : c ∈ (toString year).toList) :
    Date.isDateChar c = true := by
  have hdigit : c ∈ Nat.toDigits 10 year.natAbs → Date.isDateChar c = true := fun hc => by
    rw [Date.isDateChar, Nat.isDigit_of_mem_toDigits (by decide) (by decide) hc]
    rfl
  rw [toList_toString] at h
  split at h
  · rcases List.mem_cons.1 h with rfl | h
    · rfl
    · exact hdigit h
  · exact hdigit h

theorem point_not_mem (h : ∀ c ∈ cs, Date.isDateChar c = true) : '.' ∉ cs :=
  fun hpoint => absurd (h '.' hpoint) (by decide)

theorem parse_rangeChars (p : Period) :
    parse (String.ofList (rangeChars p.start p.stop)) = .ok p := by
  have hchars : ∀ (d : Date) (c : Char), c ∈ d.textChars → Date.isDateChar c = true :=
    fun _ _ => Date.isDateChar_of_mem
  have htrim : Text.trimChars (rangeChars p.start p.stop) = rangeChars p.start p.stop := by
    refine Text.trimChars_of_forall fun c hc => ?_
    simp only [rangeChars, List.mem_append, List.mem_cons] at hc
    rcases hc with hc | rfl | rfl | hc
    · exact Date.not_isBlank_of_isDateChar (hchars _ c hc)
    · rfl
    · rfl
    · exact Date.not_isBlank_of_isDateChar (hchars _ c hc)
  have hsplit : splitRange? (rangeChars p.start p.stop) =
      some (p.start.textChars, p.stop.textChars) :=
    splitRange?_append (point_not_mem (hchars p.start)) _
  have hbetween : between? p.start p.stop = some p := between?_eq_some_iff.2 ⟨rfl, rfl⟩
  rw [parse, String.toList_ofList, htrim, hsplit]
  simp only [Date.trimChars_textChars, readDate?_textChars, hbetween]

theorem parse_toString {year : Int} {p : Period} (h : ofYear? year = some p) :
    parse (toString year) = .ok p := by
  have hchars : ∀ c ∈ (toString year).toList, Date.isDateChar c = true :=
    fun _ => isDateChar_of_mem_toString
  have hbounds : -(Nat.pow 2 31 : Int) ≤ year ∧ year < Nat.pow 2 31 := by
    obtain ⟨hlow, hhigh, _⟩ := p.start.bounds
    rw [(ofYear?_eq_some_iff.1 h).2] at hlow hhigh
    have hpow : Nat.pow 2 31 = 2147483648 := rfl
    omega
  have htrim : Text.trimChars (toString year).toList = (toString year).toList :=
    Text.trimChars_of_forall fun c hc => Date.not_isBlank_of_isDateChar (hchars c hc)
  rw [parse, htrim, splitRange?_of_not_mem (point_not_mem hchars), readSignedYear?_toString]
  dsimp only
  rw [if_pos hbounds, h]

theorem parse_text (p : Period) : parse p.text = .ok p := by
  rw [text, textChars]
  split
  · next hyear =>
    rw [String.ofList_toList]
    exact parse_toString (ofYear?_eq_some_iff.2 ⟨hyear, rfl⟩)
  · exact parse_rangeChars p

theorem ofYear?_isSome_iff (year : Int) :
    (ofYear? year).isSome = true ↔ -262143 ≤ year ∧ year ≤ 262142 := by
  rw [Option.isSome_iff_exists]
  constructor
  · rintro ⟨p, hp⟩
    obtain ⟨hlow, hhigh, _⟩ := p.start.bounds
    rw [(ofYear?_eq_some_iff.1 hp).2] at hlow hhigh
    exact ⟨hlow, hhigh⟩
  · rintro ⟨hlow, hhigh⟩
    have hday : ∀ month day, daysInMonth year month = 31 → day ∈ [1, 31] → month ∈ [1, 12] →
        isDay year month day = true := by
      intro month day hdays hday hmonth
      simp only [List.mem_cons, List.not_mem_nil, or_false] at hday hmonth
      simp only [isDay, hdays, Bool.and_eq_true, decide_eq_true_eq]
      omega
    have hle : (⟨year, 1, 1, hday 1 1 rfl (by decide) (by decide)⟩ : Date) ≤
        ⟨year, 12, 31, hday 12 31 rfl (by decide) (by decide)⟩ := by
      change Date.le _ _ = true
      simp [Date.le]
    exact ⟨⟨_, _, hle⟩, ofYear?_eq_some_iff.2 ⟨by simp [isCalendarYear], rfl⟩⟩

/-- Two dates make a period when they are in order, and every year that dates have makes one. A
period is read back from its text, whatever made it, so two periods are equal when their texts are,
and the text of a period that was read is as good as the one that it was read from. A calendar year
is read from its number and from its first and last day alike. -/
theorem text_reads_back :
    (∀ (start stop : Date) (p : Period), between? start stop = some p ↔
      start ≤ stop ∧ p.start = start ∧ p.stop = stop) ∧
    (∀ (year : Int) (p : Period), ofYear? year = some p ↔
      p.isCalendarYear = true ∧ p.start.year = year) ∧
    (∀ year : Int, (ofYear? year).isSome = true ↔ -262143 ≤ year ∧ year ≤ 262142) ∧
    (∀ p : Period, p.start ≤ p.stop ∧ parse p.text = .ok p) ∧
    (∀ p q : Period, p = q ↔ p.text = q.text) ∧
    (∀ (s : String) (p : Period), parse s = .ok p → parse p.text = .ok p) ∧
    ∀ (year : Int) (p : Period), ofYear? year = some p → parse (toString year) = .ok p ∧
      parse (String.ofList (rangeChars p.start p.stop)) = .ok p := by
  refine ⟨fun start stop p => ?_, fun _ _ => ofYear?_eq_some_iff, ofYear?_isSome_iff,
    fun p => ⟨p.ordered, p.parse_text⟩, fun p q => ⟨congrArg text, fun h => ?_⟩,
    fun _ p _ => p.parse_text, fun year p h => ⟨parse_toString h, p.parse_rangeChars⟩⟩
  · rw [between?_eq_some_iff]
    constructor
    · rintro ⟨rfl, rfl⟩
      exact ⟨p.ordered, rfl, rfl⟩
    · exact fun h => h.2
  · have hread := p.parse_text
    rw [h, q.parse_text] at hread
    exact (Except.ok.inj hread).symm

/-- Two years with a sign, blanks that are not written again, and a calendar year by its days. -/
theorem text_reads_back_signed :
    let p : Period := ⟨⟨-44, 3, 15, by decide⟩, ⟨12024, 12, 30, by decide⟩, by decide⟩
    let q : Period := ⟨⟨2024, 1, 1, by decide⟩, ⟨2024, 12, 31, by decide⟩, by decide⟩
    parse " -0044- 3-15 .. +12024-12-30" = .ok p ∧ p.text = "-0044-03-15..+12024-12-30" ∧
      parse p.text = .ok p ∧ ofYear? 2024 = some q ∧ parse "2024" = .ok q ∧
      parse "2024-01-01..2024-12-31" = .ok q := by
  intro p q
  have hgiven : parse " -0044- 3-15 .. +12024-12-30" = .ok p := by decide +kernel
  have hyear : ofYear? 2024 = some q := by decide +kernel
  obtain ⟨_, _, _, _, _, hagain, hcalendar⟩ := text_reads_back
  have hnumber : toString (2024 : Int) = "2024" := by decide +kernel
  have hdays : String.ofList (rangeChars q.start q.stop) = "2024-01-01..2024-12-31" := by
    decide +kernel
  obtain ⟨hshort, hlong⟩ := hcalendar 2024 q hyear
  rw [hnumber] at hshort
  rw [hdays] at hlong
  exact ⟨hgiven, by decide +kernel, hagain _ p hgiven, hyear, hshort, hlong⟩

end Period

end FormulaLedger
