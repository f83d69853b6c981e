import FormulaLedger.Proofs.Formula.Splitting

set_option autoImplicit false

namespace FormulaLedger.Formula

/-- The words of a text that has `position` characters in front of it, each with the number of
characters in front of the word. -/
inductive Words : Nat → List Char → List Lexeme → Prop
  | nil (position : Nat) : Words position [] []
  | blank {position : Nat} {c : Char} {cs : List Char} {ls : List Lexeme} :
      Text.isBlank c = true → Words (position + 1) cs ls → Words position (c :: cs) ls
  | sign {position : Nat} {c : Char} {token : Token} {cs : List Char} {ls : List Lexeme} :
      (c, token) ∈ signs → Words (position + 1) cs ls →
      Words position (c :: cs) (⟨token, position⟩ :: ls)
  | numeral {position : Nat} {run rest : List Char} {ls : List Lexeme} : IsNumeral run →
      (∀ c ∈ rest.head?, ¬ (c.isDigit = true ∨ c = '.')) → Words (position + run.length) rest ls →
      Words position (run ++ rest) (⟨.number (written run).toFloat, position⟩ :: ls)

/-- The first word that is none. The characters in front of it split into words. -/
inductive BadWord : List Char → ParseError → Prop
  | character {before rest : List Char} {ts : List Token} {c : Char} : Splits before ts →
      Text.isBlank c = false → (∀ token, (c, token) ∉ signs) → ¬ (c.isDigit = true ∨ c = '.') →
      BadWord (before ++ c :: rest) (.badCharacter c before.length)
  | numeral {before run rest : List Char} {ts : List Token} : Splits before ts →
      (∀ c ∈ before.getLast?, ¬ (c.isDigit = true ∨ c = '.')) → run ≠ [] →
      (∀ c ∈ run, c.isDigit = true ∨ c = '.') →
      (∀ c ∈ rest.head?, ¬ (c.isDigit = true ∨ c = '.')) → ¬ IsNumeral run →
      BadWord (before ++ (run ++ rest)) (.badNumeral (String.ofList run))

theorem isNumeralChar_eq_false_iff {c : Char} :
    isNumeralChar c = false ↔ ¬ (c.isDigit = true ∨ c = '.') := by
  rw [← isNumeralChar_iff, Bool.not_eq_true]

theorem IsNumeral.ne_nil {run : List Char} (h : IsNumeral run) : run ≠ [] := by
  obtain ⟨c, hc, _⟩ := h.digit
  exact List.ne_nil_of_mem hc

theorem Splits.words {cs : List Char} {ts : List Token} (h : Splits cs ts) (position : Nat) :
    ∃ ls, Words position cs ls ∧ ls.map Lexeme.token = ts := by
  induction h generalizing position with
  | nil => exact ⟨[], .nil position, rfl⟩
  | blank hblank _ ih =>
    obtain ⟨ls, hls, rfl⟩ := ih (position + 1)
    exact ⟨ls, .blank hblank hls, rfl⟩
  | sign hsign _ ih =>
    obtain ⟨ls, hls, rfl⟩ := ih (position + 1)
    exact ⟨_, .sign hsign hls, rfl⟩
  | @numeral run rest ts hrun hrest _ ih =>
    obtain ⟨ls, hls, rfl⟩ := ih (position + run.length)
    exact ⟨_, .numeral hrun hrest hls, rfl⟩

section scanning

theorem ofRun_of_isNumeral (position : Nat) {run : List Char} (h : IsNumeral run) :
    ofRun (position + run.length) run.reverse =
      .ok [⟨.number (written run).toFloat, position⟩] := by
  have hread := (read?_eq_some_iff h.chars).2 ⟨h, rfl⟩
  have hne : run.reverse.isEmpty = false := by simpa using h.ne_nil
  rw [ofRun, hne, List.reverse_reverse, hread]
  simp

theorem ofRun_of_not_isNumeral (position : Nat) {run : List Char} (hne : run ≠ [])
    (hchars : ∀ c ∈ run, c.isDigit = true ∨ c = '.') (h : ¬ IsNumeral run) :
    ofRun position run.reverse = .error (.badNumeral (String.ofList run)) := by
  have hread : Decimal.read? run = none :=
    Option.eq_none_iff_forall_ne_some.2 fun d hd => h ((read?_eq_some_iff hchars).1 hd).1
  have hne : run.reverse.isEmpty = false := by simpa using hne
  rw [ofRun, hne, List.reverse_reverse, hread]
  rfl

theorem ofChar_of_isBlank (position : Nat) {c : Char} (h : Text.isBlank c = true) :
    ofChar position c = .ok [] := if_pos h

theorem ofChar_of_mem_signs (position : Nat) {c : Char} {token : Token} (h : (c, token) ∈ signs) :
    ofChar position c = .ok [⟨token, position⟩] := by
  rw [ofChar, (of_mem_signs h).2, sign?_eq_some_iff.2 h]
  rfl

theorem ofChar_of_bad (position : Nat) {c : Char} (hblank : Text.isBlank c = false)
    (hsign : ∀ token, (c, token) ∉ signs) :
    ofChar position c = .error (.badCharacter c position) := by
  have hnone : sign? c = none :=
    Option.eq_none_iff_forall_ne_some.2 fun token h => hsign token (sign?_eq_some_iff.1 h)
  rw [ofChar, hblank, hnone]
  rfl

theorem Words.scanFrom_eq {position : Nat} {cs : List Char} {ls : List Lexeme}
    (h : Words position cs ls) : scanFrom position [] cs = .ok ls := by
  induction h with
  | nil position => rfl
  | blank hblank _ ih =>
    rw [scanFrom_cons _ (not_isNumeralChar_of_isBlank hblank), ofChar_of_isBlank _ hblank, ih]
    rfl
  | sign hsign _ ih =>
    rw [scanFrom_cons _ (of_mem_signs hsign).1, ofChar_of_mem_signs _ hsign, ih]
    rfl
  | numeral hrun hrest _ ih =>
    have hstop := fun c hc => isNumeralChar_eq_false_iff.2 (hrest c hc)
    rw [scanFrom_run _ _ _ _ fun c hc => isNumeralChar_iff.2 (hrun.chars c hc),
      scanFrom_stop _ _ hstop, List.append_nil, ofRun_of_isNumeral _ hrun, ih]
    rfl

theorem Splits.scanFrom_append {cs ds : List Char} {ts : List Token} (h : Splits cs ts)
    (hapart : Apart cs ds) :
    ∃ ls, scanFrom 0 [] (cs ++ ds) = do
      let later ← scanFrom cs.length [] ds
      return ls ++ later := by
  obtain ⟨ls, hwords, _⟩ := h.words 0
  refine ⟨ls, ?_⟩
  rw [Formula.scanFrom_append 0 hapart, hwords.scanFrom_eq, Nat.zero_add]
  rfl

theorem BadWord.scanFrom_eq {cs : List Char} {e : ParseError} (h : BadWord cs e) :
    scanFrom 0 [] cs = .error e := by
  cases h with
  | @character before rest ts c hbefore hblank hsign hchar =>
    have hc := isNumeralChar_eq_false_iff.2 hchar
    have hapart : Apart before (c :: rest) := apart_of_head fun d hd => by
      rw [← Option.some.inj hd]
      exact hc
    obtain ⟨ls, hscan⟩ := hbefore.scanFrom_append hapart
    rw [hscan, scanFrom_cons _ hc, ofChar_of_bad _ hblank hsign]
    rfl
  | @numeral before run rest ts hbefore hlast hne hchars hrest hrun =>
    have hapart : Apart before (run ++ rest) := fun c hc d _ hnumeral =>
      absurd (isNumeralChar_iff.1 hnumeral) (hlast c hc)
    have hstop : ∀ c ∈ rest.head?, isNumeralChar c = false :=
      fun c hc => isNumeralChar_eq_false_iff.2 (hrest c hc)
    obtain ⟨ls, hscan⟩ := hbefore.scanFrom_append hapart
    rw [hscan, scanFrom_run _ _ _ _ (fun c hc => isNumeralChar_iff.2 (hchars c hc)),
      scanFrom_stop _ _ hstop, List.append_nil, ofRun_of_not_isNumeral _ hne hchars hrun]
    rfl

end scanning

section firstWord

variable {cs ds : List Char} {ts : List Token} {e : ParseError}

theorem BadWord.prepend (h : BadWord ds e) (hsplits : Splits cs ts) (hapart : Apart cs ds) :
    ∃ e', BadWord (cs ++ ds) e' := by
  cases h with
  | @character before rest us c hbefore hblank hsign hchar =>
    have hbefore' : Apart cs before := by
      cases before with
      | nil => exact fun _ _ d hd => by contradiction
      | cons d before => exact hapart
    refine ⟨.badCharacter c (cs ++ before).length, ?_⟩
    rw [← List.append_assoc]
    exact .character (hsplits.append hbefore' hbefore) hblank hsign hchar
  | @numeral before run rest us hbefore hlast hne hchars hrest hrun =>
    refine ⟨.badNumeral (String.ofList run), ?_⟩
    rw [← List.append_assoc]
    cases before with
    | nil =>
      rw [List.append_nil]
      refine .numeral hsplits ?_ hne hchars hrest hrun
      intro c hc hnumeral
      cases run with
      | nil => exact absurd rfl hne
      | cons d run =>
        have hd := hapart c hc d rfl (isNumeralChar_iff.2 hnumeral)
        exact isNumeralChar_eq_false_iff.1 hd (hchars d List.mem_cons_self)
    | cons d before =>
      refine .numeral (hsplits.append hapart hbefore) ?_ hne hchars hrest hrun
      intro c hc
      rw [List.getLast?_append] at hc
      exact hlast c (by simpa using hc)

theorem exists_first_word (c : Char) (cs : List Char) :
    (∃ ds es ts, c :: cs = ds ++ es ∧ ds ≠ [] ∧ Splits ds ts ∧ Apart ds es) ∨
      ∃ e, BadWord (c :: cs) e := by
  by_cases hnumeral : isNumeralChar c = true
  · have hrun : ∀ d ∈ (c :: cs).takeWhile isNumeralChar, d.isDigit = true ∨ d = '.' :=
      fun d hd => isNumeralChar_iff.1 (List.mem_takeWhile_imp hd)
    have hstop : ∀ d ∈ ((c :: cs).dropWhile isNumeralChar).head?, isNumeralChar d = false := by
      intro d hd
      have hnot := List.head?_dropWhile_not isNumeralChar (c :: cs)
      rw [Option.mem_def.1 hd] at hnot
      exact hnot
    have hne : (c :: cs).takeWhile isNumeralChar ≠ [] := by simp [hnumeral]
    have hsplit := List.takeWhile_append_dropWhile (p := isNumeralChar) (l := c :: cs)
    generalize (c :: cs).takeWhile isNumeralChar = run at hrun hne hsplit
    generalize (c :: cs).dropWhile isNumeralChar = rest at hstop hsplit
    by_cases hvalid : IsNumeral run
    · have hsplits : Splits (run ++ []) _ := .numeral hvalid (by simp) .nil
      rw [List.append_nil] at hsplits
      exact .inl ⟨run, rest, _, hsplit.symm, hne, hsplits, apart_of_head hstop⟩
    · right
      rw [← hsplit]
      exact ⟨_, .numeral .nil (by simp) hne hrun
        (fun d hd => isNumeralChar_eq_false_iff.1 (hstop d hd)) hvalid⟩
  · have hapart : Apart [c] cs := fun d hd _ _ h => absurd h (by
      rw [← Option.some.inj hd]
      exact hnumeral)
    by_cases hblank : Text.isBlank c = true
    · exact .inl ⟨[c], cs, [], rfl, List.cons_ne_nil _ _, .blank hblank .nil, hapart⟩
    · by_cases hsign : ∃ token, (c, token) ∈ signs
      · obtain ⟨token, hsign⟩ := hsign
        exact .inl ⟨[c], cs, [token], rfl, List.cons_ne_nil _ _, .sign hsign .nil, hapart⟩
      · right
        refine ⟨_, .character .nil (by simpa using hblank) (fun token h => hsign ⟨token, h⟩) ?_⟩
        rwa [← isNumeralChar_iff]

theorem splits_or_badWord (cs : List Char) : (∃ ts, Splits cs ts) ∨ ∃ e, BadWord cs e := by
  induction hlength : cs.length using Nat.strongRecOn generalizing cs with
  | ind n ih =>
    cases cs with
    | nil => exact .inl ⟨[], .nil⟩
    | cons c cs =>
      rcases exists_first_word c cs with ⟨ds, es, ts, heq, hne, hsplits, hapart⟩ | hbad
      · have hlt : es.length < n := by
          have hpos := List.length_pos_iff.2 hne
          have htotal := congrArg List.length heq
          rw [List.length_append] at htotal
          omega
        rw [heq]
        rcases ih es.length hlt es rfl with ⟨us, hus⟩ | ⟨e, he⟩
        · exact .inl ⟨ts ++ us, hsplits.append hapart hus⟩
        · exact .inr (he.prepend hsplits hapart)
      · exact .inr hbad

end firstWord

theorem scan_eq_ok_iff {text : String} {ls : List Lexeme} :
    scan text = .ok ls ↔ Words 0 text.toList ls := by
  constructor
  · intro h
    rcases splits_or_badWord text.toList with ⟨ts, hts⟩ | ⟨e, he⟩
    · obtain ⟨ls', hwords, _⟩ := hts.words 0
      have heq := hwords.scanFrom_eq
      rw [← scan, h] at heq
      rwa [Except.ok.inj heq]
    · have heq := he.scanFrom_eq
      rw [← scan, h] at heq
      contradiction
  · exact Words.scanFrom_eq

theorem scan_eq_error_iff {text : String} {e : ParseError} :
    scan text = .error e ↔ BadWord text.toList e := by
  constructor
  · intro h
    rcases splits_or_badWord text.toList with ⟨ts, hts⟩ | ⟨e', he⟩
    · obtain ⟨ls, hwords, _⟩ := hts.words 0
      have heq := hwords.scanFrom_eq
      rw [← scan, h] at heq
      contradiction
    · have heq := he.scanFrom_eq
      rw [← scan, h] at heq
      rwa [Except.error.inj heq]
  · exact BadWord.scanFrom_eq

end FormulaLedger.Formula
