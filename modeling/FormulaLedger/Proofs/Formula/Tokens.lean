import FormulaLedger.Formula.Parser

/-!
Reading by tokens alone. A text is scanned piece by piece, wherever no numeral goes on from one piece
into the next. Positions only say where a reading fails, so whether a text is a formula, and which
one, is settled by its tokens, and the tokens of pieces with blanks between them are the tokens of
the pieces.
-/

set_option autoImplicit false

namespace FormulaLedger.Formula

def bare (found : Except ParseError (List Lexeme)) : Option (List Token) :=
  found.toOption.map fun ls => ls.map Lexeme.token

def tokensOfRun (run : List Char) : Option (List Token) :=
  if run.isEmpty then some []
  else (Decimal.read? run.reverse).map fun d => [.number d.toFloat]

def tokensOfChar (c : Char) : Option (List Token) :=
  if Text.isBlank c then some [] else (sign? c).map fun token => [token]

def tokensFrom (run : List Char) : List Char → Option (List Token)
  | [] => tokensOfRun run
  | c :: cs =>
    if isNumeralChar c then tokensFrom (c :: run) cs
    else do
      let numeral ← tokensOfRun run
      let here ← tokensOfChar c
      let later ← tokensFrom [] cs
      return numeral ++ here ++ later

def tokens? (cs : List Char) : Option (List Token) := tokensFrom [] cs

theorem bare_ofRun (position : Nat) (run : List Char) :
    bare (ofRun position run) = tokensOfRun run := by
  rw [ofRun, tokensOfRun]
  by_cases hempty : run.isEmpty
  · rw [if_pos hempty, if_pos hempty]
    rfl
  · rw [if_neg hempty, if_neg hempty]
    cases Decimal.read? run.reverse with
    | some d => rfl
    | none => rfl

theorem bare_ofChar (position : Nat) (c : Char) : bare (ofChar position c) = tokensOfChar c := by
  rw [ofChar, tokensOfChar]
  by_cases hblank : Text.isBlank c
  · rw [if_pos hblank, if_pos hblank]
    rfl
  · rw [if_neg hblank, if_neg hblank]
    cases sign? c with
    | some token => rfl
    | none => rfl

theorem bare_append (first later : Except ParseError (List Lexeme)) :
    bare (do
      let here ← first
      let rest ← later
      return here ++ rest) = do
        let here ← bare first
        let rest ← bare later
        return here ++ rest := by
  cases first with
  | error e => rfl
  | ok here =>
    cases later with
    | error e => rfl
    | ok rest => exact congrArg some List.map_append

theorem bare_scanFrom (position : Nat) (run cs : List Char) :
    bare (scanFrom position run cs) = tokensFrom run cs := by
  induction cs generalizing position run with
  | nil => exact bare_ofRun position run
  | cons c cs ih =>
    rw [scanFrom, tokensFrom]
    by_cases hnumeral : isNumeralChar c
    · rw [if_pos hnumeral, if_pos hnumeral]
      exact ih (position + 1) (c :: run)
    · rw [if_neg hnumeral, if_neg hnumeral, ← bare_ofRun position run, ← bare_ofChar position c,
        ← ih (position + 1) []]
      cases ofRun position run with
      | error e => rfl
      | ok numeral =>
        cases ofChar position c with
        | error e => rfl
        | ok here =>
          cases scanFrom (position + 1) [] cs with
          | error e => rfl
          | ok later =>
            change some ((numeral ++ here ++ later).map Lexeme.token) = _
            rw [List.map_append, List.map_append]
            rfl

section scanning

theorem scanFrom_run (position : Nat) (run cs ds : List Char)
    (h : ∀ c ∈ cs, isNumeralChar c = true) :
    scanFrom position run (cs ++ ds) = scanFrom (position + cs.length) (cs.reverse ++ run) ds := by
  induction cs generalizing position run with
  | nil => rfl
  | cons c cs ih =>
    have hc : isNumeralChar c = true := h c List.mem_cons_self
    have hlength : position + (c :: cs).length = position + 1 + cs.length := by
      rw [List.length_cons]
      omega
    rw [List.cons_append, scanFrom, if_pos hc,
      ih (position + 1) (c :: run) fun d hd => h d (List.mem_cons_of_mem _ hd), hlength]
    simp

theorem scanFrom_cons (position : Nat) {c : Char} (h : isNumeralChar c = false) (cs : List Char) :
    scanFrom position [] (c :: cs) = do
      let here ← ofChar position c
      let later ← scanFrom (position + 1) [] cs
      return here ++ later := by
  have hc : ¬ isNumeralChar c = true := by simp [h]
  rw [scanFrom, if_neg hc]
  rfl

theorem scanFrom_stop (position : Nat) (run : List Char) {rest : List Char}
    (h : ∀ c ∈ rest.head?, isNumeralChar c = false) :
    scanFrom position run rest = do
      let numeral ← ofRun position run
      let later ← scanFrom position [] rest
      return numeral ++ later := by
  cases rest with
  | nil =>
    have hnil : ofRun position [] = .ok [] := rfl
    rw [scanFrom, scanFrom, hnil]
    cases ofRun position run with
    | error e => rfl
    | ok numeral => exact congrArg Except.ok (List.append_nil numeral).symm
  | cons c cs =>
    have hc : ¬ isNumeralChar c = true := by simp [h c rfl]
    rw [scanFrom_cons position (h c rfl), scanFrom, if_neg hc]
    cases ofRun position run with
    | error e => rfl
    | ok numeral =>
      cases ofChar position c with
      | error e => rfl
      | ok here =>
        cases scanFrom (position + 1) [] cs with
        | error e => rfl
        | ok later => exact congrArg Except.ok (List.append_assoc numeral here later)

/-- No numeral goes on from one piece of text into the next. -/
def Apart (cs ds : List Char) : Prop :=
  ∀ c ∈ cs.getLast?, ∀ d ∈ ds.head?, isNumeralChar c = true → isNumeralChar d = false

theorem apart_nil (ds : List Char) : Apart [] ds := by
  intro c hc
  contradiction

theorem apart_of_head {cs ds : List Char} (h : ∀ d ∈ ds.head?, isNumeralChar d = false) :
    Apart cs ds := fun _ _ d hd _ => h d hd

theorem Apart.tail {c : Char} {cs ds : List Char} (h : Apart (c :: cs) ds) : Apart cs ds := by
  cases cs with
  | nil => exact apart_nil ds
  | cons d cs => exact h

theorem scanFrom_pieces (position : Nat) {run cs ds : List Char} (hapart : Apart cs ds)
    (hrun : cs = [] → run ≠ [] → ∀ d ∈ ds.head?, isNumeralChar d = false) :
    scanFrom position run (cs ++ ds) = do
      let before ← scanFrom position run cs
      let after ← scanFrom (position + cs.length) [] ds
      return before ++ after := by
  induction cs generalizing position run with
  | nil =>
    cases run with
    | nil =>
      have hnil : scanFrom position [] [] = .ok [] := rfl
      rw [List.nil_append, hnil, List.length_nil, Nat.add_zero]
      cases scanFrom position [] ds <;> rfl
    | cons c run =>
      rw [List.nil_append, scanFrom_stop _ _ (hrun rfl (List.cons_ne_nil c run))]
      rfl
  | cons c cs ih =>
    have hlength : position + (c :: cs).length = position + 1 + cs.length := by
      rw [List.length_cons]
      omega
    rw [List.cons_append, scanFrom, scanFrom, hlength]
    by_cases hnumeral : isNumeralChar c
    · rw [if_pos hnumeral, if_pos hnumeral]
      refine ih (position + 1) hapart.tail fun hnil _ => ?_
      rw [hnil] at hapart
      exact fun d hd => hapart c rfl d hd hnumeral
    · rw [if_neg hnumeral, if_neg hnumeral,
        ih (position + 1) hapart.tail fun _ hne => absurd rfl hne]
      cases ofRun position run with
      | error e => rfl
      | ok numeral =>
        cases ofChar position c with
        | error e => rfl
        | ok here =>
          cases scanFrom (position + 1) [] cs with
          | error e => rfl
          | ok later =>
            cases scanFrom (position + 1 + cs.length) [] ds with
            | error e => rfl
            | ok after =>
              exact congrArg Except.ok (List.append_assoc (numeral ++ here) later after).symm

theorem scanFrom_append (position : Nat) {cs ds : List Char} (h : Apart cs ds) :
    scanFrom position [] (cs ++ ds) = do
      let before ← scanFrom position [] cs
      let after ← scanFrom (position + cs.length) [] ds
      return before ++ after :=
  scanFrom_pieces position h fun _ hne => absurd rfl hne

end scanning

theorem tokensFrom_run (run cs ds : List Char) (h : ∀ c ∈ cs, isNumeralChar c = true) :
    tokensFrom run (cs ++ ds) = tokensFrom (cs.reverse ++ run) ds := by
  rw [← bare_scanFrom 0, scanFrom_run _ _ _ _ h, bare_scanFrom]

theorem tokensFrom_stop (run : List Char) {rest : List Char}
    (h : ∀ c ∈ rest.head?, isNumeralChar c = false) :
    tokensFrom run rest = do
      let numeral ← tokensOfRun run
      let later ← tokens? rest
      return numeral ++ later := by
  rw [← bare_scanFrom 0, scanFrom_stop _ _ h, bare_append, bare_ofRun, bare_scanFrom, tokens?]

theorem tokens?_cons {c : Char} (h : isNumeralChar c = false) (cs : List Char) :
    tokens? (c :: cs) = do
      let here ← tokensOfChar c
      let later ← tokens? cs
      return here ++ later := by
  rw [tokens?, ← bare_scanFrom 0, scanFrom_cons _ h, bare_append, bare_ofChar, bare_scanFrom,
    tokens?]

theorem tokens?_append {cs ds : List Char} (h : Apart cs ds) :
    tokens? (cs ++ ds) = do
      let before ← tokens? cs
      let after ← tokens? ds
      return before ++ after := by
  rw [tokens?, ← bare_scanFrom 0, scanFrom_append _ h, bare_append, bare_scanFrom, bare_scanFrom,
    tokens?, tokens?]

theorem tokens?_blank (cs ds : List Char) :
    tokens? (cs ++ ' ' :: ds) = do
      let before ← tokens? cs
      let after ← tokens? ds
      return before ++ after := by
  have hblank : tokensOfChar ' ' = some [] := rfl
  have hnumeral : isNumeralChar ' ' = false := rfl
  have hapart : Apart cs (' ' :: ds) := by
    apply apart_of_head
    intro d hd
    rw [← Option.some.inj hd]
    exact hnumeral
  rw [tokens?_append hapart, tokens?_cons hnumeral, hblank]
  cases tokens? ds <;> rfl

theorem tokens?_flatMap (pieces : List (List Char)) :
    tokens? (pieces.flatMap fun cs => cs ++ [' ']) = (pieces.mapM tokens?).map List.flatten := by
  induction pieces with
  | nil => rfl
  | cons cs pieces ih =>
    have happend : (cs :: pieces).flatMap (fun cs => cs ++ [' ']) =
        cs ++ ' ' :: pieces.flatMap fun cs => cs ++ [' '] := by simp
    rw [happend, tokens?_blank, ih, List.mapM_cons]
    cases tokens? cs with
    | none => rfl
    | some ts =>
      cases pieces.mapM tokens? with
      | none => rfl
      | some tss => rfl

theorem tokens?_intercalate (pieces : List (List Char)) :
    tokens? ([' '].intercalate pieces) = (pieces.mapM tokens?).map List.flatten := by
  induction pieces with
  | nil => rfl
  | cons cs pieces ih =>
    cases pieces with
    | nil =>
      rw [List.intercalate_singleton, List.mapM_cons]
      cases tokens? cs with
      | none => rfl
      | some ts => simp
    | cons ds pieces =>
      have happend : [' '].intercalate (cs :: ds :: pieces) =
          cs ++ ' ' :: [' '].intercalate (ds :: pieces) := by
        rw [List.intercalate_cons_cons]
        simp
      rw [happend, tokens?_blank, ih]
      generalize ds :: pieces = rest
      rw [List.mapM_cons]
      cases tokens? cs with
      | none => rfl
      | some ts =>
        cases rest.mapM tokens? with
        | none => rfl
        | some tss => rfl

def Reading.next? (r : Reading) (token : Token) : Option Reading := (r.step ⟨token, 0⟩).toOption

inductive Reading.Next : Reading → Token → Reading → Prop
  | number {frame : Frame} {outer : List Frame} (value : Float) :
      Next ⟨frame, outer, none⟩ (.number value) ⟨frame, outer, some (.number value)⟩
  | opening {frame : Frame} {outer : List Frame} :
      Next ⟨frame, outer, none⟩ .opening ⟨.fresh, frame :: outer, none⟩
  | operator {frame : Frame} {outer : List Frame} {last : Formula} (op : Operator) :
      Next ⟨frame, outer, some last⟩ (.operator op) ⟨frame.extend last op, outer, none⟩
  | closing {frame around : Frame} {outer : List Frame} {last : Formula} :
      Next ⟨frame, around :: outer, some last⟩ .closing ⟨around, outer, some (frame.close last)⟩

theorem Reading.next?_eq_some_iff {r r' : Reading} {token : Token} :
    r.next? token = some r' ↔ r.Next token r' := by
  constructor
  · intro h
    obtain ⟨frame, outer, operand⟩ := r
    cases operand with
    | none =>
      cases token with
      | number value =>
        obtain rfl := Option.some.inj h
        exact .number value
      | opening =>
        obtain rfl := Option.some.inj h
        exact .opening
      | operator op => contradiction
      | closing => contradiction
    | some last =>
      cases token with
      | operator op =>
        obtain rfl := Option.some.inj h
        exact .operator op
      | closing =>
        cases outer with
        | nil => contradiction
        | cons around outer =>
          obtain rfl := Option.some.inj h
          exact .closing
      | number value => contradiction
      | opening => contradiction
  · intro h
    cases h <;> rfl

theorem Reading.toOption_step (r : Reading) (l : Lexeme) :
    (r.step l).toOption = r.next? l.token := by
  obtain ⟨token, position⟩ := l
  obtain ⟨frame, outer, operand⟩ := r
  cases operand with
  | none => cases token <;> rfl
  | some last =>
    cases token with
    | closing => cases outer <;> rfl
    | number value => rfl
    | operator op => rfl
    | opening => rfl

theorem Reading.toOption_foldlM (ls : List Lexeme) (r : Reading) :
    (ls.foldlM Reading.step r).toOption = (ls.map Lexeme.token).foldlM Reading.next? r := by
  induction ls generalizing r with
  | nil => rfl
  | cons l ls ih =>
    rw [List.foldlM_cons, List.map_cons, List.foldlM_cons, ← r.toOption_step l]
    cases r.step l with
    | error e => rfl
    | ok r' => exact ih r'

def Nests : Nat → List Token → Prop
  | depth, [] => depth = 0
  | depth, .opening :: ts => depth < maxNesting ∧ Nests (depth + 1) ts
  | 0, .closing :: _ => False
  | depth + 1, .closing :: ts => Nests depth ts
  | depth, .number _ :: ts => Nests depth ts
  | depth, .operator _ :: ts => Nests depth ts

theorem checkNesting_eq_ok_iff (depth : Nat) (ls : List Lexeme) :
    checkNesting depth ls = .ok () ↔ Nests depth (ls.map Lexeme.token) := by
  induction ls generalizing depth with
  | nil =>
    rw [checkNesting, List.map_nil, Nests]
    by_cases h : depth = 0
    · simp [h]
    · simp [h]
  | cons l ls ih =>
    obtain ⟨token, position⟩ := l
    rw [List.map_cons]
    cases token with
    | number value => exact ih depth
    | operator op => exact ih depth
    | opening =>
      rw [checkNesting, Nests, ← ih]
      by_cases h : depth < maxNesting
      · simp [h]
      · simp [h]
    | closing =>
      cases depth with
      | zero => simp [checkNesting, Nests]
      | succ depth => exact ih depth

def Reads (ts : List Token) (f : Formula) : Prop :=
  Nests 0 ts ∧ ∃ r, ts.foldlM Reading.next? .start = some r ∧ r.finish = .ok f

theorem Reads.ne_nil {ts : List Token} {f : Formula} (h : Reads ts f) : ts ≠ [] := by
  rintro rfl
  obtain ⟨_, r, hr, hf⟩ := h
  rw [← Option.some.inj hr] at hf
  contradiction

theorem ofLexemes_eq_ok_iff (ls : List Lexeme) (f : Formula) : ofLexemes ls = .ok f ↔
    ∃ r, (ls.map Lexeme.token).foldlM Reading.next? .start = some r ∧ r.finish = .ok f := by
  rw [ofLexemes, ← Reading.toOption_foldlM]
  cases ls.foldlM Reading.step .start with
  | error e =>
    constructor
    · intro h
      contradiction
    · rintro ⟨r, hr, _⟩
      contradiction
  | ok r =>
    constructor
    · intro h
      exact ⟨r, rfl, h⟩
    · rintro ⟨q, hq, hf⟩
      rw [← Option.some.inj hq] at hf
      exact hf

theorem parse_eq_ok_iff (text : String) (f : Formula) :
    parse text = .ok f ↔ ∃ ts, tokens? text.toList = some ts ∧ Reads ts f := by
  have hbare := bare_scanFrom 0 [] text.toList
  rw [← tokens?, ← scan] at hbare
  rw [← hbare, parse]
  cases hscan : scan text with
  | error e =>
    constructor
    · intro h
      contradiction
    · rintro ⟨ts, hts, _⟩
      contradiction
  | ok ls =>
    have hok : (∃ ts, bare (.ok ls) = some ts ∧ Reads ts f) ↔ Reads (ls.map Lexeme.token) f := by
      constructor
      · rintro ⟨ts, hts, hreads⟩
        rwa [← Option.some.inj hts] at hreads
      · intro hreads
        exact ⟨_, rfl, hreads⟩
    rw [hok]
    change (if ls.isEmpty = true then Except.error ParseError.empty else
      (do checkNesting 0 ls; ofLexemes ls)) = .ok f ↔ _
    by_cases hempty : ls.isEmpty = true
    · rw [if_pos hempty]
      constructor
      · intro h
        contradiction
      · intro h
        rw [List.isEmpty_iff.1 hempty] at h
        exact absurd rfl h.ne_nil
    · rw [if_neg hempty, Reads, ← checkNesting_eq_ok_iff, ← ofLexemes_eq_ok_iff]
      cases checkNesting 0 ls with
      | error e =>
        constructor
        · intro h
          contradiction
        · rintro ⟨h, _⟩
          contradiction
      | ok u =>
        constructor
        · intro h
          exact ⟨rfl, h⟩
        · rintro ⟨_, h⟩
          exact h

end FormulaLedger.Formula
