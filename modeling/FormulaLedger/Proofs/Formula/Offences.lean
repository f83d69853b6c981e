import FormulaLedger.Proofs.Formula.Grammar
import FormulaLedger.Proofs.Formula.Scanning
import Mathlib.Data.List.Basic
import Mathlib.Data.List.Induction

set_option autoImplicit false

namespace FormulaLedger.Formula

section nesting

structure Steady (ts : List Token) : Prop where
  opened : ∀ us, us <+: ts → us.count .closing ≤ us.count .opening
  shallow : ∀ us, us <+: ts → us.count .opening ≤ us.count .closing + maxNesting

inductive NestingFault : List Lexeme → ParseError → Prop
  | unopened {before after : List Lexeme} {position : Nat} :
      Steady (before.map Lexeme.token) →
      (before.map Lexeme.token).count .closing = (before.map Lexeme.token).count .opening →
      NestingFault (before ++ ⟨.closing, position⟩ :: after) .unbalanced
  | deep {before after : List Lexeme} {position : Nat} : Steady (before.map Lexeme.token) →
      (before.map Lexeme.token).count .opening =
        (before.map Lexeme.token).count .closing + maxNesting →
      NestingFault (before ++ ⟨.opening, position⟩ :: after) (.tooDeep position)
  | unclosed {ls : List Lexeme} : Steady (ls.map Lexeme.token) →
      (ls.map Lexeme.token).count .closing < (ls.map Lexeme.token).count .opening →
      NestingFault ls .unbalanced

theorem balanced_iff_steady {ts : List Token} :
    Balanced ts ↔ Steady ts ∧ ts.count .closing = ts.count .opening :=
  ⟨fun h => ⟨⟨h.opened, h.shallow⟩, h.closed⟩, fun h => ⟨h.2, h.1.opened, h.1.shallow⟩⟩

theorem steady_nil : Steady [] := by
  constructor <;>
  · intro us hus
    rw [List.prefix_nil.1 hus]
    exact Nat.zero_le _

theorem steady_concat {ts : List Token} {token : Token} : Steady (ts ++ [token]) ↔ Steady ts ∧
    (ts ++ [token]).count .closing ≤ (ts ++ [token]).count .opening ∧
      (ts ++ [token]).count .opening ≤ (ts ++ [token]).count .closing + maxNesting := by
  constructor
  · intro h
    have hlater : ∀ us, us <+: ts → us <+: ts ++ [token] :=
      fun us hus => hus.trans (List.prefix_append ts _)
    exact ⟨⟨fun us hus => h.opened us (hlater us hus), fun us hus => h.shallow us (hlater us hus)⟩,
      h.opened _ List.prefix_rfl, h.shallow _ List.prefix_rfl⟩
  · rintro ⟨h, hopened, hshallow⟩
    constructor
    · intro us hus
      rcases List.prefix_concat_iff.1 hus with rfl | hus
      · exact hopened
      · exact h.opened us hus
    · intro us hus
      rcases List.prefix_concat_iff.1 hus with rfl | hus
      · exact hshallow
      · exact h.shallow us hus

theorem checkNesting_append {ls : List Lexeme} (h : Steady (ls.map Lexeme.token))
    (ms : List Lexeme) : checkNesting 0 (ls ++ ms) =
      checkNesting ((ls.map Lexeme.token).count .opening - (ls.map Lexeme.token).count .closing)
        ms := by
  induction ls using List.reverseRecOn generalizing ms with
  | nil => rfl
  | append_singleton ls l ih =>
    obtain ⟨token, position⟩ := l
    rw [List.map_append, List.map_singleton] at h ⊢
    obtain ⟨hsteady, hopened, hshallow⟩ := steady_concat.1 h
    have hbefore := hsteady.opened _ List.prefix_rfl
    rw [List.append_assoc, List.singleton_append, ih hsteady]
    simp only [List.count_append, List.count_singleton] at hopened hshallow ⊢
    cases token with
    | number value => simp [checkNesting]
    | operator op => simp [checkNesting]
    | opening =>
      simp only [beq_self_eq_true, ↓reduceIte, reduceCtorEq, beq_iff_eq] at hopened hshallow ⊢
      rw [checkNesting, if_pos (by omega)]
      congr 1
      omega
    | closing =>
      simp only [beq_self_eq_true, ↓reduceIte, reduceCtorEq, beq_iff_eq] at hopened hshallow ⊢
      obtain ⟨depth, hdepth⟩ : ∃ depth, (ls.map Lexeme.token).count .opening -
          (ls.map Lexeme.token).count .closing = depth + 1 :=
        Nat.exists_eq_add_one_of_ne_zero (by omega)
      rw [hdepth, checkNesting]
      congr 1
      omega

theorem NestingFault.checkNesting_eq {ls : List Lexeme} {e : ParseError} (h : NestingFault ls e) :
    checkNesting 0 ls = .error e := by
  cases h with
  | unopened hsteady heq =>
    rw [checkNesting_append hsteady, heq, Nat.sub_self]
    rfl
  | deep hsteady heq =>
    rw [checkNesting_append hsteady, heq, Nat.add_sub_cancel_left, checkNesting,
      if_neg (Nat.lt_irrefl _)]
  | unclosed hsteady hlt =>
    have hrun := checkNesting_append hsteady []
    rw [List.append_nil, checkNesting, if_neg (by omega)] at hrun
    exact hrun

theorem NestingFault.append {ls : List Lexeme} {e : ParseError} (h : NestingFault ls e)
    (hopen : ¬ Steady (ls.map Lexeme.token)) (ms : List Lexeme) : NestingFault (ls ++ ms) e := by
  cases h with
  | unopened hsteady heq =>
    rw [List.append_assoc, List.cons_append]
    exact .unopened hsteady heq
  | deep hsteady heq =>
    rw [List.append_assoc, List.cons_append]
    exact .deep hsteady heq
  | unclosed hsteady _ => exact absurd hsteady hopen

theorem steady_or_fault (ls : List Lexeme) : Steady (ls.map Lexeme.token) ∨
    ¬ Steady (ls.map Lexeme.token) ∧ ∃ e, NestingFault ls e := by
  induction ls using List.reverseRecOn with
  | nil => exact .inl steady_nil
  | append_singleton ls l ih =>
    obtain ⟨token, position⟩ := l
    rw [List.map_append, List.map_singleton]
    rcases ih with hsteady | ⟨hopen, e, hfault⟩
    · have hopened := hsteady.opened _ List.prefix_rfl
      have hshallow := hsteady.shallow _ List.prefix_rfl
      simp only [steady_concat, hsteady, true_and, List.count_append, List.count_singleton]
      cases token with
      | number value => simpa using .inl ⟨hopened, hshallow⟩
      | operator op => simpa using .inl ⟨hopened, hshallow⟩
      | opening =>
        by_cases hdeep : (ls.map Lexeme.token).count .opening =
            (ls.map Lexeme.token).count .closing + maxNesting
        · refine .inr ⟨fun h => ?_, _, .deep hsteady hdeep⟩
          simp at h
          omega
        · left
          simp
          omega
      | closing =>
        by_cases hclosed : (ls.map Lexeme.token).count .closing =
            (ls.map Lexeme.token).count .opening
        · refine .inr ⟨fun h => ?_, _, .unopened hsteady hclosed⟩
          simp at h
          omega
        · left
          simp
          omega
    · exact .inr ⟨fun h => hopen (steady_concat.1 h).1, e, hfault.append hopen _⟩

theorem checkNesting_eq_error_iff {ls : List Lexeme} {e : ParseError} :
    checkNesting 0 ls = .error e ↔ NestingFault ls e := by
  constructor
  · intro h
    rcases steady_or_fault ls with hsteady | ⟨_, e', hfault⟩
    · rcases Nat.lt_or_eq_of_le (hsteady.opened _ List.prefix_rfl) with hlt | heq
      · have hfault := NestingFault.unclosed hsteady hlt
        rw [hfault.checkNesting_eq] at h
        rwa [← Except.error.inj h]
      · have hok := (checkNesting_eq_ok_iff 0 ls).2
          ((nests_iff_balanced _).2 (balanced_iff_steady.2 ⟨hsteady, heq⟩))
        rw [hok] at h
        contradiction
    · rw [hfault.checkNesting_eq] at h
      rwa [← Except.error.inj h]
  · exact NestingFault.checkNesting_eq

end nesting

section prefixes

/-- The tokens begin a sentence of the grammar, however deep it nests. -/
def Viable (ts : List Token) : Prop := ∃ us f, Derives .additive (ts ++ us) f

theorem foldlM_closing (frame : Frame) (outer : List Frame) (last : Formula) :
    ∃ r f, (List.replicate outer.length Token.closing).foldlM Reading.next?
      ⟨frame, outer, some last⟩ = some r ∧ r.finish = .ok f := by
  induction outer generalizing frame last with
  | nil => exact ⟨_, _, rfl, rfl⟩
  | cons around outer ih => exact ih around (frame.close last)

/-- Every reading can still come to an end: with an operand if one is due, and with the parentheses
closed that are open. -/
theorem Reading.exists_rest (r : Reading) :
    ∃ (us : List Token) (r' : Reading) (f : Formula), us.foldlM Reading.next? r = some r' ∧
      r'.finish = .ok f := by
  obtain ⟨frame, outer, operand⟩ := r
  cases operand with
  | some last =>
    obtain ⟨r', f, hread, hfinish⟩ := foldlM_closing frame outer last
    exact ⟨_, r', f, hread, hfinish⟩
  | none =>
    obtain ⟨r', f, hread, hfinish⟩ := foldlM_closing frame outer (.number 0)
    exact ⟨.number 0 :: List.replicate outer.length .closing, r', f, hread, hfinish⟩

theorem viable_iff {ts : List Token} :
    Viable ts ↔ ∃ r, ts.foldlM Reading.next? .start = some r := by
  constructor
  · rintro ⟨us, f, hderives⟩
    obtain ⟨r, hread, _⟩ := (reads_iff_derives _ _).2 hderives
    rw [List.foldlM_append] at hread
    obtain ⟨r', hread', _⟩ := Option.bind_eq_some_iff.1 hread
    exact ⟨r', hread'⟩
  · rintro ⟨r, hread⟩
    obtain ⟨us, r', f, hrest, hfinish⟩ := r.exists_rest
    refine ⟨us, f, (reads_iff_derives _ _).1 ⟨r', ?_, hfinish⟩⟩
    rw [foldlM_append_of_eq_some _ hread, hrest]

theorem not_viable_concat {ts : List Token} {token : Token} {r : Reading}
    (hread : ts.foldlM Reading.next? .start = some r) (hnext : r.next? token = none) :
    ¬ Viable (ts ++ [token]) := by
  rw [viable_iff, foldlM_append_of_eq_some _ hread, List.foldlM_cons, hnext]
  rintro ⟨r', hr'⟩
  contradiction

theorem next?_eq_none_of_not_viable {ts : List Token} {token : Token} {r : Reading}
    (hread : ts.foldlM Reading.next? .start = some r) (h : ¬ Viable (ts ++ [token])) :
    r.next? token = none := by
  rw [viable_iff, foldlM_append_of_eq_some _ hread, List.foldlM_cons] at h
  cases hnext : r.next? token with
  | none => rfl
  | some r' =>
    rw [hnext] at h
    exact absurd ⟨r', rfl⟩ h

theorem Reading.step_eq_error {r : Reading} {l : Lexeme} (h : r.next? l.token = none) :
    r.step l = .error (.unexpected l.token l.position) := by
  obtain ⟨token, position⟩ := l
  obtain ⟨frame, outer, operand⟩ := r
  cases operand with
  | none =>
    cases token with
    | number value => contradiction
    | opening => contradiction
    | operator op => rfl
    | closing => rfl
  | some last =>
    cases token with
    | operator op => contradiction
    | closing =>
      cases outer with
      | nil => rfl
      | cons around outer => contradiction
    | number value => rfl
    | opening => rfl

theorem Reading.step_of_next? {r r' : Reading} {l : Lexeme} (h : r.next? l.token = some r') :
    r.step l = .ok r' := by
  rw [← Reading.toOption_step] at h
  cases hstep : r.step l with
  | error e =>
    rw [hstep] at h
    contradiction
  | ok found =>
    rw [hstep] at h
    rw [Option.some.inj h]

theorem foldlM_step_of_eq_some {ls : List Lexeme} {r r' : Reading}
    (h : (ls.map Lexeme.token).foldlM Reading.next? r = some r') (ms : List Lexeme) :
    (ls ++ ms).foldlM Reading.step r = ms.foldlM Reading.step r' := by
  induction ls generalizing r with
  | nil =>
    rw [List.nil_append, Option.some.inj h]
  | cons l ls ih =>
    rw [List.map_cons, List.foldlM_cons] at h
    obtain ⟨r₁, hnext, hrest⟩ := Option.bind_eq_some_iff.1 h
    rw [List.cons_append, List.foldlM_cons, Reading.step_of_next? hnext]
    exact ih hrest

theorem length_outer {ts : List Token} {r r' : Reading}
    (h : ts.foldlM Reading.next? r = some r') :
    r'.outer.length + ts.count .closing = r.outer.length + ts.count .opening := by
  induction ts generalizing r with
  | nil => rw [Option.some.inj h, List.count_nil, List.count_nil]
  | cons token ts ih =>
    rw [List.foldlM_cons] at h
    obtain ⟨found, hnext, hrest⟩ := Option.bind_eq_some_iff.1 h
    have hrest := ih hrest
    rw [List.count_cons, List.count_cons]
    cases Reading.next?_eq_some_iff.1 hnext with
    | number value => simpa using hrest
    | operator op => simpa using hrest
    | opening =>
      simp only [List.length_cons, beq_self_eq_true, ↓reduceIte, reduceCtorEq, beq_iff_eq]
        at hrest ⊢
      omega
    | closing =>
      simp only [List.length_cons, beq_self_eq_true, ↓reduceIte, reduceCtorEq, beq_iff_eq]
        at hrest ⊢
      omega

/-- An operand is due behind an operator, and behind a parenthesis that opens, which then waits. -/
theorem operand_concat {ts : List Token} {token : Token} {r : Reading}
    (h : (ts ++ [token]).foldlM Reading.next? .start = some r) :
    r.operand = none ↔ token = .opening ∧ r.outer ≠ [] ∨ ∃ op, token = .operator op := by
  rw [List.foldlM_append] at h
  obtain ⟨before, _, hlast⟩ := Option.bind_eq_some_iff.1 h
  rw [List.foldlM_cons] at hlast
  obtain ⟨found, hnext, hfound⟩ := Option.bind_eq_some_iff.1 hlast
  obtain rfl := Option.some.inj hfound
  cases Reading.next?_eq_some_iff.1 hnext with
  | number value => simp
  | opening => simp
  | operator op => simp
  | closing => simp

end prefixes

section offences

/-- The first offence of a text. Each kind is looked for in the whole text when there is none of the
kinds before it. -/
inductive Offence (cs : List Char) : ParseError → Prop
  | word {e : ParseError} : BadWord cs e → Offence cs e
  | empty : Words 0 cs [] → Offence cs .empty
  | nesting {ls : List Lexeme} {e : ParseError} : Words 0 cs ls → NestingFault ls e → Offence cs e
  | unexpected {before after : List Lexeme} {l : Lexeme} : Words 0 cs (before ++ l :: after) →
      Balanced ((before ++ l :: after).map Lexeme.token) → Viable (before.map Lexeme.token) →
      ¬ Viable (before.map Lexeme.token ++ [l.token]) →
      Offence cs (.unexpected l.token l.position)
  | incomplete {ls : List Lexeme} {ts : List Token} {op : Operator} : Words 0 cs ls →
      ls.map Lexeme.token = ts ++ [.operator op] → Balanced (ts ++ [.operator op]) →
      Viable (ts ++ [.operator op]) → Offence cs .incomplete

variable {text : String} {ls : List Lexeme} {e : ParseError}

theorem checkNesting_of_balanced (h : Balanced (ls.map Lexeme.token)) :
    checkNesting 0 ls = .ok () :=
  (checkNesting_eq_ok_iff 0 ls).2 ((nests_iff_balanced _).2 h)

theorem parse_of_word (h : BadWord text.toList e) : parse text = .error e := by
  rw [parse, scan_eq_error_iff.2 h]
  rfl

theorem parse_of_words (h : Words 0 text.toList ls) (hne : ls ≠ []) :
    parse text = (do checkNesting 0 ls; ofLexemes ls) := by
  have hempty : ¬ ls.isEmpty = true := by simpa using hne
  rw [parse, scan_eq_ok_iff.2 h]
  change (if ls.isEmpty = true then Except.error ParseError.empty else
    (do checkNesting 0 ls; ofLexemes ls)) = _
  rw [if_neg hempty]

theorem NestingFault.ne_nil (h : NestingFault ls e) : ls ≠ [] := by
  cases h with
  | unopened _ _ => simp
  | deep _ _ => simp
  | unclosed _ hlt =>
    rintro rfl
    exact absurd hlt (Nat.lt_irrefl 0)

theorem parse_of_nestingFault (h : Words 0 text.toList ls) (hfault : NestingFault ls e) :
    parse text = .error e := by
  rw [parse_of_words h hfault.ne_nil, hfault.checkNesting_eq]
  rfl

theorem parse_of_balanced (h : Words 0 text.toList ls) (hne : ls ≠ [])
    (hbalanced : Balanced (ls.map Lexeme.token)) : parse text = ofLexemes ls := by
  rw [parse_of_words h hne, checkNesting_of_balanced hbalanced]
  rfl

theorem ofLexemes_of_eq_some {r : Reading}
    (h : (ls.map Lexeme.token).foldlM Reading.next? .start = some r) : ofLexemes ls = r.finish := by
  have hrun := foldlM_step_of_eq_some h []
  rw [List.append_nil] at hrun
  rw [ofLexemes, hrun]
  rfl

theorem ofLexemes_of_eq_none {before after : List Lexeme} {l : Lexeme} {r : Reading}
    (h : (before.map Lexeme.token).foldlM Reading.next? .start = some r)
    (hnext : r.next? l.token = none) :
    ofLexemes (before ++ l :: after) = .error (.unexpected l.token l.position) := by
  rw [ofLexemes, foldlM_step_of_eq_some h, List.foldlM_cons, Reading.step_eq_error hnext]
  rfl

theorem Offence.parse_eq (h : Offence text.toList e) : parse text = .error e := by
  cases h with
  | word h => exact parse_of_word h
  | empty h =>
    rw [parse, scan_eq_ok_iff.2 h]
    rfl
  | nesting h hfault => exact parse_of_nestingFault h hfault
  | @unexpected before after l h hbalanced hviable hnot =>
    obtain ⟨r, hread⟩ := viable_iff.1 hviable
    have hnext := next?_eq_none_of_not_viable hread hnot
    rw [parse_of_balanced h (by simp) hbalanced, ofLexemes_of_eq_none hread hnext]
  | @incomplete ls ts op h hlast hbalanced hviable =>
    obtain ⟨r, hread⟩ := viable_iff.1 hviable
    have hdue : r.operand = none := (operand_concat hread).2 (.inr ⟨op, rfl⟩)
    rw [← hlast] at hread hbalanced
    have hne : ls ≠ [] := by
      rintro rfl
      simp at hlast
    rw [parse_of_balanced h hne hbalanced, ofLexemes_of_eq_some hread, Reading.finish, hdue]

theorem foldlM_step_cases (ls : List Lexeme) :
    (∃ r, (ls.map Lexeme.token).foldlM Reading.next? .start = some r) ∨
      ∃ before l after r, ls = before ++ l :: after ∧
        (before.map Lexeme.token).foldlM Reading.next? .start = some r ∧
          r.next? l.token = none := by
  induction ls using List.reverseRecOn with
  | nil => exact .inl ⟨.start, rfl⟩
  | append_singleton ls l ih =>
    rcases ih with ⟨r, hread⟩ | ⟨before, l', after, r, rfl, hread, hnext⟩
    · cases hnext : r.next? l.token with
      | none => exact .inr ⟨ls, l, [], r, rfl, hread, hnext⟩
      | some r' =>
        left
        rw [List.map_append, foldlM_append_of_eq_some _ hread, List.map_singleton,
          List.foldlM_cons, hnext]
        exact ⟨r', rfl⟩
    · exact .inr ⟨before, l', after ++ [l], r, by simp, hread, hnext⟩

theorem offence_of_ofLexemes (h : Words 0 text.toList ls) (hne : ls ≠ [])
    (hbalanced : Balanced (ls.map Lexeme.token)) (herror : ofLexemes ls = .error e) :
    Offence text.toList e := by
  rcases foldlM_step_cases ls with ⟨r, hread⟩ | ⟨before, l, after, r, rfl, hread, hnext⟩
  · rw [ofLexemes_of_eq_some hread] at herror
    -- no parenthesis is open, so only an operand can be missing
    have houter := length_outer hread
    rw [hbalanced.closed] at houter
    have hnil : r.outer = [] := List.length_eq_zero_iff.1 (Nat.add_right_cancel houter)
    cases hoperand : r.operand with
    | some last =>
      rw [Reading.finish, hoperand, hnil] at herror
      contradiction
    | none =>
      rw [Reading.finish, hoperand] at herror
      obtain rfl := Except.error.inj herror
      have hnonempty : ls.map Lexeme.token ≠ [] := by simpa using hne
      obtain ⟨ts, token, hlast⟩ := (List.eq_nil_or_concat' _).resolve_left hnonempty
      rw [hlast] at hread hbalanced
      rcases (operand_concat hread).1 hoperand with ⟨_, hopen⟩ | ⟨op, rfl⟩
      · exact absurd hnil hopen
      · exact .incomplete h hlast hbalanced (viable_iff.2 ⟨r, hread⟩)
  · have hviable : Viable (before.map Lexeme.token) := viable_iff.2 ⟨r, hread⟩
    rw [ofLexemes_of_eq_none hread hnext] at herror
    obtain rfl := Except.error.inj herror
    exact .unexpected h hbalanced hviable (not_viable_concat hread hnext)

/-- A text is refused for its first offence: the first word that is none, no word at all, the first
parenthesis out of place or one that stays open, the first token that makes the tokens up to it no
beginning of a sentence, or an operator at the end. -/
theorem parse_eq_error_iff (text : String) (e : ParseError) :
    parse text = .error e ↔ Offence text.toList e := by
  constructor
  · intro h
    cases hscan : scan text with
    | error e' =>
      rw [parse, hscan] at h
      obtain rfl : e' = e := Except.error.inj h
      exact .word (scan_eq_error_iff.1 hscan)
    | ok ls =>
      have hwords := scan_eq_ok_iff.1 hscan
      by_cases hempty : ls = []
      · subst hempty
        rw [parse, hscan] at h
        obtain rfl : ParseError.empty = e := Except.error.inj h
        exact .empty hwords
      · rw [parse_of_words hwords hempty] at h
        cases hnesting : checkNesting 0 ls with
        | error e' =>
          rw [hnesting] at h
          obtain rfl : e' = e := Except.error.inj h
          exact .nesting hwords (checkNesting_eq_error_iff.1 hnesting)
        | ok u =>
          rw [hnesting] at h
          have hbalanced := (nests_iff_balanced _).1 ((checkNesting_eq_ok_iff 0 ls).1 hnesting)
          exact offence_of_ofLexemes hwords hempty hbalanced h
  · exact Offence.parse_eq

-- parentheses come before the grammar, and places are counted in characters
example : parse "1 2)" = .error .unbalanced ∧
    parse "(1\u00a02)" = .error (.unexpected (.number 2) 3) := by decide +kernel

end offences

end FormulaLedger.Formula
