import FormulaLedger.Proofs.Formula.Offences
import FormulaLedger.Proofs.Formula.Operand

set_option autoImplicit false

namespace FormulaLedger

namespace Formula

theorem splits_unsigned {x : Float} (hx : x.isFinite = true) (hsign : Number.isNegative x = false)
    {rest : List Char} {ts : List Token} (hrest : Splits rest ts)
    (hstop : ∀ c ∈ rest.head?, ¬ (c.isDigit = true ∨ c = '.')) :
    Splits ((Number.text x).toList ++ rest) (.number x :: ts) := by
  rcases Double.zero_or_of hx with ⟨s, hs⟩ | ⟨s, b, hb, rfl⟩
  · cases s with
    | positive =>
      obtain rfl : x = 0 := Double.eq_of_unpack hs
      have htext : (Number.text 0).toList = ['0'] := by decide +kernel
      rw [htext]
      exact splits_zero hrest hstop
    | negative =>
      obtain rfl : x = -0 := Double.eq_of_unpack (hs.trans Double.unpack_neg_zero.symm)
      have hnegative : Number.isNegative (-0) = true := by decide +kernel
      rw [hnegative] at hsign
      contradiction
  · rw [Double.isNegative_of] at hsign
    cases s with
    | negative => contradiction
    | positive => exact splits_positive hb hrest hstop

def values : Formula → List Float
  | .number value => [value]
  | .binary _ left right => left.values ++ right.values

/-- The most operations on a path from the whole formula to one of its numbers. -/
def depth : Formula → Nat
  | .number _ => 0
  | .binary _ left right => max left.depth right.depth + 1

def tokens : Formula → List Token
  | .number value => [.number value]
  | .binary op left right =>
    .opening :: (left.tokens ++ .operator op :: (right.tokens ++ [.closing]))

theorem symbol_mem_signs (op : Operator) : (op.symbol, .operator op) ∈ signs := by
  cases op <;> decide

theorem splits_textChars {f : Formula}
    (hvalues : ∀ x ∈ f.values, x.isFinite = true ∧ Number.isNegative x = false) {rest : List Char}
    {ts : List Token} (hrest : Splits rest ts)
    (hstop : ∀ c ∈ rest.head?, ¬ (c.isDigit = true ∨ c = '.')) :
    Splits (f.textChars ++ rest) (f.tokens ++ ts) := by
  induction f generalizing rest ts with
  | number value =>
    obtain ⟨hfinite, hsign⟩ := hvalues value List.mem_cons_self
    exact splits_unsigned hfinite hsign hrest hstop
  | binary op left right ihl ihr =>
    have hblank : Text.isBlank ' ' = true := rfl
    have hopening : ('(', Token.opening) ∈ signs := by decide
    have hclosing : (')', Token.closing) ∈ signs := by decide
    -- each part ends where no numeral can go on: at a blank or at a parenthesis
    have hright := ihr (fun x hx => hvalues x (List.mem_append_right _ hx)) (.sign hclosing hrest)
      (by simp)
    have hleft := ihl (fun x hx => hvalues x (List.mem_append_left _ hx))
      (.blank hblank (.sign (symbol_mem_signs op) (.blank hblank hright))) (by simp)
    simpa [textChars, tokens] using Splits.sign hopening hleft

theorem derives_tokens (f : Formula) : Derives .primary f.tokens f := by
  induction f with
  | number value => exact .number value
  | binary op left right ihl ihr =>
    have hsum : Derives .additive (left.tokens ++ .operator op :: right.tokens)
        (.binary op left right) := by
      cases hop : op.isAdditive with
      | true =>
        exact ihl.of_primary.of_multiplicative.sum (isAdditive_eq_true_iff.1 hop) ihr.of_primary
      | false =>
        exact (ihl.of_primary.product (isAdditive_eq_false_iff.1 hop) ihr).of_multiplicative
    have hgroup := Derives.group hsum
    rwa [List.append_assoc, List.cons_append] at hgroup

theorem exists_lexemes_binary {ls : List Lexeme} {op : Operator} {left right : Formula}
    (h : ls.map Lexeme.token = (binary op left right).tokens) :
    ∃ p q s ls₁ ls₂, ls = ⟨.opening, p⟩ :: (ls₁ ++ ⟨.operator op, q⟩ :: (ls₂ ++ [⟨.closing, s⟩])) ∧
      ls₁.map Lexeme.token = left.tokens ∧ ls₂.map Lexeme.token = right.tokens := by
  obtain ⟨⟨_, p⟩, inside, rfl, rfl, hinside⟩ := List.map_eq_cons_iff.1 h
  obtain ⟨ls₁, behind, rfl, hleft, hbehind⟩ := List.map_eq_append_iff.1 hinside
  obtain ⟨⟨_, q⟩, last, rfl, rfl, hlast⟩ := List.map_eq_cons_iff.1 hbehind
  obtain ⟨ls₂, closing, rfl, hright, hclosing⟩ := List.map_eq_append_iff.1 hlast
  obtain ⟨⟨_, s⟩, rfl, rfl⟩ := List.map_eq_singleton_iff.1 hclosing
  exact ⟨p, q, s, ls₁, ls₂, rfl, hleft, hright⟩

theorem checkNesting_tokens {f : Formula} {ls : List Lexeme} (hls : ls.map Lexeme.token = f.tokens)
    {depth : Nat} (hdepth : depth ≤ maxNesting) (ms : List Lexeme) :
    (depth + f.depth ≤ maxNesting → checkNesting depth (ls ++ ms) = checkNesting depth ms) ∧
      (maxNesting < depth + f.depth →
        ∃ position, checkNesting depth (ls ++ ms) = .error (.tooDeep position)) := by
  induction f generalizing ls depth ms with
  | number value =>
    obtain ⟨⟨_, p⟩, rfl, rfl⟩ := List.map_eq_singleton_iff.1 hls
    refine ⟨fun _ => rfl, fun h => ?_⟩
    rw [Formula.depth] at h
    omega
  | binary op left right ihl ihr =>
    obtain ⟨p, q, s, ls₁, ls₂, rfl, hleft, hright⟩ := exists_lexemes_binary hls
    have hlist : ⟨.opening, p⟩ :: (ls₁ ++ ⟨.operator op, q⟩ :: (ls₂ ++ [⟨.closing, s⟩])) ++ ms =
        (⟨.opening, p⟩ : Lexeme) ::
          (ls₁ ++ ⟨.operator op, q⟩ :: (ls₂ ++ ⟨.closing, s⟩ :: ms)) := by simp
    rw [hlist, Formula.depth, checkNesting]
    by_cases hlt : depth < maxNesting
    · have hoperator : ∀ ms, checkNesting (depth + 1) (⟨.operator op, q⟩ :: ms) =
          checkNesting (depth + 1) ms := fun _ => rfl
      rw [if_pos hlt]
      obtain ⟨hl, hl'⟩ := ihl hleft hlt (⟨.operator op, q⟩ :: (ls₂ ++ ⟨.closing, s⟩ :: ms))
      obtain ⟨hr, hr'⟩ := ihr hright hlt (⟨.closing, s⟩ :: ms)
      constructor
      · intro h
        rw [hl (by omega), hoperator, hr (by omega), checkNesting]
      · intro h
        by_cases hdeep : maxNesting < depth + 1 + left.depth
        · exact hl' hdeep
        · rw [hl (by omega), hoperator]
          exact hr' (by omega)
    · rw [if_neg hlt]
      exact ⟨fun h => absurd h (by omega), fun _ => ⟨p, rfl⟩⟩

/-- A formula with finite numbers and no signs is read back from its text, if no path in it meets
more operations than parentheses may nest. Otherwise its text nests too deep. -/
theorem parse_printed {f : Formula}
    (hvalues : ∀ x ∈ f.values, x.isFinite = true ∧ Number.isNegative x = false) :
    (f.depth ≤ maxNesting → parse f.text = .ok f) ∧
      (maxNesting < f.depth → ∃ position, parse f.text = .error (.tooDeep position)) := by
  have hsplits := splits_textChars hvalues .nil (by simp)
  rw [List.append_nil, List.append_nil] at hsplits
  obtain ⟨ls, hwords, htokens⟩ := hsplits.words 0
  have hne : ls ≠ [] := by
    rintro rfl
    exact f.derives_tokens.of_primary.of_multiplicative.ne_nil htokens.symm
  have hparse : parse f.text = (do checkNesting 0 ls; ofLexemes ls) := by
    apply parse_of_words _ hne
    rwa [text, String.toList_ofList]
  obtain ⟨hok, hdeep⟩ := checkNesting_tokens htokens (Nat.zero_le _) []
  rw [List.append_nil, Nat.zero_add] at hok hdeep
  rw [hparse]
  constructor
  · intro h
    rw [hok h]
    change ofLexemes ls = .ok f
    rw [ofLexemes_eq_ok_iff, htokens, reads_iff_derives]
    exact f.derives_tokens.of_primary.of_multiplicative
  · intro h
    obtain ⟨position, herror⟩ := hdeep h
    rw [herror]
    exact ⟨position, rfl⟩

def nested : Nat → Formula
  | 0 => .number 0.1
  | n + 1 => .binary .subtract (nested n) (.number 0)

theorem depth_nested (n : Nat) : (nested n).depth = n := by
  induction n with
  | zero => rfl
  | succ n ih => rw [nested, depth, ih, depth, Nat.max_zero]

theorem values_nested (n : Nat) :
    ∀ x ∈ (nested n).values, x.isFinite = true ∧ Number.isNegative x = false := by
  have hzero : (0 : Float).isFinite = true ∧ Number.isNegative 0 = false := by decide +kernel
  induction n with
  | zero =>
    intro x hx
    rw [List.mem_singleton.1 hx]
    decide +kernel
  | succ n ih =>
    intro x hx
    rcases List.mem_append.1 hx with hx | hx
    · exact ih x hx
    · rw [List.mem_singleton.1 hx]
      exact hzero

theorem parse_printed_nested : parse (nested maxNesting).text = .ok (nested maxNesting) ∧
    ∃ position, parse (nested (maxNesting + 1)).text = .error (.tooDeep position) :=
  ⟨(parse_printed (values_nested _)).1 (depth_nested _).le,
    (parse_printed (values_nested _)).2 (depth_nested _).ge⟩

end Formula

end FormulaLedger
