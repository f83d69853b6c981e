import FormulaLedger.Proofs.Decimal.Reading
import FormulaLedger.Proofs.Formula.Splitting

set_option autoImplicit false

namespace FormulaLedger.Formula

/-- The phrases of the grammar. What follows the first operand of a chain of operators is a phrase
of its own, after the formula to its left. -/
inductive Phrase
  | additive
  | terms (left : Formula)
  | multiplicative
  | factors (left : Formula)
  | primary

/-- The grammar

    additive       := multiplicative (('+' | '-') multiplicative)*
    multiplicative := primary (('*' | '/') primary)*
    primary        := number | '(' additive ')'

with the tree of each phrase. An operator takes all that stands to its left in the chain as its left
operand, and parentheses leave no trace. -/
inductive Derives : Phrase → List Token → Formula → Prop
  | additive {ts us : List Token} {f g : Formula} : Derives .multiplicative ts f →
      Derives (.terms f) us g → Derives .additive (ts ++ us) g
  | noTerm (f : Formula) : Derives (.terms f) [] f
  | term {op : Operator} {ts us : List Token} {f g h : Formula} : op = .add ∨ op = .subtract →
      Derives .multiplicative ts g → Derives (.terms (.binary op f g)) us h →
      Derives (.terms f) (.operator op :: (ts ++ us)) h
  | multiplicative {ts us : List Token} {f g : Formula} : Derives .primary ts f →
      Derives (.factors f) us g → Derives .multiplicative (ts ++ us) g
  | noFactor (f : Formula) : Derives (.factors f) [] f
  | factor {op : Operator} {ts us : List Token} {f g h : Formula} : op = .multiply ∨ op = .divide →
      Derives .primary ts g → Derives (.factors (.binary op f g)) us h →
      Derives (.factors f) (.operator op :: (ts ++ us)) h
  | number (value : Float) : Derives .primary [.number value] (.number value)
  | group {ts : List Token} {f : Formula} : Derives .additive ts f →
      Derives .primary (.opening :: (ts ++ [.closing])) f

structure Balanced (ts : List Token) : Prop where
  closed : ts.count .closing = ts.count .opening
  opened : ∀ us, us <+: ts → us.count .closing ≤ us.count .opening
  shallow : ∀ us, us <+: ts → us.count .opening ≤ us.count .closing + maxNesting

theorem isAdditive_eq_true_iff {op : Operator} :
    op.isAdditive = true ↔ op = .add ∨ op = .subtract := by
  cases op <;> decide

theorem isAdditive_eq_false_iff {op : Operator} :
    op.isAdditive = false ↔ op = .multiply ∨ op = .divide := by
  cases op <;> decide

section nesting

/-- The balance of tokens that follow some open parentheses. -/
def Closes (depth : Nat) (ts : List Token) : Prop :=
  ts.count .closing = depth + ts.count .opening ∧
    ∀ us, us <+: ts → us.count .closing ≤ depth + us.count .opening ∧
      depth + us.count .opening ≤ us.count .closing + maxNesting

theorem closes_nil {depth : Nat} : Closes depth [] ↔ depth = 0 := by
  rw [Closes]
  simp only [List.count_nil, List.prefix_nil, forall_eq]
  omega

theorem closes_cons {depth : Nat} {token : Token} {ts : List Token} :
    Closes depth (token :: ts) ↔ depth ≤ maxNesting ∧
      (token :: ts).count .closing = depth + (token :: ts).count .opening ∧
      ∀ us, us <+: ts → (token :: us).count .closing ≤ depth + (token :: us).count .opening ∧
        depth + (token :: us).count .opening ≤ (token :: us).count .closing + maxNesting := by
  simp only [Closes, List.prefix_cons_iff]
  constructor
  · rintro ⟨htotal, hall⟩
    have hnil := (hall [] (.inl rfl)).2
    simp only [List.count_nil] at hnil
    exact ⟨by omega, htotal, fun us hus => hall _ (.inr ⟨us, rfl, hus⟩)⟩
  · rintro ⟨hdepth, htotal, hall⟩
    refine ⟨htotal, fun vs hvs => ?_⟩
    rcases hvs with rfl | ⟨us, rfl, hus⟩
    · simp only [List.count_nil]
      omega
    · exact hall us hus

theorem nests_iff_closes {depth : Nat} (hdepth : depth ≤ maxNesting) (ts : List Token) :
    Nests depth ts ↔ Closes depth ts := by
  induction ts generalizing depth with
  | nil => rw [Nests, closes_nil]
  | cons token ts ih =>
    cases token with
    | number value =>
      rw [Nests, ih hdepth, closes_cons, Closes]
      simp [hdepth]
    | operator op =>
      rw [Nests, ih hdepth, closes_cons, Closes]
      simp [hdepth]
    | opening =>
      have hclosing : ∀ us : List Token, (Token.opening :: us).count .closing = us.count .closing :=
        fun us => List.count_cons_of_ne (by simp)
      simp only [Nests, closes_cons, hclosing, List.count_cons_self]
      constructor
      · rintro ⟨hlt, hnests⟩
        obtain ⟨htotal, hall⟩ := (ih hlt).1 hnests
        refine ⟨hdepth, by omega, fun us hus => ?_⟩
        have hus := hall us hus
        omega
      · rintro ⟨_, htotal, hall⟩
        -- the prefix of this parenthesis alone is not too deep
        have hnil := (hall [] List.nil_prefix).2
        simp only [List.count_nil] at hnil
        have hlt : depth < maxNesting := by omega
        refine ⟨hlt, (ih hlt).2 ⟨by omega, fun us hus => ?_⟩⟩
        have hus := hall us hus
        omega
    | closing =>
      have hopening : ∀ us : List Token, (Token.closing :: us).count .opening = us.count .opening :=
        fun us => List.count_cons_of_ne (by simp)
      simp only [closes_cons, hopening, List.count_cons_self]
      cases depth with
      | zero =>
        rw [Nests]
        constructor
        · exact False.elim
        · rintro ⟨_, _, hall⟩
          have hnil := (hall [] List.nil_prefix).1
          simp at hnil
      | succ depth =>
        rw [Nests, ih (Nat.le_of_succ_le hdepth), Closes]
        constructor
        · rintro ⟨htotal, hall⟩
          refine ⟨hdepth, by omega, fun us hus => ?_⟩
          have hus := hall us hus
          omega
        · rintro ⟨_, htotal, hall⟩
          refine ⟨by omega, fun us hus => ?_⟩
          have hus := hall us hus
          omega

theorem nests_iff_balanced (ts : List Token) : Nests 0 ts ↔ Balanced ts := by
  rw [nests_iff_closes (Nat.zero_le _), Closes]
  simp only [Nat.zero_add]
  constructor
  · rintro ⟨htotal, hall⟩
    exact ⟨htotal, fun us hus => (hall us hus).1, fun us hus => (hall us hus).2⟩
  · rintro ⟨htotal, hopened, hshallow⟩
    exact ⟨htotal, fun us hus => ⟨hopened us hus, hshallow us hus⟩⟩

end nesting

section chains

variable {left f g : Formula} {op : Operator} {ts us : List Token}

theorem Derives.snoc_term (h : Derives (.terms left) ts f) (hop : op = .add ∨ op = .subtract)
    (hg : Derives .multiplicative us g) :
    Derives (.terms left) (ts ++ .operator op :: us) (.binary op f g) := by
  generalize hn : Phrase.terms left = n at h
  induction h generalizing left with
  | noTerm f =>
    obtain rfl := Phrase.terms.inj hn
    have hone := Derives.term hop hg (.noTerm (.binary op left g))
    rwa [List.append_nil] at hone
  | @term op' ts us' f g' h hop' hts _ _ ih =>
    obtain rfl := Phrase.terms.inj hn
    have hmore := Derives.term hop' hts (ih rfl)
    rwa [← List.append_assoc, ← List.cons_append] at hmore
  | _ => contradiction

theorem Derives.snoc_factor (h : Derives (.factors left) ts f) (hop : op = .multiply ∨ op = .divide)
    (hg : Derives .primary us g) :
    Derives (.factors left) (ts ++ .operator op :: us) (.binary op f g) := by
  generalize hn : Phrase.factors left = n at h
  induction h generalizing left with
  | noFactor f =>
    obtain rfl := Phrase.factors.inj hn
    have hone := Derives.factor hop hg (.noFactor (.binary op left g))
    rwa [List.append_nil] at hone
  | @factor op' ts us' f g' h hop' hts _ _ ih =>
    obtain rfl := Phrase.factors.inj hn
    have hmore := Derives.factor hop' hts (ih rfl)
    rwa [← List.append_assoc, ← List.cons_append] at hmore
  | _ => contradiction

theorem Derives.sum (h : Derives .additive ts f) (hop : op = .add ∨ op = .subtract)
    (hg : Derives .multiplicative us g) :
    Derives .additive (ts ++ .operator op :: us) (.binary op f g) := by
  cases h with
  | additive hf hterms =>
    rw [List.append_assoc]
    exact .additive hf (hterms.snoc_term hop hg)

theorem Derives.product (h : Derives .multiplicative ts f) (hop : op = .multiply ∨ op = .divide)
    (hg : Derives .primary us g) :
    Derives .multiplicative (ts ++ .operator op :: us) (.binary op f g) := by
  cases h with
  | multiplicative hf hfactors =>
    rw [List.append_assoc]
    exact .multiplicative hf (hfactors.snoc_factor hop hg)

theorem Derives.of_primary (h : Derives .primary ts f) : Derives .multiplicative ts f := by
  have hone := Derives.multiplicative h (.noFactor f)
  rwa [List.append_nil] at hone

theorem Derives.of_multiplicative (h : Derives .multiplicative ts f) : Derives .additive ts f := by
  have hone := Derives.additive h (.noTerm f)
  rwa [List.append_nil] at hone

end chains

section soundness

variable {ts us : List Token} {f : Formula}

/-- The tokens of what stands to the left of the operand that is read next: a phrase with an
operator that may follow it. -/
def Pending.Spans (n : Phrase) (additive : Bool) : Pending → List Token → Prop
  | none, ts => ts = []
  | some (f, op), ts => op.isAdditive = additive ∧ ∃ us, ts = us ++ [.operator op] ∧ Derives n us f

def Frame.Spans (frame : Frame) (ts : List Token) : Prop :=
  ∃ us vs, ts = us ++ vs ∧ Pending.Spans .additive true frame.sum us ∧
    Pending.Spans .multiplicative false frame.product vs

theorem Frame.spans_fresh : Frame.fresh.Spans [] := ⟨[], [], rfl, rfl, rfl⟩

theorem Pending.Spans.product {p : Pending} (h : Pending.Spans .multiplicative false p ts)
    (hf : Derives .primary us f) : Derives .multiplicative (ts ++ us) (p.apply f) := by
  cases p with
  | none =>
    obtain rfl : ts = [] := h
    exact hf.of_primary
  | some pending =>
    obtain ⟨left, op⟩ := pending
    obtain ⟨hop, vs, rfl, hleft⟩ := h
    rw [List.append_assoc]
    exact hleft.product (isAdditive_eq_false_iff.1 hop) hf

theorem Pending.Spans.sum {p : Pending} (h : Pending.Spans .additive true p ts)
    (hf : Derives .multiplicative us f) : Derives .additive (ts ++ us) (p.apply f) := by
  cases p with
  | none =>
    obtain rfl : ts = [] := h
    exact hf.of_multiplicative
  | some pending =>
    obtain ⟨left, op⟩ := pending
    obtain ⟨hop, vs, rfl, hleft⟩ := h
    rw [List.append_assoc]
    exact hleft.sum (isAdditive_eq_true_iff.1 hop) hf

theorem Frame.Spans.close {frame : Frame} (h : frame.Spans ts) (hf : Derives .primary us f) :
    Derives .additive (ts ++ us) (frame.close f) := by
  obtain ⟨sums, products, rfl, hsum, hproduct⟩ := h
  rw [List.append_assoc]
  exact hsum.sum (hproduct.product hf)

theorem Frame.Spans.extend {frame : Frame} (h : frame.Spans ts) (hf : Derives .primary us f)
    (op : Operator) : (frame.extend f op).Spans (ts ++ us ++ [.operator op]) := by
  rw [Frame.extend]
  cases hop : op.isAdditive with
  | true => exact ⟨_, [], (List.append_nil _).symm, ⟨hop, _, rfl, h.close hf⟩, rfl⟩
  | false =>
    obtain ⟨sums, products, rfl, hsum, hproduct⟩ := h
    refine ⟨sums, products ++ us ++ [.operator op], ?_, hsum, ⟨hop, _, rfl, hproduct.product hf⟩⟩
    simp

inductive Surrounds : List Frame → List Token → Prop
  | nil : Surrounds [] []
  | cons {frame : Frame} {outer : List Frame} {ts us : List Token} : Surrounds outer ts →
      frame.Spans us → Surrounds (frame :: outer) (ts ++ us ++ [.opening])

def Operand (operand : Option Formula) (ts : List Token) : Prop :=
  match operand with
  | none => ts = []
  | some f => Derives .primary ts f

inductive Reading.Spans : Reading → List Token → Prop
  | mk {frame : Frame} {outer : List Frame} {operand : Option Formula} {ts us vs : List Token} :
      Surrounds outer ts → frame.Spans us → Operand operand vs →
      Reading.Spans ⟨frame, outer, operand⟩ (ts ++ us ++ vs)

theorem Reading.spans_start : Reading.start.Spans [] := .mk .nil Frame.spans_fresh rfl

theorem Reading.Spans.next? {r r' : Reading} {token : Token} (h : r.Spans ts)
    (hnext : r.next? token = some r') : r'.Spans (ts ++ [token]) := by
  obtain @⟨frame, outer, operand, ts, us, vs, houter, hframe, hoperand⟩ := h
  cases Reading.next?_eq_some_iff.1 hnext with
  | number value =>
    obtain rfl : vs = [] := hoperand
    rw [List.append_nil]
    exact .mk houter hframe (.number value)
  | opening =>
    obtain rfl : vs = [] := hoperand
    have hspans := Reading.Spans.mk (.cons houter hframe) Frame.spans_fresh
      (show Operand none [] from rfl)
    rw [List.append_nil, List.append_nil] at hspans
    rwa [List.append_nil]
  | operator op =>
    have hlast : Derives .primary vs _ := hoperand
    have hspans := Reading.Spans.mk houter (hframe.extend hlast op)
      (show Operand none [] from rfl)
    simpa using hspans
  | closing =>
    have hlast : Derives .primary vs _ := hoperand
    obtain _ | ⟨houter', hframe'⟩ := houter
    have hgroup := Derives.group (hframe.close hlast)
    have hspans := Reading.Spans.mk houter' hframe' (show Operand (some _) _ from hgroup)
    simpa using hspans

theorem Reading.Spans.foldlM {r r' : Reading} (h : r.Spans ts) {us : List Token}
    (hread : us.foldlM Reading.next? r = some r') : r'.Spans (ts ++ us) := by
  induction us generalizing r ts with
  | nil =>
    obtain rfl := Option.some.inj hread
    rwa [List.append_nil]
  | cons token us ih =>
    rw [List.foldlM_cons] at hread
    obtain ⟨r₁, hnext, hrest⟩ := Option.bind_eq_some_iff.1 hread
    rw [List.append_cons]
    exact ih (h.next? hnext) hrest

theorem Reading.Spans.finish {r : Reading} (h : r.Spans ts) (hf : r.finish = .ok f) :
    Derives .additive ts f := by
  cases h with
  | @mk frame outer operand ts us vs houter hframe hoperand =>
    cases operand with
    | none => contradiction
    | some last =>
      cases houter with
      | cons => contradiction
      | nil =>
        obtain rfl := Except.ok.inj hf
        exact hframe.close hoperand

end soundness

section completeness

variable {ts : List Token} {f : Formula}

/-- How the reader gets over the tokens of a phrase, wherever the phrase may stand. -/
def Phrase.Passes (ts : List Token) (f : Formula) : Phrase → Prop
  | .primary => ∀ frame outer, ts.foldlM Reading.next? ⟨frame, outer, none⟩ =
      some ⟨frame, outer, some f⟩
  | .factors left => ∀ sum product outer last, Pending.apply product last = left →
      ∃ product' last', ts.foldlM Reading.next? ⟨⟨sum, product⟩, outer, some last⟩ =
        some ⟨⟨sum, product'⟩, outer, some last'⟩ ∧ Pending.apply product' last' = f
  | .multiplicative => ∀ sum outer, ∃ product last,
      ts.foldlM Reading.next? ⟨⟨sum, none⟩, outer, none⟩ =
        some ⟨⟨sum, product⟩, outer, some last⟩ ∧ Pending.apply product last = f
  | .terms left => ∀ frame outer last, Frame.close frame last = left →
      ∃ frame' last', ts.foldlM Reading.next? ⟨frame, outer, some last⟩ =
        some ⟨frame', outer, some last'⟩ ∧ Frame.close frame' last' = f
  | .additive => ∀ outer, ∃ frame last, ts.foldlM Reading.next? ⟨.fresh, outer, none⟩ =
      some ⟨frame, outer, some last⟩ ∧ Frame.close frame last = f

theorem foldlM_append_of_eq_some {r r' : Reading} {ts : List Token} (us : List Token)
    (h : ts.foldlM Reading.next? r = some r') :
    (ts ++ us).foldlM Reading.next? r = us.foldlM Reading.next? r' := by
  rw [List.foldlM_append, h]
  rfl

theorem foldlM_operator (frame : Frame) (outer : List Frame) (last : Formula) (op : Operator)
    (ts : List Token) : (Token.operator op :: ts).foldlM Reading.next? ⟨frame, outer, some last⟩ =
      ts.foldlM Reading.next? ⟨frame.extend last op, outer, none⟩ := rfl

theorem Derives.passes {n : Phrase} (h : Derives n ts f) : n.Passes ts f := by
  -- what is pending applies to the last operand as the left formula of the chain: an operator of the
  -- chain turns that formula into the new pending one, and a parenthesis keeps it for later
  induction h with
  | number value =>
    intro frame outer
    rfl
  | @group ts f _ ih =>
    intro frame outer
    obtain ⟨inner, last, hread, rfl⟩ := ih (frame :: outer)
    have hopen : (Token.opening :: (ts ++ [Token.closing])).foldlM Reading.next?
          ⟨frame, outer, none⟩ =
        (ts ++ [Token.closing]).foldlM Reading.next? ⟨.fresh, frame :: outer, none⟩ := rfl
    rw [hopen, foldlM_append_of_eq_some _ hread]
    rfl
  | noFactor f =>
    intro sum product outer last heq
    exact ⟨product, last, rfl, heq⟩
  | @factor op ts us f g h hop _ _ ihg ihus =>
    intro sum product outer last heq
    have hextend : Frame.extend ⟨sum, product⟩ last op = ⟨sum, some (f, op)⟩ := by
      rw [Frame.extend, isAdditive_eq_false_iff.2 hop, ← heq]
      rfl
    rw [foldlM_operator, hextend, foldlM_append_of_eq_some _ (ihg ⟨sum, some (f, op)⟩ outer)]
    exact ihus sum (some (f, op)) outer g rfl
  | @multiplicative ts us f g _ _ ihf ihus =>
    intro sum outer
    rw [foldlM_append_of_eq_some _ (ihf ⟨sum, none⟩ outer)]
    exact ihus sum none outer f rfl
  | noTerm f =>
    intro frame outer last heq
    exact ⟨frame, last, rfl, heq⟩
  | @term op ts us f g h hop _ _ ihg ihus =>
    intro frame outer last heq
    have hextend : frame.extend last op = ⟨some (f, op), none⟩ := by
      rw [Frame.extend, isAdditive_eq_true_iff.2 hop, ← heq]
      rfl
    obtain ⟨product, last', hread, happly⟩ := ihg (some (f, op)) outer
    rw [foldlM_operator, hextend, foldlM_append_of_eq_some _ hread]
    apply ihus
    rw [Frame.close, happly]
    rfl
  | @additive ts us f g _ _ ihf ihus =>
    intro outer
    obtain ⟨product, last, hread, happly⟩ := ihf none outer
    rw [Frame.fresh, foldlM_append_of_eq_some _ hread]
    exact ihus ⟨none, product⟩ outer last happly

end completeness

/-- The reader comes to the end with the tree of a derivation, and with no other. -/
theorem reads_iff_derives (ts : List Token) (f : Formula) :
    (∃ r, ts.foldlM Reading.next? .start = some r ∧ r.finish = .ok f) ↔
      Derives .additive ts f := by
  constructor
  · rintro ⟨r, hread, hfinish⟩
    exact (Reading.spans_start.foldlM hread).finish hfinish
  · intro h
    obtain ⟨frame, last, hread, hclose⟩ := h.passes []
    exact ⟨_, hread, congrArg Except.ok hclose⟩

theorem Derives.eq {ts : List Token} {f g : Formula} (hf : Derives .additive ts f)
    (hg : Derives .additive ts g) : f = g := by
  obtain ⟨r, hread, hfinish⟩ := (reads_iff_derives ts f).2 hf
  obtain ⟨r', hread', hfinish'⟩ := (reads_iff_derives ts g).2 hg
  obtain rfl := Option.some.inj (hread.symm.trans hread')
  exact Except.ok.inj (hfinish.symm.trans hfinish')

theorem Derives.ne_nil {ts : List Token} {f : Formula} (h : Derives .additive ts f) : ts ≠ [] := by
  rintro rfl
  obtain ⟨r, hread, hfinish⟩ := (reads_iff_derives [] f).2 h
  obtain rfl := Option.some.inj hread
  contradiction

theorem parse_eq_ok_iff_of_derives (text : String) (f : Formula) : parse text = .ok f ↔
    ∃ ts, Splits text.toList ts ∧ Balanced ts ∧ Derives .additive ts f := by
  rw [parse_eq_ok_iff]
  simp only [Reads, tokens?_eq_some_iff, nests_iff_balanced, reads_iff_derives]

/-- A text is read as a formula exactly when it splits into words, at least one, whose parentheses
are balanced and not too deep, and which the grammar derives. The formula is the one tree that the
grammar gives them, and the number of a numeral is the double that what it writes rounds to. -/
theorem parse_iff_derives (text : String) :
    ((∃ f, parse text = .ok f) ↔ ∃ ts, Splits text.toList ts ∧ ts ≠ [] ∧ Balanced ts ∧
      ∃ f, Derives .additive ts f) ∧
    (∀ f, parse text = .ok f ↔ ∃ ts, Splits text.toList ts ∧ Balanced ts ∧
      ∀ g, Derives .additive ts g ↔ g = f) ∧
    ∀ run, ((written run).digits = 0 → (written run).toFloat = 0) ∧
      ∀ b (hb : Binary.Canonical b), 0 < (written run).digits →
        b.Covers (written run).value → (written run).toFloat = Double.of .positive b hb := by
  refine ⟨?_, fun f => ?_, fun run => ⟨fun hzero => ?_, fun b hb => Decimal.toFloat_eq hb⟩⟩
  · constructor
    · rintro ⟨f, hparse⟩
      obtain ⟨ts, hsplits, hbalanced, hf⟩ := (parse_eq_ok_iff_of_derives text f).1 hparse
      exact ⟨ts, hsplits, hf.ne_nil, hbalanced, f, hf⟩
    · rintro ⟨ts, hsplits, _, hbalanced, f, hf⟩
      exact ⟨f, (parse_eq_ok_iff_of_derives text f).2 ⟨ts, hsplits, hbalanced, hf⟩⟩
  · rw [parse_eq_ok_iff_of_derives]
    constructor
    · rintro ⟨ts, hsplits, hbalanced, hf⟩
      refine ⟨ts, hsplits, hbalanced, fun g => ⟨fun hg => hg.eq hf, ?_⟩⟩
      rintro rfl
      exact hf
    · rintro ⟨ts, hsplits, hbalanced, honly⟩
      exact ⟨ts, hsplits, hbalanced, (honly f).2 rfl⟩
  · rw [Decimal.toFloat]
    exact if_pos hzero

end FormulaLedger.Formula
