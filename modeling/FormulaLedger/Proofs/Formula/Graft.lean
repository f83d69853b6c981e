import FormulaLedger.Proofs.Formula.Operand

/-!
Formulas in place of leaves. Two token sequences that differ only in the operands that stand at some
places are read in step, and what is read differs only in the leaves at these places.
-/

set_option autoImplicit false

namespace FormulaLedger.Formula

def leaves : Formula → Nat
  | .number _ => 1
  | .binary _ left right => left.leaves + right.leaves

/-- Puts formulas in place of leaves, from left to right. A leaf stays where nothing is given. -/
def graft : Formula → List (Option Formula) → Formula
  | .number value, gs => (gs.head?.join).getD (.number value)
  | .binary op left right, gs =>
    .binary op (left.graft (gs.take left.leaves)) (right.graft (gs.drop left.leaves))

inductive Grafts : List (Option Formula) → Formula → Formula → Prop
  | keep (value : Float) : Grafts [none] (.number value) (.number value)
  | put (g : Formula) : Grafts [some g] (.number 0) g
  | binary {as bs : List (Option Formula)} {left left' right right' : Formula} (op : Operator) :
      Grafts as left left' → Grafts bs right right' →
      Grafts (as ++ bs) (.binary op left right) (.binary op left' right')

namespace Grafts

variable {gs : List (Option Formula)} {f g : Formula}

theorem length_eq (h : Grafts gs f g) : gs.length = f.leaves := by
  induction h with
  | keep value => rfl
  | put g => rfl
  | binary op _ _ ihl ihr => rw [List.length_append, ihl, ihr, leaves]

theorem eq_graft (h : Grafts gs f g) : g = f.graft gs := by
  induction h with
  | keep value => rfl
  | put g => rfl
  | binary op hl _ ihl ihr =>
    rw [graft, ← hl.length_eq, List.take_left, List.drop_left, ← ihl, ← ihr]

theorem eq_of_zeros (h : Grafts gs f g) (hzero : ∀ h, some h ∈ gs → h = .number 0) : g = f := by
  induction h with
  | keep value => rfl
  | put g => exact hzero g List.mem_cons_self
  | binary op _ _ ihl ihr =>
    rw [ihl fun h hh => hzero h (List.mem_append_left _ hh),
      ihr fun h hh => hzero h (List.mem_append_right _ hh)]

end Grafts

theorem evaluate_graft_congr (f : Formula) {as bs : List (Option Formula)}
    (h : List.Forall₂ (Option.Rel fun a b => a.evaluate = b.evaluate) as bs) :
    (f.graft as).evaluate = (f.graft bs).evaluate := by
  induction f generalizing as bs with
  | number value =>
    cases h with
    | nil => rfl
    | cons hhead _ =>
      cases hhead with
      | none => rfl
      | some heq => exact heq
  | binary op left right ihl ihr =>
    rw [graft, graft, evaluate, evaluate, ihl (List.forall₂_take _ h), ihr (List.forall₂_drop _ h)]

inductive Pending.Grafts : List (Option Formula) → Pending → Pending → Prop
  | none : Pending.Grafts [] none none
  | some {gs : List (Option Formula)} {f g : Formula} (op : Operator) : Formula.Grafts gs f g →
      Pending.Grafts gs (some (f, op)) (some (g, op))

inductive Frame.Grafts : List (Option Formula) → Frame → Frame → Prop
  | mk {as bs : List (Option Formula)} {sum sum' product product' : Pending} :
      Pending.Grafts as sum sum' → Pending.Grafts bs product product' →
      Frame.Grafts (as ++ bs) ⟨sum, product⟩ ⟨sum', product'⟩

inductive Frame.AllGraft : List (Option Formula) → List Frame → List Frame → Prop
  | nil : AllGraft [] [] []
  | cons {as bs : List (Option Formula)} {frame frame' : Frame} {outer outer' : List Frame} :
      AllGraft as outer outer' → Frame.Grafts bs frame frame' →
      AllGraft (as ++ bs) (frame :: outer) (frame' :: outer')

inductive Reading.Grafts : List (Option Formula) → Reading → Reading → Prop
  | before {as bs : List (Option Formula)} {frame frame' : Frame} {outer outer' : List Frame} :
      Frame.AllGraft as outer outer' → Frame.Grafts bs frame frame' →
      Reading.Grafts (as ++ bs) ⟨frame, outer, none⟩ ⟨frame', outer', none⟩
  | after {as bs cs : List (Option Formula)} {frame frame' : Frame} {outer outer' : List Frame}
      {last last' : Formula} :
      Frame.AllGraft as outer outer' → Frame.Grafts bs frame frame' → Formula.Grafts cs last last' →
      Reading.Grafts (as ++ bs ++ cs) ⟨frame, outer, some last⟩ ⟨frame', outer', some last'⟩

variable {as bs gs : List (Option Formula)}

theorem Pending.Grafts.apply {p p' : Pending} {f g : Formula} (hp : Pending.Grafts as p p')
    (hf : Formula.Grafts bs f g) : Formula.Grafts (as ++ bs) (p.apply f) (p'.apply g) := by
  cases hp with
  | none => exact hf
  | some op hleft => exact .binary op hleft hf

theorem Frame.Grafts.fresh : Frame.Grafts [] .fresh .fresh := .mk .none .none

theorem Frame.Grafts.close {a b : Frame} {f g : Formula} (h : Frame.Grafts as a b)
    (hf : Formula.Grafts bs f g) : Formula.Grafts (as ++ bs) (a.close f) (b.close g) := by
  obtain ⟨hsum, hproduct⟩ := h
  rw [List.append_assoc]
  exact hsum.apply (hproduct.apply hf)

theorem Frame.Grafts.extend {a b : Frame} {f g : Formula} (h : Frame.Grafts as a b)
    (hf : Formula.Grafts bs f g) (op : Operator) :
    Frame.Grafts (as ++ bs) (a.extend f op) (b.extend g op) := by
  have hclose := h.close hf
  rw [Frame.extend, Frame.extend]
  by_cases hop : op.isAdditive = true
  · rw [if_pos hop, if_pos hop, ← List.append_nil (as ++ bs)]
    exact .mk (.some op hclose) .none
  · rw [if_neg hop, if_neg hop]
    obtain ⟨hsum, hproduct⟩ := h
    rw [List.append_assoc]
    exact .mk hsum (.some op (hproduct.apply hf))

def Token.leaves : Token → List (Option Formula)
  | .number _ => [none]
  | .operator _ | .opening | .closing => []

theorem Reading.Grafts.next? {r r' : Reading} (h : Reading.Grafts gs r r') (token : Token) :
    Option.Rel (Reading.Grafts (gs ++ token.leaves)) (r.next? token) (r'.next? token) := by
  cases h with
  | before houter hframe =>
    cases token with
    | number value => exact .some (.after houter hframe (.keep value))
    | opening =>
      rw [Token.leaves]
      exact .some (.before (.cons houter hframe) .fresh)
    | operator op => exact .none
    | closing => exact .none
  | after houter hframe hlast =>
    cases token with
    | number value => exact .none
    | opening => exact .none
    | operator op =>
      rw [Token.leaves, List.append_nil, List.append_assoc]
      exact .some (.before houter (hframe.extend hlast op))
    | closing =>
      rw [Token.leaves, List.append_nil]
      cases houter with
      | nil => exact .none
      | cons houter hinner =>
        rw [List.append_assoc]
        exact .some (.after houter hinner (hframe.close hlast))

theorem Reading.Grafts.finish {r r' : Reading} (h : Reading.Grafts gs r r') :
    Option.Rel (Formula.Grafts gs) r.finish.toOption r'.finish.toOption := by
  cases h with
  | before houter hframe => exact .none
  | after houter hframe hlast =>
    cases houter with
    | nil => exact .some (hframe.close hlast)
    | cons houter hinner => exact .none

/-- A piece of an expression: tokens that are given, or a place for a number. -/
inductive Part
  | fixed (ts : List Token)
  | operand (x : Float)

namespace Part

def outline : Part → List Token
  | .fixed ts => ts
  | .operand _ => [.opening, .number 0, .closing]

def filled : Part → List Token
  | .fixed ts => ts
  | .operand x => tokensOfOperand x

def grafts : Part → List (Option Formula)
  | .fixed ts => ts.flatMap Token.leaves
  | .operand x => [some (ofOperand x)]

end Part

theorem rel_bind {α β γ δ : Type} {R : α → β → Prop} {S : γ → δ → Prop} {a : Option α}
    {b : Option β} {f : α → Option γ} {g : β → Option δ} (h : Option.Rel R a b)
    (hfg : ∀ x y, R x y → Option.Rel S (f x) (g y)) : Option.Rel S (a.bind f) (b.bind g) := by
  cases h with
  | none => exact .none
  | some hxy => exact hfg _ _ hxy

theorem Reading.Grafts.foldlM {r r' : Reading} (h : Reading.Grafts gs r r') (ts : List Token) :
    Option.Rel (Reading.Grafts (gs ++ ts.flatMap Token.leaves)) (ts.foldlM Reading.next? r)
      (ts.foldlM Reading.next? r') := by
  induction ts generalizing gs r r' with
  | nil =>
    rw [List.flatMap_nil, List.append_nil]
    exact .some h
  | cons token ts ih =>
    rw [List.flatMap_cons, ← List.append_assoc]
    exact rel_bind (h.next? token) fun _ _ h => ih h

theorem foldlM_tokensOfOperand (x : Float) (frame : Frame) (outer : List Frame) :
    (tokensOfOperand x).foldlM Reading.next? ⟨frame, outer, none⟩ =
      some ⟨frame, outer, some (ofOperand x)⟩ ∧
    ∀ last, (tokensOfOperand x).foldlM Reading.next? ⟨frame, outer, some last⟩ = none := by
  rw [tokensOfOperand, ofOperand]
  by_cases hzero : (x == 0) = true
  · rw [if_pos hzero, if_pos hzero]
    exact ⟨rfl, fun _ => rfl⟩
  · rw [if_neg hzero, if_neg hzero]
    by_cases hneg : x < 0
    · rw [if_pos hneg, if_pos hneg]
      exact ⟨rfl, fun _ => rfl⟩
    · rw [if_neg hneg, if_neg hneg]
      exact ⟨rfl, fun _ => rfl⟩

theorem Reading.Grafts.part {r r' : Reading} (h : Reading.Grafts gs r r') (p : Part) :
    Option.Rel (Reading.Grafts (gs ++ p.grafts)) (p.outline.foldlM Reading.next? r)
      (p.filled.foldlM Reading.next? r') := by
  cases p with
  | fixed ts => exact h.foldlM ts
  | operand x =>
    cases h with
    | before houter hframe =>
      rw [Part.filled, (foldlM_tokensOfOperand x _ _).1]
      exact .some (.after houter hframe (.put (ofOperand x)))
    | after houter hframe hlast =>
      rw [Part.filled, (foldlM_tokensOfOperand x _ _).2]
      exact .none

theorem Reading.Grafts.parts {r r' : Reading} (h : Reading.Grafts gs r r') (ps : List Part) :
    Option.Rel (Reading.Grafts (gs ++ ps.flatMap Part.grafts))
      ((ps.flatMap Part.outline).foldlM Reading.next? r)
      ((ps.flatMap Part.filled).foldlM Reading.next? r') := by
  induction ps generalizing gs r r' with
  | nil =>
    rw [List.flatMap_nil, List.append_nil]
    exact .some h
  | cons p ps ih =>
    rw [List.flatMap_cons, List.flatMap_cons, List.flatMap_cons, List.foldlM_append,
      List.foldlM_append, ← List.append_assoc]
    exact rel_bind (h.part p) fun _ _ h => ih h

theorem Nests.append {ts us vs : List Token} (h : ∀ depth, Nests depth us → Nests depth vs) :
    ∀ depth, Nests depth (ts ++ us) → Nests depth (ts ++ vs) := by
  induction ts with
  | nil => exact h
  | cons token ts ih =>
    intro depth hnests
    cases token with
    | number value => exact ih depth hnests
    | operator op => exact ih depth hnests
    | opening => exact ⟨hnests.1, ih (depth + 1) hnests.2⟩
    | closing =>
      cases depth with
      | zero => exact hnests
      | succ depth => exact ih depth hnests

theorem Nests.filled (ps : List Part) (depth : Nat) (h : Nests depth (ps.flatMap Part.outline)) :
    Nests depth (ps.flatMap Part.filled) := by
  induction ps generalizing depth with
  | nil => exact h
  | cons p ps ih =>
    cases p with
    | fixed ts => exact Nests.append ih depth h
    | operand x =>
      obtain ⟨hdepth, hrest⟩ := h
      have hfilled : Nests depth (ps.flatMap Part.filled) := ih depth hrest
      rw [List.flatMap_cons, Part.filled, tokensOfOperand]
      by_cases hzero : (x == 0) = true
      · rw [if_pos hzero]
        exact hfilled
      · rw [if_neg hzero]
        by_cases hneg : x < 0
        · rw [if_pos hneg]
          exact ⟨hdepth, hfilled⟩
        · rw [if_neg hneg]
          exact hfilled

theorem Nests.outline (ps : List Part)
    (hneg : ∀ x, Part.operand x ∈ ps → ¬ (x == 0) = true ∧ x < 0) (depth : Nat)
    (h : Nests depth (ps.flatMap Part.filled)) : Nests depth (ps.flatMap Part.outline) := by
  induction ps generalizing depth with
  | nil => exact h
  | cons p ps ih =>
    have ih := ih fun x hx => hneg x (List.mem_cons_of_mem _ hx)
    cases p with
    | fixed ts => exact Nests.append ih depth h
    | operand x =>
      obtain ⟨hzero, hlt⟩ := hneg x List.mem_cons_self
      rw [List.flatMap_cons, Part.filled, tokensOfOperand, if_neg hzero, if_pos hlt] at h
      obtain ⟨hdepth, hrest⟩ := h
      exact ⟨hdepth, ih depth hrest⟩

theorem Reads.filled {ps : List Part} {f : Formula} (h : Reads (ps.flatMap Part.outline) f) :
    ∃ g, Reads (ps.flatMap Part.filled) g ∧ Grafts (ps.flatMap Part.grafts) f g := by
  obtain ⟨hnests, r, hr, hf⟩ := h
  have hstart : Reading.Grafts [] .start .start := .before .nil .fresh
  have hrun := hstart.parts ps
  rw [hr] at hrun
  generalize hr' : (ps.flatMap Part.filled).foldlM Reading.next? .start = found at hrun
  cases hrun with
  | @some _ r' hgrafts =>
    have hfinish := hgrafts.finish
    rw [hf] at hfinish
    cases hg : r'.finish with
    | error e =>
      rw [hg] at hfinish
      cases hfinish
    | ok g =>
      rw [hg] at hfinish
      cases hfinish with
      | some hfg => exact ⟨g, ⟨hnests.filled ps 0, r', hr', hg⟩, hfg⟩

theorem Reads.outline {ps : List Part} {g : Formula}
    (hneg : ∀ x, Part.operand x ∈ ps → ¬ (x == 0) = true ∧ x < 0)
    (h : Reads (ps.flatMap Part.filled) g) : ∃ f, Reads (ps.flatMap Part.outline) f := by
  obtain ⟨hnests, r', hr', hg⟩ := h
  have hstart : Reading.Grafts [] .start .start := .before .nil .fresh
  have hrun := hstart.parts ps
  rw [hr'] at hrun
  generalize hr : (ps.flatMap Part.outline).foldlM Reading.next? .start = found at hrun
  cases hrun with
  | @some r _ hgrafts =>
    have hfinish := hgrafts.finish
    rw [hg] at hfinish
    cases hf : r.finish with
    | error e =>
      rw [hf] at hfinish
      cases hfinish
    | ok f => exact ⟨f, Nests.outline ps hneg 0 hnests, r, hr, hf⟩

end FormulaLedger.Formula
