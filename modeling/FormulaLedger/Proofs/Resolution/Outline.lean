import FormulaLedger.Proofs.Formula.Graft
import FormulaLedger.Versioning

set_option autoImplicit false

namespace FormulaLedger

namespace Pointer

open Formula

def filled (p : Pointer) (x : Float) : String :=
  match p.target with
  | .literal text => text
  | _ => operandText x

/-- What stands in place of the leaves that a pointer gives. The numbers in a piece of text stay. -/
def grafts (p : Pointer) (g : Formula) : List (Option Formula) :=
  match p.target with
  | .literal text => ((scan text).toOption.getD []).flatMap fun l => l.token.leaves
  | _ => [some g]

def part? (p : Pointer) (x : Float) : Option Part :=
  match p.target with
  | .literal text => (tokens? text.toList).map .fixed
  | _ => some (.operand x)

theorem of_isLiteral {p : Pointer} (h : p.isLiteral = true) (x : Float) (g : Formula) :
    ∃ text, p.placeholder = text ∧ p.filled x = text ∧
      p.grafts g = ((scan text).toOption.getD []).flatMap (fun l => l.token.leaves) ∧
      p.part? x = (tokens? text.toList).map .fixed := by
  obtain ⟨label, target⟩ := p
  cases target with
  | literal text => exact ⟨text, rfl, rfl, rfl, rfl⟩
  | constant uniqueId => contradiction
  | calculation uniqueId => contradiction
  | cell materialId row column => contradiction
  | aggregate materialId scope function => contradiction

theorem of_not_isLiteral {p : Pointer} (h : p.isLiteral = false) (x : Float) (g : Formula) :
    p.placeholder = "(0)" ∧ p.filled x = operandText x ∧ p.grafts g = [some g] ∧
      p.part? x = some (.operand x) := by
  obtain ⟨label, target⟩ := p
  cases target with
  | literal text => contradiction
  | constant uniqueId => exact ⟨rfl, rfl, rfl, rfl⟩
  | calculation uniqueId => exact ⟨rfl, rfl, rfl, rfl⟩
  | cell materialId row column => exact ⟨rfl, rfl, rfl, rfl⟩
  | aggregate materialId scope function => exact ⟨rfl, rfl, rfl, rfl⟩

theorem tokens?_placeholder (p : Pointer) (x : Float) :
    tokens? p.placeholder.toList = (p.part? x).map Part.outline := by
  cases h : p.isLiteral with
  | true =>
    obtain ⟨text, hplaceholder, _, _, hpart⟩ := of_isLiteral h x (.number x)
    rw [hplaceholder, hpart, Option.map_map]
    cases tokens? text.toList <;> rfl
  | false =>
    obtain ⟨hplaceholder, _, _, hpart⟩ := of_not_isLiteral h x (.number x)
    rw [hplaceholder, hpart]
    rfl

theorem tokens?_filled (p : Pointer) {x : Float} (hx : x.isFinite = true) :
    tokens? (p.filled x).toList = (p.part? x).map Part.filled := by
  cases h : p.isLiteral with
  | true =>
    obtain ⟨text, _, hfilled, _, hpart⟩ := of_isLiteral h x (.number x)
    rw [hfilled, hpart, Option.map_map]
    cases tokens? text.toList <;> rfl
  | false =>
    obtain ⟨_, hfilled, _, hpart⟩ := of_not_isLiteral h x (.number x)
    rw [hfilled, hpart]
    exact tokens?_eq_some_iff.2 (splits_operandText hx)

theorem grafts_of_part? {p : Pointer} {x : Float} {part : Part} (hp : p.part? x = some part) :
    part.grafts = p.grafts (ofOperand x) := by
  cases h : p.isLiteral with
  | true =>
    obtain ⟨text, _, _, hgrafts, hpart⟩ := of_isLiteral h x (ofOperand x)
    have hbare := bare_scanFrom 0 [] text.toList
    rw [← tokens?, ← scan, bare] at hbare
    rw [hpart, ← hbare] at hp
    rw [hgrafts]
    cases hscan : scan text with
    | error e =>
      rw [hscan] at hp
      contradiction
    | ok ls =>
      rw [hscan] at hp
      rw [← Option.some.inj hp, Part.grafts]
      exact List.flatMap_map _ _ ls
  | false =>
    obtain ⟨_, _, hgrafts, hpart⟩ := of_not_isLiteral h x (ofOperand x)
    rw [hpart] at hp
    rw [hgrafts, ← Option.some.inj hp, Part.grafts]

theorem eq_of_mem_grafts {p : Pointer} {g h : Formula} (hh : some h ∈ p.grafts g) : h = g := by
  cases hp : p.isLiteral with
  | true =>
    obtain ⟨text, _, _, hgrafts, _⟩ := of_isLiteral hp 0 g
    rw [hgrafts, List.mem_flatMap] at hh
    obtain ⟨⟨token, position⟩, _, hleaf⟩ := hh
    cases token with
    | number value => simp [Token.leaves] at hleaf
    | operator op => contradiction
    | opening => contradiction
    | closing => contradiction
  | false =>
    obtain ⟨_, _, hgrafts, _⟩ := of_not_isLiteral hp 0 g
    rw [hgrafts, List.mem_singleton] at hh
    exact Option.some.inj hh

theorem part?_operand {p : Pointer} {x y : Float} (hp : p.part? x = some (.operand y)) : y = x := by
  cases h : p.isLiteral with
  | true =>
    obtain ⟨text, _, _, _, hpart⟩ := of_isLiteral h x (.number x)
    rw [hpart] at hp
    obtain ⟨ts, _, hts⟩ := Option.map_eq_some_iff.1 hp
    contradiction
  | false =>
    obtain ⟨_, _, _, hpart⟩ := of_not_isLiteral h x (.number x)
    rw [hpart] at hp
    exact (Part.operand.inj (Option.some.inj hp)).symm

end Pointer

abbrev Assigned := List (Pointer × Float)

namespace Assigned

open Formula

def pointers (as : Assigned) : List Pointer := as.map (·.1)

def text (as : Assigned) : String := " ".intercalate (as.map fun a => a.1.filled a.2)

def grafts (as : Assigned) : List (Option Formula) :=
  as.flatMap fun a => a.1.grafts (ofOperand a.2)

def parts? (as : Assigned) : Option (List Part) := as.mapM fun a => a.1.part? a.2

theorem parts?_cons (a : Pointer × Float) (as : Assigned) : parts? (a :: as) = do
    let p ← a.1.part? a.2
    let ps ← as.parts?
    return p :: ps := by
  rw [parts?, List.mapM_cons, parts?]

theorem of_parts?_cons {a : Pointer × Float} {as : Assigned} {ps : List Part}
    (h : parts? (a :: as) = some ps) :
    ∃ p qs, a.1.part? a.2 = some p ∧ as.parts? = some qs ∧ ps = p :: qs := by
  rw [parts?_cons] at h
  cases hp : a.1.part? a.2 with
  | none =>
    rw [hp] at h
    contradiction
  | some p =>
    cases hqs : as.parts? with
    | none =>
      rw [hp, hqs] at h
      contradiction
    | some qs =>
      rw [hp, hqs] at h
      exact ⟨p, qs, rfl, rfl, (Option.some.inj h).symm⟩

theorem mapM_flatten {as : Assigned} {piece : Pointer × Float → List Char}
    {view : Part → List Token}
    (h : ∀ a ∈ as, tokens? (piece a) = (a.1.part? a.2).map view) :
    ((as.map piece).mapM tokens?).map List.flatten =
      as.parts?.map fun ps => ps.flatMap view := by
  induction as with
  | nil => rfl
  | cons a as ih =>
    have ih := ih fun b hb => h b (List.mem_cons_of_mem _ hb)
    rw [parts?_cons, List.map_cons, List.mapM_cons, h a List.mem_cons_self]
    cases a.1.part? a.2 with
    | none => rfl
    | some p =>
      cases hps : parts? as with
      | none =>
        rw [hps] at ih
        have hnone : (as.map piece).mapM tokens? = none := Option.map_eq_none_iff.1 ih
        rw [hnone]
        rfl
      | some ps =>
        rw [hps] at ih
        obtain ⟨tss, htss, hflatten⟩ := Option.map_eq_some_iff.1 ih
        rw [htss]
        change some (view p ++ tss.flatten) = some (view p ++ ps.flatMap view)
        rw [hflatten]

theorem tokens?_outline (as : Assigned) (unit : String) :
    tokens? (Draft.outline ⟨unit, as.pointers⟩).toList =
      as.parts?.map fun ps => ps.flatMap Part.outline := by
  have htext : (Draft.outline ⟨unit, as.pointers⟩).toList =
      (as.map fun a => a.1.placeholder.toList).flatMap fun cs => cs ++ [' '] := by
    rw [Draft.outline, String.toList_join, pointers, List.map_map, List.flatMap_map,
      List.flatMap_map]
    simp
  rw [htext, tokens?_flatMap]
  exact mapM_flatten fun a _ => a.1.tokens?_placeholder a.2

theorem tokens?_text {as : Assigned} (hfinite : ∀ a ∈ as, a.2.isFinite = true) :
    tokens? as.text.toList = as.parts?.map fun ps => ps.flatMap Part.filled := by
  have htext : as.text.toList = [' '].intercalate (as.map fun a => (a.1.filled a.2).toList) := by
    rw [text, String.toList_intercalate, List.map_map]
    rfl
  rw [htext, tokens?_intercalate]
  exact mapM_flatten fun a ha => a.1.tokens?_filled (hfinite a ha)

theorem grafts_of_parts? {as : Assigned} {ps : List Part} (h : as.parts? = some ps) :
    ps.flatMap Part.grafts = as.grafts := by
  induction as generalizing ps with
  | nil =>
    rw [← Option.some.inj h]
    rfl
  | cons a as ih =>
    obtain ⟨p, qs, hp, hqs, rfl⟩ := of_parts?_cons h
    rw [List.flatMap_cons, ih hqs, Pointer.grafts_of_part? hp]
    rfl

theorem exists_of_operand_mem {as : Assigned} {ps : List Part} (h : as.parts? = some ps)
    {x : Float} (hx : Part.operand x ∈ ps) : ∃ a ∈ as, a.2 = x := by
  induction as generalizing ps with
  | nil =>
    rw [← Option.some.inj h] at hx
    contradiction
  | cons a as ih =>
    obtain ⟨p, qs, hp, hqs, rfl⟩ := of_parts?_cons h
    rcases List.mem_cons.1 hx with rfl | hx
    · exact ⟨a, List.mem_cons_self, (Pointer.part?_operand hp).symm⟩
    · obtain ⟨b, hb, hbx⟩ := ih hqs hx
      exact ⟨b, List.mem_cons_of_mem _ hb, hbx⟩

/-- When the outline is a formula, so is the text with numbers, and it has these in place of the
leaves that stand for references. -/
theorem parse_text {as : Assigned} {unit : String} {f : Formula}
    (hfinite : ∀ a ∈ as, a.2.isFinite = true)
    (h : parse (Draft.outline ⟨unit, as.pointers⟩) = .ok f) :
    ∃ g, parse as.text = .ok g ∧ Grafts as.grafts f g := by
  obtain ⟨ts, hts, hreads⟩ := (parse_eq_ok_iff _ _).1 h
  rw [tokens?_outline] at hts
  obtain ⟨ps, hps, rfl⟩ := Option.map_eq_some_iff.1 hts
  obtain ⟨g, hg, hgrafts⟩ := hreads.filled
  rw [grafts_of_parts? hps] at hgrafts
  have htokens : tokens? as.text.toList = some (ps.flatMap Part.filled) := by
    rw [tokens?_text hfinite, hps]
    rfl
  exact ⟨g, (parse_eq_ok_iff _ _).2 ⟨_, htokens, hg⟩, hgrafts⟩

theorem parse_outline {as : Assigned} {g : Formula} (unit : String)
    (hfinite : ∀ a ∈ as, a.2.isFinite = true) (hneg : ∀ a ∈ as, ¬ (a.2 == 0) = true ∧ a.2 < 0)
    (h : parse as.text = .ok g) : ∃ f, parse (Draft.outline ⟨unit, as.pointers⟩) = .ok f := by
  obtain ⟨ts, hts, hreads⟩ := (parse_eq_ok_iff _ _).1 h
  rw [tokens?_text hfinite] at hts
  obtain ⟨ps, hps, rfl⟩ := Option.map_eq_some_iff.1 hts
  have hoperands : ∀ x, Part.operand x ∈ ps → ¬ (x == 0) = true ∧ x < 0 := by
    intro x hx
    obtain ⟨a, ha, rfl⟩ := exists_of_operand_mem hps hx
    exact hneg a ha
  obtain ⟨f, hf⟩ := hreads.outline hoperands
  have htokens : tokens? (Draft.outline ⟨unit, as.pointers⟩).toList =
      some (ps.flatMap Part.outline) := by
    rw [tokens?_outline, hps]
    rfl
  exact ⟨f, (parse_eq_ok_iff _ _).2 ⟨_, htokens, hf⟩⟩

end Assigned

end FormulaLedger
