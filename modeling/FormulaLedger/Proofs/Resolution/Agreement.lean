import FormulaLedger.Proofs.Resolution.Reasons
import FormulaLedger.Proofs.Resolution.Syntax

set_option autoImplicit false

namespace FormulaLedger

namespace Contributed

open Formula

def assigned (ks : Contributed) : Assigned := ks.map fun k => (k.1, k.2.number)

theorem join_eq (ks : Contributed) :
    Resolution.join (ks.map fun k => ⟨k.1.filled k.2.number, k.2.reasons⟩) =
      ⟨ks.assigned.text, ks.reasons⟩ := by
  rw [Resolution.join, List.map_map, List.flatMap_map, Assigned.text, assigned, List.map_map,
    reasons]
  rfl

theorem forall₂_grafts (p : Pointer) {g h : Formula} (heq : g.evaluate = h.evaluate) :
    List.Forall₂ (Option.Rel fun a b => a.evaluate = b.evaluate) (p.grafts g) (p.grafts h) := by
  obtain ⟨label, target⟩ := p
  cases target with
  | literal text =>
    apply List.forall₂_same.2
    intro leaf _
    cases leaf with
    | none => exact .none
    | some f => exact .some rfl
  | constant uniqueId => exact .cons (.some heq) .nil
  | calculation uniqueId => exact .cons (.some heq) .nil
  | cell materialId row column => exact .cons (.some heq) .nil
  | aggregate materialId scope function => exact .cons (.some heq) .nil

theorem forall₂_assigned {ks : Contributed} (hplain : ∀ k ∈ ks, k.2.Plain) :
    List.Forall₂ (Option.Rel fun a b => a.evaluate = b.evaluate) ks.assigned.grafts ks.grafts := by
  induction ks with
  | nil => exact .nil
  | cons k ks ih =>
    have hk := hplain k List.mem_cons_self
    have heq : (ofOperand k.2.number).evaluate = (number k.2.number).evaluate := by
      rw [evaluate_ofOperand hk.finite, hk.unsigned]
      exact (finite_eq_ok hk.finite).symm
    exact List.rel_append (forall₂_grafts k.1 heq)
      (ih fun k hk => hplain k (List.mem_cons_of_mem _ hk))

theorem evaluateText_assigned {d : Draft} {ks : Contributed} {f : Formula}
    (hpointers : ks.assigned.pointers = d.expression) (hplain : ∀ k ∈ ks, k.2.Plain)
    (hf : parse d.outline = .ok f) :
    evaluateText ks.assigned.text ks.reasons = evaluate d ks := by
  have houtline : parse (Draft.outline ⟨d.unit, ks.assigned.pointers⟩) = .ok f := by
    rw [hpointers]
    exact hf
  have hfinite : ∀ a ∈ ks.assigned, a.2.isFinite = true := by
    intro a ha
    obtain ⟨k, hk, rfl⟩ := List.mem_map.1 ha
    exact (hplain k hk).finite
  obtain ⟨g, hg, hgrafts⟩ := Assigned.parse_text hfinite houtline
  have hvalue : g.evaluate = (f.graft ks.grafts).evaluate := by
    rw [hgrafts.eq_graft]
    exact evaluate_graft_congr f (forall₂_assigned hplain)
  rw [evaluateText, valueOf, hg, evaluate, hf]
  dsimp only
  rw [hvalue]
  cases (f.graft ks.grafts).evaluate with
  | error e => rfl
  | ok x => rfl

end Contributed

namespace Store

variable (store : Store) (s : Setting)

/-- The rows that the evaluation of a row can come to: the latest rows of what it refers to, and so
on. -/
inductive Reaches : Calculation → Calculation → Prop
  | refl (c : Calculation) : Reaches c c
  | step {c d e : Calculation} {p : Pointer} {uniqueId : String} : p ∈ c.expression →
      p.target = .calculation uniqueId → store.latest? uniqueId = some d → Reaches d e → Reaches c e

theorem Reaches.mem {store : Store} {c d : Calculation} (h : store.Reaches c d)
    (hc : c ∈ store.rows) : d ∈ store.rows := by
  induction h with
  | refl c => exact hc
  | step _ _ hlatest _ ih => exact ih (mem_of_latest? hlatest).1

theorem contribution_calculation (path : List String) (label : Label) (uniqueId : String) :
    store.contribution s path ⟨label, .calculation uniqueId⟩ =
      if path.contains uniqueId = true then .unresolved .cycle uniqueId
      else
        match store.latest? uniqueId with
        | none => .unresolved .calculationUnresolved uniqueId
        | some c => .ofNested s.options uniqueId (store.interpret s path c) := by
  unfold contribution
  by_cases hcycle : path.contains uniqueId = true
  · rw [dif_pos hcycle, if_pos hcycle]
  · rw [dif_neg hcycle, if_neg hcycle]
    split
    · next hlatest => rw [hlatest]
    · next c hlatest => rw [hlatest]

/-- A pointer resolves to the operand of what it contributes. -/
theorem resolvePointer_eq {path : List String} {enter : Calculation → Evaluation} (p : Pointer)
    (henter : ∀ uniqueId c, p.target = .calculation uniqueId → ¬ path.contains uniqueId = true →
      store.latest? uniqueId = some c → enter c = store.interpret s path c) :
    (store.contribution s path p).Plain ∧
      Id.run (resolvePointer store.lookups s path enter p) =
        ⟨p.filled (store.contribution s path p).number, (store.contribution s path p).reasons⟩ := by
  obtain ⟨label, target⟩ := p
  cases target with
  | literal text =>
    rw [contribution]
    exact ⟨Contribution.plain_zero [], rfl⟩
  | constant uniqueId =>
    rw [contribution]
    obtain ⟨hplain, heq⟩ := s.stands_constant uniqueId (store.constant? uniqueId)
    exact ⟨hplain, heq⟩
  | cell materialId row column =>
    rw [contribution]
    obtain ⟨hplain, heq⟩ := s.stands_cell materialId row column
    exact ⟨hplain, heq⟩
  | aggregate materialId scope function =>
    rw [contribution]
    obtain ⟨hplain, heq⟩ := s.stands_aggregate materialId scope function
    exact ⟨hplain, heq⟩
  | calculation uniqueId =>
    rw [contribution_calculation]
    unfold resolvePointer
    dsimp only
    by_cases hcycle : path.contains uniqueId = true
    · rw [if_pos hcycle, if_pos hcycle]
      obtain ⟨hplain, heq⟩ := Contribution.stands_zero [.about .cycle uniqueId]
      exact ⟨hplain, heq⟩
    · rw [if_neg hcycle, if_neg hcycle]
      have hlook : store.lookups.latest uniqueId = .ok (store.latest? uniqueId) := rfl
      rw [hlook]
      cases hlatest : store.latest? uniqueId with
      | none =>
        obtain ⟨hplain, heq⟩ := Contribution.stands_zero [.about .calculationUnresolved uniqueId]
        exact ⟨hplain, heq⟩
      | some c =>
        obtain ⟨hplain, heq⟩ :=
          Contribution.stands_ofNested s uniqueId (store.interpret s path c)
        have hnested := henter uniqueId c rfl hcycle hlatest
        constructor
        · exact hplain
        · dsimp only
          rw [← hnested] at heq ⊢
          exact heq

theorem evaluateWithin_eq {depth : Nat} {path : List String} {c : Calculation}
    (hvalid : ∀ d, store.Reaches c d → d.draft.check d.uniqueId = .ok ())
    (hdepth : store.unvisited (c.enter path) < depth) :
    Id.run (evaluateWithin store.lookups s depth path c) = store.interpret s path c := by
  induction depth generalizing path c with
  | zero => omega
  | succ depth ih =>
    have hparts : ∀ p ∈ c.expression, (store.contribution s (c.enter path) p).Plain ∧
        store.resolved s depth (c.enter path) p =
          ⟨p.filled (store.contribution s (c.enter path) p).number,
            (store.contribution s (c.enter path) p).reasons⟩ := by
      intro p hp
      apply store.resolvePointer_eq
      intro uniqueId d htarget hpath hlatest
      have hlt := unvisited_enter_lt hpath hlatest
      exact ih (fun e he => hvalid e (.step hp htarget hlatest he)) (by omega)
    obtain ⟨f, hf⟩ := Draft.parse_of_check (hvalid c (.refl c))
    have hinterpret : store.interpret s path c = Contributed.evaluate c.draft
        (c.expression.map fun p => (p, store.contribution s (c.enter path) p)) := by rw [interpret]
    rw [hinterpret]
    generalize hks : c.expression.map (fun p => (p, store.contribution s (c.enter path) p)) = ks
    have hresolved : Resolution.join (c.expression.map (store.resolved s depth (c.enter path))) =
        ⟨(Contributed.assigned ks).text, Contributed.reasons ks⟩ := by
      rw [← Contributed.join_eq, ← hks, List.map_map]
      exact congrArg Resolution.join (List.map_congr_left fun p hp => (hparts p hp).2)
    have hpointers : (Contributed.assigned ks).pointers = c.expression := by
      rw [Contributed.assigned, Assigned.pointers, List.map_map, ← hks, List.map_map]
      exact List.map_id' _
    have hplain : ∀ k ∈ ks, k.2.Plain := by
      rw [← hks]
      intro k hk
      obtain ⟨p, hp, rfl⟩ := List.mem_map.1 hk
      exact (hparts p hp).1
    rw [evaluateWithin_succ, hresolved]
    exact Contributed.evaluateText_assigned hpointers hplain hf

/-- Evaluating a row whose expression passes its check, as do those of the rows it can come to, is
interpreting it. -/
theorem evaluateRow_eq_interpret (c : Calculation)
    (hvalid : ∀ d, store.Reaches c d → d.draft.check d.uniqueId = .ok ()) :
    store.evaluateRow s c = store.interpret s [] c := by
  have hle : store.unvisited (c.enter []) ≤ store.rows.length := List.countP_le_length
  have hdepth : store.unvisited (c.enter []) < store.depth := Nat.lt_succ_of_le hle
  exact store.evaluateWithin_eq s hvalid hdepth

/-- Twice the rest over the parts, with parentheses that two pieces of text share. -/
def share : Calculation :=
  ⟨1, "share", 1, true, "t", [.of (.literal "(2 *"), .of (.calculation "rest"), .of (.literal ") /"),
    .of (.constant "parts")]⟩

def rest : Calculation :=
  ⟨2, "rest", 1, true, "t", [.of (.literal "3 -"), .of (.constant "parts"), .of (.literal "+"),
    .of (.calculation "share")]⟩

def crossed : Store :=
  { empty with
    rows := [share, rest]
    constants := [⟨"parts", 2024, "1", none, [⟨"default", 5⟩]⟩] }

def plainSetting : Setting :=
  ⟨[], ⟨"acme", ⟨⟨2024, 1, 1, by decide⟩, ⟨2024, 12, 31, by decide⟩, by decide⟩, "here"⟩, .standard⟩

def outlook : Calculation :=
  ⟨3, "outlook", 1, true, "t", [.of (.calculation "share"), .of (.literal "+"),
    .of (.cell "sales" 0 1), .of (.literal "+"), .of (.cell "sales" 1 0), .of (.literal "+"),
    .of (.aggregate "sales" (.row 0) .sum), .of (.literal "+"),
    .of (.aggregate "sales" (.column 0) (.countIf "north"))]⟩

def crossedOutlook : Store := { crossed with rows := crossed.rows ++ [outlook] }

def salesSetting : Setting :=
  { plainSetting with
    materials := plainSetting.materials.insert "acme" plainSetting.company.period
      ⟨"sales", [[.text "north", .number (-2), .text " 5 "], [.text "south", .empty],
        [.text "North sea", .number 8]]⟩ }

/-- A negative number in the middle, a cycle and a heading that contribute zero, a negative cell, a
sum of three and a count of two. -/
theorem evaluateRow_eq_interpret_outlook :
    (∀ d, crossedOutlook.Reaches outlook d → d.draft.check d.uniqueId = .ok ()) ∧
      crossedOutlook.interpret salesSetting [] outlook =
        ⟨.number 2.2, [.about .cycle "share", .about .cellNotNumeric (cellAddress "sales" 1 0)]⟩ := by
  have hrows : ∀ d ∈ crossedOutlook.rows, d.draft.check d.uniqueId = .ok () := by decide +kernel
  have houtlook : outlook ∈ crossedOutlook.rows := by decide
  have hvalid : ∀ d, crossedOutlook.Reaches outlook d → d.draft.check d.uniqueId = .ok () :=
    fun d hd => hrows d (hd.mem houtlook)
  have hvalue : crossedOutlook.evaluateRow salesSetting outlook =
      ⟨.number 2.2, [.about .cycle "share", .about .cellNotNumeric (cellAddress "sales" 1 0)]⟩ := by
    decide +kernel
  rw [← crossedOutlook.evaluateRow_eq_interpret salesSetting outlook hvalid]
  exact ⟨hvalid, hvalue⟩

end Store

end FormulaLedger
