import FormulaLedger.Proofs.Resolution.Contribution
import FormulaLedger.Proofs.Resolution.Outline

/-!
Interpretation of expressions without texts. The formula of an expression's outline is evaluated
with the number that each reference contributes in place of its zero, and a calculation contributes
the number of its latest row, found in the same way. Evaluation through texts comes to the same.
-/

set_option autoImplicit false

namespace FormulaLedger

abbrev Contributed := List (Pointer × Contribution)

namespace Contributed

open Formula

def reasons (ks : Contributed) : List Reason := ks.flatMap fun k => k.2.reasons

/-- The contributed numbers in place of the leaves that stand for references. -/
def grafts (ks : Contributed) : List (Option Formula) :=
  ks.flatMap fun k => k.1.grafts (.number k.2.number)

def evaluate (d : Draft) (ks : Contributed) : Evaluation :=
  match parse d.outline with
  | .error e => ⟨.error, ks.reasons ++ [.failure (.malformed e)]⟩
  | .ok f =>
    match (f.graft ks.grafts).evaluate with
    | .error e => ⟨.error, ks.reasons ++ [.failure (.valueless e)]⟩
    | .ok x => ⟨.number x, ks.reasons⟩

end Contributed

def Calculation.enter (c : Calculation) (path : List String) : List String :=
  if path.contains c.uniqueId then path else c.uniqueId :: path

namespace Store

def unvisited (store : Store) (path : List String) : Nat :=
  store.rows.countP fun c => !path.contains c.uniqueId

theorem mem_of_latest? {store : Store} {uniqueId : String} {c : Calculation}
    (h : store.latest? uniqueId = some c) : c ∈ store.rows ∧ c.uniqueId = uniqueId := by
  have hfound := List.find?_some h
  rw [Bool.and_eq_true, beq_iff_eq] at hfound
  exact ⟨List.mem_of_find?_eq_some h, hfound.2⟩

theorem countP_lt_countP {rows : List Calculation} {p q : Calculation → Bool}
    (h : ∀ c ∈ rows, p c = true → q c = true) {c : Calculation} (hc : c ∈ rows)
    (hp : p c = false) (hq : q c = true) : rows.countP p < rows.countP q := by
  induction rows with
  | nil => contradiction
  | cons r rows ih =>
    have hle : rows.countP p ≤ rows.countP q :=
      List.countP_mono_left fun d hd => h d (List.mem_cons_of_mem _ hd)
    rw [List.countP_cons, List.countP_cons]
    rcases List.mem_cons.1 hc with rfl | hc
    · rw [if_neg (by simp [hp]), if_pos hq]
      omega
    · have hlt := ih (fun d hd => h d (List.mem_cons_of_mem _ hd)) hc
      have hr := h r List.mem_cons_self
      by_cases hpr : p r = true
      · rw [if_pos hpr, if_pos (hr hpr)]
        omega
      · rw [if_neg hpr]
        omega

theorem unvisited_enter_lt {store : Store} {path : List String} {uniqueId : String}
    {c : Calculation} (hpath : ¬ path.contains uniqueId = true)
    (h : store.latest? uniqueId = some c) :
    store.unvisited (c.enter path) < store.unvisited path := by
  obtain ⟨hmem, hid⟩ := mem_of_latest? h
  rw [Calculation.enter, hid, if_neg hpath, unvisited, unvisited]
  apply countP_lt_countP _ hmem
  · simp [hid]
  · simp [hid]
    simpa using hpath
  · intro r _ hr
    simp only [List.contains_cons, Bool.not_or, Bool.and_eq_true] at hr
    exact hr.2

mutual

/-- What a pointer contributes while the calculations on the path are being evaluated. One that is
on the path contributes zero. -/
def contribution (store : Store) (s : Setting) (path : List String) (p : Pointer) :
    Contribution :=
  match p.target with
  | .literal _ => .none
  | .constant uniqueId => s.constantContribution uniqueId (store.constant? uniqueId)
  | .calculation uniqueId =>
    if _ : path.contains uniqueId = true then .unresolved .cycle uniqueId
    else
      match _ : store.latest? uniqueId with
      | none => .unresolved .calculationUnresolved uniqueId
      | some c => .ofNested s.options uniqueId (store.interpret s path c)
  | .cell materialId row column => s.cellContribution materialId row column
  | .aggregate materialId scope function => s.aggregateContribution materialId scope function
termination_by 2 * store.unvisited path
decreasing_by
  have hlt := unvisited_enter_lt ‹¬ path.contains uniqueId = true›
    ‹store.latest? uniqueId = some c›
  omega

def interpret (store : Store) (s : Setting) (path : List String) (c : Calculation) : Evaluation :=
  Contributed.evaluate c.draft
    (c.expression.map fun p => (p, store.contribution s (c.enter path) p))
termination_by 2 * store.unvisited (c.enter path) + 1

end

end Store

end FormulaLedger
