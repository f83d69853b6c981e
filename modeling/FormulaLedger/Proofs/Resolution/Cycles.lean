import FormulaLedger.Proofs.References.Reachability
import FormulaLedger.Proofs.References.Walk
import FormulaLedger.Proofs.Resolution.Agreement
import FormulaLedger.Proofs.Resolution.Reasons
import FormulaLedger.Proofs.Store.Latest

/-!
Cycles in evaluations and in the reference graph. An evaluation follows references from row to row
and stops where it would enter a calculation again; the graph searches with a set of calculations
that it has seen. Both come to the same cycles.
-/

set_option autoImplicit false

namespace FormulaLedger

theorem Oddity.take_key {oddity : Oddity} (h : oddity ≠ .cycle) :
    2 ≤ oddity.key.toList.length ∧ oddity.key.toList.take 2 ≠ ['c', 'y'] := by
  revert h
  cases oddity <;> decide

theorem head?_toList_append {s : String} {x : Char} (t : String) (h : s.toList.head? = some x) :
    (s ++ t).toList.head? = some x := by
  rw [String.toList_append, List.head?_append, h]
  rfl

theorem Formula.ParseError.head?_message (e : Formula.ParseError) :
    ∃ x, e.message.toList.head? = some x ∧ x ≠ 'c' := by
  have joined : ∀ {s : String} {x : Char} (t₁ t₂ : String), s.toList.head? = some x →
      (s ++ t₁ ++ t₂).toList.head? = some x :=
    fun t₁ t₂ h => head?_toList_append t₂ (head?_toList_append t₁ h)
  cases e with
  | empty => exact ⟨'e', rfl, by decide⟩
  | unbalanced => exact ⟨'u', rfl, by decide⟩
  | badCharacter c position =>
    exact ⟨'u', head?_toList_append _ (joined _ _ rfl), by decide⟩
  | badNumeral text => exact ⟨'i', joined _ _ rfl, by decide⟩
  | tooDeep position => exact ⟨'p', head?_toList_append _ (joined _ _ rfl), by decide⟩
  | incomplete => exact ⟨'u', rfl, by decide⟩
  | unexpected token position =>
    exact ⟨'u', head?_toList_append _ (joined _ _ rfl), by decide⟩

theorem Formula.Failure.head?_message (f : Formula.Failure) :
    ∃ x, f.message.toList.head? = some x ∧ x ≠ 'c' := by
  cases f with
  | malformed e => exact e.head?_message
  | valueless e =>
    cases e with
    | divisionByZero => exact ⟨'d', rfl, by decide⟩
    | notFinite => exact ⟨'r', rfl, by decide⟩

theorem Reason.text_eq_cycle_iff {reason : Reason} (h : reason.Arises) (x : String) :
    reason.text .plain = "cycle detected: " ++ x ↔ reason = .about .cycle x := by
  have hcycle : ("cycle detected: " ++ x).toList =
      'c' :: 'y' :: ("cle detected: " ++ x).toList := by
    rw [String.toList_append, String.toList_append]
    rfl
  cases reason with
  | stated text => exact absurd h id
  | failure f =>
    constructor
    · intro heq
      obtain ⟨y, hhead, hother⟩ := f.head?_message
      change f.message = _ at heq
      rw [heq, hcycle] at hhead
      exact absurd (Option.some.inj hhead).symm hother
    · intro heq
      contradiction
  | about oddity subject =>
    have htext : (Reason.about oddity subject).text .plain = oddity.key ++ (": " ++ subject) :=
      String.append_assoc
    by_cases hodd : oddity = .cycle
    · have hkey : "cycle detected: " ++ x = Oddity.cycle.key ++ (": " ++ x) := by
        rw [← String.append_assoc]
        rfl
      rw [htext, hodd, hkey]
      simp
    · constructor
      · intro heq
        obtain ⟨hlength, htake⟩ := Oddity.take_key hodd
        have hstart : (oddity.key ++ (": " ++ subject)).toList.take 2 =
            oddity.key.toList.take 2 := by
          rw [String.toList_append]
          exact List.take_append_of_le_length hlength
        rw [← htext, heq, hcycle] at hstart
        exact absurd hstart.symm htake
      · intro heq
        exact absurd (Reason.about.inj heq).1 hodd

def Evaluation.NamesCycle (e : Evaluation) (uniqueId : String) : Prop :=
  "cycle detected: " ++ uniqueId ∈ e.texts .plain

theorem Evaluation.namesCycle_iff {e : Evaluation} (h : e.Arises) {x : String} :
    e.NamesCycle x ↔ Reason.about .cycle x ∈ e.reasons := by
  rw [NamesCycle, texts, List.mem_map]
  constructor
  · rintro ⟨reason, hmem, htext⟩
    obtain rfl := (Reason.text_eq_cycle_iff (h reason hmem) x).1 htext
    exact hmem
  · intro hmem
    exact ⟨_, hmem, (Reason.text_eq_cycle_iff (h _ hmem) x).2 rfl⟩

namespace Store

variable {store : Store} {s : Setting}

def Refers (store : Store) (x y : String) : Prop :=
  ∃ c, store.latest? x = some c ∧ ∃ p ∈ c.expression, p.target = .calculation y

theorem OneLatest.leads_iff (h : store.OneLatest) (x y : String) :
    (ReferenceGraph.ofCalculations store.latestRows).Leads x y ↔ store.Refers x y := by
  rw [ReferenceGraph.Leads, ReferenceGraph.mem_next,
    (ReferenceGraph.holds_ofCalculations store.latestRows).references, ← h.pointsAt_iff]
  exact Iff.rfl

theorem OneLatest.hasCycle_iff (h : store.OneLatest) (x : String) :
    (ReferenceGraph.ofCalculations store.latestRows).hasCycle x = true ↔
      Relation.TransGen store.Refers x x := by
  have hleads : (ReferenceGraph.ofCalculations store.latestRows).Leads = store.Refers :=
    funext fun x => funext fun y => propext (h.leads_iff x y)
  rw [ReferenceGraph.hasCycle_iff, hleads]

/-- A cycle that a pointer reports: the pointer leads back to the path, or into a calculation that
reports it. -/
theorem cycle_mem_resolved (hnested : s.options.includeNestedReasons = true) (depth : Nat)
    (path : List String) (p : Pointer) (x : String) :
    Reason.about .cycle x ∈ (store.resolved s depth path p).reasons ↔
      ∃ y, p.target = .calculation y ∧ (y ∈ path ∧ x = y ∨ y ∉ path ∧ ∃ c,
        store.latest? y = some c ∧ Reason.about .cycle x ∈
          (Id.run (evaluateWithin store.lookups s depth path c)).reasons) := by
  have hother : ∀ oddity subject,
      Reason.about .cycle x = .about oddity subject ∧ oddity.isOperand = true → False := by
    rintro oddity subject ⟨heq, hoperand⟩
    rw [← (Reason.about.inj heq).1] at hoperand
    contradiction
  by_cases htarget : ∃ y, p.target = .calculation y
  · obtain ⟨y, htarget⟩ := htarget
    have honly : ∀ z, p.target = .calculation z ↔ y = z := by simp [htarget]
    simp only [honly, exists_eq_left']
    rw [store.resolved_calculation s depth path htarget]
    by_cases hpath : y ∈ path
    · rw [if_pos (List.contains_iff_mem.2 hpath)]
      simp [Resolution.zero, hpath]
    · rw [if_neg (mt List.contains_iff_mem.1 hpath)]
      cases store.latest? y with
      | none => simp [Resolution.zero, hpath]
      | some c =>
        simp only [hpath, false_and, not_false_eq_true, true_and, false_or, Option.some.injEq,
          exists_eq_left']
        constructor
        · intro hmem
          rcases s.reasons_resolveNested y _ hmem with hmem | hown
          · exact hmem
          · exact absurd (Reason.about.inj hown).1 (by decide)
        · exact s.mem_resolveNested hnested y
  · constructor
    · intro hmem
      have hown := store.resolved_own s depth path (p := p) fun y heq => htarget ⟨y, heq⟩
      obtain ⟨oddity, subject, hreason⟩ := hown _ hmem
      exact (hother oddity subject hreason).elim
    · rintro ⟨y, hy, _⟩
      exact absurd ⟨y, hy⟩ htarget

theorem exists_latest_of_meets {path : List String} {v x : String}
    (h : Meets store.Refers path v x) : ∃ d, store.latest? v = some d := by
  cases h with
  | here hstep => exact ⟨_, hstep.choose_spec.1⟩
  | onward hstep => exact ⟨_, hstep.choose_spec.1⟩

/-- An evaluation reports a cycle where following the references meets a calculation again. -/
theorem cycle_mem_evaluateWithin (hnested : s.options.includeNestedReasons = true) {depth : Nat}
    {path : List String} {c : Calculation} (hlatest : store.latest? c.uniqueId = some c)
    (hdepth : store.unvisited (c.enter path) < depth) (x : String) :
    Reason.about .cycle x ∈ (Id.run (evaluateWithin store.lookups s depth path c)).reasons ↔
      Meets store.Refers (c.enter path) c.uniqueId x := by
  induction depth generalizing path c with
  | zero => omega
  | succ depth ih =>
    have hfailure : ∀ f : Formula.Failure, Reason.about .cycle x ≠ .failure f := by simp
    simp only [store.mem_reasons_evaluateWithin, cycle_mem_resolved hnested, hfailure, and_false,
      exists_false, or_false]
    -- a calculation that is entered was not visited yet, so the depth is enough for it as well
    have hinner : ∀ y d, y ∉ c.enter path → store.latest? y = some d →
        (Reason.about .cycle x ∈
          (Id.run (evaluateWithin store.lookups s depth (c.enter path) d)).reasons ↔
          Meets store.Refers (y :: c.enter path) y x) := by
      intro y d hy hd
      obtain ⟨_, rfl⟩ := mem_of_latest? hd
      have hpath : ¬ (c.enter path).contains d.uniqueId = true := mt List.contains_iff_mem.1 hy
      have henter : d.enter (c.enter path) = d.uniqueId :: c.enter path := if_neg hpath
      have hlt := unvisited_enter_lt hpath hd
      rw [← henter]
      exact ih hd (by omega)
    constructor
    · rintro ⟨p, hp, y, htarget, ⟨hy, rfl⟩ | ⟨hy, d, hd, hmem⟩⟩
      · exact .here ⟨c, hlatest, p, hp, htarget⟩ hy
      · exact .onward ⟨c, hlatest, p, hp, htarget⟩ hy ((hinner y d hy hd).1 hmem)
    · intro hmeets
      cases hmeets with
      | here hstep hmem =>
        obtain ⟨c', hc', p, hp, htarget⟩ := hstep
        obtain rfl := Option.some.inj (hlatest.symm.trans hc')
        exact ⟨p, hp, x, htarget, .inl ⟨hmem, rfl⟩⟩
      | onward hstep hnew hrest =>
        obtain ⟨c', hc', p, hp, htarget⟩ := hstep
        obtain rfl := Option.some.inj (hlatest.symm.trans hc')
        obtain ⟨d, hd⟩ := exists_latest_of_meets hrest
        exact ⟨p, hp, _, htarget, .inr ⟨hnew, d, hd, (hinner _ d hnew hd).2 hrest⟩⟩

theorem namesCycle_iff_meets (hnested : s.options.includeNestedReasons = true) {c : Calculation}
    (hlatest : store.latest? c.uniqueId = some c) (x : String) :
    (store.evaluateRow s c).NamesCycle x ↔ Meets store.Refers [c.uniqueId] c.uniqueId x := by
  have hle : store.unvisited (c.enter []) ≤ store.rows.length := List.countP_le_length
  have hdepth : store.unvisited (c.enter []) < store.depth := Nat.lt_succ_of_le hle
  have hmem := cycle_mem_evaluateWithin hnested hlatest hdepth x
  have harises : (store.evaluateRow s c).Arises := store.arises_evaluateWithin s _ _ c
  rw [Evaluation.namesCycle_iff harises]
  exact hmem

/-- The cycles that an evaluation of a latest row reports are those of the reference graph. It
reports its own calculation when that lies on a cycle, it reports only calculations that lie on a
cycle and that its references lead to, and it reports one as soon as they lead to any. -/
theorem OneLatest.evaluateLatest_cycles (h : store.OneLatest)
    (hnested : s.options.includeNestedReasons = true) {u : String}
    (hlatest : (store.latest? u).isSome = true) :
    ∃ g e, Calculator.referenceGraph.runOn store = (.ok g, store) ∧
      store.evaluateLatest s u = .ok e ∧
      (e.NamesCycle u ↔ g.hasCycle u = true) ∧
      (∀ x, e.NamesCycle x →
        Relation.ReflTransGen store.Refers u x ∧ g.hasCycle x = true) ∧
      ((∃ x, e.NamesCycle x) ↔
        ∃ w, Relation.ReflTransGen store.Refers u w ∧ g.hasCycle w = true) := by
  obtain ⟨c, hc⟩ := Option.isSome_iff_exists.1 hlatest
  obtain ⟨_, rfl⟩ := mem_of_latest? hc
  refine ⟨.ofCalculations store.latestRows, _, rfl, evaluateLatest_of_some s hc, ?_, ?_, ?_⟩
  · rw [namesCycle_iff_meets hnested hc, h.hasCycle_iff, meets_start_iff]
  · intro x hx
    have hmeets := (namesCycle_iff_meets hnested hc x).1 hx
    obtain ⟨hreach, hcycle⟩ := hmeets.cycle (by simp [Relation.ReflTransGen.refl])
    exact ⟨hreach.to_reflTransGen, (h.hasCycle_iff x).2 hcycle⟩
  · simp only [namesCycle_iff_meets hnested hc, h.hasCycle_iff, exists_meets_iff]

/-- The share and the rest refer to one another, and the evaluation of the share says so. -/
theorem evaluateLatest_cycles_crossed :
    crossed.OneLatest ∧ ∃ e, crossed.evaluateLatest plainSetting "share" = .ok e ∧
      e.NamesCycle "share" := by
  have hone : crossed.OneLatest := oneLatest_of_nodup (by decide)
  obtain ⟨g, e, hgraph, hevaluate, hown, _, _⟩ :=
    hone.evaluateLatest_cycles (s := plainSetting) (u := "share") rfl rfl
  have hcycle : (ReferenceGraph.ofCalculations crossed.latestRows).hasCycle "share" = true := by
    decide +kernel
  have hg : ReferenceGraph.ofCalculations crossed.latestRows = g :=
    Except.ok.inj (congrArg Prod.fst hgraph)
  exact ⟨hone, e, hevaluate, hown.2 (hg ▸ hcycle)⟩

end Store

end FormulaLedger
