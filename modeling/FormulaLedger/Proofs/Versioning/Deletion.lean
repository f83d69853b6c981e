import FormulaLedger.Proofs.Versioning.Session

set_option autoImplicit false

namespace FormulaLedger

open Versioning

namespace Procedure

variable {α β : Type} {p : Procedure α} {s t : Store} {found : Option β} {free : Prop}
  [Decidable free] {a : α} {missing refused : LedgerError}

def guarded (s : Store) (found : Option β) (free : Prop) [Decidable free]
    (missing refused : LedgerError) (done : α × Store) : Except LedgerError α × Store :=
  match found with
  | none => (.error missing, s)
  | some _ => if free then (.ok done.1, done.2) else (.error refused, s)

theorem runOn_guarded (hrun : p.runOn s = guarded s found free missing refused (a, t)) :
    ((∃ b r, p.runOn s = (.ok b, r)) ↔ (∃ c, found = some c) ∧ free) ∧
      (∀ b r, p.runOn s = (.ok b, r) → b = a ∧ r = t) ∧
      ∀ e r, p.runOn s = (.error e, r) → r = s ∧
        ((¬ ∃ c, found = some c) ∧ e = missing ∨ (∃ c, found = some c) ∧ e = refused) := by
  rw [hrun]
  cases found with
  | none =>
    rw [guarded]
    have hnone : ¬ ∃ c : β, none = some c := nofun
    refine ⟨iff_of_false nofun fun h => hnone h.1, nofun, fun e r h => ?_⟩
    cases h
    exact ⟨rfl, .inl ⟨hnone, rfl⟩⟩
  | some c =>
    rw [guarded]
    have hsome : ∃ d, some c = some d := ⟨c, rfl⟩
    by_cases hfree : free
    · rw [if_pos hfree]
      refine ⟨iff_of_true ⟨a, t, rfl⟩ ⟨hsome, hfree⟩, fun b r h => ?_, nofun⟩
      cases h
      exact ⟨rfl, rfl⟩
    · rw [if_neg hfree]
      refine ⟨iff_of_false nofun fun h => hfree h.2, nofun, fun e r h => ?_⟩
      cases h
      exact ⟨rfl, .inr ⟨hsome, rfl⟩⟩

end Procedure

namespace Store

variable {s : Store} {u k : String}

theorem OneLatest.referrers_eq_nil_iff (h : s.OneLatest) : s.referrers .calculation u = [] ↔
    (∀ x, x ≠ u → ¬ s.PointsAt x (.calculation u)) ∧ ∀ r ∈ s.reports, ¬ s.Lists r u := by
  rw [referrers_calculation_eq_nil, reporting_eq_nil, List.eq_nil_iff_forall_not_mem]
  simp only [h.mem_referring_calculation, not_and]

theorem OneLatest.referring_eq_nil_iff (h : s.OneLatest) :
    s.referring .constant k = [] ↔ ∀ x, ¬ s.PointsAt x (.constant k) := by
  rw [List.eq_nil_iff_forall_not_mem]
  simp only [h.mem_referring_constant]

theorem referrers_calculation (s : Store) (u : String) : s.referrers .calculation u =
    (s.referring .calculation u).map .calculation ++
      (s.reports.filter fun r => s.Lists r u).map fun r => .report r.name := by
  rw [referrers, reporting_eq]

theorem referrers_constant (s : Store) (k : String) :
    s.referrers .constant k = (s.referring .constant k).map .calculation := by
  rw [referrers, List.append_nil]

theorem Orderly.constants_filter (hs : s.Orderly) {c : Constant} (hc : s.constant? k = some c) :
    ∃ before after, s.constants = before ++ c :: after ∧
      s.constants.filter (·.uniqueId != k) = before ++ after := by
  obtain ⟨before, after, heq, hother⟩ := hs.constants_split hc
  refine ⟨before, after, heq, ?_⟩
  rw [heq, List.filter_append, List.filter_cons_of_neg (by simp [uniqueId_of_constant? hc]),
    ← List.filter_append, List.filter_eq_self.2 fun other hmem => bne_iff_ne.2 (hother other hmem)]

theorem answer_deleteConstant_of_some {c : Constant} (hc : s.constant? k = some c) :
    s.answer (.deleteConstant k) =
      (.ok (), { s with constants := s.constants.filter (·.uniqueId != k) }) := by
  rw [answer, deleteConstant, hc]
  rfl

end Store

/-- The deletions of a calculation and of a constant, after any run. -/
theorem Run.delete_exact {es : List Episode} {held : List Calculation} {s : Store}
    (h : Run es held s) :
    (∀ u : String,
      ((∃ n t, (deleteCalculation u).runOn s = (.ok n, t)) ↔
        (∃ c, s.latest? u = some c) ∧
          (∀ x, x ≠ u → ¬ s.PointsAt x (.calculation u)) ∧ ∀ r ∈ s.reports, ¬ s.Lists r u) ∧
      (∀ n t, (deleteCalculation u).runOn s = (.ok n, t) →
        n = (s.rows.filter (·.uniqueId == u)).length ∧
        t = { s with
          rows := s.rows.filter (·.uniqueId != u)
          versions := s.versions.filter (·.1.1 != u) }) ∧
      ∀ e t, (deleteCalculation u).runOn s = (.error e, t) → t = s ∧
        ((¬ ∃ c, s.latest? u = some c) ∧ e = .calculationNotFound u ∨
          (∃ c, s.latest? u = some c) ∧ ∃ R : List String, R.Pairwise (· < ·) ∧
            (∀ x, x ∈ R ↔ x ≠ u ∧ s.PointsAt x (.calculation u)) ∧
            e = .referenced .calculation u (R.map .calculation ++
              (s.reports.filter fun r => s.Lists r u).map fun r => .report r.name))) ∧
    ∀ k : String,
      ((∃ t, (deleteConstant k).runOn s = (.ok (), t)) ↔
        (∃ c, s.constant? k = some c) ∧ ∀ x, ¬ s.PointsAt x (.constant k)) ∧
      (∀ t, (deleteConstant k).runOn s = (.ok (), t) →
        ∃ c before after, c.uniqueId = k ∧ s.constants = before ++ c :: after ∧
          t = { s with constants := before ++ after }) ∧
      ∀ e t, (deleteConstant k).runOn s = (.error e, t) → t = s ∧
        ((¬ ∃ c, s.constant? k = some c) ∧ e = .constantNotFound k ∨
          (∃ c, s.constant? k = some c) ∧ ∃ R : List String, R.Pairwise (· < ·) ∧
            (∀ x, x ∈ R ↔ s.PointsAt x (.constant k)) ∧
            e = .referenced .constant k (R.map .calculation)) := by
  have hone := h.sound.chained.oneLatest
  refine ⟨fun u => ?_, fun k => ?_⟩
  · have hrun : (deleteCalculation u).runOn s = Procedure.guarded s (s.latest? u)
        (s.referrers .calculation u = []) (.calculationNotFound u)
        (.referenced .calculation u (s.referrers .calculation u)) (s.deleteCalculation u) := by
      rw [runOn_deleteCalculation]
      cases s.latest? u with
      | none => rfl
      | some c => rfl
    obtain ⟨hiff, heffect, herror⟩ := Procedure.runOn_guarded hrun
    refine ⟨?_, fun n t hok => ?_, fun e t hfailed => ?_⟩
    · rw [hiff, hone.referrers_eq_nil_iff]
    · obtain ⟨rfl, rfl⟩ := heffect n t hok
      exact ⟨List.countP_eq_length_filter, rfl⟩
    · obtain ⟨hsame, hwhy⟩ := herror e t hfailed
      refine ⟨hsame, hwhy.imp_right fun ⟨hknown, he⟩ => ⟨hknown, ?_⟩⟩
      rw [Store.referrers_calculation] at he
      exact ⟨_, Store.pairwise_referring, fun x => hone.mem_referring_calculation, he⟩
  · have hrun : (deleteConstant k).runOn s = Procedure.guarded s (s.constant? k)
        (s.referring .constant k = []) (.constantNotFound k)
        (.referenced .constant k ((s.referring .constant k).map .calculation))
        ((), { s with constants := s.constants.filter (·.uniqueId != k) }) := by
      rw [runOn_deleteConstant, Store.referrers_constant]
      cases hc : s.constant? k with
      | none => rfl
      | some c => rw [Procedure.runOn_ask_of_ok (Store.answer_deleteConstant_of_some hc),
          Procedure.guarded]
    obtain ⟨hiff, heffect, herror⟩ := Procedure.runOn_guarded hrun
    refine ⟨?_, fun t hok => ?_, fun e t hfailed => ?_⟩
    · rw [← hone.referring_eq_nil_iff, ← hiff]
      exact ⟨fun ⟨t, ht⟩ => ⟨(), t, ht⟩, fun ⟨_, t, ht⟩ => ⟨t, ht⟩⟩
    · obtain ⟨_, rfl⟩ := heffect () t hok
      obtain ⟨⟨c, hc⟩, _⟩ := hiff.1 ⟨(), _, hok⟩
      obtain ⟨before, after, heq, hfilter⟩ := h.orderly.constants_filter hc
      exact ⟨c, before, after, Store.uniqueId_of_constant? hc, heq, by rw [hfilter]⟩
    · obtain ⟨hsame, hwhy⟩ := herror e t hfailed
      refine ⟨hsame, hwhy.imp_right fun ⟨hknown, he⟩ => ⟨hknown, ?_⟩⟩
      exact ⟨_, Store.pairwise_referring, fun x => hone.mem_referring_constant, he⟩

namespace Run

/-- A constant and a calculation of one name. The constant is referred to, and of the calculation
`c` a frozen row refers to the other calculation and stands in a report. -/
def sharedNameStore : Store :=
  { lastId := 5
    rows := [⟨1, "a", 1, false, plainDraft⟩, ⟨2, "a", 2, true, plainDraft⟩,
      ⟨3, "b", 1, true, ⟨"", [.of (.constant "a")]⟩⟩,
      ⟨4, "c", 1, false, ⟨"", [.of (.calculation "a")]⟩⟩, ⟨5, "c", 2, true, plainDraft⟩]
    versions := [(("a", 1), 1), (("a", 2), 2), (("b", 1), 3), (("c", 1), 4), (("c", 2), 5)]
    constants := [⟨"a", 2020, "", none, []⟩]
    reports := [⟨"past", [4]⟩] }

theorem run_sharedNameStore : ∃ es, Run es [] sharedNameStore := by
  let ops : List Operation := [.createConstant ⟨"a", 2020, "", none, []⟩,
    .change (.create "a" plainDraft), .change (.bump "a" plainDraft),
    .change (.create "b" ⟨"", [.of (.constant "a")]⟩),
    .change (.create "c" ⟨"", [.of (.calculation "a")]⟩), .change (.bump "c" plainDraft),
    .insertReport ⟨"past", [4]⟩]
  have hops : ∀ op ∈ ops, op.StartsFrom [] := by
    simp [ops, Operation.StartsFrom, Change.StartsFrom]
  have hstore : ops.foldl (fun s op => (op.procedure.runOn s).2) Store.empty = sharedNameStore := by
    decide +kernel
  rw [← hstore]
  exact Run.start.runOn_all hops

/-- Neither the reference to the constant nor that of the frozen row keeps the calculation. The
constant stays, and so does the calculation whose frozen row is in the report. -/
theorem delete_exact_sharedName :
    (∃ es, Run es [] sharedNameStore) ∧
    (∃ n t, (deleteCalculation "a").runOn sharedNameStore = (.ok n, t) ∧ n = 2 ∧
      t.constants = sharedNameStore.constants) ∧
    (∀ t, (deleteConstant "a").runOn sharedNameStore ≠ (.ok (), t)) ∧
    ∀ n t, (deleteCalculation "c").runOn sharedNameStore ≠ (.ok n, t) := by
  obtain ⟨es, hrun⟩ := run_sharedNameStore
  obtain ⟨hcalculation, hconstant⟩ := hrun.delete_exact
  refine ⟨⟨es, hrun⟩, ?_, fun t ht => ?_, fun n t ht => ?_⟩
  · have hlatest : ∃ c, sharedNameStore.latest? "a" = some c :=
      ⟨⟨2, "a", 2, true, plainDraft⟩, by decide +kernel⟩
    have hpoints : ∀ x, x ≠ "a" → ¬ sharedNameStore.PointsAt x (.calculation "a") := by
      intro x _ hx
      obtain ⟨c, hc, _, he⟩ :=
        (hrun.sound.chained.oneLatest.pointsAt_iff (e := ⟨.calculation, "a"⟩)).1 hx
      have hnone : ∀ c ∈ sharedNameStore.latestRows, ⟨.calculation, "a"⟩ ∉ c.entities := by
        decide +kernel
      exact hnone c hc he
    have hlists : ∀ r ∈ sharedNameStore.reports, ¬ sharedNameStore.Lists r "a" := by
      decide +kernel
    obtain ⟨n, t, ht⟩ := (hcalculation "a").1.2 ⟨hlatest, hpoints, hlists⟩
    obtain ⟨rfl, rfl⟩ := (hcalculation "a").2.1 n t ht
    exact ⟨_, _, ht, by decide +kernel, rfl⟩
  · refine ((hconstant "a").1.1 ⟨t, ht⟩).2 "b" ?_
    exact ⟨⟨3, "b", 1, true, ⟨"", [.of (.constant "a")]⟩⟩, by decide +kernel, _,
      List.mem_cons_self, rfl⟩
  · exact ((hcalculation "c").1.1 ⟨n, t, ht⟩).2.2 ⟨"past", [4]⟩ (by decide) (by decide +kernel)

end Run

end FormulaLedger
