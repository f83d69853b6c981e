import FormulaLedger.Proofs.Procedure.Execution
import FormulaLedger.Proofs.References.Graph
import FormulaLedger.Proofs.Store.Latest
import FormulaLedger.Versioning

set_option autoImplicit false

namespace FormulaLedger

theorem Identity.difference?_isNone {a b : Identity} : (a.difference? b).isNone = true ↔ a = b := by
  obtain ⟨u, unit⟩ := a
  obtain ⟨v, unit'⟩ := b
  rw [difference?]
  split
  · next h => simp [h]
  · next h =>
    split
    · next h' => simp [h']
    · next h' => simpa using ⟨Classical.not_not.1 h, Classical.not_not.1 h'⟩

namespace Store

variable {s : Store} {kind : EntityKind} {u : String}

def referring (s : Store) (kind : EntityKind) (u : String) : List String :=
  ((ReferenceGraph.ofCalculations s.latestRows).referrers ⟨kind, u⟩).filter fun x =>
    kind != .calculation || x != u

theorem mem_referring {x : String} : x ∈ s.referring kind u ↔
    (∃ c ∈ s.latestRows, c.uniqueId = x ∧ ⟨kind, u⟩ ∈ c.entities) ∧
      (kind = .calculation → x ≠ u) := by
  have hside : (kind != .calculation || x != u) = true ↔ (kind = .calculation → x ≠ u) := by
    rw [Bool.or_eq_true, bne_iff_ne, bne_iff_ne]
    exact Decidable.imp_iff_not_or.symm
  rw [referring, List.mem_filter, hside,
    (ReferenceGraph.holds_ofCalculations s.latestRows).referrers]

theorem referring_ne_nil {c : Calculation} (hc : c ∈ s.latestRows)
    (he : ⟨kind, u⟩ ∈ c.entities) (hne : kind = .calculation → c.uniqueId ≠ u) :
    s.referring kind u ≠ [] :=
  List.ne_nil_of_mem (mem_referring.2 ⟨⟨c, hc, rfl, he⟩, hne⟩)

theorem pairwise_referring : (s.referring kind u).Pairwise (· < ·) :=
  ((ReferenceGraph.sorted_ofCalculations s.latestRows).referrers ⟨kind, u⟩).filter _

theorem OneLatest.mem_referring_iff (h : s.OneLatest) {x : String} : x ∈ s.referring kind u ↔
    (kind = .calculation → x ≠ u) ∧ s.PointsAt x (Entity.target ⟨kind, u⟩) := by
  rw [mem_referring, h.pointsAt_iff, and_comm]

theorem OneLatest.mem_referring_calculation (h : s.OneLatest) {x : String} :
    x ∈ s.referring .calculation u ↔ x ≠ u ∧ s.PointsAt x (.calculation u) := by
  rw [h.mem_referring_iff]
  exact and_congr_left' ⟨fun hne => hne rfl, fun hne _ => hne⟩

theorem OneLatest.mem_referring_constant (h : s.OneLatest) {x : String} :
    x ∈ s.referring .constant u ↔ s.PointsAt x (.constant u) := by
  rw [h.mem_referring_iff]
  exact and_iff_right fun hkind => by contradiction

def Lists (s : Store) (r : Report) (u : String) : Prop :=
  ∃ c ∈ s.rows, c.uniqueId = u ∧ c.id ∈ r.rows

instance (s : Store) (r : Report) (u : String) : Decidable (s.Lists r u) :=
  inferInstanceAs (Decidable (∃ c ∈ s.rows, c.uniqueId = u ∧ c.id ∈ r.rows))

def reporting (s : Store) (u : String) : List Report :=
  s.reportsListing ((s.history u).map (·.id))

theorem mem_reporting {r : Report} :
    r ∈ s.reporting u ↔ r ∈ s.reports ∧ ∃ c ∈ s.revisions u, c.id ∈ r.rows := by
  simp [reporting, reportsListing, history, revisions]

theorem reporting_eq (s : Store) (u : String) :
    s.reporting u = s.reports.filter fun r => decide (s.Lists r u) := by
  rw [reporting, reportsListing]
  refine List.filter_congr fun r _ => ?_
  rw [Bool.eq_iff_iff, decide_eq_true_iff]
  simp [Lists, history, and_assoc]

theorem reporting_eq_nil : s.reporting u = [] ↔ ∀ r ∈ s.reports, ¬ s.Lists r u := by
  simp [reporting_eq]

def referrers (s : Store) (kind : EntityKind) (u : String) : List Referrer :=
  (s.referring kind u).map .calculation ++
    match kind with
    | .constant => []
    | .calculation => (s.reporting u).map fun r => .report r.name

theorem referrers_constant_eq_nil :
    s.referrers .constant u = [] ↔ s.referring .constant u = [] := by
  simp [referrers]

theorem referrers_calculation_eq_nil : s.referrers .calculation u = [] ↔
    s.referring .calculation u = [] ∧ s.reporting u = [] := by
  simp [referrers]

def identityOf (s : Store) (kind : EntityKind) (u : String) : Except LedgerError Identity :=
  match kind with
  | .constant =>
    match s.constant? u with
    | some c => .ok c.identity
    | none => .error (.constantNotFound u)
  | .calculation =>
    match s.latest? u with
    | some c => .ok c.identity
    | none => .error (.calculationNotFound u)

def noLatest (s : Store) (u : String) : LedgerError :=
  match (s.history u).getLast? with
  | some newest => .conflict u (newest.version + 1)
  | none => .calculationNotFound u

end Store

namespace Versioning

open Procedure

variable (kind : EntityKind) (u : String) (s : Store)

theorem runOn_validate (d : Draft) : (validate u d).runOn s =
    ((d.check u).mapError fun fault => .invalid (.expression fault), s) := by
  rw [validate]
  cases d.check u with
  | ok _ => rfl
  | error fault => rfl

theorem runOn_expressionReferrers : (expressionReferrers kind u).runOn s =
    (.ok ((s.referring kind u).map .calculation), s) := by
  rw [expressionReferrers, runOn_bind_of_ok (runOn_ask_of_ok rfl)]
  rfl

theorem runOn_reportReferrers : (reportReferrers u).runOn s =
    (.ok ((s.reporting u).map fun r => .report r.name), s) := by
  rw [reportReferrers, runOn_bind_of_ok (runOn_ask_of_ok rfl)]
  by_cases hempty : (s.history u).isEmpty = true
  · have hnone : s.reporting u = [] := by
      rw [Store.reporting, List.isEmpty_iff.1 hempty]
      simp [Store.reportsListing]
    rw [if_pos hempty, hnone]
    rfl
  · rw [if_neg hempty]
    rfl

theorem runOn_referrers : (referrers kind u).runOn s = (.ok (s.referrers kind u), s) := by
  rw [referrers, runOn_bind_of_ok (runOn_expressionReferrers kind u s)]
  cases kind with
  | constant =>
    rw [Store.referrers, List.append_nil]
    rfl
  | calculation =>
    dsimp only
    rw [runOn_bind_of_ok (runOn_reportReferrers u s)]
    rfl

theorem runOn_refuseIfReferenced (found : List Referrer) :
    (refuseIfReferenced kind u found).runOn s =
      (if found = [] then .ok () else .error (.referenced kind u found), s) := by
  rw [refuseIfReferenced]
  cases found with
  | nil => rfl
  | cons x xs => rfl

theorem runOn_assertDeletable : (assertDeletable kind u).runOn s =
    (if s.referrers kind u = [] then .ok ()
      else .error (.referenced kind u (s.referrers kind u)), s) := by
  rw [assertDeletable, runOn_bind_of_ok (runOn_referrers kind u s), runOn_refuseIfReferenced]

theorem runOn_latest : (latest u).runOn s =
    (match s.latest? u with
      | some c => .ok c
      | none => .error (.calculationNotFound u), s) := by
  rw [latest, runOn_bind_of_ok (runOn_ask_of_ok rfl)]
  cases s.latest? u with
  | some c => rfl
  | none => rfl

theorem runOn_latestForEdit : (latestForEdit u).runOn s =
    (match s.latest? u with
      | some c => .ok c
      | none => .error (s.noLatest u), s) := by
  rw [latestForEdit, runOn_bind_of_ok (runOn_ask_of_ok rfl)]
  cases s.latest? u with
  | some c => rfl
  | none =>
    dsimp only
    rw [runOn_bind_of_ok (runOn_ask_of_ok rfl), Store.noLatest]
    cases (s.history u).getLast? with
    | some newest => rfl
    | none => rfl

theorem runOn_assertIdentityEditable (i : Identity) :
    (assertIdentityEditable kind u i).runOn s =
      (match s.identityOf kind u with
        | .ok current =>
          if current = i ∨ s.referring kind u = [] then .ok ()
          else .error (.referenced kind u ((s.referring kind u).map .calculation))
        | .error e => .error e, s) := by
  -- whatever the entity is, its identity is compared in the same way once it is found
  have hguard : ∀ current : Identity, Procedure.runOn
      (if (current.difference? i).isNone = true then return ()
        else do
          let found ← expressionReferrers kind u
          refuseIfReferenced kind u found) s =
      (if current = i ∨ s.referring kind u = [] then .ok ()
        else .error (.referenced kind u ((s.referring kind u).map .calculation)), s) := by
    intro current
    by_cases hsame : current = i
    · rw [if_pos (Identity.difference?_isNone.2 hsame), if_pos (.inl hsame)]
      rfl
    · rw [if_neg (mt Identity.difference?_isNone.1 hsame),
        runOn_bind_of_ok (runOn_expressionReferrers kind u s), runOn_refuseIfReferenced]
      simp [hsame]
  unfold assertIdentityEditable
  cases kind with
  | constant =>
    dsimp only
    rw [runOn_bind_of_ok (runOn_ask_of_ok rfl), Store.identityOf]
    cases s.constant? u with
    | some c => exact hguard c.identity
    | none => rfl
  | calculation =>
    dsimp only
    rw [runOn_bind, runOn_latest, Store.identityOf]
    cases s.latest? u with
    | some c => exact hguard c.identity
    | none => rfl

theorem runOn_isUnused : (isUnused u ((s.referring .calculation u).map .calculation)).runOn s =
    (.ok (s.referrers .calculation u).isEmpty, s) := by
  rw [isUnused, Store.referrers]
  cases s.referring .calculation u with
  | nil =>
    rw [List.map_nil, if_pos List.isEmpty_nil, runOn_bind_of_ok (runOn_reportReferrers u s)]
    rfl
  | cons x xs => rfl

end Versioning

end FormulaLedger
