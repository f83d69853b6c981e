import FormulaLedger.Proofs.Store.Chain
import FormulaLedger.Store.Program

/-!
What one request does to the rows of a store. Rows are added by an insertion, changed where they
stand by the two updates, and removed by a deletion. No other request touches them, no request gives
a row an id that was given before, and none takes a report away.
-/

set_option autoImplicit false

namespace FormulaLedger

def Request.writesRows : Request → Bool
  | .insertRow _ | .setLatest _ _ | .updateLatest _ _ | .deleteCalculation _ => true
  | _ => false

def Request.isRead : Request → Bool
  | .row _ | .latest _ | .version _ _ | .latestRows | .history _ | .constant _ | .report _
  | .reportsListing _ => true
  | _ => false

def NewRow.stored (row : NewRow) (id : RowId) : Calculation :=
  ⟨id, row.uniqueId, row.version, row.latest, row.draft⟩

/-- A change of a row that leaves alone what the row is found by. -/
def KeepsKey (f : Calculation → Calculation) : Prop :=
  ∀ c, (f c).id = c.id ∧ (f c).uniqueId = c.uniqueId ∧ (f c).version = c.version

theorem keepsKey_latest (latest : Bool) :
    KeepsKey fun c : Calculation => { c with latest } := fun _ => ⟨rfl, rfl, rfl⟩

theorem keepsKey_draft (draft : Draft) :
    KeepsKey fun c : Calculation => { c with draft } := fun _ => ⟨rfl, rfl, rfl⟩

theorem KeepsKey.at {f : Calculation → Calculation} (hf : KeepsKey f) (id : RowId) :
    KeepsKey fun c => if c.id = id then f c else c := by
  intro c
  by_cases hi : c.id = id
  · simpa [hi] using hf c
  · simp [hi]

namespace Store

def withRow (s : Store) (row : NewRow) : Store :=
  { s with
    lastId := s.lastId + 1
    rows := s.rows ++ [row.stored (s.lastId + 1)]
    versions := s.versions ++ [((row.uniqueId, row.version), s.lastId + 1)] }

theorem insertRow_eq (s : Store) (row : NewRow) :
    s.insertRow row =
      if (s.versions.lookup (row.uniqueId, row.version)).isSome then
        .error (.duplicateVersion row.uniqueId row.version)
      else .ok (s.lastId + 1, s.withRow row) := rfl

theorem revisions_withRow (s : Store) (row : NewRow) (u : String) :
    (s.withRow row).revisions u =
      s.revisions u ++ if row.uniqueId = u then [row.stored (s.lastId + 1)] else [] := by
  by_cases hu : row.uniqueId = u
  · simp [revisions, withRow, NewRow.stored, hu]
  · simp [revisions, withRow, NewRow.stored, hu]

theorem revisions_modifyRow (s : Store) (id : RowId) {f : Calculation → Calculation}
    (hf : KeepsKey f) (u : String) :
    (s.modifyRow id f).revisions u =
      (s.revisions u).map fun c => if c.id = id then f c else c := by
  rw [revisions, modifyRow, revisions, List.filter_map]
  congr 1
  apply List.filter_congr
  intro c _
  have hk := hf.at id c
  simp only [Function.comp]
  rw [hk.2.1]

theorem revisions_deleteCalculation (s : Store) (deleted u : String) :
    (s.deleteCalculation deleted).2.revisions u = if u = deleted then [] else s.revisions u := by
  by_cases hu : u = deleted
  · subst hu
    simp [deleteCalculation, revisions]
  · simp only [deleteCalculation, revisions, List.filter_filter, hu, ↓reduceIte]
    apply List.filter_congr
    intro c _
    by_cases hc : c.uniqueId = u
    · simp [hc, hu]
    · simp [hc]

theorem revisions_of_rows_eq {s t : Store} (h : t.rows = s.rows) (u : String) :
    t.revisions u = s.revisions u := by
  rw [revisions, h, revisions]

theorem modifyRow_rows_of_forall {s : Store} {id : RowId} {f : Calculation → Calculation}
    (h : ∀ c ∈ s.rows, c.id = id → f c = c) : (s.modifyRow id f).rows = s.rows := by
  rw [modifyRow]
  refine (List.map_congr_left fun c hc => ?_).trans (List.map_id _)
  by_cases hi : c.id = id
  · simp [hi, h c hc hi]
  · simp [hi]

theorem answer_of_isRead (s : Store) {r : Request} (h : r.isRead = true) :
    (s.answer r).2 = s := by
  cases r <;> trivial

theorem answer_eq_of_isRead (s : Store) {r : Request} (h : r.isRead = true) :
    ∃ a, s.answer r = (.ok a, s) := by
  cases r <;> first | exact ⟨_, rfl⟩ | contradiction

theorem change_induction {p : Store → Prop} {s : Store} {next : Except StoreError Store} (hs : p s)
    (hn : ∀ t, next = .ok t → p t) : p (s.change next).2 := by
  cases next with
  | ok t => exact hn t rfl
  | error e => exact hs

theorem changeWith_induction {α : Type} {p : Store → Prop} {s : Store}
    {next : Except StoreError (α × Store)} (hs : p s) (hn : ∀ a t, next = .ok (a, t) → p t) :
    p (s.changeWith next).2 := by
  cases next with
  | ok result => exact hn result.1 result.2 rfl
  | error e => exact hs

theorem answer_of_error {s : Store} {r : Request} {e : StoreError} (h : (s.answer r).1 = .error e) :
    (s.answer r).2 = s := by
  have hchange : ∀ {next : Except StoreError Store}, (s.change next).1 = .error e →
      (s.change next).2 = s := by
    intro next h
    cases next with
    | ok t => contradiction
    | error e => rfl
  have hchangeWith : ∀ {α : Type} {next : Except StoreError (α × Store)},
      (s.changeWith next).1 = .error e → (s.changeWith next).2 = s := by
    intro α next h
    cases next with
    | ok result => contradiction
    | error e => rfl
  cases r with
  | insertRow _ | setLatest _ _ | deleteCalculation _ => exact hchangeWith h
  | updateLatest _ _ | insertConstant _ | updateConstant _ _ | deleteConstant _
  | insertReport _ | updateReport _ => exact hchange h
  | _ => rfl

def SameRows (s t : Store) : Prop :=
  t.rows = s.rows ∧ t.versions = s.versions ∧ t.lastId = s.lastId

theorem answer_sameRows (s : Store) {r : Request} (h : r.writesRows = false) :
    s.SameRows (s.answer r).2 := by
  have hs : s.SameRows s := ⟨rfl, rfl, rfl⟩
  cases r with
  | insertRow _ | setLatest _ _ | updateLatest _ _ | deleteCalculation _ =>
    simp [Request.writesRows] at h
  | insertConstant c =>
    exact change_induction hs fun t ht => by grind [insertConstant, SameRows]
  | updateConstant u c =>
    exact change_induction hs fun t ht => by grind [updateConstant, SameRows]
  | deleteConstant u =>
    exact change_induction hs fun t ht => by grind [deleteConstant, SameRows]
  | insertReport r => exact change_induction hs fun t ht => by grind [insertReport, SameRows]
  | updateReport r => exact change_induction hs fun t ht => by grind [updateReport, SameRows]
  | _ => exact hs

theorem sameRows_modifyRow {s : Store} {id : RowId} {f : Calculation → Calculation}
    (h : ∀ c ∈ s.rows, c.id = id → f c = c) : s.SameRows (s.modifyRow id f) :=
  ⟨modifyRow_rows_of_forall h, rfl, rfl⟩

theorem answer_insertRow_of_free {s : Store} (row : NewRow)
    (h : (s.versions.lookup (row.uniqueId, row.version)).isSome = false) :
    s.answer (.insertRow row) = (.ok (s.lastId + 1), s.withRow row) := by
  simp only [answer, changeWith, insertRow_eq, h, Bool.false_eq_true, ↓reduceIte]

theorem answer_insertRow_of_taken {s : Store} (row : NewRow)
    (h : (s.versions.lookup (row.uniqueId, row.version)).isSome = true) :
    s.answer (.insertRow row) = (.error (.duplicateVersion row.uniqueId row.version), s) := by
  simp only [answer, changeWith, insertRow_eq, h, ↓reduceIte]

theorem answer_setLatest_of_some {s : Store} {id : RowId} {c : Calculation}
    (h : s.row? id = some c) (latest : Bool) :
    s.answer (.setLatest id latest) =
      (.ok c.latest, s.modifyRow id fun c => { c with latest }) := by
  simp only [answer, changeWith, setLatest, h]

theorem answer_setLatest_of_none {s : Store} {id : RowId} (h : s.row? id = none)
    (latest : Bool) : s.answer (.setLatest id latest) = (.error (.rowNotFound id), s) := by
  simp only [answer, changeWith, setLatest, h]

theorem answer_updateLatest_of_some {s : Store} {id : RowId} {c : Calculation}
    (h : s.row? id = some c) (draft : Draft) :
    s.answer (.updateLatest id draft) =
      if c.latest = true then (.ok (), s.modifyRow id fun c => { c with draft })
      else (.error (.rowNotLatest id), s) := by
  by_cases hl : c.latest = true
  · simp only [answer, change, updateLatest, h, hl, ↓reduceIte]
  · simp only [answer, change, updateLatest, h, hl, Bool.false_eq_true, ↓reduceIte]

theorem answer_updateLatest_of_none {s : Store} {id : RowId} (h : s.row? id = none)
    (draft : Draft) : s.answer (.updateLatest id draft) = (.error (.rowNotFound id), s) := by
  simp only [answer, change, updateLatest, h]

def reportNames (s : Store) : List String := s.reports.map (·.name)

theorem report?_isSome_iff (s : Store) (name : String) :
    (s.report? name).isSome ↔ name ∈ s.reportNames := by
  simp [report?, reportNames]

def KeepsReports (s t : Store) : Prop := s.reportNames <+: t.reportNames

theorem KeepsReports.isSome {s t : Store} (h : s.KeepsReports t) {name : String}
    (hn : (s.report? name).isSome) : (t.report? name).isSome := by
  rw [report?_isSome_iff] at hn ⊢
  exact h.mem hn

theorem answer_keepsReports (s : Store) (r : Request) : s.KeepsReports (s.answer r).2 := by
  have hs : s.KeepsReports s := List.prefix_refl _
  cases r with
  | insertReport r =>
    refine change_induction hs fun t ht => ?_
    unfold insertReport at ht
    split at ht
    · contradiction
    · cases ht
      rw [KeepsReports, reportNames, reportNames, List.map_append]
      exact List.prefix_append _ _
  | updateReport r =>
    refine change_induction hs fun t ht => ?_
    unfold updateReport at ht
    split at ht
    · contradiction
    · cases ht
      have hn : ∀ old : Report, (if old.name = r.name then r else old).name = old.name := by
        intro old
        by_cases h : old.name = r.name
        · simp [h]
        · simp [h]
      simp [KeepsReports, reportNames, Function.comp_def, hn]
  | insertConstant c =>
    exact change_induction hs fun t ht => by grind [insertConstant, KeepsReports, reportNames]
  | updateConstant u c =>
    exact change_induction hs fun t ht => by grind [updateConstant, KeepsReports, reportNames]
  | deleteConstant u =>
    exact change_induction hs fun t ht => by grind [deleteConstant, KeepsReports, reportNames]
  | insertRow row =>
    exact changeWith_induction hs fun a t ht => by grind [insertRow, KeepsReports, reportNames]
  | setLatest id latest =>
    exact changeWith_induction hs fun a t ht => by
      grind [setLatest, modifyRow, KeepsReports, reportNames]
  | updateLatest id draft =>
    exact change_induction hs fun t ht => by
      grind [updateLatest, modifyRow, KeepsReports, reportNames]
  | deleteCalculation u => exact hs
  | _ => exact hs

/-- A row with the id of a row that was read is that row, perhaps changed since. -/
def Agrees (s : Store) (c : Calculation) : Prop :=
  c.id ≤ s.lastId ∧ ∀ d ∈ s.rows, d.id = c.id → d.uniqueId = c.uniqueId ∧ d.version = c.version

/-- No id is given twice: a row with an old id is the old row, perhaps changed since. -/
structure KeepsIds (s t : Store) : Prop where
  lastId_le : s.lastId ≤ t.lastId
  old : ∀ d ∈ t.rows, d.id ≤ s.lastId → ∃ c ∈ s.rows, c.id = d.id ∧ c.uniqueId = d.uniqueId ∧
    c.version = d.version

theorem KeepsIds.of_rows {s t : Store} (hl : t.lastId = s.lastId)
    (h : ∀ d ∈ t.rows, ∃ c ∈ s.rows, c.id = d.id ∧ c.uniqueId = d.uniqueId ∧
      c.version = d.version) : s.KeepsIds t :=
  ⟨Nat.le_of_eq hl.symm, fun d hd _ => h d hd⟩

theorem SameRows.keepsIds {s t : Store} (h : s.SameRows t) : s.KeepsIds t := by
  obtain ⟨hr, _, hl⟩ := h
  refine .of_rows hl fun d hd => ⟨d, ?_, rfl, rfl, rfl⟩
  rw [← hr]
  exact hd

theorem KeepsIds.refl (s : Store) : s.KeepsIds s := SameRows.keepsIds ⟨rfl, rfl, rfl⟩

theorem KeepsIds.trans {s t r : Store} (h : s.KeepsIds t) (h' : t.KeepsIds r) :
    s.KeepsIds r := by
  refine ⟨Nat.le_trans h.lastId_le h'.lastId_le, fun d hd hi => ?_⟩
  obtain ⟨c, hc, hci, hcu, hcv⟩ := h'.old d hd (Nat.le_trans hi h.lastId_le)
  obtain ⟨b, hb, hbi, hbu, hbv⟩ := h.old c hc (by rw [hci]; exact hi)
  exact ⟨b, hb, hbi.trans hci, hbu.trans hcu, hbv.trans hcv⟩

theorem Agrees.keepsIds {s t : Store} {c : Calculation} (hc : s.Agrees c) (h : s.KeepsIds t) :
    t.Agrees c := by
  refine ⟨Nat.le_trans hc.1 h.lastId_le, fun d hd hi => ?_⟩
  obtain ⟨b, hb, hbi, hbu, hbv⟩ := h.old d hd (by rw [hi]; exact hc.1)
  obtain ⟨hu, hv⟩ := hc.2 b hb (hbi.trans hi)
  exact ⟨hbu.symm.trans hu, hbv.symm.trans hv⟩

theorem Chained.agrees {s : Store} (h : s.Chained) {c : Calculation} (hc : c ∈ s.rows) :
    s.Agrees c := by
  refine ⟨h.issued c hc, fun d hd hi => ?_⟩
  obtain rfl := h.eq_of_id hd hc hi
  exact ⟨rfl, rfl⟩

theorem KeepsIds.modifyRow {s : Store} {id : RowId} {f : Calculation → Calculation}
    (hf : KeepsKey f) : s.KeepsIds (s.modifyRow id f) := by
  refine .of_rows rfl fun d hd => ?_
  obtain ⟨c, hc, rfl⟩ := List.mem_map.1 hd
  obtain ⟨hi, hu, hv⟩ := hf.at id c
  exact ⟨c, hc, hi.symm, hu.symm, hv.symm⟩

theorem KeepsIds.withRow (s : Store) (row : NewRow) : s.KeepsIds (s.withRow row) := by
  refine ⟨Nat.le_succ _, fun d hd hi => ?_⟩
  rcases List.mem_append.1 hd with hd | hd
  · exact ⟨d, hd, rfl, rfl, rfl⟩
  · obtain rfl := List.mem_singleton.1 hd
    exact absurd hi (Nat.not_succ_le_self _)

theorem KeepsIds.deleteCalculation (s : Store) (deleted : String) :
    s.KeepsIds (s.deleteCalculation deleted).2 :=
  .of_rows rfl fun d hd => ⟨d, (List.mem_filter.1 hd).1, rfl, rfl, rfl⟩

namespace Indexed

theorem of_sameRows {s t : Store} (h : s.Indexed) (ht : s.SameRows t) : t.Indexed := by
  obtain ⟨hr, hv, hl⟩ := ht
  exact ⟨by rw [hr]; exact h.ascending, by rw [hr, hl]; exact h.issued,
    by rw [hr, hv]; exact h.indexed⟩

theorem withRow {s : Store} (h : s.Indexed) (row : NewRow) : (s.withRow row).Indexed := by
  refine ⟨?_, ?_, ?_⟩
  · refine List.pairwise_append.2 ⟨h.ascending, List.pairwise_singleton _ _, fun a ha b hb => ?_⟩
    obtain rfl := List.mem_singleton.1 hb
    exact Nat.lt_succ_of_le (h.issued a ha)
  · intro c hc
    rcases List.mem_append.1 hc with hc | hc
    · exact Nat.le_succ_of_le (h.issued c hc)
    · obtain rfl := List.mem_singleton.1 hc
      exact Nat.le_refl _
  · simp [Store.withRow, h.indexed, Calculation.indexEntry, NewRow.stored]

theorem versions_modifyRow {s : Store} (h : s.Indexed) {id : RowId}
    {f : Calculation → Calculation} (hf : KeepsKey f) :
    (s.modifyRow id f).rows.map Calculation.indexEntry = s.versions := by
  have hk := hf.at id
  rw [Store.modifyRow, h.indexed, List.map_map]
  refine List.map_congr_left fun c _ => ?_
  simp only [Function.comp, Calculation.indexEntry, (hk c).1, (hk c).2.1, (hk c).2.2]

theorem modifyRow {s : Store} (h : s.Indexed) {id : RowId} {f : Calculation → Calculation}
    (hf : KeepsKey f) : (s.modifyRow id f).Indexed := by
  have hk := hf.at id
  refine ⟨?_, ?_, (h.versions_modifyRow hf).symm⟩
  · refine List.pairwise_map.2 (h.ascending.imp fun {a b} hlt => ?_)
    rw [(hk a).1, (hk b).1]
    exact hlt
  · intro c hc
    obtain ⟨d, hd, rfl⟩ := List.mem_map.1 hc
    rw [(hk d).1]
    exact h.issued d hd

theorem deleteCalculation {s : Store} (h : s.Indexed) (deleted : String) :
    (s.deleteCalculation deleted).2.Indexed := by
  refine ⟨h.ascending.filter _, fun c hc => h.issued c (List.mem_filter.1 hc).1, ?_⟩
  simp only [Store.deleteCalculation, h.indexed, List.filter_map]
  rfl

end Indexed

namespace Chained

theorem of_indexed {s : Store} (h : s.Indexed) (hc : ∀ u, IsChain (s.revisions u)) : s.Chained :=
  ⟨h.ascending, h.issued, h.indexed, hc⟩

theorem of_sameRows {s t : Store} (h : s.Chained) (ht : s.SameRows t) : t.Chained := by
  refine of_indexed (h.toIndexed.of_sameRows ht) fun u => ?_
  rw [revisions_of_rows_eq ht.1]
  exact h.chain u

theorem withRow {s : Store} (h : s.Chained) {row : NewRow}
    (hv : row.version = (s.revisions row.uniqueId).length + 1)
    (hf : ∀ c ∈ s.revisions row.uniqueId, c.latest = false) : (s.withRow row).Chained := by
  refine of_indexed (h.toIndexed.withRow row) fun u => ?_
  rw [revisions_withRow]
  by_cases hu : row.uniqueId = u
  · subst hu
    simp only [↓reduceIte]
    exact (h.chain _).append hf hv
  · simp only [hu, ↓reduceIte, List.append_nil]
    exact h.chain u

theorem modifyRow {s : Store} (h : s.Chained) {id : RowId} {f : Calculation → Calculation}
    (hf : KeepsKey f) (hl : ∀ c ∈ s.rows, c.id = id → (f c).latest = true → c.latest = true ∨
      c.version = (s.revisions c.uniqueId).length) : (s.modifyRow id f).Chained := by
  refine of_indexed (h.toIndexed.modifyRow hf) fun u => ?_
  rw [revisions_modifyRow s id hf]
  refine (h.chain u).map (fun c => (hf.at id c).2.2) fun c hc hlat => ?_
  obtain ⟨hm, rfl⟩ := mem_revisions.1 hc
  by_cases hi : c.id = id
  · simp only [hi, ↓reduceIte] at hlat
    rcases hl c hm hi hlat with hold | hlast
    · exact (h.chain _).last_of_latest c hc hold
    · exact hlast
  · simp only [hi, ↓reduceIte] at hlat
    exact (h.chain _).last_of_latest c hc hlat

theorem deleteCalculation {s : Store} (h : s.Chained) (deleted : String) :
    (s.deleteCalculation deleted).2.Chained := by
  refine of_indexed (h.toIndexed.deleteCalculation deleted) fun u => ?_
  rw [revisions_deleteCalculation]
  split
  · exact IsChain.nil
  · exact h.chain u

end Chained

end Store

end FormulaLedger
