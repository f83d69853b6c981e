import FormulaLedger.Proofs.References.Graph
import FormulaLedger.Proofs.Store.Request

set_option autoImplicit false

namespace FormulaLedger

namespace Store

variable {s : Store} {c : Calculation}

theorem mem_latestRows : c ∈ s.latestRows ↔ c ∈ s.rows ∧ c.latest = true := List.mem_filter

theorem latestRows_of_rows_eq {t : Store} (h : t.rows = s.rows) : t.latestRows = s.latestRows := by
  rw [latestRows, h, latestRows]

theorem latest?_mem_latestRows {u : String} (h : s.latest? u = some c) :
    c ∈ s.latestRows ∧ c.uniqueId = u := by
  obtain ⟨hrev, hlatest⟩ := mem_of_latest?_eq_some h
  obtain ⟨hmem, hid⟩ := mem_revisions.1 hrev
  exact ⟨mem_latestRows.2 ⟨hmem, hlatest⟩, hid⟩

theorem mem_latestRows_withRow (row : NewRow) (hc : c ∈ s.latestRows) :
    c ∈ (s.withRow row).latestRows := by
  obtain ⟨hmem, hlatest⟩ := mem_latestRows.1 hc
  exact mem_latestRows.2 ⟨List.mem_append_left _ hmem, hlatest⟩

theorem stored_mem_latestRows {row : NewRow} (h : row.latest = true) :
    row.stored (s.lastId + 1) ∈ (s.withRow row).latestRows :=
  mem_latestRows.2 ⟨List.mem_append_right _ List.mem_cons_self, h⟩

theorem mem_latestRows_modifyRow_of_ne {id : RowId} (f : Calculation → Calculation)
    (hc : c ∈ s.latestRows) (hne : c.id ≠ id) : c ∈ (s.modifyRow id f).latestRows := by
  obtain ⟨hmem, hlatest⟩ := mem_latestRows.1 hc
  exact mem_latestRows.2 ⟨List.mem_map.2 ⟨c, hmem, if_neg hne⟩, hlatest⟩

theorem mem_latestRows_modifyRow_self {f : Calculation → Calculation} (hc : c ∈ s.latestRows)
    (hf : (f c).latest = true) : f c ∈ (s.modifyRow c.id f).latestRows :=
  mem_latestRows.2 ⟨List.mem_map.2 ⟨c, (mem_latestRows.1 hc).1, if_pos rfl⟩, hf⟩

theorem mem_latestRows_deleteCalculation {u : String} (hc : c ∈ s.latestRows)
    (hne : c.uniqueId ≠ u) : c ∈ (s.deleteCalculation u).2.latestRows := by
  obtain ⟨hmem, hlatest⟩ := mem_latestRows.1 hc
  exact mem_latestRows.2 ⟨List.mem_filter.2 ⟨hmem, by simpa using hne⟩, hlatest⟩

/-- No calculation has two latest rows. -/
def OneLatest (s : Store) : Prop := ∀ u, (s.revisions u).countP (·.latest) ≤ 1

theorem Chained.oneLatest (h : s.Chained) : s.OneLatest :=
  fun u => (h.chain u).countP_latest_le_one

theorem oneLatest_of_nodup (h : (s.latestRows.map (·.uniqueId)).Nodup) : s.OneLatest := by
  intro u
  have hcount := List.nodup_iff_count_le_one.1 h u
  rw [List.count, List.countP_map, latestRows, List.countP_filter] at hcount
  rw [revisions, List.countP_filter]
  refine Nat.le_trans (Nat.le_of_eq (List.countP_congr fun c _ => ?_)) hcount
  simp [and_comm]

theorem OneLatest.filter_eq (h : s.OneLatest) (hc : c ∈ s.latestRows) :
    (s.revisions c.uniqueId).filter (·.latest) = [c] := by
  obtain ⟨hmem, hlatest⟩ := mem_latestRows.1 hc
  have hcin : c ∈ (s.revisions c.uniqueId).filter (·.latest) :=
    List.mem_filter.2 ⟨mem_revisions.2 ⟨hmem, rfl⟩, hlatest⟩
  have hcount := h c.uniqueId
  rw [List.countP_eq_length_filter] at hcount
  match hrows : (s.revisions c.uniqueId).filter (·.latest) with
  | [] =>
    rw [hrows] at hcin
    contradiction
  | [a] =>
    rw [hrows, List.mem_singleton] at hcin
    rw [hrows, hcin]
  | _ :: _ :: _ =>
    rw [hrows] at hcount
    simp at hcount

theorem OneLatest.latest?_eq (h : s.OneLatest) (hc : c ∈ s.latestRows) :
    s.latest? c.uniqueId = some c := by
  obtain ⟨hmem, hlatest⟩ := mem_latestRows.1 hc
  have hfound : (s.latest? c.uniqueId).isSome = true :=
    List.find?_isSome.2 ⟨c, hmem, by simp [hlatest]⟩
  obtain ⟨d, hd⟩ := Option.isSome_iff_exists.1 hfound
  have hdin : d ∈ (s.revisions c.uniqueId).filter (·.latest) :=
    List.mem_filter.2 (mem_of_latest?_eq_some hd)
  rw [h.filter_eq hc, List.mem_singleton] at hdin
  rw [hd, hdin]

def PointsAt (s : Store) (x : String) (target : Target) : Prop :=
  ∃ c, s.latest? x = some c ∧ ∃ p ∈ c.expression, p.target = target

theorem OneLatest.pointsAt_iff (h : s.OneLatest) {x : String} {e : Entity} :
    s.PointsAt x e.target ↔ ∃ c ∈ s.latestRows, c.uniqueId = x ∧ e ∈ c.entities := by
  simp only [Calculation.mem_entities, Pointer.entity?_eq_some_iff]
  constructor
  · rintro ⟨c, hlatest, hpoints⟩
    obtain ⟨hc, hid⟩ := latest?_mem_latestRows hlatest
    exact ⟨c, hc, hid, hpoints⟩
  · rintro ⟨c, hc, rfl, hpoints⟩
    exact ⟨c, h.latest?_eq hc, hpoints⟩

theorem latest?_withRow_of_none {row : NewRow} (hrow : row.latest = true)
    (h : s.latest? row.uniqueId = none) :
    (s.withRow row).latest? row.uniqueId = some (row.stored (s.lastId + 1)) := by
  rw [latest?_eq_find?] at h
  rw [latest?_eq_find?, revisions_withRow, if_pos rfl, List.find?_append, h]
  exact List.find?_cons_of_pos hrow

/-- The chain ends with its latest row, so the version after the latest is free. -/
theorem Chained.lookup_next (hs : s.Chained) (hc : c ∈ s.latestRows) :
    s.versions.lookup (c.uniqueId, c.version + 1) = none := by
  obtain ⟨hmem, hlatest⟩ := mem_latestRows.1 hc
  have hlast := (hs.chain c.uniqueId).last_of_latest c (mem_revisions.2 ⟨hmem, rfl⟩) hlatest
  rw [← Option.not_isSome_iff_eq_none, hs.lookup_isSome_iff]
  omega

theorem OneLatest.eq_of_uniqueId (h : s.OneLatest) {d : Calculation} (hc : c ∈ s.latestRows)
    (hd : d ∈ s.latestRows) (hu : c.uniqueId = d.uniqueId) : c = d := by
  have hlatest := h.latest?_eq hc
  rw [hu, h.latest?_eq hd] at hlatest
  exact (Option.some.inj hlatest).symm

end Store

end FormulaLedger
