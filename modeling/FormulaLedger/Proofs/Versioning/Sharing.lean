import FormulaLedger.Proofs.Versioning.Effect

/-!
The reports that two edits share. An edit reads whole reports and writes them back later, so it can
write over what the other has written since. A report has the new row of one, of both or of neither
of the edits at all times, and it loses a row only when it listed the old rows of both.
-/

set_option autoImplicit false

namespace FormulaLedger

theorem Report.replace_comm {r : Report} {old old' new new' : RowId} (hold : old ≠ old')
    (hnew : new ≠ old') (hnew' : new' ≠ old) :
    (r.replace old new).replace old' new' = (r.replace old' new').replace old new := by
  simp only [Report.replace, List.map_map, Report.mk.injEq, true_and]
  refine List.map_congr_left fun id _ => ?_
  by_cases hid : id = old
  · simp [hid, hold, hnew]
  · by_cases hid' : id = old'
    · simp [hid', hold.symm, hnew']
    · simp [hid, hid']

namespace Store

variable {s t : Store} {c : Calculation} {r q : Report}

def newest (s : Store) (c : Calculation) : RowId := ((s.revisions c.uniqueId).getLast?.getD c).id

theorem newest_of_revisions (h : t.revisions c.uniqueId = s.revisions c.uniqueId) :
    t.newest c = s.newest c := by
  rw [newest, h, newest]

theorem Chained.newest_eq (hs : s.Chained) {b : Calculation}
    (hb : b ∈ s.revisions c.uniqueId) (hv : b.version = (s.revisions c.uniqueId).length) :
    s.newest c = b.id := by
  have hchain := hs.chain c.uniqueId
  have hne := List.ne_nil_of_mem hb
  have hlast : ((s.revisions c.uniqueId).getLast hne).version =
      (s.revisions c.uniqueId).length := by
    have hpos := List.length_pos_of_mem hb
    have hversions : ((s.revisions c.uniqueId).map (·.version)).getLast? =
        (List.range' 1 (s.revisions c.uniqueId).length).getLast? :=
      congrArg List.getLast? hchain.numbered
    rw [List.getLast?_map, List.getLast?_eq_some_getLast hne, List.getLast?_range'] at hversions
    simp at hversions
    omega
  rw [newest, List.getLast?_eq_some_getLast hne, Option.getD_some,
    hchain.eq_of_version (List.getLast_mem hne) hb (hlast.trans hv.symm)]

theorem Chained.newest_eq_latest (hs : s.Chained) (hc : c ∈ s.latestRows) : s.newest c = c.id := by
  obtain ⟨hmem, hlatest⟩ := mem_latestRows.1 hc
  have hrev : c ∈ s.revisions c.uniqueId := mem_revisions.2 ⟨hmem, rfl⟩
  exact hs.newest_eq hrev ((hs.chain c.uniqueId).last_of_latest c hrev hlatest)

theorem newest_modifyRow (id : RowId) {f : Calculation → Calculation} (hf : KeepsKey f) :
    (s.modifyRow id f).newest c = s.newest c := by
  rw [newest, revisions_modifyRow s id hf, List.getLast?_map, newest]
  cases (s.revisions c.uniqueId).getLast? with
  | none => rfl
  | some b => exact (hf.at id b).1

theorem newest_withRow {row : NewRow} (h : row.uniqueId = c.uniqueId) :
    (s.withRow row).newest c = s.lastId + 1 := by
  rw [newest, revisions_withRow, if_pos h, List.getLast?_concat]
  rfl

theorem Agrees.newest_ne {other : Calculation} (h : s.Agrees other) (hid : c.id ≠ other.id)
    (hu : c.uniqueId ≠ other.uniqueId) : s.newest c ≠ other.id := by
  rw [newest]
  cases hlast : (s.revisions c.uniqueId).getLast? with
  | none => exact hid
  | some b =>
    obtain ⟨hmem, hbu⟩ := mem_revisions.1 (List.mem_of_getLast? hlast)
    exact fun heq => hu (hbu.symm.trans (h.2 b hmem heq).1)

def updated (s : Store) (c : Calculation) (r : Report) : Report := r.replace c.id (s.newest c)

theorem updated_congr (h : t.newest c = s.newest c) (r : Report) :
    t.updated c r = s.updated c r := by
  rw [updated, h, updated]

theorem updated_of_newest (h : s.newest c = c.id) (r : Report) : s.updated c r = r := by
  rw [updated, h, Report.replace_self]

theorem updated_of_not_mem (h : c.id ∉ r.rows) : s.updated c r = r := Report.replace_of_not_mem h

/-- Once a calculation has come to a new row, it stays at that. -/
def KeepsNewest (s t : Store) (c : Calculation) : Prop :=
  s.newest c ≠ c.id → t.newest c = s.newest c

theorem KeepsNewest.of_eq (h : t.newest c = s.newest c) : s.KeepsNewest t c := fun _ => h

theorem KeepsNewest.trans {m : Store} (h : s.KeepsNewest m c) (h' : m.KeepsNewest t c) :
    s.KeepsNewest t c := by
  intro hne
  have hm := h hne
  rw [← hm] at hne ⊢
  exact h' hne

def Either (s : Store) (c : Calculation) (r q : Report) : Prop := q = r ∨ q = s.updated c r

theorem Either.mono (h : s.KeepsNewest t c) (hq : s.Either c r q) : t.Either c r q := by
  rcases hq with rfl | rfl
  · exact .inl rfl
  · by_cases hnew : s.newest c = c.id
    · exact .inl (updated_of_newest hnew r)
    · exact .inr (updated_congr (h hnew) r).symm

end Store

/-- The latest rows of two calculations, each of which is edited. -/
structure Rivals where
  start : Store
  mine : Calculation
  other : Calculation
  chained : start.Chained
  named : start.Named
  mine_latest : mine ∈ start.latestRows
  other_latest : other ∈ start.latestRows
  different : mine.uniqueId ≠ other.uniqueId

namespace Rivals

variable {p : Rivals} {s t : Store} {r q : Report}

def swap (p : Rivals) : Rivals :=
  ⟨p.start, p.other, p.mine, p.chained, p.named, p.other_latest, p.mine_latest, p.different.symm⟩

theorem ids_ne (p : Rivals) : p.mine.id ≠ p.other.id := by
  intro heq
  exact p.different (congrArg Calculation.uniqueId (p.chained.eq_of_id
    (Store.mem_latestRows.1 p.mine_latest).1 (Store.mem_latestRows.1 p.other_latest).1 heq))

/-- What a report has become: each of the rows has perhaps given way to a newer one. -/
def Mixed (p : Rivals) (s : Store) (r q : Report) : Prop :=
  ∃ m, s.Either p.mine r m ∧ s.Either p.other m q

/-- What a report has become once the row of this edit has given way. The other edit may have
written it since as it was before, when it listed the row of the other. -/
def Redirects (p : Rivals) (s : Store) (r q : Report) : Prop :=
  s.Either p.other (s.updated p.mine r) q ∨
    s.newest p.other ≠ p.other.id ∧ p.other.id ∈ r.rows ∧ q = s.updated p.other r

def Writes (p : Rivals) (s : Store) (r q : Report) : Prop :=
  s.newest p.mine ≠ p.mine.id ∧ p.mine.id ∈ r.rows ∧
    s.Either p.other (s.updated p.mine r) q

theorem Mixed.mono (h : p.Mixed s r q) (hm : s.KeepsNewest t p.mine)
    (ho : s.KeepsNewest t p.other) : p.Mixed t r q := by
  obtain ⟨m, hrm, hmq⟩ := h
  exact ⟨m, hrm.mono hm, hmq.mono ho⟩

theorem Redirects.mono (h : p.Redirects s r q) (hm : t.newest p.mine = s.newest p.mine)
    (ho : s.KeepsNewest t p.other) : p.Redirects t r q := by
  rcases h with h | ⟨hne, hmem, rfl⟩
  · rw [← Store.updated_congr hm] at h
    exact .inl (h.mono ho)
  · refine .inr ⟨?_, hmem, (Store.updated_congr (ho hne) r).symm⟩
    rw [ho hne]
    exact hne

theorem Writes.mixed (h : p.Writes s r q) : p.Mixed s r q := ⟨_, .inr rfl, h.2.2⟩

theorem Writes.redirects (h : p.Writes s r q) : p.Redirects s r q := .inl h.2.2

structure Shared (p : Rivals) (s : Store) : Prop where
  chained : s.Chained
  mine : s.Agrees p.mine
  other : s.Agrees p.other
  names : s.reportNames = p.start.reportNames
  mixed : ∀ r ∈ p.start.reports, ∀ q ∈ s.reports, q.name = r.name → p.Mixed s r q
  rest : ∀ u, u ≠ p.mine.uniqueId → u ≠ p.other.uniqueId → s.revisions u = p.start.revisions u

theorem shared_start (p : Rivals) : p.Shared p.start := by
  refine ⟨p.chained, p.chained.agrees (Store.mem_latestRows.1 p.mine_latest).1,
    p.chained.agrees (Store.mem_latestRows.1 p.other_latest).1, rfl, fun r hr q hq hname => ?_,
    fun u _ _ => rfl⟩
  obtain rfl := p.named.eq_of_name hq hr hname
  exact ⟨_, .inl rfl, .inl rfl⟩

namespace Shared

theorem updated_comm (h : p.Shared s) (r : Report) :
    s.updated p.other (s.updated p.mine r) = s.updated p.mine (s.updated p.other r) :=
  Report.replace_comm p.ids_ne (h.other.newest_ne p.ids_ne p.different)
    (h.mine.newest_ne p.ids_ne.symm p.different.symm)

theorem mixed_swap (h : p.Shared s) (hq : p.Mixed s r q) : p.swap.Mixed s r q := by
  obtain ⟨m, rfl | rfl, rfl | rfl⟩ := hq
  · exact ⟨_, .inl rfl, .inl rfl⟩
  · exact ⟨_, .inr rfl, .inl rfl⟩
  · exact ⟨_, .inl rfl, .inr rfl⟩
  · exact ⟨_, .inr rfl, .inr (h.updated_comm r)⟩

theorem swap (h : p.Shared s) : p.swap.Shared s :=
  ⟨h.chained, h.other, h.mine, h.names,
    fun r hr q hq hname => h.mixed_swap (h.mixed r hr q hq hname), fun u hm ho => h.rest u ho hm⟩

/-- A report that both edits are done with has both new rows, unless it listed both old ones. -/
theorem both_or_lost (h : p.Shared s) (hmine : p.Redirects s r q)
    (hother : p.swap.Redirects s r q) : q = s.updated p.other (s.updated p.mine r) ∨
      p.mine.id ∈ r.rows ∧ p.other.id ∈ r.rows ∧
        (q = s.updated p.mine r ∨ q = s.updated p.other r) := by
  -- a row that was not listed leaves nothing to redirect, and what the other edit knows is enough
  by_cases hmem : p.mine.id ∈ r.rows
  · by_cases hmem' : p.other.id ∈ r.rows
    · rcases hmine with (hq | hq) | ⟨_, _, hq⟩
      · exact .inr ⟨hmem, hmem', .inl hq⟩
      · exact .inl hq
      · exact .inr ⟨hmem, hmem', .inr hq⟩
    · rcases hmine with (hq | hq) | ⟨_, hlisted, _⟩
      · rw [h.updated_comm, Store.updated_of_not_mem hmem']
        exact .inl hq
      · exact .inl hq
      · exact absurd hlisted hmem'
  · rcases hother with (hq | hq) | ⟨_, hlisted, _⟩
    · rw [Store.updated_of_not_mem hmem]
      exact .inl hq
    · rw [h.updated_comm]
      exact .inl hq
    · exact absurd hlisted hmem

/-- What one edit writes undoes what the other has done only where the report listed the row that it
redirects. -/
theorem redirects_swap (h : p.Shared s) (hq : p.Writes s r q) : p.swap.Redirects s r q := by
  obtain ⟨hne, hmem, rfl | rfl⟩ := hq
  · exact .inr ⟨hne, hmem, rfl⟩
  · exact .inl (.inr (h.updated_comm r))

end Shared

def Done (p : Rivals) (s : Store) (r : Report) : Prop :=
  ∀ q ∈ s.reports, q.name = r.name → p.Redirects s r q

structure Meanwhile (p : Rivals) (s t : Store) : Prop where
  shared : p.Shared t
  later : ∀ phase, Later p.mine.uniqueId phase s t
  other : s.KeepsNewest t p.other
  done : ∀ r ∈ p.start.reports, p.Done s r → p.Done t r

namespace Meanwhile

theorem refl (h : p.Shared s) : p.Meanwhile s s :=
  ⟨h, fun _ => Later.refl h.chained, .of_eq rfl, fun _ _ hdone => hdone⟩

theorem trans {m : Store} (h : p.Meanwhile s m) (h' : p.Meanwhile m t) : p.Meanwhile s t :=
  ⟨h'.shared, fun phase => (h.later phase).trans (h'.later phase), h.other.trans h'.other,
    fun r hr hdone => h'.done r hr (h.done r hr hdone)⟩

theorem revisions (h : p.Meanwhile s t) :
    t.revisions p.mine.uniqueId = s.revisions p.mine.uniqueId :=
  (h.later (.frozen 0)).frozen rfl

theorem newest (h : p.Meanwhile s t) : t.newest p.mine = s.newest p.mine :=
  Store.newest_of_revisions h.revisions

end Meanwhile

/-- What an edit keeps to besides the discipline of a change: it stores one row, and it writes a
report only to redirect it. -/
def May (p : Rivals) (s : Store) : Request → Prop
  | .insertRow _ => s.newest p.mine = p.mine.id
  | .updateReport q => ∀ r ∈ p.start.reports, r.name = q.name → p.Writes s r q
  | _ => True

end Rivals

theorem Change.Move.keepsNewest {x : Change} {phase phase' : Phase} {s t : Store}
    {i : Option (NewRow × RowId)} (h : x.Move s phase phase' i t) {c : Calculation}
    (hi : i = none ∨ s.newest c = c.id) : s.KeepsNewest t c := by
  cases h with
  | keep ht => exact .of_eq (Store.newest_of_revisions (Store.revisions_of_rows_eq ht.1 _))
  | edit _ _ => exact .of_eq (Store.newest_modifyRow _ (keepsKey_draft _))
  | freeze _ _ => exact .of_eq (Store.newest_modifyRow _ (keepsKey_latest _))
  | store _ =>
    rcases hi with hi | hi
    · contradiction
    · exact fun hne => absurd hi hne
  | restore _ _ => exact .of_eq (Store.newest_modifyRow _ (keepsKey_latest _))

namespace Rivals

variable {p : Rivals} {s : Store} {x : Change} {phase : Phase} {request : Request}

theorem May.keepsNewest (h : p.May s request) (ha : x.Allows phase s request) (hs : s.Chained) :
    s.KeepsNewest (s.answer request).2 p.mine := by
  refine (ha.move hs).keepsNewest ?_
  cases request with
  | insertRow row => exact .inr h
  | _ => exact .inl rfl

theorem May.reports (h : p.May s request) (ha : x.Allows phase s request) :
    (s.answer request).2.reportNames = s.reportNames ∧
      ∀ q ∈ (s.answer request).2.reports, q ∈ s.reports ∨
        ∀ r ∈ p.start.reports, r.name = q.name → p.Writes s r q := by
  by_cases hr : request.writesReports = false
  · rw [Store.reportNames, s.answer_reports hr]
    exact ⟨rfl, fun q hq => .inl hq⟩
  · cases request with
    | insertReport r =>
      cases ha with
      | read hread => simp [Request.isRead] at hread
    | updateReport r =>
      refine Store.change_induction (p := fun t => t.reportNames = s.reportNames ∧
        ∀ q ∈ t.reports, q ∈ s.reports ∨ ∀ r ∈ p.start.reports, r.name = q.name →
          p.Writes s r q) ⟨rfl, fun q hq => .inl hq⟩ fun t ht => ?_
      unfold Store.updateReport at ht
      split at ht
      · contradiction
      · cases ht
        refine ⟨s.reportNames_withReport r, fun q hq => ?_⟩
        rcases Store.mem_withReport hq with rfl | ⟨hq, _⟩
        · exact .inr h
        · exact .inl hq
    | _ => exact absurd rfl hr

theorem Shared.step (h : p.Shared s) (hx : x.uniqueId = p.mine.uniqueId)
    (ha : x.Allows phase s request) (hm : p.May s request)
    (hf : phase.isFrozen = true → s.Frozen x.uniqueId) :
    p.Shared (s.answer request).2 ∧ p.swap.Meanwhile s (s.answer request).2 := by
  have hmove := ha.move h.chained
  have hchained := hmove.chained h.chained hf
  have hrevisions : ∀ u, u ≠ p.mine.uniqueId →
      (s.answer request).2.revisions u = s.revisions u := fun u hu =>
    hmove.revisions_of_ne h.chained (by rw [hx]; exact hu)
  have hmine := hm.keepsNewest ha h.chained
  have hother := Store.newest_of_revisions (hrevisions _ p.different.symm)
  obtain ⟨hnames, hreports⟩ := hm.reports ha
  have hshared : p.Shared (s.answer request).2 := by
    refine ⟨hchained, h.mine.keepsIds hmove.keepsIds, h.other.keepsIds hmove.keepsIds,
      hnames.trans h.names, fun r hr q hq hname => ?_,
      fun u hm ho => (hrevisions u hm).trans (h.rest u hm ho)⟩
    rcases hreports q hq with hq | hq
    · exact (h.mixed r hr q hq hname).mono hmine (.of_eq hother)
    · exact (hq r hr hname.symm).mixed.mono hmine (.of_eq hother)
  refine ⟨hshared, hshared.swap, fun _ => ⟨hchained, hmove.keepsIds, s.answer_keepsReports _,
    fun _ => hrevisions _ p.different.symm⟩, hmine, fun r hr hdone q hq hname => ?_⟩
  -- a report of the other edit is left alone, or written in a way that its end allows for
  rcases hreports q hq with hq | hq
  · exact (hdone q hq hname).mono hother hmine
  · exact (h.redirects_swap (hq r hr hname.symm)).mono hother hmine

end Rivals

end FormulaLedger
