import FormulaLedger.Proofs.Store.Keyed
import FormulaLedger.Proofs.Store.Past
import Mathlib.Data.List.Sort

/-!
The keyed store behaves as the one that keeps everything in lists. Under each key stands what a look
through the list finds, every request is answered alike, and so every program comes to the same.
-/

set_option autoImplicit false

namespace FormulaLedger

namespace Store

theorem Indexed.row?_withRow {s : Store} (h : s.Indexed) (row : NewRow) (id : RowId) :
    (s.withRow row).row? id =
      if id = s.lastId + 1 then some (row.stored (s.lastId + 1)) else s.row? id := by
  have hnew : s.row? (s.lastId + 1) = none := by
    rw [row?, List.find?_eq_none]
    intro c hc
    simpa using Nat.ne_of_lt (Nat.lt_succ_of_le (h.issued c hc))
  rw [row?, Store.withRow, List.find?_append, ← row?]
  by_cases hid : id = s.lastId + 1
  · simp [hid, hnew, NewRow.stored]
  · simp [hid, Ne.symm hid, NewRow.stored]

theorem row?_modifyRow (s : Store) {f : Calculation → Calculation} (hf : KeepsKey f)
    (id k : RowId) : (s.modifyRow id f).row? k = if id = k then (s.row? id).map f else s.row? k := by
  have hfound : ((fun c : Calculation => c.id == k) ∘ fun c => if c.id = id then f c else c) =
      fun c => c.id == k := by
    funext c
    simp [(hf.at id c).1]
  rw [row?, modifyRow, List.find?_map, hfound, ← row?]
  by_cases hid : id = k
  · subst hid
    rw [if_pos rfl]
    cases hrow : s.row? id with
    | none => rfl
    | some c =>
      have hc : c.id = id := by simpa using List.find?_some hrow
      simp [hc]
  · rw [if_neg hid]
    cases hrow : s.row? k with
    | none => rfl
    | some c =>
      have hc : c.id = k := by simpa using List.find?_some hrow
      simp [hc, Ne.symm hid]

theorem Indexed.row?_deleteCalculation {s : Store} (h : s.Indexed) (u : String) (id : RowId) :
    (s.deleteCalculation u).2.row? id = (s.row? id).filter (·.uniqueId != u) := by
  apply Option.ext
  intro c
  rw [(h.deleteCalculation u).row?_eq_some_iff, Option.filter_eq_some_iff, h.row?_eq_some_iff,
    Store.deleteCalculation, List.mem_filter]
  tauto

end Store

namespace KeyedStore

/-- Under each key stands what is found in the lists. -/
structure Refines (t : KeyedStore) (s : Store) : Prop where
  lastId : t.lastId = s.lastId
  rows : ∀ id, t.rows[id]? = s.row? id
  versions : ∀ key, t.versions[key]? = s.versions.lookup key
  constants : ∀ u, t.constants[u]? = s.constant? u
  reports : t.reports = s.reports

structure Alike {ρ : Type} (x : ρ × KeyedStore) (y : ρ × Store) : Prop where
  answer : x.1 = y.1
  refines : x.2.Refines y.2

namespace Refines

variable {t : KeyedStore} {s : Store}

theorem toList_rows (h : t.Refines s) (hs : s.Indexed) :
    t.rows.toList = s.rows.map fun c => (c.id, c) := by
  have hkeyed : t.rows.toList.Pairwise fun a b => a.1 < b.1 :=
    Std.ExtTreeMap.ordered_keys_toList.imp fun hlt => Nat.compare_eq_lt.1 hlt
  have hlisted : (s.rows.map fun c => (c.id, c)).Pairwise fun a b => a.1 < b.1 :=
    List.pairwise_map.2 hs.ascending
  have hirrefl : Std.Irrefl fun a b : RowId × Calculation => a.1 < b.1 :=
    ⟨fun a => Nat.lt_irrefl a.1⟩
  have htrans : IsTrans (RowId × Calculation) fun a b => a.1 < b.1 := ⟨fun _ _ _ => Nat.lt_trans⟩
  refine List.Pairwise.eq_of_mem_iff hkeyed hlisted fun entry => ?_
  obtain ⟨id, c⟩ := entry
  rw [Std.ExtTreeMap.mem_toList_iff_getElem?_eq_some, h.rows, hs.row?_eq_some_iff]
  simp only [List.mem_map, Prod.mk.injEq]
  constructor
  · rintro ⟨hc, rfl⟩
    exact ⟨c, hc, rfl, rfl⟩
  · rintro ⟨_, hc, rfl, rfl⟩
    exact ⟨hc, rfl⟩

theorem listed_rows (h : t.Refines s) (hs : s.Indexed) :
    t.rows.toList.map Prod.snd = s.rows := by
  rw [h.toList_rows hs, List.map_map]
  exact List.map_id' _

theorem contains_versions (h : t.Refines s) (key : String × Nat) :
    t.versions.contains key = (s.versions.lookup key).isSome := by
  rw [Std.ExtTreeMap.contains_eq_isSome_getElem?, h.versions]

theorem contains_constants (h : t.Refines s) (u : String) :
    t.constants.contains u = (s.constant? u).isSome := by
  rw [Std.ExtTreeMap.contains_eq_isSome_getElem?, h.constants]

theorem modifyRow (h : t.Refines s) {f : Calculation → Calculation} (hf : KeepsKey f) (id : RowId) :
    Refines { t with rows := t.rows.modify id f } (s.modifyRow id f) where
  lastId := h.lastId
  rows k := by
    rw [Std.ExtTreeMap.getElem?_modify, s.row?_modifyRow hf, h.rows, h.rows]
    simp
  versions := h.versions
  constants := h.constants
  reports := h.reports

theorem withRow (h : t.Refines s) (hs : s.Indexed) {row : NewRow}
    (hfree : (s.versions.lookup (row.uniqueId, row.version)).isSome = false) :
    Refines
      { t with
        lastId := t.lastId + 1
        rows := t.rows.insert (t.lastId + 1) (row.stored (t.lastId + 1))
        versions := t.versions.insert (row.uniqueId, row.version) (t.lastId + 1) }
      (s.withRow row) where
  lastId := congrArg (· + 1) h.lastId
  rows id := by
    rw [Std.ExtTreeMap.getElem?_insert, hs.row?_withRow, h.lastId, h.rows]
    simp [@eq_comm _ id]
  versions key := by
    rw [Std.ExtTreeMap.getElem?_insert, h.lastId, h.versions, Store.withRow, List.lookup_append]
    by_cases hkey : (row.uniqueId, row.version) = key
    · subst hkey
      rw [Option.isSome_eq_false_iff, Option.isNone_iff_eq_none] at hfree
      simp [hfree]
    · simp [hkey, List.lookup_cons, beq_false_of_ne (Ne.symm hkey)]
  constants := h.constants
  reports := h.reports

theorem deleted (h : t.Refines s) (hs : s.Indexed) (u : String) :
    Refines
      { t with
        rows := t.rows.filter fun _ c => c.uniqueId != u
        versions := t.versions.filter fun key _ => key.1 != u }
      (s.deleteCalculation u).2 where
  lastId := h.lastId
  rows id := by rw [Std.ExtTreeMap.getElem?_filter', hs.row?_deleteCalculation, h.rows]
  versions key := by
    rw [Std.ExtTreeMap.getElem?_filter', h.versions]
    exact (Store.lookup_filter_fst (·.1 != u) s.versions key).symm
  constants := h.constants
  reports := h.reports

theorem size_deleted (h : t.Refines s) (hs : s.Indexed) (u : String) :
    t.rows.size - (t.rows.filter fun _ c => c.uniqueId != u).size =
      s.rows.countP (·.uniqueId == u) := by
  have hkept := (h.deleted hs u).toList_rows (hs.deleteCalculation u)
  rw [← Std.ExtTreeMap.length_toList, ← Std.ExtTreeMap.length_toList, hkept, h.toList_rows hs,
    List.length_map, List.length_map, Store.deleteCalculation, ← List.countP_eq_length_filter]
  have hsplit := List.length_eq_countP_add_countP (·.uniqueId == u) (l := s.rows)
  have hrest : s.rows.countP (·.uniqueId != u) =
      s.rows.countP fun c => decide ¬(c.uniqueId == u) = true :=
    List.countP_congr fun c _ => by simp
  omega

theorem withConstants (h : t.Refines s) {table : Std.ExtTreeMap String Constant}
    {listed : List Constant} (hsame : ∀ u, table[u]? = listed.find? (·.uniqueId == u)) :
    Refines { t with constants := table } { s with constants := listed } :=
  ⟨h.lastId, h.rows, h.versions, hsame, h.reports⟩

theorem withReports (h : t.Refines s) (reports : List Report) :
    Refines { t with reports } { s with reports } :=
  ⟨h.lastId, h.rows, h.versions, h.constants, rfl⟩

theorem insertRow (h : t.Refines s) (hs : s.Indexed) (row : NewRow) :
    Alike (t.answer (.insertRow row)) (s.answer (.insertRow row)) := by
  rw [KeyedStore.answer, operation, perform_insertRow, h.contains_versions]
  cases hfree : (s.versions.lookup (row.uniqueId, row.version)).isSome with
  | true =>
    rw [Store.answer_insertRow_of_taken row hfree]
    exact ⟨rfl, h⟩
  | false =>
    rw [Store.answer_insertRow_of_free row hfree]
    refine ⟨?_, h.withRow hs hfree⟩
    exact congrArg (fun n => Except.ok (n + 1)) h.lastId

theorem setLatest (h : t.Refines s) (id : RowId) (latest : Bool) :
    Alike (t.answer (.setLatest id latest)) (s.answer (.setLatest id latest)) := by
  rw [KeyedStore.answer, operation, perform_setLatest, h.rows]
  cases hrow : s.row? id with
  | none =>
    rw [Store.answer_setLatest_of_none hrow]
    exact ⟨rfl, h⟩
  | some c =>
    rw [Store.answer_setLatest_of_some hrow]
    exact ⟨rfl, h.modifyRow (keepsKey_latest latest) id⟩

theorem updateLatest (h : t.Refines s) (id : RowId) (draft : Draft) :
    Alike (t.answer (.updateLatest id draft)) (s.answer (.updateLatest id draft)) := by
  rw [KeyedStore.answer, operation, perform_updateLatest, h.rows]
  cases hrow : s.row? id with
  | none =>
    rw [Store.answer_updateLatest_of_none hrow]
    exact ⟨rfl, h⟩
  | some c =>
    rw [Store.answer_updateLatest_of_some hrow]
    dsimp only
    by_cases hlatest : c.latest = true
    · rw [if_pos hlatest, if_pos hlatest]
      exact ⟨rfl, h.modifyRow (keepsKey_draft draft) id⟩
    · rw [if_neg hlatest, if_neg hlatest]
      exact ⟨rfl, h⟩

theorem deleteCalculation (h : t.Refines s) (hs : s.Indexed) (u : String) :
    Alike (t.answer (.deleteCalculation u)) (s.answer (.deleteCalculation u)) := by
  rw [KeyedStore.answer, operation, perform_deleteCalculation, h.size_deleted hs]
  exact ⟨rfl, h.deleted hs u⟩

theorem insertConstant (h : t.Refines s) (c : Constant) :
    Alike (t.answer (.insertConstant c)) (s.answer (.insertConstant c)) := by
  rw [KeyedStore.answer, operation, perform_insertConstant, h.contains_constants, Store.answer]
  by_cases htaken : (s.constant? c.uniqueId).isSome = true
  · have hrefused : s.insertConstant c = .error (.duplicateConstant c.uniqueId) := if_pos htaken
    rw [if_pos htaken, hrefused]
    exact ⟨rfl, h⟩
  · have hdone : s.insertConstant c = .ok { s with constants := s.constants ++ [c] } :=
      if_neg htaken
    rw [if_neg htaken, hdone]
    refine ⟨rfl, h.withConstants fun u => ?_⟩
    refine Eq.trans ?_ (Store.constant?_insertConstant hdone u).symm
    rw [Std.ExtTreeMap.getElem?_insert, h.constants]
    simp [@eq_comm _ u]

/-- Taking out the old constant and putting in the new one finds what writing over it finds. -/
theorem updateConstant (h : t.Refines s) (u : String) (c : Constant) :
    Alike (t.answer (.updateConstant u c)) (s.answer (.updateConstant u c)) := by
  rw [KeyedStore.answer, operation, perform_updateConstant, h.contains_constants,
    h.contains_constants, Store.answer]
  by_cases hnone : (s.constant? u).isNone = true
  · have hrefused : s.updateConstant u c = .error (.constantNotFound u) := if_pos hnone
    rw [if_pos (by simpa using hnone), hrefused]
    exact ⟨rfl, h⟩
  · rw [if_neg (by simpa using hnone), Store.updateConstant, if_neg hnone]
    by_cases hclash : c.uniqueId ≠ u ∧ (s.constant? c.uniqueId).isSome = true
    · rw [if_pos hclash, if_pos hclash]
      exact ⟨rfl, h⟩
    · have hdone : s.updateConstant u c = .ok { s with
          constants := s.constants.map fun old => if old.uniqueId = u then c else old } := by
        rw [Store.updateConstant, if_neg hnone, if_neg hclash]
      rw [if_neg hclash, if_neg hclash]
      refine ⟨rfl, h.withConstants fun v => ?_⟩
      refine Eq.trans ?_ (Store.constant?_updateConstant hdone v).symm
      rw [Std.ExtTreeMap.getElem?_insert, Std.ExtTreeMap.getElem?_erase, h.constants]
      simp [@eq_comm _ v]

theorem deleteConstant (h : t.Refines s) (u : String) :
    Alike (t.answer (.deleteConstant u)) (s.answer (.deleteConstant u)) := by
  rw [KeyedStore.answer, operation, perform_deleteConstant, Store.answer, h.constants]
  by_cases hnone : (s.constant? u).isNone = true
  · have hrefused : s.deleteConstant u = .error (.constantNotFound u) := if_pos hnone
    have habsent : t.constants[u]? = none := by
      rw [h.constants, Option.isNone_iff_eq_none.1 hnone]
    rw [if_pos hnone, hrefused, erase_eq_self habsent]
    exact ⟨rfl, h⟩
  · have hdone : s.deleteConstant u =
        .ok { s with constants := s.constants.filter (·.uniqueId != u) } := if_neg hnone
    rw [if_neg hnone, hdone]
    refine ⟨rfl, h.withConstants fun v => ?_⟩
    refine Eq.trans ?_ (Store.constant?_deleteConstant hdone v).symm
    rw [Std.ExtTreeMap.getElem?_erase, h.constants]
    simp [@eq_comm _ v]

theorem insertReport (h : t.Refines s) (r : Report) :
    Alike (t.answer (.insertReport r)) (s.answer (.insertReport r)) := by
  have hany : s.reports.any (·.name == r.name) = (s.report? r.name).isSome := by
    rw [Store.report?, List.isSome_find?]
  rw [KeyedStore.answer, operation, perform_insertReport, h.reports, hany, Store.answer,
    Store.insertReport]
  split
  · exact ⟨rfl, h⟩
  · exact ⟨rfl, h.withReports _⟩

theorem set_eq_map {reports : List Report} (hnames : (reports.map (·.name)).Nodup) {r : Report}
    {i : Nat} (hi : reports.findIdx? (·.name == r.name) = some i) :
    reports.set i r = reports.map fun old => if old.name = r.name then r else old := by
  obtain ⟨hlt, hname, -⟩ := List.findIdx?_eq_some_iff_getElem.1 hi
  rw [beq_iff_eq] at hname
  apply List.ext_getElem (by simp)
  intro j hj _
  rw [List.length_set] at hj
  rw [List.getElem_set, List.getElem_map]
  by_cases hij : i = j
  · subst hij
    rw [if_pos rfl, if_pos hname]
  · have hother : reports[j].name ≠ r.name := by
      intro hsame
      have heq : (reports.map (·.name))[i]? = (reports.map (·.name))[j]? := by
        simp [hlt, hj, hname, hsame]
      exact hij ((List.getElem?_inj (by simpa using hlt) hnames).1 heq)
    rw [if_neg hij, if_neg hother]

theorem updateReport (h : t.Refines s) (hs : s.Named) (r : Report) :
    Alike (t.answer (.updateReport r)) (s.answer (.updateReport r)) := by
  rw [KeyedStore.answer, operation, perform_updateReport, h.reports, Store.answer,
    Store.updateReport]
  cases hi : s.reports.findIdx? (·.name == r.name) with
  | none =>
    have hnone : (s.report? r.name).isNone = true := by
      rw [Option.isNone_iff_eq_none, Store.report?, List.find?_eq_none]
      exact fun q hq => Bool.not_eq_true _ ▸ List.findIdx?_eq_none_iff.1 hi q hq
    rw [if_pos hnone]
    exact ⟨rfl, h⟩
  | some i =>
    have hsome : ¬ (s.report? r.name).isNone = true := by
      obtain ⟨hlt, hname, -⟩ := List.findIdx?_eq_some_iff_getElem.1 hi
      rw [Option.isNone_iff_eq_none, Store.report?, List.find?_eq_none]
      exact fun hnone => hnone _ (List.getElem_mem hlt) hname
    rw [if_neg hsome]
    dsimp only
    rw [set_eq_map hs hi]
    exact ⟨rfl, h.withReports _⟩

/-- Every request is answered as from the lists, and leaves tables that hold what they hold. -/
theorem answer (h : t.Refines s) (hs : s.Orderly) (r : Request) :
    Alike (t.answer r) (s.answer r) := by
  have hrows := h.listed_rows hs.rows
  cases r with
  | row id => exact ⟨congrArg Except.ok (h.rows id), h⟩
  | latest u =>
    refine ⟨?_, h⟩
    change Except.ok ((t.rows.toList.map Prod.snd).find? _) = _
    rw [hrows]
    rfl
  | version u v =>
    refine ⟨?_, h⟩
    change Except.ok (t.versions[(u, v)]?.bind fun id => t.rows[id]?) = _
    rw [h.versions, funext h.rows]
    rfl
  | latestRows =>
    refine ⟨?_, h⟩
    change Except.ok ((t.rows.toList.map Prod.snd).filter _) = _
    rw [hrows]
    rfl
  | history u =>
    refine ⟨?_, h⟩
    change Except.ok (((t.rows.toList.map Prod.snd).filter _).mergeSort _) = _
    rw [hrows]
    rfl
  | insertRow row => exact h.insertRow hs.rows row
  | setLatest id latest => exact h.setLatest id latest
  | updateLatest id draft => exact h.updateLatest id draft
  | deleteCalculation u => exact h.deleteCalculation hs.rows u
  | constant u => exact ⟨congrArg Except.ok (h.constants u), h⟩
  | insertConstant c => exact h.insertConstant c
  | updateConstant u c => exact h.updateConstant u c
  | deleteConstant u => exact h.deleteConstant u
  | report name =>
    refine ⟨?_, h⟩
    change Except.ok (t.reports.find? _) = _
    rw [h.reports]
    rfl
  | reportsListing ids =>
    refine ⟨?_, h⟩
    change Except.ok (t.reports.filter _) = _
    rw [h.reports]
    rfl
  | insertReport r => exact h.insertReport r
  | updateReport r => exact h.updateReport hs.reports r

/-- A program comes to the same with the tables as with the lists. -/
theorem runWith (h : t.Refines s) (hs : s.Orderly) {α : Type} (p : Program α) :
    Alike (p.runWith KeyedStore.answer t) (p.run s) := by
  induction p generalizing t s with
  | done a => exact ⟨rfl, h⟩
  | ask r next ih =>
    obtain ⟨hanswer, hrefines⟩ := h.answer hs r
    rw [Program.run, Program.runWith, Program.runWith]
    dsimp only
    rw [hanswer]
    exact ih _ hrefines (hs.answer r)

end Refines

theorem refines_empty : empty.Refines Store.empty where
  lastId := rfl
  rows _ := rfl
  versions _ := rfl
  constants _ := rfl
  reports := rfl

/-- The requests that the tables were asked from the empty ones on, with their answers. A scan takes
any filter, and leaves nothing in the log. -/
inductive Past : Log → KeyedStore → Prop
  | start : Past [] empty
  | ask {log : Log} {t : KeyedStore} (r : Request) : Past log t →
      Past (log ++ [.answered r (t.answer r).1]) (t.answer r).2
  | scanRows {log : Log} {t : KeyedStore} (keep : Calculation → Bool) : Past log t →
      Past log (t.perform (scanRows keep)).2
  | scanReports {log : Log} {t : KeyedStore} (keep : Report → Bool) : Past log t →
      Past log (t.perform (scanReports keep)).2

namespace Past

variable {log : Log} {t : KeyedStore}

theorem refines (h : Past log t) : ∃ s, Store.Past log s ∧ t.Refines s := by
  induction h with
  | start => exact ⟨Store.empty, .start, refines_empty⟩
  | ask r _ ih =>
    obtain ⟨s, hpast, hrefines⟩ := ih
    obtain ⟨hanswer, hnext⟩ := hrefines.answer hpast.orderly r
    rw [hanswer]
    exact ⟨_, hpast.ask r, hnext⟩
  | scanRows keep _ ih => exact ih
  | scanReports keep _ ih => exact ih

/-- Whatever was asked of the tables, they are consistent, and they answer as a plain list of rows
would. -/
theorem answers_as_list (h : Past log t) :
    (∀ (u : String) (v : Nat) (id : RowId), t.versions[(u, v)]? = some id ↔
      ∃ c : Calculation, t.rows[id]? = some c ∧ c.uniqueId = u ∧ c.version = v) ∧
    (∀ (i j : RowId) (c d : Calculation), t.rows[i]? = some c → t.rows[j]? = some d →
      c.uniqueId = d.uniqueId → c.version = d.version → i = j) ∧
    (∀ (id : RowId) (c : Calculation), t.rows[id]? = some c → c.id = id ∧ id ≤ t.lastId) ∧
    (∀ (u : String) (c : Constant), t.constants[u]? = some c → c.uniqueId = u) ∧
    (t.reports.map (·.name)).Nodup ∧
    (∀ (u : String) (v : Nat), (t.answer (.version u v)).1 =
      .ok ((t.rows.toList.map Prod.snd).find? fun c => c.uniqueId == u && c.version == v)) ∧
    (∀ row : NewRow, (t.answer (.insertRow row)).1 =
      if (t.rows.toList.map Prod.snd).any fun c =>
          c.uniqueId == row.uniqueId && c.version == row.version then
        .error (.duplicateVersion row.uniqueId row.version)
      else .ok (t.lastId + 1)) ∧
    (∀ u : String, ∃ rows, (t.answer (.history u)).1 = .ok rows ∧
      rows.Perm ((t.rows.toList.map Prod.snd).filter (·.uniqueId == u)) ∧
      rows.Pairwise fun a b => a.version < b.version) ∧
    (∀ (row : NewRow) (id : RowId), (t.answer (.insertRow row)).1 = .ok id →
      ∀ i ∈ log.inserted, i.2 < id) ∧
    ∀ (r : Request) (e : StoreError), (t.answer r).1 = .error e → (t.answer r).2 = t := by
  obtain ⟨s, hpast, hrefines⟩ := h.refines
  have hs := hpast.orderly
  have hlisted := hrefines.listed_rows hs.rows
  refine ⟨fun u v id => ?_, fun i j c d hc hd hu hv => ?_, fun id c hc => ?_, fun u c hc => ?_, ?_,
    fun u v => ?_, fun row => ?_, fun u => ⟨s.history u, ?_, ?_, hs.history_pairwise u⟩,
    fun row id hid => ?_, fun _ _ => t.answer_of_error⟩
  · rw [hrefines.versions, hs.lookup_eq_some_iff, hrefines.rows]
  · rw [hrefines.rows, hs.rows.row?_eq_some_iff] at hc hd
    rw [← hc.2, ← hd.2, hs.eq_of_version hc.1 hd.1 hu hv]
  · rw [hrefines.rows, hs.rows.row?_eq_some_iff] at hc
    obtain ⟨hmem, rfl⟩ := hc
    rw [hrefines.lastId]
    exact ⟨rfl, hs.rows.issued c hmem⟩
  · rw [hrefines.constants] at hc
    exact Store.uniqueId_of_constant? hc
  · rw [hrefines.reports]
    exact hs.reports
  · rw [(hrefines.answer hs _).answer, hlisted, ← hs.version?_eq]
    rfl
  · rw [(hrefines.answer hs _).answer, hlisted, hrefines.lastId]
    exact hs.answer_insertRow row
  · exact (hrefines.answer hs _).answer
  · rw [hlisted]
    exact List.mergeSort_perm _ _
  · rw [(hrefines.answer hs _).answer] at hid
    exact hpast.inserted_lt hid

/-- Versions stored in any order, a calculation stored again after its deletion, a constant with a
new unique id, and reports. -/
theorem answers_as_list_again : ∃ log t, Past log t ∧
    t.rows.toList.map (fun entry => (entry.1, entry.2.uniqueId, entry.2.version)) =
      [(1, "a", 2), (2, "a", 1), (4, "b", 1)] ∧
    t.constants.keys = ["rate", "tax"] ∧ t.reports.map (·.name) = ["q1", "q2"] ∧
    (∃ rows, (t.answer (.history "a")).1 = .ok rows ∧
      rows.Pairwise fun a b => a.version < b.version) ∧
    (t.answer (.insertRow ⟨"a", 1, true, ⟨"", []⟩⟩)).1 = .error (.duplicateVersion "a" 1) ∧
    (∀ c, t.constants["rate"]? = some c → c.uniqueId = "rate") ∧
    (t.answer (.updateConstant "tax" ⟨"rate", 2025, "%", none, []⟩)).2 = t := by
  have h := Past.start
  have h := h.ask (.insertRow ⟨"a", 2, true, ⟨"", []⟩⟩)
  have h := h.ask (.insertRow ⟨"a", 1, false, ⟨"", []⟩⟩)
  have h := h.ask (.insertRow (.first "b" ⟨"", []⟩))
  have h := h.ask (.deleteCalculation "b")
  have h := h.ask (.insertRow (.first "b" ⟨"", []⟩))
  have h := h.ask (.insertConstant ⟨"tax", 2024, "%", none, []⟩)
  have h := h.ask (.insertConstant ⟨"fee", 2024, "%", none, []⟩)
  have h := h.ask (.updateConstant "fee" ⟨"rate", 2024, "%", none, []⟩)
  have h := h.ask (.insertReport ⟨"q1", [1]⟩)
  have h := h.ask (.insertReport ⟨"q2", [2, 1]⟩)
  have h := h.ask (.updateReport ⟨"q1", [4]⟩)
  have h := h.scanRows (·.latest)
  obtain ⟨_, _, _, hconstants, _, _, hinsert, hhistory, _, hfailed⟩ := h.answers_as_list
  obtain ⟨rows, hrows, -, hsorted⟩ := hhistory "a"
  refine ⟨_, _, h, by decide +kernel, by decide +kernel, by decide +kernel, ⟨rows, hrows, hsorted⟩,
    (hinsert _).trans (if_pos (by decide +kernel)), hconstants "rate", ?_⟩
  exact hfailed _ (.duplicateConstant "rate") (by decide +kernel)

end Past

end KeyedStore

end FormulaLedger
