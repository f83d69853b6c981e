import FormulaLedger.Proofs.Procedure.Discipline
import FormulaLedger.Proofs.Store.Reports
import Mathlib.Data.List.Find

/-!
Stores that any requests have come to. The index of versions, the last id and the rows are written
apart from each other, and a constant may get another unique id. What is found through them is
nevertheless what a look at all rows finds.
-/

set_option autoImplicit false

namespace FormulaLedger

def Request.writesConstants : Request → Bool
  | .insertConstant _ | .updateConstant _ _ | .deleteConstant _ => true
  | _ => false

namespace Store

/-- The rows are indexed, and no two rows, constants or reports are found by one name. -/
structure Orderly (s : Store) : Prop where
  rows : s.Indexed
  versions : (s.versions.map Prod.fst).Nodup
  constants : (s.constants.map (·.uniqueId)).Nodup
  reports : s.Named

variable {s : Store}

theorem orderly_empty : Store.empty.Orderly :=
  ⟨⟨List.Pairwise.nil, by simp [Store.empty], rfl⟩, List.nodup_nil, List.nodup_nil, named_empty⟩

theorem constant?_isSome_iff (u : String) :
    (s.constant? u).isSome = true ↔ u ∈ s.constants.map (·.uniqueId) := by
  simp [constant?]

theorem uniqueId_of_constant? {k : String} {c : Constant} (h : s.constant? k = some c) :
    c.uniqueId = k := by
  simpa using List.find?_some h

theorem insertConstant_eq_ok_iff {t : Store} {c : Constant} : s.insertConstant c = .ok t ↔
    s.constant? c.uniqueId = none ∧ t = { s with constants := s.constants ++ [c] } := by
  rw [insertConstant]
  cases s.constant? c.uniqueId with
  | none => simp [eq_comm]
  | some other => simp

theorem updateConstant_eq_ok_iff {t : Store} {u : String} {c : Constant} :
    s.updateConstant u c = .ok t ↔
      (∃ old, s.constant? u = some old) ∧ (c.uniqueId = u ∨ s.constant? c.uniqueId = none) ∧
        t = { s with
          constants := s.constants.map fun old => if old.uniqueId = u then c else old } := by
  rw [updateConstant, ← Option.isSome_iff_exists]
  cases s.constant? u with
  | none => simp
  | some old =>
    rw [Option.isNone_some, if_neg Bool.false_ne_true]
    by_cases hu : c.uniqueId = u
    · rw [if_neg fun h => h.1 hu]
      simp [hu, eq_comm]
    · cases s.constant? c.uniqueId with
      | none => simp [eq_comm]
      | some other => simp [hu]

theorem deleteConstant_eq_ok_iff {t : Store} {u : String} : s.deleteConstant u = .ok t ↔
    (∃ old, s.constant? u = some old) ∧
      t = { s with constants := s.constants.filter (·.uniqueId != u) } := by
  rw [deleteConstant, ← Option.isSome_iff_exists]
  cases s.constant? u with
  | none => simp
  | some old => simp [eq_comm]

theorem constant?_insertConstant {t : Store} {c : Constant} (h : s.insertConstant c = .ok t)
    (v : String) : t.constant? v = if v = c.uniqueId then some c else s.constant? v := by
  obtain ⟨hfree, rfl⟩ := insertConstant_eq_ok_iff.1 h
  rw [constant?, List.find?_append, ← constant?]
  by_cases hv : v = c.uniqueId
  · simp [hv, hfree]
  · simp [hv, Ne.symm hv]

theorem constant?_updateConstant {t : Store} {u : String} {c : Constant}
    (h : s.updateConstant u c = .ok t) (v : String) : t.constant? v =
      if v = c.uniqueId then some c else if v = u then none else s.constant? v := by
  obtain ⟨⟨old, hold⟩, hfree, rfl⟩ := updateConstant_eq_ok_iff.1 h
  rw [constant?, List.find?_map]
  by_cases hv : v = c.uniqueId
  · have hother : ∀ d ∈ s.constants, d.uniqueId ≠ u → d.uniqueId ≠ v := by
      rintro d hd hdu rfl
      have hfound := (constant?_isSome_iff d.uniqueId).2 (List.mem_map_of_mem hd)
      rcases hfree with hu | hnone
      · exact hdu (hv.trans hu)
      · rw [hv, hnone] at hfound
        contradiction
    -- so the constant that is found is the new one, where the old one has been
    have hplace : s.constants.find? ((fun d : Constant => d.uniqueId == v) ∘
        fun old => if old.uniqueId = u then c else old) = s.constant? u := by
      refine List.find?_congr fun d hd => ?_
      by_cases hdu : d.uniqueId = u
      · simp [hdu, hv]
      · simp [hdu, hother d hd hdu]
    rw [if_pos hv, hplace, hold, Option.map_some, if_pos (uniqueId_of_constant? hold)]
  · rw [if_neg hv]
    by_cases hu : v = u
    · rw [if_pos hu, Option.map_eq_none_iff, List.find?_eq_none]
      intro d _
      by_cases hdu : d.uniqueId = u
      · simp [hdu, Ne.symm hv]
      · simp [hdu, hu]
    · have hplace : s.constants.find? ((fun d : Constant => d.uniqueId == v) ∘
          fun old => if old.uniqueId = u then c else old) = s.constant? v := by
        refine List.find?_congr fun d _ => ?_
        by_cases hdu : d.uniqueId = u
        · simp [hdu, Ne.symm hv, Ne.symm hu]
        · simp [hdu]
      rw [if_neg hu, hplace]
      cases hfound : s.constant? v with
      | none => rfl
      | some d => rw [Option.map_some, if_neg (uniqueId_of_constant? hfound ▸ hu)]

theorem constant?_deleteConstant {t : Store} {u : String} (h : s.deleteConstant u = .ok t)
    (v : String) : t.constant? v = if v = u then none else s.constant? v := by
  obtain ⟨_, rfl⟩ := deleteConstant_eq_ok_iff.1 h
  rw [constant?, List.find?_filter]
  by_cases hv : v = u
  · simp [hv]
  · rw [if_neg hv, constant?]
    refine List.find?_congr fun old _ => ?_
    by_cases hold : old.uniqueId = v
    · simp [hold, hv]
    · simp [hold]

theorem lookup_filter_fst {κ ν : Type} [BEq κ] [LawfulBEq κ] (keep : κ → Bool)
    (entries : List (κ × ν)) (k : κ) :
    (entries.filter fun entry => keep entry.1).lookup k =
      (entries.lookup k).filter fun _ => keep k := by
  induction entries with
  | nil => rfl
  | cons entry entries ih =>
    obtain ⟨k', x⟩ := entry
    by_cases hk : k = k'
    · subst hk
      cases hkeep : keep k with
      | true => simp [hkeep, Option.filter]
      | false => simp [hkeep, ih]
    · have hne : (k == k') = false := beq_false_of_ne hk
      cases hkeep : keep k' with
      | true => simp [hkeep, List.lookup_cons, hne, ih]
      | false => simp [hkeep, List.lookup_cons, hne, ih]

/-- What a request can do to the rows and their index: it stores one row more, changes a row where
it stands, removes the rows of a calculation, or does nothing of that. -/
inductive RowStep (s : Store) : Store → Prop
  | same {t : Store} : s.SameRows t → RowStep s t
  | stored (row : NewRow) : (s.versions.lookup (row.uniqueId, row.version)).isSome = false →
      RowStep s (s.withRow row)
  | modified (id : RowId) {f : Calculation → Calculation} : KeepsKey f →
      RowStep s (s.modifyRow id f)
  | deleted (u : String) : RowStep s (s.deleteCalculation u).2

theorem rowStep_answer (s : Store) (r : Request) : s.RowStep (s.answer r).2 := by
  have hsame : s.RowStep s := .same ⟨rfl, rfl, rfl⟩
  cases r with
  | insertRow row =>
    refine changeWith_induction hsame fun id t ht => ?_
    rw [insertRow_eq] at ht
    split at ht
    · contradiction
    · next hfree =>
      cases ht
      exact .stored row (Bool.eq_false_iff.2 hfree)
  | setLatest id latest =>
    refine changeWith_induction hsame fun was t ht => ?_
    unfold setLatest at ht
    split at ht
    · contradiction
    · cases ht
      exact .modified id (keepsKey_latest latest)
  | updateLatest id draft =>
    refine change_induction hsame fun t ht => ?_
    unfold updateLatest at ht
    split at ht
    · contradiction
    · split at ht
      · cases ht
        exact .modified id (keepsKey_draft draft)
      · contradiction
  | deleteCalculation u => exact .deleted u
  | _ => exact .same (s.answer_sameRows rfl)

namespace RowStep

variable {t : Store}

theorem indexed (ht : s.RowStep t) (h : s.Indexed) : t.Indexed := by
  cases ht with
  | same hsame => exact h.of_sameRows hsame
  | stored row _ => exact h.withRow row
  | modified id hf => exact h.modifyRow hf
  | deleted u => exact h.deleteCalculation u

theorem nodup_versions (ht : s.RowStep t) (h : (s.versions.map Prod.fst).Nodup) :
    (t.versions.map Prod.fst).Nodup := by
  cases ht with
  | same hsame =>
    rw [hsame.2.1]
    exact h
  | stored row hfree =>
    have hnew : (row.uniqueId, row.version) ∉ s.versions.map Prod.fst := by
      rw [List.mem_map]
      rintro ⟨entry, hentry, hkey⟩
      rw [Bool.eq_false_iff, Ne, List.lookup_isSome_iff] at hfree
      exact hfree ⟨entry, hentry, beq_iff_eq.2 hkey.symm⟩
    rw [withRow, List.map_append]
    exact List.nodup_append_comm.1 (List.nodup_cons.2 ⟨hnew, h⟩)
  | modified id _ => exact h
  | deleted u => exact h.sublist (List.filter_sublist.map _)

theorem keepsIds (ht : s.RowStep t) : s.KeepsIds t := by
  cases ht with
  | same hsame => exact hsame.keepsIds
  | stored row _ => exact .withRow s row
  | modified id hf => exact .modifyRow hf
  | deleted u => exact .deleteCalculation s u

end RowStep

theorem answer_constants (s : Store) {r : Request} (h : r.writesConstants = false) :
    (s.answer r).2.constants = s.constants := by
  have hs : s.constants = s.constants := rfl
  cases r with
  | insertConstant _ | updateConstant _ _ | deleteConstant _ =>
    simp [Request.writesConstants] at h
  | insertRow row =>
    exact changeWith_induction (p := fun t => t.constants = _) hs fun a t ht => by grind [insertRow]
  | setLatest id latest =>
    exact changeWith_induction (p := fun t => t.constants = _) hs fun a t ht => by
      grind [setLatest, modifyRow]
  | updateLatest id draft =>
    exact change_induction (p := fun t => t.constants = _) hs fun t ht => by
      grind [updateLatest, modifyRow]
  | insertReport r =>
    exact change_induction (p := fun t => t.constants = _) hs fun t ht => by grind [insertReport]
  | updateReport r =>
    exact change_induction (p := fun t => t.constants = _) hs fun t ht => by grind [updateReport]
  | _ => exact hs

/-- A constant is written over the one with the name `u`. Its new name is `u` or has not been taken,
so no two names become one. -/
theorem nodup_replaced {cs : List Constant} (h : (cs.map (·.uniqueId)).Nodup) {u : String}
    {c : Constant} (hfree : c.uniqueId ≠ u → c.uniqueId ∉ cs.map (·.uniqueId)) :
    ((cs.map fun old => if old.uniqueId = u then c else old).map (·.uniqueId)).Nodup := by
  have hnames : (cs.map fun old => if old.uniqueId = u then c else old).map (·.uniqueId) =
      (cs.map (·.uniqueId)).map fun x => if x = u then c.uniqueId else x := by
    rw [List.map_map, List.map_map]
    refine List.map_congr_left fun old _ => ?_
    by_cases hu : old.uniqueId = u <;> simp [hu]
  have hnew : ∀ x ∈ cs.map (·.uniqueId), x ≠ u → x ≠ c.uniqueId := by
    rintro x hx hxu rfl
    exact hfree hxu hx
  rw [hnames]
  refine h.map_on fun x hx y hy hxy => ?_
  by_cases hxu : x = u <;> by_cases hyu : y = u
  · rw [hxu, hyu]
  · rw [if_pos hxu, if_neg hyu] at hxy
    exact absurd hxy.symm (hnew y hy hyu)
  · rw [if_neg hxu, if_pos hyu] at hxy
    exact absurd hxy (hnew x hx hxu)
  · rw [if_neg hxu, if_neg hyu] at hxy
    exact hxy

theorem nodup_constants_answer (h : (s.constants.map (·.uniqueId)).Nodup) (r : Request) :
    ((s.answer r).2.constants.map (·.uniqueId)).Nodup := by
  by_cases hr : r.writesConstants = false
  · rw [s.answer_constants hr]
    exact h
  · cases r with
    | insertConstant c =>
      refine change_induction (p := fun t => (t.constants.map (·.uniqueId)).Nodup) h fun t ht => ?_
      obtain ⟨hfree, rfl⟩ := insertConstant_eq_ok_iff.1 ht
      have hnew : c.uniqueId ∉ s.constants.map (·.uniqueId) := by
        rw [← constant?_isSome_iff, hfree]
        nofun
      rw [List.map_append]
      exact List.nodup_append_comm.1 (List.nodup_cons.2 ⟨hnew, h⟩)
    | updateConstant u c =>
      refine change_induction (p := fun t => (t.constants.map (·.uniqueId)).Nodup) h fun t ht => ?_
      obtain ⟨_, hfree, rfl⟩ := updateConstant_eq_ok_iff.1 ht
      refine nodup_replaced h fun hcu => ?_
      rw [← constant?_isSome_iff, hfree.resolve_left hcu]
      nofun
    | deleteConstant u =>
      refine change_induction (p := fun t => (t.constants.map (·.uniqueId)).Nodup) h fun t ht => ?_
      obtain ⟨_, rfl⟩ := deleteConstant_eq_ok_iff.1 ht
      exact h.sublist (List.filter_sublist.map _)
    | _ => exact absurd rfl hr

/-- Whatever is asked of a store in order leaves it in order. -/
theorem Orderly.answer (h : s.Orderly) (r : Request) : (s.answer r).2.Orderly :=
  ⟨(s.rowStep_answer r).indexed h.rows, (s.rowStep_answer r).nodup_versions h.versions,
    nodup_constants_answer h.constants r, h.reports.answer r⟩

namespace Orderly

theorem eq_of_version (h : s.Orderly) {a b : Calculation} (ha : a ∈ s.rows) (hb : b ∈ s.rows)
    (hu : a.uniqueId = b.uniqueId) (hv : a.version = b.version) : a = b := by
  have hkeys := h.versions
  rw [h.rows.indexed, List.map_map] at hkeys
  exact List.inj_on_of_nodup_map hkeys ha hb (Prod.ext hu hv)

theorem lookup_eq_some_iff (h : s.Orderly) {u : String} {v : Nat} {id : RowId} :
    s.versions.lookup (u, v) = some id ↔
      ∃ c, s.row? id = some c ∧ c.uniqueId = u ∧ c.version = v := by
  constructor
  · intro hid
    obtain ⟨c, hc, hci, hcu, hcv⟩ := h.rows.exists_of_lookup hid
    exact ⟨c, h.rows.row?_eq_some_iff.2 ⟨hc, hci⟩, hcu, hcv⟩
  · rintro ⟨c, hrow, rfl, rfl⟩
    obtain ⟨hc, rfl⟩ := h.rows.row?_eq_some_iff.1 hrow
    obtain ⟨id, hid⟩ := Option.isSome_iff_exists.1
      ((h.rows.lookup_isSome_iff c.uniqueId c.version).2 ⟨c, hc, rfl, rfl⟩)
    obtain ⟨b, hb, rfl, hbu, hbv⟩ := h.rows.exists_of_lookup hid
    rw [hid, h.eq_of_version hb hc hbu hbv]

theorem version?_eq (h : s.Orderly) (u : String) (v : Nat) :
    s.version? u v = s.rows.find? fun c => c.uniqueId == u && c.version == v := by
  cases hfound : s.rows.find? fun c => c.uniqueId == u && c.version == v with
  | some c =>
    have hc := List.mem_of_find?_eq_some hfound
    have hkey : c.uniqueId = u ∧ c.version = v := by simpa using List.find?_some hfound
    have hrow := h.rows.row?_eq_some_iff.2 ⟨hc, rfl⟩
    rw [version?, h.lookup_eq_some_iff.2 ⟨c, hrow, hkey⟩, Option.bind_some, hrow]
  | none =>
    have hnone : s.versions.lookup (u, v) = none := by
      rw [← Option.not_isSome_iff_eq_none, h.rows.lookup_isSome_iff]
      rintro ⟨c, hc, hcu, hcv⟩
      have hnot := List.find?_eq_none.1 hfound c hc
      simp [hcu, hcv] at hnot
    rw [version?, hnone, Option.bind_none]

/-- A row is refused just where a look at all rows finds its version. -/
theorem answer_insertRow (h : s.Orderly) (row : NewRow) : (s.answer (.insertRow row)).1 =
    if s.rows.any fun c => c.uniqueId == row.uniqueId && c.version == row.version then
      .error (.duplicateVersion row.uniqueId row.version)
    else .ok (s.lastId + 1) := by
  have hiff : (s.versions.lookup (row.uniqueId, row.version)).isSome =
      s.rows.any fun c => c.uniqueId == row.uniqueId && c.version == row.version := by
    rw [Bool.eq_iff_iff, h.rows.lookup_isSome_iff]
    simp
  rw [← hiff]
  cases hfree : (s.versions.lookup (row.uniqueId, row.version)).isSome with
  | false => rw [answer_insertRow_of_free row hfree, if_neg Bool.false_ne_true]
  | true => rw [answer_insertRow_of_taken row hfree, if_pos rfl]

theorem history_pairwise (h : s.Orderly) (u : String) :
    (s.history u).Pairwise fun a b => a.version < b.version := by
  have hsorted : (s.history u).Pairwise fun a b => a.version ≤ b.version := by
    have hmerge : (s.history u).Pairwise fun a b => decide (a.version ≤ b.version) = true :=
      List.pairwise_mergeSort
        (fun a b c hab hbc => by
          simp only [decide_eq_true_eq] at hab hbc ⊢
          exact Nat.le_trans hab hbc)
        (fun a b => by
          simp only [Bool.or_eq_true, decide_eq_true_eq]
          exact Nat.le_total _ _)
        (s.rows.filter (·.uniqueId == u))
    exact hmerge.imp fun hle => by simpa using hle
  have hperm : (s.history u).Perm (s.revisions u) := List.mergeSort_perm _ _
  have hnodup : (s.revisions u).Nodup :=
    (h.rows.ascending.imp fun hlt heq => Nat.ne_of_lt hlt (congrArg _ heq)).filter _
  refine (hsorted.and (hperm.nodup_iff.2 hnodup)).imp_of_mem fun {a b} ha hb hab => ?_
  obtain ⟨ham, hau⟩ := mem_revisions.1 (hperm.mem_iff.1 ha)
  obtain ⟨hbm, hbu⟩ := mem_revisions.1 (hperm.mem_iff.1 hb)
  exact Nat.lt_of_le_of_ne hab.1 fun hv => hab.2 (h.eq_of_version ham hbm (hau.trans hbu.symm) hv)

theorem constants_split (h : s.Orderly) {k : String} {c : Constant} (hc : s.constant? k = some c) :
    ∃ before after, s.constants = before ++ c :: after ∧
      ∀ other ∈ before ++ after, other.uniqueId ≠ k := by
  obtain ⟨_, before, after, heq, _⟩ := List.find?_eq_some_iff_append.1 hc
  obtain rfl := uniqueId_of_constant? hc
  have hnodup := h.constants
  rw [heq, List.map_append, List.map_cons, List.nodup_middle, ← List.map_append] at hnodup
  exact ⟨before, after, heq, fun other hother hsame =>
    (List.nodup_cons.1 hnodup).1 (List.mem_map.2 ⟨other, hother, hsame⟩)⟩

end Orderly

theorem inserted?_answer {r : Request} {i : NewRow × RowId}
    (h : (Exchange.answered r (s.answer r).1).inserted? = some i) :
    i.2 = s.lastId + 1 ∧ (s.answer r).2.lastId = s.lastId + 1 := by
  cases r with
  | insertRow row =>
    cases hfree : (s.versions.lookup (row.uniqueId, row.version)).isSome with
    | false =>
      rw [answer_insertRow_of_free row hfree] at h ⊢
      cases h
      exact ⟨rfl, rfl⟩
    | true =>
      rw [answer_insertRow_of_taken row hfree] at h
      contradiction
  | _ => contradiction

/-- The requests that a store was asked from the empty one on, with its answers. -/
inductive Past : Log → Store → Prop
  | start : Past [] Store.empty
  | ask {log : Log} {s : Store} (r : Request) : Past log s →
      Past (log ++ [.answered r (s.answer r).1]) (s.answer r).2

namespace Past

variable {log : Log}

theorem orderly (h : Past log s) : s.Orderly := by
  induction h with
  | start => exact orderly_empty
  | ask r _ ih => exact ih.answer r

theorem inserted_le (h : Past log s) : ∀ i ∈ log.inserted, i.2 ≤ s.lastId := by
  induction h with
  | start => exact fun i hi => absurd hi List.not_mem_nil
  | @ask log s r _ ih =>
    intro i hi
    rw [Log.inserted_append] at hi
    rcases List.mem_append.1 hi with hi | hi
    · exact Nat.le_trans (ih i hi) (s.rowStep_answer r).keepsIds.lastId_le
    · obtain ⟨hid, hlast⟩ := inserted?_answer (Option.mem_toList.1 hi)
      exact Nat.le_of_eq (hid.trans hlast.symm)

theorem inserted_lt (h : Past log s) {row : NewRow} {id : RowId}
    (hid : (s.answer (.insertRow row)).1 = .ok id) : ∀ i ∈ log.inserted, i.2 < id := by
  intro i hi
  have hinserted : (Exchange.answered (.insertRow row) (s.answer (.insertRow row)).1).inserted? =
      some (row, id) := by
    rw [hid]
    rfl
  have hnew : id = s.lastId + 1 := (inserted?_answer hinserted).1
  rw [hnew]
  exact Nat.lt_succ_of_le (h.inserted_le i hi)

end Past

end Store

end FormulaLedger
