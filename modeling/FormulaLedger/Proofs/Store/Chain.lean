import FormulaLedger.Store.Basic
import Mathlib.Data.List.Nodup

/-!
Chains of revisions. The rows of one calculation are numbered 1, 2, … in the order in which they
were stored, and only the last of them can be the latest. A chained store keeps this for every
calculation, together with an index that says of each row what the row says.
-/

set_option autoImplicit false

namespace FormulaLedger

/-- Rows numbered from 1 without a gap, of which only the last can be the latest. -/
structure IsChain (rows : List Calculation) : Prop where
  numbered : rows.map (·.version) = List.range' 1 rows.length
  last_of_latest : ∀ c ∈ rows, c.latest = true → c.version = rows.length

namespace IsChain

theorem nil : IsChain [] := ⟨rfl, by simp⟩

theorem version_bounds {rows : List Calculation} (h : IsChain rows) {c : Calculation}
    (hc : c ∈ rows) : 1 ≤ c.version ∧ c.version ≤ rows.length := by
  have hm : c.version ∈ List.range' 1 rows.length := by
    rw [← h.numbered]
    exact List.mem_map_of_mem hc
  simp only [List.mem_range'_1] at hm
  omega

theorem exists_version {rows : List Calculation} (h : IsChain rows) {v : Nat} (hv : 1 ≤ v)
    (hn : v ≤ rows.length) : ∃ c ∈ rows, c.version = v := by
  have hm : v ∈ rows.map (·.version) := by
    rw [h.numbered, List.mem_range'_1]
    omega
  simpa using hm

theorem eq_of_version {rows : List Calculation} (h : IsChain rows) {a b : Calculation}
    (ha : a ∈ rows) (hb : b ∈ rows) (hv : a.version = b.version) : a = b := by
  have hn : (rows.map (·.version)).Nodup := by
    rw [h.numbered]
    exact List.nodup_range'
  exact List.inj_on_of_nodup_map hn ha hb hv

theorem countP_latest_le_one {rows : List Calculation} (h : IsChain rows) :
    rows.countP (·.latest) ≤ 1 := by
  have hn : (rows.map (·.version)).Nodup := by
    rw [h.numbered]
    exact List.nodup_range'
  calc
    rows.countP (·.latest) ≤ rows.countP (·.version == rows.length) :=
      List.countP_mono_left fun c hc hl => by simpa using h.last_of_latest c hc hl
    _ = (rows.map (·.version)).count rows.length := by
      rw [List.count, List.countP_map]
      rfl
    _ ≤ 1 := List.nodup_iff_count.1 hn _

theorem latest_iff {rows : List Calculation} (h : IsChain rows) {c : Calculation} (hc : c ∈ rows)
    (hl : c.latest = true) : ∀ d ∈ rows, d.latest = true ↔ d.version = rows.length := by
  refine fun d hd => ⟨h.last_of_latest d hd, fun hv => ?_⟩
  rw [h.eq_of_version hd hc (hv.trans (h.last_of_latest c hc hl).symm)]
  exact hl

theorem append {rows : List Calculation} (h : IsChain rows)
    (hf : ∀ c ∈ rows, c.latest = false) {c : Calculation} (hv : c.version = rows.length + 1) :
    IsChain (rows ++ [c]) := by
  constructor
  · rw [List.length_append, List.length_singleton, List.range'_concat, ← h.numbered]
    simp [hv]
    omega
  · intro d hd hl
    rcases List.mem_append.1 hd with hd | hd
    · rw [hf d hd] at hl
      contradiction
    · obtain rfl := List.mem_singleton.1 hd
      simp [hv]

/-- Rows may be changed where they stand when they keep their versions and no row but the last
comes out as the latest. -/
theorem map {rows : List Calculation} (h : IsChain rows) {f : Calculation → Calculation}
    (hv : ∀ c, (f c).version = c.version)
    (hl : ∀ c ∈ rows, (f c).latest = true → c.version = rows.length) : IsChain (rows.map f) := by
  constructor
  · rw [List.map_map, List.length_map, ← h.numbered]
    exact List.map_congr_left fun c _ => hv c
  · intro d hd hd'
    obtain ⟨c, hc, rfl⟩ := List.mem_map.1 hd
    rw [List.length_map, hv]
    exact hl c hc hd'

end IsChain

def Calculation.indexEntry (c : Calculation) : (String × Nat) × RowId :=
  ((c.uniqueId, c.version), c.id)

namespace Store

def revisions (s : Store) (uniqueId : String) : List Calculation :=
  s.rows.filter (·.uniqueId == uniqueId)

/-- Rows stand in the order of the ids that they were given, and the index says of each row what the
row says. -/
structure Indexed (s : Store) : Prop where
  ascending : s.rows.Pairwise fun a b => a.id < b.id
  issued : ∀ c ∈ s.rows, c.id ≤ s.lastId
  indexed : s.versions = s.rows.map Calculation.indexEntry

structure Chained (s : Store) : Prop where
  ascending : s.rows.Pairwise fun a b => a.id < b.id
  issued : ∀ c ∈ s.rows, c.id ≤ s.lastId
  indexed : s.versions = s.rows.map Calculation.indexEntry
  chain : ∀ uniqueId, IsChain (s.revisions uniqueId)

theorem Chained.toIndexed {s : Store} (h : s.Chained) : s.Indexed :=
  ⟨h.ascending, h.issued, h.indexed⟩

theorem mem_revisions {s : Store} {uniqueId : String} {c : Calculation} :
    c ∈ s.revisions uniqueId ↔ c ∈ s.rows ∧ c.uniqueId = uniqueId := by
  simp [revisions]

/-- A row on a calculation has been stored, and none of its rows is the latest. -/
def Frozen (s : Store) (uniqueId : String) : Prop :=
  s.revisions uniqueId ≠ [] ∧ ∀ c ∈ s.revisions uniqueId, c.latest = false

theorem latest?_eq_find? (s : Store) (u : String) :
    s.latest? u = (s.revisions u).find? (·.latest) := by
  rw [revisions, List.find?_filter, latest?]
  congr 1
  funext c
  rw [Bool.decide_and, Bool.decide_eq_true, Bool.decide_eq_true, Bool.and_comm]

theorem latest?_eq_none_iff {s : Store} {uniqueId : String} :
    s.latest? uniqueId = none ↔ ∀ c ∈ s.revisions uniqueId, c.latest = false := by
  rw [latest?_eq_find?, List.find?_eq_none]
  exact forall₂_congr fun c _ => Bool.not_eq_true _ ▸ Iff.rfl

theorem mem_of_latest?_eq_some {s : Store} {uniqueId : String} {c : Calculation}
    (h : s.latest? uniqueId = some c) : c ∈ s.revisions uniqueId ∧ c.latest = true := by
  have hm := List.mem_of_find?_eq_some h
  have hp := List.find?_some h
  simp only [Bool.and_eq_true, beq_iff_eq] at hp
  exact ⟨mem_revisions.2 ⟨hm, hp.2⟩, hp.1⟩

namespace Indexed

theorem eq_of_id {s : Store} (h : s.Indexed) {a b : Calculation} (ha : a ∈ s.rows)
    (hb : b ∈ s.rows) (hi : a.id = b.id) : a = b := by
  have hn : (s.rows.map (·.id)).Nodup :=
    List.pairwise_map.2 (h.ascending.imp fun hlt => Nat.ne_of_lt hlt)
  exact List.inj_on_of_nodup_map hn ha hb hi

theorem row?_eq_some_iff {s : Store} (h : s.Indexed) {id : RowId} {c : Calculation} :
    s.row? id = some c ↔ c ∈ s.rows ∧ c.id = id := by
  constructor
  · intro hr
    exact ⟨List.mem_of_find?_eq_some hr, by simpa using List.find?_some hr⟩
  · rintro ⟨hc, rfl⟩
    have hs : (s.row? c.id).isSome := List.find?_isSome.2 ⟨c, hc, by simp⟩
    obtain ⟨d, hd⟩ := Option.isSome_iff_exists.1 hs
    have hi : d.id = c.id := by simpa using List.find?_some hd
    rw [hd, h.eq_of_id (List.mem_of_find?_eq_some hd) hc hi]

theorem lookup_isSome_iff {s : Store} (h : s.Indexed) (uniqueId : String) (v : Nat) :
    (s.versions.lookup (uniqueId, v)).isSome ↔
      ∃ c ∈ s.rows, c.uniqueId = uniqueId ∧ c.version = v := by
  rw [List.lookup_isSome_iff, h.indexed]
  constructor
  · rintro ⟨entry, he, hk⟩
    obtain ⟨c, hc, rfl⟩ := List.mem_map.1 he
    simp only [Calculation.indexEntry, beq_iff_eq, Prod.mk.injEq] at hk
    exact ⟨c, hc, hk.1.symm, hk.2.symm⟩
  · rintro ⟨c, hc, rfl, rfl⟩
    exact ⟨c.indexEntry, List.mem_map_of_mem hc, by simp [Calculation.indexEntry]⟩

theorem exists_of_lookup {s : Store} (h : s.Indexed) {uniqueId : String} {v : Nat} {id : RowId}
    (hid : s.versions.lookup (uniqueId, v) = some id) :
    ∃ c ∈ s.rows, c.id = id ∧ c.uniqueId = uniqueId ∧ c.version = v := by
  have hentry : ((uniqueId, v), id) ∈ s.rows.map Calculation.indexEntry := by
    rw [← h.indexed]
    obtain ⟨before, after, heq, _⟩ := List.lookup_eq_some_iff.1 hid
    rw [heq]
    exact List.mem_append_right _ List.mem_cons_self
  obtain ⟨c, hc, hentry⟩ := List.mem_map.1 hentry
  simp only [Calculation.indexEntry, Prod.mk.injEq] at hentry
  exact ⟨c, hc, hentry.2, hentry.1.1, hentry.1.2⟩

end Indexed

namespace Chained

theorem empty : Store.empty.Chained :=
  ⟨List.Pairwise.nil, by simp [Store.empty], rfl, fun _ => IsChain.nil⟩

theorem eq_of_id {s : Store} (h : s.Chained) {a b : Calculation} (ha : a ∈ s.rows)
    (hb : b ∈ s.rows) (hi : a.id = b.id) : a = b :=
  h.toIndexed.eq_of_id ha hb hi

theorem filter_id {s : Store} (h : s.Chained) {c : Calculation} (hc : c ∈ s.rows) :
    s.rows.filter (·.id == c.id) = [c] := by
  have hn : s.rows.Nodup := h.ascending.imp fun hlt he => Nat.ne_of_lt hlt (congrArg _ he)
  calc
    s.rows.filter (·.id == c.id) = s.rows.filter (· == c) := by
      refine List.filter_congr fun d hd => ?_
      rw [Bool.eq_iff_iff, beq_iff_eq, beq_iff_eq]
      exact ⟨h.eq_of_id hd hc, fun he => by rw [he]⟩
    _ = [c] := by rw [List.filter_beq, List.count_eq_one_of_mem hn hc, List.replicate_one]

theorem row?_eq_some_iff {s : Store} (h : s.Chained) {id : RowId} {c : Calculation} :
    s.row? id = some c ↔ c ∈ s.rows ∧ c.id = id :=
  h.toIndexed.row?_eq_some_iff

theorem row?_of_mem {s : Store} (h : s.Chained) {c : Calculation} (hc : c ∈ s.rows) :
    s.row? c.id = some c :=
  h.row?_eq_some_iff.2 ⟨hc, rfl⟩

theorem history_eq {s : Store} (h : s.Chained) (uniqueId : String) :
    s.history uniqueId = s.revisions uniqueId := by
  apply List.mergeSort_of_pairwise
  have hs : ((s.revisions uniqueId).map (·.version)).Pairwise (· ≤ ·) := by
    rw [(h.chain uniqueId).numbered]
    exact (List.pairwise_lt_range' (s := 1)).imp Nat.le_of_lt
  exact (List.pairwise_map.1 hs).imp fun hle => by simpa using hle

theorem lookup_isSome_iff {s : Store} (h : s.Chained) (uniqueId : String) (v : Nat) :
    (s.versions.lookup (uniqueId, v)).isSome ↔
      1 ≤ v ∧ v ≤ (s.revisions uniqueId).length := by
  rw [h.toIndexed.lookup_isSome_iff]
  constructor
  · rintro ⟨c, hc, hu, rfl⟩
    exact (h.chain _).version_bounds (mem_revisions.2 ⟨hc, hu⟩)
  · rintro ⟨hv, hn⟩
    obtain ⟨c, hc, rfl⟩ := (h.chain uniqueId).exists_version hv hn
    obtain ⟨hm, rfl⟩ := mem_revisions.1 hc
    exact ⟨c, hm, rfl, rfl⟩

theorem countP_latest {s : Store} (h : s.Chained) {uniqueId : String}
    (hn : s.revisions uniqueId ≠ []) (hf : ¬ s.Frozen uniqueId) :
    (s.revisions uniqueId).countP (·.latest) = 1 := by
  have hle := (h.chain uniqueId).countP_latest_le_one
  refine Nat.le_antisymm hle (List.countP_pos_iff.2 ?_)
  by_contra hall
  refine hf ⟨hn, fun c hc => ?_⟩
  cases hl : c.latest with
  | false => rfl
  | true => exact absurd ⟨c, hc, hl⟩ hall

end Chained

end Store

end FormulaLedger
