import FormulaLedger.Proofs.Versioning.Change

set_option autoImplicit false

namespace FormulaLedger

theorem Exchange.inserted?_of_isRead {r : Request} (h : r.isRead = true) (a : r.Result) :
    (Exchange.answered r a).inserted? = none := by
  cases r <;> trivial

namespace Change

def nextRow (x : Change) (s : Store) : NewRow :=
  ⟨x.uniqueId, (s.revisions x.uniqueId).length + 1, true, x.draft⟩

/-- What an answered request does: the phases before and after, the row that is inserted, and the
store that is left. -/
inductive Move (x : Change) (s : Store) : Phase → Phase → Option (NewRow × RowId) → Store → Prop
  | keep {p : Phase} {t : Store} : s.SameRows t → Move x s p p none t
  | edit {c : Calculation} : c ∈ s.revisions x.uniqueId → c.latest = true →
      Move x s .idle .idle none (s.modifyRow c.id fun c => { c with draft := x.draft })
  | freeze {c : Calculation} : c ∈ s.revisions x.uniqueId → c.latest = true →
      Move x s .idle (.frozen c.id) none (s.modifyRow c.id fun c => { c with latest := false })
  | store {p : Phase} : (p = .idle ∧ s.revisions x.uniqueId = [] ∨ p.isFrozen = true) →
      Move x s p (.stored (s.lastId + 1)) (some (x.nextRow s, s.lastId + 1))
        (s.withRow (x.nextRow s))
  | restore {c : Calculation} : c ∈ s.revisions x.uniqueId →
      c.version = (s.revisions x.uniqueId).length →
      Move x s (.frozen c.id) .idle none (s.modifyRow c.id fun c => { c with latest := true })

end Change

namespace Store

def KeepsRows (s t : Store) : Prop :=
  ∀ c ∈ s.rows, ∃ d ∈ t.rows, d.id = c.id ∧ d.uniqueId = c.uniqueId ∧ d.version = c.version

theorem SameRows.keepsRows {s t : Store} (h : s.SameRows t) : s.KeepsRows t := by
  intro c hc
  rw [← h.1] at hc
  exact ⟨c, hc, rfl, rfl, rfl⟩

theorem KeepsRows.modifyRow {s : Store} {id : RowId} {f : Calculation → Calculation}
    (hf : KeepsKey f) : s.KeepsRows (s.modifyRow id f) :=
  fun c hc => ⟨_, List.mem_map_of_mem hc, hf.at id c⟩

end Store

namespace Change

variable {x : Change} {p q : Phase} {s t : Store} {i : Option (NewRow × RowId)}

/-- An answered request of a change is one of its moves. -/
theorem Allows.move {r : Request} (h : x.Allows p s r) (hs : s.Chained) :
    x.Move s p (p.after (.answered r (s.answer r).1))
      (Exchange.answered r (s.answer r).1).inserted? (s.answer r).2 := by
  cases h with
  | read hr =>
    rw [Phase.after_of_isRead p hr, Exchange.inserted?_of_isRead hr, s.answer_of_isRead hr]
    exact .keep ⟨rfl, rfl, rfl⟩
  | updateReport r => exact .keep (s.answer_sameRows rfl)
  | updateLatest id hu =>
    cases hr : s.row? id with
    | none =>
      rw [Store.answer_updateLatest_of_none hr]
      exact .keep ⟨rfl, rfl, rfl⟩
    | some c =>
      rw [Store.answer_updateLatest_of_some hr]
      obtain ⟨hm, rfl⟩ := hs.row?_eq_some_iff.1 hr
      split
      · rename_i hl
        exact .edit (Store.mem_revisions.2 ⟨hm, hu c hm rfl⟩) hl
      · exact .keep ⟨rfl, rfl, rfl⟩
  | freeze id hu =>
    cases hr : s.row? id with
    | none =>
      rw [Store.answer_setLatest_of_none hr]
      exact .keep ⟨rfl, rfl, rfl⟩
    | some c =>
      rw [Store.answer_setLatest_of_some hr]
      obtain ⟨hm, rfl⟩ := hs.row?_eq_some_iff.1 hr
      cases hl : c.latest with
      | false =>
        refine .keep (Store.sameRows_modifyRow fun d hd hi => ?_)
        obtain rfl := hs.eq_of_id hd hm hi
        rw [← hl]
      | true => exact .freeze (Store.mem_revisions.2 ⟨hm, hu c hm rfl⟩) hl
  | insertFirst =>
    cases hl : (s.versions.lookup (x.uniqueId, 1)).isSome with
    | true =>
      rw [Store.answer_insertRow_of_taken _ hl]
      exact .keep ⟨rfl, rfl, rfl⟩
    | false =>
      rw [Store.answer_insertRow_of_free _ hl]
      have hn : s.revisions x.uniqueId = [] := by
        have hlen : ¬(1 ≤ 1 ∧ 1 ≤ (s.revisions x.uniqueId).length) := by
          rw [← hs.lookup_isSome_iff, hl]
          simp
        exact List.length_eq_zero_iff.1 (by omega)
      have hrow : NewRow.first x.uniqueId x.draft = x.nextRow s := by
        simp [NewRow.first, nextRow, hn]
      rw [hrow]
      exact .store (.inl ⟨rfl, hn⟩)
  | insertNext id version hv =>
    have hl : (s.versions.lookup (x.uniqueId, version)).isSome = false := by
      rw [Bool.eq_false_iff, Ne, hs.lookup_isSome_iff]
      omega
    rw [Store.answer_insertRow_of_free _ hl, hv]
    exact .store (.inr rfl)
  | restore id hu =>
    cases hr : s.row? id with
    | none =>
      rw [Store.answer_setLatest_of_none hr]
      exact .keep ⟨rfl, rfl, rfl⟩
    | some c =>
      rw [Store.answer_setLatest_of_some hr]
      obtain ⟨hm, rfl⟩ := hs.row?_eq_some_iff.1 hr
      obtain ⟨huid, hv⟩ := hu c hm rfl
      exact .restore (Store.mem_revisions.2 ⟨hm, huid⟩) hv

theorem Allows.move_logged {log : Log} {r : Request} (h : x.Allows (Log.phase log) s r)
    (hs : s.Chained) :
    x.Move s (Log.phase log) (Log.phase (log ++ [.answered r (s.answer r).1]))
      (Exchange.answered r (s.answer r).1).inserted? (s.answer r).2 := by
  rw [Log.phase_append]
  exact h.move hs

namespace Move

theorem chained (h : x.Move s p q i t) (hs : s.Chained)
    (hp : p.isFrozen = true → s.Frozen x.uniqueId) : t.Chained := by
  cases h with
  | keep ht => exact hs.of_sameRows ht
  | edit hc hl => exact hs.modifyRow (keepsKey_draft _) fun d _ _ hd => .inl hd
  | freeze hc hl => exact hs.modifyRow (keepsKey_latest _) fun d _ _ hd => by simp at hd
  | store hq =>
    refine hs.withRow rfl fun c hc => ?_
    rcases hq with ⟨_, hn⟩ | hf
    · change c ∈ s.revisions x.uniqueId at hc
      rw [hn] at hc
      contradiction
    · exact (hp hf).2 c hc
  | restore hc hv =>
    refine hs.modifyRow (keepsKey_latest _) fun d hd hi _ => .inr ?_
    obtain ⟨hm, hu⟩ := Store.mem_revisions.1 hc
    obtain rfl := hs.eq_of_id hd hm hi
    rw [hu, hv]

theorem keepsIds (h : x.Move s p q i t) : s.KeepsIds t := by
  cases h with
  | keep ht => exact ht.keepsIds
  | edit hc hl => exact .modifyRow (keepsKey_draft _)
  | freeze hc hl => exact .modifyRow (keepsKey_latest _)
  | store hq => exact .withRow s _
  | restore hc hv => exact .modifyRow (keepsKey_latest _)

theorem revisions_of_ne (h : x.Move s p q i t) (hs : s.Chained) {u : String}
    (hu : u ≠ x.uniqueId) : t.revisions u = s.revisions u := by
  have hk : ∀ (c : Calculation) (f : Calculation → Calculation), KeepsKey f →
      c ∈ s.revisions x.uniqueId → (s.modifyRow c.id f).revisions u = s.revisions u := by
    intro c f hf hc
    rw [Store.revisions_modifyRow s c.id hf]
    refine (List.map_congr_left fun d hd => ?_).trans (List.map_id _)
    obtain ⟨hm, hcu⟩ := Store.mem_revisions.1 hc
    obtain ⟨hd, hdu⟩ := Store.mem_revisions.1 hd
    have hi : d.id ≠ c.id := by
      intro hi
      obtain rfl := hs.eq_of_id hd hm hi
      exact hu (hdu.symm.trans hcu)
    simp [hi]
  cases h with
  | keep ht => exact Store.revisions_of_rows_eq ht.1 u
  | edit hc hl => exact hk _ _ (keepsKey_draft _) hc
  | freeze hc hl => exact hk _ _ (keepsKey_latest _) hc
  | store hq =>
    rw [Store.revisions_withRow]
    simp [nextRow, Ne.symm hu]
  | restore hc hv => exact hk _ _ (keepsKey_latest _) hc

theorem mem_revisions_modifyRow {c : Calculation} {u : String} {f : Calculation → Calculation}
    (hf : KeepsKey f) (hc : c ∈ s.revisions u) : f c ∈ (s.modifyRow c.id f).revisions u := by
  rw [Store.revisions_modifyRow s c.id hf]
  exact List.mem_map.2 ⟨c, hc, by simp⟩

theorem frozen (h : x.Move s p q i t) (hs : s.Chained)
    (hp : p.isFrozen = true → s.Frozen x.uniqueId) (hq : q.isFrozen = true) :
    t.Frozen x.uniqueId := by
  cases h with
  | keep ht =>
    obtain ⟨hn, hl⟩ := hp hq
    rw [Store.Frozen, Store.revisions_of_rows_eq ht.1]
    exact ⟨hn, hl⟩
  | freeze hc hl =>
    rename_i c
    refine ⟨List.ne_nil_of_mem (mem_revisions_modifyRow (keepsKey_latest _) hc), fun d hd => ?_⟩
    rw [Store.revisions_modifyRow s c.id (keepsKey_latest _)] at hd
    obtain ⟨b, hb, rfl⟩ := List.mem_map.1 hd
    by_cases hi : b.id = c.id
    · simp [hi]
    · simp only [hi, ↓reduceIte]
      -- only the last revision can be the latest, and that is the frozen one
      by_contra hbl
      have hlast := (hs.chain x.uniqueId).last_of_latest
      have hv := (hlast b hb (by simpa using hbl)).trans (hlast c hc hl).symm
      rw [(hs.chain x.uniqueId).eq_of_version hb hc hv] at hi
      exact hi rfl
  | edit hc hl => simp [Phase.isFrozen] at hq
  | store hq' => simp [Phase.isFrozen] at hq
  | restore hc hv => simp [Phase.isFrozen] at hq

theorem frozen_before (h : x.Move s p q i t) (hq : q.isFrozen = false)
    (ht : t.Frozen x.uniqueId) : s.Frozen x.uniqueId ∧ p.isFrozen = false := by
  cases h with
  | keep hr =>
    rw [Store.Frozen, Store.revisions_of_rows_eq hr.1] at ht
    exact ⟨ht, hq⟩
  | edit hc hl =>
    have hm := ht.2 _ (mem_revisions_modifyRow (keepsKey_draft _) hc)
    simp [hl] at hm
  | freeze hc hl => simp [Phase.isFrozen] at hq
  | store hq' =>
    have hm : (x.nextRow s).stored (s.lastId + 1) ∈
        (s.withRow (x.nextRow s)).revisions x.uniqueId := by
      rw [Store.revisions_withRow]
      simp [nextRow]
    have hl := ht.2 _ hm
    simp [nextRow, NewRow.stored] at hl
  | restore hc hv =>
    have hm := ht.2 _ (mem_revisions_modifyRow (keepsKey_latest _) hc)
    simp at hm

theorem revisions_of_frozen (h : x.Move s p q i t) (hs : s.Frozen x.uniqueId)
    (hp : p.isFrozen = false) : t.revisions x.uniqueId = s.revisions x.uniqueId := by
  cases h with
  | keep hr => exact Store.revisions_of_rows_eq hr.1 _
  | edit hc hl =>
    rw [hs.2 _ hc] at hl
    contradiction
  | freeze hc hl =>
    rw [hs.2 _ hc] at hl
    contradiction
  | store hq' =>
    rcases hq' with ⟨_, hn⟩ | hf
    · exact absurd hn hs.1
    · rw [hp] at hf
      contradiction
  | restore hc hv => simp [Phase.isFrozen] at hp

/-- A calculation is frozen after a request when the change holds the freeze then, or when another
one held it before. -/
theorem frozen_iff (h : x.Move s p q i t) (hs : s.Chained)
    (hp : p.isFrozen = true → s.Frozen x.uniqueId) :
    t.Frozen x.uniqueId ↔ q.isFrozen = true ∨ s.Frozen x.uniqueId ∧ p.isFrozen = false := by
  constructor
  · intro ht
    cases hq : q.isFrozen with
    | true => exact .inl rfl
    | false => exact .inr (h.frozen_before hq ht)
  · rintro (hq | ⟨hf, hp⟩)
    · exact h.frozen hs hp hq
    · rw [Store.Frozen, h.revisions_of_frozen hf hp]
      exact hf

theorem not_frozen (h : x.Move s p q i t) (hp : p.isFrozen = false) (hq : q.isFrozen = true) :
    ¬ s.Frozen x.uniqueId := by
  intro hf
  cases h with
  | keep ht =>
    rw [hp] at hq
    contradiction
  | freeze hc hl =>
    rw [hf.2 _ hc] at hl
    contradiction
  | edit hc hl => simp [Phase.isFrozen] at hq
  | store hq' => simp [Phase.isFrozen] at hq
  | restore hc hv => simp [Phase.isFrozen] at hq

theorem keepsRows (h : x.Move s p q i t) : s.KeepsRows t := by
  cases h with
  | keep ht => exact ht.keepsRows
  | edit hc hl => exact .modifyRow (keepsKey_draft _)
  | freeze hc hl => exact .modifyRow (keepsKey_latest _)
  | store hq => exact fun c hc => ⟨c, List.mem_append_left _ hc, rfl, rfl, rfl⟩
  | restore hc hv => exact .modifyRow (keepsKey_latest _)

theorem stored?_eq (h : x.Move s p q i t) :
    q.stored? = p.stored? ∨ p.stored? = none ∧ q.stored? = some (s.lastId + 1) := by
  cases h with
  | keep ht => exact .inl rfl
  | edit hc hl => exact .inl rfl
  | freeze hc hl => exact .inl rfl
  | store hq =>
    refine .inr ⟨?_, rfl⟩
    rcases hq with ⟨rfl, _⟩ | hf
    · rfl
    · cases p with
      | frozen id => rfl
      | idle => simp [Phase.isFrozen] at hf
      | stored id => simp [Phase.isFrozen] at hf
  | restore hc hv => exact .inl rfl

end Move

end Change

end FormulaLedger
