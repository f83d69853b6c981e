import FormulaLedger.Proofs.Resolution.Requests
import FormulaLedger.Proofs.Versioning.Session
import FormulaLedger.Snapshot

set_option autoImplicit false

namespace FormulaLedger

open Procedure

def Store.Says (p : String → Draft → Prop) (s : Store) : Prop := ∀ c ∈ s.rows, p c.uniqueId c.draft

namespace Store

variable {p : String → Draft → Prop} {s t : Store}

theorem Says.of_rows_eq (h : s.Says p) (ht : t.rows = s.rows) : t.Says p := by
  intro c hc
  rw [ht] at hc
  exact h c hc

theorem Says.mono {q : String → Draft → Prop} (h : s.Says p) (hpq : ∀ u d, p u d → q u d) :
    s.Says q := fun c hc => hpq _ _ (h c hc)

theorem Says.setLatest (h : s.Says p) (id : RowId) (flag : Bool) :
    (s.modifyRow id fun c => { c with latest := flag }).Says p := by
  intro d hd
  obtain ⟨c, hc, rfl⟩ := List.mem_map.1 hd
  by_cases hid : c.id = id
  · simpa [hid] using h c hc
  · simpa [hid] using h c hc

theorem Says.answer_plain (h : s.Says p) {r : Request} (hr : r.isPlain = true) :
    (s.answer r).2.Says p := by
  cases r with
  | deleteCalculation u => exact fun c hc => h c (List.mem_filter.1 hc).1
  | insertRow _ | setLatest _ _ | updateLatest _ _ =>
    simp [Request.isPlain, Request.writesRows] at hr
  | _ => exact h.of_rows_eq (s.answer_sameRows rfl).1

end Store

namespace Change

variable {x : Change} {p : String → Draft → Prop} {s t : Store} {log : Log}

theorem Move.says_kept {before after : Phase} {i : Option (NewRow × RowId)}
    (h : x.Move s before after i t) (hs : s.Chained) (hp : s.Says p)
    (hx : p x.uniqueId x.draft) : t.Says p := by
  cases h with
  | keep ht => exact hp.of_rows_eq ht.1
  | @edit c hc _ =>
    obtain ⟨hmem, hu⟩ := Store.mem_revisions.1 hc
    intro d hd
    obtain ⟨b, hb, rfl⟩ := List.mem_map.1 hd
    by_cases hid : b.id = c.id
    · obtain rfl := hs.eq_of_id hb hmem hid
      simpa [hu] using hx
    · simpa [hid] using hp b hb
  | freeze _ _ => exact hp.setLatest _ false
  | store _ =>
    intro c hc
    rcases List.mem_append.1 hc with hc | hc
    · exact hp c hc
    · obtain rfl := List.mem_singleton.1 hc
      exact hx
  | restore _ _ => exact hp.setLatest _ true

theorem says_of_reaches (hs : s.Chained) {held : List Calculation} (hx : x.StartsFrom held)
    (hheld : ∀ c ∈ held, s.Agrees c) (hp : s.Says p) (hdraft : p x.uniqueId x.draft)
    {rest : Program (Except LedgerError Outcome)}
    (hr : Program.Reaches (ExceptT.run x.procedure) s log rest t) : t.Says p := by
  have hi : x.Alone s [] s ∧ s.Says p :=
    ⟨⟨hs, .refl s, fun h => by simp [Log.phase, Phase.isFrozen] at h, fun u hu => .inr hu⟩, hp⟩
  have h := Program.Obeys.of_reaches (fun log t => x.Alone s log t ∧ t.Says p)
    (fun log t ht => Later.refl ht.1.chained)
    (fun log t r ht hr => ⟨ht.1.answered hr,
      (hr.move ht.1.chained).says_kept ht.1.chained ht.2 hdraft⟩)
    (fun log t r e ht _ => ⟨ht.1.failed r e, ht.2⟩) hr (x.obeys hx hheld) hi
  exact h.2.2

def skipsCheck : Change → Bool
  | .bumpFrom _ _ => true
  | .create _ _ | .bump _ _ | .edit _ _ => false

theorem eq_of_reaches_of_fault {fault : ExpressionFault} (hx : x.skipsCheck = false)
    (hfault : x.draft.check x.uniqueId = .error fault) {rest : Program (Except LedgerError Outcome)}
    (hr : Program.Reaches (ExceptT.run x.procedure) s log rest t) : t = s := by
  have hvalidate : Versioning.validate x.uniqueId x.draft =
      throw (.invalid (.expression fault)) := by
    rw [Versioning.validate, hfault]
  have hdone : ExceptT.run x.procedure = .done (.error (.invalid (.expression fault))) := by
    cases x with
    | bumpFrom copy d => contradiction
    | create u d =>
      change Versioning.validate u d = _ at hvalidate
      rw [procedure, Versioning.createCalculation, hvalidate]
      rfl
    | bump u d =>
      change Versioning.validate u d = _ at hvalidate
      rw [procedure, Versioning.bumpVersion, hvalidate]
      rfl
    | edit u d =>
      change Versioning.validate u d = _ at hvalidate
      rw [procedure, Versioning.editCalculation, hvalidate]
      rfl
  rw [hdone] at hr
  cases hr with
  | refl _ _ => rfl

end Change

namespace Operation

def StoresUnchecked (u : String) (d : Draft) : Operation → Prop
  | .change x => x.skipsCheck = true ∧ x.uniqueId = u ∧ x.draft = d
  | _ => False

end Operation

structure Draft.WellFormed (d : Draft) (u : String) : Prop where
  named : Text.isBlankText u = false
  nonempty : d.expression ≠ []
  not_self : ∀ p ∈ d.expression, p.target ≠ .calculation u
  parses : ∃ tree, Formula.parse d.outline = .ok tree

theorem Draft.check_eq_ok_iff {d : Draft} {u : String} : d.check u = .ok () ↔ d.WellFormed u := by
  have hself : (d.expression.any fun p => p.target == .calculation u) = true ↔
      ¬ ∀ p ∈ d.expression, p.target ≠ .calculation u := by simp
  rw [Draft.check]
  by_cases hnamed : Text.isBlankText u = true
  · rw [if_pos hnamed]
    exact ⟨nofun, fun h => by simp [h.named] at hnamed⟩
  rw [if_neg hnamed]
  by_cases hempty : d.expression = []
  · rw [if_pos (List.isEmpty_iff.2 hempty)]
    exact ⟨nofun, fun h => absurd hempty h.nonempty⟩
  rw [if_neg (mt List.isEmpty_iff.1 hempty)]
  by_cases hany : ∀ p ∈ d.expression, p.target ≠ .calculation u
  · rw [if_neg fun h => hself.1 h hany]
    cases hparse : Formula.parse d.outline with
    | ok tree =>
      exact ⟨fun _ => ⟨Bool.eq_false_iff.2 hnamed, hempty, hany, tree, hparse⟩, fun _ => rfl⟩
    | error e =>
      refine ⟨nofun, fun h => ?_⟩
      obtain ⟨tree, htree⟩ := h.parses
      rw [hparse] at htree
      contradiction
  · rw [if_pos (hself.2 hany)]
    exact ⟨nofun, fun h => absurd h.not_self hany⟩

/-- A draft of a calculation is well formed, or an operation of a run has not looked at it. -/
structure Episode.Admits (es : List Episode) (u : String) (d : Draft) : Prop where
  named : Text.isBlankText u = false
  wellFormed : d.WellFormed u ∨ ∃ e ∈ es, e.operation.StoresUnchecked u d

namespace Run

variable {es : List Episode} {held : List Calculation} {s t : Store}

theorem says_perform (h : Run es held s) {op : Operation} (ho : op.StartsFrom held) {log : Log}
    {rest : Program (Except LedgerError Outcome)} (hr : op.Reaches s log rest t)
    {p : String → Draft → Prop} (hp : s.Says p)
    (hdraft : ∀ x, op = .change x →
      x.skipsCheck = true ∨ x.draft.check x.uniqueId = .ok () → p x.uniqueId x.draft) :
    t.Says p := by
  by_cases hx : ∃ x, op = .change x
  · obtain ⟨x, rfl⟩ := hx
    cases hcheck : x.draft.check x.uniqueId with
    | ok _ =>
      exact Change.says_of_reaches h.sound.chained ho h.sound.held hp
        (hdraft x rfl (.inr hcheck)) hr
    | error fault =>
      cases hskips : x.skipsCheck with
      | true =>
        exact Change.says_of_reaches h.sound.chained ho h.sound.held hp
          (hdraft x rfl (.inl hskips)) hr
      | false =>
        obtain rfl := Change.eq_of_reaches_of_fault hskips hcheck hr
        exact hp
  · exact Program.Asks.of_reaches (fun t => t.Says p) (fun t r hr ht => ht.answer_plain hr) hr
      (op.plain fun x hop => hx ⟨x, hop⟩) hp

theorem admitted (h : Run es held s) :
    s.Says (Episode.Admits es) ∧ ∀ c ∈ held, Text.isBlankText c.uniqueId = false := by
  induction h with
  | start => exact ⟨fun c hc => absurd hc List.not_mem_nil, fun c hc => absurd hc List.not_mem_nil⟩
  | read c _ hc ih =>
    refine ⟨ih.1, fun b hb => ?_⟩
    rcases List.mem_cons.1 hb with rfl | hb
    · exact (ih.1 _ hc).named
    · exact ih.2 b hb
  | @perform es held s t op log result hrun ho hr ih =>
    refine ⟨hrun.says_perform ho hr (ih.1.mono fun u d hadmits => ⟨hadmits.named, ?_⟩) ?_, ih.2⟩
    · rcases hadmits.wellFormed with hwell | ⟨e, he, hunchecked⟩
      · exact .inl hwell
      · exact .inr ⟨e, List.mem_append_left _ he, hunchecked⟩
    · rintro x rfl (hskips | hcheck)
      · have hnamed : Text.isBlankText x.uniqueId = false := by
          cases x with
          | bumpFrom copy d => exact ih.2 copy ho
          | _ => contradiction
        exact ⟨hnamed, .inr ⟨_, List.mem_append_right _ List.mem_cons_self, hskips, rfl, rfl⟩⟩
      · have hwell := Draft.check_eq_ok_iff.1 hcheck
        exact ⟨hwell.named, .inl hwell⟩

end Run

def Store.Entered (s : Store) : Prop :=
  ∃ es, Run es [] s ∧ ∀ e ∈ es, ∀ u d, ¬ e.operation.StoresUnchecked u d

theorem Store.Entered.perform {s : Store} (h : s.Entered) (op : Operation) (ho : op.StartsFrom [])
    (hop : ∀ u d, ¬ op.StoresUnchecked u d) : (op.procedure.runOn s).2.Entered := by
  obtain ⟨es, hrun, hes⟩ := h
  obtain ⟨log, hreaches, _⟩ := Program.reaches_run (ExceptT.run op.procedure) s
  refine ⟨_, hrun.perform ho hreaches, fun e he => ?_⟩
  rcases List.mem_append.1 he with he | he
  · exact hes e he
  · obtain rfl := List.mem_singleton.1 he
    exact hop

namespace Procedure

variable {α β : Type}

/-- A procedure that does nothing to a store that operations could not do. -/
def Enters (p : Procedure α) : Prop := ∀ s : Store, s.Entered → (p.runOn s).2.Entered

theorem Enters.bind {p : Procedure α} {f : α → Procedure β} (hp : p.Enters)
    (hf : ∀ a, (f a).Enters) : (p >>= f).Enters := by
  intro s hs
  have ht := hp s hs
  rw [runOn_bind]
  cases hend : p.runOn s with
  | mk result t =>
    rw [hend] at ht
    cases result with
    | ok a => exact hf a t ht
    | error e => exact ht

theorem enters_of_same {p : Procedure α} (h : ∀ s, (p.runOn s).2 = s) : p.Enters := by
  intro s hs
  rw [h]
  exact hs

theorem enters_forM {f : α → Procedure PUnit} (hf : ∀ a, (f a).Enters) (as : List α) :
    (as.forM f).Enters := by
  induction as with
  | nil => exact enters_of_same fun s => rfl
  | cons a as ih => exact (hf a).bind fun _ => ih

theorem enters_mapM {f : α → Procedure β} (hf : ∀ a, (f a).Enters) (as : List α) :
    (as.mapM f).Enters := by
  induction as with
  | nil => exact enters_of_same fun s => rfl
  | cons a as ih =>
    rw [List.mapM_cons]
    exact (hf a).bind fun b => ih.bind fun bs => enters_of_same fun s => rfl

end Procedure

namespace Snapshot

open Versioning

theorem enters_createConstant (c : Constant) : (createConstant c).Enters := by
  intro s hs
  have h := hs.perform (.createConstant c) trivial fun _ _ => id
  rw [Operation.procedure, runOn_bind_pure] at h
  exact h

theorem enters_calculation (e : CalculationEntry) : e.enter.Enters := by
  rw [CalculationEntry.enter]
  cases e.draft with
  | error fault => exact enters_of_same fun s => rfl
  | ok d =>
    intro s hs
    have h := hs.perform (.change (.create e.uniqueId d)) trivial fun u d h => by
      simp [Operation.StoresUnchecked, Change.skipsCheck] at h
    rw [Operation.procedure, Change.procedure, runOn_bind_pure] at h
    dsimp only
    rw [runOn_bind_pure]
    exact h

theorem enters_report (e : ReportEntry) : e.enter.Enters := by
  refine (enters_mapM (fun u => enters_of_same fun s => by rw [runOn_latest]) _).bind fun rows => ?_
  intro s hs
  have h := hs.perform (.insertReport ⟨e.name, rows.map (·.id)⟩) trivial fun _ _ => id
  rw [Operation.procedure, runOn_bind_pure] at h
  exact h

theorem entered_of_build {snapshot : Snapshot} {s : Store} {sheets : Materials}
    (h : snapshot.build = .ok (s, sheets)) : s.Entered := by
  have henters : snapshot.enter.Enters :=
    (enters_forM enters_createConstant _).bind fun _ =>
      (enters_forM enters_calculation _).bind fun _ => enters_forM enters_report _
  have hempty : Store.empty.Entered := ⟨[], .start, fun e he => absurd he List.not_mem_nil⟩
  have hentered := henters _ hempty
  rw [build] at h
  cases hend : snapshot.enter.runOn Store.empty with
  | mk result t =>
    rw [hend] at h hentered
    cases result with
    | ok _ =>
      cases h
      exact hentered
    | error e => contradiction

end Snapshot

/-- After any run, whatever requests fail, every row has a unique id, and its draft is well formed
unless a version was stored with it after a row read before. A store that a snapshot is opened to is
left by a run that stores no such version, so all its rows are well formed. -/
theorem Run.rows_admitted (s : Store) :
    (∀ es held, Run es held s → ∀ c ∈ s.rows, Text.isBlankText c.uniqueId = false ∧
      (c.draft.WellFormed c.uniqueId ∨
        ∃ e ∈ es, ∃ copy, e.operation = .change (.bumpFrom copy c.draft) ∧
          copy.uniqueId = c.uniqueId)) ∧
    ∀ (snapshot : Snapshot) sheets, snapshot.build = .ok (s, sheets) →
      (∃ es, Run es [] s ∧ ∀ e ∈ es, ∀ copy d, e.operation ≠ .change (.bumpFrom copy d)) ∧
        ∀ c ∈ s.rows, c.draft.WellFormed c.uniqueId := by
  have hskips : ∀ (op : Operation) (u : String) (d : Draft), op.StoresUnchecked u d ↔
      ∃ copy, op = .change (.bumpFrom copy d) ∧ copy.uniqueId = u := by
    intro op u d
    cases op with
    | change x => cases x <;> simp [Operation.StoresUnchecked, Change.skipsCheck, Change.uniqueId,
        Change.draft, and_comm]
    | _ => simp [Operation.StoresUnchecked]
  constructor
  · intro es held h c hc
    obtain ⟨hnamed, hwell⟩ := h.admitted.1 c hc
    simp only [hskips] at hwell
    exact ⟨hnamed, hwell⟩
  · intro snapshot sheets h
    obtain ⟨es, hrun, hes⟩ := Snapshot.entered_of_build h
    refine ⟨⟨es, hrun, fun e he copy d heq => ?_⟩, fun c hc => ?_⟩
    · exact hes e he copy.uniqueId d ((hskips _ _ _).2 ⟨copy, heq, rfl⟩)
    · rcases (hrun.admitted.1 c hc).wellFormed with hwell | ⟨e, he, hunchecked⟩
      · exact hwell
      · exact absurd hunchecked (hes e he _ _)

namespace Run

def blankDraft : Draft := ⟨"USD", []⟩

def blankStore : Store :=
  ((Operation.change (.bumpFrom (firstRow true) blankDraft)).procedure.runOn (firstStore true)).2

theorem run_blankStore : ∃ es, Run es [firstRow true] blankStore := by
  have hcreated := Run.perform Run.start
    (show Operation.StartsFrom [] (.change (.create "a" plainDraft)) from trivial) create_reaches
  have hread := Run.read (firstRow true) hcreated List.mem_cons_self
  obtain ⟨e, _, hbumped⟩ := hread.runOn
    (show Operation.StartsFrom [firstRow true] (.change (.bumpFrom (firstRow true) blankDraft)) from
      List.mem_cons_self)
  exact ⟨_, hbumped⟩

theorem blank_mem_blankStore : ⟨2, "a", 2, true, blankDraft⟩ ∈ blankStore.rows := by decide +kernel

def sampleSnapshot : Snapshot where
  constants := []
  calculations := [⟨"a", "USD", [{ PointerRecord.bare "literal" with value := some "1" }]⟩]
  materials := []
  reports := [⟨"summary", ["a"]⟩]

/-- The version that says nothing is one that was not looked at, and the row that a snapshot is
opened to says something. -/
theorem rows_admitted_blank :
    (∃ es, Run es [firstRow true] blankStore ∧
      ∃ e ∈ es, ∃ copy, e.operation = .change (.bumpFrom copy blankDraft)) ∧
    ∃ s sheets, sampleSnapshot.build = .ok (s, sheets) ∧ s.rows ≠ [] ∧
      ∀ c ∈ s.rows, c.draft.WellFormed c.uniqueId := by
  constructor
  · obtain ⟨es, hrun⟩ := run_blankStore
    obtain ⟨_, hwell | ⟨e, he, copy, hop, _⟩⟩ :=
      (rows_admitted blankStore).1 _ _ hrun _ blank_mem_blankStore
    · exact absurd rfl hwell.nonempty
    · exact ⟨es, hrun, e, he, copy, hop⟩
  · have hopens : (sampleSnapshot.build.toOption.any fun r => !r.1.rows.isEmpty) = true := by
      decide +kernel
    cases hbuild : sampleSnapshot.build with
    | ok r =>
      rw [hbuild] at hopens
      exact ⟨r.1, r.2, rfl, by simpa [Except.toOption] using hopens,
        ((rows_admitted r.1).2 _ _ hbuild).2⟩
    | error e =>
      rw [hbuild] at hopens
      contradiction

/-- A row that says nothing is stored after a row that was read before. -/
theorem blank_row_stored : ∃ es held s, Run es held s ∧
    ∃ c ∈ s.rows, c.draft.check c.uniqueId = .error .empty := by
  obtain ⟨es, hrun⟩ := run_blankStore
  exact ⟨es, _, _, hrun, _, blank_mem_blankStore, by decide +kernel⟩

end Run

end FormulaLedger
