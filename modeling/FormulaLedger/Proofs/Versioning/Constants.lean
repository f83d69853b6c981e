import FormulaLedger.Proofs.Versioning.Identity

set_option autoImplicit false

namespace FormulaLedger

open Procedure Versioning

namespace Store

variable {s : Store} {k x : String} {c old : Constant}

def RefersTo (s : Store) (x k : String) : Prop :=
  ∃ d ∈ s.latestRows, d.uniqueId = x ∧ ∃ p ∈ d.expression, p.target = .constant k

theorem mem_referring_iff_refersTo : x ∈ s.referring .constant k ↔ s.RefersTo x k := by
  rw [mem_referring, and_iff_left fun hkind => by contradiction]
  simp only [Calculation.mem_entities, Pointer.entity?_eq_some_iff]
  rfl

def Replaceable (s : Store) (k : String) (old c : Constant) : Prop :=
  c.uniqueId = k ∧ c.unit = old.unit ∨ ∀ x, ¬ s.RefersTo x k

theorem replaceable_iff (hold : s.constant? k = some old) : s.Replaceable k old c ↔
    old.identity = c.identity ∨ s.referring .constant k = [] := by
  have hsame : old.identity = c.identity ↔ c.uniqueId = k ∧ c.unit = old.unit := by
    rw [Constant.identity, uniqueId_of_constant? hold, Constant.identity, Identity.mk.injEq,
      eq_comm, eq_comm (a := old.unit)]
  rw [hsame, List.eq_nil_iff_forall_not_mem]
  simp only [mem_referring_iff_refersTo]
  rfl

def Free (s : Store) (k v : String) : Prop := v = k ∨ s.constant? v = none

def replace (s : Store) (k : String) (c : Constant) : Store :=
  { s with constants := s.constants.map fun old => if old.uniqueId = k then c else old }

theorem updateConstant_eq_replace (hold : s.constant? k = some old) (hfree : s.Free k c.uniqueId) :
    s.updateConstant k c = .ok (s.replace k c) :=
  updateConstant_eq_ok_iff.2 ⟨⟨old, hold⟩, hfree, rfl⟩

theorem Orderly.replace_eq (hs : s.Orderly) (hold : s.constant? k = some old) (c : Constant) :
    ∃ before after, s.constants = before ++ old :: after ∧
      s.replace k c = { s with constants := before ++ c :: after } := by
  obtain ⟨before, after, heq, hother⟩ := hs.constants_split hold
  have hsame : ∀ cs ⊆ before ++ after,
      cs.map (fun d => if d.uniqueId = k then c else d) = cs := fun cs hcs =>
    (List.map_congr_left fun d hd => if_neg (hother d (hcs hd))).trans (List.map_id _)
  refine ⟨before, after, heq, ?_⟩
  rw [replace, heq, List.map_append, List.map_cons, if_pos (uniqueId_of_constant? hold),
    hsame before (List.subset_append_left _ _), hsame after (List.subset_append_right _ _)]

inductive EditsConstant (s : Store) (k : String) (c : Constant) :
    Except LedgerError Unit × Store → Prop
  | missing : s.constant? k = none → EditsConstant s k c (.error (.constantNotFound k), s)
  | referenced {old : Constant} : s.constant? k = some old → ¬ s.Replaceable k old c →
      EditsConstant s k c
        (.error (.referenced .constant k ((s.referring .constant k).map .calculation)), s)
  | taken {old : Constant} : s.constant? k = some old → s.Replaceable k old c →
      ¬ s.Free k c.uniqueId →
      EditsConstant s k c (.error (.alreadyExists .constant c.uniqueId), s)
  | done {old : Constant} : s.constant? k = some old → s.Replaceable k old c →
      s.Free k c.uniqueId → EditsConstant s k c (.ok (), s.replace k c)

theorem editsConstant (s : Store) (k : String) (c : Constant) :
    s.EditsConstant k c ((editConstant k c).runOn s) := by
  rw [runOn_editConstant]
  cases hold : s.constant? k with
  | none => exact .missing hold
  | some old =>
    dsimp only
    split
    · next hguard =>
      have hguard := (replaceable_iff hold).2 hguard
      by_cases hfree : s.Free k c.uniqueId
      · have hupdate : s.answer (.updateConstant k c) = (.ok (), s.replace k c) := by
          rw [answer, updateConstant_eq_replace hold hfree]
          rfl
        rw [runOn_ask_of_ok hupdate]
        exact .done hold hguard hfree
      · have hupdate : s.answer (.updateConstant k c) =
            (.error (.duplicateConstant c.uniqueId), s) := by
          obtain ⟨hne, htaken⟩ := not_or.1 hfree
          rw [answer, updateConstant, hold, Option.isNone_some, if_neg Bool.false_ne_true,
            if_pos ⟨hne, Option.isSome_iff_ne_none.2 htaken⟩]
          rfl
        rw [runOn_ask_of_error hupdate]
        exact .taken hold hguard hfree
    · next hguard => exact .referenced hold (mt (replaceable_iff hold).1 hguard)

namespace EditsConstant

variable {t : Store} {ended : Except LedgerError Unit × Store} {e : LedgerError}

theorem done_iff (h : s.EditsConstant k c ended) : (∃ t, ended = (.ok (), t)) ↔
    ∃ old, s.constant? k = some old ∧ s.Replaceable k old c ∧ s.Free k c.uniqueId := by
  cases h with
  | missing hnone =>
    rw [hnone]
    exact iff_of_false nofun nofun
  | referenced hold hkept =>
    refine iff_of_false nofun ?_
    rintro ⟨_, hfound, hguard, _⟩
    obtain rfl := Option.some.inj (hold.symm.trans hfound)
    exact hkept hguard
  | taken hold hguard htaken => exact iff_of_false nofun fun ⟨_, _, _, hfree⟩ => htaken hfree
  | done hold hguard hfree => exact iff_of_true ⟨_, rfl⟩ ⟨_, hold, hguard, hfree⟩

theorem eq_replace (h : s.EditsConstant k c (.ok (), t)) : t = s.replace k c := by
  cases h with
  | done _ _ _ => rfl

theorem refused (h : s.EditsConstant k c (.error e, t)) : t = s ∧
    (s.constant? k = none ∧ e = .constantNotFound k ∨
      (∃ old, s.constant? k = some old ∧ ¬ (c.uniqueId = k ∧ c.unit = old.unit)) ∧
        (∃ R : List String, R ≠ [] ∧ R.Pairwise (· < ·) ∧ (∀ x, x ∈ R ↔ s.RefersTo x k) ∧
          e = .referenced .constant k (R.map .calculation)) ∨
      (∃ old, s.constant? k = some old) ∧ (∀ x, ¬ s.RefersTo x k) ∧ c.uniqueId ≠ k ∧
        (∃ other, s.constant? c.uniqueId = some other) ∧
        e = .alreadyExists .constant c.uniqueId) := by
  cases h with
  | missing hnone => exact ⟨rfl, .inl ⟨hnone, rfl⟩⟩
  | @referenced old hold hkept =>
    have hreferred : s.referring .constant k ≠ [] := fun hnil =>
      hkept ((replaceable_iff hold).2 (.inr hnil))
    refine ⟨rfl, .inr (.inl ⟨⟨old, hold, fun hsame => hkept (.inl hsame)⟩, _, hreferred, ?_⟩)⟩
    exact ⟨pairwise_referring, fun x => mem_referring_iff_refersTo, rfl⟩
  | @taken old hold hguard htaken =>
    obtain ⟨hne, hother⟩ := not_or.1 htaken
    have hnone : ∀ x, ¬ s.RefersTo x k := hguard.resolve_left fun hsame => hne hsame.1
    exact ⟨rfl, .inr (.inr ⟨⟨old, hold⟩, hnone, hne, Option.ne_none_iff_exists'.1 hother, rfl⟩)⟩

end EditsConstant

/-- An edit of a constant on any store that requests have led to. It is done exactly if the constant
is found, keeps its unique id and unit or is not referred to, and no other constant has the new id.
It then puts the new constant in the place of the old one and touches nothing else. A refusal gives
the first of these reasons, with all calculations that refer to the constant, and changes nothing.
-/
theorem Past.editConstant_exact {log : Log} (h : Past log s) (k : String) (c : Constant) :
    ((∃ t, (editConstant k c).runOn s = (.ok (), t)) ↔
      ∃ old, s.constant? k = some old ∧
        (c.uniqueId = k ∧ c.unit = old.unit ∨ ∀ x, ¬ s.RefersTo x k) ∧
        (c.uniqueId = k ∨ s.constant? c.uniqueId = none)) ∧
    (∀ t, (editConstant k c).runOn s = (.ok (), t) →
      (∃ before old after, old.uniqueId = k ∧ s.constants = before ++ old :: after ∧
        t = { s with constants := before ++ c :: after }) ∧
      t.constant? c.uniqueId = some c ∧ (c.uniqueId ≠ k → t.constant? k = none) ∧
      (∀ v, v ≠ k → v ≠ c.uniqueId → t.constant? v = s.constant? v) ∧
      t.constants.length = s.constants.length) ∧
    ∀ e t, (editConstant k c).runOn s = (.error e, t) → t = s ∧
      (s.constant? k = none ∧ e = .constantNotFound k ∨
        (∃ old, s.constant? k = some old ∧ ¬ (c.uniqueId = k ∧ c.unit = old.unit)) ∧
          (∃ R : List String, R ≠ [] ∧ R.Pairwise (· < ·) ∧ (∀ x, x ∈ R ↔ s.RefersTo x k) ∧
            e = .referenced .constant k (R.map .calculation)) ∨
        (∃ old, s.constant? k = some old) ∧ (∀ x, ¬ s.RefersTo x k) ∧ c.uniqueId ≠ k ∧
          (∃ other, s.constant? c.uniqueId = some other) ∧
          e = .alreadyExists .constant c.uniqueId) := by
  have hedits := s.editsConstant k c
  refine ⟨hedits.done_iff, fun t hdone => ?_, fun e t hrefused => ?_⟩
  · obtain ⟨old, hold, _, hfree⟩ := hedits.done_iff.1 ⟨t, hdone⟩
    rw [hdone] at hedits
    obtain rfl := hedits.eq_replace
    have hlookup := constant?_updateConstant (updateConstant_eq_replace hold hfree)
    obtain ⟨before, after, heq, hreplace⟩ := h.orderly.replace_eq hold c
    refine ⟨⟨before, old, after, uniqueId_of_constant? hold, heq, hreplace⟩, ?_, fun hne => ?_,
      fun v hvk hvc => ?_, List.length_map _⟩
    · rw [hlookup, if_pos rfl]
    · rw [hlookup, if_neg (Ne.symm hne), if_pos rfl]
    · rw [hlookup, if_neg hvc, if_neg hvk]
  · rw [hrefused] at hedits
    exact hedits.refused

end Store

namespace Run

theorem past {es : List Episode} {held : List Calculation} {s : Store} (h : Run es held s) :
    ∃ log, Store.Past log s := by
  have hanswer : ∀ (s : Store) (r : Request), (∃ log, Store.Past log s) →
      ∃ log, Store.Past log (s.answer r).2 := fun _ r ⟨_, hpast⟩ => ⟨_, hpast.ask r⟩
  induction h with
  | start => exact ⟨[], .start⟩
  | read _ _ _ ih => exact ih
  | perform _ _ hr ih => exact hr.kept hanswer ih

def tariffStore : Store :=
  { lastId := 1
    rows := [⟨1, "price", 1, true, ⟨"", [.of (.constant "rate")]⟩⟩]
    versions := [(("price", 1), 1)]
    constants := [⟨"rate", 2024, "%", none, []⟩, ⟨"fee", 2024, "EUR", none, []⟩,
      ⟨"tax", 2024, "EUR", none, []⟩]
    reports := [] }

theorem run_tariffStore : ∃ es, Run es [] tariffStore := by
  let ops : List Operation := [.createConstant ⟨"rate", 2024, "%", none, []⟩,
    .createConstant ⟨"fee", 2024, "EUR", none, []⟩, .createConstant ⟨"tax", 2024, "EUR", none, []⟩,
    .change (.create "price" ⟨"", [.of (.constant "rate")]⟩)]
  have hops : ∀ op ∈ ops, op.StartsFrom [] := by
    simp [ops, Operation.StartsFrom, Change.StartsFrom]
  have hstore : ops.foldl (fun s op => (op.procedure.runOn s).2) Store.empty = tariffStore := by
    decide +kernel
  rw [← hstore]
  exact Run.start.runOn_all hops

theorem not_refersTo_fee (x : String) : ¬ tariffStore.RefersTo x "fee" := by
  rintro ⟨d, hd, _, p, hp, htarget⟩
  have hnone : ∀ d ∈ tariffStore.latestRows, ∀ p ∈ d.expression, p.target ≠ .constant "fee" := by
    decide +kernel
  exact hnone d hd p hp htarget

/-- The constant that is referred to gets another year, but no other unit. One that is not referred
to gets a new unique id, but not that of another. -/
theorem editConstant_exact_tariff : ∃ log, Store.Past log tariffStore ∧
    (∃ t, (editConstant "rate" ⟨"rate", 2025, "%", none, []⟩).runOn tariffStore = (.ok (), t) ∧
      t.constant? "rate" = some ⟨"rate", 2025, "%", none, []⟩) ∧
    (∀ t, (editConstant "rate" ⟨"rate", 2024, "", none, []⟩).runOn tariffStore ≠ (.ok (), t)) ∧
    (∃ t, (editConstant "fee" ⟨"toll", 2024, "USD", none, []⟩).runOn tariffStore = (.ok (), t) ∧
      t.constant? "toll" = some ⟨"toll", 2024, "USD", none, []⟩ ∧ t.constant? "fee" = none ∧
      t.constants.length = 3) ∧
    ∀ t, (editConstant "fee" ⟨"tax", 2024, "EUR", none, []⟩).runOn tariffStore ≠ (.ok (), t) := by
  obtain ⟨es, hrun⟩ := run_tariffStore
  obtain ⟨log, hpast⟩ := hrun.past
  refine ⟨log, hpast, ?_, fun t ht => ?_, ?_, fun t ht => ?_⟩
  · obtain ⟨hiff, heffect, _⟩ := hpast.editConstant_exact "rate" ⟨"rate", 2025, "%", none, []⟩
    obtain ⟨t, ht⟩ := hiff.2 ⟨_, rfl, .inl ⟨rfl, rfl⟩, .inl rfl⟩
    exact ⟨t, ht, (heffect t ht).2.1⟩
  · obtain ⟨old, hold, hguard, _⟩ :=
      (hpast.editConstant_exact "rate" ⟨"rate", 2024, "", none, []⟩).1.1 ⟨t, ht⟩
    obtain rfl := Option.some.inj hold
    refine hguard.elim (fun hsame => by simp at hsame) fun hnone => hnone "price" ?_
    exact ⟨_, List.mem_cons_self, rfl, _, List.mem_cons_self, rfl⟩
  · obtain ⟨hiff, heffect, _⟩ := hpast.editConstant_exact "fee" ⟨"toll", 2024, "USD", none, []⟩
    obtain ⟨t, ht⟩ := hiff.2 ⟨_, rfl, .inr not_refersTo_fee, .inr rfl⟩
    obtain ⟨_, hnew, hgone, _, hlength⟩ := heffect t ht
    exact ⟨t, ht, hnew, hgone (by decide), hlength⟩
  · obtain ⟨_, _, _, hfree⟩ :=
      (hpast.editConstant_exact "fee" ⟨"tax", 2024, "EUR", none, []⟩).1.1 ⟨t, ht⟩
    exact absurd hfree (by decide +kernel)

end Run

end FormulaLedger
