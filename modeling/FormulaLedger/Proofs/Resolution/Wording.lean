import FormulaLedger.Proofs.Resolution.Reasons
import FormulaLedger.Proofs.Resolution.Requests

/-!
The wording of reasons. An evaluation can word each reason where it comes upon it and pass on
nothing but texts, or keep the causes and word them at the end. Both come to the same, so no text is
worded twice or left as it is, and nothing that is decided on the way depends on the wording.
-/

set_option autoImplicit false

namespace FormulaLedger

/-- The reason in words, which no wording changes any more. -/
def Reason.said (wording : Wording) (reason : Reason) : Reason := .stated (reason.text wording)

def Resolution.said (wording : Wording) (r : Resolution) : Resolution :=
  { r with reasons := r.reasons.map (Reason.said wording) }

def Evaluation.said (wording : Wording) (e : Evaluation) : Evaluation :=
  { e with reasons := e.reasons.map (Reason.said wording) }

def ReportRow.said (wording : Wording) (row : ReportRow) : ReportRow :=
  { row with evaluation := row.evaluation.said wording }

def ReportEvaluation.said (wording : Wording) (e : ReportEvaluation) : ReportEvaluation :=
  { e with rows := e.rows.map (ReportRow.said wording) }

namespace Wording

section

variable (wording : Wording)

def sayNested (s : Setting) (uniqueId : String) (nested : Evaluation) : Resolution :=
  match nested.value with
  | .number x =>
    let operand := (Resolution.ofNumber x uniqueId).said wording
    ⟨operand.text,
      (if s.options.includeNestedReasons then nested.reasons else []) ++ operand.reasons⟩
  | .error => ⟨"0", nested.reasons⟩

def sayText (text : String) (reasons : List Reason) : Evaluation :=
  match Formula.valueOf text with
  | .ok value => ⟨.number value, reasons⟩
  | .error f => ⟨.error, reasons ++ [.stated (wording f.message)]⟩

def sayStale (e : Evaluation) (c : Calculation) : Evaluation :=
  if c.latest then e
  else { e with reasons := e.reasons ++ [.stated (wording Oddity.staleRevision.key ++ ": " ++
    (c.uniqueId ++ " v" ++ toString c.version))] }

end

section

variable {m : Type → Type} [Monad m] (wording : Wording) (look : Lookups m) (s : Setting)

/-- Resolves one pointer. What is odd about the operand itself is put into words at once. -/
def sayPointer (resolving : List String) (enter : Calculation → m Evaluation) (p : Pointer) :
    m Resolution :=
  match p.target with
  | .literal text => pure ⟨text, []⟩
  | .constant uniqueId => do
    let found ← look.constant uniqueId
    return (s.resolveConstant uniqueId found).said wording
  | .calculation uniqueId =>
    if resolving.contains uniqueId then pure ((Resolution.zero .cycle uniqueId).said wording)
    else do
      match ← look.latest uniqueId with
      | .error _ => return (Resolution.zero .lookupFailed uniqueId).said wording
      | .ok none => return (Resolution.zero .calculationUnresolved uniqueId).said wording
      | .ok (some c) => return wording.sayNested s uniqueId (← enter c)
  | .cell materialId row column => pure ((s.resolveCell materialId row column).said wording)
  | .aggregate materialId scope function =>
    pure ((s.resolveAggregate materialId scope function).said wording)

def sayWithin : Nat → List String → Calculation → m Evaluation
  | 0, _, c => pure ⟨.error, [(Reason.about .cycle c.uniqueId).said wording]⟩
  | depth + 1, resolving, c => do
    let inside := if resolving.contains c.uniqueId then resolving else c.uniqueId :: resolving
    let parts ← c.expression.mapM (sayPointer wording look s inside (sayWithin depth inside))
    let r := Resolution.join parts
    return wording.sayText r.text r.reasons

def sayLatest (depth : Nat) (uniqueId : String) : ExceptT LedgerError m Evaluation := do
  let c ← Calculator.found (look.latest uniqueId) (.calculationNotFound uniqueId)
  (sayWithin wording look s depth [] c : m Evaluation)

def sayRows (depth : Nat) (rows : List ReportRow) (stats : ReportStats) :
    List RowId → ExceptT LedgerError m (List ReportRow × ReportStats)
  | [] => return (rows, stats)
  | id :: ids => do
    match ← (look.row id : m _) with
    | .error e => throw (.ofStore e)
    | .ok none =>
      let missing := { stats with missing := stats.missing + 1 }
      let row : ReportRow := ⟨id, none, ⟨.error,
        [.stated (wording Oddity.rowMissing.key ++ ": " ++ rowName id)]⟩⟩
      sayRows depth (if s.options.skipMissingRows then rows else rows ++ [row]) missing ids
    | .ok (some c) =>
      let plain ← (sayWithin wording look s depth [] c : m Evaluation)
      let e := wording.sayStale plain c
      sayRows depth (rows ++ [⟨id, some ⟨c.uniqueId, c.version, c.unit⟩, e⟩]) (stats.count e) ids

def sayReport (depth : Nat) (name : String) : ExceptT LedgerError m ReportEvaluation := do
  let report ← Calculator.found (look.report name) (.reportNotFound name)
  let (rows, stats) ← sayRows wording look s depth [] .zero report.rows
  return ⟨report.name, rows, stats⟩

end

section

variable (wording : Wording)

theorem said_join (parts : List Resolution) :
    (Resolution.join parts).said wording = .join (parts.map (Resolution.said wording)) := by
  simp [Resolution.join, Resolution.said, List.map_flatMap, List.flatMap_map, Function.comp_def]

theorem sayText_said (r : Resolution) :
    wording.sayText (r.said wording).text (r.said wording).reasons =
      (evaluateText r.text r.reasons).said wording := by
  unfold sayText evaluateText Resolution.said
  dsimp only
  cases Formula.valueOf r.text with
  | ok value => rfl
  | error f => simp [Evaluation.said, Reason.said, Reason.text]

theorem sayNested_said (s : Setting) (uniqueId : String) (e : Evaluation) :
    wording.sayNested s uniqueId (e.said wording) =
      (s.resolveNested uniqueId e).said wording := by
  unfold sayNested Setting.resolveNested Evaluation.said
  dsimp only
  cases e.value with
  | error => rfl
  | number x =>
    cases s.options.includeNestedReasons with
    | true => simp [Resolution.said]
    | false => rfl

theorem sayStale_said (e : Evaluation) (c : Calculation) :
    wording.sayStale (e.said wording) c = (e.noteStale c).said wording := by
  unfold sayStale Evaluation.noteStale
  split
  · rfl
  · simp [Evaluation.said, Reason.said, Reason.text]

theorem count_said (stats : ReportStats) (e : Evaluation) :
    stats.count (e.said wording) = stats.count e := by
  have hempty : (e.reasons.map (Reason.said wording)).isEmpty = e.reasons.isEmpty := by simp
  unfold ReportStats.count Evaluation.said
  dsimp only
  rw [hempty]

end

section

variable {m : Type → Type} [Monad m] [LawfulMonad m] (wording : Wording) (look : Lookups m)
  (s : Setting)

theorem mapM_map_eq {α β γ : Type} (f : β → γ) {g : α → m β} {h : α → m γ}
    (hgh : ∀ a, h a = f <$> g a) (as : List α) : as.mapM h = List.map f <$> as.mapM g := by
  induction as with
  | nil => simp
  | cons a as ih => simp [List.mapM_cons, hgh, ih]

theorem sayPointer_eq {resolving : List String} {enter enter' : Calculation → m Evaluation}
    (h : ∀ c, enter' c = Evaluation.said wording <$> enter c) (p : Pointer) :
    wording.sayPointer look s resolving enter' p =
      Resolution.said wording <$> resolvePointer look s resolving enter p := by
  obtain ⟨label, target⟩ := p
  cases target with
  | literal text => simp [sayPointer, resolvePointer, Resolution.said]
  | constant uniqueId => simp [sayPointer, resolvePointer]
  | cell materialId row column => simp [sayPointer, resolvePointer]
  | aggregate materialId scope function => simp [sayPointer, resolvePointer]
  | calculation uniqueId =>
    unfold sayPointer resolvePointer
    dsimp only
    split
    · simp
    · rw [map_bind]
      refine bind_congr fun found => ?_
      cases found with
      | error e => simp
      | ok latest =>
        cases latest with
        | none => simp
        | some c => simp [h, sayNested_said]

theorem sayWithin_eq (depth : Nat) (resolving : List String) (c : Calculation) :
    wording.sayWithin look s depth resolving c =
      Evaluation.said wording <$> evaluateWithin look s depth resolving c := by
  induction depth generalizing resolving c with
  | zero => simp [sayWithin, evaluateWithin, Evaluation.said]
  | succ depth ih =>
    unfold sayWithin evaluateWithin resolveWith
    dsimp only
    rw [mapM_map_eq (Resolution.said wording) (sayPointer_eq wording look s (ih _))]
    simp [← said_join, sayText_said]

theorem lift_sayWithin (depth : Nat) (c : Calculation) :
    ((wording.sayWithin look s depth [] c : m Evaluation) : ExceptT LedgerError m Evaluation) =
      Evaluation.said wording <$>
        ((Calculator.evaluateRow look s depth c : m Evaluation) : ExceptT LedgerError m _) := by
  rw [sayWithin_eq]
  apply ExceptT.ext
  simp [Calculator.evaluateRow]

theorem sayLatest_eq (depth : Nat) (uniqueId : String) :
    wording.sayLatest look s depth uniqueId =
      Evaluation.said wording <$> Calculator.evaluateLatest look s depth uniqueId := by
  unfold sayLatest Calculator.evaluateLatest
  rw [map_bind]
  exact bind_congr fun c => lift_sayWithin wording look s depth c

theorem sayRows_eq (depth : Nat) (rows : List ReportRow) (stats : ReportStats)
    (ids : List RowId) :
    wording.sayRows look s depth (rows.map (ReportRow.said wording)) stats ids =
      (fun found => (found.1.map (ReportRow.said wording), found.2)) <$>
        Calculator.evaluateRows look s depth rows stats ids := by
  induction ids generalizing rows stats with
  | nil => simp [sayRows, Calculator.evaluateRows]
  | cons id ids ih =>
    unfold sayRows Calculator.evaluateRows
    rw [map_bind]
    refine bind_congr fun found => ?_
    cases found with
    | error e =>
      apply ExceptT.ext
      simp
    | ok row =>
      cases row with
      | none =>
        dsimp only
        rw [← ih]
        cases s.options.skipMissingRows with
        | true => rfl
        | false => simp [ReportRow.said, Evaluation.said, Reason.said, Reason.text]
      | some c =>
        dsimp only
        rw [lift_sayWithin, map_bind, bind_map_left]
        refine bind_congr fun e => ?_
        rw [← ih, sayStale_said, count_said]
        simp [ReportRow.said]

theorem sayReport_eq (depth : Nat) (name : String) :
    wording.sayReport look s depth name =
      ReportEvaluation.said wording <$> Calculator.evaluateReport look s depth name := by
  unfold sayReport Calculator.evaluateReport
  rw [map_bind]
  refine bind_congr fun report => ?_
  have hrows := sayRows_eq wording look s depth [] .zero report.rows
  rw [List.map_nil] at hrows
  rw [hrows]
  simp [ReportEvaluation.said]

end

end Wording

def Reason.Found : Reason → Prop
  | .stated _ => False
  | _ => True

def Evaluation.Found (e : Evaluation) : Prop := ∀ reason ∈ e.reasons, reason.Found

section

variable (s : Setting)

theorem always_found_evaluateWithin (depth : Nat) (resolving : List String) (c : Calculation) :
    (evaluateWithin Program.lookups s depth resolving c).Always Evaluation.Found := by
  refine (always_arises_evaluateWithin s depth resolving c).mono fun e he reason hmem => ?_
  have harises := he reason hmem
  cases reason with
  | stated text => exact harises
  | about oddity subject => trivial
  | failure f => trivial

theorem Evaluation.Found.noteStale {e : Evaluation} (h : e.Found) (c : Calculation) :
    (e.noteStale c).Found := by
  unfold Evaluation.noteStale
  split
  · exact h
  · intro reason hmem
    rcases List.mem_append.1 hmem with hmem | hmem
    · exact h reason hmem
    · obtain rfl := List.mem_singleton.1 hmem
      trivial

theorem always_found_evaluateLatest (depth : Nat) (uniqueId : String) :
    (ExceptT.run (Calculator.evaluateLatest Program.lookups s depth uniqueId)).Always
      fun x => ∀ e, x = .ok e → e.Found := by
  intro found
  cases found with
  | error e => exact Program.always_pure fun e he => by contradiction
  | ok latest =>
    cases latest with
    | none => exact Program.always_pure fun e he => by contradiction
    | some c =>
      refine (always_found_evaluateWithin s depth [] c).bind fun e he => ?_
      exact Program.always_pure fun e' he' => Except.ok.inj he' ▸ he

theorem always_found_evaluateRows (depth : Nat) (rows : List ReportRow) (stats : ReportStats)
    (ids : List RowId) (hrows : ∀ row ∈ rows, row.evaluation.Found) :
    (ExceptT.run (Calculator.evaluateRows Program.lookups s depth rows stats ids)).Always
      fun x => ∀ found, x = .ok found → ∀ row ∈ found.1, row.evaluation.Found := by
  induction ids generalizing rows stats with
  | nil => exact Program.always_pure fun found hfound => Except.ok.inj hfound ▸ hrows
  | cons id ids ih =>
    intro found
    cases found with
    | error e => exact Program.always_pure fun e he => by contradiction
    | ok row =>
      cases row with
      | none =>
        refine ih _ _ fun row hrow => ?_
        split at hrow
        · exact hrows row hrow
        · rcases List.mem_append.1 hrow with hrow | hrow
          · exact hrows row hrow
          · obtain rfl := List.mem_singleton.1 hrow
            intro reason hmem
            obtain rfl := List.mem_singleton.1 hmem
            trivial
      | some c =>
        refine (always_found_evaluateWithin s depth [] c).lift_bind fun e he => ?_
        refine ih _ _ fun row hrow => ?_
        rcases List.mem_append.1 hrow with hrow | hrow
        · exact hrows row hrow
        · obtain rfl := List.mem_singleton.1 hrow
          exact he.noteStale c

theorem always_found_evaluateReport (depth : Nat) (name : String) :
    (ExceptT.run (Calculator.evaluateReport Program.lookups s depth name)).Always
      fun x => ∀ e, x = .ok e → ∀ row ∈ e.rows, row.evaluation.Found := by
  intro found
  cases found with
  | error e => exact Program.always_pure fun e he => by contradiction
  | ok report =>
    cases report with
    | none => exact Program.always_pure fun e he => by contradiction
    | some r =>
      have hrows := always_found_evaluateRows s depth [] .zero r.rows fun row hrow => by
        contradiction
      refine hrows.bind fun x hx => ?_
      cases x with
      | error e => exact Program.always_pure fun e he => by contradiction
      | ok found => exact Program.always_pure fun e he => Except.ok.inj he ▸ hx found rfl

end

/-- One reason in two wordings: the key of an oddity is worded and its subject is not, and of a
failure the whole message is. -/
inductive Wording.Rewords (wording : Wording) : Reason → Reason → Prop
  | about (oddity : Oddity) (subject : String) :
    wording.Rewords (.stated (oddity.key ++ ": " ++ subject))
      (.stated (wording oddity.key ++ ": " ++ subject))
  | failure (f : Formula.Failure) :
    wording.Rewords (.stated f.message) (.stated (wording f.message))

theorem Reason.Found.rewords {reason : Reason} (h : reason.Found) (wording : Wording) :
    wording.Rewords (reason.said .plain) (reason.said wording) := by
  cases reason with
  | about oddity subject => exact .about oddity subject
  | failure f => exact .failure f
  | stated text => exact h.elim

namespace Wording

variable (wording : Wording)

structure RewordsEvaluation (e worded : Evaluation) : Prop where
  value : worded.value = e.value
  reasons : List.Forall₂ wording.Rewords e.reasons worded.reasons

structure RewordsRow (row worded : ReportRow) : Prop where
  id : worded.id = row.id
  identity : worded.identity = row.identity
  evaluation : wording.RewordsEvaluation row.evaluation worded.evaluation

structure RewordsReport (e worded : ReportEvaluation) : Prop where
  report : worded.report = e.report
  stats : worded.stats = e.stats
  rows : List.Forall₂ wording.RewordsRow e.rows worded.rows

theorem rewordsEvaluation_said {e : Evaluation} (h : e.Found) :
    wording.RewordsEvaluation (e.said .plain) (e.said wording) where
  value := rfl
  reasons := List.forall₂_map_left_iff.2 <| List.forall₂_map_right_iff.2 <|
    List.forall₂_same.2 fun reason hmem => (h reason hmem).rewords wording

theorem rewordsReport_said {e : ReportEvaluation} (h : ∀ row ∈ e.rows, row.evaluation.Found) :
    wording.RewordsReport (e.said .plain) (e.said wording) where
  report := rfl
  stats := rfl
  rows := List.forall₂_map_left_iff.2 <| List.forall₂_map_right_iff.2 <|
    List.forall₂_same.2 fun row hmem => ⟨rfl, rfl, wording.rewordsEvaluation_said (h row hmem)⟩

end Wording

inductive SameEnd {α : Type} (relate : α → α → Prop) :
    Except LedgerError α → Except LedgerError α → Prop
  | failed (e : LedgerError) : SameEnd relate (.error e) (.error e)
  | ended {a b : α} (h : relate a b) : SameEnd relate (.ok a) (.ok b)

theorem SameEnd.map {α : Type} {relate : α → α → Prop} {f g : α → α} {x : Except LedgerError α}
    (h : ∀ a, x = .ok a → relate (f a) (g a)) : SameEnd relate (x.map f) (x.map g) := by
  cases x with
  | error e => exact .failed e
  | ok a => exact .ended (h a rfl)

structure SameRun {α σ : Type} (relate : α → α → Prop) (answer : σ → (r : Request) → r.Result × σ)
    (st : σ) (p q : Procedure α) : Prop where
  state : ((ExceptT.run q).runWith answer st).2 = ((ExceptT.run p).runWith answer st).2
  result : SameEnd relate ((ExceptT.run p).runWith answer st).1
    ((ExceptT.run q).runWith answer st).1

theorem runWith_map {α σ : Type} (f : α → α) (p : Procedure α)
    (answer : σ → (r : Request) → r.Result × σ) (st : σ) :
    (ExceptT.run (f <$> p)).runWith answer st =
      (((ExceptT.run p).runWith answer st).1.map f, ((ExceptT.run p).runWith answer st).2) := by
  rw [ExceptT.run_map, map_eq_pure_bind, Program.runWith_bind]
  rfl

theorem SameRun.map {α σ : Type} {relate : α → α → Prop} {f g : α → α} {p : Procedure α}
    (h : (ExceptT.run p).Always fun x => ∀ a, x = .ok a → relate (f a) (g a))
    (answer : σ → (r : Request) → r.Result × σ) (st : σ) :
    SameRun relate answer st (f <$> p) (g <$> p) := by
  constructor
  · rw [runWith_map, runWith_map]
  · rw [runWith_map, runWith_map]
    exact .map (h.runWith answer st)

theorem Program.Always.runOn {α : Type} {post : Except LedgerError α → Prop} {p : Procedure α}
    (h : (ExceptT.run p).Always post) (store : Store) : post (p.runOn store).1 :=
  h.runWith Store.answer store

/-- Whatever a store answers, and whether or not it fails, evaluations in some wording and in the
plain one come to the same, but for the keys of the reasons, and those are worded once. To word each
reason where it is found or all of them at the end makes no difference. -/
theorem Wording.keys_worded_once (wording : Wording) (s : Setting) :
    (∀ depth uniqueId,
      (∀ w : Wording, w.sayLatest Program.lookups s depth uniqueId =
        Evaluation.said w <$> Calculator.evaluateLatest Program.lookups s depth uniqueId) ∧
      ∀ {σ : Type} (answer : σ → (r : Request) → r.Result × σ) (st : σ),
        SameRun wording.RewordsEvaluation answer st
          (Wording.plain.sayLatest Program.lookups s depth uniqueId)
          (wording.sayLatest Program.lookups s depth uniqueId)) ∧
    (∀ depth name,
      (∀ w : Wording, w.sayReport Program.lookups s depth name =
        ReportEvaluation.said w <$> Calculator.evaluateReport Program.lookups s depth name) ∧
      ∀ {σ : Type} (answer : σ → (r : Request) → r.Result × σ) (st : σ),
        SameRun wording.RewordsReport answer st
          (Wording.plain.sayReport Program.lookups s depth name)
          (wording.sayReport Program.lookups s depth name)) ∧
    ∀ store : Store,
      (∀ uniqueId, SameEnd wording.RewordsEvaluation
        ((store.evaluateLatest s uniqueId).map (Evaluation.said .plain))
        ((store.evaluateLatest s uniqueId).map (Evaluation.said wording))) ∧
      ∀ name, SameEnd wording.RewordsReport
        ((store.evaluateReport s name).map (ReportEvaluation.said .plain))
        ((store.evaluateReport s name).map (ReportEvaluation.said wording)) := by
  have hlatest (depth : Nat) (uniqueId : String) :
      (ExceptT.run (Calculator.evaluateLatest Program.lookups s depth uniqueId)).Always fun x =>
        ∀ e, x = .ok e → wording.RewordsEvaluation (e.said .plain) (e.said wording) :=
    (always_found_evaluateLatest s depth uniqueId).mono fun x hx e he =>
      wording.rewordsEvaluation_said (hx e he)
  have hreport (depth : Nat) (name : String) :
      (ExceptT.run (Calculator.evaluateReport Program.lookups s depth name)).Always fun x =>
        ∀ e, x = .ok e → wording.RewordsReport (e.said .plain) (e.said wording) :=
    (always_found_evaluateReport s depth name).mono fun x hx e he =>
      wording.rewordsReport_said (hx e he)
  refine ⟨fun depth uniqueId => ⟨fun w => w.sayLatest_eq _ s depth uniqueId, fun answer st => ?_⟩,
    fun depth name => ⟨fun w => w.sayReport_eq _ s depth name, fun answer st => ?_⟩,
    fun store => ⟨fun uniqueId => .map ?_, fun name => .map ?_⟩⟩
  · rw [sayLatest_eq, sayLatest_eq]
    exact .map (hlatest depth uniqueId) answer st
  · rw [sayReport_eq, sayReport_eq]
    exact .map (hreport depth name) answer st
  · have hrun := (hlatest store.depth uniqueId).runOn store
    rw [runOn_evaluateLatest] at hrun
    exact hrun
  · have hrun := (hreport store.depth name).runOn store
    rw [runOn_evaluateReport] at hrun
    exact hrun

end FormulaLedger
