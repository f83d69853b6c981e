import FormulaLedger.Proofs.Procedure.Discipline
import FormulaLedger.Proofs.Store.Request
import FormulaLedger.Versioning

/-!
Changes of a calculation, and the discipline they keep. A change stores a row at most once. It
inserts the first version, or it freezes the latest row and inserts the next version after it. From
the freeze to the insertion nobody else can touch the calculation's rows, so a change that has
frozen a row stores the next version or puts the row back, unless requests fail by themselves.
-/

set_option autoImplicit false

namespace FormulaLedger

inductive Change
  | create (uniqueId : String) (draft : Draft)
  | bump (uniqueId : String) (draft : Draft)
  | bumpFrom (copy : Calculation) (draft : Draft)
  | edit (uniqueId : String) (draft : Draft)

inductive Outcome
  | stored (id : RowId)
  | edited (outcome : EditOutcome)
  | removed (count : Nat)
  | done
  deriving DecidableEq, Repr

def Outcome.newRow? : Outcome → Option RowId
  | .stored id => some id
  | .edited (.versioned _ current _ _) => some current
  | .edited (.inPlace _) | .removed _ | .done => none

namespace Change

def uniqueId : Change → String
  | .create u _ | .bump u _ | .edit u _ => u
  | .bumpFrom copy _ => copy.uniqueId

def draft : Change → Draft
  | .create _ d | .bump _ d | .bumpFrom _ d | .edit _ d => d

def isBump : Change → Bool
  | .create _ _ => false
  | .bump _ _ | .bumpFrom _ _ | .edit _ _ => true

/-- A version is stored after a row only when the row was read before. -/
def StartsFrom (held : List Calculation) : Change → Prop
  | .bumpFrom copy _ => copy ∈ held
  | _ => True

def procedure : Change → Procedure Outcome
  | .create u d => do return .stored (← Versioning.createCalculation u d)
  | .bump u d => do return .stored (← Versioning.bumpVersion u d)
  | .bumpFrom copy d => do return .stored (← Versioning.bumpFrom copy d)
  | .edit u d => do return .edited (← Versioning.editCalculation u d)

end Change

/-- How far a change has come: it has frozen a row and not yet stored the next version, or it has
stored its row. -/
inductive Phase
  | idle
  | frozen (id : RowId)
  | stored (id : RowId)
  deriving DecidableEq, Repr

namespace Phase

/-- A freeze counts when the row was the latest before, and an insertion when it succeeds. A frozen
row that is made the latest again is not frozen any more. -/
def after (p : Phase) : Exchange → Phase
  | .answered (.setLatest id false) (.ok true) =>
    match p with
    | .idle => .frozen id
    | p => p
  | .answered (.setLatest _ true) (.ok _) =>
    match p with
    | .frozen _ => .idle
    | p => p
  | .answered (.insertRow _) (.ok id) => .stored id
  | _ => p

def stored? : Phase → Option RowId
  | .stored id => some id
  | _ => none

def isFrozen : Phase → Bool
  | .frozen _ => true
  | _ => false

@[simp] theorem after_failed (p : Phase) (r : Request) (e : StoreError) :
    p.after (.failed r e) = p := rfl

theorem after_of_isRead (p : Phase) {r : Request} (h : r.isRead = true) (a : r.Result) :
    p.after (.answered r a) = p := by
  cases r <;> trivial

theorem after_refused (p : Phase) (r : Request) (e : StoreError) :
    p.after (.answered r (.error e)) = p := by
  cases r with
  | setLatest id latest => cases latest <;> rfl
  | _ => rfl

theorem after_stored (id : RowId) (x : Exchange) : ∃ new, (stored id).after x = .stored new := by
  unfold after
  split <;> exact ⟨_, rfl⟩

end Phase

def Log.phase (log : Log) : Phase := log.foldl Phase.after .idle

@[simp] theorem Log.phase_append (log : Log) (x : Exchange) :
    Log.phase (log ++ [x]) = (Log.phase log).after x := by
  simp [Log.phase]

/-- A log that ends with a lost freeze: the insertion after the freeze failed, and so did one of the
two requests that were to put the frozen row back. -/
inductive Abandons (uniqueId : String) : Log → Prop
  | lookup (before : Log) (row : NewRow) (e e' : StoreError) : row.uniqueId = uniqueId →
      Abandons uniqueId (before ++ [.failed (.insertRow row) e, .failed (.latest uniqueId) e'])
  | restore (before : Log) (row : NewRow) (id : RowId) (e e' : StoreError) :
      row.uniqueId = uniqueId →
      Abandons uniqueId (before ++ [.failed (.insertRow row) e,
        .answered (.latest uniqueId) (.ok none), .failed (.setLatest id true) e'])

theorem Abandons.faultless {uniqueId : String} {log : Log} (h : Abandons uniqueId log) :
    log.faultless = false := by
  cases h <;> simp [Log.faultless, Exchange.isFailure]

/-- What others may have done to a store while a change of a calculation is under way: no id was
given twice, no report was taken away, and frozen rows were left alone. -/
structure Later (uniqueId : String) (p : Phase) (s t : Store) : Prop where
  chained : t.Chained
  ids : s.KeepsIds t
  reports : s.KeepsReports t
  frozen : p.isFrozen = true → t.revisions uniqueId = s.revisions uniqueId

theorem Later.refl {uniqueId : String} {p : Phase} {s : Store} (h : s.Chained) :
    Later uniqueId p s s :=
  ⟨h, .refl s, List.prefix_refl _, fun _ => rfl⟩

theorem Later.trans {uniqueId : String} {p : Phase} {s t r : Store} (h : Later uniqueId p s t)
    (h' : Later uniqueId p t r) : Later uniqueId p s r :=
  ⟨h'.chained, h.ids.trans h'.ids, h.reports.trans h'.reports,
    fun hp => (h'.frozen hp).trans (h.frozen hp)⟩

namespace Change

inductive Allows (x : Change) : Phase → Store → Request → Prop
  | read {p : Phase} {s : Store} {r : Request} : r.isRead = true → Allows x p s r
  | updateReport {p : Phase} {s : Store} (r : Report) : Allows x p s (.updateReport r)
  | updateLatest {s : Store} (id : RowId) : (∀ d ∈ s.rows, d.id = id → d.uniqueId = x.uniqueId) →
      Allows x .idle s (.updateLatest id x.draft)
  | freeze {s : Store} (id : RowId) : (∀ d ∈ s.rows, d.id = id → d.uniqueId = x.uniqueId) →
      Allows x .idle s (.setLatest id false)
  | insertFirst {s : Store} : Allows x .idle s (.insertRow (.first x.uniqueId x.draft))
  | insertNext {s : Store} (id : RowId) (version : Nat) :
      version = (s.revisions x.uniqueId).length + 1 →
      Allows x (.frozen id) s (.insertRow ⟨x.uniqueId, version, true, x.draft⟩)
  | restore {s : Store} (id : RowId) : (∀ d ∈ s.rows, d.id = id → d.uniqueId = x.uniqueId ∧
      d.version = (s.revisions x.uniqueId).length) → Allows x (.frozen id) s (.setLatest id true)

def discipline (x : Change) : Discipline where
  allowed log s r := x.Allows (Log.phase log) s r
  meantime log s t := Later x.uniqueId (Log.phase log) s t

/-- How a change ends: with a frozen row only when it lost the freeze, and with the row that it
stored when no request failed by itself. -/
def Ends (x : Change) (result : Except LedgerError Outcome) (log : Log) : Prop :=
  ((Log.phase log).isFrozen = true → x.isBump = true ∧ Abandons x.uniqueId log) ∧
    (Log.faultless log = true →
      (Log.phase log).stored? = result.toOption.bind Outcome.newRow?)

end Change

end FormulaLedger
