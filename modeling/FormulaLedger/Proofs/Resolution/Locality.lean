import FormulaLedger.Proofs.Resolution.Agreement
import FormulaLedger.Proofs.Resolution.Reasons

set_option autoImplicit false

namespace FormulaLedger

/-- What a pointer is resolved by is the same on two sides: the samples of a constant, or the sheet
of the company. A calculation is one of a set. -/
def Pointer.SeesAlike (company : Company) (store store' : Store) (sheets sheets' : Materials)
    (within : Set String) (p : Pointer) : Prop :=
  match p.target with
  | .literal _ => True
  | .constant k => (store.constant? k).map (·.samples) = (store'.constant? k).map (·.samples)
  | .calculation v => v ∈ within
  | .cell materialId _ _ | .aggregate materialId _ _ =>
    sheets.sheet? company materialId = sheets'.sheet? company materialId

theorem Setting.resolveConstant_congr (sheets sheets' : Materials) (company : Company)
    (options : Options) (k : String) {found found' : Option Constant}
    (h : found.map (·.samples) = found'.map (·.samples)) :
    (Setting.mk sheets company options).resolveConstant k (.ok found) =
      (Setting.mk sheets' company options).resolveConstant k (.ok found') := by
  cases found with
  | none =>
    cases found' with
    | none => rfl
    | some c' => contradiction
  | some c =>
    cases found' with
    | none => contradiction
    | some c' =>
      have hsamples : c.samples = c'.samples := Option.some.inj h
      have hfor : c.sampleFor? = c'.sampleFor? := by
        funext location
        rw [Constant.sampleFor?, hsamples, Constant.sampleFor?]
      have hresolve : c.resolve? = c'.resolve? := by
        funext location default
        rw [Constant.resolve?, hfor, Constant.resolve?]
      unfold resolveConstant
      dsimp only [Option.bind_some]
      rw [hresolve]
      rfl

namespace Store

/-- A calculation has no latest row on either side, or one of the same expression, whose pointers
are resolved by the same. -/
def ShowsAlike (company : Company) (store store' : Store) (sheets sheets' : Materials)
    (within : Set String) (u : String) : Prop :=
  store.latest? u = none ∧ store'.latest? u = none ∨
    ∃ c c', store.latest? u = some c ∧ store'.latest? u = some c' ∧
      c.expression = c'.expression ∧
      ∀ p ∈ c.expression, p.SeesAlike company store store' sheets sheets' within

section

variable {company : Company} {store store' : Store} {sheets sheets' : Materials}
  {within : Set String} (options : Options)

theorem resolved_congr {depth depth' : Nat} {path : List String} {p : Pointer}
    (hp : p.SeesAlike company store store' sheets sheets' within)
    (hshows : ∀ v ∈ within, ShowsAlike company store store' sheets sheets' within v)
    (henter : ∀ v ∈ within, ¬ path.contains v = true → ∀ c c', store.latest? v = some c →
      store'.latest? v = some c' →
      Id.run (evaluateWithin store.lookups ⟨sheets, company, options⟩ depth path c) =
        Id.run (evaluateWithin store'.lookups ⟨sheets', company, options⟩ depth' path c')) :
    store.resolved ⟨sheets, company, options⟩ depth path p =
      store'.resolved ⟨sheets', company, options⟩ depth' path p := by
  obtain ⟨label, target⟩ := p
  cases target with
  | literal text => rfl
  | constant k => exact Setting.resolveConstant_congr sheets sheets' company options k hp
  | calculation v =>
    rw [resolved_calculation _ _ _ _ rfl, resolved_calculation _ _ _ _ rfl]
    by_cases hpath : path.contains v = true
    · rw [if_pos hpath, if_pos hpath]
    · rw [if_neg hpath, if_neg hpath]
      obtain ⟨hnone, hnone'⟩ | ⟨c, c', hc, hc', _⟩ := hshows v hp
      · rw [hnone, hnone']
      · rw [hc, hc']
        dsimp only
        rw [henter v hp hpath c c' hc hc']
        rfl
  | cell materialId row column =>
    have hsheet : sheets.sheet? company materialId = sheets'.sheet? company materialId := hp
    change Setting.resolveCell _ _ _ _ = Setting.resolveCell _ _ _ _
    rw [Setting.resolveCell, hsheet, Setting.resolveCell]
  | aggregate materialId scope function =>
    have hsheet : sheets.sheet? company materialId = sheets'.sheet? company materialId := hp
    change Setting.resolveAggregate _ _ _ _ = Setting.resolveAggregate _ _ _ _
    rw [Setting.resolveAggregate, hsheet, Setting.resolveAggregate]

/-- The stores may have different numbers of rows, so each side has a depth of its own that is
enough for what it has not visited. -/
theorem evaluateWithin_congr
    (hshows : ∀ v ∈ within, ShowsAlike company store store' sheets sheets' within v)
    {depth depth' : Nat} {path : List String} {v : String} (hv : v ∈ within) {c c' : Calculation}
    (hc : store.latest? v = some c) (hc' : store'.latest? v = some c')
    (hdepth : store.unvisited (c.enter path) < depth)
    (hdepth' : store'.unvisited (c'.enter path) < depth') :
    Id.run (evaluateWithin store.lookups ⟨sheets, company, options⟩ depth path c) =
      Id.run (evaluateWithin store'.lookups ⟨sheets', company, options⟩ depth' path c') := by
  induction depth generalizing depth' path v c c' with
  | zero => omega
  | succ depth ih =>
    cases depth' with
    | zero => omega
    | succ depth' =>
      obtain ⟨_, hid⟩ := mem_of_latest? hc
      obtain ⟨_, hid'⟩ := mem_of_latest? hc'
      have henter : c'.enter path = c.enter path := by
        rw [Calculation.enter, hid', Calculation.enter, hid]
      rw [henter] at hdepth'
      obtain ⟨hnone, _⟩ | ⟨b, b', hb, hb', hsame, hpointers⟩ := hshows v hv
      · rw [hc] at hnone
        contradiction
      · obtain rfl := Option.some.inj (hc.symm.trans hb)
        obtain rfl := Option.some.inj (hc'.symm.trans hb')
        have hparts : ∀ p ∈ c.expression,
            store.resolved ⟨sheets, company, options⟩ depth (c.enter path) p =
              store'.resolved ⟨sheets', company, options⟩ depth' (c.enter path) p := by
          intro p hp
          refine resolved_congr options (hpointers p hp) hshows fun y hy hnew d d' hd hd' => ?_
          have hlt := unvisited_enter_lt hnew hd
          have hlt' := unvisited_enter_lt hnew hd'
          exact ih hy hd hd' (by omega) (by omega)
        have hresolved :
            c.expression.map (store.resolved ⟨sheets, company, options⟩ depth (c.enter path)) =
              c'.expression.map
                (store'.resolved ⟨sheets', company, options⟩ depth' (c'.enter path)) := by
          rw [henter, ← hsame]
          exact List.map_congr_left hparts
        rw [evaluateWithin_succ, evaluateWithin_succ, hresolved]

/-- An evaluation of the latest row comes to the same in two stores and two collections of sheets
that show alike a set of calculations with the one in question among them. Versions that are not the
latest, the numbers of rows, units, reports, the years of constants, and calculations outside the
set have no part in it, and neither has the wording of the reasons. -/
theorem evaluateLatest_local
    (hshows : ∀ v ∈ within, ShowsAlike company store store' sheets sheets' within v)
    {u : String} (hu : u ∈ within) :
    (store.evaluateLatest ⟨sheets, company, options⟩ u = .error (.calculationNotFound u) ∧
      store'.evaluateLatest ⟨sheets', company, options⟩ u = .error (.calculationNotFound u)) ∨
    ∃ e, store.evaluateLatest ⟨sheets, company, options⟩ u = .ok e ∧
      store'.evaluateLatest ⟨sheets', company, options⟩ u = .ok e := by
  obtain ⟨hnone, hnone'⟩ | ⟨c, c', hc, hc', _⟩ := hshows u hu
  · exact .inl ⟨evaluateLatest_of_none _ hnone, evaluateLatest_of_none _ hnone'⟩
  · have hdepth : ∀ (st : Store) (d : Calculation), st.unvisited (d.enter []) < st.depth :=
      fun st d => Nat.lt_succ_of_le List.countP_le_length
    have hrow : store.evaluateRow ⟨sheets, company, options⟩ c =
        store'.evaluateRow ⟨sheets', company, options⟩ c' :=
      evaluateWithin_congr options hshows hu hc hc' (hdepth store c) (hdepth store' c')
    refine .inr ⟨_, evaluateLatest_of_some _ hc, ?_⟩
    rw [hrow]
    exact evaluateLatest_of_some _ hc'

end

def stocked : Calculation :=
  ⟨3, "stocked", 1, true, "t", [.of (.aggregate "stock" (.row 0) .sum), .of (.literal "*"),
    .of (.calculation "share")]⟩

def stockedStore : Store := { crossed with rows := crossed.rows ++ [stocked] }

def stock : Sheet := ⟨"stock", [[.number 2, .number 3]]⟩

def stockSheets : Materials :=
  Materials.insert [] plainSetting.company.id plainSetting.company.period stock

/-- Another store and more sheets: later versions of the same expressions in other units, a
superseded one, another calculation, a constant with another year, and a report. -/
def restocked : Store where
  lastId := 9
  rows := [{ stocked with latest := false, draft := ⟨"t", []⟩ },
    { rest with id := 5, version := 4, draft := ⟨"kg", rest.expression⟩ },
    ⟨6, "profit", 1, true, "t", [.of (.calculation "stocked")]⟩, { share with id := 8 },
    { stocked with id := 9, version := 2 }]
  versions := []
  constants := [⟨"spare", 2024, "1", none, []⟩,
    ⟨"parts", 1999, "kg", some "counted", [⟨"default", 5⟩]⟩]
  reports := [⟨"summary", [3, 9]⟩]

def moreSheets : Materials :=
  stockSheets.insert "other" plainSetting.company.period ⟨"stock", []⟩

/-- The evaluation of the stock shows nothing of what has changed. -/
theorem evaluateLatest_local_restocked :
    (∀ v ∈ ({"stocked", "share", "rest"} : Set String),
      ShowsAlike plainSetting.company stockedStore restocked stockSheets moreSheets
        {"stocked", "share", "rest"} v) ∧
    ∃ e, stockedStore.evaluateLatest ⟨stockSheets, plainSetting.company, .standard⟩ "stocked" =
        .ok e ∧
      restocked.evaluateLatest ⟨moreSheets, plainSetting.company, .standard⟩ "stocked" = .ok e := by
  have hshows : ∀ v ∈ ({"stocked", "share", "rest"} : Set String),
      ShowsAlike plainSetting.company stockedStore restocked stockSheets moreSheets
        {"stocked", "share", "rest"} v := by
    rintro v (rfl | rfl | rfl)
    · refine .inr ⟨stocked, { stocked with id := 9, version := 2 }, by decide +kernel,
        by decide +kernel, rfl, ?_⟩
      simp only [stocked, Calculation.expression, List.forall_mem_cons]
      refine ⟨?_, trivial, .inr (.inl rfl), fun p hp => absurd hp List.not_mem_nil⟩
      change stockSheets.sheet? _ _ = moreSheets.sheet? _ _
      decide +kernel
    · refine .inr ⟨share, { share with id := 8 }, by decide +kernel, by decide +kernel, rfl, ?_⟩
      simp only [share, Calculation.expression, List.forall_mem_cons]
      refine ⟨trivial, .inr (.inr rfl), trivial, ?_, fun p hp => absurd hp List.not_mem_nil⟩
      change (stockedStore.constant? "parts").map (·.samples) =
        (restocked.constant? "parts").map (·.samples)
      decide +kernel
    · refine .inr ⟨rest, { rest with id := 5, version := 4, draft := ⟨"kg", rest.expression⟩ },
        by decide +kernel, by decide +kernel, rfl, ?_⟩
      simp only [rest, Calculation.expression, List.forall_mem_cons]
      refine ⟨trivial, ?_, trivial, .inr (.inl rfl), fun p hp => absurd hp List.not_mem_nil⟩
      change (stockedStore.constant? "parts").map (·.samples) =
        (restocked.constant? "parts").map (·.samples)
      decide +kernel
  refine ⟨hshows, (evaluateLatest_local .standard hshows (.inl rfl)).resolve_left ?_⟩
  rintro ⟨hmissing, _⟩
  have hlatest : stockedStore.latest? "stocked" = some stocked := by decide +kernel
  rw [evaluateLatest_of_some _ hlatest] at hmissing
  contradiction

end Store

end FormulaLedger
