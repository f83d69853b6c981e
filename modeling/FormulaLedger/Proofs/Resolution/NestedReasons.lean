import FormulaLedger.Proofs.Resolution.Agreement
import FormulaLedger.Proofs.Resolution.Requests

set_option autoImplicit false

namespace FormulaLedger

namespace Program

variable {α β γ δ : Type} {relate : α → β → Prop}

/-- The programs ask the same requests, whatever these are answered with, and end alike. -/
inductive Alike (relate : α → β → Prop) : Program α → Program β → Prop
  | done {a : α} {b : β} : relate a b → Alike relate (.done a) (.done b)
  | ask (r : Request) {next : r.Result → Program α} {next' : r.Result → Program β} :
      (∀ result, Alike relate (next result) (next' result)) →
      Alike relate (.ask r next) (.ask r next')

theorem alike_pure {a : α} {b : β} (h : relate a b) :
    Alike relate (pure a) (pure b) := .done h

theorem Alike.bind {relate' : γ → δ → Prop} {p : Program α} {q : Program β}
    {f : α → Program γ} {g : β → Program δ} (hpq : Alike relate p q)
    (hfg : ∀ a b, relate a b → Alike relate' (f a) (g b)) :
    Alike relate' (p >>= f) (q >>= g) := by
  induction hpq with
  | done hab => exact hfg _ _ hab
  | ask r _ ih => exact .ask r ih

theorem Alike.mapM {relate' : α → β → Prop} {f g : γ → Program _} (as : List γ)
    (h : ∀ a, Alike relate' (f a) (g a)) :
    Alike (List.Forall₂ relate') (as.mapM f) (as.mapM g) := by
  induction as with
  | nil => exact alike_pure .nil
  | cons a as ih =>
    rw [List.mapM_cons, List.mapM_cons]
    exact (h a).bind fun b c hbc => ih.bind fun bs cs hbcs => alike_pure (.cons hbc hbcs)

theorem Alike.runWith {p : Program α} {q : Program β} (h : Alike relate p q) {σ : Type}
    (answer : σ → (r : Request) → r.Result × σ) (s : σ) :
    relate (p.runWith answer s).1 (q.runWith answer s).1 ∧
      (p.runWith answer s).2 = (q.runWith answer s).2 := by
  induction h generalizing s with
  | done hab => exact ⟨hab, rfl⟩
  | ask r _ ih => exact ih (answer s r).1 (answer s r).2

end Program

/-- The same text, with some of the reasons left out. -/
structure Resolution.Curtails (short full : Resolution) : Prop where
  text : short.text = full.text
  reasons : short.reasons.Sublist full.reasons

structure Evaluation.Curtails (short full : Evaluation) : Prop where
  value : short.value = full.value
  reasons : short.reasons.Sublist full.reasons

theorem Resolution.Curtails.refl (r : Resolution) : r.Curtails r := ⟨rfl, .refl _⟩

theorem Resolution.curtails_join {parts parts' : List Resolution}
    (h : List.Forall₂ Curtails parts parts') : (join parts).Curtails (join parts') := by
  have htexts : parts.map (·.text) = parts'.map (·.text) := by
    induction h with
    | nil => rfl
    | cons hr _ ih => rw [List.map_cons, List.map_cons, hr.text, ih]
  have hreasons : (parts.flatMap (·.reasons)).Sublist (parts'.flatMap (·.reasons)) := by
    induction h with
    | nil => exact .slnil
    | cons hr _ ih => exact hr.reasons.append (ih (List.cons.inj htexts).2)
  rw [join, join, htexts]
  exact ⟨rfl, hreasons⟩

theorem Resolution.Curtails.evaluateText {r r' : Resolution} (h : r.Curtails r') :
    (evaluateText r.text r.reasons).Curtails (evaluateText r'.text r'.reasons) := by
  rw [FormulaLedger.evaluateText, FormulaLedger.evaluateText, h.text]
  cases Formula.valueOf r'.text with
  | ok value => exact ⟨rfl, h.reasons⟩
  | error f => exact ⟨rfl, h.reasons.append_right _⟩

namespace Setting

variable (s : Setting)

def showNested (shown : Bool) : Setting :=
  { s with options := { s.options with includeNestedReasons := shown } }

theorem curtails_resolveNested (uniqueId : String) {e e' : Evaluation} (h : e.Curtails e') :
    ((s.showNested false).resolveNested uniqueId e).Curtails
      ((s.showNested true).resolveNested uniqueId e') := by
  unfold resolveNested
  rw [h.value]
  cases e'.value with
  | number x => exact ⟨rfl, List.sublist_append_right _ _⟩
  | error => exact ⟨rfl, h.reasons⟩

theorem resolveNested_of_error (uniqueId : String) {e : Evaluation} (h : e.value = .error) :
    s.resolveNested uniqueId e = ⟨"0", e.reasons⟩ := by
  rw [resolveNested, h]

end Setting

section

variable (s : Setting)

theorem alike_resolvePointer {resolving : List String}
    {enter enter' : Calculation → Program Evaluation}
    (h : ∀ c, (enter c).Alike Evaluation.Curtails (enter' c)) (p : Pointer) :
    (resolvePointer Program.lookups (s.showNested false) resolving enter p).Alike
      Resolution.Curtails
      (resolvePointer Program.lookups (s.showNested true) resolving enter' p) := by
  obtain ⟨label, target⟩ := p
  cases target with
  | literal text => exact Program.alike_pure (.refl _)
  | constant uniqueId => exact .ask _ fun found => Program.alike_pure (.refl _)
  | cell materialId row column => exact Program.alike_pure (.refl _)
  | aggregate materialId scope function => exact Program.alike_pure (.refl _)
  | calculation uniqueId =>
    unfold resolvePointer
    dsimp only
    split
    · exact Program.alike_pure (.refl _)
    · refine .ask _ fun found => ?_
      cases found with
      | error e => exact Program.alike_pure (.refl _)
      | ok latest =>
        cases latest with
        | none => exact Program.alike_pure (.refl _)
        | some c =>
          exact (h c).bind fun e e' he =>
            Program.alike_pure (s.curtails_resolveNested uniqueId he)

theorem alike_resolveWith {resolving : List String}
    {enter enter' : Calculation → Program Evaluation}
    (h : ∀ c, (enter c).Alike Evaluation.Curtails (enter' c)) (ps : List Pointer) :
    (resolveWith Program.lookups (s.showNested false) resolving enter ps).Alike
      Resolution.Curtails (resolveWith Program.lookups (s.showNested true) resolving enter' ps) :=
  (Program.Alike.mapM ps (alike_resolvePointer s h)).bind fun _ _ hparts =>
    Program.alike_pure (Resolution.curtails_join hparts)

theorem alike_evaluateWithin (depth : Nat) (resolving : List String) (c : Calculation) :
    (evaluateWithin Program.lookups (s.showNested false) depth resolving c).Alike
      Evaluation.Curtails
      (evaluateWithin Program.lookups (s.showNested true) depth resolving c) := by
  induction depth generalizing resolving c with
  | zero => exact Program.alike_pure ⟨rfl, .refl _⟩
  | succ depth ih =>
    unfold evaluateWithin
    exact (alike_resolveWith s (ih _) c.expression).bind fun _ _ hr =>
      Program.alike_pure hr.evaluateText

end

namespace Setting

variable (s : Setting) (depth : Nat) (path : List String)

def resolving (ps : List Pointer) : Program Resolution :=
  resolveWith Program.lookups s path (evaluateWithin Program.lookups s depth path) ps

section

variable {s : Setting} {depth : Nat} {path : List String} {σ : Type}
  {answer : σ → (r : Request) → r.Result × σ} {st st₁ st₂ st₃ : σ}

theorem runWith_resolving (ps : List Pointer) :
    (s.resolving depth path ps).runWith answer st =
      let parts := (ps.mapM (resolvePointer Program.lookups s path
        (evaluateWithin Program.lookups s depth path))).runWith answer st
      (.join parts.1, parts.2) := by
  rw [resolving, resolveWith, Program.runWith_bind]
  rfl

theorem runWith_resolving_append {ps qs : List Pointer} {r r' : Resolution}
    (h : (s.resolving depth path ps).runWith answer st = (r, st₁))
    (h' : (s.resolving depth path qs).runWith answer st₁ = (r', st₂)) :
    ∃ text, (s.resolving depth path (ps ++ qs)).runWith answer st =
      (⟨text, r.reasons ++ r'.reasons⟩, st₂) := by
  rw [runWith_resolving] at h h' ⊢
  obtain ⟨rfl, rfl⟩ := Prod.mk.inj h
  obtain ⟨rfl, rfl⟩ := Prod.mk.inj h'
  rw [List.mapM_append, Program.runWith_bind, Program.runWith_bind]
  exact ⟨_, congrArg (fun reasons => (Resolution.mk _ reasons, _)) (List.flatMap_append ..)⟩

/-- A nested calculation without a value gives its reasons, whether others are shown or not. -/
theorem runWith_resolving_erring {p : Pointer} {uniqueId : String} {c : Calculation}
    {e : Evaluation} (htarget : p.target = .calculation uniqueId) (hpath : uniqueId ∉ path)
    (hlatest : answer st (.latest uniqueId) = (.ok (some c), st₁))
    (hnested : (evaluateWithin Program.lookups s depth path c).runWith answer st₁ = (e, st₂))
    (herror : e.value = .error) :
    ∃ text, (s.resolving depth path [p]).runWith answer st = (⟨text, e.reasons⟩, st₂) := by
  have hpointer : (resolvePointer Program.lookups s path
      (evaluateWithin Program.lookups s depth path) p).runWith answer st =
        (⟨"0", e.reasons⟩, st₂) := by
    rw [resolvePointer, htarget]
    dsimp only
    rw [if_neg (mt List.contains_iff_mem.1 hpath), Program.runWith_bind]
    have hlook : (Program.lookups.latest uniqueId).runWith answer st = (.ok (some c), st₁) :=
      hlatest
    rw [hlook]
    dsimp only
    rw [Program.runWith_bind, hnested, s.resolveNested_of_error uniqueId herror]
    rfl
  rw [runWith_resolving, List.mapM_cons, Program.runWith_bind, hpointer]
  exact ⟨_, congrArg (fun reasons => (Resolution.mk _ reasons, st₂)) (List.append_nil _)⟩

end

end Setting

/-- Whether the reasons of nested calculations are shown decides over nothing else. Whatever
answers the requests, failures included, pointers resolve to the same text and a row has the same
value, both ways leave what answers in the same state, and the reasons that are not shown are left
out from among those that are, in any wording. Those of a nested calculation without a value are
shown both ways, in the place of its pointer. -/
theorem Setting.showNested_cosmetic (s : Setting) (depth : Nat) (path : List String) :
    (∀ (σ : Type) (answer : σ → (r : Request) → r.Result × σ) (st : σ) (wording : Wording),
      (∀ ps : List Pointer,
        let run shown := ((s.showNested shown).resolving depth path ps).runWith answer st
        (run false).1.text = (run true).1.text ∧
          ((run false).1.reasons.map (Reason.text wording)).Sublist
            ((run true).1.reasons.map (Reason.text wording)) ∧
          (run false).2 = (run true).2) ∧
      ∀ c : Calculation,
        let run shown :=
          (evaluateWithin Program.lookups (s.showNested shown) depth path c).runWith answer st
        (run false).1.value = (run true).1.value ∧
          ((run false).1.texts wording).Sublist ((run true).1.texts wording) ∧
          (run false).2 = (run true).2) ∧
    (∀ (store : Store) (c : Calculation) (wording : Wording),
      (store.evaluateRow (s.showNested false) c).value =
          (store.evaluateRow (s.showNested true) c).value ∧
        ((store.evaluateRow (s.showNested false) c).texts wording).Sublist
          ((store.evaluateRow (s.showNested true) c).texts wording)) ∧
    ∀ (shown : Bool) (σ : Type) (answer : σ → (r : Request) → r.Result × σ)
      (st st₁ st₂ st₃ st₄ : σ) (before after : List Pointer) (p : Pointer) (uniqueId : String)
      (c : Calculation) (r r' : Resolution) (e : Evaluation),
      ((s.showNested shown).resolving depth path before).runWith answer st = (r, st₁) →
      p.target = .calculation uniqueId → uniqueId ∉ path →
      answer st₁ (.latest uniqueId) = (.ok (some c), st₂) →
      (evaluateWithin Program.lookups (s.showNested shown) depth path c).runWith answer st₂ =
        (e, st₃) →
      e.value = .error →
      ((s.showNested shown).resolving depth path after).runWith answer st₃ = (r', st₄) →
      ∃ text, ((s.showNested shown).resolving depth path (before ++ p :: after)).runWith answer st =
        (⟨text, r.reasons ++ (e.reasons ++ r'.reasons)⟩, st₄) := by
  refine ⟨fun σ answer st wording => ⟨fun ps => ?_, fun c => ?_⟩, fun store c wording => ?_, ?_⟩
  · obtain ⟨hcurtails, hstate⟩ :=
      (alike_resolveWith s (alike_evaluateWithin s depth path) ps).runWith answer st
    exact ⟨hcurtails.text, hcurtails.reasons.map _, hstate⟩
  · obtain ⟨hcurtails, hstate⟩ := (alike_evaluateWithin s depth path c).runWith answer st
    exact ⟨hcurtails.value, hcurtails.reasons.map _, hstate⟩
  · obtain ⟨hcurtails, _⟩ :=
      (alike_evaluateWithin s store.depth [] c).runWith Store.answer store
    rw [← Program.run, ← Program.run, run_evaluateWithin, run_evaluateWithin] at hcurtails
    exact ⟨hcurtails.value, hcurtails.reasons.map _⟩
  · intro shown σ answer st st₁ st₂ st₃ st₄ before after p uniqueId c r r' e hbefore htarget hpath
      hlatest hnested herror hafter
    obtain ⟨text, hp⟩ := Setting.runWith_resolving_erring htarget hpath hlatest hnested herror
    obtain ⟨text, hrest⟩ := Setting.runWith_resolving_append hp hafter
    exact Setting.runWith_resolving_append hbefore hrest

def Store.failing : Calculation :=
  ⟨3, "failing", 1, true, "t", [.of (.literal "1 /"), .of (.constant "none")]⟩

def Store.failingStore : Store := { crossed with rows := crossed.rows ++ [failing] }

/-- The cycle of the share goes unsaid, and the failure behind it does not. -/
theorem Setting.showNested_cosmetic_failing :
    let quiet := Store.plainSetting.showNested false
    let sum : List Pointer := [.of (.calculation "share"), .of (.literal "+")]
    let failure : List Reason :=
      [.about .constantUnresolved "none", .failure (.valueless .divisionByZero)]
    (quiet.resolving 4 [] sum).runWith Store.answer Store.failingStore =
      (⟨"(0-0.8) +", []⟩, Store.failingStore) ∧
    (evaluateWithin Program.lookups quiet 4 [] Store.failing).runWith Store.answer
      Store.failingStore = (⟨.error, failure⟩, Store.failingStore) ∧
    ∃ text, (quiet.resolving 4 [] (sum ++ [.of (.calculation "failing")])).runWith Store.answer
      Store.failingStore = (⟨text, failure⟩, Store.failingStore) := by
  intro quiet sum failure
  have hbefore : (quiet.resolving 4 [] sum).runWith Store.answer Store.failingStore =
      (⟨"(0-0.8) +", []⟩, Store.failingStore) := by decide +kernel
  have hnested : (evaluateWithin Program.lookups quiet 4 [] Store.failing).runWith Store.answer
      Store.failingStore = (⟨.error, failure⟩, Store.failingStore) := by decide +kernel
  have hafter : (quiet.resolving 4 [] []).runWith Store.answer Store.failingStore =
      (⟨"", []⟩, Store.failingStore) := by decide +kernel
  have hlatest : Store.failingStore.answer (.latest "failing") =
      (.ok (some Store.failing), Store.failingStore) := by rfl
  refine ⟨hbefore, hnested, ?_⟩
  exact (Setting.showNested_cosmetic Store.plainSetting 4 []).2.2 false Store Store.answer
    _ _ _ _ _ sum [] _ "failing" Store.failing _ _ _ hbefore rfl (by simp) hlatest hnested rfl
    hafter

end FormulaLedger
