import FormulaLedger.Proofs.Procedure.Ending
import FormulaLedger.Proofs.Versioning.Redirection

set_option autoImplicit false

namespace FormulaLedger

theorem Report.replace_replace {r : Report} {old new : RowId} (hne : old ≠ new) :
    (r.replace old new).replace old new = r.replace old new :=
  replace_of_not_mem (not_mem_replace hne)

@[simp] theorem Log.faultless_cons (x : Exchange) (log : Log) :
    Log.faultless (x :: log) = (!x.isFailure && Log.faultless log) := by
  rw [faultless, faultless, List.any_cons, Bool.not_or]

namespace Store

variable {s t : Store} {old new : RowId} {done left : List Report}

def listing (s : Store) (old : RowId) : List Report := s.reports.filter fun r => old ∈ r.rows

theorem reportsListing_eq (s : Store) (old : RowId) : s.reportsListing [old] = s.listing old :=
  s.reportsListing_singleton old

def redirectedIn (s : Store) (done : List Report) (old new : RowId) : Store :=
  { s with reports := s.reports.map fun r => if r ∈ done then r.replace old new else r }

/-- `new` stands in every place of `old` in the reports in `done`, and nothing else is changed: no
other entry, no name, place or length of a report, and no row or constant. -/
structure Redirection (s : Store) (old new : RowId) (done : List Report) (t : Store) : Prop where
  lastId : t.lastId = s.lastId
  rows : t.rows = s.rows
  versions : t.versions = s.versions
  constants : t.constants = s.constants
  reports : List.Forall₂ (fun r q : Report => q.name = r.name ∧
    List.Forall₂ (fun id id' => id' = if r ∈ done ∧ id = old then new else id) r.rows q.rows)
      s.reports t.reports

theorem redirection_redirectedIn (s : Store) (old new : RowId) (done : List Report) :
    s.Redirection old new done (s.redirectedIn done old new) where
  lastId := rfl
  rows := rfl
  versions := rfl
  constants := rfl
  reports := by
    refine List.forall₂_map_right_iff.2 (List.forall₂_same.2 fun r _ => ?_)
    by_cases hr : r ∈ done
    · simp [hr, Report.replace, List.forall₂_map_right_iff, List.forall₂_same]
    · simp [hr, List.forall₂_same]

theorem redirectedIn_nil (s : Store) (old new : RowId) : s.redirectedIn [] old new = s := by
  simp [redirectedIn]

theorem redirectedIn_of_listing (h : ∀ r ∈ s.listing old, r ∈ done) :
    s.redirectedIn done old new = s.redirected old new := by
  rw [redirectedIn, redirected]
  congr 1
  refine List.map_congr_left fun r hr => ?_
  split
  · rfl
  · next hnot =>
    refine (Report.replace_of_not_mem fun hold => hnot (h r ?_)).symm
    exact List.mem_filter.2 ⟨hr, decide_eq_true hold⟩

theorem redirected_redirectedIn (hne : old ≠ new) :
    (s.redirectedIn done old new).redirected old new = s.redirected old new := by
  rw [redirectedIn, redirected, redirected, List.map_map]
  congr 1
  refine List.map_congr_left fun r _ => ?_
  rw [Function.comp_apply]
  split
  · exact Report.replace_replace hne
  · rfl

theorem reportNames_redirectedIn (s : Store) (done : List Report) (old new : RowId) :
    (s.redirectedIn done old new).reportNames = s.reportNames := by
  rw [reportNames, redirectedIn, List.map_map]
  refine List.map_congr_left fun r _ => ?_
  rw [Function.comp_apply]
  split
  · exact Report.name_replace
  · rfl

theorem Named.redirectedIn (hs : s.Named) : (s.redirectedIn done old new).Named := by
  rw [Named, reportNames_redirectedIn]
  exact hs

theorem Named.nodup_listing (hs : s.Named) : (s.listing old).Nodup :=
  hs.of_map.filter _

theorem length_listing_redirectedIn (hs : s.Named) (hne : old ≠ new)
    (hlisting : s.listing old = done ++ left) :
    ((s.redirectedIn done old new).listing old).length = left.length := by
  have hstill : ∀ r : Report, (old ∈ (if r ∈ done then r.replace old new else r).rows) ↔
      r ∉ done ∧ old ∈ r.rows := by
    intro r
    by_cases hr : r ∈ done
    · simp [hr, Report.not_mem_replace hne]
    · simp [hr]
  have hnodup : (s.listing old).Nodup := hs.nodup_listing
  rw [hlisting, List.nodup_append'] at hnodup
  have hdone : done.filter (· ∉ done) = [] := by simp
  have hleft : left.filter (· ∉ done) = left :=
    List.filter_eq_self.2 fun r hr => by simpa using fun hmem => hnodup.2.2 hmem hr
  rw [listing, redirectedIn, List.filter_map, List.length_map]
  simp only [Function.comp_def, hstill, Bool.decide_and]
  rw [← List.filter_filter, ← listing, hlisting, List.filter_append, hdone, hleft, List.nil_append]

theorem answer_updateReport_redirectedIn (hs : s.Named) {r : Report} (hlists : r ∈ s.listing old) :
    (s.redirectedIn done old new).answer (.updateReport (r.replace old new)) =
      (.ok (), s.redirectedIn (done ++ [r]) old new) := by
  have hr := (List.mem_filter.1 hlists).1
  have hname : (r.replace old new).name ∈ (s.redirectedIn done old new).reportNames := by
    rw [reportNames_redirectedIn]
    exact List.mem_map.2 ⟨r, hr, rfl⟩
  rw [answer_updateReport_of_mem hname]
  refine Prod.ext rfl (congrArg (fun reports => { s with reports }) ?_)
  rw [redirectedIn, List.map_map]
  refine List.map_congr_left fun q hq => ?_
  by_cases heq : q = r
  · subst heq
    by_cases hmem : q ∈ done
    · simp [hmem, Report.name_replace]
    · simp [hmem, Report.name_replace]
  · have hother : q.name ≠ r.name := fun h => heq (hs.eq_of_name hq hr h)
    by_cases hmem : q ∈ done
    · simp [hmem, Report.name_replace, hother]
    · simp [hmem, heq, Report.name_replace, hother]

end Store

namespace Versioning

open Procedure

variable {s t : Store} {old new : RowId} {log : Log} {done left : List Report}

def updates (old new : RowId) (rs : List Report) : Log :=
  rs.map fun r => .answered (.updateReport (r.replace old new)) (.ok ())

theorem redirectEach_cons {r : Report} (hr : r ∈ s.listing old) (new : RowId)
    (left : List Report) : redirectEach old new (r :: left) = (do
      ask (.updateReport (r.replace old new))
      let count ← redirectEach old new left
      return count + 1) :=
  if_pos (List.contains_iff_mem.2 (by simpa using (List.mem_filter.1 hr).2))

/-- How the updates of the reports in `left` end after those in `done`: all are made, or one
fails. -/
theorem redirectEach_ends (hs : s.Named) (hleft : ∀ r ∈ left, r ∈ s.listing old)
    {result : Except LedgerError Nat}
    (h : (redirectEach old new left).Ends (s.redirectedIn done old new) log result t) :
    log.faultless = true ∧ result = .ok left.length ∧ t = s.redirectedIn (done ++ left) old new ∨
      ∃ more r rest e, left = more ++ r :: rest ∧ result = .error (.ofStore e) ∧
        log = updates old new more ++ [.failed (.updateReport (r.replace old new)) e] ∧
        t = s.redirectedIn (done ++ more) old new := by
  induction left generalizing done log result with
  | nil =>
    obtain ⟨rfl, rfl, rfl⟩ := ends_pure_iff.1 h
    exact .inl ⟨rfl, rfl, by rw [List.append_nil]⟩
  | cons r left ih =>
    have hr := hleft r List.mem_cons_self
    have hanswer : (s.redirectedIn done old new).answer (.updateReport (r.replace old new)) =
        (.ok (), s.redirectedIn (done ++ [r]) old new) :=
      Store.answer_updateReport_redirectedIn hs hr
    rw [redirectEach_cons hr] at h
    rcases h.of_bind with ⟨e, rfl, hupdate⟩ | ⟨_, m, before, after, rfl, hupdate, hrest⟩
    · rcases hupdate.of_ask hanswer with ⟨_, herror, _⟩ | ⟨e, rfl, herror, rfl⟩
      · contradiction
      · exact .inr ⟨[], r, left, e, rfl, by rw [Except.error.inj herror], rfl,
          by rw [List.append_nil]⟩
    · rcases hupdate.of_ask hanswer with ⟨rfl, _, rfl⟩ | ⟨_, _, hok, _⟩
      · have hleft : ∀ q ∈ left, q ∈ s.listing old :=
          fun q hq => hleft q (List.mem_cons_of_mem _ hq)
        rcases hrest.of_bind with ⟨e, rfl, herror⟩ | ⟨count, m, before, after, rfl, hdone, hend⟩
        · rcases ih hleft herror with ⟨_, hok, _⟩ | ⟨more, q, rest, e, rfl, hresult, rfl, rfl⟩
          · contradiction
          · exact .inr ⟨r :: more, q, rest, e, rfl, hresult, rfl, by rw [List.append_assoc]; rfl⟩
        · obtain ⟨rfl, rfl, rfl⟩ := ends_pure_iff.1 hend
          rcases ih hleft hdone with ⟨hfaultless, hcount, rfl⟩ | ⟨_, _, _, _, _, herror, _⟩
          · refine .inl ⟨?_, ?_, by rw [List.append_assoc]; rfl⟩
            · rw [List.append_nil]
              exact hfaultless
            · rw [Except.ok.inj hcount, List.length_cons]
          · contradiction
      · contradiction

theorem redirectEach_stops (hs : s.Named) (new : RowId) (done : List Report)
    {more rest : List Report} {r : Report}
    (hleft : ∀ q ∈ more ++ r :: rest, q ∈ s.listing old) (e : StoreError) :
    (redirectEach old new (more ++ r :: rest)).Ends (s.redirectedIn done old new)
      (updates old new more ++ [.failed (.updateReport (r.replace old new)) e])
      (.error (.ofStore e)) (s.redirectedIn (done ++ more) old new) := by
  induction more generalizing done with
  | nil =>
    rw [List.nil_append, redirectEach_cons (hleft r List.mem_cons_self), List.append_nil]
    exact (ends_ask_of_failed _ e _).bind_error
  | cons q more ih =>
    have hq := hleft q List.mem_cons_self
    have hrest := ih (done ++ [q]) fun p hp => hleft p (List.mem_cons_of_mem _ hp)
    rw [List.append_assoc] at hrest
    rw [List.cons_append, redirectEach_cons hq]
    exact (ends_ask_of_ok (Store.answer_updateReport_redirectedIn hs hq)).bind_ok
      hrest.bind_error

/-- Where a redirection stops, with the reports that are redirected and those that are left: when
the reports cannot be listed, or at the update of one of them. -/
inductive Stops (s : Store) (old new : RowId) :
    List Report → List Report → StoreError → Log → Prop
  | unlisted (e : StoreError) :
      Stops s old new [] (s.listing old) e [.failed (.reportsListing [old]) e]
  | update (done : List Report) (r : Report) (rest : List Report) (e : StoreError) :
      s.listing old = done ++ r :: rest →
      Stops s old new done (r :: rest) e (.answered (.reportsListing [old]) (.ok (s.listing old)) ::
        (updates old new done ++ [.failed (.updateReport (r.replace old new)) e]))

theorem Stops.listing_eq {e : StoreError} (h : Stops s old new done left e log) :
    s.listing old = done ++ left := by
  cases h with
  | unlisted => rfl
  | update done r rest e hlisting => exact hlisting

theorem answer_listing (s : Store) (old : RowId) :
    s.answer (.reportsListing [old]) = (.ok (s.listing old), s) := by
  rw [Store.answer, Store.reportsListing_eq]

theorem redirectReports_ends (hs : s.Named) (hne : old ≠ new) {result : Except LedgerError Nat}
    (h : (redirectReports old new).Ends s log result t) (hlog : log.faultless = false) :
    ∃ done left e, Stops s old new done left e log ∧ result = .error (.ofStore e) ∧
      t = s.redirectedIn done old new := by
  rw [redirectReports, if_neg hne] at h
  rcases h.of_bind with ⟨e, rfl, hlist⟩ | ⟨reports, m, before, after, rfl, hlist, hrest⟩
  · rcases hlist.of_ask (answer_listing s old) with ⟨_, herror, _⟩ | ⟨e, rfl, herror, rfl⟩
    · contradiction
    · exact ⟨[], _, e, .unlisted e, by rw [Except.error.inj herror],
        (Store.redirectedIn_nil _ _ _).symm⟩
  · rcases hlist.of_ask (answer_listing s old) with ⟨rfl, hreports, rfl⟩ | ⟨_, _, hok, _⟩
    · cases hreports
      have hrest : (redirectEach old new (m.listing old)).Ends (m.redirectedIn [] old new) after
          result t := by
        rw [Store.redirectedIn_nil]
        exact hrest
      rcases redirectEach_ends hs (fun _ hr => hr) hrest with
        ⟨hfaultless, _⟩ | ⟨done, r, rest, e, hlisting, hresult, rfl, rfl⟩
      · rw [List.singleton_append, Log.faultless_cons, hfaultless] at hlog
        contradiction
      · exact ⟨done, r :: rest, e, .update done r rest e hlisting, hresult, rfl⟩
    · contradiction

theorem Stops.ends (hs : s.Named) (hne : old ≠ new) {e : StoreError}
    (h : Stops s old new done left e log) : (redirectReports old new).Ends s log
      (.error (.ofStore e)) (s.redirectedIn done old new) := by
  rw [redirectReports, if_neg hne]
  cases h with
  | unlisted =>
    rw [Store.redirectedIn_nil]
    exact (ends_ask_of_failed _ e s).bind_error
  | update done r rest e hlisting =>
    have hupdates := redirectEach_stops hs new [] (fun q hq => hlisting ▸ hq) e
    rw [← hlisting, Store.redirectedIn_nil, List.nil_append] at hupdates
    exact (ends_ask_of_ok (answer_listing s old)).bind_ok hupdates

theorem runOn_redirectedIn (hs : s.Named) (hne : old ≠ new)
    (hlisting : s.listing old = done ++ left) :
    (redirectReports old new).runOn (s.redirectedIn done old new) =
      (.ok left.length, s.redirected old new) := by
  rw [runOn_redirectReports hs.redirectedIn, if_neg hne, Store.reportsListing_eq,
    Store.length_listing_redirectedIn hs hne hlisting, Store.redirected_redirectedIn hne]

end Versioning

open Procedure Versioning

/-- Redirecting the reports of a store puts one row in every place of another and counts the reports
that listed it, and a second time there is nothing left to do. A redirection in which a request
fails stops there with the reports before it redirected and no other; made again, it redirects and
counts those that are left. -/
theorem Store.Named.redirectReports_resumable {s : Store} (hs : s.Named) (old new : RowId) :
    ∃ count m, (redirectReports old new).runOn s = (.ok count, m) ∧
      count = (if old = new then 0 else s.reports.countP fun r => old ∈ r.rows) ∧
      s.Redirection old new s.reports m ∧
      (redirectReports old new).runOn m = (.ok 0, m) ∧
      (∀ log result t, log.faultless = false → ((redirectReports old new).Ends s log result t ↔
        old ≠ new ∧ ∃ done left e, Stops s old new done left e log ∧
          result = .error (.ofStore e) ∧ t = s.redirectedIn done old new)) ∧
      ∀ done left, old ≠ new → s.listing old = done ++ left →
        s.Redirection old new done (s.redirectedIn done old new) ∧
          (redirectReports old new).runOn (s.redirectedIn done old new) = (.ok left.length, m) ∧
          done.length + left.length = count := by
  have hrun := runOn_redirectReports hs old new
  refine ⟨_, _, hrun, ?_, ?_, ?_, fun log result t hlog => ⟨fun hends => ?_, ?_⟩,
    fun done left hne hlisting => ⟨?_, ?_, ?_⟩⟩
  · rw [Store.reportsListing_eq, Store.listing, List.countP_eq_length_filter]
  · have hall : s.redirectedIn s.reports old new = s.redirected old new :=
      Store.redirectedIn_of_listing fun r hr => (List.mem_filter.1 hr).1
    rw [← hall]
    exact Store.redirection_redirectedIn ..
  · by_cases hne : old = new
    · subst hne
      rw [Store.redirected_of_forall fun _ _ => Report.replace_self, hrun, if_pos rfl,
        Store.redirected_of_forall fun _ _ => Report.replace_self]
    · have hagain : (redirectReports old new).runOn (s.redirectedIn (s.listing old) old new) =
          (.ok 0, s.redirected old new) :=
        runOn_redirectedIn hs hne (List.append_nil (s.listing old)).symm
      rw [Store.redirectedIn_of_listing fun _ hr => hr] at hagain
      exact hagain
  · by_cases hne : old = new
    · rw [redirectReports, if_pos hne] at hends
      obtain ⟨rfl, _, _⟩ := ends_pure_iff.1 hends
      contradiction
    · exact ⟨hne, redirectReports_ends hs hne hends hlog⟩
  · rintro ⟨hne, done, left, e, hstops, rfl, rfl⟩
    exact hstops.ends hs hne
  · exact Store.redirection_redirectedIn ..
  · exact runOn_redirectedIn hs hne hlisting
  · rw [if_neg hne, Store.reportsListing_eq, hlisting, List.length_append]

namespace Store

def quarterStore : Store :=
  { Store.empty with
    reports := [⟨"annual", [1, 2, 1]⟩, ⟨"other", [3]⟩, ⟨"summary", [5, 1]⟩, ⟨"year", [1]⟩] }

theorem named_quarterStore : quarterStore.Named :=
  show quarterStore.reportNames.Nodup by decide

/-- The update of the second of the three reports fails, and the redirection is made again. -/
theorem redirectReports_resumable_quarter : quarterStore.Named ∧
    ∃ log t m, log.faultless = false ∧
      (redirectReports 1 5).Ends quarterStore log (.error (.store (.unavailable "down"))) t ∧
      t.reports = [⟨"annual", [5, 2, 5]⟩, ⟨"other", [3]⟩, ⟨"summary", [5, 1]⟩, ⟨"year", [1]⟩] ∧
      (redirectReports 1 5).runOn t = (.ok 2, m) ∧
      (redirectReports 1 5).runOn quarterStore = (.ok 3, m) ∧
      (redirectReports 1 5).runOn m = (.ok 0, m) := by
  refine ⟨named_quarterStore, ?_⟩
  obtain ⟨count, m, hrun, hcount, _, hagain, hends, hleft⟩ :=
    named_quarterStore.redirectReports_resumable 1 5
  obtain rfl : count = 3 := hcount
  have hstops := @Stops.update quarterStore 1 5 [⟨"annual", [1, 2, 1]⟩]
    ⟨"summary", [5, 1]⟩ [⟨"year", [1]⟩] (.unavailable "down") (by decide)
  obtain ⟨_, hretry, _⟩ := hleft _ _ (by decide) hstops.listing_eq
  exact ⟨_, _, m, rfl, (hends _ _ _ rfl).2 ⟨by decide, _, _, _, hstops, rfl, rfl⟩, by decide,
    hretry, hrun, hagain⟩

end Store

end FormulaLedger
