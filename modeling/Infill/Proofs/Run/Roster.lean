import Infill.Proofs.Run.Records

/-! Families do not see each other. Everything that a family reads is fixed before the first family
starts, so a run over a roster is the same as the runs of its families one by one, put one behind
the other: first those that work on the wide table, then those that work on the rows. -/

namespace Infill

variable {α : Type} [Scalar α]

namespace Run

/-- What is fixed before the first family starts. -/
structure Setup (α : Type) where
  parsed : Table α
  /-- The name of the date column and the wide table. -/
  wide : Option (String × Table α)
  missing : Nat

def wideSetup (r : Request α) (parsed : Table α) : Except Error (Option (String × Table α)) :=
  match (rolesOf r).date with
  | none => .ok none
  | some (date, _) => (wideTable r parsed (rolesOf r) date).map fun wide => some (date, wide)

structure Setup.Of (t : Table α) (r : Request α) (s : Setup α) : Prop where
  nonempty : t.rowCount ≠ 0
  parsed : withDates t (rolesOf r).date = .ok s.parsed
  wide : wideSetup r s.parsed = .ok s.wide
  missing : s.parsed.missingCount r.target = .ok s.missing

/-- The contribution of one family: without dates a time-aware one has none. -/
def contribution (r : Request α) (s : Setup α) (f : Family) :
    Except Error (Option (Contribution α)) :=
  if f.isTimeAware then
    match s.wide with
    | none => .ok none
    | some (date, wide) =>
      timeAware r wide date (rolesOf r).slice (distinctSlices s.parsed (rolesOf r).slice) f
  else (timeAgnostic r s.parsed s.missing f).map some

def Setup.report (s : Setup α) (contributions : List (Option (Contribution α))) : Report α where
  metrics := (contributions.filterMap id).flatMap (·.metrics)
  timings := (s.wide.map fun _ => Step.pivot).toList ++
    (contributions.filterMap id).map (.family ·.imputed.model)
  wide := s.wide.map (·.2)
  imputed := (contributions.filterMap id).map (·.imputed)

/-- The families of a run in the order of their contributions. -/
def inOrder (fs : List Family) : List Family :=
  fs.filter (·.isTimeAware) ++ fs.filter (!·.isTimeAware)

theorem mem_inOrder {fs : List Family} {f : Family} : f ∈ inOrder fs ↔ f ∈ fs := by
  simp only [inOrder, List.mem_append, List.mem_filter]
  cases f.isTimeAware <;> simp

/-- Only the known families of a roster matter. -/
theorem predict_congr {t : Table α} {roster roster' : List String} {r : Request α}
    (h : families roster = families roster') : predict t roster r = predict t roster' r := by
  unfold families at h
  unfold predict
  rw [h]

theorem Setup.Of.unique {t : Table α} {r : Request α} {s s' : Setup α} (h : s.Of t r)
    (h' : s'.Of t r) : s' = s := by
  obtain ⟨parsed, wide, missing⟩ := s
  obtain ⟨parsed', wide', missing'⟩ := s'
  obtain rfl := Except.ok.inj (h'.parsed.symm.trans h.parsed)
  obtain rfl := Except.ok.inj (h'.wide.symm.trans h.wide)
  obtain rfl := Except.ok.inj (h'.missing.symm.trans h.missing)
  rfl

theorem aware_contributions {r : Request α} {s : Setup α} {date : String} {wide : Table α}
    (h : s.wide = some (date, wide)) (fs : List Family) :
    (fs.filter (·.isTimeAware)).mapM (contribution r s) = (fs.filter (·.isTimeAware)).mapM
      (timeAware r wide date (rolesOf r).slice (distinctSlices s.parsed (rolesOf r).slice)) := by
  refine mapM_congr fun f hf => ?_
  rw [contribution, if_pos (by simpa using (List.mem_filter.1 hf).2), h]

theorem aware_contributions_undated {r : Request α} {s : Setup α} (h : s.wide = none)
    (fs : List Family) : (fs.filter (·.isTimeAware)).mapM (contribution r s) =
      .ok ((fs.filter (·.isTimeAware)).map fun _ => none) := by
  rw [mapM_ok_iff, List.forall₂_map_right_iff, List.forall₂_same]
  intro f hf
  rw [contribution, if_pos (by simpa using (List.mem_filter.1 hf).2), h]

theorem agnostic_contributions_ok_iff {r : Request α} {s : Setup α} {fs : List Family}
    {cs : List (Option (Contribution α))} :
    (fs.filter (!·.isTimeAware)).mapM (contribution r s) = .ok cs ↔
      ∃ ds, (fs.filter (!·.isTimeAware)).mapM (timeAgnostic r s.parsed s.missing) = .ok ds ∧
        ds.map some = cs := by
  rw [← mapM_map_ok_iff, mapM_congr fun f hf => ?_]
  rw [contribution, if_neg (by simpa using (List.mem_filter.1 hf).2)]

theorem timePart_ok_iff_contributions {r : Request α} {parsed : Table α} (missing : Nat)
    {fs : List Family} {time : Report α} :
    timePart r parsed (rolesOf r) fs = .ok time ↔ ∃ wide, wideSetup r parsed = .ok wide ∧
      ∃ cs, (fs.filter (·.isTimeAware)).mapM (contribution r ⟨parsed, wide, missing⟩) = .ok cs ∧
        Setup.report ⟨parsed, wide, missing⟩ cs = time := by
  unfold wideSetup
  cases hdate : (rolesOf r).date with
  | none =>
    have hreport : ∀ n : Nat, Setup.report ⟨parsed, none, missing⟩ (List.replicate n none) =
        (assemble [] : Report α) := by
      intro n
      simp [Setup.report, assemble]
    rw [timePart_undated hdate]
    constructor
    · intro h
      refine ⟨none, rfl, _, aware_contributions_undated rfl fs, ?_⟩
      rw [List.map_const', hreport]
      exact Except.ok.inj h
    · rintro ⟨wide, hwide, cs, hcs, rfl⟩
      obtain rfl := Except.ok.inj hwide
      obtain rfl := Except.ok.inj ((aware_contributions_undated rfl fs).symm.trans hcs)
      rw [List.map_const', hreport]
  | some key =>
    rw [timePart_dated_ok_iff hdate]
    constructor
    · rintro ⟨wide, hwide, cs, hcs, rfl⟩
      refine ⟨some (key.1, wide), map_ok_iff.2 ⟨wide, hwide, rfl⟩, cs, ?_, rfl⟩
      exact (aware_contributions rfl fs).trans hcs
    · rintro ⟨wide, hwide, cs, hcs, rfl⟩
      obtain ⟨w, hw, rfl⟩ := map_ok_iff.1 hwide
      exact ⟨w, hw, cs, (aware_contributions rfl fs).symm.trans hcs, rfl⟩

omit [Scalar α] in
theorem joined_report (s : Setup α) (cs : List (Option (Contribution α)))
    (ds : List (Contribution α)) :
    joined (s.report cs) (assemble ds) = s.report (cs ++ ds.map some) := by
  simp [joined, assemble, Setup.report, List.filterMap_append, List.filterMap_map]

/-- A run is made family by family on one setup. -/
theorem predict_ok_iff_contributions {t : Table α} {roster : List String} {r : Request α}
    {report : Report α} :
    predict t roster r = .ok report ↔ ∃ s : Setup α, s.Of t r ∧
      ∃ cs, (inOrder (families roster)).mapM (contribution r s) = .ok cs ∧
        s.report cs = report := by
  rw [predict_ok_iff]
  constructor
  · rintro ⟨hne, parsed, hparsed, time, htime, rows, hrows, rfl⟩
    obtain ⟨missing, hmissing, ds, hds, rfl⟩ := rowPart_ok_iff.1 hrows
    obtain ⟨wide, hwide, cs, hcs, rfl⟩ := (timePart_ok_iff_contributions missing).1 htime
    have hrest := (agnostic_contributions_ok_iff (s := ⟨parsed, wide, missing⟩)).2 ⟨ds, hds, rfl⟩
    exact ⟨⟨parsed, wide, missing⟩, ⟨hne, hparsed, hwide, hmissing⟩, _,
      mapM_append_ok_iff.2 ⟨cs, hcs, _, hrest, rfl⟩, (joined_report _ cs ds).symm⟩
  · rintro ⟨s, hs, _, hall, rfl⟩
    obtain ⟨cs, hcs, _, hrest, rfl⟩ := mapM_append_ok_iff.1 hall
    obtain ⟨ds, hds, rfl⟩ := agnostic_contributions_ok_iff.1 hrest
    have htime := (timePart_ok_iff_contributions s.missing).2 ⟨s.wide, hs.wide, cs, hcs, rfl⟩
    have hrows := rowPart_ok_iff.2 ⟨s.missing, hs.missing, ds, hds, rfl⟩
    exact ⟨hs.nonempty, s.parsed, hs.parsed, _, htime, _, hrows, joined_report s cs ds⟩

theorem solo_ok_iff {t : Table α} {r : Request α} {s : Setup α} (hs : s.Of t r) (f : Family)
    {solo : Report α} : predict t [f.name] r = .ok solo ↔
      ∃ c, contribution r s f = .ok c ∧ s.report [c] = solo := by
  have hone : inOrder (families [f.name]) = [f] := by cases f <;> rfl
  rw [predict_ok_iff_contributions]
  constructor
  · rintro ⟨s', hs', cs, hcs, rfl⟩
    obtain rfl := hs.unique hs'
    rw [hone, mapM_ok_iff, List.forall₂_cons_left_iff] at hcs
    obtain ⟨c, _, hc, hnil, rfl⟩ := hcs
    obtain rfl := List.forall₂_nil_left_iff.1 hnil
    exact ⟨c, hc, rfl⟩
  · rintro ⟨c, hc, rfl⟩
    refine ⟨s, hs, [c], ?_, rfl⟩
    rw [hone, mapM_ok_iff]
    exact .cons hc .nil

theorem base_ok_iff {t : Table α} {r : Request α} {base : Report α} :
    predict t [] r = .ok base ↔ ∃ s : Setup α, s.Of t r ∧ s.report [] = base := by
  rw [predict_ok_iff_contributions]
  refine exists_congr fun s => and_congr_right fun _ => ?_
  constructor
  · rintro ⟨cs, hcs, rfl⟩
    obtain rfl := pure_ok_iff.1 hcs
    rfl
  · rintro rfl
    exact ⟨[], rfl, rfl⟩

def laterSteps : List Step → List Step
  | .pivot :: rest => rest
  | steps => steps

structure Concatenates (report base : Report α) (solos : List (Report α)) : Prop where
  metrics : report.metrics = solos.flatMap (·.metrics)
  imputed : report.imputed = solos.flatMap (·.imputed)
  timings : report.timings = base.timings ++ solos.flatMap (laterSteps ·.timings)
  later : laterSteps report.timings = solos.flatMap (laterSteps ·.timings)
  wide : report.wide = base.wide
  shared : ∀ solo ∈ solos, solo.wide = base.wide

section Concatenation

omit [Scalar α]

variable (s : Setup α)

theorem laterSteps_report (cs : List (Option (Contribution α))) :
    laterSteps (s.report cs).timings =
      (cs.filterMap id).flatMap fun c => [Step.family c.imputed.model] := by
  rw [← List.map_eq_flatMap]
  cases hw : s.wide with
  | some w => simp [Setup.report, hw, laterSteps]
  | none =>
    simp only [Setup.report, hw, Option.map_none, Option.toList_none, List.nil_append]
    cases cs.filterMap id <;> rfl

theorem report_flatMap {β : Type} (part : Report α → List β) {give : Contribution α → List β}
    (h : ∀ cs, part (s.report cs) = (cs.filterMap id).flatMap give)
    (cs : List (Option (Contribution α))) :
    part (s.report cs) = (cs.map fun c => s.report [c]).flatMap part := by
  rw [h, List.flatMap_map]
  induction cs with
  | nil => rfl
  | cons c cs ih =>
    rw [List.flatMap_cons, h, ← ih]
    cases c <;> simp

theorem report_concatenates (cs : List (Option (Contribution α))) :
    Concatenates (s.report cs) (s.report []) (cs.map fun c => s.report [c]) := by
  have hlater : laterSteps (s.report cs).timings =
      (cs.map fun c => s.report [c]).flatMap (laterSteps ·.timings) :=
    report_flatMap s (laterSteps ·.timings) (laterSteps_report s) cs
  have himputed : ∀ ds, (s.report ds).imputed = (ds.filterMap id).flatMap fun c => [c.imputed] :=
    fun _ => List.map_eq_flatMap
  refine ⟨report_flatMap s (·.metrics) (fun _ => rfl) cs,
    report_flatMap s (·.imputed) himputed cs, ?_, hlater, rfl, by simp [Setup.report]⟩
  rw [← hlater, laterSteps_report, ← List.map_eq_flatMap]
  simp [Setup.report]

end Concatenation

def TwoSlices (t : Table α) (r : Request α) : Prop :=
  ∃ slice c a b, (rolesOf r).slice = some slice ∧ t.column? slice = some c ∧
    some a ∈ c.cells.labels ∧ some b ∈ c.cells.labels ∧ a ≠ b

theorem eraseDups_length_le_one_iff {labels : List String} :
    labels.eraseDups.length ≤ 1 ↔ ∀ a ∈ labels, ∀ b ∈ labels, a = b := by
  constructor
  · intro h a ha b hb
    have hall : ∀ x ∈ labels, x ∈ labels.eraseDups := fun x => List.mem_eraseDups.2
    rcases hd : labels.eraseDups with - | ⟨c, - | ⟨d, rest⟩⟩
    · exact absurd (hall a ha) (by simp [hd])
    · have hc : ∀ x ∈ labels, x = c := fun x hx => by simpa [hd] using hall x hx
      exact (hc a ha).trans (hc b hb).symm
    · simp [hd] at h
  · intro h
    cases labels with
    | nil => simp
    | cons x xs =>
      have hrest : (xs.filter fun b => !b == x) = [] := by
        rw [List.filter_eq_nil_iff]
        intro y hy
        simp [h y (by simp [hy]) x (by simp)]
      simp [List.eraseDups_cons, hrest]

theorem distinctSlices_le_one_iff {t parsed : Table α} {r : Request α}
    (hp : t.DatesRead (rolesOf r).date parsed) :
    distinctSlices parsed (rolesOf r).slice ≤ 1 ↔ ¬ TwoSlices t r := by
  unfold distinctSlices TwoSlices
  cases hslice : (rolesOf r).slice with
  | none => simp
  | some slice =>
    rw [Option.bind_some, hp.column?_other (KeyRoles.pick_slice_mem hslice).2]
    cases hc : t.column? slice with
    | none => simp [hc]
    | some c =>
      simp only [eraseDups_length_le_one_iff, List.mem_filterMap, id, exists_eq_right]
      constructor
      · rintro h ⟨slice', d, a, b, hs, hd, ha, hb, hne⟩
        obtain rfl := Option.some.inj hs
        obtain rfl := Option.some.inj (hc.symm.trans hd)
        exact hne (h a ha b hb)
      · intro h a ha b hb
        by_contra hne
        exact h ⟨slice, c, a, b, rfl, hc, ha, hb, hne⟩

structure Contributes (solo : Report α) (wide : Table α) (f : Family)
    (records : List (Family × Option String)) : Prop where
  wide : solo.wide = some wide
  records : solo.metrics.map recordOf = records
  imputed : solo.imputed.map (·.model) = [f]

/-- Of a run over a roster: it is made of the runs of its families, and each of these contributes as
its kind does. -/
structure Apart (t : Table α) (roster : List String) (r : Request α) : Prop where
  ok_iff : (∃ report, predict t roster r = .ok report) ↔
    (∃ base, predict t [] r = .ok base) ∧
      ∀ f ∈ families roster, ∃ solo, predict t [f.name] r = .ok solo
  solos : ∀ report, predict t roster r = .ok report → ∃ base, predict t [] r = .ok base ∧
    ∃ solos, List.Forall₂ (fun f solo => predict t [f.name] r = .ok solo)
        (inOrder (families roster)) solos ∧
      Concatenates report base solos
  base : ∀ base, predict t [] r = .ok base → base.metrics = [] ∧ base.imputed = [] ∧
    base.timings = if (rolesOf r).date = none then [] else [.pivot]
  unknown : predict t roster r =
    predict t (roster.filter fun name => (Family.ofName? name).isSome) r
  undated : (rolesOf r).date = none → ∀ f : Family, f.isTimeAware = true → ∀ report,
    predict t [f.name] r = .ok report ↔ predict t [] r = .ok report
  perSeries : (rolesOf r).date ≠ none → ∀ f : Family, f.isTimeAware = true → f ≠ .multivariate →
    ∀ solo, predict t [f.name] r = .ok solo → ∃ wide, Contributes solo wide f
      ((openSeries r wide).map fun series => (f, SeriesName.slice? r.settings.separator series))
  joint : (rolesOf r).date ≠ none → TwoSlices t r →
    ∀ solo, predict t [Family.multivariate.name] r = .ok solo →
      ∃ wide, Contributes solo wide .multivariate [(.multivariate, some SeriesName.whole)]
  idle : ¬ TwoSlices t r → ∀ report,
    predict t [Family.multivariate.name] r = .ok report ↔ predict t [] r = .ok report

section Kinds

variable {t : Table α} {r : Request α}

theorem Setup.Of.undated {s : Setup α} (hs : s.Of t r) :
    s.wide = none ↔ (rolesOf r).date = none := by
  have hwide := hs.wide
  unfold wideSetup at hwide
  cases hdate : (rolesOf r).date with
  | none =>
    rw [hdate] at hwide
    simp [← Except.ok.inj hwide]
  | some key =>
    rw [hdate] at hwide
    obtain ⟨wide, -, hsome⟩ := map_ok_iff.1 hwide
    simp [← hsome]

/-- A family that has nothing to contribute leaves the report without families. -/
theorem solo_idle_iff {f : Family} (h : ∀ s : Setup α, s.Of t r → contribution r s f = .ok none)
    (report : Report α) : predict t [f.name] r = .ok report ↔ predict t [] r = .ok report := by
  rw [base_ok_iff]
  constructor
  · intro hrun
    obtain ⟨s, hs, -, -, -⟩ := predict_ok_iff_contributions.1 hrun
    obtain ⟨c, hc, rfl⟩ := (solo_ok_iff hs f).1 hrun
    obtain rfl := Except.ok.inj ((h s hs).symm.trans hc)
    exact ⟨s, hs, rfl⟩
  · rintro ⟨s, hs, rfl⟩
    exact (solo_ok_iff hs f).2 ⟨none, h s hs, rfl⟩

/-- A time-aware family that has something to work on contributes its records and one table. -/
theorem solo_contributes {f : Family} (haware : f.isTimeAware = true) {s : Setup α}
    (hs : s.Of t r) (hdate : (rolesOf r).date ≠ none)
    (hbusy : ¬ (f = .multivariate ∧ distinctSlices s.parsed (rolesOf r).slice ≤ 1))
    {solo : Report α} (h : predict t [f.name] r = .ok solo) :
    ∃ date wide progress, fillWide r wide date f = .ok progress ∧
      Contributes solo wide f (progress.1.map recordOf) := by
  obtain ⟨c, hc, rfl⟩ := (solo_ok_iff hs f).1 h
  cases hw : s.wide with
  | none => exact absurd (hs.undated.1 hw) hdate
  | some key =>
    rw [contribution, if_pos haware, hw] at hc
    obtain ⟨progress, hprogress, long, -, rfl⟩ := (timeAware_ok_iff hbusy).1 hc
    have hwide : (s.report [some ⟨progress.1, ⟨f, long⟩⟩]).wide = some key.2 := by
      simp [Setup.report, hw]
    exact ⟨key.1, key.2, progress, hprogress, hwide, by simp [Setup.report], rfl⟩

end Kinds

theorem isOk_iff_solos (t : Table α) (roster : List String) (r : Request α) :
    (∃ report, predict t roster r = .ok report) ↔ (∃ base, predict t [] r = .ok base) ∧
      ∀ f ∈ families roster, ∃ solo, predict t [f.name] r = .ok solo := by
  constructor
  · rintro ⟨report, h⟩
    obtain ⟨s, hs, cs, hcs, -⟩ := predict_ok_iff_contributions.1 h
    refine ⟨⟨_, base_ok_iff.2 ⟨s, hs, rfl⟩⟩, fun f hf => ?_⟩
    obtain ⟨c, -, hc⟩ := forall₂_mem_left (mapM_ok_iff.1 hcs) (mem_inOrder.2 hf)
    exact ⟨_, (solo_ok_iff hs f).2 ⟨c, hc, rfl⟩⟩
  · rintro ⟨⟨base, hbase⟩, hsolos⟩
    obtain ⟨s, hs, -⟩ := base_ok_iff.1 hbase
    have heach : ∀ f ∈ inOrder (families roster), ∃ c, contribution r s f = .ok c := by
      intro f hf
      obtain ⟨solo, hsolo⟩ := hsolos f (mem_inOrder.1 hf)
      obtain ⟨c, hc, -⟩ := (solo_ok_iff hs f).1 hsolo
      exact ⟨c, hc⟩
    obtain ⟨cs, hcs⟩ := mapM_total heach
    exact ⟨_, predict_ok_iff_contributions.2 ⟨s, hs, cs, hcs, rfl⟩⟩

/-- Families do not see each other. -/
theorem families_apart (t : Table α) (roster : List String) (r : Request α) : Apart t roster r where
  ok_iff := isOk_iff_solos t roster r
  solos := by
    intro report h
    obtain ⟨s, hs, cs, hcs, rfl⟩ := predict_ok_iff_contributions.1 h
    refine ⟨s.report [], base_ok_iff.2 ⟨s, hs, rfl⟩, _, ?_, report_concatenates s cs⟩
    rw [List.forall₂_map_right_iff]
    exact (mapM_ok_iff.1 hcs).imp fun f c hc => (solo_ok_iff hs f).2 ⟨c, hc, rfl⟩
  base := by
    intro base h
    obtain ⟨s, hs, rfl⟩ := base_ok_iff.1 h
    refine ⟨rfl, rfl, ?_⟩
    simp only [← hs.undated]
    cases hw : s.wide <;> simp [Setup.report, hw]
  unknown := by
    refine predict_congr ?_
    rw [families, families, List.filterMap_filter]
    refine List.filterMap_congr fun name _ => ?_
    cases Family.ofName? name <;> rfl
  undated := by
    intro hdate f haware report
    refine solo_idle_iff (fun s hs => ?_) report
    rw [contribution, if_pos haware, hs.undated.2 hdate]
  perSeries := by
    intro hdate f haware hne solo h
    obtain ⟨s, hs, -, -, -⟩ := predict_ok_iff_contributions.1 h
    obtain ⟨date, wide, progress, hp, hc⟩ := solo_contributes haware hs hdate (by simp [hne]) h
    rw [fillWide, if_neg hne] at hp
    exact ⟨wide, perSeries_records hp ▸ hc⟩
  joint := by
    intro hdate htwo solo h
    obtain ⟨s, hs, -, -, -⟩ := predict_ok_iff_contributions.1 h
    have hbusy := mt (distinctSlices_le_one_iff (withDates_reads hs.parsed)).1 (not_not.2 htwo)
    obtain ⟨date, wide, progress, hp, hc⟩ := solo_contributes rfl hs hdate (fun h => hbusy h.2) h
    rw [fillWide, if_pos rfl] at hp
    exact ⟨wide, jointly_records hp ▸ hc⟩
  idle := by
    intro hone report
    refine solo_idle_iff (fun s hs => ?_) report
    have hle := (distinctSlices_le_one_iff (withDates_reads hs.parsed)).2 hone
    have haware : Family.isTimeAware .multivariate = true := rfl
    rw [contribution, if_pos haware]
    cases s.wide with
    | none => rfl
    | some key => exact timeAware_idle r key.2 key.1 _ hle

end Run

end Infill
