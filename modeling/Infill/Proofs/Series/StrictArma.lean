import Infill.Proofs.Series.Entries

/-! Both stages of an estimate read data only. The strict estimate is written by times: it reads a point
of the series only where there is one, an innovation only where the first stage has estimated one,
and it regresses only on as many rows as there are parameters. It never stops for one of these
reasons, since all lags of the second stage end behind the place where the first one begins. -/

namespace Infill

namespace Stop

variable {β : Type}

def ofErrors (x : Except Error β) : Except Stop β := x.mapError .error

@[simp] theorem ofErrors_ok (b : β) : ofErrors (.ok b) = .ok b := rfl

end Stop

structure Lags (lags : List Nat) : Prop where
  ascending : lags.Pairwise (· < ·)
  pos : ∀ lag ∈ lags, 0 < lag

namespace Lags

variable {lags : List Nat}

theorem le_longest (h : Lags lags) {lag : Nat} (hlag : lag ∈ lags) : lag ≤ Arma.longest lags := by
  obtain ⟨front, last, rfl⟩ := (List.eq_nil_or_concat' lags).resolve_left (List.ne_nil_of_mem hlag)
  rw [Arma.longest, List.getLast?_concat, Option.getD_some]
  rcases List.mem_append.1 hlag with hfront | hlast
  · exact ((List.pairwise_append.1 h.ascending).2.2 lag hfront last List.mem_cons_self).le
  · exact (List.mem_singleton.1 hlast).le

theorem longest_eq_zero_iff (h : Lags lags) : Arma.longest lags = 0 ↔ lags = [] := by
  constructor
  · intro hzero
    refine List.eq_nil_iff_forall_not_mem.2 fun lag hlag => ?_
    have := h.pos lag hlag
    have := h.le_longest hlag
    omega
  · rintro rfl
    rfl

end Lags

variable {α : Type} [Scalar α]

/-- A regression on as many rows as there are parameters. -/
def LeastSquares.fitStrict (parameters : Nat) (rows : List (List α)) (y : List α) :
    Except Stop (Fit α) :=
  if rows.length < parameters then .error .fewRows else Stop.ofErrors (fit rows y)

theorem LeastSquares.fitStrict_eq {parameters : Nat} {rows : List (List α)} {y : List α}
    (h : parameters ≤ rows.length) : fitStrict parameters rows y = Stop.ofErrors (fit rows y) :=
  if_neg (Nat.not_lt_of_le h)

namespace Arma

def longLag (arLags maLags : List Nat) : Nat := 2 * max (longest arLags) (longest maLags)

def secondStart (arLags maLags : List Nat) : Nat :=
  if maLags.isEmpty then longest arLags
  else max (longest arLags) (longLag arLags maLags + longest maLags)

def strictInnovations (w : List α) (long : Nat) : Except Stop (List α) := do
  let rows ← (timesFrom long w.length).mapM fun t => (lagsTo long).mapM (entryBack 0 w t)
  let fit ← LeastSquares.fitStrict (long + 1) rows (w.drop long)
  return List.zipWith (fun x row => x - fit.predict row) (w.drop long) rows

/-- The innovations that the second stage reads; none where it reads none. -/
def strictFirstStage (w : List α) (arLags maLags : List Nat) : Except Stop (List α) :=
  let long := longLag arLags maLags
  if maLags.isEmpty then .ok []
  else if w.length ≤ 2 * long then .error (.error (.insufficientData (2 * long + 1) w.length))
  else strictInnovations w long

/-- The regressors of time `t`: points of the series, and innovations from time `longLag` on. -/
def strictRow (arLags maLags : List Nat) (w innovations : List α) (t : Nat) :
    Except Stop (List α) := do
  let points ← arLags.mapM (entryBack 0 w t)
  let shocks ← maLags.mapM (entryBack (longLag arLags maLags) innovations t)
  return points ++ shocks

def ofRegression (arLags maLags : List Nat) (mean : α) (fit : LeastSquares.Fit α) : Arma α :=
  ⟨fit.intercept, arLags.zip fit.coefficients, maLags.zip (fit.coefficients.drop arLags.length), mean⟩

/-- The estimate, as far as it needs nothing but data. -/
def strictEstimate (w : List α) (arLags maLags : List Nat) : Except Stop (Arma α) :=
  let mean := Scalar.mean w
  if w.isEmpty then .error (.error (.insufficientData 1 0))
  else if arLags.isEmpty && maLags.isEmpty then .ok ⟨mean, [], [], mean⟩
  else do
    let innovations ← strictFirstStage w arLags maLags
    let start := secondStart arLags maLags
    let parameters := arLags.length + maLags.length + 1
    if w.length < start + parameters then
      throw (.error (.insufficientData (start + parameters) w.length))
    let rows ← (timesFrom start w.length).mapM (strictRow arLags maLags w innovations)
    return ofRegression arLags maLags mean
      (← LeastSquares.fitStrict parameters rows (w.drop start))

section FirstStage

variable {w : List α} {long : Nat}

def longRows (w : List α) (long : Nat) : List (List α) :=
  (timesFrom long w.length).map fun t => (w.take t).reverse.take long

omit [Scalar α] in
theorem length_longRows (w : List α) (long : Nat) : (longRows w long).length = w.length - long := by
  rw [longRows, List.length_map, length_timesFrom]

theorem longInnovations_eq (w : List α) (long : Nat) :
    longInnovations w long = (LeastSquares.fit (longRows w long) (w.drop long)).map fun fit =>
      List.replicate long 0 ++
        List.zipWith (fun x row => x - fit.predict row) (w.drop long) (longRows w long) := by
  have hrows : ((Past.each w).drop long).map (fun e => e.1.take long) = longRows w long :=
    Past.map_each_drop (List.take long) w long
  have hpoints : ((Past.each w).drop long).map (·.2) = w.drop long := by
    rw [List.map_drop, Past.map_snd_each]
  rw [← hrows, ← hpoints]
  simp only [List.zipWith_map, List.zipWith_self]
  change (LeastSquares.fit (((Past.each w).drop long).map fun e => e.1.take long) _ >>=
    fun fit => pure (List.replicate long 0 ++ ((Past.each w).drop long).map fun e =>
      e.2 - fit.predict (e.1.take long))) = _
  cases LeastSquares.fit (((Past.each w).drop long).map fun e => e.1.take long)
    (((Past.each w).drop long).map (·.2)) <;> rfl

/-- Behind a point that is far enough into the series stand its last points. -/
theorem mapM_entryBack_recent {t : Nat} (hlong : long ≤ t) (ht : t ≤ w.length) :
    (lagsTo long).mapM (entryBack 0 w t) = .ok ((w.take t).reverse.take long) := by
  have hread : ∀ lag ∈ lagsTo long, entryBack 0 w t lag = .ok (w.getD (t - lag) 0) := by
    intro lag hlag
    obtain ⟨hpos, hle⟩ := mem_lagsTo.1 hlag
    have hplace : t - lag < w.length := by omega
    exact entryBack_ok (by omega) (by simp [hplace])
  rw [mapM_eq_map hread]
  refine congrArg _ (List.ext_getElem (by simp; omega) fun i hi _ => ?_)
  have hlt : i < long := by simpa using hi
  have hplace : t - (i + 1) < w.length := by omega
  have htake : (w.take t).length = t := List.length_take_of_le ht
  simp [lagsTo, hplace, htake, Nat.sub_sub, Nat.add_comm 1 i]

theorem strictInnovations_eq (h : 2 * long < w.length) : strictInnovations w long =
    Stop.ofErrors ((longInnovations w long).map (·.drop long)) := by
  have hrows : (timesFrom long w.length).mapM (fun t => (lagsTo long).mapM (entryBack 0 w t)) =
      .ok (longRows w long) :=
    mapM_eq_map fun t ht => by
      obtain ⟨hlong, hlt⟩ := mem_timesFrom.1 ht
      exact mapM_entryBack_recent hlong hlt.le
  have henough : long + 1 ≤ (longRows w long).length := by
    rw [length_longRows]
    omega
  rw [strictInnovations, hrows, longInnovations_eq]
  change (LeastSquares.fitStrict _ _ _ >>= _) = _
  rw [LeastSquares.fitStrict_eq henough]
  cases LeastSquares.fit (longRows w long) (w.drop long) with
  | error e => rfl
  | ok fit => exact congrArg Except.ok (by simp)

theorem length_longInnovations {innovations : List α} (hlong : long ≤ w.length)
    (h : longInnovations w long = .ok innovations) : innovations.length = w.length := by
  rw [longInnovations_eq] at h
  obtain ⟨fit, -, rfl⟩ := map_ok_iff.1 h
  rw [List.length_append, List.length_replicate, List.length_zipWith, length_longRows,
    List.length_drop, Nat.min_self]
  omega

/-- An estimate without innovations needs no first stage, and a series that is too short for the long
autoregression has none. -/
theorem firstStage_error {arLags maLags : List Nat} (hma : Lags maLags) {e : Error}
    (h : firstStage w arLags maLags = .error e) :
    strictFirstStage w arLags maLags = .error (.error e) := by
  unfold firstStage at h
  dsimp only at h
  unfold strictFirstStage longLag
  dsimp only
  split_ifs at h with hnone hshort
  · rw [if_neg (mt List.isEmpty_iff.1 (mt hma.longest_eq_zero_iff.2 hnone)), if_pos hshort]
    cases h
    rfl
  · rw [if_neg (mt List.isEmpty_iff.1 (mt hma.longest_eq_zero_iff.2 hnone)), if_neg hshort,
      strictInnovations_eq (by omega)]
    obtain h | ⟨_, -, h⟩ := bind_error_iff.1 h
    · rw [h]
      rfl
    · cases h

/-- The first stage finds innovations for the whole series. Those that the second stage reads are the ones
that it has estimated. -/
theorem firstStage_ok {arLags maLags : List Nat} (hma : Lags maLags) {innovations : List α}
    {start : Nat} (h : firstStage w arLags maLags = .ok (innovations, start)) :
    start = secondStart arLags maLags ∧ innovations.length = w.length ∧
      ∃ estimated, strictFirstStage w arLags maLags = .ok estimated ∧
        (maLags ≠ [] → estimated = innovations.drop (longLag arLags maLags)) := by
  unfold firstStage at h
  dsimp only at h
  unfold strictFirstStage secondStart
  dsimp only
  split_ifs at h with hnone hshort
  · obtain rfl := hma.longest_eq_zero_iff.1 hnone
    obtain ⟨rfl, rfl⟩ := Prod.mk.inj (Except.ok.inj h)
    exact ⟨rfl, List.length_replicate, [], rfl, fun h => absurd rfl h⟩
  · have hpresent := mt List.isEmpty_iff.1 (mt hma.longest_eq_zero_iff.2 hnone)
    obtain ⟨_, hlong, h⟩ := bind_ok_iff.1 h
    obtain ⟨rfl, rfl⟩ := Prod.mk.inj (pure_ok_iff.1 h)
    rw [if_neg hpresent, if_neg hpresent, longLag, if_neg hshort, strictInnovations_eq (by omega),
      hlong]
    exact ⟨rfl, length_longInnovations (by omega) hlong, _, rfl, fun _ => rfl⟩

end FirstStage

section SecondStage

variable {w innovations estimated : List α} {arLags maLags : List Nat}

def secondRows (arLags maLags : List Nat) (moments : List (Moment α)) (start : Nat) :
    List (List α) :=
  (timesFrom start moments.length).map fun t => regressors arLags maLags (moments.take t).reverse

theorem estimate_eq (hw : w ≠ []) (hlags : ¬ (arLags = [] ∧ maLags = [])) :
    estimate w arLags maLags = firstStage w arLags maLags >>= fun stage =>
      if w.length < stage.2 + (arLags.length + maLags.length + 1) then
        .error (.insufficientData (stage.2 + (arLags.length + maLags.length + 1)) w.length)
      else (LeastSquares.fit (secondRows arLags maLags (w.zip stage.1) stage.2)
        (w.drop stage.2)).map (ofRegression arLags maLags (Scalar.mean w)) := by
  have hempty : ¬ (arLags.isEmpty && maLags.isEmpty) = true := by
    simpa only [Bool.and_eq_true, List.isEmpty_iff] using hlags
  unfold estimate
  dsimp only
  rw [if_neg (mt List.isEmpty_iff.1 hw), if_neg hempty]
  refine congrArg _ (funext fun stage => ?_)
  have hrows : ((Past.each (w.zip stage.1)).drop stage.2).map
      (fun e => regressors arLags maLags e.1) = secondRows arLags maLags (w.zip stage.1) stage.2 :=
    Past.map_each_drop _ _ _
  rw [← hrows]
  split_ifs
  · rfl
  · change (LeastSquares.fit (((Past.each (w.zip stage.1)).drop stage.2).map
      fun e => regressors arLags maLags e.1) _ >>= _) = _
    cases LeastSquares.fit (((Past.each (w.zip stage.1)).drop stage.2).map
      fun e => regressors arLags maLags e.1) (w.drop stage.2) <;> rfl

/-- Behind the start of the second stage every lag leads to a point, and a lag of innovations to one that
the first stage has estimated. -/
theorem secondStart_le (har : Lags arLags) (hma : Lags maLags) {t : Nat}
    (ht : secondStart arLags maLags ≤ t) : (∀ lag ∈ arLags, lag ≤ t) ∧
      ∀ lag ∈ maLags, longLag arLags maLags + lag ≤ t := by
  unfold secondStart at ht
  constructor
  · intro lag hlag
    have := har.le_longest hlag
    split_ifs at ht <;> omega
  · intro lag hlag
    have := hma.le_longest hlag
    rw [if_neg (mt List.isEmpty_iff.1 (List.ne_nil_of_mem hlag))] at ht
    omega

omit [Scalar α] in
/-- What lies behind a point is a point with its innovation. -/
theorem exists_back (hlength : innovations.length = w.length) {t lag : Nat} (ht : t ≤ w.length)
    (hpos : 0 < lag) (hle : lag ≤ t) : ∃ x e, w[t - lag]? = some x ∧ innovations[t - lag]? = some e ∧
      Past.back? ((w.zip innovations).take t).reverse lag = some (x, e) := by
  have hx : t - lag < w.length := by omega
  have he : t - lag < innovations.length := hlength.symm ▸ hx
  have hzip : (w.zip innovations).length = w.length := by
    rw [List.length_zip, hlength, Nat.min_self]
  refine ⟨_, _, List.getElem?_eq_getElem hx, List.getElem?_eq_getElem he, ?_⟩
  rw [Past.back?_reverse_take hpos hle (hzip.symm ▸ ht), List.getElem?_eq_getElem (hzip.symm ▸ hx),
    List.getElem_zip]

theorem strictRow_eq (har : Lags arLags) (hma : Lags maLags)
    (hlength : innovations.length = w.length)
    (hestimated : maLags ≠ [] → estimated = innovations.drop (longLag arLags maLags)) {t : Nat}
    (hstart : secondStart arLags maLags ≤ t) (ht : t ≤ w.length) :
    strictRow arLags maLags w estimated t =
      .ok (regressors arLags maLags ((w.zip innovations).take t).reverse) := by
  obtain ⟨hpoints, hshocks⟩ := secondStart_le har hma hstart
  have hread : arLags.mapM (entryBack 0 w t) = .ok (arLags.map fun lag =>
      ((Past.back? ((w.zip innovations).take t).reverse lag).map (·.1)).getD 0) := by
    refine mapM_eq_map fun lag hlag => ?_
    have hle := hpoints lag hlag
    obtain ⟨x, e, hx, -, hpair⟩ := exists_back hlength ht (har.pos lag hlag) hle
    rw [hpair]
    exact entryBack_ok (by omega) hx
  have hread' : maLags.mapM (entryBack (longLag arLags maLags) estimated t) =
      .ok (maLags.map fun lag =>
        ((Past.back? ((w.zip innovations).take t).reverse lag).map (·.2)).getD 0) := by
    refine mapM_eq_map fun lag hlag => ?_
    have hle := hshocks lag hlag
    obtain ⟨x, e, -, he, hpair⟩ := exists_back hlength ht (hma.pos lag hlag) (by omega)
    rw [hpair, hestimated (List.ne_nil_of_mem hlag)]
    refine entryBack_ok hle ?_
    rw [List.getElem?_drop, Nat.add_sub_cancel' (by omega), he]
    rfl
  rw [strictRow, hread, hread']
  rfl

theorem length_secondRows (hlength : innovations.length = w.length) (start : Nat) :
    (secondRows arLags maLags (w.zip innovations) start).length = w.length - start := by
  rw [secondRows, List.length_map, length_timesFrom, List.length_zip, hlength, Nat.min_self]

theorem strictRows_eq (har : Lags arLags) (hma : Lags maLags)
    (hlength : innovations.length = w.length)
    (hestimated : maLags ≠ [] → estimated = innovations.drop (longLag arLags maLags)) :
    (timesFrom (secondStart arLags maLags) w.length).mapM (strictRow arLags maLags w estimated) =
      .ok (secondRows arLags maLags (w.zip innovations) (secondStart arLags maLags)) := by
  rw [secondRows, List.length_zip, hlength, Nat.min_self]
  refine mapM_eq_map fun t ht => ?_
  obtain ⟨hstart, hlt⟩ := mem_timesFrom.1 ht
  exact strictRow_eq har hma hlength hestimated hstart hlt.le

/-- The estimate needs nothing but data, whatever the series and the lags are. -/
theorem strictEstimate_eq (har : Lags arLags) (hma : Lags maLags) (w : List α) :
    strictEstimate w arLags maLags = Stop.ofErrors (estimate w arLags maLags) := by
  by_cases hw : w = []
  · subst hw
    rfl
  by_cases hlags : arLags = [] ∧ maLags = []
  · obtain ⟨rfl, rfl⟩ := hlags
    simp [strictEstimate, estimate, hw]
  have hempty : ¬ (arLags.isEmpty && maLags.isEmpty) = true := by
    simpa only [Bool.and_eq_true, List.isEmpty_iff] using hlags
  rw [estimate_eq hw hlags]
  unfold strictEstimate
  dsimp only
  rw [if_neg (mt List.isEmpty_iff.1 hw), if_neg hempty]
  cases hstage : firstStage w arLags maLags with
  | error e =>
    rw [firstStage_error hma hstage]
    rfl
  | ok stage =>
    obtain ⟨innovations, start⟩ := stage
    obtain ⟨rfl, hlength, estimated, hstrict, hestimated⟩ := firstStage_ok hma hstage
    rw [hstrict]
    change (if _ then _ else _) = Stop.ofErrors (if _ then _ else _)
    split_ifs with hshort
    · rfl
    · have henough : arLags.length + maLags.length + 1 ≤ (secondRows arLags maLags
          (w.zip innovations) (secondStart arLags maLags)).length := by
        rw [length_secondRows hlength]
        omega
      rw [strictRows_eq har hma hlength hestimated]
      change (LeastSquares.fitStrict _ _ _ >>= _) = _
      rw [LeastSquares.fitStrict_eq henough]
      cases LeastSquares.fit (secondRows arLags maLags (w.zip innovations)
        (secondStart arLags maLags)) (w.drop (secondStart arLags maLags)) <;> rfl

end SecondStage

end Arma
end Infill
