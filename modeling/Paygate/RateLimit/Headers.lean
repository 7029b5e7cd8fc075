import Paygate.RateLimit.Run

/-! `GetRemaining` and `GetResetTime`, which feed the `X-RateLimit-*` headers. -/

namespace Paygate.RateLimit

namespace TokenBucket

variable {tb : TokenBucket}

lemma refill_le_refill {x y : ℚ} (hxy : x ≤ y) (τ t : Time) :
    tb.refill ⟨x, τ⟩ t ≤ tb.refill ⟨y, τ⟩ t :=
  min_le_min_left _ (by simpa using hxy)

variable (tb) in
lemma allow_call (s : Buckets) (k : String) (c : Instants) :
    (tb.call s ⟨k, .allow, c⟩).1 = .allowed (decide (1 ≤ tb.level (s k) c.now)) ∧
      tb.level ((tb.call s ⟨k, .allow, c⟩).2 k) c.now =
        if 1 ≤ tb.level (s k) c.now then tb.level (s k) c.now - 1 else tb.level (s k) c.now := by
  have hfst := call_fst tb s ⟨k, .allow, c⟩
  have hlev := level_call_self tb s ⟨k, .allow, c⟩
  have hle := level_le_burst tb (s k) c.now
  simp only [Op.allow, answerAt, Int.cast_one] at hfst hlev ⊢
  rw [hfst] at hlev
  refine ⟨hfst, ?_⟩
  split_ifs at hlev ⊢ with h
  · simpa [Op.taken, h, show tb.level (s k) c.now - 1 ≤ tb.burst by linarith] using hlev
  · simpa [Op.taken, h, hle] using hlev

lemma allow_answers (s : Buckets) (k : String) (t : Time) (clocks : List Instants)
    (hc : ∀ c ∈ clocks, c.now = t) :
    tb.answers s (clocks.map fun c => ⟨k, .allow, c⟩) =
      (List.range clocks.length).map fun i =>
        .allowed (decide ((i : Int) < ⌊tb.level (s k) t⌋)) := by
  induction clocks generalizing s with
  | nil => rfl
  | cons c clocks ih =>
    obtain ⟨hfst, hlev⟩ := allow_call tb s k c
    rw [hc c (List.mem_cons_self _ _)] at hfst hlev
    rw [List.map_cons, answers_cons, List.length_cons, List.range_succ_eq_map, List.map_cons,
      List.map_map, hfst, ih _ fun c hc' => hc c (List.mem_cons_of_mem _ hc'), hlev]
    congr 1
    · simp [Int.floor_pos]
    · refine List.map_congr_left fun i _ => ?_
      simp only [Function.comp, Nat.cast_succ, Answer.allowed.injEq, decide_eq_decide]
      split_ifs with h
      · rw [Int.floor_sub_one]
        omega
      · have : ⌊tb.level (s k) t⌋ < 1 := Int.floor_lt.2 (by exact_mod_cast not_le.1 h)
        omega

/-- At one instant `AllowN` admits `n` exactly when `n` is at most what `GetRemaining`
reports, and back-to-back `Allow` calls admit exactly the first `GetRemaining` of them. -/
theorem allowN_iff_le_getRemaining (tb : TokenBucket) (s : Buckets) (k : String) (n : Int)
    {c c' : Instants} (hcc : c.now = c'.now) :
    ((tb.allowN s k n c).1 = true ↔ n ≤ (tb.getRemaining s k c').1) ∧
      ∀ clocks : List Instants, (∀ d ∈ clocks, d.now = c'.now) →
        tb.answers s (clocks.map fun d => ⟨k, .allow, d⟩) =
          (List.range clocks.length).map fun i =>
            .allowed (decide ((i : Int) < (tb.getRemaining s k c').1)) := by
  rw [allowN_eq, getRemaining_eq, hcc]
  exact ⟨by simp [Int.le_floor], allow_answers s k c'.now⟩

theorem allowN_iff_le_getRemaining_at_start :
    (⟨0, 0, le_rfl⟩ : Instants).now = (⟨0, 0, le_rfl⟩ : Instants).now ∧
      (((newTokenBucket 10 5 (300 * second)).allowN empty "10.0.0.1" 2 ⟨0, 0, le_rfl⟩).1 = true ↔
        2 ≤ ((newTokenBucket 10 5 (300 * second)).getRemaining empty "10.0.0.1" ⟨0, 0, le_rfl⟩).1) ∧
      ∀ clocks : List Instants, (∀ d ∈ clocks, d.now = (⟨0, 0, le_rfl⟩ : Instants).now) →
        (newTokenBucket 10 5 (300 * second)).answers empty
            (clocks.map fun d => ⟨"10.0.0.1", .allow, d⟩) =
          (List.range clocks.length).map fun i => .allowed (decide ((i : Int) <
            ((newTokenBucket 10 5 (300 * second)).getRemaining empty "10.0.0.1" ⟨0, 0, le_rfl⟩).1)) :=
  ⟨rfl, allowN_iff_le_getRemaining _ empty "10.0.0.1" 2 rfl⟩

/-- An `AllowN` of a non-negative `n` never raises what `GetRemaining` reports at its instant
or later. -/
theorem getRemaining_allowN_le (tb : TokenBucket) (s : Buckets) (k : String) {n : Int}
    (hn : 0 ≤ n) (c : Instants) {c' : Instants} (hc : c.now ≤ c'.now) :
    (tb.getRemaining (tb.allowN s k n c).2 k c').1 ≤ (tb.getRemaining s k c').1 := by
  simp only [getRemaining_eq, allowN_eq, Function.update_same, level_some]
  rw [level_eq_of_le tb (s k) hc, level_some]
  refine Int.floor_mono (refill_le_refill ?_ _ _)
  split_ifs <;> linarith [(Int.cast_nonneg.2 hn : (0 : ℚ) ≤ n)]

theorem getRemaining_allowN_le_at_start :
    (0 : Int) ≤ 1 ∧ (⟨0, 0, le_rfl⟩ : Instants).now ≤ (⟨0, 0, le_rfl⟩ : Instants).now ∧
      ((newTokenBucket 10 5 (300 * second)).getRemaining
          ((newTokenBucket 10 5 (300 * second)).allowN empty "10.0.0.1" 1 ⟨0, 0, le_rfl⟩).2
          "10.0.0.1" ⟨0, 0, le_rfl⟩).1 ≤
        ((newTokenBucket 10 5 (300 * second)).getRemaining empty "10.0.0.1" ⟨0, 0, le_rfl⟩).1 :=
  ⟨by decide, le_rfl, getRemaining_allowN_le _ empty "10.0.0.1" (by decide) _ le_rfl⟩

/-- An admitted `Allow` at `0` makes the `Allow` at `0.9 s` fail, which keeps its token for the
`Allow` at `1 s`; without it that last `Allow` fails. -/
theorem allowN_helps_later_allow :
    (newTokenBucket 60 1 (300 * second)).answers empty
        [⟨"k", .getRemaining, ⟨0, 0, le_rfl⟩⟩, ⟨"k", .allow, ⟨900000000, 900000000, le_rfl⟩⟩,
          ⟨"k", .allow, ⟨second, second, le_rfl⟩⟩] =
        [.remaining 1, .allowed true, .allowed false] ∧
      (newTokenBucket 60 1 (300 * second)).answers empty
        [⟨"k", .getRemaining, ⟨0, 0, le_rfl⟩⟩, ⟨"k", .allowN 1, ⟨0, 0, le_rfl⟩⟩,
          ⟨"k", .allow, ⟨900000000, 900000000, le_rfl⟩⟩, ⟨"k", .allow, ⟨second, second, le_rfl⟩⟩] =
        [.remaining 1, .allowed true, .allowed false, .allowed true] := by
  simp only [answers_cons, answers_nil, call, Op.allow, Prod.map, id, allowN_eq, getRemaining_eq,
    getBucket_eq, empty, Function.update_same, level_none, level_some, Option.getD_none,
    Option.getD_some]
  norm_num [newTokenBucket, atLeastOne, refill, seconds, second, Int.floor_eq_iff]

/-- `GetResetTime` rounds the refill instant `60/7 s` down to second `8`; at `8 s` the bucket
holds `14/15` of a token, so `GetRemaining` reports `0` and `Allow` fails. -/
theorem getResetTime_before_refill :
    ((newTokenBucket 7 1 (300 * second)).getResetTime
        ((newTokenBucket 7 1 (300 * second)).allow empty "k" ⟨0, 0, le_rfl⟩).2 "k"
        ⟨0, 0, le_rfl⟩).1 = 8 ∧
      ((newTokenBucket 7 1 (300 * second)).getRemaining
        ((newTokenBucket 7 1 (300 * second)).getResetTime
          ((newTokenBucket 7 1 (300 * second)).allow empty "k" ⟨0, 0, le_rfl⟩).2 "k"
          ⟨0, 0, le_rfl⟩).2 "k" ⟨8 * second, 8 * second, le_rfl⟩).1 = 0 ∧
      ((newTokenBucket 7 1 (300 * second)).allow
        ((newTokenBucket 7 1 (300 * second)).getResetTime
          ((newTokenBucket 7 1 (300 * second)).allow empty "k" ⟨0, 0, le_rfl⟩).2 "k"
          ⟨0, 0, le_rfl⟩).2 "k" ⟨8 * second, 8 * second, le_rfl⟩).1 = false := by
  simp only [allow, allowN_eq, getRemaining_eq, getResetTime_eq, getBucket_eq, empty, level_none,
    Function.update_same, level_some, Option.getD_some]
  norm_num [newTokenBucket, atLeastOne, resetTimeFrom, refill, seconds, second, unix, toDuration,
    Int.floor_eq_iff]

lemma second_pos : 0 < second := by decide

lemma level_full_of_reset (s : Buckets) (k : String) (c : Instants) {t : Time}
    (h : ((tb.getResetTime s k c).1 + 1) * second ≤ t) :
    c.now < t ∧ tb.level (s k) t = tb.burst := by
  have hsec : (0 : ℚ) < second := by exact_mod_cast second_pos
  rw [getResetTime_eq] at h
  unfold resetTimeFrom at h
  dsimp only at h
  split_ifs at h with hneed
  · have hlt : c.now < t := (Int.lt_ediv_add_one_mul_self c.now second_pos).trans_le h
    refine ⟨hlt, ?_⟩
    rw [level_eq_of_le tb (s k) hlt.le, level_some]
    exact refill_eq_burst (by
      dsimp only
      linarith [mul_nonneg (seconds_nonneg (sub_nonneg.2 hlt.le)) tb.rate_pos.le])
  · set stf := ((tb.burst : ℚ) - tb.level (s k) c.now) / tb.rate
    have hstf : 0 ≤ stf * second := by
      have := div_pos (not_le.1 hneed) tb.rate_pos
      positivity
    simp only [toDuration, if_pos hstf, unix] at h
    have hD := Int.lt_ediv_add_one_mul_self (c.now + ⌊stf * second⌋) second_pos
    have hfl := Int.lt_floor_add_one (stf * second)
    have hgap : stf * second < ((t - c.now : Int) : ℚ) := by
      have : ⌊stf * second⌋ + 1 ≤ t - c.now := by omega
      exact hfl.trans_le (by exact_mod_cast this)
    have hlt : c.now < t := by
      have : (0 : ℚ) < ((t - c.now : Int) : ℚ) := hstf.trans_lt hgap
      exact_mod_cast sub_pos.1 (by exact_mod_cast this)
    refine ⟨hlt, ?_⟩
    rw [level_eq_of_le tb (s k) hlt.le, level_some]
    refine refill_eq_burst ?_
    dsimp only
    have : stf < seconds (t - c.now) := by
      rw [seconds, lt_div_iff₀ hsec]
      exact hgap
    have hrate := tb.rate_pos
    calc (tb.burst : ℚ) - tb.level (s k) c.now = stf * tb.rate := by
          rw [div_mul_cancel₀ _ hrate.ne']
      _ ≤ seconds (t - c.now) * tb.rate := mul_le_mul_of_nonneg_right this.le hrate.le

/-- From one second after the second `GetResetTime` reports, with no `AllowN` in between,
`GetRemaining` reports a full bucket and `Allow` succeeds. -/
theorem getRemaining_full_after_reset (tb : TokenBucket) (s : Buckets) (k : String)
    (c : Instants) {c' : Instants} (h : ((tb.getResetTime s k c).1 + 1) * second ≤ c'.now) :
    (tb.getRemaining (tb.getResetTime s k c).2 k c').1 = tb.burst ∧
      (tb.allow (tb.getResetTime s k c).2 k c').1 = true := by
  obtain ⟨hlt, hfull⟩ := level_full_of_reset s k c h
  have hkeep : tb.level ((tb.getResetTime s k c).2 k) c'.now = tb.burst := by
    rw [getResetTime_eq, level_getBucket s k k (c.created_le.trans hlt.le), hfull]
  have hone : (1 : ℚ) ≤ tb.burst := by exact_mod_cast tb.one_le_burst
  simp [getRemaining_eq, allow, allowN_eq, hkeep, hone]

theorem getRemaining_full_nine_seconds_later :
    (((newTokenBucket 7 1 (300 * second)).getResetTime
        ((newTokenBucket 7 1 (300 * second)).allow empty "k" ⟨0, 0, le_rfl⟩).2 "k"
        ⟨0, 0, le_rfl⟩).1 + 1) * second ≤ 9 * second ∧
      ((newTokenBucket 7 1 (300 * second)).getRemaining
        ((newTokenBucket 7 1 (300 * second)).getResetTime
          ((newTokenBucket 7 1 (300 * second)).allow empty "k" ⟨0, 0, le_rfl⟩).2 "k"
          ⟨0, 0, le_rfl⟩).2 "k" ⟨9 * second, 9 * second, le_rfl⟩).1 =
          (newTokenBucket 7 1 (300 * second)).burst ∧
      ((newTokenBucket 7 1 (300 * second)).allow
        ((newTokenBucket 7 1 (300 * second)).getResetTime
          ((newTokenBucket 7 1 (300 * second)).allow empty "k" ⟨0, 0, le_rfl⟩).2 "k"
          ⟨0, 0, le_rfl⟩).2 "k" ⟨9 * second, 9 * second, le_rfl⟩).1 = true := by
  have h : (((newTokenBucket 7 1 (300 * second)).getResetTime
      ((newTokenBucket 7 1 (300 * second)).allow empty "k" ⟨0, 0, le_rfl⟩).2 "k"
      ⟨0, 0, le_rfl⟩).1 + 1) * second ≤ 9 * second := by
    simp only [allow, allowN_eq, getResetTime_eq, empty, level_none, Function.update_same,
      level_some]
    norm_num [newTokenBucket, atLeastOne, resetTimeFrom, refill, seconds, second, unix,
      toDuration, Int.floor_eq_iff]
  exact ⟨h, getRemaining_full_after_reset _ _ _ _ h⟩

end TokenBucket

end Paygate.RateLimit
