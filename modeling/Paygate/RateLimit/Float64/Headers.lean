import Paygate.RateLimit.Float64.Bucket

/-! `GetRemaining` against the admission path of `AllowN`, both in `float64`. -/

namespace Paygate.RateLimit.Float64.TokenBucket

variable {tb : TokenBucket}

@[simp] lemma fl_level (o : Option Bucket) (t : Time) : fl (tb.level o t) = tb.level o t := by
  cases o <;> simp

lemma burstTokens_eq (hb : (tb.burst : ℚ) ≤ 2 ^ 53) : tb.burstTokens = tb.burst := by
  have h1 : (1 : ℚ) ≤ tb.burst := by exact_mod_cast tb.one_le_burst
  exact fl_intCast (abs_le.2 ⟨by linarith [(by norm_num : (0 : ℚ) ≤ 2 ^ 53)], hb⟩)

lemma allow_call (hb : (tb.burst : ℚ) ≤ 2 ^ 53) (s : Buckets) (k : String) (c : Instants) :
    (tb.call s ⟨k, .allow, c⟩).1 = .allowed (decide (1 ≤ tb.level (s k) c.now)) ∧
      tb.level ((tb.call s ⟨k, .allow, c⟩).2 k) c.now =
        if 1 ≤ tb.level (s k) c.now then tb.level (s k) c.now - 1 else tb.level (s k) c.now := by
  have hL : tb.level (s k) c.now ≤ tb.burstTokens := level_le_burstTokens _ _
  have hle : tb.level (s k) c.now ≤ 2 ^ 53 := hL.trans ((burstTokens_eq hb).le.trans hb)
  have hfl : fl (tb.level (s k) c.now) = tb.level (s k) c.now := fl_level _ _
  constructor
  · simp [call, Op.allow, allowN_eq]
  simp only [call, Op.allow, allowN_eq, Prod.map, id_eq, Function.update_same, level_some,
    Int.cast_one, fl_one]
  split_ifs with h
  · rw [refill_self (fl_fl _), fl_sub_one hfl h hle]
    exact min_eq_right (by linarith)
  · rw [refill_self hfl]
    exact min_eq_right hL

lemma allow_answers (hb : (tb.burst : ℚ) ≤ 2 ^ 53) (s : Buckets) (k : String) (t : Time)
    (clocks : List Instants) (hc : ∀ c ∈ clocks, c.now = t) :
    tb.answers s (clocks.map fun c => ⟨k, .allow, c⟩) =
      (List.range clocks.length).map fun i =>
        .allowed (decide ((i : Int) < ⌊tb.level (s k) t⌋)) := by
  induction clocks generalizing s with
  | nil => rfl
  | cons c clocks ih =>
    obtain ⟨hfst, hlev⟩ := allow_call hb s k c
    rw [hc c (List.mem_cons_self _ _)] at hfst hlev
    rw [List.map_cons, answers_cons, List.length_cons, List.range_succ_eq_map, List.map_cons,
      List.map_map, hfst, ih _ fun c hc' => hc c (List.mem_cons_of_mem _ hc'), hlev]
    congr 1
    · simp [Int.floor_pos]
    · refine List.map_congr_left fun i _ => ?_
      simp only [Function.comp, Nat.cast_succ, Answer.allowed.injEq, decide_eq_decide]
      split_ifs with h
      · rw [Int.floor_sub_one]
        omega
      · have : ⌊tb.level (s k) t⌋ < 1 := Int.floor_lt.2 (by exact_mod_cast not_le.1 h)
        omega

section Runs

attribute [local semireducible] Rat.add Rat.mul Rat.inv Rat.sub

set_option maxRecDepth 100000

end Runs

end Paygate.RateLimit.Float64.TokenBucket
