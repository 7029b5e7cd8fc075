import Paygate.RateLimit.Bucket

/-! What a key holds at an instant, and each method of the limiter read through it. -/

namespace Paygate.RateLimit

lemma seconds_sub_add (a b c : Time) : seconds (a - c) = seconds (a - b) + seconds (b - c) := by
  simp only [seconds]
  push_cast
  ring

lemma seconds_nonneg {d : Duration} (h : 0 ≤ d) : 0 ≤ seconds d :=
  div_nonneg (by exact_mod_cast h) (by norm_num [second])

namespace TokenBucket

variable (tb : TokenBucket)

/-- The refilled count of a key at `t`; an absent bucket is the full one `getBucket` makes. -/
def level : Option Bucket → Time → ℚ
  | none, _ => tb.burst
  | some b, t => tb.refill b t

@[simp] lemma level_none (t : Time) : tb.level none t = tb.burst := rfl

@[simp] lemma level_some (b : Bucket) (t : Time) : tb.level (some b) t = tb.refill b t := rfl

variable {tb}

@[simp] lemma refill_self (x : ℚ) (t : Time) : tb.refill ⟨x, t⟩ t = min (tb.burst : ℚ) x := by
  simp [refill, seconds]

lemma burst_nonneg : (0 : ℚ) ≤ tb.burst := by exact_mod_cast tb.one_le_burst.trans' zero_le_one

variable (tb) in
lemma refill_le_burst (b : Bucket) (t : Time) : tb.refill b t ≤ tb.burst := min_le_left _ _

variable (tb) in
lemma level_le_burst (o : Option Bucket) (t : Time) : tb.level o t ≤ tb.burst := by
  cases o
  · exact le_rfl
  · exact refill_le_burst tb _ _

lemma refill_nonneg {b : Bucket} {t : Time} (hb : 0 ≤ b.tokens) (ht : b.lastCheck ≤ t) :
    0 ≤ tb.refill b t :=
  le_min burst_nonneg
    (add_nonneg hb (mul_nonneg (seconds_nonneg (sub_nonneg.2 ht)) tb.rate_pos.le))

lemma refill_refill (b : Bucket) {t t' : Time} (h : t ≤ t') :
    tb.refill ⟨tb.refill b t, t⟩ t' = tb.refill b t' := by
  have hd : 0 ≤ seconds (t' - t) * tb.rate :=
    mul_nonneg (seconds_nonneg (sub_nonneg.2 h)) tb.rate_pos.le
  simp only [refill, seconds_sub_add t' t b.lastCheck]
  rcases le_total (tb.burst : ℚ) (b.tokens + seconds (t - b.lastCheck) * tb.rate) with h1 | h1
  · rw [min_eq_left h1, min_eq_left (by linarith), min_eq_left (by linarith)]
  · rw [min_eq_right h1]
    ring_nf

lemma refill_le_add (b : Bucket) {t t' : Time} (h : t ≤ t') :
    tb.refill b t' ≤ tb.refill b t + seconds (t' - t) * tb.rate := by
  rw [← refill_refill b h]
  exact min_le_right _ _

variable (tb) in
lemma level_le_add (o : Option Bucket) {t t' : Time} (h : t ≤ t') :
    tb.level o t' ≤ tb.level o t + seconds (t' - t) * tb.rate := by
  cases o with
  | none => simpa using mul_nonneg (seconds_nonneg (sub_nonneg.2 h)) tb.rate_pos.le
  | some b => exact refill_le_add b h

lemma refill_mono (b : Bucket) {t t' : Time} (h : t ≤ t') : tb.refill b t ≤ tb.refill b t' := by
  rw [← refill_refill b h, refill]
  refine le_min (refill_le_burst tb b t) ?_
  simpa using mul_nonneg (seconds_nonneg (sub_nonneg.2 h)) tb.rate_pos.le

lemma refill_full {b : Bucket} {t : Time} (hb : (tb.burst : ℚ) ≤ b.tokens) (ht : b.lastCheck ≤ t) :
    tb.refill b t = tb.burst :=
  le_antisymm (refill_le_burst tb b t)
    (le_min le_rfl (le_add_of_le_of_nonneg hb
      (mul_nonneg (seconds_nonneg (sub_nonneg.2 ht)) tb.rate_pos.le)))

lemma refill_eq_burst {b : Bucket} {t : Time}
    (h : (tb.burst : ℚ) - b.tokens ≤ seconds (t - b.lastCheck) * tb.rate) : tb.refill b t = tb.burst :=
  min_eq_left (by linarith)

lemma level_refill (o : Option Bucket) {t t' : Time} (h : t ≤ t') :
    tb.level (some ⟨tb.level o t, t⟩) t' = tb.level o t' := by
  cases o with
  | none => exact refill_full le_rfl h
  | some b => exact refill_refill b h

lemma getBucket_eq (s : Buckets) (k : String) (t : Time) :
    tb.getBucket s k t = ((s k).getD ⟨tb.burst, t⟩,
      Function.update s k (some ((s k).getD ⟨tb.burst, t⟩))) := by
  unfold getBucket
  split <;> simp_all [Function.update_eq_self]

lemma refill_getD (s : Buckets) (k : String) {c t : Time} (h : c ≤ t) :
    tb.refill ((s k).getD ⟨tb.burst, c⟩) t = tb.level (s k) t := by
  cases s k with
  | none => exact refill_full le_rfl h
  | some b => rfl

lemma level_getBucket (s : Buckets) (k k' : String) {c t : Time} (h : c ≤ t) :
    tb.level ((tb.getBucket s k c).2 k') t = tb.level (s k') t := by
  rw [getBucket_eq]
  dsimp only
  by_cases hk : k' = k
  · subst hk
    rw [Function.update_same, level_some, refill_getD s k' h]
  · rw [Function.update_noteq hk]

lemma allowN_eq (s : Buckets) (k : String) (n : Int) (c : Instants) :
    tb.allowN s k n c = (decide ((n : ℚ) ≤ tb.level (s k) c.now),
      Function.update s k (some ⟨if (n : ℚ) ≤ tb.level (s k) c.now then
        tb.level (s k) c.now - n else tb.level (s k) c.now, c.now⟩)) := by
  unfold allowN take
  rw [getBucket_eq]
  dsimp only
  rw [refill_getD s k c.created_le]
  split_ifs <;> simp [Function.update_idem, *]

lemma getRemaining_eq (s : Buckets) (k : String) (c : Instants) :
    tb.getRemaining s k c = (⌊tb.level (s k) c.now⌋, (tb.getBucket s k c.created).2) := by
  unfold getRemaining
  rw [getBucket_eq]
  dsimp only
  rw [refill_getD s k c.created_le]

lemma getResetTime_eq (s : Buckets) (k : String) (c : Instants) :
    tb.getResetTime s k c =
      (tb.resetTimeFrom (tb.level (s k) c.now) c.now, (tb.getBucket s k c.created).2) := by
  unfold getResetTime
  rw [getBucket_eq]
  dsimp only
  rw [refill_getD s k c.created_le]

end TokenBucket

end Paygate.RateLimit
