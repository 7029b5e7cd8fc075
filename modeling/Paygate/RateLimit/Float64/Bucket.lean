import Paygate.RateLimit.Reclamation
import Paygate.RateLimit.Float64.Round

/-! `gateway/ratelimit.go` as it computes: `float64` tokens, `Time.Sub` and `Duration.Seconds`. -/

namespace Paygate.RateLimit

def minDuration : Duration := -9223372036854775808

def maxDuration : Duration := 9223372036854775807

/-- `Time.Sub`, which saturates at the bounds of `Duration`. -/
def Time.sub (t u : Time) : Duration := max minDuration (min maxDuration (t - u))

@[simp] lemma Time.sub_self (t : Time) : Time.sub t t = 0 := by
  simp [Time.sub, minDuration, maxDuration]

lemma Time.sub_nonneg {t u : Time} (h : u ≤ t) : 0 ≤ Time.sub t u :=
  le_max_of_le_right (le_min (by decide) (Int.sub_nonneg_of_le h))

lemma Time.sub_le_maxDuration (t u : Time) : Time.sub t u ≤ maxDuration :=
  max_le (by decide) (min_le_left _ _)

lemma Time.sub_mono {t t' u : Time} (h : t ≤ t') : Time.sub t u ≤ Time.sub t' u :=
  max_le_max le_rfl (min_le_min le_rfl (Int.sub_le_sub_right h u))

end Paygate.RateLimit

namespace Paygate.RateLimit.Float64

/-- `Duration.Seconds`: `float64(d / Second) + float64(d % Second) / 1e9`. -/
def seconds (d : Duration) : ℚ := fl (fl (d.tdiv second) + fl (fl (d.tmod second) / second))

lemma fl_intCast_of_le {n : ℤ} (h0 : 0 ≤ n) (h1 : n ≤ 9007199254740992) : fl n = n := by
  have : (n : ℚ) ≤ 9007199254740992 := by exact_mod_cast h1
  exact fl_intCast (abs_le.2 ⟨by linarith [(Int.cast_nonneg.2 h0 : (0 : ℚ) ≤ n)], by linarith⟩)

@[simp] lemma seconds_zero : seconds 0 = 0 := by
  simp [seconds]

lemma seconds_nonneg {d : Duration} (h : 0 ≤ d) : 0 ≤ seconds d :=
  fl_nonneg (add_nonneg (fl_nonneg (by exact_mod_cast Int.tdiv_nonneg h (by decide)))
    (fl_nonneg (div_nonneg (fl_nonneg (by exact_mod_cast Int.tmod_nonneg _ h))
      (by norm_num [second]))))

lemma seconds_nonpos {d : Duration} (h : d ≤ 0) : seconds d ≤ 0 := by
  have hq : d.tdiv second = -((-d) / second) := by
    rw [← Int.tdiv_eq_ediv (a := -d) (b := second) (neg_nonneg.2 h) (by decide), Int.neg_tdiv,
      neg_neg]
  have h1 : d.tdiv second ≤ 0 := by
    rw [hq]
    simp only [second, Duration] at *
    omega
  have h2 : d.tmod second ≤ 0 := by
    rw [Int.tmod_def, hq]
    simp only [second, Duration] at *
    omega
  exact fl_nonpos (add_nonpos (fl_nonpos (by exact_mod_cast h1))
    (fl_nonpos (div_nonpos_of_nonpos_of_nonneg (fl_nonpos (by exact_mod_cast h2))
      (by norm_num [second]))))

lemma seconds_le_seconds {d d' : Duration} (h0 : 0 ≤ d) (h : d ≤ d') (h' : d' ≤ maxDuration) :
    seconds d ≤ seconds d' := by
  obtain ⟨x, rfl⟩ : ∃ x : ℤ, x = d := ⟨_, rfl⟩
  obtain ⟨y, rfl⟩ : ∃ y : ℤ, y = d' := ⟨_, rfl⟩
  simp only [Duration, maxDuration] at h0 h h'
  have hsq : (0 : ℚ) < 1000000000 := by norm_num
  have hfrac : ∀ r : ℤ, 0 ≤ r → r < 1000000000 →
      0 ≤ fl (fl r / 1000000000) ∧ fl (fl r / 1000000000) ≤ 1 := fun r hr0 hr1 => by
    rw [fl_intCast_of_le hr0 (by omega)]
    refine ⟨fl_nonneg (div_nonneg (by exact_mod_cast hr0) hsq.le), ?_⟩
    rw [← fl_one]
    exact fl_mono ((div_le_one hsq).2 (by exact_mod_cast hr1.le))
  have hle : x / 1000000000 ≤ y / 1000000000 := by omega
  refine fl_mono ?_
  rw [show second = 1000000000 from rfl, Int.tdiv_eq_ediv h0 (by decide),
    Int.tmod_eq_emod h0 (by decide), Int.tdiv_eq_ediv (h0.trans h) (by decide),
    Int.tmod_eq_emod (h0.trans h) (by decide), fl_intCast_of_le (n := x / 1000000000) (by omega)
      (by omega), fl_intCast_of_le (n := y / 1000000000) (by omega) (by omega)]
  push_cast
  have hr := hfrac (x % 1000000000) (by omega) (by omega)
  have hr' := hfrac (y % 1000000000) (by omega) (by omega)
  rcases hle.lt_or_eq with hlt | heq
  · calc ((x / 1000000000 : ℤ) : ℚ) + fl (fl (x % 1000000000 : ℤ) / 1000000000)
        ≤ (x / 1000000000 : ℤ) + 1 := add_le_add_left hr.2 _
      _ ≤ (y / 1000000000 : ℤ) := by exact_mod_cast hlt
      _ ≤ (y / 1000000000 : ℤ) + fl (fl (y % 1000000000 : ℤ) / 1000000000) :=
        le_add_of_nonneg_right hr'.1
  · rw [heq]
    exact add_le_add_left (fl_mono (div_le_div_of_nonneg_right (fl_mono
      (by exact_mod_cast (show x % 1000000000 ≤ y % 1000000000 by omega))) hsq.le)) _

/-- The fields of `TokenBucket` other than the map. -/
structure TokenBucket where
  rate : ℚ
  burst : Int
  cleanupTTL : Duration
  rate_pos : 0 < rate
  one_le_burst : 1 ≤ burst

/-- `NewTokenBucket`: the clamp, then `rate = float64(rpm) / 60.0`. -/
def newTokenBucket (rpm burst : Int) (cleanupTTL : Duration) : TokenBucket where
  rate := fl (fl (atLeastOne rpm) / 60)
  burst := atLeastOne burst
  cleanupTTL := cleanupTTL
  rate_pos := fl_pos (div_pos (fl_pos (by exact_mod_cast (one_le_atLeastOne rpm).trans_lt' one_pos))
    (by norm_num))
  one_le_burst := one_le_atLeastOne burst

namespace TokenBucket

open Paygate.RateLimit.TokenBucket (Sound)

variable (tb : TokenBucket)

/-- `float64(tb.burst)`. -/
def burstTokens : ℚ := fl tb.burst

/-- `math.Min(float64(tb.burst), b.tokens+elapsed*tb.rate)`, each operation rounded. -/
def refill (b : Bucket) (now : Time) : ℚ :=
  min tb.burstTokens (fl (b.tokens + fl (seconds (Time.sub now b.lastCheck) * tb.rate)))

def getBucket (buckets : Buckets) (key : String) (now : Time) : Bucket × Buckets :=
  match buckets key with
  | some b => (b, buckets)
  | none => (⟨tb.burstTokens, now⟩, Function.update buckets key (some ⟨tb.burstTokens, now⟩))

/-- The locked section of `AllowN`. -/
def take (b : Bucket) (n : Int) (now : Time) : Bool × Bucket :=
  let tokens := tb.refill b now
  if fl n ≤ tokens then (true, ⟨fl (tokens - fl n), now⟩) else (false, ⟨tokens, now⟩)

def allowN (buckets : Buckets) (key : String) (n : Int) (clock : Instants) : Bool × Buckets :=
  let (b, buckets) := tb.getBucket buckets key clock.created
  let (allowed, b) := tb.take b n clock.now
  (allowed, Function.update buckets key (some b))

def allow (buckets : Buckets) (key : String) (clock : Instants) : Bool × Buckets :=
  tb.allowN buckets key 1 clock

def getRemaining (buckets : Buckets) (key : String) (clock : Instants) : Int × Buckets :=
  let (b, buckets) := tb.getBucket buckets key clock.created
  (⌊tb.refill b clock.now⌋, buckets)

/-- The locked section of `GetResetTime`, from the refilled count. -/
def resetTimeFrom (currentTokens : ℚ) (now : Time) : Int :=
  let tokensNeeded := fl (tb.burstTokens - currentTokens)
  if tokensNeeded ≤ 0 then unix now
  else
    let secondsToFull := fl (tokensNeeded / tb.rate)
    unix (now + toDuration (fl (secondsToFull * second)))

def getResetTime (buckets : Buckets) (key : String) (clock : Instants) : Int × Buckets :=
  let (b, buckets) := tb.getBucket buckets key clock.created
  (tb.resetTimeFrom (tb.refill b clock.now) clock.now, buckets)

/-- One key of a cleanup tick: the locked read of `lastCheck`, the staleness test and
`buckets.Delete`, taken as one step. -/
def cleanupKey (buckets : Buckets) (key : String) (now : Time) : Buckets :=
  match buckets key with
  | some b => if Time.sub now b.lastCheck > tb.cleanupTTL then Function.update buckets key none
    else buckets
  | none => buckets

def call (s : Buckets) (c : Call) : Answer × Buckets :=
  match c.op with
  | .allowN n => Prod.map .allowed id (tb.allowN s c.key n c.clock)
  | .getRemaining => Prod.map .remaining id (tb.getRemaining s c.key c.clock)
  | .getResetTime => Prod.map .resetAt id (tb.getResetTime s c.key c.clock)

def answers : Buckets → List Call → List Answer
  | _, [] => []
  | s, c :: cs => (tb.call s c).1 :: answers (tb.call s c).2 cs

def results : Buckets → List Event → List Answer
  | _, [] => []
  | s, .call c :: es => (tb.call s c).1 :: results (tb.call s c).2 es
  | s, .cleanup k now :: es => results (tb.cleanupKey s k now) es

def level : Option Bucket → Time → ℚ
  | none, _ => tb.burstTokens
  | some b, t => tb.refill b t

def Full (o : Option Bucket) (τ : Time) : Prop := ∀ t, τ ≤ t → tb.level o t = tb.burstTokens

def answerAt (op : Op) (level : ℚ) (now : Time) : Answer :=
  match op with
  | .allowN n => .allowed (decide (fl n ≤ level))
  | .getRemaining => .remaining ⌊level⌋
  | .getResetTime => .resetAt (tb.resetTimeFrom level now)

variable {tb}

@[simp] lemma answers_nil (s : Buckets) : tb.answers s [] = [] := rfl

@[simp] lemma answers_cons (s : Buckets) (c : Call) (cs : List Call) :
    tb.answers s (c :: cs) = (tb.call s c).1 :: tb.answers (tb.call s c).2 cs := rfl

@[simp] lemma level_none (t : Time) : tb.level none t = tb.burstTokens := rfl

@[simp] lemma level_some (b : Bucket) (t : Time) : tb.level (some b) t = tb.refill b t := rfl

@[simp] lemma fl_burst : fl (tb.burst : ℚ) = tb.burstTokens := rfl

@[simp] lemma fl_burstTokens : fl tb.burstTokens = tb.burstTokens := fl_fl _

lemma one_le_burstTokens : 1 ≤ tb.burstTokens := by
  simpa using fl_mono (show (1 : ℚ) ≤ tb.burst by exact_mod_cast tb.one_le_burst)

lemma burstTokens_nonneg : 0 ≤ tb.burstTokens := zero_le_one.trans one_le_burstTokens

lemma refill_le_burstTokens (b : Bucket) (t : Time) : tb.refill b t ≤ tb.burstTokens :=
  min_le_left _ _

lemma level_le_burstTokens (o : Option Bucket) (t : Time) : tb.level o t ≤ tb.burstTokens := by
  cases o
  · exact le_rfl
  · exact refill_le_burstTokens _ _

@[simp] lemma fl_refill (b : Bucket) (t : Time) : fl (tb.refill b t) = tb.refill b t := by
  unfold refill
  rcases min_choice tb.burstTokens (fl (b.tokens + fl (seconds (Time.sub t b.lastCheck) * tb.rate)))
    with h | h <;> rw [h] <;> simp

lemma elapsed_nonneg {t u : Time} (h : u ≤ t) : 0 ≤ fl (seconds (Time.sub t u) * tb.rate) :=
  fl_nonneg (mul_nonneg (seconds_nonneg (Time.sub_nonneg h)) tb.rate_pos.le)

lemma refill_eq_burstTokens {b : Bucket} {t : Time}
    (h : tb.burstTokens ≤ b.tokens + fl (seconds (Time.sub t b.lastCheck) * tb.rate)) :
    tb.refill b t = tb.burstTokens :=
  le_antisymm (refill_le_burstTokens b t) (le_min le_rfl (fl_le_fl_of_ge h))

lemma refill_full {b : Bucket} {t : Time} (hb : tb.burstTokens ≤ b.tokens) (ht : b.lastCheck ≤ t) :
    tb.refill b t = tb.burstTokens :=
  refill_eq_burstTokens (le_add_of_le_of_nonneg hb (elapsed_nonneg ht))

lemma refill_self {x : ℚ} (hx : fl x = x) (t : Time) : tb.refill ⟨x, t⟩ t = min tb.burstTokens x := by
  simp [refill, hx]

lemma refill_nonneg {b : Bucket} {t : Time} (hb : 0 ≤ b.tokens) (ht : b.lastCheck ≤ t) :
    0 ≤ tb.refill b t :=
  le_min burstTokens_nonneg (fl_nonneg (add_nonneg hb (elapsed_nonneg ht)))

lemma level_nonneg_of_sound {s : Buckets} {τ : Time} (h : Sound s τ) (k : String) {t : Time}
    (ht : τ ≤ t) : 0 ≤ tb.level (s k) t := by
  cases hk : s k with
  | none => exact burstTokens_nonneg
  | some b => exact refill_nonneg (h k b hk).1 ((h k b hk).2.trans ht)

lemma Full.mono {o : Option Bucket} {τ τ' : Time} (h : tb.Full o τ) (hτ : τ ≤ τ') : tb.Full o τ' :=
  fun t ht => h t (hτ.trans ht)

lemma full_none (τ : Time) : tb.Full none τ := fun _ _ => rfl

lemma full_fresh {c τ : Time} (h : c ≤ τ) : tb.Full (some ⟨tb.burstTokens, c⟩) τ :=
  fun _ ht => refill_full le_rfl (h.trans ht)

lemma getBucket_eq (s : Buckets) (k : String) (t : Time) :
    tb.getBucket s k t = ((s k).getD ⟨tb.burstTokens, t⟩,
      Function.update s k (some ((s k).getD ⟨tb.burstTokens, t⟩))) := by
  unfold getBucket
  split <;> simp_all [Function.update_eq_self]

lemma refill_getD (s : Buckets) (k : String) {c t : Time} (h : c ≤ t) :
    tb.refill ((s k).getD ⟨tb.burstTokens, c⟩) t = tb.level (s k) t := by
  cases s k with
  | none => exact refill_full le_rfl h
  | some b => rfl

lemma full_getD {s : Buckets} {k : String} {τ c t : Time} (h : tb.Full (s k) τ) (hτ : τ ≤ t)
    (hc : c ≤ t) : tb.Full (some ((s k).getD ⟨tb.burstTokens, c⟩)) t := by
  cases hk : s k with
  | none => exact full_fresh hc
  | some b =>
    rw [hk] at h
    exact h.mono hτ

lemma allowN_eq (s : Buckets) (k : String) (n : Int) (c : Instants) :
    tb.allowN s k n c = (decide (fl n ≤ tb.level (s k) c.now),
      Function.update s k (some ⟨if fl n ≤ tb.level (s k) c.now then
        fl (tb.level (s k) c.now - fl n) else tb.level (s k) c.now, c.now⟩)) := by
  unfold allowN take
  rw [getBucket_eq]
  dsimp only
  rw [refill_getD s k c.created_le]
  split_ifs <;> simp [Function.update_idem, *]

lemma getRemaining_eq (s : Buckets) (k : String) (c : Instants) :
    tb.getRemaining s k c = (⌊tb.level (s k) c.now⌋, (tb.getBucket s k c.created).2) := by
  unfold getRemaining
  rw [getBucket_eq]
  dsimp only
  rw [refill_getD s k c.created_le]

lemma getResetTime_eq (s : Buckets) (k : String) (c : Instants) :
    tb.getResetTime s k c =
      (tb.resetTimeFrom (tb.level (s k) c.now) c.now, (tb.getBucket s k c.created).2) := by
  unfold getResetTime
  rw [getBucket_eq]
  dsimp only
  rw [refill_getD s k c.created_le]

variable (tb)

lemma call_fst (s : Buckets) (c : Call) :
    (tb.call s c).1 = tb.answerAt c.op (tb.level (s c.key) c.clock.now) c.clock.now := by
  unfold call answerAt
  cases c.op <;> simp [allowN_eq, getRemaining_eq, getResetTime_eq]

lemma call_snd_of_ne (s : Buckets) (c : Call) {k : String} (hk : k ≠ c.key) :
    (tb.call s c).2 k = s k := by
  unfold call
  cases c.op <;> simp [allowN_eq, getRemaining_eq, getResetTime_eq, getBucket_eq,
    Function.update_noteq hk]

variable {tb}

lemma call_congr {s s' : Buckets} (c : Call) (h : s c.key = s' c.key) :
    (tb.call s c).1 = (tb.call s' c).1 ∧ (tb.call s c).2 c.key = (tb.call s' c).2 c.key := by
  refine ⟨by rw [call_fst, call_fst, h], ?_⟩
  unfold call
  cases c.op <;> simp [allowN_eq, getRemaining_eq, getResetTime_eq, getBucket_eq, h]

lemma call_full {s s' : Buckets} {τ : Time} (c : Call) (hc : τ ≤ c.clock.now)
    (h : tb.Full (s c.key) τ) (h' : tb.Full (s' c.key) τ) :
    (tb.call s c).2 c.key = (tb.call s' c).2 c.key ∨
      tb.Full ((tb.call s c).2 c.key) c.clock.now ∧
        tb.Full ((tb.call s' c).2 c.key) c.clock.now := by
  have hcr := c.clock.created_le
  unfold call
  cases c.op with
  | allowN n =>
    left
    simp [allowN_eq, h _ hc, h' _ hc]
  | getRemaining =>
    right
    simpa [getRemaining_eq, getBucket_eq] using ⟨full_getD h hc hcr, full_getD h' hc hcr⟩
  | getResetTime =>
    right
    simpa [getResetTime_eq, getBucket_eq] using ⟨full_getD h hc hcr, full_getD h' hc hcr⟩

lemma sound_call {s : Buckets} {τ : Time} (h : Sound s τ) (c : Call) (hc : τ ≤ c.clock.now) :
    Sound (tb.call s c).2 c.clock.now := by
  intro k b hb
  by_cases hk : k = c.key
  · subst hk
    unfold call at hb
    cases hop : c.op with
    | allowN n =>
      simp only [hop, allowN_eq, Prod.map, id_eq, Function.update_same, Option.some.injEq] at hb
      subst hb
      split_ifs with hn
      · exact ⟨fl_nonneg (sub_nonneg.2 hn), le_rfl⟩
      · exact ⟨level_nonneg_of_sound h c.key hc, le_rfl⟩
    | getRemaining | getResetTime =>
      simp only [hop, getRemaining_eq, getResetTime_eq, getBucket_eq, Prod.map, id_eq,
        Function.update_same, Option.some.injEq] at hb
      subst hb
      cases hs : s c.key with
      | none => exact ⟨burstTokens_nonneg, c.clock.created_le⟩
      | some b => exact ⟨(h _ b hs).1, (h _ b hs).2.trans hc⟩
  · rw [call_snd_of_ne tb s c hk] at hb
    exact ⟨(h k b hb).1, (h k b hb).2.trans hc⟩

end TokenBucket

end Paygate.RateLimit.Float64
