import Mathlib.Data.Rat.Floor
import Mathlib.Tactic.Linarith

/-! The token bucket of `gateway/ratelimit.go` in exact rational arithmetic. -/

namespace Paygate.RateLimit

/-- Instants and durations count nanoseconds, as `time.Time` and `time.Duration` do. -/
abbrev Time := Int
abbrev Duration := Int

def second : Duration := 1000000000

/-- `Duration.Seconds`. -/
def seconds (d : Duration) : ℚ := (d : ℚ) / second

/-- `Time.Unix`: whole seconds, rounded down. -/
def unix (t : Time) : Int := t / second

/-- `time.Duration(x)` for a float `x`: the conversion truncates toward zero. -/
def toDuration (x : ℚ) : Duration := if 0 ≤ x then ⌊x⌋ else ⌈x⌉

structure Bucket where
  tokens : ℚ
  lastCheck : Time
  deriving DecidableEq

/-- The fields of `TokenBucket` other than the map; only `NewTokenBucket` builds one, so the
rate and the burst carry the clamp's guarantees. -/
structure TokenBucket where
  rate : ℚ
  burst : Int
  cleanupTTL : Duration
  rate_pos : 0 < rate
  one_le_burst : 1 ≤ burst

/-- The `sync.Map` of buckets, one per key. -/
abbrev Buckets := String → Option Bucket

/-- The two clock readings of a call: `time.Now()` in `getBucket`, then inside the lock. -/
structure Instants where
  created : Time
  now : Time
  created_le : created ≤ now

/-- The clamp `NewTokenBucket` applies to `rpm` and to `burst`. -/
def atLeastOne (x : Int) : Int := if x ≤ 0 then 1 else x

lemma one_le_atLeastOne (x : Int) : 1 ≤ atLeastOne x := by
  unfold atLeastOne
  split <;> omega

def newTokenBucket (rpm burst : Int) (cleanupTTL : Duration) : TokenBucket where
  rate := (atLeastOne rpm : ℚ) / 60
  burst := atLeastOne burst
  cleanupTTL := cleanupTTL
  rate_pos := div_pos (by exact_mod_cast (one_le_atLeastOne rpm).trans_lt' one_pos) (by norm_num)
  one_le_burst := one_le_atLeastOne burst

namespace TokenBucket

variable (tb : TokenBucket)

/-- The refill shared by the three locked sections: `min(burst, tokens + elapsed*rate)`. -/
def refill (b : Bucket) (now : Time) : ℚ :=
  min (tb.burst : ℚ) (b.tokens + seconds (now - b.lastCheck) * tb.rate)

def getBucket (buckets : Buckets) (key : String) (now : Time) : Bucket × Buckets :=
  match buckets key with
  | some b => (b, buckets)
  | none => (⟨tb.burst, now⟩, Function.update buckets key (some ⟨tb.burst, now⟩))

/-- The locked section of `AllowN`: refill, then take `n` tokens if there are that many. -/
def take (b : Bucket) (n : Int) (now : Time) : Bool × Bucket :=
  let tokens := tb.refill b now
  if (n : ℚ) ≤ tokens then (true, ⟨tokens - n, now⟩) else (false, ⟨tokens, now⟩)

def allowN (buckets : Buckets) (key : String) (n : Int) (clock : Instants) : Bool × Buckets :=
  let (b, buckets) := tb.getBucket buckets key clock.created
  let (allowed, b) := tb.take b n clock.now
  (allowed, Function.update buckets key (some b))

def allow (buckets : Buckets) (key : String) (clock : Instants) : Bool × Buckets :=
  tb.allowN buckets key 1 clock

def getRemaining (buckets : Buckets) (key : String) (clock : Instants) : Int × Buckets :=
  let (b, buckets) := tb.getBucket buckets key clock.created
  (⌊tb.refill b clock.now⌋, buckets)

/-- The locked section of `GetResetTime`, from the refilled count. -/
def resetTimeFrom (currentTokens : ℚ) (now : Time) : Int :=
  let tokensNeeded := (tb.burst : ℚ) - currentTokens
  if tokensNeeded ≤ 0 then unix now
  else
    let secondsToFull := tokensNeeded / tb.rate
    unix (now + toDuration (secondsToFull * second))

def getResetTime (buckets : Buckets) (key : String) (clock : Instants) : Int × Buckets :=
  let (b, buckets) := tb.getBucket buckets key clock.created
  (tb.resetTimeFrom (tb.refill b clock.now) clock.now, buckets)

/-- One key of a cleanup tick: the locked read of `lastCheck`, the staleness test and
`buckets.Delete`, taken as one step. -/
def cleanupKey (buckets : Buckets) (key : String) (now : Time) : Buckets :=
  match buckets key with
  | some b => if now - b.lastCheck > tb.cleanupTTL then Function.update buckets key none
    else buckets
  | none => buckets

end TokenBucket

end Paygate.RateLimit
