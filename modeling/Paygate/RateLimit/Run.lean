import Paygate.RateLimit.Refill

/-! Runs of the limiter, each locked section taken as one step. -/

namespace Paygate.RateLimit

inductive Op
  | allowN (n : Int)
  | getRemaining
  | getResetTime

/-- `Allow(key)` is `AllowN(key, 1)`. -/
def Op.allow : Op := .allowN 1

inductive Answer
  | allowed (ok : Bool)
  | remaining (tokens : Int)
  | resetAt (unix : Int)
  deriving DecidableEq

/-- The tokens a call took: `n` for an admitted `AllowN`, none otherwise. -/
def Op.taken : Op → Answer → Int
  | .allowN n, .allowed true => n
  | _, _ => 0

/-- A header read, or an `AllowN` that was refused. -/
def Answer.nonConsuming : Answer → Bool
  | .allowed ok => !ok
  | _ => true

structure Call where
  key : String
  op : Op
  clock : Instants

def InOrder (cs : List Call) : Prop := cs.Pairwise fun a b => a.clock.now ≤ b.clock.now

instance : DecidablePred InOrder := fun cs =>
  inferInstanceAs (Decidable (cs.Pairwise fun a b : Call => a.clock.now ≤ b.clock.now))

def empty : Buckets := fun _ => none

namespace TokenBucket

variable (tb : TokenBucket)

def call (s : Buckets) (c : Call) : Answer × Buckets :=
  match c.op with
  | .allowN n => Prod.map .allowed id (tb.allowN s c.key n c.clock)
  | .getRemaining => Prod.map .remaining id (tb.getRemaining s c.key c.clock)
  | .getResetTime => Prod.map .resetAt id (tb.getResetTime s c.key c.clock)

def answers : Buckets → List Call → List Answer
  | _, [] => []
  | s, c :: cs => (tb.call s c).1 :: answers (tb.call s c).2 cs

def final : Buckets → List Call → Buckets
  | s, [] => s
  | s, c :: cs => final (tb.call s c).2 cs

def answerAt (op : Op) (level : ℚ) (now : Time) : Answer :=
  match op with
  | .allowN n => .allowed (decide ((n : ℚ) ≤ level))
  | .getRemaining => .remaining ⌊level⌋
  | .getResetTime => .resetAt (tb.resetTimeFrom level now)

variable {tb}

@[simp] lemma answers_nil (s : Buckets) : tb.answers s [] = [] := rfl

@[simp] lemma answers_cons (s : Buckets) (c : Call) (cs : List Call) :
    tb.answers s (c :: cs) = (tb.call s c).1 :: tb.answers (tb.call s c).2 cs := rfl

@[simp] lemma final_nil (s : Buckets) : tb.final s [] = s := rfl

@[simp] lemma final_cons (s : Buckets) (c : Call) (cs : List Call) :
    tb.final s (c :: cs) = tb.final (tb.call s c).2 cs := rfl

@[simp] lemma length_answers (s : Buckets) (cs : List Call) : (tb.answers s cs).length = cs.length := by
  induction cs generalizing s <;> simp [*]

lemma answers_append (s : Buckets) (cs ds : List Call) :
    tb.answers s (cs ++ ds) = tb.answers s cs ++ tb.answers (tb.final s cs) ds := by
  induction cs generalizing s <;> simp [*]

lemma final_append (s : Buckets) (cs ds : List Call) :
    tb.final s (cs ++ ds) = tb.final (tb.final s cs) ds := by
  induction cs generalizing s <;> simp [*]

variable (tb)

lemma call_fst (s : Buckets) (c : Call) :
    (tb.call s c).1 = tb.answerAt c.op (tb.level (s c.key) c.clock.now) c.clock.now := by
  unfold call answerAt
  cases c.op <;> simp [allowN_eq, getRemaining_eq, getResetTime_eq]

lemma call_snd_of_ne (s : Buckets) (c : Call) {k : String} (hk : k ≠ c.key) :
    (tb.call s c).2 k = s k := by
  unfold call
  cases c.op <;> simp [allowN_eq, getRemaining_eq, getResetTime_eq, getBucket_eq,
    Function.update_noteq hk]

lemma level_call_self (s : Buckets) (c : Call) :
    tb.level ((tb.call s c).2 c.key) c.clock.now =
      min (tb.burst : ℚ) (tb.level (s c.key) c.clock.now - c.op.taken (tb.call s c).1) := by
  have hle := level_le_burst tb (s c.key) c.clock.now
  unfold call
  cases c.op with
  | allowN n =>
    simp only [allowN_eq, Prod.map, Function.update_same, level_some]
    split_ifs with h <;> simp [Op.taken, h, hle]
  | getRemaining => simpa [getRemaining_eq, Op.taken, level_getBucket _ _ _ c.clock.created_le]
  | getResetTime => simpa [getResetTime_eq, Op.taken, level_getBucket _ _ _ c.clock.created_le]

/-- The level of a key at any later instant is the refill of its level now. -/
lemma level_eq_of_le (o : Option Bucket) {τ t : Time} (h : τ ≤ t) :
    tb.level o t = tb.level (some ⟨tb.level o τ, τ⟩) t :=
  (level_refill o h).symm

end TokenBucket

end Paygate.RateLimit
