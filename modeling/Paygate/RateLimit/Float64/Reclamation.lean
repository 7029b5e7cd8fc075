import Paygate.RateLimit.Float64.Headers

/-! Two `float64` limiters whose keys hold the same bucket, or read as full, answer every later
call alike: dropping header reads, and sweeps when `cleanupTTL.Seconds()*rate ≥ burst`. -/

namespace Paygate.RateLimit

/-- `GetRemaining` and `GetResetTime`, the methods that only read their key's bucket. -/
def Op.isRead : Op → Bool
  | .allowN _ => false
  | .getRemaining | .getResetTime => true

end Paygate.RateLimit

namespace Paygate.RateLimit.Float64.TokenBucket

open Paygate.RateLimit.TokenBucket (Sound sound_empty)

variable (tb : TokenBucket)

def Agree (s s' : Buckets) (τ : Time) : Prop :=
  ∀ k, s k = s' k ∨ tb.Full (s k) τ ∧ tb.Full (s' k) τ

variable {tb}

lemma Agree.symm {s s' : Buckets} {τ : Time} (h : tb.Agree s s' τ) : tb.Agree s' s τ :=
  fun k => (h k).imp Eq.symm And.symm

lemma Agree.trans {s s' s'' : Buckets} {τ : Time} (h : tb.Agree s s' τ) (h' : tb.Agree s' s'' τ) :
    tb.Agree s s'' τ := fun k => by
  rcases h k with e | ⟨f, f'⟩ <;> rcases h' k with e' | ⟨g, g'⟩
  · exact .inl (e.trans e')
  · exact .inr ⟨e ▸ g, g'⟩
  · exact .inr ⟨f, e' ▸ f'⟩
  · exact .inr ⟨f, g'⟩

lemma Agree.later {s s' : Buckets} {τ t : Time} (h : tb.Agree s s' τ) (ht : τ ≤ t) :
    tb.Agree s s' t := fun k => (h k).imp_right fun ⟨f, f'⟩ => ⟨f.mono ht, f'.mono ht⟩

lemma call_agree {s s' : Buckets} {τ : Time} (h : tb.Agree s s' τ) (c : Call) (hc : τ ≤ c.clock.now) :
    (tb.call s c).1 = (tb.call s' c).1 ∧ tb.Agree (tb.call s c).2 (tb.call s' c).2 c.clock.now := by
  refine ⟨?_, fun k => ?_⟩
  · rcases h c.key with e | ⟨f, f'⟩
    · exact (call_congr c e).1
    · rw [call_fst, call_fst, f _ hc, f' _ hc]
  by_cases hk : k = c.key
  · subst hk
    rcases h c.key with e | ⟨f, f'⟩
    · exact .inl (call_congr c e).2
    · exact call_full c hc f f'
  · rw [call_snd_of_ne tb s c hk, call_snd_of_ne tb s' c hk]
    exact (h.later hc) k

lemma answers_agree {s s' : Buckets} {τ : Time} (h : tb.Agree s s' τ) {cs : List Call}
    (hcs : InOrder cs) (hτ : ∀ c ∈ cs, τ ≤ c.clock.now) : tb.answers s cs = tb.answers s' cs := by
  induction cs generalizing s s' τ with
  | nil => rfl
  | cons c cs ih =>
    obtain ⟨hc, hcs⟩ := List.pairwise_cons.1 hcs
    obtain ⟨hans, hnext⟩ := call_agree h c (hτ c (List.mem_cons_self _ _))
    rw [answers_cons, answers_cons, hans, ih hnext hcs hc]

lemma agree_getBucket (s : Buckets) (k : String) {c t : Time} (hc : c ≤ t) :
    tb.Agree (tb.getBucket s k c).2 s t := fun k' => by
  unfold getBucket
  cases hs : s k with
  | some b => exact .inl rfl
  | none =>
    dsimp only
    by_cases hk : k' = k
    · subst hk
      rw [Function.update_same, hs]
      exact .inr ⟨full_fresh hc, full_none t⟩
    · exact .inl (Function.update_noteq hk _ _)

lemma agree_call_of_isRead (s : Buckets) {c : Call} (h : c.op.isRead = true) :
    tb.Agree (tb.call s c).2 s c.clock.now := by
  unfold call
  cases hop : c.op with
  | allowN n => rw [hop] at h; cases h
  | getRemaining => simpa [getRemaining_eq] using agree_getBucket s c.key c.clock.created_le
  | getResetTime => simpa [getResetTime_eq] using agree_getBucket s c.key c.clock.created_le

lemma answers_prune_of_agree {s s' : Buckets} {τ : Time} (h : tb.Agree s s' τ) {cs : List Call}
    (hcs : InOrder cs) (hτ : ∀ c ∈ cs, τ ≤ c.clock.now) (drop : List Bool)
    (hdrop : ∀ p ∈ drop.zip cs, p.1 = true → p.2.op.isRead = true) :
    tb.answers s' (prune drop cs) = prune drop (tb.answers s cs) := by
  induction cs generalizing drop s s' τ with
  | nil => rcases drop with _ | ⟨_ | _, _⟩ <;> rfl
  | cons c cs ih =>
    obtain ⟨hc, hcs⟩ := List.pairwise_cons.1 hcs
    have hcτ := hτ c (List.mem_cons_self _ _)
    match drop, hdrop with
    | [], _ => exact (answers_agree h.symm (List.pairwise_cons.2 ⟨hc, hcs⟩) hτ)
    | true :: ds, hdrop =>
      have hread := hdrop (true, c) (List.mem_cons_self _ _) rfl
      exact ih ((agree_call_of_isRead s hread).trans (h.later hcτ)) hcs hc ds
        fun p hp => hdrop p (List.mem_cons_of_mem _ hp)
    | false :: ds, hdrop =>
      obtain ⟨hans, hnext⟩ := call_agree h.symm c hcτ
      simp only [prune, answers_cons, hans]
      rw [ih hnext.symm hcs hc ds fun p hp => hdrop p (List.mem_cons_of_mem _ hp)]

/-- Dropping any `GetRemaining` and `GetResetTime` calls from an ordered run leaves the answers
of the remaining calls as they were. -/
theorem answers_prune_reads (tb : TokenBucket) {cs : List Call} (hcs : InOrder cs)
    (drop : List Bool) (hdrop : ∀ p ∈ drop.zip cs, p.1 = true → p.2.op.isRead = true) :
    tb.answers empty (prune drop cs) = prune drop (tb.answers empty cs) := by
  obtain ⟨τ, hτ⟩ := exists_le_all cs
  exact answers_prune_of_agree (fun _ => .inl rfl) hcs hτ drop hdrop

theorem answers_prune_reads_lazy_create :
    InOrder [⟨"k", .getRemaining, ⟨0, 0, le_rfl⟩⟩, ⟨"k", .allow, ⟨second, second, le_rfl⟩⟩] ∧
      (∀ p ∈ [true].zip [(⟨"k", .getRemaining, ⟨0, 0, le_rfl⟩⟩ : Call),
          ⟨"k", .allow, ⟨second, second, le_rfl⟩⟩], p.1 = true → p.2.op.isRead = true) ∧
      (newTokenBucket 10 5 (300 * second)).answers empty
          (prune [true] [⟨"k", .getRemaining, ⟨0, 0, le_rfl⟩⟩,
            ⟨"k", .allow, ⟨second, second, le_rfl⟩⟩]) =
        prune [true] ((newTokenBucket 10 5 (300 * second)).answers empty
          [⟨"k", .getRemaining, ⟨0, 0, le_rfl⟩⟩, ⟨"k", .allow, ⟨second, second, le_rfl⟩⟩]) :=
  ⟨by decide, by decide, answers_prune_reads _ (by decide) [true] (by decide)⟩

section Runs

attribute [local semireducible] Rat.add Rat.mul Rat.inv Rat.sub

set_option maxRecDepth 100000

/-- A refused `Allow` at `0.2 s` stores the rounded refill, and from it the `Allow` at `6 s`
refills to less than one token; without the refused call it refills to one. -/
theorem refused_allow_changes_later_allow :
    (newTokenBucket 10 1 (300 * second)).answers empty
        [⟨"k", .allow, ⟨0, 0, le_rfl⟩⟩, ⟨"k", .allow, ⟨200000000, 200000000, le_rfl⟩⟩,
          ⟨"k", .allow, ⟨6 * second, 6 * second, le_rfl⟩⟩] =
        [.allowed true, .allowed false, .allowed false] ∧
      (newTokenBucket 10 1 (300 * second)).answers empty
        (prune [false, true]
          [⟨"k", .allow, ⟨0, 0, le_rfl⟩⟩, ⟨"k", .allow, ⟨200000000, 200000000, le_rfl⟩⟩,
            ⟨"k", .allow, ⟨6 * second, 6 * second, le_rfl⟩⟩]) =
        [.allowed true, .allowed true] := by
  decide

end Runs

lemma cleanupKey_eq (s : Buckets) (k : String) (now : Time) :
    tb.cleanupKey s k now = s ∨ ∃ b, s k = some b ∧ Time.sub now b.lastCheck > tb.cleanupTTL ∧
      tb.cleanupKey s k now = Function.update s k none := by
  unfold cleanupKey
  split
  · split_ifs with h
    · exact .inr ⟨_, ‹_›, h, rfl⟩
    · exact .inl rfl
  · exact .inl rfl

lemma sound_cleanupKey {s : Buckets} {τ : Time} (h : Sound s τ) (k : String) (now : Time) :
    Sound (tb.cleanupKey s k now) τ := by
  rcases cleanupKey_eq s k now with hs | ⟨b, -, -, hs⟩ <;> rw [hs]
  · exact h
  · intro k' b' hb
    by_cases hk : k' = k
    · subst hk
      simp at hb
    · exact h k' b' (by rwa [Function.update_noteq hk] at hb)

section TTL

variable (hTTL : tb.burstTokens ≤ fl (seconds tb.cleanupTTL * tb.rate))
include hTTL

lemma cleanupTTL_nonneg : 0 ≤ tb.cleanupTTL := by
  by_contra h
  have hneg : fl (seconds tb.cleanupTTL * tb.rate) ≤ 0 :=
    fl_nonpos (mul_nonpos_of_nonpos_of_nonneg (seconds_nonpos (not_le.1 h).le) tb.rate_pos.le)
  have h1 : (1 : ℚ) ≤ tb.burstTokens := one_le_burstTokens
  linarith

lemma full_of_stale {b : Bucket} (hb : 0 ≤ b.tokens) {now : Time}
    (hstale : Time.sub now b.lastCheck > tb.cleanupTTL) : tb.Full (some b) now := fun t ht => by
  have hsec : seconds tb.cleanupTTL ≤ seconds (Time.sub t b.lastCheck) :=
    seconds_le_seconds (cleanupTTL_nonneg hTTL) (hstale.le.trans (Time.sub_mono ht))
      (Time.sub_le_maxDuration _ _)
  refine refill_eq_burstTokens ?_
  calc tb.burstTokens ≤ fl (seconds tb.cleanupTTL * tb.rate) := hTTL
    _ ≤ fl (seconds (Time.sub t b.lastCheck) * tb.rate) :=
      fl_mono (mul_le_mul_of_nonneg_right hsec tb.rate_pos.le)
    _ ≤ b.tokens + fl (seconds (Time.sub t b.lastCheck) * tb.rate) := le_add_of_nonneg_left hb

lemma agree_cleanupKey {s : Buckets} {τ : Time} (h : Sound s τ) (k : String) (now : Time) :
    tb.Agree (tb.cleanupKey s k now) s (max τ now) := by
  rcases cleanupKey_eq s k now with hs | ⟨b, hb, hstale, hs⟩ <;> rw [hs]
  · exact fun _ => .inl rfl
  intro k'
  by_cases hk : k' = k
  · subst hk
    rw [Function.update_same, hb]
    exact .inr ⟨full_none _, (full_of_stale hTTL (h k' b hb).1 hstale).mono (le_max_right τ now)⟩
  · exact .inl (Function.update_noteq hk _ _)

lemma results_eq_answers_of_agree {s s' : Buckets} {τ : Time} (hs : Sound s τ)
    (h : tb.Agree s s' τ) {es : List Event} (hes : EventsInOrder es)
    (hτ : ∀ c ∈ Event.calls es, τ ≤ c.clock.now) :
    tb.results s es = tb.answers s' (Event.calls es) := by
  induction es generalizing s s' τ with
  | nil => rfl
  | cons e es ih =>
    obtain ⟨he, hrest⟩ := List.pairwise_cons.1 hes
    have hlater : ∀ c ∈ Event.calls es, e.time ≤ c.clock.now :=
      fun c hc => he _ (Event.mem_calls.1 hc)
    cases e with
    | call c =>
      have hcτ := hτ c (List.mem_cons_self _ _)
      obtain ⟨hans, hnext⟩ := call_agree h c hcτ
      rw [results, Event.calls, answers_cons, hans, ih (sound_call hs c hcτ) hnext hrest hlater]
    | cleanup k now =>
      exact ih ((sound_cleanupKey hs k now).mono (le_max_left τ now))
        ((agree_cleanupKey hTTL hs k now).trans (h.later (le_max_left τ now))) hrest
        fun c hc => max_le (hτ c hc) (hlater c hc)

end TTL

section Runs

attribute [local semireducible] Rat.add Rat.mul Rat.inv Rat.sub

set_option maxRecDepth 100000

/-- With one token a minute and `cleanupTTL = 1 s`, the tick at `2 s` deletes the drained
bucket, and the `Allow` at `2 s` succeeds where the never-deleting limiter refuses it. -/
example :
    (newTokenBucket 1 1 second).results empty
        [.call ⟨"k", .allow, ⟨0, 0, le_rfl⟩⟩, .cleanup "k" (2 * second),
          .call ⟨"k", .allow, ⟨2 * second, 2 * second, le_rfl⟩⟩] =
        [.allowed true, .allowed true] ∧
      (newTokenBucket 1 1 second).answers empty
        [⟨"k", .allow, ⟨0, 0, le_rfl⟩⟩, ⟨"k", .allow, ⟨2 * second, 2 * second, le_rfl⟩⟩] =
        [.allowed true, .allowed false] := by
  decide

end Runs

end Paygate.RateLimit.Float64.TokenBucket
