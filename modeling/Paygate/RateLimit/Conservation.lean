import Mathlib.Algebra.BigOperators.Group.List
import Paygate.RateLimit.Run

/-! What the admitted `AllowN` calls on a key take over a window. -/

namespace Paygate.RateLimit

/-- What an admitted `AllowN` on `k` took. -/
def Call.takenOn (k : String) (c : Call) (a : Answer) : Int :=
  if c.key = k then c.op.taken a else 0

def takenOn (k : String) (cs : List Call) (as : List Answer) : Int :=
  ((cs.zip as).map fun p => p.1.takenOn k p.2).sum

/-- What the admitted `AllowN` calls on `k` took, counting the calls in `[t0, t1]`. -/
def grantedIn (k : String) (t0 t1 : Time) (cs : List Call) (as : List Answer) : Int :=
  ((cs.zip as).map fun p =>
    if t0 ≤ p.1.clock.now ∧ p.1.clock.now ≤ t1 then p.1.takenOn k p.2 else 0).sum

@[simp] lemma takenOn_cons (k : String) (c : Call) (cs : List Call) (a : Answer)
    (as : List Answer) : takenOn k (c :: cs) (a :: as) = c.takenOn k a + takenOn k cs as := by
  simp [takenOn]

lemma grantedIn_of_inside {k : String} {t0 t1 : Time} {cs : List Call} (as : List Answer)
    (h : ∀ c ∈ cs, t0 ≤ c.clock.now ∧ c.clock.now ≤ t1) :
    grantedIn k t0 t1 cs as = takenOn k cs as := by
  unfold grantedIn takenOn
  congr 1
  exact List.map_congr_left fun p hp => if_pos (h p.1 (List.of_mem_zip hp).1)

lemma grantedIn_of_outside {k : String} {t0 t1 : Time} {cs : List Call} (as : List Answer)
    (h : ∀ c ∈ cs, ¬(t0 ≤ c.clock.now ∧ c.clock.now ≤ t1)) : grantedIn k t0 t1 cs as = 0 := by
  unfold grantedIn
  exact List.sum_eq_zero fun x hx => by
    obtain ⟨p, hp, rfl⟩ := List.mem_map.1 hx
    exact if_neg (h p.1 (List.of_mem_zip hp).1)

lemma grantedIn_append (k : String) (t0 t1 : Time) {cs ds : List Call} {as bs : List Answer}
    (h : cs.length = as.length) :
    grantedIn k t0 t1 (cs ++ ds) (as ++ bs) = grantedIn k t0 t1 cs as + grantedIn k t0 t1 ds bs := by
  simp [grantedIn, List.zip_append h, List.sum_append]

lemma exists_window_split {cs : List Call} (hcs : InOrder cs) (t0 t1 : Time) :
    ∃ pre mid post, cs = pre ++ mid ++ post ∧ (∀ c ∈ pre, c.clock.now < t0) ∧
      (∀ c ∈ mid, t0 ≤ c.clock.now ∧ c.clock.now ≤ t1) ∧ ∀ c ∈ post, t1 < c.clock.now := by
  induction cs with
  | nil => exact ⟨[], [], [], rfl, by simp, by simp, by simp⟩
  | cons c cs ih =>
    obtain ⟨hc, hcs⟩ := List.pairwise_cons.1 hcs
    obtain ⟨pre, mid, post, rfl, hpre, hmid, hpost⟩ := ih hcs
    have nil_of (l : List Call) (hl : l ⊆ pre ++ mid ++ post) (hlt : ∀ x ∈ l, x.clock.now < c.clock.now) :
        l = [] := List.eq_nil_iff_forall_not_mem.2 fun x hx => (hc x (hl hx)).not_lt (hlt x hx)
    by_cases h0 : c.clock.now < t0
    · exact ⟨c :: pre, mid, post, rfl, List.forall_mem_cons.2 ⟨h0, hpre⟩, hmid, hpost⟩
    have hp := nil_of pre (by simp) fun x hx => (hpre x hx).trans_le (not_lt.1 h0)
    subst hp
    by_cases h1 : c.clock.now ≤ t1
    · exact ⟨[], c :: mid, post, rfl, by simp,
        List.forall_mem_cons.2 ⟨⟨not_lt.1 h0, h1⟩, hmid⟩, hpost⟩
    have hm := nil_of mid (by simp) fun x hx => (hmid x hx).2.trans_lt (not_le.1 h1)
    subst hm
    exact ⟨[], [], c :: post, rfl, by simp, by simp, List.forall_mem_cons.2 ⟨not_le.1 h1, hpost⟩⟩

lemma exists_ge_all (cs : List Call) : ∃ t, ∀ c ∈ cs, c.clock.now ≤ t := by
  induction cs with
  | nil => exact ⟨0, by simp⟩
  | cons c cs ih =>
    obtain ⟨t, ht⟩ := ih
    exact ⟨max c.clock.now t, List.forall_mem_cons.2
      ⟨le_max_left _ _, fun x hx => (ht x hx).trans (le_max_right _ _)⟩⟩

lemma exists_le_all (cs : List Call) : ∃ t, ∀ c ∈ cs, t ≤ c.clock.now := by
  induction cs with
  | nil => exact ⟨0, by simp⟩
  | cons c cs ih =>
    obtain ⟨t, ht⟩ := ih
    exact ⟨min c.clock.now t, List.forall_mem_cons.2
      ⟨min_le_left _ _, fun x hx => (min_le_right _ _).trans (ht x hx)⟩⟩

namespace TokenBucket

variable {tb : TokenBucket}

def Sound (s : Buckets) (τ : Time) : Prop :=
  ∀ k b, s k = some b → 0 ≤ b.tokens ∧ b.lastCheck ≤ τ

lemma Sound.mono {s : Buckets} {τ τ' : Time} (h : Sound s τ) (hτ : τ ≤ τ') : Sound s τ' :=
  fun k b hb => ⟨(h k b hb).1, (h k b hb).2.trans hτ⟩

lemma sound_empty (τ : Time) : Sound empty τ := fun _ _ h => by cases h

lemma Sound.level_nonneg {s : Buckets} {τ : Time} (h : Sound s τ) (k : String) {t : Time}
    (ht : τ ≤ t) : 0 ≤ tb.level (s k) t := by
  cases hk : s k with
  | none => exact burst_nonneg
  | some b => exact refill_nonneg (h k b hk).1 ((h k b hk).2.trans ht)

lemma sound_call {s : Buckets} {τ : Time} (h : Sound s τ) (c : Call) (hc : τ ≤ c.clock.now) :
    Sound (tb.call s c).2 c.clock.now := by
  intro k b hb
  by_cases hk : k = c.key
  · subst hk
    have hL : 0 ≤ tb.level (s c.key) c.clock.now := h.level_nonneg c.key hc
    unfold call at hb
    cases hop : c.op with
    | allowN n =>
      simp only [hop, allowN_eq, Prod.map, id, Function.update_same, Option.some.injEq] at hb
      subst hb
      split_ifs with hn
      · exact ⟨sub_nonneg.2 hn, le_rfl⟩
      · exact ⟨hL, le_rfl⟩
    | getRemaining | getResetTime =>
      simp only [hop, getRemaining_eq, getResetTime_eq, getBucket_eq, Prod.map, id,
        Function.update_same, Option.some.injEq] at hb
      subst hb
      cases hs : s c.key with
      | none => exact ⟨burst_nonneg, c.clock.created_le⟩
      | some b => exact ⟨(h _ b hs).1, (h _ b hs).2.trans hc⟩
  · rw [call_snd_of_ne tb s c hk] at hb
    exact ⟨(h k b hb).1, (h k b hb).2.trans hc⟩

lemma sound_final {s : Buckets} {τ : Time} (h : Sound s τ) {cs : List Call} (hcs : InOrder cs)
    (hτ : ∀ c ∈ cs, τ ≤ c.clock.now) {t : Time} (ht : τ ≤ t) (hct : ∀ c ∈ cs, c.clock.now ≤ t) :
    Sound (tb.final s cs) t := by
  induction cs generalizing s τ with
  | nil => exact h.mono ht
  | cons c cs ih =>
    obtain ⟨hc, hcs⟩ := List.pairwise_cons.1 hcs
    exact ih (sound_call h c (hτ c (List.mem_cons_self _ _))) hcs hc
      (hct c (List.mem_cons_self _ _)) fun x hx => hct x (List.mem_cons_of_mem _ hx)

lemma sound_final_empty {cs : List Call} (hcs : InOrder cs) {t : Time}
    (hct : ∀ c ∈ cs, c.clock.now ≤ t) : Sound (tb.final empty cs) t := by
  cases cs with
  | nil => exact sound_empty t
  | cons c cs =>
    exact sound_final (sound_empty c.clock.now) hcs
      (List.forall_mem_cons.2 ⟨le_rfl, (List.pairwise_cons.1 hcs).1⟩)
      (hct c (List.mem_cons_self _ _)) hct

variable (tb) in
lemma takenOn_add_level_call (k : String) (s : Buckets) (c : Call) :
    c.takenOn k (tb.call s c).1 + tb.level ((tb.call s c).2 k) c.clock.now ≤
      tb.level (s k) c.clock.now := by
  unfold Call.takenOn
  split_ifs with hk
  · subst hk
    rw [level_call_self]
    linarith [min_le_right (tb.burst : ℚ) (tb.level (s c.key) c.clock.now - c.op.taken (tb.call s c).1)]
  · rw [call_snd_of_ne tb s c (Ne.symm hk)]
    simp

variable (tb) in
lemma takenOn_add_level_le (k : String) (s : Buckets) {cs : List Call} (hcs : InOrder cs)
    {τ t : Time} (hτ : ∀ c ∈ cs, τ ≤ c.clock.now) (ht : τ ≤ t) (hct : ∀ c ∈ cs, c.clock.now ≤ t) :
    takenOn k cs (tb.answers s cs) + tb.level (tb.final s cs k) t ≤
      tb.level (s k) τ + seconds (t - τ) * tb.rate := by
  induction cs generalizing s τ with
  | nil => simpa [takenOn] using level_le_add tb (s k) ht
  | cons c cs ih =>
    obtain ⟨hc, hcs⟩ := List.pairwise_cons.1 hcs
    have hcτ := hτ c (List.mem_cons_self _ _)
    have htail := ih (tb.call s c).2 hcs hc (hct c (List.mem_cons_self _ _))
      fun x hx => hct x (List.mem_cons_of_mem _ hx)
    have hstep := takenOn_add_level_call tb k s c
    have hrefill := level_le_add tb (s k) hcτ
    rw [seconds_sub_add t c.clock.now τ]
    simp only [answers_cons, final_cons, takenOn_cons, Int.cast_add]
    linarith

/-- In every ordered run from the empty limiter no stored count is negative, and the `AllowN`
calls on `k` admitted within `[t0, t1]` take at most `burst + rate·(t1 - t0)` tokens. -/
theorem allowN_window_bound (tb : TokenBucket) {cs : List Call} (hcs : InOrder cs) (k : String)
    {t0 t1 : Time} (ht : t0 ≤ t1) :
    (∀ k' b, tb.final empty cs k' = some b → 0 ≤ b.tokens) ∧
      (grantedIn k t0 t1 cs (tb.answers empty cs) : ℚ) ≤ tb.burst + seconds (t1 - t0) * tb.rate := by
  refine ⟨fun k' b hb => ?_, ?_⟩
  · obtain ⟨t, hct⟩ := exists_ge_all cs
    exact (sound_final_empty hcs hct k' b hb).1
  obtain ⟨pre, mid, post, rfl, hpre, hmid, hpost⟩ := exists_window_split hcs t0 t1
  obtain ⟨hpm, -, -⟩ := List.pairwise_append.1 hcs
  obtain ⟨-, hmo, -⟩ := List.pairwise_append.1 hpm
  have hbefore : ∀ c ∈ pre ++ mid, c.clock.now ≤ t1 := by
    simp only [List.mem_append]
    rintro c (hc | hc)
    · exact ((hpre c hc).trans_le ht).le
    · exact (hmid c hc).2
  have hleft : 0 ≤ tb.level (tb.final (tb.final empty pre) mid k) t1 := by
    rw [← final_append]
    exact (sound_final_empty hpm hbefore).level_nonneg k le_rfl
  have hcons := takenOn_add_level_le tb k (tb.final empty pre) hmo (fun c hc => (hmid c hc).1) ht
    fun c hc => (hmid c hc).2
  have hfull := level_le_burst tb (tb.final empty pre k) t0
  rw [answers_append, answers_append, grantedIn_append _ _ _ (by simp),
    grantedIn_append _ _ _ (by simp), grantedIn_of_outside _ fun c hc h => (hpre c hc).not_le h.1,
    grantedIn_of_inside _ hmid, grantedIn_of_outside _ fun c hc h => (hpost c hc).not_le h.2]
  push_cast
  linarith

theorem allowN_window_bound_two_allows :
    InOrder [⟨"10.0.0.1", .allow, ⟨0, 0, le_rfl⟩⟩, ⟨"10.0.0.1", .allow, ⟨0, second, by decide⟩⟩] ∧
      (0 : Time) ≤ second ∧
      ((∀ k' b, (newTokenBucket 10 5 (300 * second)).final empty
          [⟨"10.0.0.1", .allow, ⟨0, 0, le_rfl⟩⟩, ⟨"10.0.0.1", .allow, ⟨0, second, by decide⟩⟩] k' =
          some b → 0 ≤ b.tokens) ∧
        (grantedIn "10.0.0.1" 0 second
          [⟨"10.0.0.1", .allow, ⟨0, 0, le_rfl⟩⟩, ⟨"10.0.0.1", .allow, ⟨0, second, by decide⟩⟩]
          ((newTokenBucket 10 5 (300 * second)).answers empty
            [⟨"10.0.0.1", .allow, ⟨0, 0, le_rfl⟩⟩, ⟨"10.0.0.1", .allow, ⟨0, second, by decide⟩⟩]) : ℚ) ≤
          (newTokenBucket 10 5 (300 * second)).burst +
            seconds (second - 0) * (newTokenBucket 10 5 (300 * second)).rate) :=
  ⟨by decide, by decide, allowN_window_bound _ (by decide) "10.0.0.1" (by decide)⟩

end TokenBucket

end Paygate.RateLimit
