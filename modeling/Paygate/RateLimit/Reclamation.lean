import Paygate.RateLimit.Conservation

/-! Two limiters whose keys agree in level answer every later call alike. -/

namespace Paygate.RateLimit

def prune {α : Type} : List Bool → List α → List α
  | true :: ds, _ :: xs => prune ds xs
  | false :: ds, x :: xs => x :: prune ds xs
  | [], xs => xs
  | _ :: _, [] => []

inductive Event
  | call (c : Call)
  | cleanup (key : String) (now : Time)

def Event.time : Event → Time
  | .call c => c.clock.now
  | .cleanup _ now => now

def Event.key : Event → String
  | .call c => c.key
  | .cleanup key _ => key

@[simp] lemma Event.key_call (c : Call) : (Event.call c).key = c.key := rfl

@[simp] lemma Event.key_cleanup (key : String) (now : Time) : (Event.cleanup key now).key = key :=
  rfl

def Event.calls : List Event → List Call
  | [] => []
  | .call c :: es => c :: calls es
  | .cleanup _ _ :: es => calls es

lemma Event.mem_calls {c : Call} {es : List Event} : c ∈ Event.calls es ↔ Event.call c ∈ es := by
  induction es with
  | nil => simp [calls]
  | cons e es ih => cases e <;> simp [calls, ih]

def Event.precedes (e : Event) : Event → Prop
  | .call c => e.time ≤ c.clock.now
  | .cleanup _ _ => True

instance : ∀ e e' : Event, Decidable (e.precedes e')
  | e, .call c => inferInstanceAs (Decidable (e.time ≤ c.clock.now))
  | _, .cleanup _ _ => inferInstanceAs (Decidable True)

def EventsInOrder (es : List Event) : Prop := es.Pairwise Event.precedes

instance : DecidablePred EventsInOrder := fun es =>
  inferInstanceAs (Decidable (es.Pairwise Event.precedes))

lemma Op.taken_of_nonConsuming (op : Op) {a : Answer} (h : a.nonConsuming = true) :
    op.taken a = 0 := by
  cases op <;> cases a <;> simp_all [Op.taken, Answer.nonConsuming]

namespace TokenBucket

variable (tb : TokenBucket)

def Agree (s s' : Buckets) (τ : Time) : Prop := ∀ k, tb.level (s k) τ = tb.level (s' k) τ

variable {tb}

lemma Agree.symm {s s' : Buckets} {τ : Time} (h : tb.Agree s s' τ) : tb.Agree s' s τ :=
  fun k => (h k).symm

lemma Agree.trans {s s' s'' : Buckets} {τ : Time} (h : tb.Agree s s' τ) (h' : tb.Agree s' s'' τ) :
    tb.Agree s s'' τ := fun k => (h k).trans (h' k)

lemma Agree.later {s s' : Buckets} {τ t : Time} (h : tb.Agree s s' τ) (ht : τ ≤ t) :
    tb.Agree s s' t := fun k => by
  rw [level_eq_of_le tb (s k) ht, level_eq_of_le tb (s' k) ht, h k]

lemma call_agree {s s' : Buckets} {τ : Time} (h : tb.Agree s s' τ) (c : Call) (hc : τ ≤ c.clock.now) :
    (tb.call s c).1 = (tb.call s' c).1 ∧ tb.Agree (tb.call s c).2 (tb.call s' c).2 c.clock.now := by
  have hnow := h.later hc
  have hans : (tb.call s c).1 = (tb.call s' c).1 := by
    rw [call_fst, call_fst, hnow c.key]
  refine ⟨hans, fun k => ?_⟩
  by_cases hk : k = c.key
  · subst hk
    rw [level_call_self, level_call_self, hans, hnow]
  · rw [call_snd_of_ne tb s c hk, call_snd_of_ne tb s' c hk, hnow k]

lemma agree_call_of_nonConsuming (s : Buckets) (c : Call)
    (h : (tb.call s c).1.nonConsuming = true) : tb.Agree (tb.call s c).2 s c.clock.now := by
  intro k
  by_cases hk : k = c.key
  · subst hk
    rw [level_call_self, c.op.taken_of_nonConsuming h, Int.cast_zero, sub_zero,
      min_eq_right (level_le_burst tb _ _)]
  · rw [call_snd_of_ne tb s c hk]

lemma answers_agree {s s' : Buckets} {τ : Time} (h : tb.Agree s s' τ) {cs : List Call}
    (hcs : InOrder cs) (hτ : ∀ c ∈ cs, τ ≤ c.clock.now) : tb.answers s cs = tb.answers s' cs := by
  induction cs generalizing s s' τ with
  | nil => rfl
  | cons c cs ih =>
    obtain ⟨hc, hcs⟩ := List.pairwise_cons.1 hcs
    obtain ⟨hans, hnext⟩ := call_agree h c (hτ c (List.mem_cons_self _ _))
    rw [answers_cons, answers_cons, hans, ih hnext hcs hc]

lemma answers_prune_of_agree {s s' : Buckets} {τ : Time} (h : tb.Agree s s' τ) {cs : List Call}
    (hcs : InOrder cs) (hτ : ∀ c ∈ cs, τ ≤ c.clock.now) (drop : List Bool)
    (hdrop : ∀ p ∈ drop.zip (tb.answers s cs), p.1 = true → p.2.nonConsuming = true) :
    tb.answers s' (prune drop cs) = prune drop (tb.answers s cs) := by
  induction cs generalizing drop s s' τ with
  | nil => rcases drop with _ | ⟨_ | _, _⟩ <;> rfl
  | cons c cs ih =>
    obtain ⟨hc, hcs⟩ := List.pairwise_cons.1 hcs
    have hcτ := hτ c (List.mem_cons_self _ _)
    match drop, hdrop with
    | [], _ => exact (answers_agree h.symm (List.pairwise_cons.2 ⟨hc, hcs⟩) hτ)
    | true :: ds, hdrop =>
      have hnc := hdrop (true, (tb.call s c).1) (List.mem_cons_self _ _) rfl
      exact ih ((agree_call_of_nonConsuming s c hnc).trans (h.later hcτ)) hcs hc ds
        fun p hp => hdrop p (List.mem_cons_of_mem _ hp)
    | false :: ds, hdrop =>
      obtain ⟨hans, hnext⟩ := call_agree h.symm c hcτ
      simp only [prune, answers_cons, hans]
      rw [ih hnext.symm hcs hc ds fun p hp => hdrop p (List.mem_cons_of_mem _ hp)]

/-- Dropping any header reads and refused `AllowN` calls from an ordered run leaves the
answers of the remaining calls as they were. -/
theorem answers_prune_nonConsuming (tb : TokenBucket) {cs : List Call} (hcs : InOrder cs)
    (drop : List Bool)
    (hdrop : ∀ p ∈ drop.zip (tb.answers empty cs), p.1 = true → p.2.nonConsuming = true) :
    tb.answers empty (prune drop cs) = prune drop (tb.answers empty cs) := by
  obtain ⟨τ, hτ⟩ := exists_le_all cs
  exact answers_prune_of_agree (fun _ => rfl) hcs hτ drop hdrop

theorem answers_prune_header_read :
    InOrder [⟨"k", .getRemaining, ⟨0, 0, le_rfl⟩⟩, ⟨"k", .allow, ⟨0, 0, le_rfl⟩⟩] ∧
      (∀ p ∈ [true].zip ((newTokenBucket 10 5 (300 * second)).answers empty
          [⟨"k", .getRemaining, ⟨0, 0, le_rfl⟩⟩, ⟨"k", .allow, ⟨0, 0, le_rfl⟩⟩]),
        p.1 = true → p.2.nonConsuming = true) ∧
      (newTokenBucket 10 5 (300 * second)).answers empty
          (prune [true] [⟨"k", .getRemaining, ⟨0, 0, le_rfl⟩⟩, ⟨"k", .allow, ⟨0, 0, le_rfl⟩⟩]) =
        prune [true] ((newTokenBucket 10 5 (300 * second)).answers empty
          [⟨"k", .getRemaining, ⟨0, 0, le_rfl⟩⟩, ⟨"k", .allow, ⟨0, 0, le_rfl⟩⟩]) := by
  have hdrop : ∀ p ∈ [true].zip ((newTokenBucket 10 5 (300 * second)).answers empty
      [⟨"k", .getRemaining, ⟨0, 0, le_rfl⟩⟩, ⟨"k", .allow, ⟨0, 0, le_rfl⟩⟩]),
      p.1 = true → p.2.nonConsuming = true := by
    simp [call, Answer.nonConsuming]
  exact ⟨by decide, hdrop, answers_prune_nonConsuming _ (by decide) [true] hdrop⟩

variable (tb) in
def results : Buckets → List Event → List Answer
  | _, [] => []
  | s, .call c :: es => (tb.call s c).1 :: results (tb.call s c).2 es
  | s, .cleanup k now :: es => results (tb.cleanupKey s k now) es

lemma cleanupKey_eq (s : Buckets) (k : String) (now : Time) :
    tb.cleanupKey s k now = s ∨ ∃ b, s k = some b ∧ now - b.lastCheck > tb.cleanupTTL ∧
      tb.cleanupKey s k now = Function.update s k none := by
  unfold cleanupKey
  split
  · split_ifs with h
    · exact .inr ⟨_, ‹_›, h, rfl⟩
    · exact .inl rfl
  · exact .inl rfl

lemma Sound.cleanupKey {s : Buckets} {τ : Time} (h : Sound s τ) (k : String) (now : Time) :
    Sound (tb.cleanupKey s k now) τ := by
  rcases cleanupKey_eq s k now with hs | ⟨b, -, -, hs⟩ <;> rw [hs]
  · exact h
  · intro k' b' hb
    by_cases hk : k' = k
    · subst hk
      simp at hb
    · exact h k' b' (by rwa [Function.update_noteq hk] at hb)

lemma refill_of_stale (hTTL : (tb.burst : ℚ) ≤ seconds tb.cleanupTTL * tb.rate) {b : Bucket}
    (hb : 0 ≤ b.tokens) {now t : Time} (hstale : now - b.lastCheck > tb.cleanupTTL)
    (ht : now ≤ t) : tb.refill b t = tb.burst := by
  have hsec : seconds tb.cleanupTTL ≤ seconds (t - b.lastCheck) := by
    unfold seconds
    gcongr
    · norm_num [second]
    · exact_mod_cast (le_of_lt hstale).trans (sub_le_sub_right ht _)
  exact refill_eq_burst (by linarith [mul_le_mul_of_nonneg_right hsec tb.rate_pos.le])

lemma agree_cleanupKey (hTTL : (tb.burst : ℚ) ≤ seconds tb.cleanupTTL * tb.rate) {s : Buckets}
    {τ : Time} (h : Sound s τ) (k : String) (now : Time) :
    tb.Agree (tb.cleanupKey s k now) s (max τ now) := by
  rcases cleanupKey_eq s k now with hs | ⟨b, hb, hstale, hs⟩ <;> rw [hs]
  · exact fun _ => rfl
  intro k'
  by_cases hk : k' = k
  · subst hk
    rw [Function.update_same, hb, level_none, level_some,
      refill_of_stale hTTL (h k' b hb).1 hstale (le_max_right τ now)]
  · rw [Function.update_noteq hk]

lemma results_eq_answers_of_agree (hTTL : (tb.burst : ℚ) ≤ seconds tb.cleanupTTL * tb.rate)
    {s s' : Buckets} {τ : Time} (hs : Sound s τ) (h : tb.Agree s s' τ) {es : List Event}
    (hes : EventsInOrder es) (hτ : ∀ c ∈ Event.calls es, τ ≤ c.clock.now) :
    tb.results s es = tb.answers s' (Event.calls es) := by
  induction es generalizing s s' τ with
  | nil => rfl
  | cons e es ih =>
    obtain ⟨he, hrest⟩ := List.pairwise_cons.1 hes
    have hlater : ∀ c ∈ Event.calls es, e.time ≤ c.clock.now :=
      fun c hc => he _ (Event.mem_calls.1 hc)
    cases e with
    | call c =>
      have hcτ := hτ c (List.mem_cons_self _ _)
      obtain ⟨hans, hnext⟩ := call_agree h c hcτ
      rw [results, Event.calls, answers_cons, hans, ih (sound_call hs c hcτ) hnext hrest hlater]
    | cleanup k now =>
      exact ih ((hs.cleanupKey k now).mono (le_max_left τ now))
        ((agree_cleanupKey hTTL hs k now).trans (h.later (le_max_left τ now))) hrest
        fun c hc => max_le (hτ c hc) (hlater c hc)

/-- With `cleanupTTL·rate ≥ burst`, and each call and each key of a sweep taken as one step,
every call answers as it would against a limiter that never deletes a bucket. -/
theorem results_eq_answers (tb : TokenBucket)
    (hTTL : (tb.burst : ℚ) ≤ seconds tb.cleanupTTL * tb.rate) {es : List Event}
    (hes : EventsInOrder es) : tb.results empty es = tb.answers empty (Event.calls es) := by
  obtain ⟨τ, hτ⟩ := exists_le_all (Event.calls es)
  exact results_eq_answers_of_agree hTTL (sound_empty τ) (fun _ => rfl) hes hτ

theorem results_eq_answers_refilled_sweep :
    (newTokenBucket 60 1 (300 * second)).burst ≤
        seconds (newTokenBucket 60 1 (300 * second)).cleanupTTL *
          (newTokenBucket 60 1 (300 * second)).rate ∧
      EventsInOrder [.call ⟨"k", .allow, ⟨0, 0, le_rfl⟩⟩, .cleanup "k" (400 * second),
        .call ⟨"k", .allow, ⟨400 * second, 400 * second, le_rfl⟩⟩] ∧
      (newTokenBucket 60 1 (300 * second)).results empty
          [.call ⟨"k", .allow, ⟨0, 0, le_rfl⟩⟩, .cleanup "k" (400 * second),
            .call ⟨"k", .allow, ⟨400 * second, 400 * second, le_rfl⟩⟩] =
        (newTokenBucket 60 1 (300 * second)).answers empty
          (Event.calls [.call ⟨"k", .allow, ⟨0, 0, le_rfl⟩⟩, .cleanup "k" (400 * second),
            .call ⟨"k", .allow, ⟨400 * second, 400 * second, le_rfl⟩⟩]) := by
  have hTTL : ((newTokenBucket 60 1 (300 * second)).burst : ℚ) ≤
      seconds (newTokenBucket 60 1 (300 * second)).cleanupTTL *
        (newTokenBucket 60 1 (300 * second)).rate := by
    norm_num [newTokenBucket, atLeastOne, seconds, second]
  exact ⟨hTTL, by decide, results_eq_answers _ hTTL (by decide)⟩

/-- With `cleanupTTL = 1 s` and one token a minute, the tick at `2 s` deletes the drained
bucket, and the `Allow` at `2 s` succeeds where the never-deleting limiter refuses it. -/
theorem cleanup_refills_drained_bucket :
    (newTokenBucket 1 1 second).results empty
        [.call ⟨"k", .allow, ⟨0, 0, le_rfl⟩⟩, .cleanup "k" (2 * second),
          .call ⟨"k", .allow, ⟨2 * second, 2 * second, le_rfl⟩⟩] =
        [.allowed true, .allowed true] ∧
      (newTokenBucket 1 1 second).answers empty
        (Event.calls [.call ⟨"k", .allow, ⟨0, 0, le_rfl⟩⟩, .cleanup "k" (2 * second),
          .call ⟨"k", .allow, ⟨2 * second, 2 * second, le_rfl⟩⟩]) =
        [.allowed true, .allowed false] := by
  simp only [results, Event.calls, answers_cons, answers_nil, call, Op.allow, Prod.map, id,
    allowN_eq, cleanupKey, empty, Function.update_same, level_none, level_some]
  norm_num [newTokenBucket, atLeastOne, refill, seconds, second]

section Isolation

variable {s s' : Buckets} {k : String}

lemma call_congr (c : Call) (h : s c.key = s' c.key) :
    (tb.call s c).1 = (tb.call s' c).1 ∧ (tb.call s c).2 c.key = (tb.call s' c).2 c.key := by
  refine ⟨by rw [call_fst, call_fst, h], ?_⟩
  unfold call
  cases c.op <;> simp [allowN_eq, getRemaining_eq, getResetTime_eq, getBucket_eq, h]

lemma cleanupKey_congr (now : Time) (h : s k = s' k) :
    tb.cleanupKey s k now k = tb.cleanupKey s' k now k := by
  unfold cleanupKey
  rw [h]
  cases s' k with
  | none => exact h
  | some b =>
    dsimp only
    split_ifs <;> simp [h]

lemma cleanupKey_of_ne {k' : String} (now : Time) (hk : k ≠ k') :
    tb.cleanupKey s k' now k = s k := by
  unfold cleanupKey
  cases s k' with
  | none => rfl
  | some b =>
    dsimp only
    split_ifs <;> simp [Function.update_noteq hk]

lemma results_filter_of_eq {es : List Event} (h : s k = s' k) :
    tb.results s' (es.filter fun e => e.key = k) =
      (((Event.calls es).zip (tb.results s es)).filter fun p => p.1.key = k).map Prod.snd := by
  induction es generalizing s s' with
  | nil => rfl
  | cons e es ih =>
    cases e with
    | call c =>
      by_cases hc : c.key = k
      · obtain ⟨hans, hkey⟩ := call_congr c (hc ▸ h)
        simp only [List.filter_cons, Event.key_call, hc, decide_True, if_true, results,
          Event.calls, List.zip_cons_cons, List.map_cons]
        rw [hans]
        exact congrArg _ (ih (hc ▸ hkey))
      · simp only [List.filter_cons, Event.key_call, hc, decide_False, Bool.false_eq_true,
          if_false, results, Event.calls, List.zip_cons_cons]
        exact ih ((call_snd_of_ne tb s c (Ne.symm hc)).trans h)
    | cleanup k' now =>
      by_cases hk : k' = k
      · subst hk
        simp only [List.filter_cons, Event.key_cleanup, decide_True, if_true, results,
          Event.calls]
        exact ih (cleanupKey_congr now h)
      · simp only [List.filter_cons, Event.key_cleanup, hk, decide_False, Bool.false_eq_true,
          if_false, results, Event.calls]
        exact ih ((cleanupKey_of_ne now (Ne.symm hk)).trans h)

end Isolation

/-- Keys do not interfere: taking out of a run every call and every sweep step on other keys
leaves each answer to a call on `k` as it was. -/
theorem results_filter_key (tb : TokenBucket) (s : Buckets) (es : List Event) (k : String) :
    tb.results s (es.filter fun e => e.key = k) =
      (((Event.calls es).zip (tb.results s es)).filter fun p => p.1.key = k).map Prod.snd :=
  results_filter_of_eq rfl

end TokenBucket

end Paygate.RateLimit
