import Paygate.RateLimit.Reclamation

/-! The goroutines of the limiter over the heap of bucket objects, in exact arithmetic. -/

namespace Paygate.RateLimit

/-- A step of one goroutine: call `i`'s `getBucket` or its locked section, each at the clock
reading it takes, or sweep `j`'s locked read of `lastCheck` or its staleness test and `Delete`. -/
inductive Step
  | load (i : Nat) (now : Time)
  | lock (i : Nat) (now : Time)
  | check (j : Nat)
  | delete (j : Nat)

/-- The shared heap and the goroutines' locals: the bucket objects by address, the next free
address, the map, the address each call's `getBucket` returned, and the sweeps whose read found
their bucket stale and that have not run `Delete` yet. -/
structure Heap where
  objects : Nat → Bucket
  next : Nat
  map : String → Option Nat
  loaded : Nat → Option Nat
  doomed : Nat → Bool

def Heap.init : Heap := ⟨fun _ => ⟨0, 0⟩, 0, fun _ => none, fun _ => none, fun _ => false⟩

def Heap.view (H : Heap) : Buckets := fun k => (H.map k).map H.objects

def Step.time (sweeps : Nat → String × Time) : Step → Time
  | .load _ now | .lock _ now => now
  | .check j | .delete j => (sweeps j).2

def Step.reads : Step → Bool
  | .load _ _ | .lock _ _ => true
  | .check _ | .delete _ => false

def ClockInOrder (sweeps : Nat → String × Time) (sts : List Step) : Prop :=
  sts.Pairwise fun a b => b.reads = true → a.time sweeps ≤ b.time sweeps

instance (sweeps : Nat → String × Time) : DecidablePred (ClockInOrder sweeps) := fun sts =>
  inferInstanceAs
    (Decidable (sts.Pairwise fun a b : Step => b.reads = true → a.time sweeps ≤ b.time sweeps))

def lockedCalls (calls : Nat → String × Op) : List Step → List Call
  | [] => []
  | .lock i now :: sts => ⟨(calls i).1, (calls i).2, ⟨now, now, le_rfl⟩⟩ :: lockedCalls calls sts
  | _ :: sts => lockedCalls calls sts

def LockOK (calls : Nat → String × Op) (sweeps : Nat → String × Time) (H : Heap) (i : Nat) :
    Prop :=
  (∃ p, H.loaded i = some p ∧ H.map (calls i).1 = some p) ∧
    ∀ j, H.doomed j = true → (sweeps j).1 ≠ (calls i).1

/-- Each call's locked section follows its own `getBucket`; `seen` are the calls that have
run theirs. -/
def loadsFirst : List Nat → List Step → Bool
  | _, [] => true
  | seen, .load i _ :: sts => loadsFirst (i :: seen) sts
  | seen, .lock i _ :: sts => seen.contains i && loadsFirst seen sts
  | seen, _ :: sts => loadsFirst seen sts

def LoadedLive (calls : Nat → String × Op) (H : Heap) : Prop :=
  (∀ i p, H.loaded i = some p → H.map (calls i).1 = some p) ∧ ∀ j, H.doomed j = false

namespace TokenBucket

variable (tb : TokenBucket)

/-- The locked section of each method, on the bucket its `getBucket` returned. -/
def locked (op : Op) (b : Bucket) (now : Time) : Answer × Bucket :=
  match op with
  | .allowN n => Prod.map .allowed id (tb.take b n now)
  | .getRemaining => (.remaining ⌊tb.refill b now⌋, b)
  | .getResetTime => (.resetAt (tb.resetTimeFrom (tb.refill b now) now), b)

variable (calls : Nat → String × Op) (sweeps : Nat → String × Time)

/-- One goroutine step, with the answer of a locked section. `getBucket` makes a full bucket
stamped with its clock reading and `LoadOrStore`s it: the key's address if there is one, else the
new object at a fresh address. A sweep reads the bucket `Range` hands it under the lock and keeps
its verdict in a local; `Delete` removes the key whatever the map then holds. -/
def step (H : Heap) : Step → Option Answer × Heap
  | .load i now =>
    match H.map (calls i).1 with
    | some p => (none, { H with loaded := Function.update H.loaded i (some p) })
    | none => (none, { H with
        objects := Function.update H.objects H.next ⟨tb.burst, now⟩
        next := H.next + 1
        map := Function.update H.map (calls i).1 (some H.next)
        loaded := Function.update H.loaded i (some H.next) })
  | .lock i now =>
    match H.loaded i with
    | some p =>
      let (answer, b) := tb.locked (calls i).2 (H.objects p) now
      (some answer, { H with objects := Function.update H.objects p b })
    | none => (none, H)
  | .check j =>
    match H.map (sweeps j).1 with
    | some p =>
      let stale := decide ((sweeps j).2 - (H.objects p).lastCheck > tb.cleanupTTL)
      (none, { H with doomed := Function.update H.doomed j stale })
    | none => (none, H)
  | .delete j =>
    if H.doomed j then
      (none, { H with
        map := Function.update H.map (sweeps j).1 none
        doomed := Function.update H.doomed j false })
    else (none, H)

def run : Heap → List Step → List Answer
  | _, [] => []
  | H, st :: sts => (tb.step calls sweeps H st).1.toList ++ run (tb.step calls sweeps H st).2 sts

def RaceFree : Heap → List Step → Prop
  | _, [] => True
  | H, .lock i now :: sts => LockOK calls sweeps H i ∧
      RaceFree (tb.step calls sweeps H (.lock i now)).2 sts
  | H, st :: sts => RaceFree (tb.step calls sweeps H st).2 sts

def Allocated (map : String → Option Nat) (next : Nat) : Prop :=
  (∀ k p, map k = some p → p < next) ∧ ∀ k k' p, map k = some p → map k' = some p → k = k'

structure Sim (H : Heap) (s : Buckets) (τ : Time) : Prop where
  agree : tb.Agree H.view s τ
  sound : Sound H.view τ
  alloc : Allocated H.map H.next
  doomed_full : ∀ j, H.doomed j = true →
    tb.level (H.view (sweeps j).1) (max τ (sweeps j).2) = tb.burst

variable {tb calls sweeps}

lemma level_full_later {o : Option Bucket} {a b : Time} (h : tb.level o a = tb.burst)
    (hab : a ≤ b) : tb.level o b = tb.burst := by
  rw [level_eq_of_le tb o hab, h]
  exact refill_full le_rfl hab

lemma call_eq_locked {s : Buckets} {k : String} {b : Bucket} (hb : s k = some b) (op : Op)
    (t : Time) : tb.call s ⟨k, op, ⟨t, t, le_rfl⟩⟩ =
      ((tb.locked op b t).1, Function.update s k (some (tb.locked op b t).2)) := by
  have hget : tb.getBucket s k t = (b, s) := by simp only [getBucket, hb]
  have hkeep : Function.update s k (some b) = s := Function.update_eq_self_iff.2 hb.symm
  unfold call locked
  cases op with
  | allowN n =>
    dsimp only
    unfold allowN
    rw [hget]
    dsimp only
    cases tb.take b n t
    rfl
  | getRemaining =>
    dsimp only
    unfold getRemaining
    rw [hget, hkeep]
    rfl
  | getResetTime =>
    dsimp only
    unfold getResetTime
    rw [hget, hkeep]
    rfl

section Addresses

variable {map : String → Option Nat} {next : Nat} {objects : Nat → Bucket} {k : String}

lemma Allocated.store (h : Allocated map next) (k : String) :
    Allocated (Function.update map k (some next)) (next + 1) := by
  refine ⟨fun k' p hp => ?_, fun k₁ k₂ p h₁ h₂ => ?_⟩
  · rw [Function.update_apply] at hp
    split_ifs at hp
    · cases hp
      exact Nat.lt_succ_self _
    · exact (h.1 k' p hp).trans (Nat.lt_succ_self _)
  · rw [Function.update_apply] at h₁ h₂
    split_ifs at h₁ h₂ with e₁ e₂ e₂
    · rw [e₁, e₂]
    · cases h₁
      exact absurd (h.1 _ _ h₂) (lt_irrefl _)
    · cases h₂
      exact absurd (h.1 _ _ h₁) (lt_irrefl _)
    · exact h.2 k₁ k₂ p h₁ h₂

lemma Allocated.erase (h : Allocated map next) (k : String) :
    Allocated (Function.update map k none) next := by
  refine ⟨fun k' p hp => ?_, fun k₁ k₂ p h₁ h₂ => ?_⟩ <;>
    simp only [Function.update_apply] at * <;> split_ifs at *
  · exact h.1 k' p hp
  · exact h.2 k₁ k₂ p h₁ h₂

lemma view_store (h : Allocated map next) (b : Bucket) :
    (fun k' => (Function.update map k (some next) k').map (Function.update objects next b)) =
      Function.update (fun k' => (map k').map objects) k (some b) := by
  funext k'
  simp only [Function.update_apply]
  split_ifs
  · simp
  · cases hm : map k' with
    | none => rfl
    | some p => simp [Function.update_noteq (h.1 k' p hm).ne]

lemma view_write (h : Allocated map next) {p : Nat} (hk : map k = some p) (b : Bucket) :
    (fun k' => (map k').map (Function.update objects p b)) =
      Function.update (fun k' => (map k').map objects) k (some b) := by
  funext k'
  simp only [Function.update_apply]
  split_ifs with hki
  · simp [hki, hk]
  · cases hm : map k' with
    | none => rfl
    | some q =>
      have hqp : q ≠ p := fun hqp => hki (h.2 _ _ _ hm (hqp ▸ hk))
      simp [hqp]

lemma view_erase :
    (fun k' => (Function.update map k none k').map objects) =
      Function.update (fun k' => (map k').map objects) k none := by
  funext k'
  simp only [Function.update_apply]
  split_ifs <;> rfl

end Addresses

variable (tb sweeps) in
lemma sim_init (τ : Time) : tb.Sim sweeps Heap.init empty τ where
  agree _ := rfl
  sound _ _ h := by cases h
  alloc := ⟨fun _ _ h => (by cases h), fun _ _ _ h => (by cases h)⟩
  doomed_full _ h := by cases h

lemma Sim.later {H : Heap} {s : Buckets} {τ t : Time} (h : tb.Sim sweeps H s τ) (ht : τ ≤ t) :
    tb.Sim sweeps H s t where
  agree := h.agree.later ht
  sound := h.sound.mono ht
  alloc := h.alloc
  doomed_full j hj := level_full_later (h.doomed_full j hj) (max_le_max ht le_rfl)

lemma Sim.update {H H' : Heap} {s : Buckets} {τ : Time} (h : tb.Sim sweeps H s τ) {k : String}
    {o : Option Bucket} (hview : H'.view = Function.update H.view k o)
    (hk : tb.level (H.view k) τ = tb.burst) (ho : tb.level o τ = tb.burst)
    (hsound : ∀ b, o = some b → 0 ≤ b.tokens ∧ b.lastCheck ≤ τ)
    (halloc : Allocated H'.map H'.next) (hdoomed : ∀ j, H'.doomed j = true → H.doomed j = true) :
    tb.Sim sweeps H' s τ := by
  have hlevel : ∀ k' t, τ ≤ t →
      tb.level (H'.view k') t = tb.burst ∨ tb.level (H'.view k') t = tb.level (H.view k') t :=
    fun k' t ht => by
      rw [hview, Function.update_apply]
      split_ifs
      · exact .inl (level_full_later ho ht)
      · exact .inr rfl
  refine ⟨fun k' => ?_, fun k' b hb => ?_, halloc, fun j hj => ?_⟩
  · by_cases hk' : k' = k
    · rw [hview, hk', Function.update_same, ho, ← hk]
      exact h.agree k
    · rw [hview, Function.update_noteq hk']
      exact h.agree k'
  · rw [hview, Function.update_apply] at hb
    split_ifs at hb
    · exact hsound b hb
    · exact h.sound k' b hb
  · rcases hlevel (sweeps j).1 _ (le_max_left τ (sweeps j).2) with e | e <;> rw [e]
    exact h.doomed_full j (hdoomed j hj)

section Steps

variable {H : Heap} {i j : Nat} {t : Time}

@[simp] lemma step_load_fst : (tb.step calls sweeps H (.load i t)).1 = none := by
  simp only [step]
  split <;> rfl

@[simp] lemma step_check_fst : (tb.step calls sweeps H (.check j)).1 = none := by
  simp only [step]
  split <;> rfl

@[simp] lemma step_delete_fst : (tb.step calls sweeps H (.delete j)).1 = none := by
  simp only [step]
  split <;> rfl

lemma step_lock {p : Nat} (hl : H.loaded i = some p) :
    tb.step calls sweeps H (.lock i t) = (some (tb.locked (calls i).2 (H.objects p) t).1,
      { H with
        objects := Function.update H.objects p (tb.locked (calls i).2 (H.objects p) t).2 }) := by
  simp only [step, hl]

end Steps

lemma Sim.load {H : Heap} {s : Buckets} {τ : Time} (h : tb.Sim sweeps H s τ) (i : Nat) {t : Time}
    (ht : τ ≤ t) : tb.Sim sweeps (tb.step calls sweeps H (.load i t)).2 s t := by
  have h' := h.later ht
  cases hk : H.map (calls i).1 with
  | some p =>
    simp only [step, hk]
    exact ⟨h'.agree, h'.sound, h'.alloc, h'.doomed_full⟩
  | none =>
    have hnone : H.view (calls i).1 = none := by simp [Heap.view, hk]
    refine h'.update (k := (calls i).1) (o := some ⟨tb.burst, t⟩) ?_ (by rw [hnone, level_none])
      (by simp) (fun b hb => ?_) ?_ (fun j hj => by simpa [step, hk] using hj)
    · simp only [step, hk]
      exact view_store h.alloc _
    · cases hb
      exact ⟨burst_nonneg, le_rfl⟩
    · simp only [step, hk]
      exact h.alloc.store _

lemma Sim.lock {H : Heap} {s : Buckets} {τ : Time} (h : tb.Sim sweeps H s τ) {i : Nat} {t : Time}
    (ht : τ ≤ t) (hok : LockOK calls sweeps H i) :
    (tb.step calls sweeps H (.lock i t)).1 =
        some (tb.call s ⟨(calls i).1, (calls i).2, ⟨t, t, le_rfl⟩⟩).1 ∧
      tb.Sim sweeps (tb.step calls sweeps H (.lock i t)).2
        (tb.call s ⟨(calls i).1, (calls i).2, ⟨t, t, le_rfl⟩⟩).2 t := by
  obtain ⟨⟨p, hl, hm⟩, hfree⟩ := hok
  have hv : H.view (calls i).1 = some (H.objects p) := by simp [Heap.view, hm]
  let c : Call := ⟨(calls i).1, (calls i).2, ⟨t, t, le_rfl⟩⟩
  have hview : (tb.step calls sweeps H (.lock i t)).2.view = (tb.call H.view c).2 := by
    rw [step_lock hl, call_eq_locked hv]
    exact view_write h.alloc hm _
  obtain ⟨hans, hagree⟩ := call_agree h.agree c ht
  rw [step_lock hl] at hview ⊢
  refine ⟨by rw [← hans, call_eq_locked hv], ?_, ?_, h.alloc, fun j hj => ?_⟩ <;> rw [hview]
  · exact hagree
  · exact sound_call h.sound c ht
  · rw [call_snd_of_ne tb _ c (hfree j hj)]
    exact level_full_later (h.doomed_full j hj) (max_le_max ht le_rfl)

lemma Sim.check (hTTL : (tb.burst : ℚ) ≤ seconds tb.cleanupTTL * tb.rate) {H : Heap}
    {s : Buckets} {τ : Time} (h : tb.Sim sweeps H s τ) (j : Nat) :
    tb.Sim sweeps (tb.step calls sweeps H (.check j)).2 s (max τ (sweeps j).2) := by
  have h' := h.later (le_max_left τ (sweeps j).2)
  cases hk : H.map (sweeps j).1 with
  | none =>
    simp only [step, hk]
    exact h'
  | some p =>
    have hv : H.view (sweeps j).1 = some (H.objects p) := by simp [Heap.view, hk]
    simp only [step, hk]
    refine ⟨h'.agree, h'.sound, h'.alloc, fun j' hj' => ?_⟩
    simp only [Function.update_apply] at hj'
    split_ifs at hj' with hjj
    · subst hjj
      rw [decide_eq_true_eq] at hj'
      show tb.level (H.view (sweeps j').1) _ = _
      rw [hv, level_some, refill_of_stale hTTL (h.sound _ _ hv).1 hj' (le_max_right _ _)]
    · exact h'.doomed_full j' hj'

lemma Sim.delete {H : Heap} {s : Buckets} {τ : Time} (h : tb.Sim sweeps H s τ) (j : Nat) :
    tb.Sim sweeps (tb.step calls sweeps H (.delete j)).2 s (max τ (sweeps j).2) := by
  have h' := h.later (le_max_left τ (sweeps j).2)
  by_cases hd : H.doomed j = true
  · refine h'.update (k := (sweeps j).1) (o := none) ?_ (h.doomed_full j hd) rfl
      (fun _ hb => by cases hb) ?_ (fun j' hj' => ?_)
    · simp only [step, hd, if_true]
      exact view_erase
    · simp only [step, hd, if_true]
      exact h.alloc.erase _
    · simp only [step, hd, if_true, Function.update_apply] at hj'
      split_ifs at hj'
      exact hj'
  · simp only [step, hd, Bool.false_eq_true, if_false]
    exact h'

lemma Sim.run_eq {H : Heap} {s : Buckets} {τ : Time} (h : tb.Sim sweeps H s τ) {sts : List Step}
    (hTTL : ∀ j, Step.check j ∈ sts → (tb.burst : ℚ) ≤ seconds tb.cleanupTTL * tb.rate)
    (hclock : ClockInOrder sweeps sts) (hτ : ∀ st ∈ sts, st.reads = true → τ ≤ st.time sweeps)
    (hrace : tb.RaceFree calls sweeps H sts) :
    tb.run calls sweeps H sts = tb.answers s (lockedCalls calls sts) := by
  induction sts generalizing H s τ with
  | nil => rfl
  | cons st sts ih =>
    obtain ⟨hst, hclock'⟩ := List.pairwise_cons.1 hclock
    have hTTL' := fun j hj => hTTL j (List.mem_cons_of_mem _ hj)
    have hτst := hτ st (List.mem_cons_self _ _)
    have hlater : ∀ st' ∈ sts, st'.reads = true → max τ (st.time sweeps) ≤ st'.time sweeps :=
      fun st' hm hr => max_le (hτ st' (List.mem_cons_of_mem _ hm) hr) (hst st' hm hr)
    cases st with
    | load i t =>
      have hτt : τ ≤ t := hτst rfl
      simp only [run, step_load_fst, Option.toList, List.nil_append, lockedCalls]
      exact ih (h.load i hτt) hTTL' hclock' hst hrace
    | lock i t =>
      have hτt : τ ≤ t := hτst rfl
      obtain ⟨hans, hsim⟩ := h.lock hτt hrace.1
      rw [run, hans]
      exact congrArg (_ :: ·) (ih hsim hTTL' hclock' hst hrace.2)
    | check j =>
      simp only [run, step_check_fst, Option.toList, List.nil_append, lockedCalls]
      exact ih (h.check (hTTL j (List.mem_cons_self _ _)) j) hTTL' hclock' hlater hrace
    | delete j =>
      simp only [run, step_delete_fst, Option.toList, List.nil_append, lockedCalls]
      exact ih (h.delete j) hTTL' hclock' hlater hrace

end TokenBucket

variable (sweeps : Nat → String × Time) in
lemma exists_le_times (sts : List Step) : ∃ τ, ∀ st ∈ sts, τ ≤ st.time sweeps := by
  induction sts with
  | nil => exact ⟨0, by simp⟩
  | cons st sts ih =>
    obtain ⟨τ, hτ⟩ := ih
    exact ⟨min (st.time sweeps) τ, List.forall_mem_cons.2
      ⟨min_le_left _ _, fun x hx => (min_le_right _ _).trans (hτ x hx)⟩⟩

namespace TokenBucket

/-- Linearizability of the limiter with sweeps: when `cleanupTTL·rate ≥ burst` and no locked
section runs on a bucket the map has dropped, or on one a sweep has found stale and is about to
delete, the interleaved goroutines answer every call as the atomic limiter does, taking the
calls in the order of their locked sections, each at its lock's clock reading, and never
deleting a bucket. -/
theorem run_eq_answers_of_raceFree (tb : TokenBucket) (calls : Nat → String × Op)
    (sweeps : Nat → String × Time) (hTTL : (tb.burst : ℚ) ≤ seconds tb.cleanupTTL * tb.rate)
    {sts : List Step} (hclock : ClockInOrder sweeps sts)
    (hrace : tb.RaceFree calls sweeps Heap.init sts) :
    tb.run calls sweeps Heap.init sts = tb.answers empty (lockedCalls calls sts) := by
  obtain ⟨τ, hτ⟩ := exists_le_times sweeps sts
  exact (sim_init tb sweeps τ).run_eq (fun _ _ => hTTL) hclock
    (fun st hst _ => hτ st hst) hrace

theorem run_eq_answers_of_raceFree_after_delete :
    ((newTokenBucket 60 1 second).burst : ℚ) ≤
        seconds (newTokenBucket 60 1 second).cleanupTTL * (newTokenBucket 60 1 second).rate ∧
      ClockInOrder (fun _ => ("k", 2 * second))
        [.load 0 0, .lock 0 0, .check 0, .delete 0, .load 1 (2 * second), .lock 1 (2 * second)] ∧
      (newTokenBucket 60 1 second).RaceFree (fun _ => ("k", .allow)) (fun _ => ("k", 2 * second))
        Heap.init
        [.load 0 0, .lock 0 0, .check 0, .delete 0, .load 1 (2 * second), .lock 1 (2 * second)] ∧
      (newTokenBucket 60 1 second).run (fun _ => ("k", .allow)) (fun _ => ("k", 2 * second))
          Heap.init
          [.load 0 0, .lock 0 0, .check 0, .delete 0, .load 1 (2 * second), .lock 1 (2 * second)] =
        (newTokenBucket 60 1 second).answers empty (lockedCalls (fun _ => ("k", .allow))
          [.load 0 0, .lock 0 0, .check 0, .delete 0, .load 1 (2 * second),
            .lock 1 (2 * second)]) := by
  have hTTL : ((newTokenBucket 60 1 second).burst : ℚ) ≤
      seconds (newTokenBucket 60 1 second).cleanupTTL * (newTokenBucket 60 1 second).rate := by
    norm_num [newTokenBucket, atLeastOne, seconds, second]
  have hrace : (newTokenBucket 60 1 second).RaceFree (fun _ => ("k", .allow))
      (fun _ => ("k", 2 * second)) Heap.init
      [.load 0 0, .lock 0 0, .check 0, .delete 0, .load 1 (2 * second), .lock 1 (2 * second)] := by
    norm_num [RaceFree, LockOK, step, Heap.init, Function.update_apply, locked, take, Op.allow,
      newTokenBucket, atLeastOne, second]
  exact ⟨hTTL, by decide, hrace, run_eq_answers_of_raceFree _ _ _ hTTL (by decide) hrace⟩

/-- For every configuration, the race of a request with a sweep on an idle key: a
`GetRemaining(key)` at `0` leaves a full bucket; past `cleanupTTL` an `AllowN(key, burst)` loads
it, the sweep reads it stale and deletes it, and the `AllowN` takes its tokens from the dropped
bucket. An `Allow(key)` at the same instant builds a new full bucket, so both are admitted,
`burst + 1` tokens at one instant, where the atomic limiter refuses the `Allow`. -/
theorem sweep_race_admits_burst_plus_one (tb : TokenBucket) :
    let now := max 0 (tb.cleanupTTL + 1)
    let calls : Nat → String × Op := fun i =>
      if i = 0 then ("k", .getRemaining) else if i = 1 then ("k", .allowN tb.burst)
      else ("k", .allow)
    let sweeps : Nat → String × Time := fun _ => ("k", now)
    let sts : List Step := [.load 0 0, .lock 0 0, .load 1 now, .check 0, .delete 0, .lock 1 now,
      .load 2 now, .lock 2 now]
    ClockInOrder sweeps sts ∧
      tb.run calls sweeps Heap.init sts =
        [.remaining tb.burst, .allowed true, .allowed true] ∧
      grantedIn "k" now now (lockedCalls calls sts) (tb.run calls sweeps Heap.init sts) =
        tb.burst + 1 ∧
      tb.answers empty (lockedCalls calls sts) =
        [.remaining tb.burst, .allowed true, .allowed false] := by
  intro now calls sweeps sts
  have hnow : 0 ≤ now := le_max_left _ _
  have hstale : tb.cleanupTTL < now := lt_max_of_lt_right (lt_add_one _)
  have hburst : (1 : ℚ) ≤ tb.burst := by exact_mod_cast tb.one_le_burst
  have hrun : tb.run calls sweeps Heap.init sts =
      [.remaining tb.burst, .allowed true, .allowed true] := by
    simp [run, step, sts, calls, sweeps, Heap.init, Function.update_apply, hstale, locked, take,
      refill_full, hnow, Op.allow, hburst]
  refine ⟨by simp [ClockInOrder, sts, Step.time, Step.reads, sweeps, hnow], hrun, ?_, ?_⟩
  · rw [hrun]
    simp [grantedIn, lockedCalls, sts, calls, Call.takenOn, Op.taken, Op.allow]
  · simp [answers, lockedCalls, sts, calls, call, allowN_eq, getRemaining_eq, Op.allow, empty,
      getBucket_eq, refill_full, hnow]

end TokenBucket

end Paygate.RateLimit
