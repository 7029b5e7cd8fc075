import Paygate.RateLimit.Interleaving
import Paygate.RateLimit.Float64.Reclamation

/-! The goroutines of `gateway/ratelimit.go` over the heap of bucket objects, in `float64`. -/

namespace Paygate.RateLimit.Float64.TokenBucket

open Paygate.RateLimit.TokenBucket (Sound Allocated view_store view_write view_erase)

variable (tb : TokenBucket)

/-- The locked section of each method, on the bucket its `getBucket` returned. -/
def locked (op : Op) (b : Bucket) (now : Time) : Answer × Bucket :=
  match op with
  | .allowN n => Prod.map .allowed id (tb.take b n now)
  | .getRemaining => (.remaining ⌊tb.refill b now⌋, b)
  | .getResetTime => (.resetAt (tb.resetTimeFrom (tb.refill b now) now), b)

variable (calls : Nat → String × Op) (sweeps : Nat → String × Time)

/-- One goroutine step, with the answer of a locked section. `getBucket` `LoadOrStore`s a full
bucket stamped with its clock reading; a sweep keeps the verdict of its locked read of
`lastCheck` in a local, and `Delete` removes the key whatever the map then holds. -/
def step (H : Heap) : Step → Option Answer × Heap
  | .load i now =>
    match H.map (calls i).1 with
    | some p => (none, { H with loaded := Function.update H.loaded i (some p) })
    | none => (none, { H with
        objects := Function.update H.objects H.next ⟨tb.burstTokens, now⟩
        next := H.next + 1
        map := Function.update H.map (calls i).1 (some H.next)
        loaded := Function.update H.loaded i (some H.next) })
  | .lock i now =>
    match H.loaded i with
    | some p =>
      let (answer, b) := tb.locked (calls i).2 (H.objects p) now
      (some answer, { H with objects := Function.update H.objects p b })
    | none => (none, H)
  | .check j =>
    match H.map (sweeps j).1 with
    | some p =>
      let stale := decide (Time.sub (sweeps j).2 (H.objects p).lastCheck > tb.cleanupTTL)
      (none, { H with doomed := Function.update H.doomed j stale })
    | none => (none, H)
  | .delete j =>
    if H.doomed j then
      (none, { H with
        map := Function.update H.map (sweeps j).1 none
        doomed := Function.update H.doomed j false })
    else (none, H)

def run : Heap → List Step → List Answer
  | _, [] => []
  | H, st :: sts => (tb.step calls sweeps H st).1.toList ++ run (tb.step calls sweeps H st).2 sts

def RaceFree : Heap → List Step → Prop
  | _, [] => True
  | H, .lock i now :: sts => LockOK calls sweeps H i ∧
      RaceFree (tb.step calls sweeps H (.lock i now)).2 sts
  | H, st :: sts => RaceFree (tb.step calls sweeps H st).2 sts

structure Sim (H : Heap) (s : Buckets) (τ : Time) : Prop where
  agree : tb.Agree H.view s τ
  sound : Sound H.view τ
  alloc : Allocated H.map H.next
  doomed_full : ∀ j, H.doomed j = true → tb.Full (H.view (sweeps j).1) τ

variable {tb calls sweeps}

lemma call_eq_locked {s : Buckets} {k : String} {b : Bucket} (hb : s k = some b) (op : Op)
    (t : Time) : tb.call s ⟨k, op, ⟨t, t, le_rfl⟩⟩ =
      ((tb.locked op b t).1, Function.update s k (some (tb.locked op b t).2)) := by
  have hget : tb.getBucket s k t = (b, s) := by simp only [getBucket, hb]
  have hkeep : Function.update s k (some b) = s := Function.update_eq_self_iff.2 hb.symm
  unfold call locked
  cases op with
  | allowN n =>
    dsimp only
    unfold allowN
    rw [hget]
    dsimp only
    cases tb.take b n t
    rfl
  | getRemaining =>
    dsimp only
    unfold getRemaining
    rw [hget, hkeep]
    rfl
  | getResetTime =>
    dsimp only
    unfold getResetTime
    rw [hget, hkeep]
    rfl

variable (tb sweeps) in
lemma sim_init (τ : Time) : tb.Sim sweeps Heap.init empty τ where
  agree _ := .inl rfl
  sound _ _ h := by cases h
  alloc := ⟨fun _ _ h => (by cases h), fun _ _ _ h => (by cases h)⟩
  doomed_full _ h := by cases h

lemma Sim.later {H : Heap} {s : Buckets} {τ t : Time} (h : tb.Sim sweeps H s τ) (ht : τ ≤ t) :
    tb.Sim sweeps H s t where
  agree := h.agree.later ht
  sound := h.sound.mono ht
  alloc := h.alloc
  doomed_full j hj := (h.doomed_full j hj).mono ht

lemma Sim.update {H H' : Heap} {s : Buckets} {τ : Time} (h : tb.Sim sweeps H s τ) {k : String}
    {o : Option Bucket} (hview : H'.view = Function.update H.view k o)
    (hk : tb.Full (H.view k) τ) (ho : tb.Full o τ)
    (hsound : ∀ b, o = some b → 0 ≤ b.tokens ∧ b.lastCheck ≤ τ)
    (halloc : Allocated H'.map H'.next) (hdoomed : ∀ j, H'.doomed j = true → H.doomed j = true) :
    tb.Sim sweeps H' s τ := by
  refine ⟨fun k' => ?_, fun k' b hb => ?_, halloc, fun j hj => ?_⟩
  · rw [hview, Function.update_apply]
    split_ifs with hk'
    · subst hk'
      rcases h.agree k' with e | ⟨-, f'⟩
      · exact .inr ⟨ho, e ▸ hk⟩
      · exact .inr ⟨ho, f'⟩
    · exact h.agree k'
  · rw [hview, Function.update_apply] at hb
    split_ifs at hb
    · exact hsound b hb
    · exact h.sound k' b hb
  · rw [hview, Function.update_apply]
    split_ifs
    · exact ho
    · exact h.doomed_full j (hdoomed j hj)

section Steps

variable {H : Heap} {i j : Nat} {t : Time}

@[simp] lemma step_load_fst : (tb.step calls sweeps H (.load i t)).1 = none := by
  simp only [step]
  split <;> rfl

@[simp] lemma step_check_fst : (tb.step calls sweeps H (.check j)).1 = none := by
  simp only [step]
  split <;> rfl

@[simp] lemma step_delete_fst : (tb.step calls sweeps H (.delete j)).1 = none := by
  simp only [step]
  split <;> rfl

lemma step_lock {p : Nat} (hl : H.loaded i = some p) :
    tb.step calls sweeps H (.lock i t) = (some (tb.locked (calls i).2 (H.objects p) t).1,
      { H with
        objects := Function.update H.objects p (tb.locked (calls i).2 (H.objects p) t).2 }) := by
  simp only [step, hl]

end Steps

lemma Sim.load {H : Heap} {s : Buckets} {τ : Time} (h : tb.Sim sweeps H s τ) (i : Nat) {t : Time}
    (ht : τ ≤ t) : tb.Sim sweeps (tb.step calls sweeps H (.load i t)).2 s t := by
  have h' := h.later ht
  cases hk : H.map (calls i).1 with
  | some p =>
    simp only [step, hk]
    exact ⟨h'.agree, h'.sound, h'.alloc, h'.doomed_full⟩
  | none =>
    have hnone : H.view (calls i).1 = none := by simp [Heap.view, hk]
    refine h'.update (k := (calls i).1) (o := some ⟨tb.burstTokens, t⟩) ?_
      (by rw [hnone]; exact full_none t) (full_fresh le_rfl) (fun b hb => ?_) ?_
      (fun j hj => by simpa [step, hk] using hj)
    · simp only [step, hk]
      exact view_store h.alloc _
    · cases hb
      exact ⟨burstTokens_nonneg, le_rfl⟩
    · simp only [step, hk]
      exact h.alloc.store _

lemma Sim.lock {H : Heap} {s : Buckets} {τ : Time} (h : tb.Sim sweeps H s τ) {i : Nat} {t : Time}
    (ht : τ ≤ t) (hok : LockOK calls sweeps H i) :
    (tb.step calls sweeps H (.lock i t)).1 =
        some (tb.call s ⟨(calls i).1, (calls i).2, ⟨t, t, le_rfl⟩⟩).1 ∧
      tb.Sim sweeps (tb.step calls sweeps H (.lock i t)).2
        (tb.call s ⟨(calls i).1, (calls i).2, ⟨t, t, le_rfl⟩⟩).2 t := by
  obtain ⟨⟨p, hl, hm⟩, hfree⟩ := hok
  have hv : H.view (calls i).1 = some (H.objects p) := by simp [Heap.view, hm]
  let c : Call := ⟨(calls i).1, (calls i).2, ⟨t, t, le_rfl⟩⟩
  have hview : (tb.step calls sweeps H (.lock i t)).2.view = (tb.call H.view c).2 := by
    rw [step_lock hl, call_eq_locked hv]
    exact view_write h.alloc hm _
  obtain ⟨hans, hagree⟩ := call_agree h.agree c ht
  rw [step_lock hl] at hview ⊢
  refine ⟨by rw [← hans, call_eq_locked hv], ?_, ?_, h.alloc, fun j hj => ?_⟩ <;> rw [hview]
  · exact hagree
  · exact sound_call h.sound c ht
  · rw [call_snd_of_ne tb _ c (hfree j hj)]
    exact (h.doomed_full j hj).mono ht

lemma Sim.check (hTTL : tb.burstTokens ≤ fl (seconds tb.cleanupTTL * tb.rate)) {H : Heap}
    {s : Buckets} {τ : Time} (h : tb.Sim sweeps H s τ) (j : Nat) :
    tb.Sim sweeps (tb.step calls sweeps H (.check j)).2 s (max τ (sweeps j).2) := by
  have h' := h.later (le_max_left τ (sweeps j).2)
  cases hk : H.map (sweeps j).1 with
  | none =>
    simp only [step, hk]
    exact h'
  | some p =>
    have hv : H.view (sweeps j).1 = some (H.objects p) := by simp [Heap.view, hk]
    simp only [step, hk]
    refine ⟨h'.agree, h'.sound, h'.alloc, fun j' hj' => ?_⟩
    simp only [Function.update_apply] at hj'
    split_ifs at hj' with hjj
    · subst hjj
      rw [decide_eq_true_eq] at hj'
      show tb.Full (H.view (sweeps j').1) _
      rw [hv]
      exact (full_of_stale hTTL (h.sound _ _ hv).1 hj').mono (le_max_right _ _)
    · exact h'.doomed_full j' hj'

lemma Sim.delete {H : Heap} {s : Buckets} {τ : Time} (h : tb.Sim sweeps H s τ) (j : Nat) :
    tb.Sim sweeps (tb.step calls sweeps H (.delete j)).2 s (max τ (sweeps j).2) := by
  have h' := h.later (le_max_left τ (sweeps j).2)
  by_cases hd : H.doomed j = true
  · refine h'.update (k := (sweeps j).1) (o := none) ?_ (h'.doomed_full j hd) (full_none _)
      (fun _ hb => by cases hb) ?_ (fun j' hj' => ?_)
    · simp only [step, hd, if_true]
      exact view_erase
    · simp only [step, hd, if_true]
      exact h.alloc.erase _
    · simp only [step, hd, if_true, Function.update_apply] at hj'
      split_ifs at hj'
      exact hj'
  · simp only [step, hd, Bool.false_eq_true, if_false]
    exact h'

lemma Sim.run_eq {H : Heap} {s : Buckets} {τ : Time} (h : tb.Sim sweeps H s τ) {sts : List Step}
    (hTTL : ∀ j, Step.check j ∈ sts → tb.burstTokens ≤ fl (seconds tb.cleanupTTL * tb.rate))
    (hclock : ClockInOrder sweeps sts) (hτ : ∀ st ∈ sts, st.reads = true → τ ≤ st.time sweeps)
    (hrace : tb.RaceFree calls sweeps H sts) :
    tb.run calls sweeps H sts = tb.answers s (lockedCalls calls sts) := by
  induction sts generalizing H s τ with
  | nil => rfl
  | cons st sts ih =>
    obtain ⟨hst, hclock'⟩ := List.pairwise_cons.1 hclock
    have hTTL' := fun j hj => hTTL j (List.mem_cons_of_mem _ hj)
    have hτst := hτ st (List.mem_cons_self _ _)
    have hlater : ∀ st' ∈ sts, st'.reads = true → max τ (st.time sweeps) ≤ st'.time sweeps :=
      fun st' hm hr => max_le (hτ st' (List.mem_cons_of_mem _ hm) hr) (hst st' hm hr)
    cases st with
    | load i t =>
      simp only [run, step_load_fst, Option.toList, List.nil_append, lockedCalls]
      exact ih (h.load i (hτst rfl)) hTTL' hclock' hst hrace
    | lock i t =>
      have hτt : τ ≤ t := hτst rfl
      obtain ⟨hans, hsim⟩ := h.lock hτt hrace.1
      rw [run, hans]
      exact congrArg (_ :: ·) (ih hsim hTTL' hclock' hst hrace.2)
    | check j =>
      simp only [run, step_check_fst, Option.toList, List.nil_append, lockedCalls]
      exact ih (h.check (hTTL j (List.mem_cons_self _ _)) j) hTTL' hclock' hlater hrace
    | delete j =>
      simp only [run, step_delete_fst, Option.toList, List.nil_append, lockedCalls]
      exact ih (h.delete j) hTTL' hclock' hlater hrace

/-- Linearizability with sweeps: when `float64(burst) ≤ cleanupTTL.Seconds()*rate` and no locked
section runs on a bucket the map has dropped, or on one a sweep has found stale and is about to
delete, the interleaved goroutines answer every call as the atomic limiter does, taking the
calls in the order of their locked sections, each at its lock's clock reading, and never
deleting a bucket. -/
theorem interleaved_eq_answers_of_raceFree (tb : TokenBucket) (calls : Nat → String × Op)
    (sweeps : Nat → String × Time) (hTTL : tb.burstTokens ≤ fl (seconds tb.cleanupTTL * tb.rate))
    {sts : List Step} (hclock : ClockInOrder sweeps sts)
    (hrace : tb.RaceFree calls sweeps Heap.init sts) :
    tb.run calls sweeps Heap.init sts = tb.answers empty (lockedCalls calls sts) := by
  obtain ⟨τ, hτ⟩ := exists_le_times sweeps sts
  exact (sim_init tb sweeps τ).run_eq (fun _ _ => hTTL) hclock
    (fun st hst _ => hτ st hst) hrace

section NoSweep

variable {H : Heap} {i : Nat} {t : Time}

lemma step_load_loaded_isSome : ((tb.step calls sweeps H (.load i t)).2.loaded i).isSome := by
  simp only [step]
  split <;> simp

lemma step_load_map_of_loaded {p : Nat}
    (hp : (tb.step calls sweeps H (.load i t)).2.loaded i = some p) :
    (tb.step calls sweeps H (.load i t)).2.map (calls i).1 = some p := by
  simp only [step] at hp ⊢
  split at hp <;> simp_all

lemma step_loaded_of_ne {st : Step} (hst : ∀ t, st ≠ .load i t) :
    (tb.step calls sweeps H st).2.loaded i = H.loaded i := by
  cases st with
  | load i' t' =>
    have hi : i ≠ i' := fun h => hst t' (h ▸ rfl)
    simp only [step]
    split <;> simp [Function.update_noteq hi]
  | lock i' t' =>
    simp only [step]
    split <;> rfl
  | check j | delete j =>
    simp only [step]
    split <;> rfl

lemma step_map_of_reads {st : Step} (hst : st.reads = true) {k : String} {p : Nat}
    (hk : H.map k = some p) : (tb.step calls sweeps H st).2.map k = some p := by
  cases st with
  | load i' t' =>
    simp only [step]
    split
    · exact hk
    · rename_i hnone
      show Function.update H.map (calls i').1 (some H.next) k = some p
      rw [Function.update_noteq fun h => by rw [h, hnone] at hk; cases hk]
      exact hk
  | lock i' t' =>
    simp only [step]
    split <;> exact hk
  | check _ | delete _ => cases hst

lemma step_doomed_of_reads {st : Step} (hst : st.reads = true) :
    (tb.step calls sweeps H st).2.doomed = H.doomed := by
  cases st with
  | load i' t' =>
    simp only [step]
    split <;> rfl
  | lock i' t' =>
    simp only [step]
    split <;> rfl
  | check _ | delete _ => cases hst

lemma loaded_step_isSome {st : Step} (h : (H.loaded i).isSome ∨ ∃ t, st = .load i t) :
    ((tb.step calls sweeps H st).2.loaded i).isSome := by
  by_cases hst : ∃ t, st = .load i t
  · obtain ⟨t, rfl⟩ := hst
    exact step_load_loaded_isSome
  · rw [step_loaded_of_ne fun t h => hst ⟨t, h⟩]
    exact h.resolve_right hst

lemma loadedLive_step (h : LoadedLive calls H) {st : Step} (hst : st.reads = true) :
    LoadedLive calls (tb.step calls sweeps H st).2 := by
  refine ⟨fun i p hp => ?_, by rw [step_doomed_of_reads hst]; exact h.2⟩
  by_cases hl : ∃ t, st = .load i t
  · obtain ⟨t, rfl⟩ := hl
    exact step_load_map_of_loaded hp
  · rw [step_loaded_of_ne fun t h => hl ⟨t, h⟩] at hp
    exact step_map_of_reads hst (h.1 i p hp)

lemma raceFree_of_loadsFirst (h : LoadedLive calls H) {seen : List Nat}
    (hseen : ∀ i ∈ seen, (H.loaded i).isSome) {sts : List Step}
    (hsweep : ∀ st ∈ sts, st.reads = true) (hfirst : loadsFirst seen sts = true) :
    tb.RaceFree calls sweeps H sts := by
  induction sts generalizing H seen with
  | nil => trivial
  | cons st sts ih =>
    have hst := hsweep st (List.mem_cons_self _ _)
    have hsweep' := fun st' hm => hsweep st' (List.mem_cons_of_mem _ hm)
    have h' : LoadedLive calls (tb.step calls sweeps H st).2 := loadedLive_step h hst
    cases st with
    | load i t =>
      refine ih h' (fun i' hi' => loaded_step_isSome ?_) hsweep' hfirst
      rcases List.mem_cons.1 hi' with rfl | hi'
      · exact .inr ⟨t, rfl⟩
      · exact .inl (hseen i' hi')
    | lock i t =>
      simp only [loadsFirst, Bool.and_eq_true, List.elem_iff, List.contains] at hfirst
      obtain ⟨p, hp⟩ := Option.isSome_iff_exists.1 (hseen i hfirst.1)
      exact ⟨⟨⟨p, hp, h.1 i p hp⟩, fun j hj => absurd hj (by rw [h.2 j]; decide)⟩,
        ih h' (fun i' hi' => loaded_step_isSome (.inl (hseen i' hi'))) hsweep' hfirst.2⟩
    | check _ | delete _ => cases hst

end NoSweep

/-- Linearizability between sweeps: when each call locks after its own `getBucket`, every
interleaving of `LoadOrStore`s and locked sections answers as the atomic limiter does over the
calls in the order of their locked sections, racing `LoadOrStore`s of a new key included. -/
theorem interleaved_eq_answers_of_loadsFirst (tb : TokenBucket) (calls : Nat → String × Op)
    (sweeps : Nat → String × Time) {sts : List Step} (hsweep : ∀ st ∈ sts, st.reads = true)
    (hclock : ClockInOrder sweeps sts) (hfirst : loadsFirst [] sts = true) :
    tb.run calls sweeps Heap.init sts = tb.answers empty (lockedCalls calls sts) := by
  obtain ⟨τ, hτ⟩ := exists_le_times sweeps sts
  refine (sim_init tb sweeps τ).run_eq (fun j hj => absurd (hsweep _ hj) Bool.false_ne_true) hclock
    (fun st hst _ => hτ st hst) (raceFree_of_loadsFirst ⟨fun _ _ h => ?_, fun _ => rfl⟩
      (fun _ h => (List.not_mem_nil _ h).elim) hsweep hfirst)
  cases h

theorem interleaved_eq_answers_of_loadsFirst_crossed_locks :
    (∀ st ∈ [Step.load 0 0, .load 1 0, .lock 1 0, .lock 0 second], st.reads = true) ∧
      ClockInOrder (fun _ => ("k", 0)) [.load 0 0, .load 1 0, .lock 1 0, .lock 0 second] ∧
      loadsFirst [] [.load 0 0, .load 1 0, .lock 1 0, .lock 0 second] = true ∧
      (newTokenBucket 60 1 (300 * second)).run (fun _ => ("k", .allow)) (fun _ => ("k", 0))
          Heap.init [.load 0 0, .load 1 0, .lock 1 0, .lock 0 second] =
        (newTokenBucket 60 1 (300 * second)).answers empty
          (lockedCalls (fun _ => ("k", .allow)) [.load 0 0, .load 1 0, .lock 1 0, .lock 0 second]) :=
  ⟨by decide, by decide, rfl,
    interleaved_eq_answers_of_loadsFirst _ _ _ (by decide) (by decide) rfl⟩

section Runs

attribute [local semireducible] Rat.add Rat.mul Rat.inv Rat.sub

set_option maxRecDepth 100000

theorem interleaved_eq_answers_of_raceFree_after_delete :
    (newTokenBucket 60 1 second).burstTokens ≤
        fl (seconds (newTokenBucket 60 1 second).cleanupTTL * (newTokenBucket 60 1 second).rate) ∧
      ClockInOrder (fun _ => ("k", 2 * second))
        [.load 0 0, .lock 0 0, .check 0, .delete 0, .load 1 (2 * second), .lock 1 (2 * second)] ∧
      (newTokenBucket 60 1 second).RaceFree (fun _ => ("k", .allow)) (fun _ => ("k", 2 * second))
        Heap.init
        [.load 0 0, .lock 0 0, .check 0, .delete 0, .load 1 (2 * second), .lock 1 (2 * second)] ∧
      (newTokenBucket 60 1 second).run (fun _ => ("k", .allow)) (fun _ => ("k", 2 * second))
          Heap.init
          [.load 0 0, .lock 0 0, .check 0, .delete 0, .load 1 (2 * second), .lock 1 (2 * second)] =
        (newTokenBucket 60 1 second).answers empty (lockedCalls (fun _ => ("k", .allow))
          [.load 0 0, .lock 0 0, .check 0, .delete 0, .load 1 (2 * second),
            .lock 1 (2 * second)]) := by
  have hTTL : (newTokenBucket 60 1 second).burstTokens ≤
      fl (seconds (newTokenBucket 60 1 second).cleanupTTL * (newTokenBucket 60 1 second).rate) := by
    decide
  have hrace : (newTokenBucket 60 1 second).RaceFree (fun _ => ("k", .allow))
      (fun _ => ("k", 2 * second)) Heap.init
      [.load 0 0, .lock 0 0, .check 0, .delete 0, .load 1 (2 * second), .lock 1 (2 * second)] := by
    have hstale : (newTokenBucket 60 1 second).cleanupTTL < Time.sub (2 * second) 0 := by decide
    simp [RaceFree, LockOK, step, Heap.init, Function.update_apply, locked, take, Op.allow,
      refill_full, one_le_burstTokens, hstale]
  exact ⟨hTTL, by decide, hrace,
    interleaved_eq_answers_of_raceFree _ _ _ hTTL (by decide) hrace⟩

end Runs

end Paygate.RateLimit.Float64.TokenBucket
