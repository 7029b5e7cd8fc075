import Paygate.Payment.Middleware

/-! Runs of the TypeScript server, one atomic `x402Middleware` step per request. -/

namespace Paygate.Payment

/-- A request as the server handles it, with what `uuidv4()` and `Date.now()` return then. -/
structure Arrival where
  req : Request
  uuid : String
  now : Int

section

variable (cfg : Config) (verifyTypedData : VerifyTypedData)

def step (nonceStore : NonceStore) (a : Arrival) : Outcome × NonceStore :=
  x402Middleware cfg verifyTypedData a.req a.uuid a.now nonceStore

def serve : NonceStore → List Arrival → List Outcome
  | _, [] => []
  | nonceStore, a :: as =>
    (step cfg verifyTypedData nonceStore a).1 :: serve (step cfg verifyTypedData nonceStore a).2 as

def final : NonceStore → List Arrival → NonceStore
  | nonceStore, [] => nonceStore
  | nonceStore, a :: as => final (step cfg verifyTypedData nonceStore a).2 as

def admitted : NonceStore → List Arrival → List String
  | _, [] => []
  | nonceStore, a :: as =>
    if (step cfg verifyTypedData nonceStore a).1.isNext then
      a.req.nonce.getD "" :: admitted (step cfg verifyTypedData nonceStore a).2 as
    else admitted (step cfg verifyTypedData nonceStore a).2 as

/-- The headers pass and `verifyTypedData` recovers a signer from the message they give. -/
def accepted (req : Request) : Prop :=
  ∃ context signature signer, requestContext cfg req = some (context, signature) ∧
    verifyTypedData (domain cfg) types context.message signature = some signer

end

/-- The nonces a run issues: the `uuidv4()` of each challenge. -/
def issued (as : List Arrival) : List String := (as.filter (·.req.challenged)).map (·.uuid)

/-- `uuidv4()` never repeats within the run. -/
def Fresh (as : List Arrival) : Prop := (issued as).Nodup

instance : DecidablePred Fresh := fun as => inferInstanceAs (Decidable (issued as).Nodup)

section

variable {cfg : Config} {verifyTypedData : VerifyTypedData}

lemma issued_cons (a : Arrival) (as : List Arrival) :
    issued (a :: as) = if a.req.challenged then a.uuid :: issued as else issued as := by
  unfold issued
  split <;> simp [List.filter_cons, *]

lemma issued_append (as bs : List Arrival) : issued (as ++ bs) = issued as ++ issued bs := by
  simp [issued]

lemma serve_append (s : NonceStore) (as bs : List Arrival) :
    serve cfg verifyTypedData s (as ++ bs) =
      serve cfg verifyTypedData s as ++ serve cfg verifyTypedData (final cfg verifyTypedData s as) bs := by
  induction as generalizing s <;> simp [serve, final, *]

lemma final_append (s : NonceStore) (as bs : List Arrival) :
    final cfg verifyTypedData s (as ++ bs) =
      final cfg verifyTypedData (final cfg verifyTypedData s as) bs := by
  induction as generalizing s <;> simp [final, *]

lemma admitted_append (s : NonceStore) (as bs : List Arrival) :
    admitted cfg verifyTypedData s (as ++ bs) =
      admitted cfg verifyTypedData s as ++
        admitted cfg verifyTypedData (final cfg verifyTypedData s as) bs := by
  induction as generalizing s with
  | nil => rfl
  | cons a as ih => simp only [List.cons_append, admitted, final]; split <;> simp [ih]

@[simp] lemma serve_length (s : NonceStore) (as : List Arrival) :
    (serve cfg verifyTypedData s as).length = as.length := by
  induction as generalizing s <;> simp [serve, *]

lemma serve_getElem?_length (s : NonceStore) (pre : List Arrival) (a : Arrival)
    (post : List Arrival) :
    (serve cfg verifyTypedData s (pre ++ a :: post))[pre.length]? =
      some (step cfg verifyTypedData (final cfg verifyTypedData s pre) a).1 := by
  rw [serve_append, List.getElem?_append_right (by simp)]
  simp [serve]

lemma run_cons_cases (s : NonceStore) (a : Arrival) (as : List Arrival) :
    (a.req.challenged = true ∧ issued (a :: as) = a.uuid :: issued as ∧
      admitted cfg verifyTypedData s (a :: as) = admitted cfg verifyTypedData (insert a.uuid s) as ∧
      final cfg verifyTypedData s (a :: as) = final cfg verifyTypedData (insert a.uuid s) as) ∨
    (∃ n ∈ s, a.req.nonce = some n ∧ issued (a :: as) = issued as ∧
      admitted cfg verifyTypedData s (a :: as) = n :: admitted cfg verifyTypedData (s.erase n) as ∧
      final cfg verifyTypedData s (a :: as) = final cfg verifyTypedData (s.erase n) as) ∨
    (issued (a :: as) = issued as ∧
      admitted cfg verifyTypedData s (a :: as) = admitted cfg verifyTypedData s as ∧
      final cfg verifyTypedData s (a :: as) = final cfg verifyTypedData s as ∧
      ∀ n ∈ s, a.req.nonce = some n → ¬ accepted cfg verifyTypedData a.req) := by
  rcases x402Middleware_cases cfg verifyTypedData a.req a.uuid a.now s with
    ⟨hch, hnx, hst⟩ | ⟨context, signature, signer, hrc, hmem, -, heq⟩ | ⟨hch, hnx, hst, hrej⟩
  · exact .inl ⟨hch, by simp [issued_cons, hch], by simp [admitted, step, hnx, hst],
      by simp [final, step, hst]⟩
  · have hn := requestContext_nonce hrc
    exact .inr (.inl ⟨context.nonce, hmem, hn, by simp [issued_cons, requestContext_challenged hrc],
      by simp [admitted, step, heq, Outcome.isNext, hn], by simp [final, step, heq]⟩)
  · refine .inr (.inr ⟨by simp [issued_cons, hch], by simp [admitted, step, hnx, hst],
      by simp [final, step, hst], ?_⟩)
    rintro n hn hnonce ⟨context, signature, signer, hrc, hv⟩
    obtain rfl : context.nonce = n := Option.some.inj ((requestContext_nonce hrc).symm.trans hnonce)
    rcases hrej context signature hrc with h | h
    · exact h hn
    · simp [h] at hv

lemma final_mem_iff {s : NonceStore} {I A : List String} (hs : ∀ n, n ∈ s ↔ n ∈ I ∧ n ∉ A)
    (hA : ∀ n ∈ A, n ∈ I) {as : List Arrival} (hfresh : (I ++ issued as).Nodup) :
    (∀ n, n ∈ final cfg verifyTypedData s as ↔
      n ∈ I ++ issued as ∧ n ∉ A ++ admitted cfg verifyTypedData s as) ∧
      ∀ n ∈ A ++ admitted cfg verifyTypedData s as, n ∈ I ++ issued as := by
  induction as generalizing s I A with
  | nil => simpa [final, admitted, issued] using ⟨hs, hA⟩
  | cons a as ih =>
    rcases run_cons_cases s a as with ⟨-, hi, ha, hf⟩ | ⟨m, hm, -, hi, ha, hf⟩ | ⟨hi, ha, hf, -⟩ <;>
      rw [hi] at hfresh ⊢ <;> rw [ha, hf]
    · -- a challenge issues `a.uuid`
      have hnew : a.uuid ∉ I := fun h =>
        (List.nodup_append.1 hfresh).2.2 h (List.mem_cons_self _ _)
      have hnewA : a.uuid ∉ A := fun h => hnew (hA _ h)
      simpa using ih (s := insert a.uuid s) (I := I ++ [a.uuid]) (A := A)
        (fun n => by by_cases h : n = a.uuid <;> simp [hs, h, hnew, hnewA])
        (fun n h => List.mem_append_left _ (hA n h)) (by simpa using hfresh)
    · -- an admission consumes `m`
      simpa using ih (s := s.erase m) (I := I) (A := A ++ [m])
        (fun n => by by_cases h : n = m <;> simp [hs, h])
        (fun n h => by
          rcases List.mem_append.1 h with h | h
          · exact hA n h
          · exact List.mem_singleton.1 h ▸ ((hs _).1 hm).1) hfresh
    · -- a refusal changes nothing
      exact ih hs hA hfresh

lemma mem_final_iff {as : List Arrival} (hfresh : Fresh as) (n : String) :
    n ∈ final cfg verifyTypedData ∅ as ↔
      n ∈ issued as ∧ n ∉ admitted cfg verifyTypedData ∅ as := by
  simpa using (final_mem_iff (I := []) (A := []) (by simp) (by simp) hfresh).1 n

lemma mem_issued_of_mem_admitted {as : List Arrival} (hfresh : Fresh as) {n : String}
    (h : n ∈ admitted cfg verifyTypedData ∅ as) : n ∈ issued as := by
  simpa using (final_mem_iff (s := ∅) (I := []) (A := []) (by simp) (by simp) hfresh).2 n
    (by simpa using h)

lemma step_next_iff {s : NonceStore} {a : Arrival} {w : Option String} :
    (step cfg verifyTypedData s a).1 = .next w ↔
      ∃ context signature signer, requestContext cfg a.req = some (context, signature) ∧
        context.nonce ∈ s ∧ verifyTypedData (domain cfg) types context.message signature = some signer ∧
        w = some signer := by
  constructor
  · intro h
    simp only [step] at h
    rcases x402Middleware_cases cfg verifyTypedData a.req a.uuid a.now s with
      ⟨-, hnx, -⟩ | ⟨context, signature, signer, hrc, hmem, hv, heq⟩ | ⟨-, hnx, -⟩
    · simp [h, Outcome.isNext] at hnx
    · simp only [heq, Outcome.next.injEq] at h
      exact ⟨context, signature, signer, hrc, hmem, hv, h.symm⟩
    · simp [h, Outcome.isNext] at hnx
  · rintro ⟨context, signature, signer, hrc, hmem, hv, rfl⟩
    simp [step, x402Middleware_of_requestContext hrc, verifyPayment_of_some hmem hv]

lemma not_mem_admitted {s : NonceStore} {n : String} (hs : n ∉ s) {as : List Arrival}
    (hn : n ∉ issued as) : n ∉ admitted cfg verifyTypedData s as := by
  induction as generalizing s with
  | nil => simp [admitted]
  | cons a as ih =>
    rcases run_cons_cases s a as with ⟨-, hi, ha, -⟩ | ⟨m, hm, -, hi, ha, -⟩ | ⟨hi, ha, -, -⟩ <;>
      rw [hi] at hn <;> rw [ha]
    · rw [List.mem_cons, not_or] at hn
      exact ih (by simp [hs, hn.1]) hn.2
    · exact List.not_mem_cons_of_ne_of_not_mem (fun h => hs (h ▸ hm)) (ih (by simp [hs]) hn)
    · exact ih hs hn

lemma count_admitted_eq_one {s : NonceStore} {n : String} (hs : n ∈ s) {as : List Arrival}
    (hn : n ∉ issued as)
    (hb : ∃ b ∈ as, b.req.nonce = some n ∧ accepted cfg verifyTypedData b.req) :
    (admitted cfg verifyTypedData s as).count n = 1 := by
  induction as generalizing s with
  | nil => simp at hb
  | cons a as ih =>
    obtain ⟨b, hb, hbn, hbacc⟩ := hb
    -- unless `a` is admitted with `n`, the accepted request comes later
    have later (hba : b ≠ a) : ∃ b ∈ as, b.req.nonce = some n ∧ accepted cfg verifyTypedData b.req :=
      ⟨b, (List.mem_cons.1 hb).resolve_left hba, hbn, hbacc⟩
    rcases run_cons_cases s a as with
      ⟨hch, hi, ha, -⟩ | ⟨m, hm, ham, hi, ha, -⟩ | ⟨hi, ha, -, hrej⟩ <;> rw [hi] at hn <;> rw [ha]
    · rw [List.mem_cons, not_or] at hn
      refine ih (by simp [hs]) hn.2 (later ?_)
      rintro rfl
      obtain ⟨context, signature, -, hrc, -⟩ := hbacc
      simp [requestContext_challenged hrc] at hch
    · by_cases hc : m = n
      · subst hc
        rw [List.count_cons_self, List.count_eq_zero.2 (not_mem_admitted (by simp) hn)]
      · rw [List.count_cons_of_ne (Ne.symm hc)]
        refine ih (by simp [hs, Ne.symm hc]) hn (later ?_)
        rintro rfl
        exact hc (Option.some.inj (ham.symm.trans hbn))
    · refine ih hs hn (later ?_)
      rintro rfl
      exact hrej n hs hbn hbacc

lemma nodup_admitted {s : NonceStore} {as : List Arrival} (hs : ∀ n ∈ issued as, n ∉ s)
    (hfresh : (issued as).Nodup) : (admitted cfg verifyTypedData s as).Nodup := by
  induction as generalizing s with
  | nil => simp [admitted]
  | cons a as ih =>
    rcases run_cons_cases s a as with ⟨-, hi, ha, -⟩ | ⟨m, hm, -, hi, ha, -⟩ | ⟨hi, ha, -, -⟩ <;>
      rw [hi] at hs hfresh <;> rw [ha]
    · obtain ⟨hnew, hfresh'⟩ := List.nodup_cons.1 hfresh
      refine ih (fun n hn => ?_) hfresh'
      rw [Finset.mem_insert, not_or]
      exact ⟨fun h => hnew (h ▸ hn), hs n (List.mem_cons_of_mem _ hn)⟩
    · refine List.nodup_cons.2
        ⟨not_mem_admitted (by simp) fun h => hs m h hm, ih (fun n hn => ?_) hfresh⟩
      exact fun h => hs n hn (Finset.mem_of_mem_erase h)
    · exact ih hs hfresh

end

theorem nonce_single_use (cfg : Config) (verifyTypedData : VerifyTypedData) :
    (∀ pre a post w, Fresh pre →
      (serve cfg verifyTypedData ∅ (pre ++ a :: post))[pre.length]? = some (.next w) →
      ∃ n, a.req.nonce = some n ∧ n ∈ issued pre ∧ n ∉ admitted cfg verifyTypedData ∅ pre) ∧
    (∀ context signature nonceStore,
      (verifyPayment cfg verifyTypedData context signature nonceStore).1.isValid = false →
      (verifyPayment cfg verifyTypedData context signature nonceStore).2 = nonceStore) ∧
    (∀ pre a post, Fresh (pre ++ a :: post) → a.req.challenged = true →
      (∃ b ∈ post, b.req.nonce = some a.uuid ∧ accepted cfg verifyTypedData b.req) →
      (admitted cfg verifyTypedData ∅ (pre ++ a :: post)).count a.uuid = 1) := by
  refine ⟨?_, fun _ _ _ => verifyPayment_store_of_invalid, ?_⟩
  · intro pre a post w hfresh h
    rw [serve_getElem?_length, Option.some.injEq] at h
    obtain ⟨context, signature, signer, hrc, hmem, -⟩ := step_next_iff.1 h
    exact ⟨context.nonce, requestContext_nonce hrc, (mem_final_iff hfresh _).1 hmem⟩
  · intro pre a post hfresh hch hb
    have hnodup : (issued pre ++ a.uuid :: issued post).Nodup := by
      simpa [Fresh, issued_append, issued_cons, hch] using hfresh
    have hpre : a.uuid ∉ issued pre := fun h =>
      (List.nodup_append.1 hnodup).2.2 h (List.mem_cons_self _ _)
    have hpost : a.uuid ∉ issued post := (List.nodup_cons.1 (List.nodup_append.1 hnodup).2.1).1
    have hfresh_pre : Fresh pre := (List.nodup_append.1 hnodup).1
    rw [admitted_append, List.count_append,
      List.count_eq_zero.2 fun h => hpre (mem_issued_of_mem_admitted hfresh_pre h)]
    simp only [admitted, step, x402Middleware_of_challenged hch, Outcome.isNext,
      Bool.false_eq_true, if_false]
    rw [zero_add]
    exact count_admitted_eq_one (Finset.mem_insert_self _ _) hpost hb

theorem nonce_single_use_replayed :
    (admitted defaultConfig (fun _ _ _ signature => if signature = "0xsig" then some "0xPayer" else none) ∅
        [⟨⟨none, none, none⟩, "n1", 0⟩, ⟨⟨some "0xsig", some "n1", some "1"⟩, "n2", 1000⟩,
          ⟨⟨some "0xsig", some "n1", some "1"⟩, "n3", 2000⟩]).count "n1" = 1 :=
  (nonce_single_use defaultConfig _).2.2 [] ⟨⟨none, none, none⟩, "n1", 0⟩
    [⟨⟨some "0xsig", some "n1", some "1"⟩, "n2", 1000⟩, ⟨⟨some "0xsig", some "n1", some "1"⟩, "n3", 2000⟩]
    (by decide) rfl ⟨_, List.mem_cons_self _ _, rfl, ⟨"", "USDC", "0.001", 8453, "n1", 1⟩, "0xsig",
      "0xPayer", by decide, by decide⟩

/-- Whether a request is passed on depends on its headers, on its nonce having been issued
and not yet admitted, and on the signature; never on `Date.now()`, the timestamp's age or the
nonce's. -/
theorem serve_next_iff (cfg : Config) (verifyTypedData : VerifyTypedData) (pre : List Arrival)
    (a : Arrival) (post : List Arrival) (w : Option String) (hfresh : Fresh pre) :
    (serve cfg verifyTypedData ∅ (pre ++ a :: post))[pre.length]? = some (.next w) ↔
      ∃ context signature signer, requestContext cfg a.req = some (context, signature) ∧
        context.nonce ∈ issued pre ∧ context.nonce ∉ admitted cfg verifyTypedData ∅ pre ∧
        verifyTypedData (domain cfg) types context.message signature = some signer ∧
        w = some signer := by
  simp only [serve_getElem?_length, Option.some.injEq, step_next_iff, mem_final_iff hfresh,
    and_assoc]

theorem serve_next_iff_late :
    Fresh [⟨⟨none, none, none⟩, "n1", 0⟩] ∧
      ((serve defaultConfig (fun _ _ _ signature => if signature = "0xsig" then some "0xPayer" else none) ∅
        ([⟨⟨none, none, none⟩, "n1", 0⟩] ++ [⟨⟨some "0xsig", some "n1", some "1"⟩, "n2", 1000000⟩]))[1]? =
          some (.next (some "0xPayer")) ↔
        ∃ context signature signer,
          requestContext defaultConfig ⟨some "0xsig", some "n1", some "1"⟩ = some (context, signature) ∧
          context.nonce ∈ issued [⟨⟨none, none, none⟩, "n1", 0⟩] ∧
          context.nonce ∉ admitted defaultConfig
            (fun _ _ _ signature => if signature = "0xsig" then some "0xPayer" else none) ∅
            [⟨⟨none, none, none⟩, "n1", 0⟩] ∧
          (if signature = "0xsig" then some "0xPayer" else none) = some signer ∧
          some "0xPayer" = some signer) :=
  ⟨by decide, serve_next_iff defaultConfig _ [⟨⟨none, none, none⟩, "n1", 0⟩] _ [] _ (by decide)⟩

set_option maxRecDepth 20000 in
/-- With `RECIPIENT_ADDRESS` set, a 402 at 1700000000 s issues a nonce; the payer's key signs the
context (the signature below recovers to the payer under the real `ethers.verifyTypedData`) and
presents it 1000 s later: it is admitted, although for a 300 s expiry window and 60 s of skew grace
both the timestamp and the nonce are 640 s past their lifetime. -/
theorem stale_payment_admitted :
    (serve ⟨8453, "USDC", "0.001", "0x70997970C51812dc3A010C7d01b50e0d17dc79C8"⟩
        (fun _ _ message signature =>
          if signature =
              "0x92c7dc716b3da5301b30d3fc56ae80ad3d0dad33cf3a3226d2a4f088a8c55e00147c29048c7039a00032546a13314dc6521dad29ee82a61b19e904909e14a3dd1b" ∧
            message.nonce = "3b241101-e2bb-4255-8caf-4136c566a962" ∧ message.timestamp = 1700000000
          then some "0xf39Fd6e51aad88F6F4ce6aB8827279cffFb92266" else none) ∅
        [⟨⟨none, none, none⟩, "3b241101-e2bb-4255-8caf-4136c566a962", 1700000000000⟩,
          ⟨⟨some
              "0x92c7dc716b3da5301b30d3fc56ae80ad3d0dad33cf3a3226d2a4f088a8c55e00147c29048c7039a00032546a13314dc6521dad29ee82a61b19e904909e14a3dd1b",
            some "3b241101-e2bb-4255-8caf-4136c566a962", some "1700000000"⟩,
            "9b2e4c1a-7d35-4f60-a8c2-5e1f0b3d6a47", 1700001000000⟩])[1]? =
      some (.next (some "0xf39Fd6e51aad88F6F4ce6aB8827279cffFb92266")) ∧
    (1700000000 : Int) + 300 + 60 < 1700001000000 / 1000 ∧
      300 + 60 < (1700001000000 / 1000 - 1700000000000 / 1000 : Int) := by
  decide

theorem signed_challenge_admitted (cfg : Config) (verifyTypedData : VerifyTypedData)
    (pre : List Arrival) (c : Arrival) (mid : List Arrival) (r : Arrival) (post : List Arrival)
    (P : PaymentContext) (signature signer : String) (hfresh : Fresh (pre ++ c :: mid))
    (hP : (serve cfg verifyTypedData ∅ (pre ++ c :: mid ++ r :: post))[pre.length]? =
      some (.respond (paymentRequired P)))
    (hreq : r.req = ⟨some signature, some P.nonce, some (toString P.timestamp)⟩)
    (hs : signature ≠ "") (hn : P.nonce ≠ "") (ht : 0 < P.timestamp ∧ P.timestamp.natAbs < 2 ^ 53)
    (hv : verifyTypedData (domain cfg) types P.message signature = some signer)
    (hmid : P.nonce ∉ admitted cfg verifyTypedData (final cfg verifyTypedData ∅ (pre ++ [c])) mid) :
    (serve cfg verifyTypedData ∅ (pre ++ c :: mid ++ r :: post))[(pre ++ c :: mid).length]? =
      some (.next (some signer)) := by
  rw [List.append_assoc, List.cons_append, serve_getElem?_length, Option.some.injEq,
    step, x402Middleware_eq_paymentRequired] at hP
  obtain ⟨hch, rfl⟩ := hP
  have hnodup : (issued pre ++ c.uuid :: issued mid).Nodup := by
    simpa [Fresh, issued_append, issued_cons, hch] using hfresh
  have hpre : c.uuid ∉ admitted cfg verifyTypedData ∅ pre := fun h =>
    (List.nodup_append.1 hnodup).2.2 (mem_issued_of_mem_admitted (List.nodup_append.1 hnodup).1 h)
      (List.mem_cons_self _ _)
  have hmem : c.uuid ∈ final cfg verifyTypedData ∅ (pre ++ c :: mid) := by
    rw [mem_final_iff hfresh, admitted_append]
    simp only [final_append, final, admitted, step, x402Middleware_of_challenged hch,
      Outcome.isNext, Bool.false_eq_true, if_false] at hmid ⊢
    simp [issued_append, issued_cons, hch, hpre, hmid]
  rw [serve_getElem?_length, Option.some.injEq, step_next_iff]
  exact ⟨_, signature, signer, hreq ▸ requestContext_of_headers hs hn ht, hmem, hv, rfl⟩

theorem signed_challenge_admitted_five_seconds_later :
    (serve defaultConfig
        (fun _ _ message signature =>
          if signature = "0xsig" ∧ message.nonce = "n1" then some "0xPayer" else none) ∅
        ([] ++ ⟨⟨none, none, none⟩, "n1", 1700000000000⟩ :: [] ++
          ⟨⟨some "0xsig", some "n1", some "1700000000"⟩, "n2", 1700000005000⟩ :: []))[1]? =
      some (.next (some "0xPayer")) :=
  signed_challenge_admitted defaultConfig _ [] ⟨⟨none, none, none⟩, "n1", 1700000000000⟩ []
    ⟨⟨some "0xsig", some "n1", some "1700000000"⟩, "n2", 1700000005000⟩ []
    ⟨"", "USDC", "0.001", 8453, "n1", 1700000000⟩ "0xsig" "0xPayer" (by decide) (by decide)
    (by decide) (by decide) (by decide) (by decide) (by decide) (by decide)

theorem card_final_add_admitted (cfg : Config) (verifyTypedData : VerifyTypedData)
    {as : List Arrival} (hfresh : Fresh as) :
    (final cfg verifyTypedData ∅ as).card + (admitted cfg verifyTypedData ∅ as).length =
      (issued as).length := by
  have hfin : final cfg verifyTypedData ∅ as =
      (issued as).toFinset \ (admitted cfg verifyTypedData ∅ as).toFinset := by
    ext n
    simp [mem_final_iff hfresh]
  have hsub : (admitted cfg verifyTypedData ∅ as).toFinset ⊆ (issued as).toFinset := fun n hn => by
    simpa using mem_issued_of_mem_admitted hfresh (by simpa using hn)
  have hle := Finset.card_le_card hsub
  rw [List.toFinset_card_of_nodup hfresh,
    List.toFinset_card_of_nodup (nodup_admitted (by simp) hfresh)] at hle
  rw [hfin, Finset.card_sdiff hsub, List.toFinset_card_of_nodup hfresh,
    List.toFinset_card_of_nodup (nodup_admitted (by simp) hfresh)]
  omega

theorem card_final_add_admitted_one_unpaid :
    Fresh [⟨⟨none, none, none⟩, "n1", 0⟩, ⟨⟨none, none, none⟩, "n2", 0⟩,
      ⟨⟨some "0xsig", some "n1", some "1"⟩, "n3", 1000⟩] ∧
    (final defaultConfig
        (fun _ _ _ signature => if signature = "0xsig" then some "0xPayer" else none)
        ∅ [⟨⟨none, none, none⟩, "n1", 0⟩, ⟨⟨none, none, none⟩, "n2", 0⟩,
          ⟨⟨some "0xsig", some "n1", some "1"⟩, "n3", 1000⟩]).card +
      (admitted defaultConfig
        (fun _ _ _ signature => if signature = "0xsig" then some "0xPayer" else none)
        ∅ [⟨⟨none, none, none⟩, "n1", 0⟩, ⟨⟨none, none, none⟩, "n2", 0⟩,
          ⟨⟨some "0xsig", some "n1", some "1"⟩, "n3", 1000⟩]).length =
      (issued [⟨⟨none, none, none⟩, "n1", 0⟩, ⟨⟨none, none, none⟩, "n2", 0⟩,
        ⟨⟨some "0xsig", some "n1", some "1"⟩, "n3", 1000⟩]).length :=
  ⟨by decide, card_final_add_admitted defaultConfig _ (by decide)⟩

end Paygate.Payment
