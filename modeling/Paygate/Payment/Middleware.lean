import Mathlib.Data.Nat.Digits
import Mathlib.Data.String.Basic
import Paygate.Payment.Service

/-! `x402Middleware` of the TypeScript server, and the `parseInt` it reads timestamps with. -/

namespace Paygate.Payment

structure Request where
  signature : Option String
  nonce : Option String
  timestamp : Option String
  deriving DecidableEq

def truthy : Option String → Bool
  | some s => !s.isEmpty
  | none => false

/-- The code points of the `StrWhiteSpaceChar`s that `parseInt` skips. -/
def jsWhitespace : List Nat :=
  [9, 10, 11, 12, 13, 32, 160, 5760, 8192, 8193, 8194, 8195, 8196, 8197, 8198, 8199, 8200, 8201,
    8202, 8232, 8233, 8239, 8287, 12288, 65279]

def digitsValue (ds : List Char) : Nat :=
  ds.foldl (fun n d => 10 * n + (d.toNat - '0'.toNat)) 0

/-- The magnitude of the double nearest to `v`, ties to even, or `none` where it rounds past
`Number.MAX_VALUE`. -/
def toDouble (v : Nat) : Option Nat :=
  if v < 2 ^ 53 then some v
  else
    let e := Nat.log2 v - 52
    let q := v / 2 ^ e
    let r := v % 2 ^ e
    let q := if 2 * r > 2 ^ e ∨ (2 * r = 2 ^ e ∧ q % 2 = 1) then q + 1 else q
    if q * 2 ^ e < 2 ^ 1024 then some (q * 2 ^ e) else none

/-- The sign `parseInt` reads after the leading white space. -/
def readSign : List Char → Bool × List Char
  | '-' :: rest => (true, rest)
  | '+' :: rest => (false, rest)
  | rest => (false, rest)

/-- `parseInt(s, 10)` where it is an integer; `none` where it is `NaN` or `±Infinity`, the
values `Number.isInteger` rejects. -/
def parseInt (s : String) : Option Int :=
  let (negative, rest) := readSign (s.toList.dropWhile fun c => jsWhitespace.contains c.toNat)
  let digits := rest.takeWhile Char.isDigit
  if digits.isEmpty then none
  else (toDouble (digitsValue digits)).map fun (m : Nat) => if negative then -(m : Int) else m

lemma toDouble_of_lt {v : Nat} (h : v < 2 ^ 53) : toDouble v = some v := if_pos h

@[simp] lemma digitsValue_append_singleton (l : List Char) (d : Char) :
    digitsValue (l ++ [d]) = 10 * digitsValue l + (d.toNat - '0'.toNat) := by
  simp [digitsValue]

lemma digitChar_spec :
    ∀ m < 10, (Nat.digitChar m).isDigit = true ∧ (Nat.digitChar m).toNat - '0'.toNat = m := by
  decide

lemma not_whitespace_of_isDigit {c : Char} (h : c.isDigit = true) :
    jsWhitespace.contains c.toNat = false := by
  have key : ∀ n < 58, 48 ≤ n → jsWhitespace.contains n = false := by decide
  simp only [Char.isDigit, Bool.and_eq_true, decide_eq_true_eq] at h
  exact key _ (Nat.lt_succ_of_le h.2) h.1

lemma readSign_of_isDigit {c : Char} (h : c.isDigit = true) (l : List Char) :
    readSign (c :: l) = (false, c :: l) := by
  rw [readSign.eq_3] <;> rintro _ ⟨⟩ <;> simp at h

lemma takeWhile_isDigit {l rest : List Char} (hdig : ∀ c ∈ l, c.isDigit = true)
    (hrest : ∀ c ∈ rest.head?, c.isDigit = false) : (l ++ rest).takeWhile Char.isDigit = l := by
  rw [List.takeWhile_append_of_pos hdig]
  cases rest with
  | nil => simp
  | cons c rest => simp [List.takeWhile_cons_of_neg, hrest c rfl]

lemma toDigitsCore_eq {fuel n : Nat} (h : n < fuel) (ds : List Char) :
    ∃ l, Nat.toDigitsCore 10 fuel n ds = l ++ ds ∧ l ≠ [] ∧ (∀ c ∈ l, c.isDigit = true) ∧
      digitsValue l = n := by
  induction fuel generalizing n ds with
  | zero => omega
  | succ fuel ih =>
    obtain ⟨hd, hv⟩ := digitChar_spec (n % 10) (Nat.mod_lt _ (by decide))
    rw [Nat.toDigitsCore]
    split_ifs with h0
    · refine ⟨[Nat.digitChar (n % 10)], rfl, List.cons_ne_nil _ _, by simpa using hd, ?_⟩
      simp only [digitsValue, List.foldl_cons, List.foldl_nil, Nat.mul_zero, Nat.zero_add, hv]
      omega
    · obtain ⟨l, hl, -, hdig, hval⟩ := ih (n := n / 10) (by omega) (Nat.digitChar (n % 10) :: ds)
      refine ⟨l ++ [Nat.digitChar (n % 10)], by simp [hl], by simp, ?_, ?_⟩
      · simpa [or_imp, forall_and, hd] using hdig
      · rw [digitsValue_append_singleton, hval, hv]
        omega

lemma toDigits_spec (n : Nat) : Nat.toDigits 10 n ≠ [] ∧
    (∀ c ∈ Nat.toDigits 10 n, c.isDigit = true) ∧ digitsValue (Nat.toDigits 10 n) = n := by
  obtain ⟨l, hl, h⟩ := toDigitsCore_eq (Nat.lt_succ_self n) []
  rw [Nat.toDigits, hl, List.append_nil]
  exact h

lemma parseInt_mk (negative : Bool) {l rest : List Char} (hne : l ≠ [])
    (hdig : ∀ c ∈ l, c.isDigit = true) (hrest : ∀ c ∈ rest.head?, c.isDigit = false)
    (hv : digitsValue l < 2 ^ 53) :
    parseInt ⟨(if negative then ['-'] else []) ++ l ++ rest⟩ =
      some (if negative then -(digitsValue l : Int) else digitsValue l) := by
  obtain ⟨c, l', rfl⟩ := List.exists_cons_of_ne_nil hne
  have hc : c.isDigit = true := hdig c (List.mem_cons_self _ _)
  have hdrop : (c :: (l' ++ rest)).dropWhile (fun c => jsWhitespace.contains c.toNat) =
      c :: (l' ++ rest) :=
    List.dropWhile_cons_of_neg (by simp only [not_whitespace_of_isDigit hc]; decide)
  have htake := takeWhile_isDigit hdig hrest
  rw [List.cons_append] at htake
  have hne' : (c :: l').isEmpty = false := rfl
  cases negative
  · simp only [parseInt, String.toList, Bool.false_eq_true, if_false, List.nil_append,
      List.cons_append, hdrop, readSign_of_isDigit hc, htake, hne', toDouble_of_lt hv,
      Option.map_some']
  · simp only [parseInt, String.toList, if_true, List.cons_append, List.singleton_append]
    rw [List.dropWhile_cons_of_neg (by decide)]
    simp only [readSign, List.nil_append, List.cons_append, htake, hne', toDouble_of_lt hv,
      Option.map_some', if_true, Bool.false_eq_true, if_false]

lemma parseInt_toString_append (t : Int) (ht : t.natAbs < 2 ^ 53) (rest : String)
    (hrest : ∀ c ∈ rest.toList.head?, c.isDigit = false) :
    parseInt (toString t ++ rest) = some t := by
  obtain ⟨hne, hdig, hval⟩ := toDigits_spec t.natAbs
  cases t with
  | ofNat m =>
    have h := parseInt_mk false hne hdig hrest (by rw [hval]; exact ht)
    rw [hval] at h
    exact h
  | negSucc m =>
    have h := parseInt_mk true hne hdig hrest (by rw [hval]; exact ht)
    rw [hval] at h
    exact h

example : parseInt "1e9" = some 1 := by decide

inductive Field
  | text (s : String)
  | context (c : PaymentContext)
  deriving DecidableEq

structure Reply where
  status : Nat
  body : List (String × Field)
  deriving DecidableEq

inductive Outcome
  | respond (reply : Reply)
  | next (userWallet : Option String)
  deriving DecidableEq

def Outcome.isNext : Outcome → Bool
  | .next _ => true
  | .respond _ => false

def paymentRequired (paymentContext : PaymentContext) : Reply :=
  ⟨402, [("error", .text "Payment Required"),
    ("message", .text "Please sign the payment context and retry with X-402-Signature and X-402-Nonce headers."),
    ("paymentContext", .context paymentContext)]⟩

def invalidTimestamp (details : String) : Reply :=
  ⟨400, [("error", .text "Invalid timestamp"), ("details", .text details)]⟩

/-- The 403 reply; JSON leaves out a `details` that is `undefined`. -/
def verificationFailed (error : Option String) : Reply :=
  ⟨403, ("error", .text "Payment Verification Failed") ::
    (error.map fun e => ("details", Field.text e)).toList⟩

def x402Middleware (cfg : Config) (verifyTypedData : VerifyTypedData) (req : Request)
    (uuid : String) (now : Int) (nonceStore : NonceStore) : Outcome × NonceStore :=
  if !truthy req.signature || !truthy req.nonce then
    let (paymentContext, nonceStore) :=
      createPaymentContext cfg cfg.defaultPrice uuid now nonceStore
    (.respond (paymentRequired paymentContext), nonceStore)
  else if !truthy req.timestamp then
    (.respond (invalidTimestamp "Missing X-402-Timestamp header"), nonceStore)
  else
    match parseInt (req.timestamp.getD "") with
    | none => (.respond (invalidTimestamp "Invalid X-402-Timestamp header"), nonceStore)
    | some parsedTimestamp =>
      if parsedTimestamp ≤ 0 then
        (.respond (invalidTimestamp "Invalid X-402-Timestamp header"), nonceStore)
      else
        let context : PaymentContext := ⟨cfg.recipientAddress, cfg.tokenSymbol, cfg.defaultPrice,
          cfg.chainId, req.nonce.getD "", parsedTimestamp⟩
        let (verification, nonceStore) :=
          verifyPayment cfg verifyTypedData context (req.signature.getD "") nonceStore
        if !verification.isValid then
          (.respond (verificationFailed verification.error), nonceStore)
        else (.next verification.signer, nonceStore)

def Request.challenged (req : Request) : Bool := !truthy req.signature || !truthy req.nonce

/-- The context and signature `x402Middleware` verifies, once the headers pass its checks. -/
def requestContext (cfg : Config) (req : Request) : Option (PaymentContext × String) :=
  if !req.challenged && truthy req.timestamp then
    match parseInt (req.timestamp.getD "") with
    | some t => if 0 < t then some (⟨cfg.recipientAddress, cfg.tokenSymbol, cfg.defaultPrice,
        cfg.chainId, req.nonce.getD "", t⟩, req.signature.getD "") else none
    | none => none
  else none

section

variable {cfg : Config} {verifyTypedData : VerifyTypedData} {req : Request} {uuid : String}
  {now : Int} {nonceStore : NonceStore} {context : PaymentContext} {signature : String}

lemma eq_some_of_truthy {o : Option String} (h : truthy o = true) : o = some (o.getD "") := by
  cases o <;> simp_all [truthy]

lemma requestContext_eq_some (h : requestContext cfg req = some (context, signature)) :
    truthy req.signature = true ∧ truthy req.nonce = true ∧ truthy req.timestamp = true ∧
      ∃ t, parseInt (req.timestamp.getD "") = some t ∧ 0 < t ∧
        context = ⟨cfg.recipientAddress, cfg.tokenSymbol, cfg.defaultPrice, cfg.chainId,
          req.nonce.getD "", t⟩ ∧ signature = req.signature.getD "" := by
  unfold requestContext at h
  split_ifs at h with hc
  simp only [Request.challenged, Bool.and_eq_true, Bool.not_eq_true', Bool.or_eq_false_iff,
    Bool.not_eq_false'] at hc
  split at h
  · split_ifs at h with ht0
    simp only [Option.some.injEq, Prod.mk.injEq] at h
    obtain ⟨rfl, rfl⟩ := h
    exact ⟨hc.1.1, hc.1.2, hc.2, _, ‹_›, ht0, rfl, rfl⟩
  · cases h

lemma requestContext_nonce (h : requestContext cfg req = some (context, signature)) :
    req.nonce = some context.nonce := by
  obtain ⟨-, hn, -, t, -, -, rfl, -⟩ := requestContext_eq_some h
  exact eq_some_of_truthy hn

lemma requestContext_challenged (h : requestContext cfg req = some (context, signature)) :
    req.challenged = false := by
  obtain ⟨hs, hn, -⟩ := requestContext_eq_some h
  simp [Request.challenged, hs, hn]

lemma x402Middleware_of_challenged (h : req.challenged = true) :
    x402Middleware cfg verifyTypedData req uuid now nonceStore =
      (.respond (paymentRequired ⟨cfg.recipientAddress, cfg.tokenSymbol, cfg.defaultPrice,
        cfg.chainId, uuid, now / 1000⟩), insert uuid nonceStore) := by
  simp only [Request.challenged] at h
  simp [x402Middleware, h, createPaymentContext]

lemma x402Middleware_of_requestContext (h : requestContext cfg req = some (context, signature)) :
    x402Middleware cfg verifyTypedData req uuid now nonceStore =
      let (verification, nonceStore) :=
        verifyPayment cfg verifyTypedData context signature nonceStore
      if !verification.isValid then (.respond (verificationFailed verification.error), nonceStore)
      else (.next verification.signer, nonceStore) := by
  obtain ⟨hs, hn, hts, t, hparse, hpos, rfl, rfl⟩ := requestContext_eq_some h
  simp [x402Middleware, hs, hn, hts, hparse, not_le.2 hpos]

lemma x402Middleware_of_requestContext_none (hc : req.challenged = false)
    (h : requestContext cfg req = none) :
    x402Middleware cfg verifyTypedData req uuid now nonceStore =
      (.respond (invalidTimestamp (if truthy req.timestamp then "Invalid X-402-Timestamp header"
        else "Missing X-402-Timestamp header")), nonceStore) := by
  unfold requestContext at h
  simp only [Request.challenged] at hc h
  cases hts : truthy req.timestamp
  · simp [x402Middleware, hc, hts]
  · cases hp : parseInt (req.timestamp.getD "") with
    | none => simp [x402Middleware, hc, hts, hp]
    | some t =>
      simp only [hc, hts, hp, Bool.not_false, Bool.and_self, if_true, ite_eq_right_iff,
        reduceCtorEq, imp_false, not_lt] at h
      simp [x402Middleware, hc, hts, hp, h]

lemma requestContext_of_headers {nonce : String} {t : Int} (hs : signature ≠ "") (hn : nonce ≠ "")
    (ht : 0 < t ∧ t.natAbs < 2 ^ 53) :
    requestContext cfg ⟨some signature, some nonce, some (toString t)⟩ =
      some (⟨cfg.recipientAddress, cfg.tokenSymbol, cfg.defaultPrice, cfg.chainId, nonce, t⟩,
        signature) := by
  have hparse : parseInt (toString t) = some t := by
    simpa using parseInt_toString_append t ht.2 "" (by simp)
  have hne : toString t ≠ "" := fun h => by
    rw [h, show parseInt "" = none by decide] at hparse
    cases hparse
  simp [requestContext, Request.challenged, truthy, String.isEmpty_iff, hs, hn, hne, hparse, ht.1]

lemma x402Middleware_eq_paymentRequired {P : PaymentContext} :
    (x402Middleware cfg verifyTypedData req uuid now nonceStore).1 = .respond (paymentRequired P) ↔
      req.challenged = true ∧ P = ⟨cfg.recipientAddress, cfg.tokenSymbol, cfg.defaultPrice,
        cfg.chainId, uuid, now / 1000⟩ := by
  constructor
  · intro h
    cases hch : req.challenged
    · exfalso
      cases hrc : requestContext cfg req with
      | none =>
        rw [x402Middleware_of_requestContext_none hch hrc] at h
        simp [paymentRequired, invalidTimestamp] at h
      | some p =>
        rw [x402Middleware_of_requestContext hrc] at h
        generalize verifyPayment cfg verifyTypedData p.1 p.2 nonceStore = r at h
        obtain ⟨⟨_ | _, _, _⟩, _⟩ := r <;> simp [paymentRequired, verificationFailed] at h
    · rw [x402Middleware_of_challenged hch] at h
      simp only [Outcome.respond.injEq, paymentRequired, Reply.mk.injEq, List.cons.injEq,
        Prod.mk.injEq, Field.context.injEq, true_and, and_true] at h
      exact ⟨rfl, h.symm⟩
  · rintro ⟨hch, rfl⟩
    rw [x402Middleware_of_challenged hch]

lemma x402Middleware_cases (cfg : Config) (verifyTypedData : VerifyTypedData) (req : Request)
    (uuid : String) (now : Int) (nonceStore : NonceStore) :
    (req.challenged = true ∧
        (x402Middleware cfg verifyTypedData req uuid now nonceStore).1.isNext = false ∧
        (x402Middleware cfg verifyTypedData req uuid now nonceStore).2 = insert uuid nonceStore) ∨
      (∃ context signature signer, requestContext cfg req = some (context, signature) ∧
        context.nonce ∈ nonceStore ∧
        verifyTypedData (domain cfg) types context.message signature = some signer ∧
        x402Middleware cfg verifyTypedData req uuid now nonceStore =
          (.next (some signer), nonceStore.erase context.nonce)) ∨
      (req.challenged = false ∧
        (x402Middleware cfg verifyTypedData req uuid now nonceStore).1.isNext = false ∧
        (x402Middleware cfg verifyTypedData req uuid now nonceStore).2 = nonceStore ∧
        ∀ context signature, requestContext cfg req = some (context, signature) →
          context.nonce ∉ nonceStore ∨
            verifyTypedData (domain cfg) types context.message signature = none) := by
  cases hch : req.challenged
  case true =>
    rw [x402Middleware_of_challenged hch]
    exact .inl ⟨rfl, rfl, rfl⟩
  case false =>
  cases hrc : requestContext cfg req with
  | none =>
    rw [x402Middleware_of_requestContext_none hch hrc]
    exact .inr (.inr ⟨rfl, rfl, rfl, by simp⟩)
  | some p =>
    obtain ⟨context, signature⟩ := p
    rw [x402Middleware_of_requestContext hrc]
    by_cases hmem : context.nonce ∈ nonceStore
    · cases hv : verifyTypedData (domain cfg) types context.message signature with
      | none =>
        rw [verifyPayment_of_none hmem hv]
        exact .inr (.inr ⟨rfl, rfl, rfl, by simp [hv]⟩)
      | some signer =>
        rw [verifyPayment_of_some hmem hv]
        exact .inr (.inl ⟨context, signature, signer, rfl, hmem, hv, rfl⟩)
    · rw [verifyPayment_of_not_mem hmem]
      exact .inr (.inr ⟨rfl, rfl, rfl, by simp [hmem]⟩)

end

end Paygate.Payment
