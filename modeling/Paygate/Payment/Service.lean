import Mathlib.Data.Finset.Basic

/-! `PaymentService` of the TypeScript server: `nonceStore`, challenges and the EIP-712 check. -/

namespace Paygate.Payment

/-- The fields of `CONFIG` the payment path reads. -/
structure Config where
  chainId : Int
  tokenSymbol : String
  defaultPrice : String
  recipientAddress : String

/-- `CONFIG` with no environment variable set. -/
def defaultConfig : Config := ⟨8453, "USDC", "0.001", ""⟩

structure PaymentContext where
  recipient : String
  token : String
  amount : String
  chainId : Int
  nonce : String
  timestamp : Int
  deriving DecidableEq

structure Domain where
  name : String
  version : String
  chainId : Int
  verifyingContract : String

/-- The `Payment` message that `verifyPayment` rebuilds from a context. -/
structure PaymentMessage where
  recipient : String
  token : String
  amount : String
  nonce : String
  timestamp : Int

/-- `ethers.verifyTypedData(domain, types, value, signature)`: the recovered signer, or
`none` where it throws. -/
abbrev VerifyTypedData := Domain → List (String × String) → PaymentMessage → String → Option String

abbrev NonceStore := Finset String

/-- `ethers.ZeroAddress`. -/
def zeroAddress : String := "0x0000000000000000000000000000000000000000"

def domain (cfg : Config) : Domain := ⟨"MicroAI Paygate", "1", cfg.chainId, zeroAddress⟩

def types : List (String × String) :=
  [("recipient", "address"), ("token", "string"), ("amount", "string"), ("nonce", "string"),
    ("timestamp", "uint256")]

/-- `createPaymentContext(price)`, with `uuidv4()` returning `uuid` and `Date.now()` returning
`now` milliseconds. -/
def createPaymentContext (cfg : Config) (price uuid : String) (now : Int)
    (nonceStore : NonceStore) : PaymentContext × NonceStore :=
  (⟨cfg.recipientAddress, cfg.tokenSymbol, price, cfg.chainId, uuid, now / 1000⟩,
    insert uuid nonceStore)

/-- The object `verifyPayment` resolves to. -/
structure Verification where
  isValid : Bool
  error : Option String
  signer : Option String

def verifyPayment (cfg : Config) (verifyTypedData : VerifyTypedData) (context : PaymentContext)
    (signature : String) (nonceStore : NonceStore) : Verification × NonceStore :=
  if context.nonce ∉ nonceStore then (⟨false, some "Invalid or expired nonce", none⟩, nonceStore)
  else
    let value : PaymentMessage :=
      ⟨context.recipient, context.token, context.amount, context.nonce, context.timestamp⟩
    match verifyTypedData (domain cfg) types value signature with
    | none => (⟨false, some "Signature verification failed", none⟩, nonceStore)
    | some signerAddress => (⟨true, none, some signerAddress⟩, nonceStore.erase context.nonce)

section

variable {cfg : Config} {verifyTypedData : VerifyTypedData} {context : PaymentContext}
  {signature : String} {nonceStore : NonceStore}

/-- A context's `Payment` message, `value` in `verifyPayment`. -/
def PaymentContext.message (context : PaymentContext) : PaymentMessage :=
  ⟨context.recipient, context.token, context.amount, context.nonce, context.timestamp⟩

lemma verifyPayment_of_not_mem (h : context.nonce ∉ nonceStore) :
    verifyPayment cfg verifyTypedData context signature nonceStore =
      (⟨false, some "Invalid or expired nonce", none⟩, nonceStore) := by
  simp [verifyPayment, h]

lemma verifyPayment_of_none (h : context.nonce ∈ nonceStore)
    (hv : verifyTypedData (domain cfg) types context.message signature = none) :
    verifyPayment cfg verifyTypedData context signature nonceStore =
      (⟨false, some "Signature verification failed", none⟩, nonceStore) := by
  simp only [PaymentContext.message] at hv
  simp [verifyPayment, h, hv]

lemma verifyPayment_of_some (h : context.nonce ∈ nonceStore) {signer : String}
    (hv : verifyTypedData (domain cfg) types context.message signature = some signer) :
    verifyPayment cfg verifyTypedData context signature nonceStore =
      (⟨true, none, some signer⟩, nonceStore.erase context.nonce) := by
  simp only [PaymentContext.message] at hv
  simp [verifyPayment, h, hv]

lemma verifyPayment_store_of_invalid
    (h : (verifyPayment cfg verifyTypedData context signature nonceStore).1.isValid = false) :
    (verifyPayment cfg verifyTypedData context signature nonceStore).2 = nonceStore := by
  by_cases hn : context.nonce ∈ nonceStore
  · cases hv : verifyTypedData (domain cfg) types context.message signature with
    | none => rw [verifyPayment_of_none hn hv]
    | some w => simp [verifyPayment_of_some hn hv] at h
  · rw [verifyPayment_of_not_mem hn]

end

end Paygate.Payment
