import Mathlib.Data.List.Basic

/-! `handleSummarize` of the Go gateway, which keeps nothing between requests. -/

namespace Paygate.Gateway

structure PaymentContext where
  recipient : String
  token : String
  amount : String
  nonce : String
  chainId : Int
  deriving DecidableEq

structure VerifyRequest where
  context : PaymentContext
  signature : String

structure VerifyResponse where
  isValid : Bool
  recoveredAddress : String
  error : String

structure SummarizeRequest where
  text : String

/-- What `handleSummarize` reads of a request: `c.GetHeader` gives `""` for a missing header,
and `c.BindJSON` fails (`none`) on a body that is not a `SummarizeRequest`. -/
structure Request where
  signature : String
  nonce : String
  body : Option SummarizeRequest

/-- `os.Getenv`. -/
abbrev Env := String → String

/-- `http.Post(url, "application/json", body)` to the verifier with the response decoded:
`none` where the post fails. A body that does not decode leaves the zero `VerifyResponse`. -/
abbrev Verifier := String → VerifyRequest → Option VerifyResponse

/-- The chat-completions endpoint, given the API key, the model and the prompt: the transport
error, or the `message.content` of each of its `choices`. -/
abbrev Provider := String → String → String → Except String (List String)

inductive Field
  | text (s : String)
  | context (c : PaymentContext)
  deriving DecidableEq

/-- A `c.JSON(status, gin.H{...})` reply. -/
structure Reply where
  status : Nat
  body : List (String × Field)
  deriving DecidableEq

def getRecipientAddress (env : Env) : String :=
  if env "RECIPIENT_ADDRESS" = "" then "0x2cAF48b4BA1C58721a85dFADa5aC01C2DFa62219"
  else env "RECIPIENT_ADDRESS"

/-- `createPaymentContext()`, with `uuid.New().String()` returning `uuid`. -/
def createPaymentContext (env : Env) (uuid : String) : PaymentContext :=
  ⟨getRecipientAddress env, "USDC", "0.001", uuid, 8453⟩

def callOpenRouter (env : Env) (provider : Provider) (text : String) : Except String String :=
  let model := if env "OPENROUTER_MODEL" = "" then "z-ai/glm-4.5-air:free" else env "OPENROUTER_MODEL"
  match provider (env "OPENROUTER_API_KEY") model ("Summarize this text in 2 sentences: " ++ text) with
  | .error e => .error e
  | .ok (content :: _) => .ok content
  | .ok [] => .error "invalid response from AI provider"

/-- `verifierURL` in `handleSummarize`: `VERIFIER_URL`, or the local verifier. -/
def verifierURL (env : Env) : String :=
  if env "VERIFIER_URL" = "" then "http://127.0.0.1:3002" else env "VERIFIER_URL"

def handleSummarize (env : Env) (verifier : Verifier) (provider : Provider) (req : Request)
    (uuid : String) : Reply :=
  if req.signature = "" ∨ req.nonce = "" then
    ⟨402, [("error", .text "Payment Required"), ("message", .text "Please sign the payment context"),
      ("paymentContext", .context (createPaymentContext env uuid))]⟩
  else
    let context : PaymentContext := ⟨getRecipientAddress env, "USDC", "0.001", req.nonce, 8453⟩
    match verifier (verifierURL env ++ "/verify") ⟨context, req.signature⟩ with
    | none => ⟨500, [("error", .text "Verification service unavailable")]⟩
    | some verifyResp =>
      if !verifyResp.isValid then
        ⟨403, [("error", .text "Invalid Signature"), ("details", .text verifyResp.error)]⟩
      else
        match req.body with
        | none => ⟨400, [("error", .text "Invalid request body")]⟩
        | some body =>
          match callOpenRouter env provider body.text with
          | .error e => ⟨500, [("error", .text "AI Service Failed"), ("details", .text e)]⟩
          | .ok summary => ⟨200, [("result", .text summary)]⟩

/-- A request as the gateway handles it, with what `uuid.New()` returns then. -/
structure Arrival where
  req : Request
  uuid : String

def serve (env : Env) (verifier : Verifier) (provider : Provider) (as : List Arrival) : List Reply :=
  as.map fun a => handleSummarize env verifier provider a.req a.uuid

lemma handleSummarize_status_eq_200 {env : Env} {verifier : Verifier} {provider : Provider}
    {req : Request} {uuid : String} :
    (handleSummarize env verifier provider req uuid).status = 200 ↔
      req.signature ≠ "" ∧ req.nonce ≠ "" ∧
      (∃ verifyResp, verifier (verifierURL env ++ "/verify")
          ⟨⟨getRecipientAddress env, "USDC", "0.001", req.nonce, 8453⟩, req.signature⟩ =
            some verifyResp ∧ verifyResp.isValid = true) ∧
      ∃ body summary, req.body = some body ∧ callOpenRouter env provider body.text = .ok summary := by
  unfold handleSummarize
  by_cases hh : req.signature = "" ∨ req.nonce = ""
  · rw [if_pos hh]
    constructor
    · intro h
      exact absurd h (by decide : (402 : Nat) ≠ 200)
    · rintro ⟨hs, hn, -⟩
      exact (hh.elim hs hn).elim
  · rw [if_neg hh]
    obtain ⟨hs, hn⟩ := not_or.1 hh
    simp only [ne_eq, hs, hn, not_false_eq_true, true_and]
    cases verifier (verifierURL env ++ "/verify")
      ⟨⟨getRecipientAddress env, "USDC", "0.001", req.nonce, 8453⟩, req.signature⟩ with
    | none => simp
    | some verifyResp =>
      cases hr : verifyResp.isValid
      · simp [hr]
      · cases req.body with
        | none => simp [hr]
        | some body => cases hc : callOpenRouter env provider body.text <;> simp [hr, hc]

lemma serve_getElem?_length (env : Env) (verifier : Verifier) (provider : Provider)
    (pre : List Arrival) (a : Arrival) (post : List Arrival) :
    (serve env verifier provider (pre ++ a :: post))[pre.length]? =
      some (handleSummarize env verifier provider a.req a.uuid) := by
  rw [serve, List.map_append, List.getElem?_append_right (by simp)]
  simp

theorem serve_ok_iff (env : Env) (verifier : Verifier) (provider : Provider)
    (pre : List Arrival) (a : Arrival) (post : List Arrival) :
    (∃ reply, (serve env verifier provider (pre ++ a :: post))[pre.length]? = some reply ∧
        reply.status = 200) ↔
      a.req.signature ≠ "" ∧ a.req.nonce ≠ "" ∧
      (∃ verifyResp, verifier (verifierURL env ++ "/verify")
          ⟨⟨getRecipientAddress env, "USDC", "0.001", a.req.nonce, 8453⟩, a.req.signature⟩ =
            some verifyResp ∧ verifyResp.isValid = true) ∧
      ∃ body summary, a.req.body = some body ∧ callOpenRouter env provider body.text = .ok summary := by
  simp only [serve_getElem?_length, Option.some.injEq, exists_eq_left',
    handleSummarize_status_eq_200]

theorem replayed_nonce_served_twice :
    (serve (fun _ => "")
        (fun _ verifyReq => some (if verifyReq.signature = "0xValidSig" then ⟨true, "0xPayer", ""⟩
          else ⟨false, "", "invalid signature"⟩))
        (fun _ _ _ => .ok ["summary"])
        [⟨⟨"0xValidSig", "nonce-123", some ⟨"hello"⟩⟩, "u1"⟩,
          ⟨⟨"0xValidSig", "nonce-123", some ⟨"hello"⟩⟩, "u2"⟩]).map (·.status) = [200, 200] := by
  decide

end Paygate.Gateway
