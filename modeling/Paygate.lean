import Paygate.RateLimit.Bucket
import Paygate.RateLimit.Refill
import Paygate.RateLimit.Run
import Paygate.RateLimit.Conservation
import Paygate.RateLimit.Headers
import Paygate.RateLimit.Reclamation
import Paygate.RateLimit.Interleaving
import Paygate.RateLimit.Float64.Round
import Paygate.RateLimit.Float64.Bucket
import Paygate.RateLimit.Float64.Headers
import Paygate.RateLimit.Float64.Reclamation
import Paygate.RateLimit.Float64.Interleaving
import Paygate.Payment.Service
import Paygate.Payment.Middleware
import Paygate.Payment.Registry
import Paygate.Gateway.Summarize
