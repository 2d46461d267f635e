import Mathlib.Algebra.Order.Ring.Rat
import VoiceAgent.Model.BaseUrl
import VoiceAgent.Model.FrontDoor
import VoiceAgent.Model.Security

/-!
# The app

`Settings()` with all its checks, what `lifespan` makes of it, and the HTTP endpoints
beside the websockets: the webhook behind its signature check, and `/health`. A run
interleaves their requests with the sessions of the process.
-/

namespace VoiceAgent

open Lib

/-! ## `Settings` -/

/-- The settings that are checked or read, with their defaults. -/
structure AppSettings extends Settings where
  maxConcurrentCalls : Int := 10
  anthropicApiKey : String := ""
  anthropicMaxTokens : Int := 4096
  anthropicTimeoutS : ℚ := 30
  anthropicMaxRetries : Int := 3
  deepgramApiKey : String := ""
  deepgramEndpointingMs : Int := 300
  elevenlabsApiKey : String := ""
  elevenlabsTimeoutS : ℚ := 30
  twilioAccountSid : String := ""
  twilioFromNumber : String := ""
  databaseUrl : String := "postgresql+asyncpg://voice:voice@db:5432/voice"

/-- The `ValidationError` of `Settings()`: the fields that are out of their bounds, or
what a validator of the whole model raises. -/
inductive SettingsError where
  | fields (names : List String)
  | model (message : String)
  deriving DecidableEq, Repr

/-- `Field(ge=ge, le=le)` -/
def checkBounds (name : String) (ge le value : Int) : List String :=
  if ge ≤ value ∧ value ≤ le then [] else [name]

/-- `Field(gt=0.0)` -/
def checkPositive (name : String) (value : ℚ) : List String :=
  if 0 < value then [] else [name]

namespace AppSettings

/-- The fields that are out of their bounds. -/
def badFields (settings : AppSettings) : List String :=
  checkBounds "max_concurrent_calls" 1 500 settings.maxConcurrentCalls ++
  checkBounds "anthropic_max_tokens" 64 8192 settings.anthropicMaxTokens ++
  checkPositive "anthropic_timeout_s" settings.anthropicTimeoutS ++
  checkBounds "anthropic_max_retries" 0 6 settings.anthropicMaxRetries ++
  checkBounds "deepgram_endpointing_ms" 50 2000 settings.deepgramEndpointingMs ++
  checkPositive "elevenlabs_timeout_s" settings.elevenlabsTimeoutS

/-- `twilio_configured` -/
def twilioConfigured (settings : AppSettings) : Bool :=
  settings.twilioAccountSid != "" && settings.twilioAuthToken != "" &&
    settings.twilioFromNumber != ""

/-- The list `missing` of `_require_secrets_in_production`. -/
def missingSecrets (settings : AppSettings) : List String :=
  (if settings.anthropicApiKey = "" then ["ANTHROPIC_API_KEY"] else []) ++
  (if settings.deepgramApiKey = "" then ["DEEPGRAM_API_KEY"] else []) ++
  (if settings.elevenlabsApiKey = "" then ["ELEVENLABS_API_KEY"] else []) ++
  (if settings.twilioConfigured then [] else ["TWILIO_{ACCOUNT_SID,AUTH_TOKEN,FROM_NUMBER}"])

/-- `_require_secrets_in_production`, with the text of its `ValueError`. -/
def requireSecretsInProduction (settings : AppSettings) : Except String Unit :=
  if !settings.isProduction then .ok ()
  else if settings.missingSecrets = [] then .ok ()
  else .error ("production env requires these secrets: " ++
    ", ".intercalate settings.missingSecrets)

/-- `Settings()`: the fields first, then the two validators in order. -/
def validate (checkNetloc : String → Except String Unit) (settings : AppSettings) :
    Except SettingsError Unit :=
  if settings.badFields = [] then do
    (settings.validatePublicBaseUrl checkNetloc).mapError .model
    settings.requireSecretsInProduction.mapError .model
  else .error (.fields settings.badFields)

end AppSettings

/-! ## The endpoints -/

inductive HttpBody where
  | xml (text : String)
  | json (content : PyVal)

structure HttpResponse where
  statusCode : Nat
  body : HttpBody

/-- `http_exception_handler`, and `unhandled_exception_handler` with its own texts -/
def httpExceptionHandler (exc : HttpError) : HttpResponse where
  statusCode := exc.statusCode
  body := .json (.dict [("error", .dict
    [("status", .int exc.statusCode), ("detail", .str exc.detail)])])

/-- A request of the webhook, with what `await request.form()` raises. The fields of its
form are texts: an uploaded file is left out. -/
structure IncomingRequest extends WebhookRequest where
  formError : Option HttpError := none

/-- `await request.form()` -/
def IncomingRequest.parseForm (request : IncomingRequest) :
    Except HttpError (List (String × String)) :=
  match request.formError with
  | some exc => .error exc
  | none => .ok request.form

/-- The validator, with the URLs on which it returns: it raises where the port of the
URL is no port. -/
structure WebhookValidator extends RequestValidator where
  returns : String → Bool

/-- `validate_twilio_signature`, with what the form and the validator raise; an exception
that is not an `HTTPException` is answered as `unhandled_exception_handler` does. -/
def checkSignature (validator : WebhookValidator) (request : IncomingRequest)
    (settings : Settings) : Except HttpError Unit := do
  if !settings.twilioValidateSignature then return ()
  let authToken := settings.twilioAuthToken
  if authToken = "" then
    if settings.isProduction then
      throw ⟨500, "twilio signature validation not configured"⟩
    else return ()
  let signature := request.signature.getD ""
  if signature = "" then throw ⟨403, "missing signature"⟩
  let url := publicUrl request.toWebhookRequest settings
  let params := Params.toDict (← request.parseForm)
  if !validator.returns url then throw ⟨500, "internal_error"⟩
  if validator.validate authToken url params signature then return ()
  else throw ⟨403, "invalid signature"⟩

/-- `form.get(key)`: the last value of the key. -/
def formGet (form : List (String × String)) (key : String) : Option String :=
  (Params.values form key).getLast?

/-- The app after its start: `app.state` and the process behind it. -/
structure App where
  settings : AppSettings
  server : Server

/-- What ends the start of the app. -/
inductive StartupError where
  | settings (exc : SettingsError)
  | engine (message : String)
  | gate (exc : PyErr)

/-- `lifespan` up to its `yield`; `initEngine` says what `init_engine` raises on a
database URL. -/
def lifespan (checkNetloc initEngine : String → Except String Unit) (settings : AppSettings) :
    Except StartupError App := do
  (settings.validate checkNetloc).mapError .settings
  (initEngine settings.databaseUrl).mapError .engine
  let gate ← (CallGate.init settings.maxConcurrentCalls).mapError .gate
  return { settings, server := { gate := { gate } } }

namespace App

/-- `gate = app.state.call_gate` -/
def callGate (σ : App) : CallGate := σ.server.gate.gate

/-- `POST /voice/incoming` -/
def incomingCall (validator : WebhookValidator) (σ : App) (request : IncomingRequest) :
    HttpResponse :=
  let content : Except HttpError String := do
    checkSignature validator request σ.settings.toSettings
    let form ← request.parseForm
    return VoiceAgent.incomingCall σ.settings.publicBaseUrl
      { callSid := formGet form "CallSid", fromNumber := formGet form "From" } σ.callGate
  match content with
  | .ok twiml => ⟨200, .xml twiml⟩
  | .error exc => httpExceptionHandler exc

/-- `GET /health`; `version` is `app.__version__`. -/
def health (version : String) (σ : App) : HttpResponse where
  statusCode := 200
  body := .json (.dict [("status", .str "ok"), ("version", .str version), ("calls", .dict
    [("active", .int σ.callGate.active), ("max", .int σ.callGate.max)])])

end App

inductive AppAct where
  | incoming (request : IncomingRequest)
  | health
  | server (a : ServerAct)

namespace App

/-- The endpoints change nothing. -/
def step (synthesize : Nat → Nat → String → List Bytes) (σ : App) : AppAct → Option App
  | .incoming _ => some σ
  | .health => some σ
  | .server a => (σ.server.step synthesize a).map fun server => { σ with server }

end App

/-- An app that has started, and every interleaving of its requests and sessions. -/
def appSys (checkNetloc initEngine : String → Except String Unit)
    (synthesize : Nat → Nat → String → List Bytes) : TSys App AppAct where
  init σ := ∃ settings, lifespan checkNetloc initEngine settings = .ok σ
  step := App.step synthesize

end VoiceAgent
