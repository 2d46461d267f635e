import VoiceAgent.Lib.Params
import VoiceAgent.Model.Config

/-!
# Webhook signature validation

`validate_twilio_signature` and `_public_url`. Twilio's `RequestValidator` is a package
of its own: what the code relies on are an HMAC, here any injective function of the
string signed, and the two forms of a URL, with the default port and without.
-/

namespace VoiceAgent

open Lib

/-- An `HTTPException`. -/
structure HttpError where
  statusCode : Nat
  detail : String
  deriving DecidableEq, Repr

/-- What the code reads of a request: the header `X-Twilio-Signature`, the URL's path
and query, and `(await request.form()).multi_items()`. -/
structure WebhookRequest where
  signature : Option String := none
  path : String
  query : String := ""
  form : List (String × String) := []

/-- `twilio.request_validator.RequestValidator`; `hmac token s` is the base64 text of
the HMAC-SHA1 of `s`. -/
structure RequestValidator where
  hmac : String → String → String
  addPort : String → String
  removePort : String → String
  hmac_injective : ∀ token, Function.Injective (hmac token)
  hmac_ne_empty : ∀ token s, hmac token s ≠ ""

/-- `compute_signature` -/
def RequestValidator.computeSignature (validator : RequestValidator) (token uri : String)
    (params : List (String × String)) : String :=
  validator.hmac token (uri ++ Params.canonical params)

/-- `validate` -/
def RequestValidator.validate (validator : RequestValidator) (token uri : String)
    (params : List (String × String)) (signature : String) : Bool :=
  validator.computeSignature token (validator.removePort uri) params == signature ||
    validator.computeSignature token (validator.addPort uri) params == signature

/-- `_public_url` -/
def publicUrl (request : WebhookRequest) (settings : Settings) : String :=
  let base := rstripSlash settings.publicBaseUrl
  base ++ request.path ++ (if request.query = "" then "" else "?" ++ request.query)

/-- `validate_twilio_signature` -/
def validateTwilioSignature (validator : RequestValidator) (request : WebhookRequest)
    (settings : Settings) : Except HttpError Unit :=
  if !settings.twilioValidateSignature then .ok ()
  else
    let authToken := settings.twilioAuthToken
    if authToken = "" then
      if settings.isProduction then
        .error ⟨500, "twilio signature validation not configured"⟩
      else .ok ()
    else
      let signature := request.signature.getD ""
      if signature = "" then .error ⟨403, "missing signature"⟩
      else
        let url := publicUrl request settings
        let params := Params.toDict request.form
        if validator.validate authToken url params signature then .ok ()
        else .error ⟨403, "invalid signature"⟩

end VoiceAgent
