import VoiceAgent.Model.App
import VoiceAgent.Theorems.Drain
import VoiceAgent.Theorems.Signature

/-!
# What an app with accepted settings answers

The bounds and the validators of `Settings` are what the rest relies on: `CallGate` does
not raise, and the webhook finds its token in production; the database URL is left to
`init_engine`. From there on the answers are those of the gate, which counts the sessions
that run.
-/

namespace VoiceAgent

open Lib Lib.TSys Lib.Params

/-! ## Settings -/

theorem checkBounds_eq_nil {name : String} {ge le value : Int} :
    checkBounds name ge le value = [] ↔ ge ≤ value ∧ value ≤ le := by
  unfold checkBounds
  split
  · rename_i h
    exact iff_of_true rfl h
  · rename_i h
    exact iff_of_false (List.cons_ne_nil _ _) h

namespace AppSettings

variable {checkNetloc : String → Except String Unit} {settings : AppSettings}

theorem maxConcurrentCalls_bounds (h : settings.badFields = []) :
    1 ≤ settings.maxConcurrentCalls ∧ settings.maxConcurrentCalls ≤ 500 := by
  simp only [badFields, List.append_eq_nil_iff] at h
  exact checkBounds_eq_nil.mp h.1.1.1.1.1

theorem twilioAuthToken_ne (h : settings.missingSecrets = []) :
    settings.twilioAuthToken ≠ "" := by
  simp only [missingSecrets, List.append_eq_nil_iff] at h
  have hconfigured : settings.twilioConfigured = true := by
    have := h.2
    split at this
    · assumption
    · cases this
  simp only [twilioConfigured, Bool.and_eq_true, bne_iff_ne] at hconfigured
  exact hconfigured.1.2

theorem validate_cases (h : settings.validate checkNetloc = .ok ()) :
    settings.badFields = [] ∧ settings.validatePublicBaseUrl checkNetloc = .ok () ∧
      settings.requireSecretsInProduction = .ok () := by
  unfold validate at h
  split at h
  · rename_i hfields
    refine ⟨hfields, ?_⟩
    cases hurl : settings.validatePublicBaseUrl checkNetloc with
    | error message =>
        rw [hurl] at h
        cases h
    | ok =>
        rw [hurl] at h
        cases hsecrets : settings.requireSecretsInProduction with
        | error message =>
            rw [hsecrets] at h
            cases h
        | ok => exact ⟨rfl, rfl⟩
  · cases h

/-- Production settings are accepted with a token only. -/
theorem token_of_production (h : settings.validate checkNetloc = .ok ())
    (hprod : settings.isProduction = true) : settings.twilioAuthToken ≠ "" := by
  have hsecrets := (validate_cases h).2.2
  unfold requireSecretsInProduction at hsecrets
  rw [hprod] at hsecrets
  split at hsecrets
  · contradiction
  · split at hsecrets
    · rename_i hmissing
      exact twilioAuthToken_ne hmissing
    · cases hsecrets

end AppSettings

section

variable {checkNetloc initEngine : String → Except String Unit} {settings : AppSettings}

/-- With accepted settings, the start of the app fails in `init_engine` only. -/
theorem lifespan_of_validate (h : settings.validate checkNetloc = .ok ())
    (hengine : initEngine settings.databaseUrl = .ok ()) :
    ∃ gate, CallGate.init settings.maxConcurrentCalls = .ok gate ∧
      lifespan checkNetloc initEngine settings =
        .ok { settings, server := { gate := { gate } } } := by
  have hbounds := AppSettings.maxConcurrentCalls_bounds (AppSettings.validate_cases h).1
  have hinit : CallGate.init settings.maxConcurrentCalls =
      .ok { sem := { value := settings.maxConcurrentCalls }, max := settings.maxConcurrentCalls } :=
    if_neg (by omega)
  refine ⟨_, hinit, ?_⟩
  unfold lifespan
  rw [h, hengine, hinit]
  rfl

theorem lifespan_of_engine_error (h : settings.validate checkNetloc = .ok ()) {message : String}
    (hengine : initEngine settings.databaseUrl = .error message) :
    lifespan checkNetloc initEngine settings = .error (.engine message) := by
  unfold lifespan
  rw [h, hengine]
  rfl

end

/-! ## The sessions that run -/

namespace Server

/-- The sessions whose handler runs. -/
def running (σ : Server) : Nat := σ.sessions.countP fun s => s.pc.hasPermit

theorem countP_transports (sessions : List Session) :
    sessions.countP (fun s => decide (s.transport = .twilio) && s.pc.hasPermit) +
        sessions.countP (fun s => decide (s.transport = .webrtc) && s.pc.hasPermit) =
      sessions.countP fun s => s.pc.hasPermit := by
  induction sessions with
  | nil => rfl
  | cons s sessions ih =>
      rw [List.countP_cons, List.countP_cons, List.countP_cons, ← ih]
      cases htransport : s.transport <;> cases hpc : s.pc.hasPermit <;> simp <;> omega

variable {synthesize : Nat → Nat → String → List Bytes} {max : Int} {σ : Server}

theorem Sound.length_permits (hσ : Sound max σ) (t : Transport) : (σ.gate.permits t).length =
    σ.sessions.countP fun s => decide (s.transport = t) && s.pc.hasPermit := by
  apply length_eq_countP
  · exact hσ.seated.tidy.nodup t
  · intro i
    rw [(hσ.seated.seats i).2 t, seat_eq_holds]
    simp

/-- The gate's count is that of the sessions that run. -/
theorem Sound.active_eq_running (hσ : Sound max σ) : σ.gate.gate.active = σ.running := by
  have hactive := hσ.handler.gate.active
  have htwilio := hσ.length_permits .twilio
  have hwebrtc := hσ.length_permits .webrtc
  have hsum := countP_transports σ.sessions
  simp only [GateState.permits] at htwilio hwebrtc
  unfold running
  omega

theorem Sound.running_le (hσ : Sound max σ) : (σ.running : Int) ≤ max := by
  have hactive := hσ.active_eq_running
  have hpermits := hσ.handler.gate.permits
  have hnonneg := hσ.handler.gate.nonneg
  unfold Semaphore.permits at hpermits
  omega

end Server

/-! ## Answers -/

/-- The webhook lets the request through: the check is off, there is no token to check
it with, or it is signed. -/
def LetThrough (validator : RequestValidator) (settings : Settings) (request : WebhookRequest) :
    Prop :=
  settings.twilioValidateSignature = true → settings.twilioAuthToken ≠ "" →
    ∃ s, request.signature = some s ∧ validator.Signs settings.twilioAuthToken
      (publicUrl request settings) (toDict request.form) s

theorem validateTwilioSignature_cases (validator : RequestValidator) (request : WebhookRequest)
    {settings : Settings}
    (htoken : settings.isProduction = true → settings.twilioAuthToken ≠ "") :
    (LetThrough validator settings request ∧
      validateTwilioSignature validator request settings = .ok ()) ∨
    (¬ LetThrough validator settings request ∧ ∃ detail,
      validateTwilioSignature validator request settings = .error ⟨403, detail⟩) := by
  by_cases hon : settings.twilioValidateSignature = true
  · by_cases hempty : settings.twilioAuthToken = ""
    · left
      refine ⟨fun _ hne => absurd hempty hne, ?_⟩
      have hprod : settings.isProduction = false := by
        cases hprod : settings.isProduction with
        | false => rfl
        | true => exact absurd hempty (htoken hprod)
      simp [validateTwilioSignature, hempty, hprod]
    · have hiff := validateTwilioSignature_iff validator request hon hempty
      have hthrough : LetThrough validator settings request ↔
          validateTwilioSignature validator request settings = .ok () := by
        rw [hiff]
        exact ⟨fun h => h hon hempty, fun h _ _ => h⟩
      have hcomes : validateTwilioSignature validator request settings = .ok () ∨ ∃ detail,
          validateTwilioSignature validator request settings = .error ⟨403, detail⟩ := by
        unfold validateTwilioSignature
        rw [if_neg (by simp [hon]), if_neg hempty]
        simp only
        split
        · exact .inr ⟨_, rfl⟩
        · split
          · exact .inl rfl
          · exact .inr ⟨_, rfl⟩
      rw [hthrough]
      rcases hcomes with hok | ⟨detail, herror⟩
      · exact .inl ⟨hok, hok⟩
      · exact .inr ⟨by rw [herror]; nofun, detail, herror⟩
  · left
    refine ⟨fun h => absurd h hon, ?_⟩
    simp [validateTwilioSignature, hon]

/-- The check of the form and the signature raises, or is the one of a request whose
form parses and on whose URL the validator returns. -/
theorem checkSignature_cases (validator : WebhookValidator) (request : IncomingRequest)
    (settings : Settings) :
    checkSignature validator request settings =
        validateTwilioSignature validator.toRequestValidator request.toWebhookRequest settings ∨
      (request.formError ≠ none ∨
        validator.returns (publicUrl request.toWebhookRequest settings) = false) ∧
      ∃ exc, checkSignature validator request settings = .error exc := by
  unfold checkSignature validateTwilioSignature
  split
  · exact .inl rfl
  · simp only
    split
    · left
      split <;> rfl
    · split
      · exact .inl rfl
      · cases hform : request.formError with
        | some exc =>
            refine .inr ⟨.inl (Option.some_ne_none exc), exc, ?_⟩
            simp only [IncomingRequest.parseForm, hform]
            rfl
        | none =>
            simp only [IncomingRequest.parseForm, hform]
            cases hreturns : validator.returns (publicUrl request.toWebhookRequest settings) with
            | false => exact .inr ⟨.inr rfl, _, rfl⟩
            | true => exact .inl rfl

section

variable {validator : WebhookValidator} {request : IncomingRequest} {settings : Settings}

theorem checkSignature_eq (hform : request.formError = none)
    (hreturns : validator.returns (publicUrl request.toWebhookRequest settings) = true) :
    checkSignature validator request settings =
      validateTwilioSignature validator.toRequestValidator request.toWebhookRequest settings := by
  rcases checkSignature_cases validator request settings with h | ⟨hraises | hraises, -⟩
  · exact h
  · exact absurd hform hraises
  · rw [hreturns] at hraises
    cases hraises

/-- A request that passes is one that the webhook lets through. -/
theorem LetThrough.of_checkSignature
    (htoken : settings.isProduction = true → settings.twilioAuthToken ≠ "")
    (h : checkSignature validator request settings = .ok ()) :
    LetThrough validator.toRequestValidator settings request.toWebhookRequest := by
  rcases checkSignature_cases validator request settings with heq | ⟨-, exc, herror⟩
  · rcases validateTwilioSignature_cases validator.toRequestValidator request.toWebhookRequest
        htoken with ⟨hthrough, -⟩ | ⟨-, detail, herror⟩
    · exact hthrough
    · rw [← heq, h] at herror
      cases herror
  · rw [h] at herror
    cases herror

end

namespace App

variable {checkNetloc initEngine : String → Except String Unit}
  {synthesize : Nat → Nat → String → List Bytes} {app σ : App} {tr : List (App × AppAct)}

/-- The requests leave the process a run of its own. -/
theorem server_run (h : (appSys checkNetloc initEngine synthesize).Run app tr σ) :
    σ.settings = app.settings ∧ ∃ tr', (serverSys synthesize).Run app.server tr' σ.server := by
  induction h with
  | nil => exact ⟨rfl, [], .nil⟩
  | @snoc tr ρ τ a hrun hs ih =>
      obtain ⟨hsettings, tr', hserver⟩ := ih
      cases a with
      | incoming request =>
          obtain rfl := Option.some.inj hs
          exact ⟨hsettings, tr', hserver⟩
      | health =>
          obtain rfl := Option.some.inj hs
          exact ⟨hsettings, tr', hserver⟩
      | server a =>
          obtain ⟨server, hstep, rfl⟩ := Option.map_eq_some_iff.mp hs
          exact ⟨hsettings, _, hserver.snoc hstep⟩

/-- What the webhook answers a request that it lets through. -/
def opening (settings : AppSettings) (running : Nat) (request : WebhookRequest) : String :=
  if (running : Int) < settings.maxConcurrentCalls then
    connectTwiml settings.publicBaseUrl
      { callSid := formGet request.form "CallSid", fromNumber := formGet request.form "From" }
  else busyTwiml

section

variable {validator : WebhookValidator} {request : IncomingRequest}

theorem incomingCall_of_refused {exc : HttpError}
    (h : checkSignature validator request σ.settings.toSettings = .error exc) :
    σ.incomingCall validator request = httpExceptionHandler exc := by
  unfold App.incomingCall
  rw [h]
  rfl

theorem incomingCall_of_passed {running : Nat} (hactive : σ.callGate.active = running)
    (hmax : σ.callGate.max = σ.settings.maxConcurrentCalls)
    (h : checkSignature validator request σ.settings.toSettings = .ok ())
    (hform : request.formError = none) : σ.incomingCall validator request =
      ⟨200, .xml (opening σ.settings running request.toWebhookRequest)⟩ := by
  have hopening : VoiceAgent.incomingCall σ.settings.publicBaseUrl
      { callSid := formGet request.form "CallSid", fromNumber := formGet request.form "From" }
      σ.callGate = opening σ.settings running request.toWebhookRequest := by
    unfold VoiceAgent.incomingCall opening
    rw [hactive, hmax]
    by_cases hfree : (running : Int) < σ.settings.maxConcurrentCalls
    · rw [if_pos hfree, if_neg (by omega)]
    · rw [if_neg hfree, if_pos (by omega)]
  unfold App.incomingCall IncomingRequest.parseForm
  rw [h, hform, ← hopening]
  rfl

/-- TwiML is answered to a request that passes, and whose form parses. -/
theorem checked_of_xml {twiml : String} (h : (σ.incomingCall validator request).body = .xml twiml) :
    checkSignature validator request σ.settings.toSettings = .ok () ∧ request.formError = none := by
  cases hcheck : checkSignature validator request σ.settings.toSettings with
  | error exc =>
      rw [incomingCall_of_refused hcheck] at h
      cases h
  | ok =>
      refine ⟨rfl, ?_⟩
      cases hform : request.formError with
      | none => rfl
      | some exc =>
          unfold App.incomingCall IncomingRequest.parseForm at h
          rw [hcheck, hform] at h
          cases h

end

/-- What the app answers: `/health` with the number of sessions that run, which is
bounded, and the webhook with TwiML only where the check lets the request through. -/
structure Serves (validator : WebhookValidator) (version : String) (settings : AppSettings)
    (σ : App) : Prop where
  running_le : (σ.server.running : Int) ≤ settings.maxConcurrentCalls
  max_le : settings.maxConcurrentCalls ≤ 500
  health : σ.health version = ⟨200, .json (.dict [("status", .str "ok"),
    ("version", .str version), ("calls", .dict [("active", .int σ.server.running),
      ("max", .int settings.maxConcurrentCalls)])])⟩
  checked : ∀ request twiml, (σ.incomingCall validator request).body = .xml twiml →
    LetThrough validator.toRequestValidator settings.toSettings request.toWebhookRequest ∧
      request.formError = none
  opens : ∀ request, request.formError = none →
    validator.returns (publicUrl request.toWebhookRequest settings.toSettings) = true →
    LetThrough validator.toRequestValidator settings.toSettings request.toWebhookRequest →
    σ.incomingCall validator request =
      ⟨200, .xml (opening settings σ.server.running request.toWebhookRequest)⟩
  refuses : ∀ request, request.formError = none →
    validator.returns (publicUrl request.toWebhookRequest settings.toSettings) = true →
    ¬ LetThrough validator.toRequestValidator settings.toSettings request.toWebhookRequest →
    ∃ detail, σ.incomingCall validator request = httpExceptionHandler ⟨403, detail⟩

/-- A sound process answers so, under settings that were accepted. -/
theorem serves_of_sound (validator : WebhookValidator) (version : String)
    (haccepted : σ.settings.validate checkNetloc = .ok ())
    (hsound : Server.Sound σ.settings.maxConcurrentCalls σ.server) :
    σ.Serves validator version σ.settings := by
  have htoken := AppSettings.token_of_production haccepted
  have hactive : σ.callGate.active = σ.server.running := hsound.active_eq_running
  have hmax : σ.callGate.max = σ.settings.maxConcurrentCalls := hsound.handler.gate.max_eq
  refine ⟨hsound.running_le,
    (AppSettings.maxConcurrentCalls_bounds (AppSettings.validate_cases haccepted).1).2, ?_,
    ?_, ?_, ?_⟩
  · unfold App.health
    rw [hactive, hmax]
  · intro request twiml hbody
    obtain ⟨hpassed, hform⟩ := checked_of_xml hbody
    exact ⟨.of_checkSignature htoken hpassed, hform⟩
  · intro request hform hreturns hthrough
    apply incomingCall_of_passed hactive hmax _ hform
    rw [checkSignature_eq hform hreturns]
    rcases validateTwilioSignature_cases validator.toRequestValidator request.toWebhookRequest
        htoken with ⟨-, hok⟩ | ⟨hnot, -⟩
    · exact hok
    · exact absurd hthrough hnot
  · intro request hform hreturns hnot
    rcases validateTwilioSignature_cases validator.toRequestValidator request.toWebhookRequest
        htoken with ⟨hthrough, -⟩ | ⟨-, detail, herror⟩
    · exact absurd hthrough hnot
    · refine ⟨detail, incomingCall_of_refused ?_⟩
      rw [checkSignature_eq hform hreturns]
      exact herror

end App

/-- **Serving.** Settings that are accepted start the app, in production with a token,
unless `init_engine` raises on their database URL; and whatever its sessions do, at most
500 of them run at once and never more than the settings say, `/health` shows how many,
and the webhook answers TwiML only to a request that it lets through and whose form
parses. Where the form parses and the validator returns, it opens a stream exactly if it
lets the request through and not all the places are taken, and refuses with 403 what it
does not let through. -/
theorem app_serves (validator : WebhookValidator) (version : String)
    (checkNetloc initEngine : String → Except String Unit)
    (synthesize : Nat → Nat → String → List Bytes) (settings : AppSettings)
    (haccepted : settings.validate checkNetloc = .ok ()) :
    (settings.isProduction = true → settings.twilioAuthToken ≠ "") ∧
    (∀ message, initEngine settings.databaseUrl = .error message →
      lifespan checkNetloc initEngine settings = .error (.engine message)) ∧
    (initEngine settings.databaseUrl = .ok () →
      ∃ app, lifespan checkNetloc initEngine settings = .ok app ∧
        ∀ tr σ, (appSys checkNetloc initEngine synthesize).Run app tr σ →
          σ.Serves validator version settings) := by
  refine ⟨AppSettings.token_of_production haccepted,
    fun message hengine => lifespan_of_engine_error haccepted hengine, fun hengine => ?_⟩
  obtain ⟨gate, hinit, hlifespan⟩ := lifespan_of_validate haccepted hengine
  refine ⟨_, hlifespan, fun tr σ hrun => ?_⟩
  obtain ⟨hsettings, tr', hserver⟩ := App.server_run hrun
  obtain rfl : σ.settings = settings := hsettings
  exact App.serves_of_sound validator version haccepted (Server.sound_run hinit hserver)

/-- A production app for one call at a time. -/
def oneCallSettings : AppSettings where
  env := .production
  publicBaseUrl := "https://example.org/"
  twilioAuthToken := "secret"
  maxConcurrentCalls := 1
  anthropicApiKey := "key"
  deepgramApiKey := "key"
  elevenlabsApiKey := "key"
  twilioAccountSid := "AC1"
  twilioFromNumber := "+15550100"

/-- A validator that raises on an empty URL only. -/
def plainWebhookValidator : WebhookValidator where
  toRequestValidator := plainValidator
  returns url := url != ""

/-- While the one call is on, a signed webhook is told that all agents are busy. -/
theorem app_serves_one_call :
    ∃ app tr σ, lifespan (fun _ => .ok ()) (fun _ => .ok ()) oneCallSettings = .ok app ∧
      (appSys (fun _ => .ok ()) (fun _ => .ok ()) fun _ _ _ => []).Run app tr σ ∧
      σ.server.running = 1 ∧
      σ.incomingCall plainWebhookValidator
        { signature := some "sha1:secrethttps://example.org/voice/incomingCallSidCA1"
          path := "/voice/incoming"
          form := [("CallSid", "CA1")] } = ⟨200, .xml busyTwiml⟩ := by
  obtain ⟨-, -, hstarts⟩ := app_serves plainWebhookValidator "0.1.0" (fun _ => .ok ())
    (fun _ => .ok ()) (fun _ _ _ => []) oneCallSettings (by decide +kernel)
  obtain ⟨app, happ, hserves⟩ := hstarts rfl
  have hrun : (appSys (fun _ => .ok ()) (fun _ => .ok ()) fun _ _ _ => []).Run
      { settings := oneCallSettings
        server := { gate := { gate := { sem := { value := 1 }, max := 1 } } } } _ _ :=
    TSys.Run.exec [.server (.connect .twilio)] (by decide +kernel)
  obtain rfl : app = _ := (Except.ok.inj happ).symm
  refine ⟨_, _, _, happ, hrun, by decide +kernel, ?_⟩
  refine ((hserves _ _ hrun).opens _ rfl (by decide +kernel)
    fun _ _ => ⟨_, rfl, .inl ?_⟩).trans ?_
  · decide +kernel
  · rfl

end VoiceAgent
