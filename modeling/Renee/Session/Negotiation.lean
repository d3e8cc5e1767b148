import Renee.Wire.Greeting

/-!
# Negotiating a session

What the session daemon answers to a request that it does not forward, and the reference model of
negotiation with the observation that the conformance tests compare with it.

* `negotiate` is the function of the daemon.  It answers every request: the greeting of the daemon
  fits a hello, and every answer fits a frame (`exists_negotiate_eq_ok`).
* `NegotiationModel.hello` is the reference model, which knows hellos only.  `helloOf` says which
  requests are hellos to it: those whose payload decodes.
* `observe` reads an answer as the test harness does.  `negotiate_hello`: what it sees of the answer
  to a hello is the outcome of the model, and the profile is selected exactly when the model becomes
  ready.  `negotiate_other`: everything else is answered with a protocol error.
-/

set_option autoImplicit false

namespace Renee.Session

open Wire

/-- The greeting of the daemon. -/
def reneeBanner : String := "I've been expecting you"

/-! ## The daemon -/

/-- The type and the payload of the answer to a request that is not forwarded. -/
def negotiatedPayload (request : Envelope) (negotiated : Bool) :
    Except GreetingEncodeError (U16 × List UInt8) :=
  if negotiated then .ok (protocolError, errorAlreadyNegotiated)
  else if request.version ≠ version then .ok (protocolError, errorUnsupportedVersion)
  else if request.messageType ≠ clientHello then .ok (protocolError, errorExpectedHello)
  else match decodeGreeting request.payload with
    | .ok greeting =>
      if greeting.profile = profile then do
        let payload ← encodeGreeting profile reneeBanner
        .ok (serverHello, payload)
      else .ok (protocolError, errorUnsupportedProfile)
    | .error _ => .ok (protocolError, errorMalformedHello)

def negotiate (request : Envelope) (negotiated : Bool) : Except GreetingEncodeError Envelope := do
  let (messageType, payload) ← negotiatedPayload request negotiated
  .ok ⟨request.correlationId, messageType, payload, version⟩

/-! ## The reference model -/

namespace Model

/-- The model's supported experimental profile. -/
def experimentalProfile : String := "renee-experimental-v0"

/-- The greeting emitted by the reference server. -/
def reneeBanner : String := "I've been expecting you"

end Model

/-- Pure negotiation state. -/
inductive NegotiationState
  /-- No valid hello has been accepted. -/
  | awaitingHello
  /-- The experimental profile has been selected. -/
  | ready
deriving DecidableEq

/-- A normalized client negotiation command. -/
structure ClientHello where
  banner : String
  profile : String
  version : U16

/-- A normalized model outcome. -/
inductive NegotiationOutcome
  | selected (serverBanner : String)
  | unsupportedVersion
  | unsupportedProfile
  | alreadyNegotiated
deriving DecidableEq

/-- Deterministic protocol-negotiation oracle. -/
@[ext] structure NegotiationModel where
  state : NegotiationState
deriving DecidableEq

namespace NegotiationModel

/-- `default` of the source. -/
def initial : NegotiationModel := ⟨.awaitingHello⟩

/-- Apply one normalized hello: its semantic outcome, and the model afterwards. -/
def hello (model : NegotiationModel) (hello : ClientHello) :
    NegotiationOutcome × NegotiationModel :=
  if model.state = .ready then (.alreadyNegotiated, model)
  else if hello.version ≠ 0 then (.unsupportedVersion, model)
  else if hello.profile ≠ Model.experimentalProfile then (.unsupportedProfile, model)
  else (.selected Model.reneeBanner, ⟨.ready⟩)

end NegotiationModel

/-! ## What is observed of the daemon -/

/-- A normalized negotiation observation from the real subject. -/
inductive NegotiationObservation
  | selected (serverBanner : String)
  | unsupportedVersion
  | unsupportedProfile
  | expectedHello
  | alreadyNegotiated
deriving DecidableEq

/-- Why nothing is observed of a response. -/
inductive ObservationError
  | other (message : String)
  | greeting (error : GreetingDecodeError)

/-- How the test harness reads the response to a hello that it has sent under a correlation
identifier. -/
def observe (correlationId : ByteString.Bytes 16) (response : Envelope) :
    Except ObservationError NegotiationObservation :=
  if response.correlationId ≠ correlationId then
    .error (.other "negotiation correlation ID changed")
  else if response.messageType = serverHello ∧ response.version = version then
    match decodeGreeting response.payload with
    | .error error => .error (.greeting error)
    | .ok greeting =>
      if greeting.profile ≠ profile then .error (.other "server selected an unexpected profile")
      else .ok (.selected greeting.banner)
  else if response.messageType = protocolError then
    if response.payload = errorUnsupportedVersion then .ok .unsupportedVersion
    else if response.payload = errorUnsupportedProfile then .ok .unsupportedProfile
    else if response.payload = errorExpectedHello then .ok .expectedHello
    else if response.payload = errorAlreadyNegotiated then .ok .alreadyNegotiated
    else .error (.other "unknown negotiation rejection")
  else .error (.other "unexpected negotiation response")

/-- The observation that the tests expect for an outcome of the model. -/
def NegotiationOutcome.observed : NegotiationOutcome → NegotiationObservation
  | .selected serverBanner => .selected serverBanner
  | .unsupportedVersion => .unsupportedVersion
  | .unsupportedProfile => .unsupportedProfile
  | .alreadyNegotiated => .alreadyNegotiated

/-- The hello that a request is to the model, if its payload decodes. -/
def helloOf (request : Envelope) : Option ClientHello :=
  if request.messageType = clientHello then
    match decodeGreeting request.payload with
    | .ok greeting => some ⟨greeting.banner, greeting.profile, request.version⟩
    | .error _ => none
  else none

/-! ## The daemon agrees with the model -/

variable {request response : Envelope} {negotiated : Bool} {hello : ClientHello}

/-- The payload of the daemon's hello. -/
def greetingPayload : List UInt8 := fieldBytes profile ++ fieldBytes reneeBanner

theorem encodeGreeting_reneeBanner : encodeGreeting profile reneeBanner = .ok greetingPayload :=
  encodeGreeting_eq_ok_iff.mpr ⟨by decide, by decide, rfl⟩

theorem decodeGreeting_greetingPayload :
    decodeGreeting greetingPayload = .ok ⟨reneeBanner, profile⟩ :=
  decodeGreeting_encodeGreeting encodeGreeting_reneeBanner

/-- The answer that rejects a request. -/
def rejection (request : Envelope) (payload : List UInt8) : Envelope :=
  ⟨request.correlationId, protocolError, payload, version⟩

/-- The answer that selects the profile. -/
def selection (request : Envelope) : Envelope :=
  ⟨request.correlationId, serverHello, greetingPayload, version⟩

/-- The payloads that requests are rejected with. -/
def rejections : List (List UInt8) :=
  [errorAlreadyNegotiated, errorUnsupportedVersion, errorExpectedHello, errorUnsupportedProfile,
    errorMalformedHello]

theorem negotiate_negotiated (request : Envelope) :
    negotiate request true = .ok (rejection request errorAlreadyNegotiated) := rfl

theorem helloOf_eq_some_iff :
    helloOf request = some hello ↔ request.messageType = clientHello ∧
      request.version = hello.version ∧
      decodeGreeting request.payload = .ok ⟨hello.banner, hello.profile⟩ := by
  rw [helloOf]
  split
  · rename_i htype
    cases hgreeting : decodeGreeting request.payload with
    | error error => simp
    | ok greeting =>
      simp only [Option.some.injEq, Except.ok.injEq]
      constructor
      · rintro rfl
        exact ⟨htype, rfl, rfl⟩
      · rintro ⟨_, hversion, rfl⟩
        rw [hversion]
  · rename_i htype
    simp [htype]

/-- A hello before the profile is selected. -/
theorem negotiate_of_hello (h : helloOf request = some hello) :
    negotiate request false = .ok
      (if hello.version ≠ version then rejection request errorUnsupportedVersion
        else if hello.profile ≠ profile then rejection request errorUnsupportedProfile
        else selection request) := by
  obtain ⟨htype, hversion, hgreeting⟩ := helloOf_eq_some_iff.mp h
  rw [negotiate, negotiatedPayload, if_neg Bool.false_ne_true, hversion]
  by_cases hsupported : hello.version ≠ version
  · rw [if_pos hsupported, if_pos hsupported]
    rfl
  · rw [if_neg hsupported, if_neg hsupported, if_neg (not_not.mpr htype), hgreeting]
    dsimp only
    by_cases hprofile : hello.profile = profile
    · rw [if_pos hprofile, if_neg (not_not.mpr hprofile), encodeGreeting_reneeBanner]
      rfl
    · rw [if_neg hprofile, if_pos hprofile]
      rfl

/-- **What is not a hello is rejected**, and so is a hello whose payload does not decode. -/
theorem negotiate_other (h : helloOf request = none) (negotiated : Bool) :
    ∃ payload ∈ rejections, negotiate request negotiated = .ok (rejection request payload) := by
  cases negotiated with
  | true => exact ⟨_, by simp [rejections], negotiate_negotiated request⟩
  | false =>
    rw [negotiate, negotiatedPayload, if_neg Bool.false_ne_true]
    by_cases hversion : request.version ≠ version
    · exact ⟨errorUnsupportedVersion, by simp [rejections], by rw [if_pos hversion]; rfl⟩
    · rw [if_neg hversion]
      by_cases htype : request.messageType ≠ clientHello
      · exact ⟨errorExpectedHello, by simp [rejections], by rw [if_pos htype]; rfl⟩
      · rw [if_neg htype]
        cases hgreeting : decodeGreeting request.payload with
        | error error => exact ⟨errorMalformedHello, by simp [rejections], rfl⟩
        | ok greeting =>
          rw [helloOf, if_pos (not_not.mp htype), hgreeting] at h
          exact absurd h (by simp)

/-- **Every request is answered**, by the profile that is selected or by a rejection. -/
theorem exists_negotiate_eq_ok (request : Envelope) (negotiated : Bool) :
    ∃ response, negotiate request negotiated = .ok response ∧
      (response = selection request ∨ ∃ payload ∈ rejections,
        response = rejection request payload) := by
  cases hhello : helloOf request with
  | none =>
    obtain ⟨payload, hpayload, hresponse⟩ := negotiate_other hhello negotiated
    exact ⟨_, hresponse, .inr ⟨payload, hpayload, rfl⟩⟩
  | some hello =>
    cases negotiated with
    | true => exact ⟨_, negotiate_negotiated request, .inr ⟨_, by simp [rejections], rfl⟩⟩
    | false =>
      refine ⟨_, negotiate_of_hello hhello, ?_⟩
      split_ifs
      · exact .inr ⟨_, by simp [rejections], rfl⟩
      · exact .inr ⟨_, by simp [rejections], rfl⟩
      · exact .inl rfl

theorem observe_rejection (request : Envelope) (payload : List UInt8) :
    observe request.correlationId (rejection request payload) =
      if payload = errorUnsupportedVersion then .ok .unsupportedVersion
      else if payload = errorUnsupportedProfile then .ok .unsupportedProfile
      else if payload = errorExpectedHello then .ok .expectedHello
      else if payload = errorAlreadyNegotiated then .ok .alreadyNegotiated
      else .error (.other "unknown negotiation rejection") := by
  have hcorrelated : ¬(rejection request payload).correlationId ≠ request.correlationId :=
    not_not.mpr rfl
  have htype : ¬((rejection request payload).messageType = serverHello ∧
      (rejection request payload).version = version) := fun h ↦
    (show protocolError ≠ serverHello by decide) h.1
  have hrejected : (rejection request payload).messageType = protocolError := rfl
  rw [observe, if_neg hcorrelated, if_neg htype, if_pos hrejected]
  rfl

theorem observe_selection (request : Envelope) :
    observe request.correlationId (selection request) = .ok (.selected reneeBanner) := by
  have hcorrelated : ¬(selection request).correlationId ≠ request.correlationId := not_not.mpr rfl
  rw [observe, if_neg hcorrelated, if_pos ⟨rfl, rfl⟩]
  dsimp only [selection]
  rw [decodeGreeting_greetingPayload]
  exact if_neg (not_not.mpr rfl)

theorem NegotiationModel.hello_of_awaiting {model : NegotiationModel} (h : model.state ≠ .ready)
    (hello : ClientHello) : model.hello hello =
      if hello.version ≠ version then (.unsupportedVersion, model)
      else if hello.profile ≠ profile then (.unsupportedProfile, model)
      else (.selected reneeBanner, ⟨.ready⟩) := if_neg h

/-- **The daemon refines the model.**  Of the answer to a hello the outcome of the model is
observed, and the profile is selected exactly when the model becomes ready. -/
theorem negotiate_hello (model : NegotiationModel) (h : helloOf request = some hello) :
    ∃ response, negotiate request (model.state = .ready) = .ok response ∧
      observe request.correlationId response = .ok (model.hello hello).1.observed ∧
      ((model.hello hello).2.state = .ready ↔
        model.state = .ready ∨ response.messageType = serverHello) := by
  have hreject : protocolError ≠ serverHello := by decide
  by_cases hready : model.state = .ready
  · rw [decide_eq_true hready, NegotiationModel.hello, if_pos hready]
    refine ⟨_, negotiate_negotiated request, ?_, by simp [hready]⟩
    rw [observe_rejection]
    rfl
  · rw [decide_eq_false hready, NegotiationModel.hello_of_awaiting hready]
    refine ⟨_, negotiate_of_hello h, ?_⟩
    by_cases hversion : hello.version ≠ version
    · rw [if_pos hversion, if_pos hversion, observe_rejection]
      exact ⟨rfl, by simp [hready, rejection, hreject]⟩
    · rw [if_neg hversion, if_neg hversion]
      by_cases hprofile : hello.profile ≠ profile
      · rw [if_pos hprofile, if_pos hprofile, observe_rejection]
        exact ⟨rfl, by simp [hready, rejection, hreject]⟩
      · rw [if_neg hprofile, if_neg hprofile, observe_selection]
        exact ⟨rfl, by simp [selection]⟩

end Renee.Session
