import TplBackend.Auth.Service
import TplBackend.Library.Expiring
import TplBackend.Library.Run

namespace TplBackend

open Keyed Raise Text Transition Url

inductive Stored
  | transaction (t : Transaction)
  | session (b : BrowserSession)

def Stored.transaction? : Stored → Option Transaction
  | .transaction t => some t
  | .session _ => none

/-- The variables of a `complete_login` that took its transaction. -/
structure Login (U : Platform) where
  service : AuthService U
  code : Str
  state : Str
  transactionId : Str
  nonce : Str
  codeVerifier : Str
  returnTo : Str

/-- What a call waits for. -/
inductive AuthCall (U : Platform)
  | idle
  /-- `begin_login`: the authorization URL -/
  | linking (key transactionId : Str)
  /-- `begin_login`: the deletion after that URL failed -/
  | unlinking (key : Str)
  /-- `complete_login`: `exchange_authorization_code` -/
  | exchanging (login : Login U)
  /-- `complete_login`: the user directory -/
  | upserting (login : Login U) (draft : Draft)
  /-- `complete_login`: the creation of the session -/
  | opening (login : Login U) (session : BrowserSession) (sessionId : Str) (ttl : Int)
  /-- `get_browser_session`: the deletion of a session that is not valid -/
  | invalidating (key : Str)
  | ended

structure World (U : Platform) where
  store : Store Str Stored
  calls : Nat → AuthCall U
  /-- Every secret drawn so far. -/
  secrets : List Str

/-- One step of a call: from one `await` to the next, with the arguments of the call or the answer
it waited for, the secrets it draws and the clock it reads. -/
inductive Action (U : Platform)
  | beginLogin (call : Nat) (svc : AuthService U) (returnTo : Option Str) (mode : Str)
      (transactionId state nonce : Secret 43) (codeVerifier : Secret 86) (now : Clock)
  | linked (call : Nat) (built : Bool)
  | unlink (call : Nat)
  | completeLogin (call : Nat) (svc : AuthService U) (code state : Str) (transactionId : Option Str)
      (now : Clock)
  | exchanged (call : Nat) (claims : Option Claims) (now : Clock)
  | upserted (call : Nat) (id : Option Uuid) (sessionId csrfToken : Secret 43) (now : Clock)
  | createSession (call : Nat) (now : Clock)
  | cancelLogin (svc : AuthService U) (transactionId : Option Str)
  | getBrowserSession (call : Nat) (svc : AuthService U) (sessionId : Option Str) (now clock : Clock)
  | invalidate (call : Nat)
  | deleteSession (svc : AuthService U) (sessionId : Option Str)
  | endSession (svc : AuthService U) (sessionId : Option Str) (state : Secret 22)
  | expire (key : Str) (now : Clock)

def Action.secrets {U : Platform} : Action U → List Str
  | .beginLogin _ _ _ _ transactionId state nonce codeVerifier _ =>
    [transactionId.text, state.text, nonce.text, codeVerifier.text]
  | .upserted _ _ sessionId csrfToken _ => [sessionId.text, csrfToken.text]
  | .endSession _ _ state => [state.text]
  | _ => []

inductive Outcome
  | awaits
  | raised (error : AuthError)
  | started (transactionId : Str)
  | exchanges (code codeVerifier nonce : Str)
  | completed (sessionId : Str) (expiresAt : Clock) (returnTo : Str)
  | session (result : Option BrowserSession)
  | done

/-- `if not id or len(id) > 256` the id is not looked up. -/
def presented (id : Option Str) : Option Str :=
  id.filter fun id => decide (id ≠ [] ∧ id.length ≤ 256)

variable {U : Platform}

namespace AuthService

/-- `complete_login` from the taken value to the exchange. -/
def checkTransaction (svc : AuthService U) (code state transactionId : Str) (raw : Option Stored) :
    Except AuthError (Login U) := do
  let t ← expect (raw.bind Stored.transaction?) transactionError
  let returnTo ← (svc.normalizeReturnTo (some t.returnTo)).mapError AuthError.valueError
  require (t.surface = svc.surface) transactionError
  -- `hmac.compare_digest` takes no other texts
  require (t.state.all isAscii = true ∧ state.all isAscii = true) AuthError.typeError
  require (t.state = state) transactionError
  return {
    service := svc
    code
    state
    transactionId
    nonce := t.nonce
    codeVerifier := t.codeVerifier
    returnTo }

/-- The result of `get_browser_session`, and whether it deletes what it read. -/
def checkSession (svc : AuthService U) (raw : Option Stored) (clock : Clock) :
    Option BrowserSession × Bool :=
  match raw with
  | none => (none, false)
  | some (.transaction _) => (none, true)
  | some (.session session) =>
    if session.principal.expiresAt ≤ clock then (none, true)
    else if !svc.matchesProfile session.principal then (none, true)
    else (some session, false)

end AuthService

namespace World

/-- The call goes on with `phase`, or ends with what was raised. -/
def proceed {α : Type} (w : World U) (call : Nat) (result : Except AuthError α)
    (next : α → Outcome × AuthCall U) : Outcome × World U :=
  match result with
  | .error raised => (.raised raised, { w with calls := Function.update w.calls call .ended })
  | .ok a => ((next a).1, { w with calls := Function.update w.calls call (next a).2 })

def ends (w : World U) (call : Nat) (outcome : Outcome) : Outcome × World U :=
  (outcome, { w with calls := Function.update w.calls call .ended })

/-- The step of the call itself; `none` where the call is not waiting for it. -/
def react (py : Builtins) (w : World U) : Action U → Option (Outcome × World U)
  | .beginLogin call svc returnTo mode transactionId state nonce codeVerifier now =>
    match w.calls call with
    | .idle => some <|
      if !svc.modeAllowed mode then w.ends call (.raised AuthService.transactionError)
      else
        match svc.normalizeReturnTo returnTo with
        | .error msg => w.ends call (.raised (.valueError msg))
        | .ok returnTo =>
          let key := svc.transactionKey transactionId.text
          let (stored, store) := w.store.create key
            (.transaction {
              surface := svc.surface
              state := state.text
              nonce := nonce.text
              codeVerifier := codeVerifier.text
              returnTo
              createdAt := wholeSeconds now })
            (seconds svc.settings.authTransactionTtlSeconds) now
          { w with store }.proceed call
            (require (stored = true) AuthService.transactionError) fun _ =>
              (.awaits, .linking key transactionId.text)
    | _ => none
  | .linked call built =>
    match w.calls call with
    | .linking key transactionId => some <|
      if built then w.ends call (.started transactionId)
      else (.awaits, { w with calls := Function.update w.calls call (.unlinking key) })
    | _ => none
  | .unlink call =>
    match w.calls call with
    | .unlinking key =>
      some ({ w with store := w.store.delete key }.ends call (.raised .external))
    | _ => none
  | .completeLogin call svc code state transactionId now =>
    match w.calls call with
    | .idle => some <|
      match presented transactionId with
      | none => w.ends call (.raised AuthService.transactionError)
      | some id =>
        let (raw, store) := w.store.take (svc.transactionKey id) now
        { w with store }.proceed call (svc.checkTransaction code state id raw) fun login =>
          (.exchanges login.code login.codeVerifier login.nonce, .exchanging login)
    | _ => none
  | .exchanged call claims now =>
    match w.calls call with
    | .exchanging login => some <|
      match claims with
      | none => w.ends call (.raised .external)
      | some claims =>
        w.proceed call (login.service.principalDraft py claims now) fun draft =>
          (.awaits, .upserting login draft)
    | _ => none
  | .upserted call id sessionId csrfToken now =>
    match w.calls call with
    | .upserting login draft => some <|
      match id with
      | none => w.ends call (.raised .external)
      | some id =>
        w.proceed call (do
          BrowserSession.validate (← login.service.principalOf draft id) csrfToken.text) fun session =>
            (.awaits, .opening login session sessionId.text
              (max 1 ((session.principal.expiresAt - now).tdiv 1000000)))
    | _ => none
  | .createSession call now =>
    match w.calls call with
    | .opening login session sessionId ttl => some <|
      let (stored, store) := w.store.create (login.service.sessionKey sessionId)
        (.session session) (seconds ttl) now
      { w with store }.ends call <|
        if stored then .completed sessionId session.principal.expiresAt login.returnTo
        else .raised (.unauthorized "The session could not be created" "session_expired")
    | _ => none
  | .cancelLogin svc transactionId => some (.done, { w with
      store := (presented transactionId).elim w.store fun id =>
        w.store.delete (svc.transactionKey id) })
  | .getBrowserSession call svc sessionId now clock =>
    match w.calls call with
    | .idle => some <|
      match presented sessionId with
      | none => w.ends call (.session none)
      | some id =>
        let key := svc.sessionKey id
        let (result, invalid) := svc.checkSession (w.store.read key now) clock
        (.session result, { w with
          calls := Function.update w.calls call (if invalid then .invalidating key else .ended) })
    | _ => none
  | .invalidate call =>
    match w.calls call with
    | .invalidating key =>
      some ({ w with store := w.store.delete key }.ends call (.session none))
    | _ => none
  | .deleteSession svc sessionId | .endSession svc sessionId _ => some (.done, { w with
      store := (presented sessionId).elim w.store fun id => w.store.delete (svc.sessionKey id) })
  | .expire key now => some (.done, { w with store := w.store.expire key now })

def perform (py : Builtins) (w : World U) (a : Action U) : Option (Outcome × World U) :=
  { w with secrets := a.secrets ++ w.secrets }.react py a

def init : World U := ⟨Table.empty, fun _ => .idle, []⟩

def Step (py : Builtins) (w : World U) (a : Action U) (w' : World U) : Prop :=
  a.secrets.Nodup ∧ (∀ secret ∈ a.secrets, secret ∉ w.secrets) ∧
    (w.perform py a).map Prod.snd = some w'

def outcome (py : Builtins) (event : Event (World U) (Action U)) : Option Outcome :=
  (event.before.perform py event.label).map Prod.fst

end World

end TplBackend
