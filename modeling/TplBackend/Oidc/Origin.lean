import TplBackend.Oidc.Client

namespace TplBackend

open Raise Text Transition Url

variable {U : Platform} {settings : Settings} {κ : Type} {importKeySet : Json → Imported κ}
variable {w w' : Provider κ} {a : OidcAction} {history : List (Event (Provider κ) OidcAction)}

/-- The URL is on the HTTPS origin of the provider, with no credentials and no fragment. -/
def OnOrigin (U : Platform) (settings : Settings) (url : Str) : Prop :=
  ∃ parts endpoint port, urlsplit U url = some parts ∧
    urlsplit U settings.casdoorEndpoint = some endpoint ∧ parts.scheme = "https".toList ∧
    parts.hostname U ≠ [] ∧ U.lower (parts.hostname U) = U.lower (endpoint.hostname U) ∧
    parts.port = some port ∧ endpoint.port = some port ∧ parts.username = [] ∧
    parts.password = [] ∧ parts.fragment = []

/-- What `_validate_provider_url` asks of a URL and of the endpoint before it compares the ports. -/
structure Addressed (U : Platform) (settings : Settings) (parts endpoint : SplitResult) : Prop where
  web : parts.scheme ∈ webSchemes ∧ parts.hostname U ≠ []
  bare : parts.username = [] ∧ parts.password = [] ∧ parts.fragment = []
  https : settings.isProduction = true → parts.scheme = "https".toList
  host : endpoint.hostname U ≠ [] ∧ U.lower (parts.hostname U) = U.lower (endpoint.hostname U)

/-- The URL passes `_validate_provider_url`. -/
def Fits (U : Platform) (settings : Settings) (url : Str) : Prop :=
  ∃ parts endpoint port, urlsplit U url = some parts ∧
    urlsplit U settings.casdoorEndpoint = some endpoint ∧ Addressed U settings parts endpoint ∧
    parts.port = some port ∧ endpoint.port = some port

/-- The request goes to this URL, or to the back-channel with its path and query and the host of
the provider. -/
def Reaches (U : Platform) (settings : Settings) (url : Str) (request : OidcRequest) : Prop :=
  (settings.backchannel? = none ∧ request = ⟨url, none⟩) ∨
    ∃ configured backchannel public_ endpoint, settings.backchannel? = some configured ∧
      urlsplit U configured = some backchannel ∧ urlsplit U url = some public_ ∧
      urlsplit U settings.casdoorEndpoint = some endpoint ∧
      urlsplit U request.url =
        some ⟨backchannel.scheme, backchannel.netloc, public_.path, public_.query, []⟩ ∧
      request.host = some endpoint.netloc

def OidcAction.target (settings : Settings) : OidcAction → Option Str
  | .getMetadata .. => some settings.casdoorDiscoveryEndpoint
  | .getKeySet _ metadata .. => some metadata.jwksUri
  | .postToken _ metadata => some metadata.tokenEndpoint
  | _ => none

section Checks

variable {value : Json} {field : String} {url : Str}

theorem Fits.ne_nil (fits : Fits U settings url) : url ≠ [] := by
  rintro rfl
  obtain ⟨parts, _, _, split, _, addressed, _⟩ := fits
  cases split
  exact absurd addressed.web.1 (by decide)

theorem Fits.onOrigin (production : settings.isProduction = true) (fits : Fits U settings url) :
    OnOrigin U settings url := by
  obtain ⟨parts, endpoint, port, split, split', addressed, ported, ported'⟩ := fits
  exact ⟨parts, endpoint, port, split, split', addressed.https production, addressed.web.2,
    addressed.host.2, ported, ported', addressed.bare⟩

theorem validateProviderUrl_ok :
    settings.validateProviderUrl U value field = .ok url ↔ value = .str url ∧ Fits U settings url := by
  constructor
  · intro valid
    unfold Settings.validateProviderUrl at valid
    split at valid
    · simp only [bind_ok, expect_ok, require_ok, pure_ok] at valid
      obtain ⟨parts, split, endpoint, split', _, web, _, bare, _, https, _, host, port, ported, _,
        ported', _, rfl, rfl⟩ := valid
      exact ⟨rfl, parts, endpoint, port, split, split', ⟨web, bare, https, host⟩, ported, ported'⟩
    · cases valid
  · rintro ⟨rfl, fits⟩
    obtain ⟨c, rest, rfl⟩ := List.exists_cons_of_ne_nil fits.ne_nil
    obtain ⟨parts, endpoint, port, split, split', ⟨web, bare, https, host⟩, ported, ported'⟩ := fits
    simp only [Settings.validateProviderUrl, bind_ok, expect_ok, require_ok, pure_ok]
    exact ⟨parts, split, endpoint, split', (), web, (), bare, (), https, (), host, port, ported, port,
      ported', (), rfl, trivial⟩

theorem backchannelTarget_ok {request : OidcRequest} (production : settings.isProduction = true)
    (made : settings.backchannelTarget U url field = .ok request) :
    OnOrigin U settings url ∧ Reaches U settings url request := by
  obtain ⟨url', valid, made⟩ := bind_ok.mp made
  obtain ⟨same, fits⟩ := validateProviderUrl_ok.mp valid
  cases same
  have confined := fits.onOrigin production
  refine ⟨confined, ?_⟩
  split at made
  · rename_i none_
    rw [pure_ok] at made
    exact Or.inl ⟨none_, made.symm⟩
  · rename_i configured some_
    simp only [bind_ok, expect_ok, require_ok, pure_ok] at made
    obtain ⟨backchannel, split, _, ⟨web, named, _⟩, public_, split', endpoint, split'', rfl⟩ := made
    obtain ⟨parts, _, _, split₂, _, _, named₂, _⟩ := confined
    cases Option.some.inj (split'.symm.trans split₂)
    exact Or.inr ⟨configured, backchannel, public_, endpoint, some_, split, split', split'',
      urlsplit_urlunsplit (wellsplit_of_urlsplit split) (wellsplit_of_urlsplit split') web
        (netloc_of_hostname named) (netloc_of_hostname named₂), rfl⟩

theorem validateOptionalUrl_ok (valid : settings.validateOptionalUrl U value field = .ok (some url)) :
    Fits U settings url := by
  unfold Settings.validateOptionalUrl at valid
  split at valid
  · cases valid
  · cases checked : settings.validateProviderUrl U value field with
    | error error =>
        rw [checked] at valid
        cases valid
    | ok found =>
        rw [checked] at valid
        cases valid
        exact (validateProviderUrl_ok.mp checked).2

/-- The document is validated field by field before anything is assigned. -/
theorem metadataOf_ok {payload : Claims} {m : OidcMetadata}
    (made : settings.metadataOf U payload = .ok m) : ∀ url ∈ m.urls, Fits U settings url := by
  simp only [Settings.metadataOf, bind_ok, pure_ok] at made
  obtain ⟨issuer, first, authorization, second, token, third, jwks, fourth, endSession, fifth, rfl⟩ :=
    made
  intro url member
  simp only [OidcMetadata.urls, List.cons_append, List.nil_append, List.mem_cons,
    Option.mem_toList] at member
  rcases member with rfl | rfl | rfl | rfl | given
  · exact (validateProviderUrl_ok.mp first).2
  · exact (validateProviderUrl_ok.mp second).2
  · exact (validateProviderUrl_ok.mp third).2
  · exact (validateProviderUrl_ok.mp fourth).2
  · subst given
    exact validateOptionalUrl_ok fifth

theorem readDiscovery_ok {answer : Answer} {m : OidcMetadata}
    (read : settings.readDiscovery U answer = .ok m) : ∀ url ∈ m.urls, Fits U settings url := by
  unfold Settings.readDiscovery at read
  split at read
  · cases read
  · cases read
  · split at read
    · cases read
    · split at read
      · cases read
      · cases read
      · exact metadataOf_ok read
      · cases read

end Checks

namespace Provider

inductive Did (U : Platform) (settings : Settings) (importKeySet : Json → Imported κ)
    (w : Provider κ) (a : OidcAction) : OidcOutcome κ × Provider κ → Prop
  | cached {m : OidcMetadata} {w' : Provider κ} : w.client.metadata = some m → w'.client = w.client →
      Did U settings importKeySet w a (.metadata m, w')
  | discovered {call : Nat} {answer : Answer} {m : OidcMetadata} {now : Clock} {w' : Provider κ} :
      a = .discovered call answer → settings.readDiscovery U answer = .ok m →
      w'.client = { w.client with metadata := some m, metadataLoadedAt := now } →
      Did U settings importKeySet w a (.metadata m, w')
  | cachedKeys {k : κ} {w' : Provider κ} : w'.client = w.client →
      Did U settings importKeySet w a (.keySet k, w')
  | fetched {call : Nat} {answer : Answer} {k : κ} {now : Clock} {w' : Provider κ} :
      a = .fetched call answer → readKeySet importKeySet answer = .ok k →
      w'.client = { w.client with keySet := some k, keysLoadedAt := now } →
      Did U settings importKeySet w a (.keySet k, w')
  | sent {url : Str} {field : String} {request : OidcRequest} {w' : Provider κ} :
      a.target settings = some url → settings.backchannelTarget U url field = .ok request →
      w'.client = w.client → Did U settings importKeySet w a (.sends request, w')
  | raised {error : OidcError} {w' : Provider κ} : w'.client = w.client →
      Did U settings importKeySet w a (.raised error, w')

theorem send_did {call : Nat} {url : Str} {field : String} {target : Except OidcError OidcRequest}
    {phase : OidcCall} (wants : a.target settings = some url)
    (reaches : ∀ request, target = .ok request → settings.backchannelTarget U url field = .ok request) :
    Did U settings importKeySet w a (w.send call target phase) := by
  cases sent : target with
  | error error => exact .raised rfl
  | ok request => exact .sent wants (reaches request sent) rfl

theorem cachedMetadata_some {client : OidcProviderClient κ} {force : Bool} {now : Clock}
    {m : OidcMetadata} (cached : client.cachedMetadata settings force now = some m) :
    client.metadata = some m := by
  unfold OidcProviderClient.cachedMetadata at cached
  split at cached
  · exact cached
  · cases cached

theorem react_did {result : OidcOutcome κ × Provider κ}
    (reacted : react U settings importKeySet w a = some result) :
    Did U settings importKeySet w a result := by
  cases a with
  | getMetadata call forceRefresh now =>
      simp only [react] at reacted
      split at reacted
      · cases reacted
        split
        · rename_i m cached
          exact .cached (cachedMetadata_some cached) rfl
        · exact send_did rfl fun request made => (bind_ok.mp made).elim fun _ ran => ran.2
      · cases reacted
  | discovered call answer =>
      simp only [react] at reacted
      split at reacted
      · cases reacted
        split
        · exact .raised rfl
        · rename_i m read
          exact .discovered rfl read rfl
      · cases reacted
  | getKeySet call metadata forceRefresh now =>
      simp only [react] at reacted
      split at reacted
      · cases reacted
        split
        · exact .cachedKeys rfl
        · exact send_did rfl fun _ made => made
      · cases reacted
  | fetched call answer =>
      simp only [react] at reacted
      split at reacted
      · cases reacted
        split
        · exact .raised rfl
        · rename_i k read
          exact .fetched rfl read rfl
      · cases reacted
  | postToken call metadata =>
      simp only [react] at reacted
      split at reacted
      · cases reacted
        exact send_did rfl fun _ made => made
      · cases reacted

theorem step_did (step : Step U settings importKeySet w a w') :
    ∃ said, Did U settings importKeySet w a (said, w') := by
  obtain ⟨result, reacted, rfl⟩ := Option.map_eq_some_iff.mp step
  exact ⟨result.1, react_did reacted⟩

theorem outcome_did {event : Event (Provider κ) OidcAction} {said : OidcOutcome κ}
    (step : Step U settings importKeySet event.before event.label event.after)
    (told : outcome U settings importKeySet event = some said) :
    Did U settings importKeySet event.before event.label (said, event.after) := by
  obtain ⟨result, reacted, same⟩ := Option.map_eq_some_iff.mp step
  obtain ⟨result', reacted', rfl⟩ := Option.map_eq_some_iff.mp told
  cases Option.some.inj (reacted.symm.trans reacted')
  exact same ▸ react_did reacted

def Remembered (U : Platform) (settings : Settings) (w : Provider κ) : Prop :=
  ∀ m, w.client.metadata = some m → ∀ url ∈ m.urls, Fits U settings url

theorem step_remembered (remembered : Remembered U settings w)
    (step : Step U settings importKeySet w a w') : Remembered U settings w' := by
  intro m found
  obtain ⟨said, did⟩ := step_did step
  cases did with
  | cached _ same => exact remembered m (same ▸ found)
  | discovered _ read same =>
      rw [same] at found
      exact readDiscovery_ok (read.trans (congrArg _ (Option.some.inj found)))
  | cachedKeys same => exact remembered m (same ▸ found)
  | fetched _ _ same =>
      rw [same] at found
      exact remembered m found
  | sent _ _ same => exact remembered m (same ▸ found)
  | raised same => exact remembered m (same ▸ found)

theorem run_remembered (run : Run (Step U settings importKeySet) init history w) :
    Remembered U settings w :=
  run.invariant (fun _ none_ => by cases none_) fun _ _ _ remembered step =>
    step_remembered remembered step

def Cached (U : Platform) (settings : Settings) (w : Provider κ) : Prop :=
  ∀ m, w.client.metadata = some m → ∀ url ∈ m.urls, OnOrigin U settings url

theorem run_cached (production : settings.isProduction = true)
    (run : Run (Step U settings importKeySet) init history w) : Cached U settings w :=
  fun m found url member => (run_remembered run m found url member).onOrigin production

def Remembers (U : Platform) (settings : Settings) (importKeySet : Json → Imported κ)
    (event : Event (Provider κ) OidcAction) : Prop :=
  (∃ call answer m now, event.label = .discovered call answer ∧
    settings.readDiscovery U answer = .ok m ∧
    event.after.client = { event.before.client with metadata := some m, metadataLoadedAt := now }) ∨
  ∃ call answer k now, event.label = .fetched call answer ∧ readKeySet importKeySet answer = .ok k ∧
    event.after.client = { event.before.client with keySet := some k, keysLoadedAt := now }

/-- In production, whatever the provider answers and in whatever order, the metadata cached or
returned stay on the origin of the provider, every request goes to a URL of that origin or through
the back-channel under its host, and only an answer that passes every check changes what is
cached. -/
theorem provider_confined (production : settings.isProduction = true)
    (run : Run (Step U settings importKeySet) init history w) :
    Cached U settings w ∧
    (∀ event ∈ history, ∀ m, outcome U settings importKeySet event = some (.metadata m) →
      ∀ url ∈ m.urls, OnOrigin U settings url) ∧
    (∀ event ∈ history, ∀ request, outcome U settings importKeySet event = some (.sends request) →
      ∃ url, event.label.target settings = some url ∧ OnOrigin U settings url ∧
        Reaches U settings url request) ∧
    (∀ event ∈ history, ∀ error, outcome U settings importKeySet event = some (.raised error) →
      event.after.client = event.before.client) ∧
    ∀ event ∈ history, event.after.client = event.before.client ∨
      Remembers U settings importKeySet event := by
  refine ⟨run_cached production run, fun event member m told => ?_, fun event member request told => ?_,
    fun event member error told => ?_, fun event member => ?_⟩
  · obtain ⟨_, _, _, reached, step⟩ := run.of_mem member
    cases outcome_did step told with
    | cached found _ => exact run_cached production reached m found
    | discovered _ read _ => exact fun url member => (readDiscovery_ok read url member).onOrigin production
  · obtain ⟨_, _, _, _, step⟩ := run.of_mem member
    cases outcome_did step told with
    | sent wants made _ => exact ⟨_, wants, backchannelTarget_ok production made⟩
  · obtain ⟨_, _, _, _, step⟩ := run.of_mem member
    cases outcome_did step told with
    | raised same => exact same
  · obtain ⟨_, _, _, _, step⟩ := run.of_mem member
    obtain ⟨said, did⟩ := step_did step
    cases did with
    | cached _ same => exact Or.inl same
    | discovered label read same => exact Or.inr (Or.inl ⟨_, _, _, _, label, read, same⟩)
    | cachedKeys same => exact Or.inl same
    | fetched label read same => exact Or.inr (Or.inr ⟨_, _, _, _, label, read, same⟩)
    | sent _ _ same => exact Or.inl same
    | raised same => exact Or.inl same

def discoverySteps : List OidcAction :=
  [.getMetadata 0 false 0,
    .discovered 0 (.response 200 (.value (.obj
      [("issuer".toList, .str "https://id.example".toList),
        ("authorization_endpoint".toList, .str "https://id.example/authorize".toList),
        ("token_endpoint".toList, .str "https://id.example/token".toList),
        ("jwks_uri".toList, .str "https://ID.example/jwks".toList)])))]

def noKeys : Json → Imported Unit := fun _ => .refused

def sampleNext (w : Provider Unit) (a : OidcAction) : Option (Provider Unit) :=
  (react Settings.asciiPlatform Settings.sampleSettings noKeys w a).map Prod.snd

def discoveryEnd : Provider Unit :=
  discoverySteps.foldl (fun w a => (sampleNext w a).getD w) init

theorem discovery_run : Run (Step Settings.asciiPlatform Settings.sampleSettings noKeys) init
    (trace (fun w a => (sampleNext w a).getD w) init discoverySteps) discoveryEnd :=
  Run.of_taken (by decide)

theorem provider_confined_sample : ∃ m, discoveryEnd.client.metadata = some m ∧
    ∀ url ∈ m.urls, OnOrigin Settings.asciiPlatform Settings.sampleSettings url :=
  ⟨_, rfl, (provider_confined rfl discovery_run).1 _ rfl⟩

end Provider

end TplBackend
