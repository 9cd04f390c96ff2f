import TplBackend.Oidc.Client

/-! `_decode_signed_token`: the keys under which a token is decided. -/

namespace TplBackend

open Raise Text Transition Url

/-- What `jwt.decode` makes of a token under a key set. -/
inductive Decoded
  | claims (c : Claims)
  /-- `JoseError`, `ValueError` or `TypeError` -/
  | refused
  | raises

/-- Where a `_decode_signed_token` is in its loop. -/
inductive DecodeCall
  | idle
  | turn (encoded : Str) (metadata : OidcMetadata) (refresh : Bool)
  /-- The request of its `_get_key_set` is under way. -/
  | waits (encoded : Str) (metadata : OidcMetadata) (refresh : Bool) (call : Nat)
  | ended

structure Decoder (κ : Type) where
  provider : Provider κ
  decodes : Nat → DecodeCall

/-- One step: a token comes in, its `_get_key_set` reads the clock, or gets its answer; or a step of
any other coroutine of the client. -/
inductive DecodeAction
  | begin (decode : Nat) (encoded : Str) (metadata : OidcMetadata)
  | ask (decode call : Nat) (now : Clock)
  | answered (decode : Nat) (answer : Answer)
  | client (action : OidcAction)

inductive DecodeOutcome
  | goesOn
  | accepted (c : Claims)
  | tokenInvalid
  | raised (error : OidcError)

namespace Decoder

variable {κ : Type} (U : Platform) (settings : Settings) (importKeySet : Json → Imported κ)
variable (decode : Str → κ → Decoded)

def put (w : Decoder κ) (d : Nat) (phase : DecodeCall) : Decoder κ :=
  { w with decodes := Function.update w.decodes d phase }

def next (encoded : Str) (metadata : OidcMetadata) (refresh : Bool) : DecodeOutcome × DecodeCall :=
  if refresh then (.tokenInvalid, .ended) else (.goesOn, .turn encoded metadata true)

/-- The body of the loop from what its `_get_key_set` did. -/
def conclude (encoded : Str) (metadata : OidcMetadata) (refresh : Bool) (call : Nat) :
    OidcOutcome κ → DecodeOutcome × DecodeCall
  | .keySet k =>
    match decode encoded k with
    | .claims c => (.accepted c, .ended)
    | .refused => next encoded metadata refresh
    | .raises => (.raised .external, .ended)
  | .raised (.valueError _) => next encoded metadata refresh
  | .raised error => (.raised error, .ended)
  | .sends _ | .metadata _ => (.goesOn, .waits encoded metadata refresh call)

/-- What a step does; `none` where the token is not waiting for it. -/
def react (w : Decoder κ) : DecodeAction → Option (DecodeOutcome × Decoder κ)
  | .begin d encoded metadata =>
    match w.decodes d with
    | .idle => some (.goesOn, w.put d (.turn encoded metadata false))
    | _ => none
  | .ask d call now =>
    match w.decodes d with
    | .turn encoded metadata refresh =>
      (w.provider.react U settings importKeySet (.getKeySet call metadata refresh now)).map
        fun (said, provider) =>
          let (told, phase) := conclude decode encoded metadata refresh call said
          (told, { w with provider }.put d phase)
    | _ => none
  | .answered d answer =>
    match w.decodes d with
    | .waits encoded metadata refresh call =>
      (w.provider.react U settings importKeySet (.fetched call answer)).map fun (said, provider) =>
        let (told, phase) := conclude decode encoded metadata refresh call said
        (told, { w with provider }.put d phase)
    | _ => none
  | .client a =>
    (w.provider.react U settings importKeySet a).map fun (_, provider) =>
      (.goesOn, { w with provider })

def init : Decoder κ := ⟨Provider.init, fun _ => .idle⟩

def Step (w : Decoder κ) (a : DecodeAction) (w' : Decoder κ) : Prop :=
  (w.react U settings importKeySet decode a).map Prod.snd = some w'

def outcome (event : Event (Decoder κ) DecodeAction) : Option DecodeOutcome :=
  (event.before.react U settings importKeySet decode event.label).map Prod.fst

def answers (w : Decoder κ) : DecodeAction → Option (Clock × Answer)
  | .client (.fetched call answer) =>
    match w.provider.calls call with
    | .fetching now => some (now, answer)
    | _ => none
  | .answered d answer =>
    match w.decodes d with
    | .waits _ _ _ call =>
      match w.provider.calls call with
      | .fetching now => some (now, answer)
      | _ => none
    | _ => none
  | _ => none

/-- The documents of the key requests are what the provider published, each at some time after it was
asked for; they come in any order. -/
def Serves (published : Clock → Json) (history : List (Event (Decoder κ) DecodeAction)) : Prop :=
  ∀ event ∈ history, ∀ now status payload,
    event.before.answers event.label = some (now, .response status (.value payload)) →
    ∃ u, now ≤ u ∧ published u = payload

def Asks (history : List (Event (Decoder κ) DecodeAction)) (d : Nat) (encoded : Str)
    (metadata : OidcMetadata) (refresh : Bool) (now : Clock) : Prop :=
  ∃ event ∈ history, ∃ call, event.label = .ask d call now ∧
    event.before.decodes d = .turn encoded metadata refresh

def Begun (history : List (Event (Decoder κ) DecodeAction)) (d : Nat) (encoded : Str)
    (metadata : OidcMetadata) : Prop :=
  ∃ event ∈ history, event.label = .begin d encoded metadata

end Decoder

def DecodeAction.decode? : DecodeAction → Option Nat
  | .begin d .. | .ask d .. | .answered d _ => some d
  | .client _ => none

section Provider

variable {U : Platform} {settings : Settings} {κ : Type} {importKeySet : Json → Imported κ}
variable {w w' : Provider κ} {call : Nat} {said : OidcOutcome κ}

theorem readKeySet_ok {answer : Answer} {k : κ} (read : readKeySet importKeySet answer = .ok k) :
    ∃ status payload, answer = .response status (.value payload) ∧ importKeySet payload = .keys k := by
  unfold readKeySet at read
  split at read
  · cases read
  · cases read
  · split at read
    · cases read
    · split at read
      · cases read
      · cases read
      · split at read
        · rename_i imported
          cases read
          exact ⟨_, _, rfl, imported⟩
        · cases read
        · cases read

theorem readKeySet_error {answer : Answer} {error : OidcError}
    (read : readKeySet importKeySet answer = .error error) : ∀ msg, error ≠ .valueError msg := by
  intro msg same
  subst same
  unfold readKeySet at read
  split at read
  · cases read
  · cases read
  · split at read
    · cases read
    · split at read
      · cases read
      · cases read
      · split at read <;> cases read

theorem cachedKeySet_some {client : OidcProviderClient κ} {refresh : Bool} {now : Clock} {k : κ}
    (cached : client.cachedKeySet settings refresh now = some k) : client.keySet = some k ∧
      now - client.keysLoadedAt < seconds settings.authJwksCacheSeconds ∧ refresh = false := by
  unfold OidcProviderClient.cachedKeySet at cached
  split at cached
  · rename_i fresh
    simp only [Bool.and_eq_true, Bool.not_eq_true', decide_eq_true_eq] at fresh
    exact ⟨cached, fresh.2, fresh.1⟩
  · cases cached

theorem getKeySet_spec {metadata : OidcMetadata} {refresh : Bool} {now : Clock}
    (ran : w.react U settings importKeySet (.getKeySet call metadata refresh now) = some (said, w')) :
    w.calls call = .idle ∧ w'.client = w.client ∧
      ((∃ k, said = .keySet k ∧ w' = w.put call .ended ∧ w.client.keySet = some k ∧
          now - w.client.keysLoadedAt < seconds settings.authJwksCacheSeconds ∧ refresh = false) ∨
        (∃ error, said = .raised error ∧ w' = w.put call .ended ∧
          settings.backchannelTarget U metadata.jwksUri "jwks_uri" = .error error) ∨
        ∃ request, said = .sends request ∧ w' = w.put call (.fetching now)) := by
  simp only [Provider.react] at ran
  split at ran
  · rename_i idle
    refine ⟨idle, ?_⟩
    split at ran
    · rename_i k cached
      cases ran
      exact ⟨rfl, Or.inl ⟨k, rfl, rfl, cachedKeySet_some cached⟩⟩
    · cases target : settings.backchannelTarget U metadata.jwksUri "jwks_uri" with
      | error error =>
          rw [target] at ran
          cases ran
          exact ⟨rfl, Or.inr (Or.inl ⟨error, rfl, rfl, rfl⟩)⟩
      | ok request =>
          rw [target] at ran
          cases ran
          exact ⟨rfl, Or.inr (Or.inr ⟨request, rfl, rfl⟩)⟩
  · cases ran

theorem fetched_spec {answer : Answer}
    (ran : w.react U settings importKeySet (.fetched call answer) = some (said, w')) :
    ∃ now, w.calls call = .fetching now ∧ w'.calls = (w.put call .ended).calls ∧
      ((∃ error, readKeySet importKeySet answer = .error error ∧ said = .raised error ∧
          w'.client = w.client) ∨
        ∃ k, readKeySet importKeySet answer = .ok k ∧ said = .keySet k ∧
          w'.client = { w.client with keySet := some k, keysLoadedAt := now }) := by
  simp only [Provider.react] at ran
  split at ran
  · rename_i now fetching
    refine ⟨now, fetching, ?_⟩
    split at ran
    · rename_i error read
      cases ran
      exact ⟨rfl, Or.inl ⟨error, read, rfl, rfl⟩⟩
    · rename_i k read
      cases ran
      exact ⟨rfl, Or.inr ⟨k, read, rfl, rfl⟩⟩
  · cases ran

theorem put_calls (w : Provider κ) (call : Nat) (phase : OidcCall) (c : Nat) :
    (w.put call phase).calls c = w.calls c ∨
      c = call ∧ (w.put call phase).calls c = phase := by
  by_cases same : c = call
  · subst same
    exact Or.inr ⟨rfl, Function.update_self ..⟩
  · exact Or.inl (Function.update_of_ne same ..)

def Moves (w w' : Provider κ) (a : OidcAction) (c : Nat) : Prop :=
  w'.calls c = w.calls c ∨ w'.calls c ≠ .idle ∧ ∀ t, w'.calls c = .fetching t →
    w.calls c = .idle ∧ ∃ metadata refresh, a = .getKeySet c metadata refresh t

theorem moves_put {v : Provider κ} {a : OidcAction} {phase : OidcCall} (calls : v.calls = w.calls)
    (busy : phase ≠ .idle) (fetching : ∀ t, phase = .fetching t → w.calls call = .idle ∧
      ∃ metadata refresh, a = .getKeySet call metadata refresh t) (c : Nat) :
    Moves w (v.put call phase) a c := by
  rcases put_calls v call phase c with same | ⟨rfl, new⟩
  · exact Or.inl (same.trans (congrFun calls c))
  · rw [Moves, new]
    exact Or.inr ⟨busy, fetching⟩

theorem moves_send {a : OidcAction} {target : Except OidcError OidcRequest} {phase : OidcCall}
    (busy : phase ≠ .idle) (fetching : ∀ t, phase = .fetching t → w.calls call = .idle ∧
      ∃ metadata refresh, a = .getKeySet call metadata refresh t) (c : Nat) :
    Moves w (w.send call target phase).2 a c := by
  cases target with
  | error error => exact moves_put rfl (by simp) (by simp) c
  | ok request => exact moves_put rfl busy fetching c

theorem react_moves {a : OidcAction} (ran : w.react U settings importKeySet a = some (said, w'))
    (c : Nat) : Moves w w' a c := by
  cases a with
  | getMetadata call forceRefresh now =>
      simp only [Provider.react] at ran
      split at ran
      · split at ran
        · cases ran
          exact moves_put rfl (by simp) (by simp) c
        · rw [← show _ = w' from congrArg Prod.snd (Option.some.inj ran)]
          exact moves_send (by simp) (by simp) c
      · cases ran
  | discovered call answer =>
      simp only [Provider.react] at ran
      split at ran
      · split at ran
        · cases ran
          exact moves_put rfl (by simp) (by simp) c
        · cases ran
          exact moves_put rfl (by simp) (by simp) c
      · cases ran
  | getKeySet call metadata refresh now =>
      obtain ⟨idle, _, ⟨_, _, rfl, _⟩ | ⟨_, _, rfl, _⟩ | ⟨_, _, rfl⟩⟩ := getKeySet_spec ran
      · exact moves_put rfl (by simp) (by simp) c
      · exact moves_put rfl (by simp) (by simp) c
      · refine moves_put rfl (by simp) (fun t same => ?_) c
        cases same
        exact ⟨idle, metadata, refresh, rfl⟩
  | fetched call answer =>
      obtain ⟨now, _, calls, _⟩ := fetched_spec ran
      rw [Moves, calls]
      exact moves_put rfl (by simp) (by simp) c
  | postToken call metadata =>
      simp only [Provider.react] at ran
      split at ran
      · rw [← show _ = w' from congrArg Prod.snd (Option.some.inj ran)]
        exact moves_send (by simp) (by simp) c
      · cases ran

theorem react_keys {a : OidcAction} (ran : w.react U settings importKeySet a = some (said, w')) :
    (w'.client.keySet = w.client.keySet ∧ w'.client.keysLoadedAt = w.client.keysLoadedAt) ∨
      ∃ call answer now k, a = .fetched call answer ∧ w.calls call = .fetching now ∧
        readKeySet importKeySet answer = .ok k ∧ w'.client.keySet = some k ∧
        w'.client.keysLoadedAt = now := by
  cases a with
  | getMetadata call forceRefresh now =>
      simp only [Provider.react] at ran
      split at ran
      · split at ran
        · cases ran
          exact Or.inl ⟨rfl, rfl⟩
        · rw [← show _ = w' from congrArg Prod.snd (Option.some.inj ran)]
          unfold Provider.send
          split <;> exact Or.inl ⟨rfl, rfl⟩
      · cases ran
  | discovered call answer =>
      simp only [Provider.react] at ran
      split at ran
      · split at ran <;> cases ran <;> exact Or.inl ⟨rfl, rfl⟩
      · cases ran
  | getKeySet call metadata refresh now =>
      rw [(getKeySet_spec ran).2.1]
      exact Or.inl ⟨rfl, rfl⟩
  | fetched call answer =>
      obtain ⟨now, fetching, _, ⟨_, _, _, same⟩ | ⟨k, read, _, same⟩⟩ := fetched_spec ran
      · rw [same]
        exact Or.inl ⟨rfl, rfl⟩
      · rw [same]
        exact Or.inr ⟨call, answer, now, k, rfl, fetching, read, rfl, rfl⟩
  | postToken call metadata =>
      simp only [Provider.react] at ran
      split at ran
      · rw [← show _ = w' from congrArg Prod.snd (Option.some.inj ran)]
        unfold Provider.send
        split <;> exact Or.inl ⟨rfl, rfl⟩
      · cases ran

end Provider

namespace Decoder

variable {U : Platform} {settings : Settings} {κ : Type} {importKeySet : Json → Imported κ}
variable {decode : Str → κ → Decoded} {w w' : Decoder κ} {a : DecodeAction} {told : DecodeOutcome}
variable {history : List (Event (Decoder κ) DecodeAction)} {published : Clock → Json}
variable {d : Nat} {encoded : Str} {metadata : OidcMetadata} {refresh : Bool} {call : Nat}

theorem react_provider (ran : w.react U settings importKeySet decode a = some (told, w')) :
    w'.provider = w.provider ∨ ∃ action said,
      w.provider.react U settings importKeySet action = some (said, w'.provider) ∧
      ∀ call answer now, action = .fetched call answer → w.provider.calls call = .fetching now →
        w.answers a = some (now, answer) := by
  cases a with
  | begin d encoded metadata =>
      simp only [react] at ran
      split at ran
      · cases ran
        exact Or.inl rfl
      · cases ran
  | ask d call now =>
      simp only [react] at ran
      split at ran
      · obtain ⟨⟨said, provider⟩, asked, same⟩ := Option.map_eq_some_iff.mp ran
        cases same
        exact Or.inr ⟨_, said, asked, fun _ _ _ other => by cases other⟩
      · cases ran
  | answered d answer =>
      simp only [react] at ran
      split at ran
      · rename_i encoded metadata refresh call waiting
        obtain ⟨⟨said, provider⟩, asked, same⟩ := Option.map_eq_some_iff.mp ran
        cases same
        refine Or.inr ⟨_, said, asked, fun call' answer' now same fetching => ?_⟩
        cases same
        simp [answers, waiting, fetching]
      · cases ran
  | client action =>
      obtain ⟨⟨said, provider⟩, asked, same⟩ := Option.map_eq_some_iff.mp ran
      cases same
      refine Or.inr ⟨action, said, asked, fun call answer now same fetching => ?_⟩
      subst same
      simp [answers, fetching]

def Current (published : Clock → Json) (importKeySet : Json → Imported κ) (w : Decoder κ) : Prop :=
  ∀ k, w.provider.client.keySet = some k → ∃ u, w.provider.client.keysLoadedAt ≤ u ∧
    importKeySet (published u) = .keys k

theorem run_current (run : Run (Step U settings importKeySet decode) init history w)
    (serves : Serves published history) : Current published importKeySet w := by
  induction run with
  | init => exact fun k none_ => by cases none_
  | @next history before after a shorter step ih =>
      have ih := ih fun event member => serves event (List.mem_append_left _ member)
      obtain ⟨⟨told, _⟩, ran, rfl⟩ := Option.map_eq_some_iff.mp step
      intro k cached
      rcases react_provider ran with same | ⟨action, said, asked, brings⟩
      · rw [same] at cached ⊢
        exact ih k cached
      · rcases react_keys asked with ⟨keys, loaded⟩ | ⟨call, answer, now, k', rfl, fetching, read, keys,
          loaded⟩
        · rw [keys] at cached
          rw [loaded]
          exact ih k cached
        · rw [keys] at cached
          cases cached
          obtain ⟨status, payload, rfl, imported⟩ := readKeySet_ok read
          obtain ⟨u, later, rfl⟩ := serves _ (List.mem_append_right _ (List.mem_singleton_self _)) now
            status payload (brings call _ now rfl fetching)
          exact ⟨u, loaded ▸ later, imported⟩

/-- What is known of a token that is being decoded: which one it is, and when its request for keys
was made. -/
structure Underway (history : List (Event (Decoder κ) DecodeAction)) (w : Decoder κ) : Prop where
  turn : ∀ d encoded metadata refresh, w.decodes d = .turn encoded metadata refresh →
    Begun history d encoded metadata
  waits : ∀ d encoded metadata refresh call, w.decodes d = .waits encoded metadata refresh call →
    Begun history d encoded metadata ∧ w.provider.calls call ≠ .idle ∧
      ∀ t, w.provider.calls call = .fetching t → Asks history d encoded metadata refresh t

theorem Begun.snoc {event : Event (Decoder κ) DecodeAction} (begun : Begun history d encoded metadata) :
    Begun (history ++ [event]) d encoded metadata := by
  obtain ⟨first, member, label⟩ := begun
  exact ⟨first, List.mem_append_left _ member, label⟩

theorem Asks.snoc {event : Event (Decoder κ) DecodeAction} {now : Clock}
    (asks : Asks history d encoded metadata refresh now) :
    Asks (history ++ [event]) d encoded metadata refresh now := by
  obtain ⟨first, member, rest⟩ := asks
  exact ⟨first, List.mem_append_left _ member, rest⟩

theorem Underway.client {event : Event (Decoder κ) DecodeAction} (known : Underway history w)
    {action : OidcAction} {said : OidcOutcome κ} {provider : Provider κ}
    (asked : w.provider.react U settings importKeySet action = some (said, provider)) :
    Underway (history ++ [event]) { w with provider } where
  turn d encoded metadata refresh here := (known.turn d encoded metadata refresh here).snoc
  waits d encoded metadata refresh call here := by
    obtain ⟨begun, busy, asks⟩ := known.waits d encoded metadata refresh call here
    refine ⟨begun.snoc, ?_⟩
    rcases react_moves asked call with same | ⟨busy', fetching⟩
    · rw [same]
      exact ⟨busy, fun t here => (asks t here).snoc⟩
    · exact ⟨busy', fun t here => absurd (fetching t here).1 busy⟩

theorem Underway.put {phase : DecodeCall} (known : Underway history w)
    (turn : ∀ encoded metadata refresh, phase = .turn encoded metadata refresh →
      Begun history d encoded metadata)
    (waits : ∀ encoded metadata refresh call, phase = .waits encoded metadata refresh call →
      Begun history d encoded metadata ∧ w.provider.calls call ≠ .idle ∧
        ∀ t, w.provider.calls call = .fetching t → Asks history d encoded metadata refresh t) :
    Underway history (w.put d phase) := by
  have phases (other : Nat) : (w.put d phase).decodes other = w.decodes other ∨
      other = d ∧ (w.put d phase).decodes other = phase := by
    by_cases same : other = d
    · subst same
      exact Or.inr ⟨rfl, Function.update_self ..⟩
    · exact Or.inl (Function.update_of_ne same ..)
  constructor
  · intro other encoded metadata refresh here
    rcases phases other with same | ⟨rfl, new⟩
    · exact known.turn other encoded metadata refresh (same ▸ here)
    · exact turn encoded metadata refresh (new.symm.trans here)
  · intro other encoded metadata refresh call here
    rcases phases other with same | ⟨rfl, new⟩
    · exact known.waits other encoded metadata refresh call (same ▸ here)
    · exact waits encoded metadata refresh call (new.symm.trans here)

section Conclusion

variable {said : OidcOutcome κ} {phase : DecodeCall}

theorem next_turn {encoded' : Str} {metadata' : OidcMetadata} {refresh' : Bool}
    (turn : (next encoded metadata refresh).2 = .turn encoded' metadata' refresh') :
    encoded' = encoded ∧ metadata' = metadata := by
  unfold next at turn
  split at turn
  · cases turn
  · cases turn
    exact ⟨rfl, rfl⟩

theorem next_told {c : Claims} : (next encoded metadata refresh).1 ≠ .accepted c := by
  unfold next
  split <;> simp

theorem next_invalid (told : (next encoded metadata refresh).1 = .tokenInvalid) : refresh = true := by
  unfold next at told
  split at told
  · assumption
  · cases told

theorem next_waits {encoded' : Str} {metadata' : OidcMetadata} {refresh' : Bool} {call' : Nat} :
    (next encoded metadata refresh).2 ≠ .waits encoded' metadata' refresh' call' := by
  unfold next
  split <;> simp

theorem conclude_turn {encoded' : Str} {metadata' : OidcMetadata} {refresh' : Bool}
    (turn : (conclude decode encoded metadata refresh call said).2 =
      .turn encoded' metadata' refresh') : encoded' = encoded ∧ metadata' = metadata := by
  unfold conclude at turn
  split at turn
  · split at turn
    · cases turn
    · exact next_turn turn
    · cases turn
  · exact next_turn turn
  · cases turn
  · cases turn
  · cases turn

theorem conclude_waits {encoded' : Str} {metadata' : OidcMetadata} {refresh' : Bool} {call' : Nat}
    (waits : (conclude decode encoded metadata refresh call said).2 =
      .waits encoded' metadata' refresh' call') :
    (encoded' = encoded ∧ metadata' = metadata ∧ refresh' = refresh ∧ call' = call) ∧
      (∀ k, said ≠ .keySet k) ∧ ∀ error, said ≠ .raised error := by
  unfold conclude at waits
  split at waits
  · split at waits
    · cases waits
    · exact absurd waits next_waits
    · cases waits
  · exact absurd waits next_waits
  · cases waits
  · cases waits
    exact ⟨⟨rfl, rfl, rfl, rfl⟩, by simp, by simp⟩
  · cases waits
    exact ⟨⟨rfl, rfl, rfl, rfl⟩, by simp, by simp⟩

theorem conclude_accepted {c : Claims}
    (told : (conclude decode encoded metadata refresh call said).1 = .accepted c) :
    ∃ k, said = .keySet k ∧ decode encoded k = .claims c := by
  unfold conclude at told
  split at told
  · rename_i k
    split at told
    · rename_i decoded
      cases told
      exact ⟨k, rfl, decoded⟩
    · exact absurd told next_told
    · cases told
  · exact absurd told next_told
  · cases told
  · cases told
  · cases told

theorem conclude_invalid
    (told : (conclude decode encoded metadata refresh call said).1 = .tokenInvalid) :
    refresh = true ∧ ((∃ k, said = .keySet k ∧ decode encoded k = .refused) ∨
      ∃ msg, said = .raised (.valueError msg)) := by
  unfold conclude at told
  split at told
  · rename_i k
    split at told
    · cases told
    · rename_i refused
      exact ⟨next_invalid told, Or.inl ⟨k, rfl, refused⟩⟩
    · cases told
  · rename_i msg
    exact ⟨next_invalid told, Or.inr ⟨msg, rfl⟩⟩
  · cases told
  · cases told
  · cases told

end Conclusion

theorem Underway.snoc {event : Event (Decoder κ) DecodeAction} (known : Underway history w) :
    Underway (history ++ [event]) w where
  turn d encoded metadata refresh here := (known.turn d encoded metadata refresh here).snoc
  waits d encoded metadata refresh call here := by
    obtain ⟨begun, busy, asks⟩ := known.waits d encoded metadata refresh call here
    exact ⟨begun.snoc, busy, fun t here => (asks t here).snoc⟩

theorem run_underway (run : Run (Step U settings importKeySet decode) init history w) :
    Underway history w := by
  induction run with
  | init =>
      constructor
      · intro d encoded metadata refresh here
        cases here
      · intro d encoded metadata refresh call here
        cases here
  | @next history before after a shorter step known =>
      obtain ⟨⟨told, _⟩, ran, rfl⟩ := Option.map_eq_some_iff.mp step
      cases a with
      | begin d encoded metadata =>
          simp only [react] at ran
          split at ran
          · cases ran
            refine known.snoc.put (fun encoded metadata refresh same => ?_)
              fun _ _ _ _ same => by cases same
            cases same
            exact ⟨_, List.mem_append_right _ (List.mem_singleton_self _), rfl⟩
          · cases ran
      | ask d call now =>
          simp only [react] at ran
          split at ran
          · rename_i encoded metadata refresh turn
            obtain ⟨⟨said, provider⟩, asked, same⟩ := Option.map_eq_some_iff.mp ran
            cases same
            have begun := known.turn d encoded metadata refresh turn
            refine (known.client asked).put (fun _ _ _ goes => ?_) fun _ _ _ call' goes => ?_
            · obtain ⟨rfl, rfl⟩ := conclude_turn goes
              exact begun.snoc
            · obtain ⟨⟨rfl, rfl, rfl, rfl⟩, keys, raises⟩ := conclude_waits goes
              obtain ⟨_, _, ⟨k, same, _⟩ | ⟨error, same, _⟩ | ⟨_, _, rfl⟩⟩ := getKeySet_spec asked
              · exact absurd same (keys k)
              · exact absurd same (raises error)
              · have fetching : (before.provider.put call' (.fetching now)).calls call' =
                    .fetching now := Function.update_self ..
                refine ⟨begun.snoc, by rw [fetching]; simp, fun t here => ?_⟩
                cases fetching.symm.trans here
                exact ⟨_, List.mem_append_right _ (List.mem_singleton_self _), call', rfl, turn⟩
          · cases ran
      | answered d answer =>
          simp only [react] at ran
          split at ran
          · rename_i encoded metadata refresh call waiting
            obtain ⟨⟨said, provider⟩, asked, same⟩ := Option.map_eq_some_iff.mp ran
            cases same
            have begun := (known.waits d encoded metadata refresh call waiting).1
            refine (known.client asked).put (fun _ _ _ goes => ?_) fun _ _ _ _ goes => ?_
            · obtain ⟨rfl, rfl⟩ := conclude_turn goes
              exact begun.snoc
            · obtain ⟨_, keys, raises⟩ := conclude_waits goes
              obtain ⟨_, _, _, ⟨error, _, same, _⟩ | ⟨k, _, same, _⟩⟩ := fetched_spec asked
              · exact absurd same (raises error)
              · exact absurd same (keys k)
          · cases ran
      | client action =>
          obtain ⟨⟨said, provider⟩, asked, same⟩ := Option.map_eq_some_iff.mp ran
          cases same
          exact known.client asked

def Decides (importKeySet : Json → Imported κ) (decode : Str → κ → Decoded) (published : Clock → Json)
    (encoded : Str) (since : Clock) (result : Decoded) : Prop :=
  ∃ u k, since ≤ u ∧ importKeySet (published u) = .keys k ∧ decode encoded k = result

section Decisions

variable {front rest : List (Event (Decoder κ) DecodeAction)} {event : Event (Decoder κ) DecodeAction}

theorem seconds_natCast_nonneg (n : Nat) : 0 ≤ seconds n := by
  unfold seconds
  omega

theorem concluded (run : Run (Step U settings importKeySet decode) init (front ++ event :: rest) w)
    (serves : Serves published (front ++ event :: rest))
    (said : outcome U settings importKeySet decode event = some told) :
    told = .goesOn ∨ ∃ d encoded metadata refresh now call result,
      event.label.decode? = some d ∧ Begun front d encoded metadata ∧
      Asks (front ++ [event]) d encoded metadata refresh now ∧
      (conclude decode encoded metadata refresh call result).1 = told ∧
      ((∃ k u, result = .keySet k ∧ importKeySet (published u) = .keys k ∧
          (if refresh then now else now - seconds settings.authJwksCacheSeconds) ≤ u) ∨
        ∃ error, result = .raised error ∧ ((∀ msg, error ≠ .valueError msg) ∨
          settings.backchannelTarget U metadata.jwksUri "jwks_uri" = .error error)) := by
  obtain ⟨reached, _⟩ := run.at_event
  have known := run_underway reached
  have current := run_current reached fun event member =>
    serves event (List.mem_append_left _ member)
  obtain ⟨before, a, after⟩ := event
  obtain ⟨⟨_, w'⟩, ran, rfl⟩ := Option.map_eq_some_iff.mp said
  simp only at known current ran
  cases a with
  | begin d encoded metadata =>
      simp only [react] at ran
      split at ran
      · cases ran
        exact Or.inl rfl
      · cases ran
  | ask d call now =>
      simp only [react] at ran
      split at ran
      · rename_i encoded metadata refresh turn
        obtain ⟨⟨said, provider⟩, asked, same⟩ := Option.map_eq_some_iff.mp ran
        cases same
        have asks : Asks (front ++ [⟨before, .ask d call now, after⟩]) d encoded metadata refresh now :=
          ⟨_, List.mem_append_right _ (List.mem_singleton_self _), call, rfl, turn⟩
        have begun := known.turn d encoded metadata refresh turn
        obtain ⟨_, _, ⟨k, rfl, _, cached, fresh, rfl⟩ | ⟨error, rfl, _, failed⟩ | ⟨_, rfl, _⟩⟩ :=
          getKeySet_spec asked
        · obtain ⟨u, later, imported⟩ := current k cached
          refine Or.inr ⟨d, encoded, metadata, false, now, call, _, rfl, begun, asks, rfl,
            Or.inl ⟨k, u, rfl, imported, ?_⟩⟩
          rw [if_neg (by simp)]
          exact (Int.sub_left_le_of_le_add (Int.le_add_of_sub_right_le fresh.le)).trans later
        · exact Or.inr ⟨d, encoded, metadata, refresh, now, call, _, rfl, begun, asks, rfl,
            Or.inr ⟨error, rfl, Or.inr failed⟩⟩
        · exact Or.inl rfl
      · cases ran
  | answered d answer =>
      simp only [react] at ran
      split at ran
      · rename_i encoded metadata refresh call waiting
        obtain ⟨⟨said, provider⟩, asked, same⟩ := Option.map_eq_some_iff.mp ran
        cases same
        obtain ⟨begun, _, waits⟩ := known.waits d encoded metadata refresh call waiting
        obtain ⟨now, fetching, _, ⟨error, read, rfl, _⟩ | ⟨k, read, rfl, _⟩⟩ := fetched_spec asked
        · exact Or.inr ⟨d, encoded, metadata, refresh, now, call, _, rfl, begun,
            (waits now fetching).snoc, rfl, Or.inr ⟨error, rfl, Or.inl (readKeySet_error read)⟩⟩
        · obtain ⟨status, payload, rfl, imported⟩ := readKeySet_ok read
          obtain ⟨u, later, rfl⟩ := serves _ List.mem_append_cons_self now status payload (by
            simp [answers, waiting, fetching])
          refine Or.inr ⟨d, encoded, metadata, refresh, now, call, _, rfl, begun,
            (waits now fetching).snoc, rfl, Or.inl ⟨k, u, rfl, imported, ?_⟩⟩
          split
          · exact later
          · exact (Int.sub_le_self now (seconds_natCast_nonneg _)).trans later
      · cases ran
  | client action =>
      obtain ⟨_, _, same⟩ := Option.map_eq_some_iff.mp ran
      cases same
      exact Or.inl rfl

/-- However many tokens are decoded at once and in whatever order the answers come: a token is taken
only under keys that the provider published after it came, or less than the lifetime of the cache
before; and it is called invalid only after fresh keys, published after it came, have refused it, or
where their URL cannot be split. -/
theorem token_decision_fresh
    (run : Run (Step U settings importKeySet decode) init (front ++ event :: rest) w)
    (serves : Serves published (front ++ event :: rest)) :
    (∀ claims, outcome U settings importKeySet decode event = some (.accepted claims) →
      ∃ d encoded metadata refresh now, event.label.decode? = some d ∧
        Begun front d encoded metadata ∧ Asks (front ++ [event]) d encoded metadata refresh now ∧
        Decides importKeySet decode published encoded
          (now - seconds settings.authJwksCacheSeconds) (.claims claims)) ∧
    (outcome U settings importKeySet decode event = some .tokenInvalid →
      ∃ d encoded metadata now, event.label.decode? = some d ∧
        Begun front d encoded metadata ∧ Asks (front ++ [event]) d encoded metadata true now ∧
        (Decides importKeySet decode published encoded now .refused ∨
          ∃ msg, settings.backchannelTarget U metadata.jwksUri "jwks_uri" =
            .error (.valueError msg))) := by
  constructor
  · intro claims said
    obtain goes | ⟨d, encoded, metadata, refresh, now, call, result, named, begun, asks, told, why⟩ :=
      concluded run serves said
    · cases goes
    · obtain ⟨k, rfl, decoded⟩ := conclude_accepted told
      obtain ⟨_, u, same, imported, later⟩ | ⟨_, other, _⟩ := why
      · cases same
        refine ⟨d, encoded, metadata, refresh, now, named, begun, asks, u, k, ?_, imported, decoded⟩
        split at later
        · exact (Int.sub_le_self now (seconds_natCast_nonneg _)).trans later
        · exact later
      · cases other
  · intro said
    obtain goes | ⟨d, encoded, metadata, refresh, now, call, result, named, begun, asks, told, why⟩ :=
      concluded run serves said
    · cases goes
    · obtain ⟨rfl, ⟨k, rfl, decoded⟩ | ⟨msg, rfl⟩⟩ := conclude_invalid told
      · obtain ⟨_, u, same, imported, later⟩ | ⟨_, other, _⟩ := why
        · cases same
          rw [if_pos rfl] at later
          exact ⟨d, encoded, metadata, now, named, begun, asks, Or.inl ⟨u, k, later, imported, decoded⟩⟩
        · cases other
      · obtain ⟨_, _, other, _⟩ | ⟨_, same, caught | failed⟩ := why
        · cases other
        · cases same
          exact absurd rfl (caught msg)
        · cases same
          exact ⟨d, encoded, metadata, now, named, begun, asks, Or.inr ⟨msg, failed⟩⟩

end Decisions

section Sample

def sampleKeys : Json → Imported Int
  | .int n => .keys n
  | _ => .refused

def rotated (u : Clock) : Json := .int (if u < seconds 100 then 1 else 2)

def secondKeys (_ : Str) (k : Int) : Decoded := if k = 2 then .claims [] else .refused

def sampleMetadata : OidcMetadata where
  issuer := "https://id.example".toList
  authorizationEndpoint := "https://id.example/authorize".toList
  tokenEndpoint := "https://id.example/token".toList
  jwksUri := "https://id.example/jwks".toList
  endSessionEndpoint := none

def rotationSteps : List DecodeAction :=
  [.client (.getKeySet 0 sampleMetadata false 0),
    .client (.fetched 0 (.response 200 (.value (.int 1)))),
    .begin 0 ['t'] sampleMetadata,
    .ask 0 1 (seconds 200),
    .ask 0 2 (seconds 200),
    .answered 0 (.response 200 (.value (.int 2)))]

def rotationNext (w : Decoder Int) (a : DecodeAction) : Option (Decoder Int) :=
  (react Settings.asciiPlatform Settings.sampleSettings sampleKeys secondKeys w a).map Prod.snd

def rotationEvents (steps : List DecodeAction) : List (Event (Decoder Int) DecodeAction) :=
  trace (fun w a => (rotationNext w a).getD w) init steps

theorem rotation_run : Run (Step Settings.asciiPlatform Settings.sampleSettings sampleKeys secondKeys)
    init (rotationEvents rotationSteps)
    (rotationSteps.foldl (fun w a => (rotationNext w a).getD w) init) :=
  Run.of_taken (by decide)

def Brings (n : Int) : Answer → Bool
  | .response _ (.value (.int m)) => m = n
  | _ => false

theorem brings_payload {n : Int} {status : Nat} {payload : Json}
    (brings : Brings n (.response status (.value payload)) = true) : payload = .int n := by
  cases payload with
  | int m => exact congrArg _ (of_decide_eq_true brings)
  | _ => cases brings

theorem rotation_serves : Serves rotated (rotationEvents rotationSteps) := by
  intro event member now status payload brought
  have known : ∀ event ∈ rotationEvents rotationSteps, ∀ x ∈ event.before.answers event.label,
      x.1 = 0 ∧ Brings 1 x.2 = true ∨ x.1 = seconds 200 ∧ Brings 2 x.2 = true := by decide
  rcases known event member _ brought with ⟨rfl, brings⟩ | ⟨rfl, brings⟩
  · exact ⟨0, le_rfl, (brings_payload brings).symm⟩
  · exact ⟨seconds 200, le_rfl, (brings_payload brings).symm⟩

/-- A token signed with the rotated keys is taken while the cache still holds the old ones. -/
theorem token_decision_fresh_rotated : ∃ d encoded metadata refresh now,
    Asks (rotationEvents rotationSteps) d encoded metadata refresh now ∧
      Decides sampleKeys secondKeys rotated encoded
        (now - seconds Settings.sampleSettings.authJwksCacheSeconds) (.claims []) := by
  obtain ⟨d, encoded, metadata, refresh, now, _, _, asks, decides⟩ :=
    (token_decision_fresh (show Run _ _ (rotationEvents (rotationSteps.take 5) ++ _ :: []) _ from
      rotation_run) rotation_serves).1 [] rfl
  exact ⟨d, encoded, metadata, refresh, now, asks, decides⟩

end Sample

end Decoder

end TplBackend
