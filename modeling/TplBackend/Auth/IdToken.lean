import TplBackend.Auth.Admission
import TplBackend.Auth.Browsers

/-! The identity token of a login: which logins it serves. -/

namespace TplBackend

open Keyed Raise Text Transition Url

variable {U : Platform}

/-- Whether a claim is the text, or a list with it, which a claims registry takes as well. -/
def Json.names (text : Str) : Json → Bool
  | .arr items => items.any (isText text)
  | value => value.isText text

/-- A claims registry that checks the `nonce` of its options. -/
structure NonceRegistry extends ClaimsRegistry where
  nonce : ∀ issuer nonce skew claims now, validate issuer nonce skew claims now = true →
    (Json.get claims "nonce").names nonce = true

def AuthCall.stage : AuthCall U → Nat
  | .idle => 0
  | .linking .. | .exchanging _ | .invalidating _ => 1
  | .unlinking _ | .upserting .. => 2
  | .opening .. => 3
  | .ended => 4

namespace World

variable {py : Builtins} {registry : NonceRegistry} {w w' : World U} {a : Action U}
variable {history : List (Event (World U) (Action U))} {event event' : Event (World U) (Action U)}
variable {call : Nat} {login : Login U} {claims claims' : Claims}

section Stages

theorem Enters.stage {phase : AuthCall U} (enters : Enters py w a call phase) :
    (w.calls call).stage < phase.stage := by
  cases enters with
  | linking idle | exchanging idle | invalidating idle =>
      rw [idle]
      exact Nat.one_pos
  | unlinking linking =>
      rw [linking]
      exact Nat.lt_succ_self 1
  | upserting exchanging =>
      rw [exchanging]
      exact Nat.lt_succ_self 1
  | opening upserting =>
      rw [upserting]
      exact Nat.lt_succ_self 2
  | ended busy =>
      cases phase : w.calls call with
      | ended => exact absurd phase busy
      | _ => simp [AuthCall.stage]

theorem step_stage (step : Step py w a w') (call : Nat) :
    (w.calls call).stage ≤ (w'.calls call).stage := by
  obtain ⟨_, did⟩ := step_did step
  rcases did.call call with kept | enters
  · rw [show w'.calls call = w.calls call from kept]
  · exact enters.stage.le

def Reached (call stage : Nat) (w : World U) : Prop := stage ≤ (w.calls call).stage

def Ordered (call : Nat) (first second : Event (World U) (Action U)) : Prop :=
  (first.after.calls call).stage ≤ (second.before.calls call).stage ∨
    (second.after.calls call).stage ≤ (first.before.calls call).stage

instance : Std.Symm (@Ordered U call) := ⟨fun _ _ ordered => ordered.symm⟩

theorem run_ordered (run : Run (Step py) init history w) (call : Nat) :
    history.Pairwise (Ordered call) := by
  induction run with
  | init => exact List.Pairwise.nil
  | @next history before after label shorter step ih =>
      rw [List.pairwise_append]
      refine ⟨ih, List.pairwise_singleton _ _, fun first old second new => ?_⟩
      rw [List.mem_singleton.mp new]
      obtain ⟨earlier, later, rfl⟩ := List.append_of_mem old
      have kept (before : World U) (label : Action U) (after : World U)
          (reached : Reached call (first.after.calls call).stage before)
          (taken : Step py before label after) : Reached call (first.after.calls call).stage after :=
        le_trans reached (step_stage taken call)
      have reached : Reached call (first.after.calls call).stage before :=
        Run.stable kept shorter (Nat.le_refl _)
      exact Or.inl reached

theorem staged_once (run : Run (Step py) init history w) (member : event ∈ history)
    (member' : event' ∈ history)
    (same : (event.before.calls call).stage = (event'.before.calls call).stage)
    (further : (event.before.calls call).stage < (event.after.calls call).stage)
    (further' : (event'.before.calls call).stage < (event'.after.calls call).stage) :
    event = event' := by
  by_contra different
  rcases (run_ordered run call).forall member member' different with earlier | later
  · omega
  · omega

end Stages

section Tokens

theorem proceed_stage {α : Type} {result : Except AuthError α} {next : α → Outcome × AuthCall U}
    {stage : Nat} (below : stage < 4) (further : ∀ x, stage < (next x).2.stage) :
    stage < ((w.proceed call result next).2.calls call).stage := by
  cases result with
  | error raised =>
      change stage < (Function.update w.calls call .ended call).stage
      rw [Function.update_self]
      exact below
  | ok x =>
      change stage < (Function.update w.calls call (next x).2 call).stage
      rw [Function.update_self]
      exact further x

theorem upserted_stage (run : Run (Step py) init history w) (member : event ∈ history)
    {id : Option Uuid} {sessionId csrfToken : Secret 43} {now : Clock}
    (label : event.label = .upserted call id sessionId csrfToken now) :
    (event.before.calls call).stage = 2 ∧ 2 < (event.after.calls call).stage := by
  obtain ⟨_, _, _, _, _, _, performed⟩ := run.of_mem member
  obtain ⟨said, ran, same⟩ := Option.map_eq_some_iff.mp performed
  rw [label] at ran
  rw [← same]
  simp only [perform, react] at ran
  split at ran
  · rename_i login draft waiting
    refine ⟨by rw [waiting]; rfl, ?_⟩
    rw [← Option.some.inj ran]
    cases id with
    | none =>
        change 2 < (Function.update event.before.calls call .ended call).stage
        rw [Function.update_self]
        exact Nat.lt_add_of_pos_right Nat.two_pos
    | some id => exact proceed_stage (by decide) fun _ => Nat.lt_succ_self 2
  · cases ran

/-- Every exchange is answered by what `verify_id_token` takes under the nonce it is given. -/
def Verifies (registry : NonceRegistry) (history : List (Event (World U) (Action U))) : Prop :=
  ∀ event ∈ history, ∀ call claims now login, event.label = .exchanged call (some claims) now →
    event.before.calls call = .exchanging login → ∃ issuer skew clock,
      verifyIdToken registry.toClaimsRegistry login.service.profile issuer login.nonce skew claims
        clock = .ok claims

theorem verifyIdToken_nonce {profile : BrowserSurfaceProfile} {issuer nonce : Str} {skew : ClockSkew}
    {verified : Claims} {clock : Clock}
    (accepted : verifyIdToken registry.toClaimsRegistry profile issuer nonce skew claims clock =
      .ok verified) :
    (Json.get claims "nonce").names nonce = true ∧
      (Json.get claims "aud").isAudience profile.clientId = true := by
  simp only [verifyIdToken, bind_ok, require_ok] at accepted
  obtain ⟨_, _, _, audience, _, valid, _⟩ := accepted
  exact ⟨registry.nonce _ _ _ _ _ valid, audience⟩

def MadeFrom (history : List (Event (World U) (Action U))) (id : Str) (claims : Claims)
    (b : Begin U) : Prop :=
  ∃ begun ∈ history, ∃ redeemed ∈ history, ∃ exchanged ∈ history, ∃ upserted ∈ history,
    ∃ call login asked user drawn, ∃ sessionId csrfToken : Secret 43,
      Begins begun.label b ∧ Redeems redeemed call login b ∧
      exchanged.label = .exchanged call (some claims) asked ∧
      exchanged.before.calls call = .exchanging login ∧
      upserted.label = .upserted call (some user) sessionId csrfToken drawn ∧ sessionId.text = id

theorem MadeFrom.once (run : Run (Step py) init history w) {id id' : Str} {b b' : Begin U}
    (made : MadeFrom history id claims b) (made' : MadeFrom history id' claims' b')
    (same : b.nonce = b'.nonce) : id = id' := by
  obtain ⟨begun, inside, redeemed, redeemed_, _, _, upserted, member, call, login, _, user, _,
    sessionId, _, begins, redeems, _, _, label, rfl⟩ := made
  obtain ⟨begun', inside', redeemed', redeemed'_, _, _, upserted', member', call', login', _, user',
    _, sessionId', _, begins', redeems', _, _, label', rfl⟩ := made'
  obtain rfl := begins_once run inside inside' begins begins' (Or.inr same)
  obtain rfl := redeemed_once run redeemed_ redeemed'_ redeems redeems'
  have stages := upserted_stage run member label
  have stages' := upserted_stage run member' label'
  have equal := staged_once run member member' (stages.1.trans stages'.1.symm)
    (by rw [stages.1]; exact stages.2) (by rw [stages'.1]; exact stages'.2)
  rw [equal, label'] at label
  injection label with _ _ ids
  rw [ids]

theorem MadeFrom.named (verifies : Verifies registry history) {id : Str} {b : Begin U}
    (made : MadeFrom history id claims b) : (Json.get claims "nonce").names b.nonce = true := by
  obtain ⟨_, _, _, _, exchanged, member, _, _, call, login, asked, _, _, _, _, _, redeems, label,
    exchanging, _⟩ := made
  obtain ⟨_, _, _, accepted⟩ := verifies exchanged member call claims asked login label exchanging
  rw [← redeems.nonce]
  exact (verifyIdToken_nonce accepted).1

section Sample

def NonceRegistry.sample : NonceRegistry where
  validate := fun issuer nonce skew claims now => (Json.get claims "nonce").names nonce &&
    ClaimsRegistry.sample.validate issuer nonce skew claims now
  exp := fun _ _ _ _ _ valid => ClaimsRegistry.sample.exp _ _ _ _ _ (Bool.and_eq_true_iff.mp valid).2
  iat := fun _ _ _ _ _ valid => ClaimsRegistry.sample.iat _ _ _ _ _ (Bool.and_eq_true_iff.mp valid).2
  nonce := fun _ _ _ _ _ valid => (Bool.and_eq_true_iff.mp valid).1

end Sample

end Tokens

end World

end TplBackend
