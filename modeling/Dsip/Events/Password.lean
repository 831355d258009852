import Dsip.Events.UsmAgree

/-!
# What a password is localized from

Both implementations hash the repeated password, each in its own way. One loop
feeds chunks of sixty-four copies; it does not move on chunks of an empty password.
-/

namespace Dsip.Events

open Dsip.Lib

/-- What `password_to_key` hashes first; it raises on an empty password. -/
def repeated (password : Bytes) : Option Bytes :=
  if password.length = 0 then none
  else some (((List.replicate (passwordSpan / password.length + 1) password).flatten).take passwordSpan)

namespace Ts

/-- The loop of `localizePassword`: what it has fed in the end, and what it feeds
from `fed` on; none where that many turns are not enough. -/
def feedChunks (chunk : Bytes) : Nat → Nat → Option (Nat × Bytes)
  | 0, _ => none
  | turns + 1, fed =>
    if fed + chunk.length ≤ passwordSpan then
      (feedChunks chunk turns (fed + chunk.length)).map fun r => (r.1, chunk ++ r.2)
    else some (fed, [])

/-- What `localizePassword` hashes first. -/
def fedBytes (password : Bytes) (turns : Nat) : Option Bytes :=
  (feedChunks (chunk password) turns 0).map fun r =>
    r.2 ++ if r.1 < passwordSpan then
      (List.range (passwordSpan - r.1)).map fun i => password.getD ((r.1 + i) % password.length) 0
    else []

/-- The loop comes to an end on a secret. -/
def Ends : Secret → Prop
  | .key _ => True
  | .password password => ∃ turns bytes, fedBytes password turns = some bytes

end Ts

section Streams

variable {password : Bytes}

theorem repeated_eq (hne : password ≠ []) : repeated password = some (cycled password passwordSpan) := by
  have hpos : 0 < password.length := List.length_pos_iff.mpr hne
  have hself : (List.replicate (passwordSpan / password.length + 1) password).flatten =
      cycled password ((passwordSpan / password.length + 1) * password.length) := by
    have h := flatten_replicate_cycled password (passwordSpan / password.length + 1) 1
    rwa [one_mul, cycled_length_self] at h
  have hspan : passwordSpan ≤ (passwordSpan / password.length + 1) * password.length := by
    have h := Nat.lt_div_mul_add hpos (a := passwordSpan)
    rw [Nat.add_mul, one_mul]
    exact h.le
  unfold repeated
  rw [if_neg hpos.ne', hself, take_cycled password hspan]

theorem feedChunks_cycled {turns k : Nat}
    (hturns : passwordSpan < (turns + k) * (64 * password.length)) (hk : k * (64 * password.length) ≤ passwordSpan) :
    ∃ n, n * (64 * password.length) ≤ passwordSpan ∧
      (Ts.feedChunks (Ts.chunk password) turns (k * (64 * password.length))).map
          (fun r => (r.1, cycled password (k * (64 * password.length)) ++ r.2)) =
        some (n * (64 * password.length), cycled password (n * (64 * password.length))) := by
  have hchunk : Ts.chunk password = cycled password (64 * password.length) := rfl
  have hlength : (Ts.chunk password).length = 64 * password.length := by simp [Ts.chunk]
  have happend : ∀ j, cycled password (j * (64 * password.length)) ++ Ts.chunk password =
      cycled password ((j + 1) * (64 * password.length)) := by
    intro j
    rw [hchunk, ← mul_assoc, cycled_append]
    congr 1
    ring
  induction turns generalizing k with
  | zero =>
    rw [Nat.zero_add] at hturns
    exact absurd hturns (not_lt.mpr hk)
  | succ turns ih =>
    unfold Ts.feedChunks
    rw [hlength]
    have hnext : k * (64 * password.length) + 64 * password.length = (k + 1) * (64 * password.length) := by
      ring
    split
    case isTrue hroom =>
      rw [hnext] at hroom ⊢
      obtain ⟨n, hn, heq⟩ := ih (k := k + 1) (by rwa [Nat.add_right_comm, Nat.add_assoc] at hturns) hroom
      refine ⟨n, hn, ?_⟩
      rw [← heq, Option.map_map]
      congr 1
      funext r
      simp only [Function.comp_apply, ← List.append_assoc, happend]
    case isFalse => exact ⟨k, hk, by simp⟩

theorem fedBytes_eq (hne : password ≠ []) :
    Ts.fedBytes password (passwordSpan + 1) = some (cycled password passwordSpan) := by
  have hpos : 0 < password.length := List.length_pos_iff.mpr hne
  have hturns : passwordSpan < (passwordSpan + 1 + 0) * (64 * password.length) := by
    rw [Nat.add_zero]
    exact (Nat.lt_succ_self _).trans_le (Nat.le_mul_of_pos_right _ (by omega))
  obtain ⟨n, hn, heq⟩ := feedChunks_cycled hturns (by omega)
  rw [Nat.zero_mul] at heq
  obtain ⟨⟨fed, bytes⟩, hfeed, hr⟩ := Option.map_eq_some_iff.mp heq
  obtain ⟨rfl, hbytes⟩ := Prod.mk.inj hr
  have hempty : cycled password 0 = [] := rfl
  rw [hempty, List.nil_append] at hbytes
  subst hbytes
  unfold Ts.fedBytes
  rw [hfeed, Option.map_some]
  dsimp only
  by_cases hrest : n * (64 * password.length) < passwordSpan
  · rw [if_pos hrest, cycled_add, Nat.add_sub_cancel' hn]
  · have heq : n * (64 * password.length) = passwordSpan := by omega
    rw [if_neg hrest, List.append_nil, heq]

theorem fedBytes_nil (turns : Nat) : Ts.fedBytes [] turns = none := by
  have hloop : ∀ turns, Ts.feedChunks [] turns 0 = none := by
    intro turns
    induction turns with
    | zero => rfl
    | succ turns ih =>
      unfold Ts.feedChunks
      rw [if_pos (by decide), List.length_nil, Nat.add_zero, ih]
      rfl
  unfold Ts.fedBytes
  have hchunk : Ts.chunk [] = [] := rfl
  rw [hchunk, hloop]
  rfl

theorem fedBytes_eq_some {turns : Nat} {bytes : Bytes} (h : Ts.fedBytes password turns = some bytes) :
    password ≠ [] := by
  rintro rfl
  rw [fedBytes_nil] at h
  cases h

end Streams

/-! ## Localizing with the loop -/

/-- `localizePassword` with so many turns of its loop. -/
def Ts.localizeFed (c : Crypto) (auth : Auth) (password engineId : Bytes) (turns : Nat) : Option Bytes :=
  (fedBytes password turns).map fun fed =>
    let ku := c.hash auth fed
    c.hash auth (ku ++ engineId ++ ku)

section Localize

variable {c : Crypto} {auth : Auth}

theorem feedChunks_of_le {chunk : Bytes} {n k fed : Nat} {r : Nat × Bytes}
    (h : Ts.feedChunks chunk n fed = some r) (hle : n ≤ k) : Ts.feedChunks chunk k fed = some r := by
  induction n generalizing k fed r with
  | zero => cases h
  | succ n ih =>
    obtain ⟨k, rfl⟩ := Nat.exists_eq_add_of_le' (Nat.zero_lt_of_lt hle)
    unfold Ts.feedChunks at h ⊢
    split
    case isTrue hroom =>
      rw [if_pos hroom, Option.map_eq_some_iff] at h
      obtain ⟨rest, hrest, rfl⟩ := h
      rw [ih hrest (Nat.le_of_succ_le_succ hle)]
      rfl
    case isFalse hroom => rwa [if_neg hroom] at h

theorem fedBytes_unique {password bytes : Bytes} {turns : Nat} (h : Ts.fedBytes password turns = some bytes) :
    bytes = cycled password passwordSpan := by
  have hne := fedBytes_eq_some h
  have hspan := fedBytes_eq hne
  unfold Ts.fedBytes at h hspan
  obtain ⟨r, hr, rfl⟩ := Option.map_eq_some_iff.mp h
  obtain ⟨r', hr', heq⟩ := Option.map_eq_some_iff.mp hspan
  have hmax := feedChunks_of_le hr (le_max_left turns (passwordSpan + 1))
  rw [feedChunks_of_le hr' (le_max_right turns (passwordSpan + 1))] at hmax
  rw [← Option.some.inj hmax]
  exact heq

theorem passwordToKey_eq_ok {password engine key : Bytes} :
    passwordToKey c auth password engine = .ok key ↔ ∃ rep, repeated password = some rep ∧
        c.hash auth (c.hash auth rep ++ engine ++ c.hash auth rep) = key := by
  unfold passwordToKey repeated
  by_cases hnil : password = []
  case pos =>
    subst hnil
    exact ⟨nofun, nofun⟩
  case neg =>
    rw [if_neg hnil, if_neg (mt List.length_eq_zero_iff.mp hnil)]
    constructor
    · intro h
      exact ⟨_, rfl, Except.ok.inj h⟩
    · rintro ⟨_, ⟨⟩, rfl⟩
      rfl

theorem ends_iff {s : Secret} : Ts.Ends s ↔ s ≠ .password [] := by
  cases s with
  | key bytes => exact ⟨nofun, fun _ => trivial⟩
  | password password =>
    constructor
    · rintro ⟨turns, bytes, h⟩ heq
      exact fedBytes_eq_some h (Secret.password.inj heq)
    · intro h
      exact ⟨passwordSpan + 1, _, fedBytes_eq fun heq => h (congrArg _ heq)⟩

theorem localize_ok_iff {s : Secret} {engine : Bytes} :
    (∃ key, s.localize c auth engine = .ok key) ↔ s ≠ .password [] := by
  cases s with
  | key bytes => exact ⟨nofun, fun _ => ⟨bytes, rfl⟩⟩
  | password password =>
    unfold Secret.localize passwordToKey
    dsimp only
    split
    case isTrue hnil =>
      subst hnil
      exact ⟨nofun, fun h => absurd rfl h⟩
    case isFalse hne => exact ⟨fun _ heq => hne (Secret.password.inj heq), fun _ => ⟨_, rfl⟩⟩

end Localize

/-! ## Users -/

/-- No password of the user is empty, and a privacy key has 16 bytes. -/
structure User.Keyed (u : User) : Prop where
  auth : u.authSecret ≠ .password []
  priv : ∀ s, u.privSecret = some s → s ≠ .password [] ∧ ∀ key, s = .key key → 16 ≤ key.length

section Users

variable {c : Crypto} {u : User}

theorem localizes_iff (hash : ∀ auth data, 16 ≤ (c.hash auth data).length) : u.Localizes c ↔ u.Keyed := by
  constructor
  · intro h
    refine ⟨localize_ok_iff.mp (h.auth []), fun s hs => ?_⟩
    obtain ⟨key, hkey, hlen⟩ := h.priv s hs []
    refine ⟨localize_ok_iff.mp ⟨key, hkey⟩, ?_⟩
    rintro bytes rfl
    rwa [← Except.ok.inj hkey] at hlen
  · intro h
    refine ⟨fun engine => localize_ok_iff.mpr h.auth, fun s hs engine => ?_⟩
    obtain ⟨hne, hkey⟩ := h.priv s hs
    obtain ⟨key, hlocal⟩ := (@localize_ok_iff c u.auth s engine).mpr hne
    refine ⟨key, hlocal, ?_⟩
    cases s with
    | key bytes =>
      rw [← Except.ok.inj hlocal]
      exact hkey bytes rfl
    | password password =>
      obtain ⟨rep, -, rfl⟩ := passwordToKey_eq_ok.mp hlocal
      exact hash _ _

theorem keyed_iff_ends (hash : ∀ auth data, 16 ≤ (c.hash auth data).length) :
    (u.Localizes c ∧ Ts.Ends u.authSecret ∧ ∀ s, u.privSecret = some s → Ts.Ends s) ↔ u.Keyed := by
  rw [localizes_iff hash]
  refine ⟨And.left, fun h => ⟨h, ends_iff.mpr h.auth, fun s hs => ?_⟩⟩
  exact ends_iff.mpr (h.priv s hs).1

theorem keys_ok_iff {engine : Bytes} : (∃ r, UsmReceiver.keys c u engine = .ok r) ↔
      u.authSecret ≠ .password [] ∧ u.privSecret ≠ some (.password []) := by
  unfold UsmReceiver.keys
  rw [← @localize_ok_iff c u.auth u.authSecret engine]
  cases u.authSecret.localize c u.auth engine with
  | error e => exact ⟨nofun, nofun⟩
  | ok authKey =>
    cases u.privSecret with
    | none => exact ⟨fun _ => ⟨⟨_, rfl⟩, nofun⟩, fun _ => ⟨_, rfl⟩⟩
    | some s =>
      have hs := @localize_ok_iff c u.auth s engine
      rw [ne_eq, Option.some.injEq, ← ne_eq, ← hs]
      dsimp only [bind, Except.bind]
      cases s.localize c u.auth engine with
      | error e => exact ⟨nofun, nofun⟩
      | ok privKey => exact ⟨fun _ => ⟨⟨_, rfl⟩, _, rfl⟩, fun _ => ⟨_, rfl⟩⟩

end Users

/-! ## Datagrams -/

/-- A datagram that comes as far as the keys of a user. -/
structure UsmReceiver.Names (rx : UsmReceiver) (b : Bytes) (m : Message) (u : User) : Prop where
  parsed : parseV3 b = some m
  model : m.model = 3
  engine : m.engine ≠ []
  user : rx.userOf m.engine m.user = some u
  auth : m.auth = true
  priv : m.priv = true → u.privSecret ≠ none

theorem bind_ok_iff {x : Except Fault α} {f : α → Except Fault β} (hf : ∀ a, ∃ r, f a = .ok r) :
    (∃ r, (x >>= f) = .ok r) ↔ ∃ a, x = .ok a := by
  cases x with
  | error e => exact ⟨nofun, nofun⟩
  | ok a => exact ⟨fun _ => ⟨a, rfl⟩, fun _ => hf a⟩

section Datagrams

variable {c : Crypto} {rx : UsmReceiver} {b : Bytes} {m : Message} {u : User}

theorem UsmReceiver.Names.level (h : rx.Names b m u) :
    ¬ (¬ m.auth = true ∨ m.priv = true ∧ u.privSecret = none) := by
  rintro (hauth | ⟨hpriv, hnone⟩)
  · exact hauth h.auth
  · exact h.priv hpriv hnone

theorem authenticate_ok_iff (h : rx.Names b m u) : (∃ a, rx.authenticate c b = .ok a) ↔
      u.authSecret ≠ .password [] ∧ u.privSecret ≠ some (.password []) := by
  rw [← @keys_ok_iff c u m.engine]
  unfold UsmReceiver.authenticate
  rw [h.parsed]
  dsimp only
  rw [if_neg (not_not_intro h.model), if_neg h.engine, h.user]
  dsimp only
  rw [if_neg h.level]
  refine bind_ok_iff fun (authKey, privKey) => ?_
  dsimp only
  split <;> exact ⟨_, rfl⟩

theorem ts_authenticate_ok_iff (h : rx.Names b m u) :
    (∃ a, rx.toTs.authenticate c b = .ok a) ↔ Ts.Ends u.authSecret := by
  have hparse := parse_agree b
  rw [h.parsed, Option.map_some, eq_comm, Option.map_eq_some_iff] at hparse
  obtain ⟨m', hm', hread⟩ := hparse
  have hmodel : m'.model = m.model := congrArg Reading.model hread
  have hengine : m'.engineId = m.engine := congrArg Reading.engine hread
  have huser : m'.userName = m.user := congrArg Reading.user hread
  have hauth : m'.auth = m.auth := congrArg Reading.auth hread
  have hpriv : m'.priv = m.priv := congrArg Reading.priv hread
  rw [ends_iff, ← @localize_ok_iff c u.auth u.authSecret m.engine]
  unfold Ts.UsmReceiver.authenticate
  rw [hm']
  dsimp only
  rw [hmodel, hengine, huser, hauth, hpriv, userOf_eq, if_neg (not_not_intro h.model),
    if_neg (mt List.length_eq_zero_iff.mp h.engine), h.user]
  dsimp only
  rw [if_neg h.level, localize_eq]
  refine bind_ok_iff fun authKey => ?_
  split
  case isTrue => exact ⟨_, rfl⟩
  case isFalse => split <;> exact ⟨_, rfl⟩

end Datagrams

/-- Both implementations hash the first bytes of the repeated password. Their
computations of a user's keys end if and only if no password is empty and a privacy
key has 16 bytes; and receivers with such users answer every datagram, while one
that names a user with an empty password has no answer. -/
theorem localization_ends (c : Crypto) :
    (∀ password : Bytes, password ≠ [] → repeated password = some (cycled password passwordSpan) ∧
        ∃ turns, Ts.fedBytes password turns = some (cycled password passwordSpan)) ∧
      ((∀ auth data, 16 ≤ (c.hash auth data).length) →
        (∀ u : User, (u.Localizes c ∧ Ts.Ends u.authSecret ∧ ∀ s, u.privSecret = some s → Ts.Ends s) ↔
            u.Keyed) ∧
          (∀ (rx : UsmReceiver) (b : Bytes) (m : Message) (u : User), rx.Names b m u →
            ((∃ a, rx.authenticate c b = .ok a) ↔
              u.authSecret ≠ .password [] ∧ u.privSecret ≠ some (.password [])) ∧
            ((∃ a, rx.toTs.authenticate c b = .ok a) ↔ Ts.Ends u.authSecret)) ∧
          ∀ ctx : Context, (∀ u ∈ ctx.users, u.Keyed) → ∀ es : List Event,
            ∃ tr rx, TSys.exec? (UsmReceiver.step c) (.new ctx) es = some (tr, rx) ∧
              TSys.exec? (Ts.UsmReceiver.step c) (.new ctx) es = some (tr, rx.toTs)) := by
  refine ⟨fun password hne => ⟨repeated_eq hne, _, fedBytes_eq hne⟩, fun hash => ⟨fun u => ?_, ?_, ?_⟩⟩
  · exact keyed_iff_ends hash
  · exact fun rx b m u h => ⟨authenticate_ok_iff h, ts_authenticate_ok_iff h⟩
  · intro ctx hkeyed es
    exact @exec_agree c es (UsmReceiver.new ctx) fun u hu => (localizes_iff hash).mpr (hkeyed u hu)

/-- A gateway's user with nothing to authenticate by. -/
def unkeyed : Context :=
  { gateway with users := gateway.users.map fun u => { u with authSecret := .password [] } }

theorem unkeyed_fails : (∀ c : Crypto, (UsmReceiver.new unkeyed).receive c inform150 = .error .noKey ∧
        (Ts.UsmReceiver.new unkeyed).receive c inform150 = .error .noKey) ∧
      ∀ turns, Ts.fedBytes [] turns = none := by
  refine ⟨fun c => ⟨?_, ?_⟩, fedBytes_nil⟩
  · rfl
  · rfl

theorem localization_ends_gateway : (∃ turns, Ts.fedBytes [0x70] turns = some (cycled [0x70] passwordSpan)) ∧
      ∃ tr rx, TSys.exec? (UsmReceiver.step { inform150Crypto with hash := fun _ _ => List.replicate 16 0 })
          (.new gateway) [.receive inform150] = some (tr, rx) := by
  have hash : ∀ (auth : Auth) (data : Bytes), 16 ≤ (List.replicate 16 (0 : UInt8)).length :=
    fun _ _ => by decide
  have hkeyed : ∀ u ∈ gateway.users, u.Keyed := by
    intro u hu
    obtain rfl := List.mem_singleton.mp hu
    exact ⟨nofun, nofun⟩
  obtain ⟨hhashed, hends⟩ := localization_ends { inform150Crypto with hash := fun _ _ => List.replicate 16 0 }
  obtain ⟨tr, rx, hrun, -⟩ := (hends hash).2.2 gateway hkeyed [.receive inform150]
  exact ⟨(hhashed [0x70] (by decide)).2, tr, rx, hrun⟩

end Dsip.Events
