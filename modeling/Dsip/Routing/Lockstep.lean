import Dsip.Lib.KeySort
import Dsip.Routing.Completion
import Dsip.Routing.Conservation
import Dsip.Routing.RelayTs

/-!
# The two relays in step

`image` is the attempt the TypeScript relay keeps for one of the Python relay's,
and `Agree` relates the states of the two. A step that meets `Meets` keeps them
related and writes the same on both sides.
-/

namespace Dsip.Routing

open Dsip.Lib

/-! ## Attempts -/

/-- The same attempt, as the other relay keeps it. The invite is the one the
attempt was forked for. -/
def image (inv : Option Message) (a : Attempt) : Ts.Attempt where
  sender := a.initiator
  dest := a.identity
  expires := inv.bind (·.expiresAt)
  legs := a.legs
  outcome := a.outcome
  rejections := a.reasons
  touched := a.last
  heard := a.heard

/-- The same, with what was written. -/
def imageOut (inv : Option Message) (o : Attempt × List Emit) : Ts.Attempt × List Emit := (image inv o.1, o.2)

namespace Attempt

variable {a : Attempt} {inv : Option Message} {sid : String}

theorem find?_reason (reasons : List (String × String)) (reason : String) :
    (reasons.find? fun p => p.2 = reason) = none ↔ reason ∉ reasons.map Prod.snd := by
  rw [List.find?_eq_none, List.mem_map]
  constructor
  · rintro h ⟨p, hp, rfl⟩
    exact h p hp (by simp)
  · intro h p hp hreason
    exact h ⟨p, hp, of_decide_eq_true hreason⟩

theorem rank_eq_iff (reason : String) : (Ts.Attempt.rank reason = 0 ↔ reason = "user.declined") ∧
    (Ts.Attempt.rank reason = 1 ↔ reason = "user.no-answer") ∧
    (Ts.Attempt.rank reason = 2 ↔ reason = "endpoint.busy") ∧
    (Ts.Attempt.rank reason = 3 ↔ reason = "endpoint.unavailable") := by
  by_cases h₀ : reason = "user.declined"
  · subst h₀
    decide
  by_cases h₁ : reason = "user.no-answer"
  · subst h₁
    decide
  by_cases h₂ : reason = "endpoint.busy"
  · subst h₂
    decide
  by_cases h₃ : reason = "endpoint.unavailable"
  · subst h₃
    decide
  have hrank : Ts.Attempt.rank reason = 4 := by
    apply List.idxOf_eq_length
    simp [Ts.informative, h₀, h₁, h₂, h₃]
  simp [hrank, h₀, h₁, h₂, h₃]

theorem findSome?_table (reasons : List (String × String)) (table : List String)
    (rest : Option (String × String)) :
    (match table.find? fun r => r ∈ reasons.map Prod.snd with
      | some reason => reasons.find? fun p => p.2 = reason
      | none => rest) =
    (table.findSome? fun reason => reasons.find? fun p => p.2 = reason).or rest := by
  induction table with
  | nil => rfl
  | cons reason table ih =>
    rw [List.findSome?_cons]
    by_cases hr : reason ∈ reasons.map Prod.snd
    · rw [List.find?_cons_of_pos (by simpa using hr)]
      cases hf : reasons.find? fun p => p.2 = reason with
      | none => exact absurd hr ((find?_reason reasons reason).mp hf)
      | some p => exact hf
    · rw [List.find?_cons_of_neg (by simpa using hr), (find?_reason reasons reason).mpr hr]
      exact ih

theorem best_eq (reasons : List (String × String)) : best reasons =
      [0, 1, 2, 3, 4].findSome? fun k => reasons.find? fun p => Ts.Attempt.rank p.2 = k := by
  have hfind : ∀ k reason, (∀ r, Ts.Attempt.rank r = k ↔ r = reason) →
      (reasons.find? fun p => Ts.Attempt.rank p.2 = k) = reasons.find? fun p => p.2 = reason := by
    intro k reason h
    congr 1
    funext p
    exact decide_eq_decide.mpr (h p.2)
  have h₀ := hfind 0 _ fun r => (rank_eq_iff r).1
  have h₁ := hfind 1 _ fun r => (rank_eq_iff r).2.1
  have h₂ := hfind 2 _ fun r => (rank_eq_iff r).2.2.1
  have h₃ := hfind 3 _ fun r => (rank_eq_iff r).2.2.2
  have htable : ([0, 1, 2, 3].findSome? fun k =>
      reasons.find? fun p => Ts.Attempt.rank p.2 = k) =
      reasonRank.findSome? fun reason => reasons.find? fun p => p.2 = reason := by
    simp only [reasonRank, List.findSome?_cons, List.findSome?_nil, h₀, h₁, h₂, h₃]
  show (match reasonRank.find? fun r => r ∈ reasons.map Prod.snd with
      | some reason => reasons.find? fun p => p.2 = reason
      | none => reasons.head?) = ([0, 1, 2, 3] ++ [4]).findSome? _
  rw [findSome?_table, List.findSome?_append, htable]
  cases hsome : reasonRank.findSome? fun reason => reasons.find? fun p => p.2 = reason with
  | some p => rfl
  | none =>
    -- nobody gave a reason of the table: the first reason is forwarded
    have hlast : ∀ p ∈ reasons, Ts.Attempt.rank p.2 = 4 := by
      intro p hp
      apply List.idxOf_eq_length
      intro hin
      have hno := (find?_reason reasons p.2).mp (List.findSome?_eq_none_iff.mp hsome p.2 hin)
      exact hno (List.mem_map_of_mem hp)
    cases reasons with
    | nil => rfl
    | cons p reasons =>
      have h₄ := hlast p List.mem_cons_self
      simp [h₄]

theorem image_best (inv : Option Message) (a : Attempt) : (image inv a).best = best a.reasons := by
  unfold Ts.Attempt.best
  rw [best_eq]
  apply head?_insertionSort_by_key (fun p : String × String => Ts.Attempt.rank p.2)
  · decide
  · intro p _
    have hle : Ts.Attempt.rank p.2 ≤ 4 := List.idxOf_le_length
    have : Ts.Attempt.rank p.2 = 0 ∨ Ts.Attempt.rank p.2 = 1 ∨ Ts.Attempt.rank p.2 = 2 ∨
      Ts.Attempt.rank p.2 = 3 ∨ Ts.Attempt.rank p.2 = 4 := by omega
    simpa using this

theorem image_complete (inv : Option Message) (ha : a.session = sid) :
    (image inv a).complete sid = imageOut inv a.checkComplete := by
  unfold Ts.Attempt.complete checkComplete
  rw [image_best]
  by_cases hw : a.outcome ≠ none ∨ a.Waiting
  · rw [if_pos hw]
    exact if_pos hw
  · rw [if_neg hw, ← ha]
    refine (if_neg hw).trans ?_
    cases best a.reasons <;> rfl

theorem image_legEnded (inv : Option Message) (ha : a.session = sid) {leg : String}
    (hl : a.legs.lookup leg = some .delivered) (st : LegState) :
    (image inv a).legEnded sid st leg = imageOut inv (a.setLeg leg st).checkComplete :=
  (if_neg (not_not.mpr hl)).trans (image_complete inv (a := a.setLeg leg st) ha)

theorem fromLeg_terminated {m : Message} {st : LegState} (ht : m.type ≠ .answer) (hst : st ≠ .delivered) :
    a.fromLeg m st = ({ a with heard := insert m.sender a.heard }, [.drop "leg-terminated"]) := by
  unfold fromLeg
  split
  case h_1 h => exact absurd h ht
  case h_2 => exact if_pos hst

theorem fromLeg_reject {m : Message} (ht : m.type = .reject) :
    a.fromLeg m .delivered = { a.setLeg m.sender .rejected with
      heard := insert m.sender a.heard
      reasons := setItem a.reasons m.sender m.reason }.checkComplete := by
  unfold fromLeg
  rw [ht]
  rfl

theorem image_fromLeg (inv : Option Message) (ha : a.Sound sid) {m : Message} {st : LegState}
    (hl : a.legs.lookup m.sender = some st) (ht : m.type ∈ [.progress, .answer, .reject]) :
    (image inv a).fromLeg sid m st = imageOut inv (a.fromLeg m st) := by
  by_cases hans : m.type = .answer
  · refine (if_pos hans).trans ?_
    unfold fromLeg
    rw [hans]
    by_cases hst : st = .delivered
    · subst hst
      rfl
    · dsimp only
      rw [if_neg hst, if_neg hst]
      rfl
  · refine (if_neg hans).trans ?_
    by_cases hst : st = .delivered
    · subst hst
      refine (if_neg (not_not.mpr rfl)).trans ?_
      by_cases hprog : m.type = .progress
      · refine (if_pos hprog).trans ?_
        unfold fromLeg
        rw [hprog]
        rfl
      · refine (if_neg hprog).trans ?_
        have hrej : m.type = .reject := by
          simpa [hans, hprog] using ht
        -- the reject of an outstanding leg is its first
        have hnew : m.sender ∉ a.reasons.map Prod.fst := by
          intro hmem
          obtain ⟨p, hp, hps⟩ := List.mem_map.mp hmem
          have hr := ha.rejects p hp
          rw [hps, hl] at hr
          cases hr
        rw [fromLeg_reject hrej, setItem_new hnew]
        exact image_legEnded inv (a := { a with
          heard := insert m.sender a.heard
          reasons := a.reasons ++ [(m.sender, m.reason)] }) ha.session hl .rejected
    · rw [fromLeg_terminated hans hst]
      exact if_pos hst

/-- The initiator's cancel. An attempt for a device that is also one of its legs
has no other leg outstanding. -/
theorem image_cancel (inv : Option Message) {dest : Option String} (reason : String)
    (hto : dest = none ∨ dest = some a.identity ∨ ∃ leg ∈ dest, leg ∈ a.legs)
    (hself : dest = some a.identity → a.identity ∈ a.legs →
      ∀ leg, a.legs.lookup leg = some .delivered → leg = a.identity) : (image inv a).cancel dest reason =
      imageOut inv (a.cancel (dest.filter (· ∈ a.legs)) reason) := by
  have hreach : ∀ leg, a.legs.lookup leg = some .delivered →
      ((dest.filter (· ∈ a.legs) = none ∨ dest.filter (· ∈ a.legs) = some leg) ↔
        (dest = none ∨ dest = some a.identity ∨ dest = some leg)) := by
    intro leg hl
    cases hd : dest with
    | none => simp
    | some x =>
      by_cases hx : x ∈ a.legs
      · rw [Option.filter_some, if_pos (by simpa using hx)]
        constructor
        · rintro (h | h)
          · cases h
          · exact .inr (.inr h)
        · rintro (h | h | h)
          · cases h
          · obtain rfl := Option.some.inj h
            rw [hself hd hx leg hl]
            exact .inr rfl
          · exact .inr h
      · rw [Option.filter_some, if_neg (by simpa using hx)]
        refine iff_of_true (.inl rfl) ?_
        rw [hd] at hto
        rcases hto with h | h | ⟨leg', h, hin⟩
        · cases h
        · exact .inr (.inl h)
        · obtain rfl := Option.some.inj h
          exact absurd hin hx
  let R (b : Attempt) (t : Ts.Attempt) : Prop := t = image inv b ∧ b.identity = a.identity ∧
    ∀ leg, b.legs.lookup leg = some .delivered → a.legs.lookup leg = some .delivered
  have hturn : ∀ leg ∈ a.legs.sortedKeys, ∀ b t, R b t →
      R (cancelLeg (dest.filter (· ∈ a.legs)) reason b leg).1
        (t.cancelLeg dest reason (id leg)).1 ∧
      (cancelLeg (dest.filter (· ∈ a.legs)) reason b leg).2 = (t.cancelLeg dest reason (id leg)).2 := by
    rintro leg - b t ⟨rfl, hid, hlegs⟩
    unfold cancelLeg Ts.Attempt.cancelLeg
    by_cases hl : b.legs.lookup leg = some .delivered
    · by_cases hin : dest = none ∨ dest = some a.identity ∨ dest = some leg
      · rw [if_pos ⟨hl, (hreach leg (hlegs leg hl)).mpr hin⟩, if_neg]
        · refine ⟨⟨rfl, hid, ?_⟩, rfl⟩
          intro k hk
          rw [lookup_setLeg] at hk
          split at hk
          case isTrue => cases hk
          case isFalse => exact hlegs k hk
        · rintro (h | ⟨h₁, h₂, h₃⟩)
          · exact h hl
          · replace h₂ : dest ≠ some a.identity := hid ▸ h₂
            tauto
      · rw [if_neg fun h => hin ((hreach leg (hlegs leg hl)).mp h.2), if_pos]
        · exact ⟨⟨rfl, hid, hlegs⟩, rfl⟩
        · refine .inr ⟨fun h => hin (.inl h), fun h => hin (.inr (.inl ?_)), fun h => hin (.inr (.inr h))⟩
          rw [← hid]
          exact h
    · rw [if_neg fun h => hl h.1, if_pos (.inl hl)]
      exact ⟨⟨rfl, hid, hlegs⟩, rfl⟩
  obtain ⟨⟨hstate, -, -⟩, hout⟩ := foldEmit_rel hturn a (image inv a) ⟨rfl, rfl, fun _ h => h⟩
  rw [List.map_id] at hstate hout
  unfold Ts.Attempt.cancel cancel imageOut
  dsimp only
  replace hstate : (foldEmit (Ts.Attempt.cancelLeg dest reason) (image inv a)
    (image inv a).legs.sortedKeys).1 = _ := hstate
  replace hout : _ = (foldEmit (Ts.Attempt.cancelLeg dest reason) (image inv a)
    (image inv a).legs.sortedKeys).2 := hout
  rw [hstate, ← hout]
  generalize foldEmit (cancelLeg (dest.filter (· ∈ a.legs)) reason) a a.legs.sortedKeys = f
  by_cases hdone : f.1.outcome = none ∧ ¬ f.1.Waiting
  · rw [if_pos hdone]
    exact congrArg (·, f.2) (if_pos hdone)
  · rw [if_neg hdone]
    exact congrArg (·, f.2) (if_neg hdone)

/-- A leg that has sent nothing and has not terminated. -/
def Silent (a : Attempt) (leg : String) : Prop := a.legs.lookup leg = some .delivered ∧ leg ∉ a.heard

instance (a : Attempt) : DecidablePred a.Silent := fun _ => inferInstanceAs (Decidable (_ ∧ _))

theorem expireLeg_skips {legs : List String} (h : ∀ leg ∈ legs, ¬ a.Silent leg) :
    foldEmit (Ts.Attempt.expireLeg sid) (image inv a) legs = (image inv a, []) := by
  induction legs with
  | nil => rfl
  | cons leg legs ih =>
    have hskip : (image inv a).expireLeg sid leg = (image inv a, []) :=
      if_neg (h leg List.mem_cons_self)
    rw [foldEmit_cons, hskip, ih fun k hk => h k (List.mem_cons_of_mem leg hk)]
    rfl

theorem checkComplete_frame (a : Attempt) :
    a.checkComplete.1.legs = a.legs ∧ a.checkComplete.1.heard = a.heard := by
  unfold checkComplete
  split
  case isTrue => exact ⟨rfl, rfl⟩
  case isFalse => split <;> exact ⟨rfl, rfl⟩

theorem silent_setLeg {leg k : String} (hk : k ≠ leg) (st : LegState) :
    (a.setLeg leg st).Silent k ↔ a.Silent k := by
  unfold Silent
  rw [lookup_setLeg, if_neg hk]
  rfl

theorem image_expireLegs (inv : Option Message) {legs : List String} (hnd : legs.Nodup) :
    ∀ a : Attempt, a.session = sid → foldEmit (Ts.Attempt.expireLeg sid) (image inv a) legs =
        match legs.filter fun leg => a.Silent leg with
        | [] => (image inv a, [])
        | leg :: silent => imageOut inv
            ((leg :: silent).foldl (fun a leg => a.setLeg leg .expired) a).checkComplete := by
  induction legs with
  | nil => exact fun _ _ => rfl
  | cons leg legs ih =>
    intro a ha
    obtain ⟨hleg, hlegs⟩ := List.nodup_cons.mp hnd
    by_cases hs : a.Silent leg
    · have hend : (image inv a).expireLeg sid leg = imageOut inv (a.setLeg leg .expired).checkComplete :=
        (if_pos hs).trans (image_legEnded inv ha hs.1 .expired)
      have hrest : (legs.filter fun k => (a.setLeg leg .expired).Silent k) =
          legs.filter fun k => a.Silent k := by
        apply List.filter_congr
        intro k hk
        exact decide_eq_decide.mpr (silent_setLeg (fun h : k = leg => hleg (h ▸ hk)) .expired)
      rw [List.filter_cons_of_pos (by simpa using hs), foldEmit_cons, hend]
      cases hsil : legs.filter fun k => a.Silent k with
      | nil =>
        have hnone : ∀ k ∈ legs, ¬ (a.setLeg leg .expired).checkComplete.1.Silent k := by
          intro k hk hks
          have hframe := checkComplete_frame (a.setLeg leg .expired)
          unfold Silent at hks
          rw [hframe.1, hframe.2] at hks
          have hmem : k ∈ legs.filter fun k => a.Silent k := by
            rw [← hrest]
            exact List.mem_filter.mpr ⟨hk, decide_eq_true hks⟩
          rw [hsil] at hmem
          cases hmem
        have hskip := @expireLeg_skips _ inv sid _ hnone
        unfold imageOut
        dsimp only
        rw [hskip, List.append_nil]
        rfl
      | cons k silent =>
        -- another leg is outstanding, so nothing completes yet
        have hk : k ∈ legs.filter fun k => a.Silent k := by
          rw [hsil]
          exact List.mem_cons_self
        have hwait : (a.setLeg leg .expired).Waiting := by
          rw [← hrest, List.mem_filter, decide_eq_true_eq] at hk
          exact waiting_iff.mpr ⟨k, hk.2.1⟩
        have hopen : (a.setLeg leg .expired).checkComplete = (a.setLeg leg .expired, []) :=
          if_pos (.inr hwait)
        have hih := ih hlegs (a.setLeg leg .expired) ha
        rw [hrest, hsil] at hih
        unfold imageOut
        rw [hopen]
        dsimp only
        rw [hih, List.nil_append]
        rfl
    · have hskip : (image inv a).expireLeg sid leg = (image inv a, []) := if_neg hs
      rw [List.filter_cons_of_neg (by simpa using hs), foldEmit_cons, hskip]
      exact ih hlegs a ha

theorem image_expireSilent (inv : Option Message) (ha : a.session = sid) (now : Nat) :
    (image inv a).expireSilent now sid =
      imageOut inv (if ∃ t, inv.bind (·.expiresAt) = some t ∧ t ≤ now then a.expireSilent
        else (a, [])) := by
  unfold Ts.Attempt.expireSilent
  rw [show (image inv a).expires = inv.bind (·.expiresAt) from rfl]
  cases hexp : inv.bind (·.expiresAt) with
  | none => rw [if_neg (by simp)]; rfl
  | some t =>
    dsimp only
    by_cases hn : now < t
    · rw [if_pos hn, if_neg]
      · rfl
      · rintro ⟨u, hu, hle⟩
        obtain rfl := Option.some.inj hu
        omega
    · rw [if_neg hn, if_pos ⟨t, rfl, Nat.le_of_not_lt hn⟩]
      refine (image_expireLegs inv (Dict.nodup_sortedKeys a.legs) a ha).trans ?_
      unfold expireSilent silent
      cases hsil : a.legs.sortedKeys.filter fun leg => a.Silent leg with
      | nil =>
        have h : (a.legs.sortedKeys.filter fun leg =>
          a.legs.lookup leg = some .delivered ∧ leg ∉ a.heard) = [] := hsil
        rw [h]
        rfl
      | cons leg legs =>
        have h : (a.legs.sortedKeys.filter fun leg =>
          a.legs.lookup leg = some .delivered ∧ leg ∉ a.heard) = leg :: legs := hsil
        rw [h]

end Attempt

/-- The same envelope, as the other relay keeps it. -/
def Held.image (h : Held) : Ts.Queued := ⟨h.dest, h.msg, h.deadline⟩

/-- The relay without its attempts. -/
def Ts.Relay.store (t : Ts.Relay) : Ts.Relay := { t with attempts := ∅ }

namespace Relay

/-! ## States -/

/-- No device is bound for `x`, and `x` is no bound device. -/
def Unbound (r : Relay) (x : String) : Prop := r.boundFor x = ∅ ∧ ∀ identity, x ∉ r.boundFor identity

/-- The two relays agree on everything but the attempts. -/
structure Stores (r : Relay) (t : Ts.Relay) : Prop where
  now : t.now = r.now
  retention : t.retention = r.retention
  bound : ∀ d identity, t.bound.lookup d = some identity ↔ d ∈ r.boundFor identity
  devices : ∀ d identity, d ∈ r.boundFor identity → r.devices.lookup d = some identity
  known : ∀ x, x ∈ t.known ↔ x ∈ r.bindings ∨ x ∈ r.devices
  ended : ∀ x, (x ∈ r.bindings ∨ x ∈ r.devices) → r.Unbound x → t.lastUnbound.lookup x = r.lastBound.lookup x
  /-- The queues of all recipients together, in the order of arrival. -/
  queue : ∃ l : List Held, l.Pairwise (fun g h => g.arrival < h.arrival) ∧
    t.queue = l.map Held.image ∧ ∀ dest, r.heldFor dest = l.filter fun h => h.dest = dest
  inbox : ∀ dest ∈ r.inbox, r.heldFor dest ≠ []

/-- The two relays in the same state. -/
structure Agree (r : Relay) (t : Ts.Relay) : Prop where
  stores : Stores r t
  attempts : ∀ sid, t.attempts.lookup sid = (r.attempts.lookup sid).map (image (r.invites.lookup sid))
  invites : ∀ sid, r.attempts.lookup sid = none → r.invites.lookup sid = none

theorem agree_new (ctx : Context) : Agree (.new ctx) (.new ctx) := by
  refine ⟨⟨rfl, rfl, ?_, ?_, ?_, fun _ _ _ => rfl, ⟨[], .nil, rfl, fun _ => rfl⟩, ?_⟩,
    fun _ => rfl, fun _ _ => rfl⟩
  · intro d identity
    exact ⟨nofun, fun h => absurd h (Finset.notMem_empty d)⟩
  · exact fun d identity h => absurd h (Finset.notMem_empty d)
  · intro x
    refine ⟨fun h => absurd h (Finset.notMem_empty x), ?_⟩
    rintro (h | h) <;> cases h
  · intro dest h
    cases h

variable {r : Relay} {t : Ts.Relay}

theorem Stores.store (h : Stores r t) : Stores r.store t.store :=
  ⟨h.now, h.retention, h.bound, h.devices, h.known, h.ended, h.queue, h.inbox⟩

theorem Stores.of_store (h : Stores r.store t.store) : Stores r t :=
  ⟨h.now, h.retention, h.bound, h.devices, h.known, h.ended, h.queue, h.inbox⟩

theorem Stores.congr {r' : Relay} {t' : Ts.Relay} (h : Stores r t) (hr : r'.store = r.store)
    (ht : t'.store = t.store) : Stores r' t' := by
  apply Stores.of_store
  rw [hr, ht]
  exact h.store

theorem devicesOf_eq {t : Ts.Relay} {identity : String} {s : Finset String}
    (h : ∀ d, t.bound.lookup d = some identity ↔ d ∈ s) : t.devicesOf identity = sorted s := by
  apply sorted_eq
  · exact t.bound.keys_nodup.filter _
  · intro d
    rw [List.mem_filter, decide_eq_true_eq, ← h, ← AList.mem_keys]
    exact ⟨fun hd => hd.2, fun hd => ⟨Dict.mem_iff_lookup.mpr ⟨identity, hd⟩, hd⟩⟩

theorem sorted_eq_nil {s : Finset String} : sorted s = [] ↔ s = ∅ := by
  constructor
  · intro h
    rw [← toFinset_sorted s, h]
    rfl
  · rintro rfl
    rfl

theorem Stores.devicesOf (h : Stores r t) (identity : String) :
    t.devicesOf identity = sorted (r.boundFor identity) :=
  devicesOf_eq fun d => h.bound d identity

theorem Stores.known_iff (h : Stores r t) (x : String) : x ∈ t.known ↔ r.known x = true := by
  rw [h.known, Relay.known]
  simp

theorem Stores.mem_bound (h : Stores r t) (d : String) :
    d ∈ t.bound ↔ ∃ identity, d ∈ r.boundFor identity := by
  rw [Dict.mem_iff_lookup]
  exact exists_congr fun identity => h.bound d identity

theorem Agree.mem_attempts (h : Agree r t) (sid : String) : sid ∈ t.attempts ↔ sid ∈ r.attempts := by
  rw [Dict.mem_iff_lookup, Dict.mem_iff_lookup, h.attempts]
  simp

theorem Agree.put (h : Agree r t) (sid : String) (o : Attempt × List Emit) :
    Agree (r.put sid o).1 (t.put sid (imageOut (r.invites.lookup sid) o)).1 := by
  refine ⟨h.stores.congr rfl rfl, ?_, ?_⟩
  · intro k
    rw [lookup_put]
    show (t.attempts.insert sid _).lookup k = _
    rw [Dict.lookup_insert_eq]
    split
    case isTrue hk => rw [hk]; rfl
    case isFalse => exact h.attempts k
  · intro k hk
    rw [lookup_put] at hk
    split at hk
    case isTrue => cases hk
    case isFalse => exact h.invites k hk

/-! ## The queue -/

theorem Agree.enqueue (h : Agree r t) (hr : r.Stored) (dest : String) (m : Message) :
    Agree (r.enqueue dest m).1 (t.hold dest m).1 := by
  refine ⟨⟨h.stores.now, h.stores.retention, h.stores.bound, h.stores.devices, h.stores.known,
    h.stores.ended, ?_, ?_⟩, h.attempts, h.invites⟩
  · obtain ⟨l, hl, hq, hheld⟩ := h.stores.queue
    refine ⟨l ++ [r.envelope dest m], ?_, ?_, ?_⟩
    · refine List.pairwise_append.mpr ⟨hl, List.pairwise_singleton _ _, ?_⟩
      intro g hg k hk
      rw [List.mem_singleton.mp hk]
      have hin : g ∈ r.heldFor g.dest := by
        rw [hheld]
        exact List.mem_filter.mpr ⟨hg, decide_eq_true rfl⟩
      exact Nat.lt_succ_of_le (hr.arrived _ g hin)
    · rw [List.map_append, ← hq]
      show t.queue ++ [_] = t.queue ++ [_]
      rw [h.stores.now, h.stores.retention]
      rfl
    · intro k
      rw [heldFor_enqueue rfl, List.filter_append, ← hheld]
      split
      case isTrue hk =>
        rw [hk]
        simp [envelope]
      case isFalse hk =>
        have hne : ¬ dest = k := fun h => hk h.symm
        simp [envelope, hne]
  · intro k hk
    rw [heldFor_enqueue rfl]
    split
    case isTrue => simp
    case isFalse hne =>
      apply h.stores.inbox
      have hk' : k ∈ r.inbox.insert dest (r.heldFor dest ++ [r.envelope dest m]) := hk
      exact ((AList.mem_insert _).mp hk').resolve_left hne

/-- No queue that is stored is empty. -/
def Filled (r : Relay) : Prop := ∀ dest ∈ r.inbox, r.heldFor dest ≠ []

theorem Filled.keep {r' : Relay} {dest : String} {keep : List Held} (h : r.Filled)
    (hi : r'.inbox = if keep = [] then r.inbox.erase dest else r.inbox.insert dest keep) : r'.Filled := by
  intro k hk
  rw [heldFor_keep hi]
  rw [hi] at hk
  split
  case isTrue hkd =>
    intro hnil
    rw [if_pos hnil, hkd] at hk
    exact (AList.mem_erase.mp hk).1 rfl
  case isFalse hne =>
    apply h
    split at hk
    case isTrue => exact (AList.mem_erase.mp hk).2
    case isFalse => exact ((AList.mem_insert _).mp hk).resolve_left hne

theorem expireQueues_eq (r : Relay) : r.expireQueues.1 = { r with inbox := r.expireQueues.1.inbox } := by
  have h : r.expireQueues.1 = { r.expireQueues.1.empty with inbox := r.expireQueues.1.inbox } := rfl
  rw [(expireQueues_spec r).1] at h
  exact h

theorem expireQueues_filled (h : r.Filled) : r.expireQueues.1.Filled :=
  foldEmit_invariant (P := Filled) (fun _ _ _ hs => hs.keep rfl) r h

theorem filter_heldFor {l : List Held} (hheld : ∀ dest, r.heldFor dest = l.filter fun h => h.dest = dest)
    {h : Held} (hh : h ∈ l) : h ∈ r.heldFor h.dest := by
  rw [hheld]
  exact List.mem_filter.mpr ⟨hh, decide_eq_true rfl⟩

theorem Agree.expire (h : Agree r t) :
    Agree r.expireQueues.1 t.expireQueue.1 ∧ r.expireQueues.2 = t.expireQueue.2 := by
  obtain ⟨-, hheld', hout⟩ := expireQueues_spec r
  have hfilled := expireQueues_filled (r := r) h.stores.inbox
  have heq := expireQueues_eq r
  obtain ⟨l, hl, hq, hheld⟩ := h.stores.queue
  constructor
  · generalize r.expireQueues.1 = r' at hheld' hfilled heq
    refine ⟨⟨?_, ?_, ?_, ?_, ?_, ?_, ?_, hfilled⟩, ?_, ?_⟩
    · rw [heq]
      exact h.stores.now
    · rw [heq]
      exact h.stores.retention
    · rw [heq]
      exact h.stores.bound
    · rw [heq]
      exact h.stores.devices
    · rw [heq]
      exact h.stores.known
    · rw [heq]
      exact h.stores.ended
    · refine ⟨l.filter fun h => r.now < h.deadline, hl.filter _, ?_, ?_⟩
      · show t.queue.filter _ = _
        rw [hq, h.stores.now, List.filter_map]
        rfl
      · intro dest
        rw [hheld', hheld, List.filter_filter, List.filter_filter]
        apply List.filter_congr
        intro g _
        rw [Bool.and_comm]
    · rw [heq]
      exact h.attempts
    · rw [heq]
      exact h.invites
  · -- the other relay sorts one list by recipient
    have hkey := insertionSort_by_key Ts.Queued.dest
      (t.queue.filter fun q => q.deadline ≤ t.now) (Dict.pairwise_sortedKeys r.inbox) ?_
    · rw [hout]
      show _ = (List.insertionSort _ _).map _
      rw [hkey, List.map_flatMap]
      apply List.flatMap_congr
      intro dest _
      rw [hheld, hq, h.stores.now, List.filter_map, List.filter_map, List.map_map,
        List.filter_filter, List.filter_filter]
      have hfilter : (l.filter fun g => decide (g.deadline ≤ r.now) && decide (g.dest = dest)) =
          l.filter fun g => ((fun q : Ts.Queued => decide (q.dest = dest)) ∘ Held.image) g &&
            ((fun q : Ts.Queued => decide (q.deadline ≤ r.now)) ∘ Held.image) g := by
        apply List.filter_congr
        intro g _
        exact Bool.and_comm ..
      rw [hfilter]
      apply List.map_congr_left
      intro g hg
      have hdest := (List.mem_filter.mp hg).2
      rw [Bool.and_eq_true] at hdest
      have hd : g.dest = dest := of_decide_eq_true hdest.1
      rw [← hd]
      rfl
    · intro q hin
      rw [hq] at hin
      obtain ⟨g, hg, rfl⟩ := List.mem_map.mp (List.mem_filter.mp hin).1
      rw [Dict.mem_sortedKeys]
      by_contra hno
      replace hno : g.dest ∉ r.inbox := hno
      have hin := filter_heldFor hheld hg
      unfold heldFor at hin
      rw [AList.lookup_eq_none.mpr hno] at hin
      cases hin

/-! ## The clock -/

theorem Agree.loop (h : Agree r t) {f : Relay → String → Relay × List Emit} {g : Turn}
    (hf : Turns f g) (hstore : ∀ (s : Relay) (sid : String), s.Tracks (f s sid))
    {q : String → Ts.Attempt → Ts.Attempt × List Emit} (hturn : ∀ sid a, r.attempts.lookup sid = some a →
      q sid (Routing.image (r.invites.lookup sid) a) =
        imageOut (r.invites.lookup sid) (g r.now r.invites sid a)) :
    Agree (foldEmit f r r.attempts.sortedKeys).1
        { t with attempts := (sweep q t.attempts).1 } ∧
      (foldEmit f r r.attempts.sortedKeys).2 = (sweep q t.attempts).2 := by
  obtain ⟨hlook, hout⟩ := hf.loop r
  obtain ⟨hlook', hout'⟩ := sweep_spec q t.attempts
  have hinvites : (foldEmit f r r.attempts.sortedKeys).1.invites = r.invites := by
    refine foldEmit_invariant (P := fun s : Relay => s.invites = r.invites) ?_ r rfl
    intro sid _ s hs
    exact (congrArg Prod.snd (hf.clock s sid)).trans hs
  have htracks := tracks_foldEmit hstore r.attempts.sortedKeys r
  constructor
  · refine ⟨h.stores.congr htracks.store rfl, ?_, ?_⟩
    · intro sid
      rw [hinvites, hlook]
      refine (hlook' sid).trans ?_
      rw [h.attempts]
      cases ha : r.attempts.lookup sid with
      | none => rfl
      | some a =>
        simp only [Option.map_some]
        rw [hturn sid a ha]
        rfl
    · intro sid hsid
      rw [hinvites]
      rw [hlook] at hsid
      exact h.invites sid (Option.map_eq_none_iff.mp hsid)
  · refine hout.trans (Eq.trans ?_ hout'.symm)
    rw [Dict.sortedKeys_congr h.mem_attempts]
    apply List.flatMap_congr
    intro sid _
    rw [h.attempts]
    cases ha : r.attempts.lookup sid with
    | none => rfl
    | some a =>
      simp only [Option.map_some, Option.elim_some]
      rw [hturn sid a ha]
      rfl

theorem Agree.silence (h : Agree r t) (ht : r.Tracked) : Agree r.expireSilentLegs.1 t.expireSilentLegs.1 ∧
      r.expireSilentLegs.2 = t.expireSilentLegs.2 := by
  apply h.loop turns_expireSilentLeg tracks_expireSilentLeg
  intro sid a ha
  rw [h.stores.now]
  exact Attempt.image_expireSilent _ (ht sid a ha).session r.now

/-! ## Forgetting -/

/-- One attempt and its invite. -/
def file (r : Relay) (sid : String) : Option Attempt × Option Message :=
  (r.attempts.lookup sid, r.invites.lookup sid)

/-- What `forget` leaves of them. -/
def outdated (now : Nat) (v : Option Attempt × Option Message) : Option Attempt × Option Message :=
  match v.1 with
  | some a => if a.last + tQueueCapS < now then (none, none) else v
  | none => v

theorem forgetAttempts_spec (r : Relay) (sid : String) :
    (r.attempts.sortedKeys.foldl forgetAttempt r).file sid = outdated r.now (r.file sid) := by
  have hturn : ∀ s k, (forgetAttempt s k).now = s.now ∧
      (forgetAttempt s k).file k = outdated s.now (s.file k) ∧
      ∀ j, j ≠ k → (forgetAttempt s k).file j = s.file j := by
    intro s k
    unfold forgetAttempt outdated file
    cases ha : s.attempts.lookup k with
    | none => exact ⟨rfl, by rw [ha], fun _ _ => rfl⟩
    | some a =>
      dsimp only
      by_cases hold : a.last + tQueueCapS < s.now
      · rw [if_pos hold, if_pos hold]
        refine ⟨rfl, ?_, ?_⟩
        · rw [AList.lookup_erase, AList.lookup_erase]
        · intro j hj
          rw [AList.lookup_erase_ne hj, AList.lookup_erase_ne hj]
      · rw [if_neg hold, if_neg hold]
        exact ⟨rfl, by rw [ha], fun _ _ => rfl⟩
  have hkeys := @foldl_keys _ _ _ _ _ file (fun s => s.now) forgetAttempt
    (fun now _ v => outdated now v) (fun s k => (hturn s k).1) (fun s k => (hturn s k).2.1)
    (fun s k => (hturn s k).2.2) _ (Dict.nodup_sortedKeys r.attempts) r
  rw [hkeys.2 sid]
  split
  case isTrue => rfl
  case isFalse hmem =>
    rw [Dict.mem_sortedKeys, ← AList.lookup_eq_none] at hmem
    unfold outdated file
    rw [hmem]

/-- What is known of one recipient. -/
def entry (r : Relay) (x : String) : Option (Finset String) × Option String × Option Nat :=
  (r.bindings.lookup x, r.devices.lookup x, r.lastBound.lookup x)

/-- What `forget` leaves of it, when it is time. -/
def forgotten (bound : String → Finset String) (x : String)
    (v : Option (Finset String) × Option String × Option Nat) :
    Option (Finset String) × Option String × Option Nat :=
  match v.2.1 with
  | some identity => (v.1, if x ∈ bound identity then some identity else none, none)
  | none => (if bound x = ∅ then none else v.1, none, none)

theorem forgetRecipients_spec (r : Relay) (x : String) : (r.lapsed.foldl forgetRecipient r).entry x =
      if x ∈ r.lapsed then forgotten r.boundFor x (r.entry x) else r.entry x := by
  have hown : ∀ s k, (forgetRecipient s k).entry k = forgotten s.boundFor k (s.entry k) := by
    intro s k
    have hbound : ({ s with lastBound := s.lastBound.erase k } : Relay).boundFor = s.boundFor := rfl
    unfold forgetRecipient entry forgotten
    dsimp only
    rw [hbound]
    cases hd : s.devices.lookup k with
    | some identity =>
      dsimp only
      by_cases hin : k ∈ s.boundFor identity
      · rw [if_pos hin, if_pos hin]
        simp [hd, AList.lookup_erase]
      · rw [if_neg hin, if_neg hin]
        simp [AList.lookup_erase]
    | none =>
      dsimp only
      by_cases hb : s.boundFor k = ∅
      · rw [if_pos hb, if_pos hb]
        simp [hd, AList.lookup_erase]
      · rw [if_neg hb, if_neg hb]
        simp [hd, AList.lookup_erase]
  have hother : ∀ s k j, j ≠ k → (forgetRecipient s k).entry j = s.entry j := by
    intro s k j hj
    unfold forgetRecipient entry
    dsimp only
    split <;> split <;> simp [AList.lookup_erase_ne hj]
  have hnd : r.lapsed.Nodup := (Dict.nodup_sortedKeys r.lastBound).filter _
  exact (@foldl_keys _ _ _ _ _ entry boundFor forgetRecipient forgotten
    (fun s k => boundFor_forgetRecipient s k) hown hother _ hnd r).2 x

theorem forgetAttempts_store (r : Relay) (sids : List String) :
    (sids.foldl forgetAttempt r).store = r.store := by
  refine List.foldlRecOn (motive := fun s : Relay => s.store = r.store) sids forgetAttempt rfl ?_
  intro s hs sid _
  unfold forgetAttempt
  split
  case h_2 => exact hs
  case h_1 => split <;> exact hs

theorem forgetRecipients_rest (r : Relay) (whos : List String) : ∃ b d l, whos.foldl forgetRecipient r =
      { r with bindings := b, devices := d, lastBound := l } := by
  refine List.foldlRecOn (motive := fun s : Relay => ∃ b d l,
    s = { r with bindings := b, devices := d, lastBound := l }) whos forgetRecipient
    ⟨_, _, _, rfl⟩ ?_
  rintro s ⟨b, d, l, rfl⟩ who -
  unfold forgetRecipient
  dsimp only
  split
  case h_1 => split <;> exact ⟨_, _, _, rfl⟩
  case h_2 => split <;> exact ⟨_, _, _, rfl⟩

theorem boundFor_forgetRecipients (r : Relay) (whos : List String) :
    (whos.foldl forgetRecipient r).boundFor = r.boundFor :=
  List.foldlRecOn (motive := fun s : Relay => s.boundFor = r.boundFor) whos forgetRecipient rfl
    fun s hs who _ => (boundFor_forgetRecipient s who).trans hs

theorem mem_lapsed {x : String} :
    x ∈ r.lapsed ↔ (∃ u, r.lastBound.lookup x = some u ∧ u + r.retention < r.now) ∧ x ∉ r.inbox := by
  unfold lapsed
  rw [List.mem_filter, Dict.mem_sortedKeys, Bool.and_eq_true, decide_eq_true_eq,
    Option.any_eq_true, Dict.mem_iff_lookup]
  constructor
  · rintro ⟨-, ⟨u, hu, hlt⟩, hi⟩
    exact ⟨⟨u, hu, of_decide_eq_true hlt⟩, hi⟩
  · rintro ⟨⟨u, hu, hlt⟩, hi⟩
    exact ⟨⟨u, hu⟩, ⟨u, hu, decide_eq_true hlt⟩, hi⟩

theorem Stores.lapsed_iff (h : Stores r t) {x : String} (hk : x ∈ r.bindings ∨ x ∈ r.devices) :
    t.Lapsed x ↔ r.Unbound x ∧ x ∈ r.lapsed := by
  have hnow : x ∉ t.boundNow ↔ r.Unbound x := by
    unfold Ts.Relay.boundNow Unbound
    rw [List.mem_append, not_or, ← AList.mem_keys, h.mem_bound, Dict.mem_values]
    constructor
    · rintro ⟨hdev, hid⟩
      refine ⟨?_, fun identity hin => hdev ⟨identity, hin⟩⟩
      by_contra hne
      obtain ⟨d, hd⟩ := Finset.nonempty_iff_ne_empty.mpr hne
      exact hid ⟨d, (h.bound d x).mpr hd⟩
    · rintro ⟨hempty, hdev⟩
      refine ⟨fun ⟨identity, hin⟩ => hdev identity hin, ?_⟩
      rintro ⟨d, hd⟩
      have hin := (h.bound d x).mp hd
      rw [hempty] at hin
      exact Finset.notMem_empty d hin
  have hqueue : (∀ q ∈ t.queue, q.dest ≠ x) ↔ x ∉ r.inbox := by
    obtain ⟨l, -, hq, hheld⟩ := h.queue
    rw [hq]
    constructor
    · intro hall hin
      apply h.inbox x hin
      rw [hheld, List.filter_eq_nil_iff]
      intro g hg
      rw [decide_eq_true_eq]
      exact hall _ (List.mem_map_of_mem hg)
    · rintro hno q hin rfl
      obtain ⟨g, hg, rfl⟩ := List.mem_map.mp hin
      have hheld' := filter_heldFor hheld hg
      unfold heldFor at hheld'
      rw [show r.inbox.lookup g.dest = none from AList.lookup_eq_none.mpr hno] at hheld'
      cases hheld'
  unfold Ts.Relay.Lapsed
  rw [hnow, hqueue, mem_lapsed]
  constructor
  · rintro ⟨hu, hi, u, hlast, hlt⟩
    rw [Option.mem_def, h.ended x hk hu] at hlast
    rw [h.now, h.retention] at hlt
    exact ⟨hu, ⟨u, hlast, by omega⟩, hi⟩
  · rintro ⟨hu, ⟨u, hlast, hlt⟩, hi⟩
    refine ⟨hu, hi, u, ?_, ?_⟩
    · rw [Option.mem_def, h.ended x hk hu]
      exact hlast
    · rw [h.now, h.retention]
      omega

theorem lookup_bindings_of_bound {x : String} (h : r.boundFor x ≠ ∅) :
    r.bindings.lookup x = some (r.boundFor x) := by
  unfold boundFor at h ⊢
  cases hb : r.bindings.lookup x with
  | none =>
    rw [hb] at h
    exact absurd rfl h
  | some s => rfl

theorem Stores.forgotten_known (h : Stores r t) {x : String}
    (hone : r.Unbound x → ¬ (x ∈ r.bindings ∧ x ∈ r.devices)) :
    ((forgotten r.boundFor x (r.entry x)).1 ≠ none ∨ (forgotten r.boundFor x (r.entry x)).2.1 ≠ none) ↔
    (x ∈ r.bindings ∨ x ∈ r.devices) ∧ ¬ r.Unbound x := by
  have hdevices : x ∈ r.devices ↔ r.devices.lookup x ≠ none := by
    rw [ne_eq, AList.lookup_eq_none, not_not]
  have hbindings : x ∈ r.bindings ↔ r.bindings.lookup x ≠ none := by
    rw [ne_eq, AList.lookup_eq_none, not_not]
  rw [hdevices, hbindings]
  rw [hdevices, hbindings] at hone
  unfold forgotten entry Unbound
  unfold Unbound at hone
  dsimp only
  cases hd : r.devices.lookup x with
  | some identity =>
    dsimp only
    by_cases hin : x ∈ r.boundFor identity
    · rw [if_pos hin]
      refine iff_of_true (.inr nofun) ⟨.inr nofun, fun hu => hu.2 identity hin⟩
    · rw [if_neg hin]
      have hdev : ∀ identity, x ∉ r.boundFor identity := by
        intro identity' hin'
        have hdev := h.devices x identity' hin'
        rw [hd] at hdev
        obtain rfl := Option.some.inj hdev
        exact hin hin'
      rw [hd] at hone
      constructor
      · rintro (hb | hb)
        · exact ⟨.inr nofun, fun hu => hone hu ⟨hb, nofun⟩⟩
        · exact absurd rfl hb
      · rintro ⟨-, hu⟩
        left
        have hne : r.boundFor x ≠ ∅ := fun hempty => hu ⟨hempty, hdev⟩
        rw [lookup_bindings_of_bound hne]
        exact nofun
  | none =>
    dsimp only
    have hdev : ∀ identity, x ∉ r.boundFor identity := by
      intro identity hin
      rw [h.devices x identity hin] at hd
      cases hd
    by_cases hb : r.boundFor x = ∅
    · rw [if_pos hb]
      refine iff_of_false ?_ fun hk => hk.2 ⟨hb, hdev⟩
      rintro (hk | hk) <;> exact hk rfl
    · rw [if_neg hb, lookup_bindings_of_bound hb]
      exact iff_of_true (.inl nofun) ⟨.inl nofun, fun hu => hb hu.1⟩

/-- What both relays forget. A recipient that is due is known as a device or as
an identity, not as both. -/
theorem Agree.forget (h : Agree r t)
    (hone : ∀ x ∈ r.lapsed, r.Unbound x → ¬ (x ∈ r.bindings ∧ x ∈ r.devices)) : Agree r.forget t.forget := by
  have hfile := forgetAttempts_spec r
  have hstore := forgetAttempts_store r r.attempts.sortedKeys
  unfold Relay.forget
  dsimp only
  generalize r.attempts.sortedKeys.foldl forgetAttempt r = s at hfile hstore
  have hs : Stores s t := h.stores.congr hstore rfl
  have hone' : ∀ x ∈ s.lapsed, s.Unbound x → ¬ (x ∈ s.bindings ∧ x ∈ s.devices) := by
    have hall : ∀ x ∈ s.store.lapsed, s.store.Unbound x → ¬ (x ∈ s.store.bindings ∧ x ∈ s.store.devices) := by
      rw [hstore]
      exact hone
    exact hall
  have hentry := forgetRecipients_spec s
  have hbound := boundFor_forgetRecipients s s.lapsed
  obtain ⟨b, d, l, hrest⟩ := forgetRecipients_rest s s.lapsed
  rw [hrest] at hentry hbound ⊢
  -- who is known afterwards
  have hknown : ∀ x, (x ∈ b ∨ x ∈ d) ↔ (x ∈ s.bindings ∨ x ∈ s.devices) ∧ ¬ (s.Unbound x ∧ x ∈ s.lapsed) := by
    intro x
    have hx := hentry x
    have hmem : (x ∈ b ∨ x ∈ d) ↔ (b.lookup x ≠ none ∨ d.lookup x ≠ none) := by
      rw [ne_eq, AList.lookup_eq_none, not_not, ne_eq, AList.lookup_eq_none, not_not]
    rw [hmem]
    split at hx
    case isTrue hlapsed =>
      have hf := hs.forgotten_known (hone' x hlapsed)
      rw [← hx] at hf
      refine hf.trans (and_congr_right fun _ => not_congr ?_)
      exact ⟨fun hu => ⟨hu, hlapsed⟩, fun hu => hu.1⟩
    case isFalse hlapsed =>
      obtain ⟨hb, hd⟩ := Prod.ext_iff.mp hx
      obtain ⟨hd, -⟩ := Prod.ext_iff.mp hd
      replace hb : b.lookup x = s.bindings.lookup x := hb
      replace hd : d.lookup x = s.devices.lookup x := hd
      rw [hb, hd, ne_eq, AList.lookup_eq_none, not_not, ne_eq, AList.lookup_eq_none, not_not]
      exact ⟨fun hk => ⟨hk, fun hu => hlapsed hu.2⟩, fun hk => hk.1⟩
  have hunbound : ∀ x, ({ s with bindings := b, devices := d, lastBound := l } : Relay).Unbound x ↔
      s.Unbound x := by
    intro x
    unfold Unbound
    rw [hbound]
  refine ⟨⟨hs.now, hs.retention, ?_, ?_, ?_, ?_, hs.queue, hs.inbox⟩, ?_, ?_⟩
  · rw [hbound]
    exact hs.bound
  · rw [hbound]
    intro x identity hin
    have hx := hentry x
    show d.lookup x = some identity
    have hdev := hs.devices x identity hin
    split at hx
    case isTrue =>
      obtain ⟨-, hd⟩ := Prod.ext_iff.mp hx
      obtain ⟨hd, -⟩ := Prod.ext_iff.mp hd
      refine Eq.trans hd ?_
      unfold forgotten entry
      dsimp only
      rw [hdev]
      exact if_pos hin
    case isFalse =>
      obtain ⟨-, hd⟩ := Prod.ext_iff.mp hx
      obtain ⟨hd, -⟩ := Prod.ext_iff.mp hd
      exact Eq.trans hd hdev
  · intro x
    show x ∈ t.known.filter _ ↔ (x ∈ b ∨ x ∈ d)
    rw [Finset.mem_filter, hs.known, hknown]
    exact and_congr_right fun hk => not_congr (hs.lapsed_iff hk)
  · intro x hk hu
    obtain ⟨hk, hnot⟩ := (hknown x).mp hk
    rw [hunbound] at hu
    have hlapsed : x ∉ s.lapsed := fun hin => hnot ⟨hu, hin⟩
    have hx := hentry x
    rw [if_neg hlapsed] at hx
    obtain ⟨-, hd⟩ := Prod.ext_iff.mp hx
    obtain ⟨-, hl⟩ := Prod.ext_iff.mp hd
    replace hl : l.lookup x = s.lastBound.lookup x := hl
    show (t.lastUnbound.filter _).lookup x = l.lookup x
    rw [Dict.lookup_filter, hl, ← hs.ended x hk hu]
    cases t.lastUnbound.lookup x with
    | none => rfl
    | some u =>
      rw [Option.filter_some, if_pos]
      rw [decide_eq_true_eq]
      exact fun hin => hlapsed ((hs.lapsed_iff hk).mp hin.2).2
  · intro sid
    obtain ⟨ha, hi⟩ := Prod.ext_iff.mp (hfile sid)
    replace ha : s.attempts.lookup sid = (outdated r.now (r.file sid)).1 := ha
    replace hi : s.invites.lookup sid = (outdated r.now (r.file sid)).2 := hi
    show (t.attempts.filter _).lookup sid = (s.attempts.lookup sid).map (Routing.image (s.invites.lookup sid))
    rw [Dict.lookup_filter, h.attempts, ha, hi]
    unfold outdated file
    cases ha : r.attempts.lookup sid with
    | none => rfl
    | some a =>
      dsimp only
      have hcap : Ts.attemptIdleCapS < t.now - a.last ↔ a.last + tQueueCapS < r.now := by
        rw [h.stores.now]
        unfold Ts.attemptIdleCapS tQueueCapS
        omega
      rw [Option.map_some, Option.filter_some]
      by_cases hold : a.last + tQueueCapS < r.now
      · rw [if_pos hold, if_neg]
        · rfl
        · rw [decide_eq_true_eq, not_not]
          exact hcap.mpr hold
      · rw [if_neg hold, if_pos]
        · rfl
        · rw [decide_eq_true_eq]
          exact fun hlt => hold (hcap.mp hlt)
  · intro sid hsid
    obtain ⟨ha, hi⟩ := Prod.ext_iff.mp (hfile sid)
    replace ha : s.attempts.lookup sid = (outdated r.now (r.file sid)).1 := ha
    replace hi : s.invites.lookup sid = (outdated r.now (r.file sid)).2 := hi
    replace hsid : s.attempts.lookup sid = none := hsid
    show s.invites.lookup sid = none
    rw [ha] at hsid
    rw [hi]
    unfold outdated file at hsid ⊢
    cases ha : r.attempts.lookup sid with
    | none => exact h.invites sid ha
    | some a =>
      rw [ha] at hsid
      dsimp only at hsid ⊢
      split at hsid
      case isTrue hold => rw [if_pos hold]
      case isFalse => cases hsid

/-- The recipients that are looked at after an advance. -/
def due (r : Relay) (seconds : Nat) : List String :=
  ({ r with now := r.now + seconds } : Relay).expireQueues.1.lapsed

theorem Agree.advance (h : Agree r t) (ht : r.Tracked) (seconds : Nat)
    (hone : ∀ x ∈ r.due seconds, r.Unbound x → ¬ (x ∈ r.bindings ∧ x ∈ r.devices)) :
    Agree (r.advance seconds).1 (t.advance seconds).1 ∧ (r.advance seconds).2 = (t.advance seconds).2 := by
  have h₀ : Agree { r with now := r.now + seconds } { t with now := t.now + seconds } := by
    refine ⟨⟨?_, h.stores.retention, h.stores.bound, h.stores.devices, h.stores.known,
      h.stores.ended, h.stores.queue, h.stores.inbox⟩, h.attempts, h.invites⟩
    exact congrArg (· + seconds) h.stores.now
  unfold due at hone
  unfold Relay.advance Ts.Relay.advance
  dsimp only
  have heq := expireQueues_eq { r with now := r.now + seconds }
  obtain ⟨h₁, ho₁⟩ := h₀.expire
  generalize ({ r with now := r.now + seconds } : Relay).expireQueues = q at h₁ ho₁ heq hone ⊢
  have ht₁ : q.1.Tracked := by
    rw [heq]
    exact ht
  obtain ⟨h₂, ho₂⟩ := h₁.silence ht₁
  refine ⟨h₂.forget ?_, by rw [ho₁, ho₂]⟩
  have hstore := (tracks_expireSilentLegs q.1).store
  have hall : ∀ x ∈ q.1.expireSilentLegs.1.store.lapsed, q.1.expireSilentLegs.1.store.Unbound x →
      ¬ (x ∈ q.1.expireSilentLegs.1.store.bindings ∧ x ∈ q.1.expireSilentLegs.1.store.devices) := by
    rw [hstore]
    intro x hx hu
    have hq : ∀ x ∈ q.1.lapsed, q.1.Unbound x → ¬ (x ∈ q.1.bindings ∧ x ∈ q.1.devices) := by
      intro x hx
      have hx' := hone x hx
      rw [heq]
      exact hx'
    exact hq x hx hu
  exact hall

/-! ## Bindings -/

theorem Agree.unbind (h : Agree r t) {device identity : String}
    (hin : device ∈ r.boundFor identity) : Agree (r.unbind device identity) (t.unbind device) := by
  have hne : r.boundFor identity ≠ ∅ := fun hempty => by simp [hempty] at hin
  have hmem : identity ∈ r.bindings := Dict.mem_iff_lookup.mpr ⟨_, lookup_bindings_of_bound hne⟩
  obtain ⟨r', hr'⟩ : ∃ r' : Relay, r' = { r with
      bindings := r.bindings.insert identity ((r.boundFor identity).erase device)
      lastBound := r.lastBound.insert device r.now } := ⟨_, rfl⟩
  obtain ⟨t', ht'⟩ : ∃ t' : Ts.Relay, t' = { t with
      bound := t.bound.erase device
      lastUnbound := t.lastUnbound.insert device t.now } := ⟨_, rfl⟩
  have hboundFor : ∀ k, r'.boundFor k =
      if k = identity then (r.boundFor identity).erase device else r.boundFor k := by
    intro k
    rw [hr']
    show ((r.bindings.insert identity _).lookup k).getD ∅ = _
    rw [Dict.lookup_insert_eq]
    split <;> rfl
  have hbound : ∀ d k, t'.bound.lookup d = some k ↔ d ∈ r'.boundFor k := by
    intro d k
    rw [hboundFor, ht']
    show (t.bound.erase device).lookup d = some k ↔ _
    rw [Dict.lookup_erase_eq]
    by_cases hd : d = device
    · rw [if_pos hd]
      refine iff_of_false nofun ?_
      split
      case isTrue =>
        rw [hd]
        exact Finset.notMem_erase device _
      case isFalse hk =>
        -- the device is bound for no other identity
        intro hdk
        have h₁ := h.stores.devices device identity hin
        rw [hd] at hdk
        rw [h.stores.devices device k hdk] at h₁
        exact hk (Option.some.inj h₁)
    · rw [if_neg hd, h.stores.bound]
      split
      case isTrue hk =>
        rw [hk, Finset.mem_erase]
        exact ⟨fun h => ⟨hd, h⟩, fun h => h.2⟩
      case isFalse => rfl
  have hdevices : ∀ d k, d ∈ r'.boundFor k → r'.devices.lookup d = some k := by
    intro d k hd
    rw [hboundFor] at hd
    rw [hr']
    apply h.stores.devices
    split at hd
    case isTrue hk =>
      rw [hk]
      exact Finset.mem_of_mem_erase hd
    case isFalse => exact hd
  have hknown : ∀ x, x ∈ t'.known ↔ x ∈ r'.bindings ∨ x ∈ r'.devices := by
    intro x
    rw [ht', hr']
    show x ∈ t.known ↔ x ∈ r.bindings.insert identity _ ∨ x ∈ r.devices
    rw [h.stores.known, AList.mem_insert]
    constructor
    · rintro (hx | hx)
      · exact .inl (.inr hx)
      · exact .inr hx
    · rintro ((rfl | hx) | hx)
      · exact .inl hmem
      · exact .inl hx
      · exact .inr hx
  -- who was unbound already
  have hbefore : ∀ x, x ≠ device → (x = identity → r'.boundFor identity ≠ ∅) → r'.Unbound x →
      r.Unbound x := by
    rintro x hxd hxi ⟨hempty, hdev⟩
    have hx : x ≠ identity := fun hx => hxi hx (hx ▸ hempty)
    rw [hboundFor, if_neg hx] at hempty
    refine ⟨hempty, fun k hk => hdev k ?_⟩
    rw [hboundFor]
    split
    case isTrue hki => exact Finset.mem_erase.mpr ⟨hxd, hki ▸ hk⟩
    case isFalse => exact hk
  have hknown' : ∀ x, (x ∈ r'.bindings ∨ x ∈ r'.devices) → (x ∈ r.bindings ∨ x ∈ r.devices) := by
    intro x hx
    rw [← h.stores.known]
    have := (hknown x).mpr hx
    rwa [ht'] at this
  have hfinish : ∀ (l : Dict String Nat) (l' : Dict String Nat),
      (∀ x, (x ∈ r'.bindings ∨ x ∈ r'.devices) → r'.Unbound x → l'.lookup x = l.lookup x) →
      Agree { r' with lastBound := l } { t' with lastUnbound := l' } := by
    intro l l' hl
    refine ⟨⟨?_, ?_, hbound, hdevices, hknown, hl, ?_, ?_⟩, ?_, ?_⟩
    · rw [hr', ht']
      exact h.stores.now
    · rw [hr', ht']
      exact h.stores.retention
    · rw [hr', ht']
      exact h.stores.queue
    · rw [hr']
      exact h.stores.inbox
    · rw [hr', ht']
      exact h.attempts
    · rw [hr']
      exact h.invites
  have hts : t.unbind device = if t'.devicesOf identity = [] then
      { t' with lastUnbound := t'.lastUnbound.insert identity t'.now } else t' := by
    unfold Ts.Relay.unbind
    rw [(h.stores.bound device identity).mpr hin, ht']
  have hpy : r.unbind device identity = if r'.boundFor identity = ∅ then
      { r' with lastBound := r'.lastBound.insert identity r'.now } else r' := by
    unfold Relay.unbind
    dsimp only
    rw [if_pos hmem, hr']
  have hlast' : t'.devicesOf identity = [] ↔ r'.boundFor identity = ∅ := by
    rw [devicesOf_eq fun d => hbound d identity, sorted_eq_nil]
  rw [hts, hpy]
  by_cases hlast : r'.boundFor identity = ∅
  · rw [if_pos (hlast'.mpr hlast), if_pos hlast]
    apply hfinish
    intro x hk hu
    rw [ht', hr']
    refine Dict.lookup_insert_congr h.stores.now fun hxi => ?_
    refine Dict.lookup_insert_congr h.stores.now fun hxd => ?_
    exact h.stores.ended x (hknown' x hk) (hbefore x hxd (fun hx => absurd hx hxi) hu)
  · rw [if_neg fun hnil => hlast (hlast'.mp hnil), if_neg hlast]
    have hfin := hfinish r'.lastBound t'.lastUnbound ?_
    · exact hfin
    · intro x hk hu
      rw [ht', hr']
      refine Dict.lookup_insert_congr h.stores.now fun hxd => ?_
      exact h.stores.ended x (hknown' x hk) (hbefore x hxd (fun _ => hlast) hu)

end Relay

end Dsip.Routing
