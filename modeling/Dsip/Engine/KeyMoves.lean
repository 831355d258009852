import Dsip.Lib.TSys
import Dsip.Engine.Keys

/-!
# The presence keys as a machine of their own

What an endpoint does to its grants and keys, one call at a time and with the
time of the call. A turn of the clock loop is one `tick`. `MoveSpec` says what a
move does to the schedule of the rotations (`Turn`) and to the grants.
-/

namespace Dsip.Engine

open Dsip.Lib Contacts

/-- The contacts and the time. -/
structure Clocked where
  now : Nat
  contacts : Contacts

/-- The calls that concern grants and keys. -/
inductive KeyAct where
  /-- Time passes, and no instant with it. -/
  | wait (n : Nat)
  /-- The clock stops at an instant. -/
  | tick (n : Nat)
  | issue (gid grantee : String) (scope : List String) (validUntil : Nat) (introduction : String)
      (audience : Option String)
  | regrant (id gid : String) (scope : List String) (validUntil : Nat) (audience : Option String)
  | revoke (gid : String)
  | ownRecord (identity : String) (kid subject : Option String)
  /-- Anything about other contacts. -/
  | other

/-- The instants at which a grant ends or a scope rotates. -/
def Contacts.instants (c : Contacts) : List Nat :=
  (c.grantsIssued.values.filter fun g => GrantIssued.Running g).map (·.validUntil) ++ c.due.values

/-- No grant, no key and no scope is different. -/
def Contacts.Aside (c c' : Contacts) : Prop :=
  ∃ held requests pending tokens seen keys, c' = { c with
    grantsHeld := held
    requests := requests
    pendingSent := pending
    tokens := tokens
    seenIntroductions := seen
    heldKeys := keys }

def ContactEmit.OfKeys : ContactEmit → Prop
  | .sendGrant .. | .keysRotated .. => True
  | _ => False

inductive KeyStep : Clocked → KeyAct → List ContactEmit → Clocked → Prop
  | wait {s : Clocked} {n : Nat} (h : s.now ≤ n) (hi : ∀ i ∈ s.contacts.instants, n < i) :
      KeyStep s (.wait n) [] ⟨n, s.contacts⟩
  | tick {s : Clocked} {n : Nat} {r : Contacts × List ContactEmit} (h : s.now ≤ n)
      (hi : n = s.now ∨ ∀ i ∈ s.contacts.instants, n ≤ i)
      (hr : (s.contacts.endLapsed n).rotateDue n = .ok r) : KeyStep s (.tick n) r.2 ⟨n, r.1⟩
  | issue {s : Clocked} {gid grantee introduction : String} {scope : List String}
      {validUntil : Nat} {audience : Option String} :
      KeyStep s (.issue gid grantee scope validUntil introduction audience)
        (s.contacts.issueGrant gid grantee scope validUntil introduction audience []).2
        ⟨s.now, (s.contacts.issueGrant gid grantee scope validUntil introduction audience []).1⟩
  | regrant {s : Clocked} {id gid : String} {scope : List String} {validUntil : Nat}
      {audience : Option String} {r : Contacts × List ContactEmit}
      (hr : s.contacts.regrant s.now id gid scope validUntil audience = .ok r) :
      KeyStep s (.regrant id gid scope validUntil audience) r.2 ⟨s.now, r.1⟩
  | revoke {s : Clocked} {gid : String} {r : Contacts × List ContactEmit}
      (hr : s.contacts.revoke s.now gid = .ok r) : KeyStep s (.revoke gid) r.2 ⟨s.now, r.1⟩
  | ownRecord {s : Clocked} {identity : String} {kid subject : Option String}
      {r : Contacts × List ContactEmit}
      (hr : s.contacts.recvOwnRecord s.now identity kid subject = .ok r) :
      KeyStep s (.ownRecord identity kid subject) r.2 ⟨s.now, r.1⟩
  | other {s : Clocked} {c : Contacts} {out : List ContactEmit} (hc : s.contacts.Aside c)
      (ho : ∀ x ∈ out, ¬ x.OfKeys) : KeyStep s .other out ⟨s.now, c⟩

/-- The machine of the presence keys. -/
def keyMachine : TSys Clocked KeyAct (List ContactEmit) where
  init s := s.contacts.grantsIssued = ∅ ∧ s.contacts.due = ∅ ∧ s.contacts.lastRotated = ∅
  step := KeyStep

/-- A grant carrying the key of a scope ends. -/
inductive Ends (s : Clocked) (gid scope : String) : KeyAct → Prop
  | revoked {g : GrantIssued} (hg : s.contacts.grantsIssued.lookup gid = some g)
      (he : g.ended = false) (hk : scope ∈ g.keys) : Ends s gid scope (.revoke gid)
  /-- The grant that follows it does not carry the key. -/
  | replaced {g : GrantIssued} {id : String} {permits : List String} {validUntil : Nat}
      {audience : Option String} (hg : s.contacts.grantsIssued.lookup gid = some g)
      (he : g.ended = false) (hk : scope ∈ g.keys) (hlive : s.now < g.validUntil)
      (ha : ∀ a ∈ audience, validAudience a = true)
      (hno : scope ∉ s.contacts.keyScopes permits audience) :
      Ends s gid scope (.regrant id gid permits validUntil audience)
  | lapsed {g : GrantIssued} {n : Nat} (hg : s.contacts.grantsIssued.lookup gid = some g)
      (he : g.ended = false) (hk : scope ∈ g.keys) (hend : g.validUntil ≤ n) :
      Ends s gid scope (.tick n)

theorem Ends.held {s : Clocked} {gid scope : String} {act : KeyAct} (h : Ends s gid scope act) :
    gid ∈ s.contacts.grantsIssued := by
  cases h with
  | revoked hg | replaced hg | lapsed hg => exact Dict.mem_iff_lookup.mpr ⟨_, hg⟩

/-- A rotation among what is emitted. -/
def ContactEmit.toRotation : ContactEmit → Option (String × Nat)
  | .keysRotated scope epoch => some (scope, epoch)
  | _ => none

/-- The rotations among what is emitted. -/
def rotations (out : List ContactEmit) : List (String × Nat) := out.filterMap ContactEmit.toRotation

def Rotates (out : List ContactEmit) (scope : String) : Prop := ∃ epoch, (scope, epoch) ∈ rotations out

/-! ## The invariant -/

structure KeyInv (s : Clocked) : Prop where
  standing : Standing s.contacts
  due : ∀ scope at', s.contacts.due.lookup scope = some at' →
    s.now < at' ∧ ∃ last, s.contacts.lastRotated.lookup scope = some last ∧ at' = last + s.contacts.tRotate
  past : ∀ scope last, s.contacts.lastRotated.lookup scope = some last → last ≤ s.now
  ended : ∀ gid g, s.contacts.grantsIssued.lookup gid = some g → g.ended = true → g.validUntil ≤ s.now

/-- What a move does to the schedule; the scopes of `P` are to rotate. -/
structure Turn (s : Clocked) (P : String → Prop) (out : List ContactEmit) (s' : Clocked) : Prop where
  clock : s.now ≤ s'.now
  punctual : ∀ scope at', s.contacts.due.lookup scope = some at' → s'.now ≤ at'
  rate : s'.contacts.tRotate = s.contacts.tRotate
  epochs : ∀ scope epoch, s.contacts.epochs.lookup scope = some epoch →
    ∃ epoch', s'.contacts.epochs.lookup scope = some epoch' ∧ epoch ≤ epoch'
  rotated : ∀ scope epoch, (scope, epoch) ∈ rotations out →
    (∀ old, s.contacts.epochs.lookup scope = some old → old < epoch) ∧
    s'.contacts.epochs.lookup scope = some epoch ∧
    s'.contacts.lastRotated.lookup scope = some s'.now ∧
    ∀ last, s.contacts.lastRotated.lookup scope = some last → last + s.contacts.tRotate ≤ s'.now
  unrotated : ∀ scope, ¬ Rotates out scope →
    s'.contacts.lastRotated.lookup scope = s.contacts.lastRotated.lookup scope ∧
    ∀ at', s.contacts.due.lookup scope = some at' → s'.contacts.due.lookup scope = some at'
  once : ((rotations out).map Prod.fst).Nodup
  marked : ∀ scope, P scope → Rotates out scope ∨ ∃ at', s'.contacts.due.lookup scope = some at'

variable {r : Contacts × List ContactEmit}

section Schedule

variable {s : Clocked} {c c' : Contacts} {n : Nat} {P : String → Prop}

theorem rotations_eq {l : List String} {f : String → Nat} {out : List ContactEmit}
    (h : ∀ x ∈ out, x.toRotation = none) :
    rotations (l.map (fun k => .keysRotated k (f k)) ++ out) = l.map fun k => (k, f k) := by
  unfold rotations
  rw [List.filterMap_append, List.filterMap_eq_nil_iff.mpr h, List.append_nil, List.filterMap_map]
  show l.filterMap (fun k => some (k, f k)) = _
  rw [List.filterMap_eq_map']

theorem toRotation_followMsg (epochs : Dict String Nat) (gid id : String) (g : GrantIssued) :
    (followMsg epochs gid id g).toRotation = none := rfl

theorem rotateDue_spec (hs : Standing c)
    (h : c.rotateDue n = .ok r) : ∃ c₁ out, Standing c₁ ∧ (∃ due epochs last, c₁ =
        { c with due := due, epochs := epochs, lastRotated := last }) ∧
      (∀ k, c₁.due.lookup k = if k ∈ c.dueNow n then none else c.due.lookup k) ∧
      (∀ k, c₁.epochs.lookup k =
        if k ∈ c.dueNow n then some (c.nextEpoch k) else c.epochs.lookup k) ∧
      (∀ k, c₁.lastRotated.lookup k =
        if k ∈ c.dueNow n then some n else c.lastRotated.lookup k) ∧
      Followed c₁ n (c.dueNow n) c₁.grantsIssued.sortedKeys r.1 out ∧
      r.2 = (c.dueNow n).map (fun k => .keysRotated k (c.nextEpoch k)) ++ out := by
  unfold rotateDue at h
  dsimp only at h
  obtain ⟨due, epochs, last, he, hdue, hepochs, hlast, hout⟩ := rotated_spec c n (nodup_dueNow c n)
  rw [he, hout] at h
  cases hr : regrantCarrying { c with due := due, epochs := epochs, lastRotated := last } n
      (c.dueNow n) with
  | error fault =>
    rw [hr] at h
    cases h
  | ok q =>
    rw [hr] at h
    obtain rfl := Except.ok.inj h
    have hstanding : Standing { c with due := due, epochs := epochs, lastRotated := last } := by
      refine ⟨hs.keys, ?_, hs.distinct, hs.unused⟩
      intro gid g hg k hk
      obtain ⟨e, hk⟩ := Dict.mem_iff_lookup.mp (hs.epochs gid g hg k hk)
      refine Dict.mem_iff_lookup.mpr ?_
      show ∃ e, epochs.lookup k = some e
      rw [hepochs]
      split
      · exact ⟨_, rfl⟩
      · exact ⟨e, hk⟩
    exact ⟨_, q.2, hstanding, ⟨due, epochs, last, rfl⟩, hdue, hepochs, hlast,
      regrantCarrying_spec hstanding hr, rfl⟩

/-- **The schedule.** The scopes of `P` have been marked at `n`, and what is due
rotates. -/
theorem turn_of_rotateDue (hi : KeyInv s) (hn : s.now ≤ n)
    (hp : ∀ scope at', s.contacts.due.lookup scope = some at' → n ≤ at')
    (hlast : c.lastRotated = s.contacts.lastRotated) (hrate : c.tRotate = s.contacts.tRotate)
    (hepochs : ∀ k e, s.contacts.epochs.lookup k = some e → c.epochs.lookup k = some e)
    (hm : Marks s.contacts n P c.due) (hs : Standing c) (h : c.rotateDue n = .ok r) : Turn s P r.2 ⟨n, r.1⟩ ∧
    (∀ scope at', r.1.due.lookup scope = some at' →
      n < at' ∧ ∃ last, r.1.lastRotated.lookup scope = some last ∧ at' = last + r.1.tRotate) ∧
    ∀ scope last, r.1.lastRotated.lookup scope = some last → last ≤ n := by
  obtain ⟨c₁, out, -, hframe, hdue₁, hepochs₁, hlast₁, hf, hout⟩ := rotateDue_spec hs h
  -- a scope that is due may rotate now, or when the limit allows
  have hwhen : ∀ scope at', c.due.lookup scope = some at' →
      (at' ≤ n ∧ ∀ last, s.contacts.lastRotated.lookup scope = some last → last + s.contacts.tRotate ≤ n) ∨
      (n < at' ∧ ∃ last, s.contacts.lastRotated.lookup scope = some last ∧
        at' = last + s.contacts.tRotate) := by
    intro scope at' hd
    rcases hm.origin hd with hold | ⟨-, rfl⟩
    · obtain ⟨-, last, hl, rfl⟩ := hi.due scope at' hold
      by_cases hle : last + s.contacts.tRotate ≤ n
      · refine .inl ⟨hle, ?_⟩
        intro last' hl'
        rw [hl] at hl'
        obtain rfl := Option.some.inj hl'
        exact hle
      · exact .inr ⟨not_le.mp hle, last, hl, rfl⟩
    · unfold rotatesAt
      cases hl : s.contacts.lastRotated.lookup scope with
      | none => exact .inl ⟨le_rfl, nofun⟩
      | some last =>
        dsimp only
        split
        case isTrue hle =>
          refine .inl ⟨le_rfl, ?_⟩
          rintro last' hl'
          obtain rfl := Option.some.inj hl'
          exact hle
        case isFalse hle => exact .inr ⟨not_le.mp hle, last, rfl, rfl⟩
  have hsent : ∀ x ∈ out, x.toRotation = none := by
    intro x hx
    obtain ⟨gid, -, g, id, -, -, rfl, -⟩ := hf.sent x hx
    exact toRotation_followMsg _ _ _ _
  have hrotations : rotations r.2 = (c.dueNow n).map fun k => (k, c.nextEpoch k) := by
    rw [hout, rotations_eq hsent]
  have hrotates : ∀ scope, Rotates r.2 scope ↔ scope ∈ c.dueNow n := by
    intro scope
    unfold Rotates
    rw [hrotations]
    simp
  obtain ⟨issued, ids, hr⟩ := hf.frame
  obtain ⟨due₂, epochs₂, last₂, hc₁⟩ := hframe
  have hdue : ∀ k, r.1.due.lookup k = if k ∈ c.dueNow n then none else c.due.lookup k := by
    rw [hr]
    exact hdue₁
  have hepoch : ∀ k, r.1.epochs.lookup k =
      if k ∈ c.dueNow n then some (c.nextEpoch k) else c.epochs.lookup k := by
    rw [hr]
    exact hepochs₁
  have hlastr : ∀ k, r.1.lastRotated.lookup k =
      if k ∈ c.dueNow n then some n else s.contacts.lastRotated.lookup k := by
    rw [hr, ← hlast]
    exact hlast₁
  have hrater : r.1.tRotate = s.contacts.tRotate := by
    rw [hr, ← hrate, hc₁]
  refine ⟨⟨hn, hp, hrater, ?_, ?_, ?_, ?_, ?_⟩, ?_, ?_⟩
  · intro scope epoch he
    show ∃ epoch', r.1.epochs.lookup scope = some epoch' ∧ epoch ≤ epoch'
    rw [hepoch]
    split
    case isTrue =>
      refine ⟨_, rfl, ?_⟩
      unfold nextEpoch
      rw [hepochs scope epoch he]
      exact Nat.le_succ epoch
    case isFalse => exact ⟨epoch, hepochs scope epoch he, le_rfl⟩
  · intro scope epoch hmem
    rw [hrotations, List.mem_map] at hmem
    obtain ⟨k, hk, he⟩ := hmem
    simp only [Prod.mk.injEq] at he
    obtain ⟨rfl, rfl⟩ := he
    refine ⟨?_, ?_, ?_, ?_⟩
    · intro old hold
      unfold nextEpoch
      rw [hepochs k old hold]
      exact Nat.lt_succ_self old
    · show r.1.epochs.lookup k = _
      rw [hepoch, if_pos hk]
    · show r.1.lastRotated.lookup k = _
      rw [hlastr, if_pos hk]
    · obtain ⟨at', hd, hle⟩ := mem_dueNow.mp hk
      rcases hwhen k at' hd with ⟨-, hall⟩ | ⟨hlt, -⟩
      · exact hall
      · exact absurd hle (not_le.mpr hlt)
  · intro scope hno
    rw [hrotates] at hno
    constructor
    · show r.1.lastRotated.lookup scope = _
      rw [hlastr, if_neg hno]
    · intro at' hd
      show r.1.due.lookup scope = _
      rw [hdue, if_neg hno]
      exact hm.kept hd
  · rw [hrotations, List.map_map]
    have hid : (Prod.fst ∘ fun k => (k, c.nextEpoch k)) = id := rfl
    rw [hid, List.map_id]
    exact nodup_dueNow c n
  · intro scope hP
    by_cases hin : scope ∈ c.dueNow n
    · exact .inl ((hrotates scope).mpr hin)
    · refine .inr ?_
      show ∃ at', r.1.due.lookup scope = some at'
      rw [hdue, if_neg hin, hm.marked scope hP]
      exact ⟨_, rfl⟩
  · intro scope at' hd
    rw [hdue] at hd
    split at hd
    case isTrue => cases hd
    case isFalse hno =>
      rcases hwhen scope at' hd with ⟨hle, -⟩ | ⟨hlt, last, hl, he⟩
      · exact absurd (mem_dueNow.mpr ⟨at', hd, hle⟩) hno
      · refine ⟨hlt, last, ?_, ?_⟩
        · rw [hlastr, if_neg hno]
          exact hl
        · rw [hrater]
          exact he
  · intro scope last hl
    rw [hlastr] at hl
    split at hl
    case isTrue => exact (Option.some.inj hl).ge
    case isFalse => exact (hi.past scope last hl).trans hn

theorem turn_of_same (hn : s.now ≤ n) (hp : ∀ scope at', s.contacts.due.lookup scope = some at' → n ≤ at')
    (hdue : c.due = s.contacts.due) (hlast : c.lastRotated = s.contacts.lastRotated)
    (hrate : c.tRotate = s.contacts.tRotate) (hepochs : ∀ k e, s.contacts.epochs.lookup k = some e →
      ∃ e', c.epochs.lookup k = some e' ∧ e ≤ e')
    {out : List ContactEmit} (ho : ∀ x ∈ out, x.toRotation = none) (hP : ∀ scope, ¬ P scope) :
    Turn s P out ⟨n, c⟩ := by
  have hnone : rotations out = [] := List.filterMap_eq_nil_iff.mpr ho
  refine ⟨hn, hp, hrate, hepochs, ?_, ?_, ?_, fun scope h => absurd h (hP scope)⟩
  · intro scope epoch hmem
    rw [hnone] at hmem
    exact absurd hmem List.not_mem_nil
  · intro scope _
    refine ⟨?_, ?_⟩
    · show c.lastRotated.lookup scope = _
      rw [hlast]
    · intro at' hd
      show c.due.lookup scope = _
      rw [hdue, hd]
  · rw [hnone]
    exact List.nodup_nil

end Schedule

/-! ## The grants -/

/-- The key of a scope at an epoch. -/
def keyId (scope : String) (epoch : Nat) : String := scope ++ "." ++ toString epoch

theorem append_cons_inj {α : Type*} {a : α} {l l' d d' : List α} (hd : a ∉ d) (hd' : a ∉ d')
    (h : l ++ a :: d = l' ++ a :: d') : l = l' ∧ d = d' := by
  rcases List.append_eq_append_iff.mp h with ⟨m, rfl, hm⟩ | ⟨m, rfl, hm⟩
  · cases m with
    | nil => exact ⟨(List.append_nil l).symm, (List.cons.inj hm).2⟩
    | cons b m =>
      obtain ⟨-, rfl⟩ := List.cons.inj hm
      exact absurd (List.mem_append_right m List.mem_cons_self) hd
  · cases m with
    | nil => exact ⟨List.append_nil l', (List.cons.inj hm).2.symm⟩
    | cons b m =>
      obtain ⟨-, rfl⟩ := List.cons.inj hm
      exact absurd (List.mem_append_right m List.mem_cons_self) hd'

theorem keyId_inj {k k' : String} {e e' : Nat} (h : keyId k e = keyId k' e') : k = k' ∧ e = e' := by
  have hlist : k.toList ++ '.' :: Nat.toDigits 10 e = k'.toList ++ '.' :: Nat.toDigits 10 e' := by
    have := congrArg String.toList h
    simpa [keyId, String.toList_append] using this
  have hdot : ∀ n, '.' ∉ Nat.toDigits 10 n := by
    intro n hin
    have := Nat.isDigit_of_mem_toDigits (by decide) (by decide) hin
    exact absurd this (by decide)
  obtain ⟨hk, he⟩ := append_cons_inj (hdot e) (hdot e') hlist
  refine ⟨String.toList_inj.mp hk, ?_⟩
  have hback := congrArg (fun l => Nat.ofDigitChars 10 l 0) he
  simpa [Nat.ofDigitChars_ten_toDigits] using hback

/-- What a grant message gives is held. -/
def Backed (c : Contacts) (x : ContactEmit) : Prop :=
  ∀ grantee session gid scope validUntil audience kids,
    x = .sendGrant grantee session gid scope validUntil audience (some kids) →
    ∀ k e, keyId k e ∈ kids → ∃ id g, c.grantsIssued.lookup id = some g ∧ g.grantee = grantee ∧
      g.validUntil = validUntil ∧ k ∈ g.keys

theorem Backed.of_keys {c : Contacts} {grantee session gid : String} {scope : List String}
    {validUntil : Nat} {audience : Option String} {keys : Option (List String)} {id : String}
    {g : GrantIssued} {epochs : Dict String Nat}
    (hkeys : ∀ kids, keys = some kids → kids = g.keys.map (keyName epochs))
    (hg : c.grantsIssued.lookup id = some g) (hgrantee : g.grantee = grantee)
    (huntil : g.validUntil = validUntil) :
    Backed c (.sendGrant grantee session gid scope validUntil audience keys) := by
  intro grantee' session' gid' scope' validUntil' audience' kids hx k e hk
  simp only [ContactEmit.sendGrant.injEq] at hx
  obtain ⟨rfl, -, -, -, rfl, -, hkids⟩ := hx
  rw [hkeys kids hkids, List.mem_map] at hk
  obtain ⟨k', hk', he⟩ := hk
  obtain ⟨rfl, -⟩ := keyId_inj he.symm
  exact ⟨id, g, hg, hgrantee, huntil, hk'⟩

/-- A grant with the same grantee, keys and life; a running one runs on. -/
def Continues (g g' : GrantIssued) : Prop :=
  g'.grantee = g.grantee ∧ g'.keys = g.keys ∧ g'.validUntil = g.validUntil ∧
    (g.ended = false → g'.ended = false)

theorem Continues.refl (g : GrantIssued) : Continues g g := ⟨rfl, rfl, rfl, id⟩

theorem continues_follower (gid : String) (g : GrantIssued) : Continues g (follower gid g) :=
  ⟨rfl, rfl, rfl, fun _ => rfl⟩

/-- A grant is sent with the key of a scope at its epoch. -/
def SentWith (c : Contacts) (out : List ContactEmit) (id : String) (g : GrantIssued)
    (scope : String) : Prop :=
  ∃ followed kids epoch, .sendGrant g.grantee followed id g.scope g.validUntil g.audience
      (some kids) ∈ out ∧ c.epochs.lookup scope = some epoch ∧ keyId scope epoch ∈ kids

/-- What the grants come to when scopes rotate or are seen at a higher epoch. -/
structure Refreshed (c : Contacts) (now : Nat) (scopes : List String) (c' : Contacts)
    (out : List ContactEmit) : Prop where
  continued : ∀ gid g, c.grantsIssued.lookup gid = some g →
    ∃ id g', c'.grantsIssued.lookup id = some g' ∧ Continues g g'
  regranted : ∀ k ∈ scopes, ∀ gid g, c.grantsIssued.lookup gid = some g → now < g.validUntil →
    k ∈ g.keys → ∃ id kids epoch, .sendGrant g.grantee gid id g.scope g.validUntil g.audience
      (some kids) ∈ out ∧ c'.epochs.lookup k = some epoch ∧ keyId k epoch ∈ kids
  current : ∀ k ∈ scopes, ∀ id g, c'.grantsIssued.lookup id = some g → now < g.validUntil →
    k ∈ g.keys → SentWith c' out id g k
  backed : ∀ x ∈ out, Backed c' x
  ended : ∀ id g', c'.grantsIssued.lookup id = some g' → g'.ended = true → c.grantsIssued.lookup id = some g'
  pooled : ∀ id g', c'.grantsIssued.lookup id = some g' → c.grantsIssued.lookup id = some g' ∨ id ∈ c.grantIds

section Grants

variable {c c' : Contacts} {now : Nat} {scopes : List String} {out : List ContactEmit}

theorem mem_followMsg (hs : Standing c) {gid : String} {g : GrantIssued}
    (hg : c.grantsIssued.lookup gid = some g) {k : String} (hk : k ∈ g.keys) :
    ∃ epoch, c.epochs.lookup k = some epoch ∧ keyId k epoch ∈ g.keys.map (keyName c.epochs) := by
  obtain ⟨epoch, he⟩ := Dict.mem_iff_lookup.mp (hs.epochs gid g hg k hk)
  refine ⟨epoch, he, List.mem_map.mpr ⟨k, hk, ?_⟩⟩
  unfold keyName keyId
  rw [he]
  rfl

theorem Contacts.Followed.refreshed (hs : Standing c)
    (hf : Followed c now scopes c.grantsIssued.sortedKeys c' out) : Refreshed c now scopes c' out := by
  have hepochs : c'.epochs = c.epochs := by
    obtain ⟨issued, ids, he⟩ := hf.frame
    rw [he]
  have hlisted : ∀ gid g, c.grantsIssued.lookup gid = some g → gid ∈ c.grantsIssued.sortedKeys :=
    fun gid g hg => Dict.mem_sortedKeys.mpr (Dict.mem_iff_lookup.mpr ⟨g, hg⟩)
  constructor
  · intro gid g hg
    by_cases hc : Carrying now scopes g
    · obtain ⟨id, hid, -⟩ := hf.followed gid (hlisted gid g hg) g hg hc
      exact ⟨id, _, hid, continues_follower gid g⟩
    · exact ⟨gid, g, hf.kept gid g hg (.inr hc), .refl g⟩
  · intro k hk gid g hg hlive hkey
    obtain ⟨id, -, hmsg⟩ := hf.followed gid (hlisted gid g hg) g hg ⟨hlive, k, hkey, hk⟩
    obtain ⟨epoch, he, hin⟩ := mem_followMsg hs hg hkey
    rw [hepochs]
    exact ⟨id, _, epoch, hmsg, he, hin⟩
  · intro k hk id g hg hlive hkey
    rcases hf.origin id g hg with ⟨hold, hno⟩ | ⟨gid, -, g₀, hg₀, hc, rfl, hmsg⟩
    · exact absurd ⟨hlisted id g hold, hlive, k, hkey, hk⟩ hno
    · obtain ⟨epoch, he, hin⟩ := mem_followMsg hs hg₀ hkey
      unfold SentWith
      rw [hepochs]
      exact ⟨gid, _, epoch, hmsg, he, hin⟩
  · intro x hx
    obtain ⟨gid, -, g, id, -, -, rfl, hid⟩ := hf.sent x hx
    refine @Backed.of_keys _ _ _ _ _ _ _ _ id (follower gid g) c.epochs ?_ hid rfl rfl
    intro kids hkids
    exact (Option.some.inj hkids).symm
  · intro id g' hg' hended
    rcases hf.origin id g' hg' with ⟨hold, -⟩ | ⟨gid, -, g₀, -, -, rfl, -⟩
    · exact hold
    · cases hended
  · exact hf.pooled

theorem refreshed_of_rotateDue {n : Nat} (hs : Standing c) (h : c.rotateDue n = .ok r) :
    Refreshed c n ((rotations r.2).map Prod.fst) r.1 r.2 ∧ Standing r.1 := by
  obtain ⟨c₁, out, hs₁, hframe, -, -, -, hf, hout⟩ := rotateDue_spec hs h
  have hsent : ∀ x ∈ out, x.toRotation = none := by
    intro x hx
    obtain ⟨gid, -, g, id, -, -, rfl, -⟩ := hf.sent x hx
    exact toRotation_followMsg _ _ _ _
  have hscopes : (rotations r.2).map Prod.fst = c.dueNow n := by
    rw [hout, rotations_eq hsent, List.map_map]
    exact List.map_id _
  have hissued : c₁.grantsIssued = c.grantsIssued ∧ c₁.grantIds = c.grantIds := by
    obtain ⟨due, epochs, last, he⟩ := hframe
    rw [he]
    exact ⟨rfl, rfl⟩
  have hr := hf.refreshed hs₁
  rw [hscopes]
  refine ⟨⟨?_, ?_, ?_, ?_, ?_, ?_⟩, hf.standing⟩
  · rw [← hissued.1]
    exact hr.continued
  · intro k hk gid g hg hlive hkey
    rw [← hissued.1] at hg
    obtain ⟨id, kids, epoch, hmsg, he, hin⟩ := hr.regranted k hk gid g hg hlive hkey
    refine ⟨id, kids, epoch, ?_, he, hin⟩
    rw [hout]
    exact List.mem_append_right _ hmsg
  · intro k hk id g hg hlive hkey
    obtain ⟨followed, kids, epoch, hmsg, he, hin⟩ := hr.current k hk id g hg hlive hkey
    refine ⟨followed, kids, epoch, ?_, he, hin⟩
    rw [hout]
    exact List.mem_append_right _ hmsg
  · intro x hx
    rw [hout] at hx
    rcases List.mem_append.mp hx with hx | hx
    · obtain ⟨k, -, rfl⟩ := List.mem_map.mp hx
      intro _ _ _ _ _ _ _ h
      cases h
    · exact hr.backed x hx
  · rw [← hissued.1]
    exact hr.ended
  · rw [← hissued.1, ← hissued.2]
    exact hr.pooled

end Grants

/-! ## Every move -/

/-- The ids a move issues are new. -/
def FreshAct (s : Clocked) : KeyAct → Prop
  | .issue gid .. => gid ∉ s.contacts.grantsIssued ∧ gid ∉ s.contacts.grantIds
  | .regrant id .. => id ∉ s.contacts.grantsIssued ∧ id ∉ s.contacts.grantIds
  | _ => True

/-- The owner takes the grant back, or replaces it. -/
def Withdraws (gid : String) : KeyAct → Prop
  | .regrant _ gid' .. => gid' = gid
  | .revoke gid' => gid' = gid
  | _ => False

structure MoveSpec (s : Clocked) (act : KeyAct) (out : List ContactEmit) (s' : Clocked) : Prop where
  turn : Turn s (fun scope => ∃ gid, Ends s gid scope act) out s'
  inv : KeyInv s'
  /-- Time does not pass the end of a running grant. -/
  onTime : ∀ gid g, s.contacts.grantsIssued.lookup gid = some g → GrantIssued.Running g →
    s'.now ≤ max s.now g.validUntil
  /-- What has ended is not held any more. -/
  gone : ∀ gid k, Ends s gid k act → ∀ g, s'.contacts.grantsIssued.lookup gid = some g → g.validUntil ≤ s'.now
  /-- A grant that does not end is held, or followed by one with the same key. -/
  continued : ∀ gid g k, s.contacts.grantsIssued.lookup gid = some g → g.ended = false →
    k ∈ g.keys → Ends s gid k act ∨ ∃ id g', s'.contacts.grantsIssued.lookup id = some g' ∧
      g'.ended = false ∧ g'.grantee = g.grantee ∧ k ∈ g'.keys
  regranted : ∀ k, Rotates out k → ∀ gid g, s.contacts.grantsIssued.lookup gid = some g →
    s'.now < g.validUntil → k ∈ g.keys → Withdraws gid act ∨
      ∃ id kids epoch, .sendGrant g.grantee gid id g.scope g.validUntil g.audience (some kids) ∈ out ∧
        s'.contacts.epochs.lookup k = some epoch ∧ keyId k epoch ∈ kids
  current : ∀ k, Rotates out k → ∀ id g, s'.contacts.grantsIssued.lookup id = some g →
    s'.now < g.validUntil → k ∈ g.keys → SentWith s'.contacts out id g k
  backed : ∀ x ∈ out, Backed s'.contacts x

section Moves

variable {s : Clocked} {c : Contacts} {n : Nat} {act : KeyAct}

variable {out' : List ContactEmit}

theorem Turn.congr {P Q : String → Prop} {out : List ContactEmit} {s' : Clocked}
    (h : Turn s P out s') (hout : rotations out' = rotations out)
    (hpq : ∀ scope, Q scope → P scope) : Turn s Q out' s' := by
  have hrotates : ∀ scope, Rotates out' scope ↔ Rotates out scope := by
    intro scope
    unfold Rotates
    rw [hout]
  refine ⟨h.clock, h.punctual, h.rate, h.epochs, ?_, ?_, ?_, ?_⟩
  · rw [hout]
    exact h.rotated
  · intro scope hno
    rw [hrotates] at hno
    exact h.unrotated scope hno
  · rw [hout]
    exact h.once
  · intro scope hq
    rw [hrotates]
    exact h.marked scope (hpq scope hq)

theorem rotations_append {out : List ContactEmit} (h : ∀ x ∈ out, x.toRotation = none) :
    rotations (out ++ out') = rotations out' := by
  unfold rotations
  rw [List.filterMap_append, List.filterMap_eq_nil_iff.mpr h, List.nil_append]

theorem SentWith.mono {out : List ContactEmit} {id : String} {g : GrantIssued} {k : String}
    (h : SentWith c out id g k) (hsub : ∀ x ∈ out, x ∈ out') : SentWith c out' id g k := by
  obtain ⟨followed, kids, epoch, hmsg, he, hin⟩ := h
  exact ⟨followed, kids, epoch, hsub _ hmsg, he, hin⟩

theorem moveSpec_of_rotateDue (hi : KeyInv s) (hn : s.now ≤ n)
    (hp : ∀ scope at', s.contacts.due.lookup scope = some at' → n ≤ at')
    (hlast : c.lastRotated = s.contacts.lastRotated) (hrate : c.tRotate = s.contacts.tRotate)
    (hepochs : ∀ k e, s.contacts.epochs.lookup k = some e → c.epochs.lookup k = some e)
    (hm : Marks s.contacts n (fun scope => ∃ gid, Ends s gid scope act) c.due)
    (hs : Standing c) (h : c.rotateDue n = .ok r)
    {before : List ContactEmit} (hbefore : ∀ x ∈ before, x.toRotation = none ∧ Backed c x)
    (hon : ∀ gid g, s.contacts.grantsIssued.lookup gid = some g → GrantIssued.Running g →
      n ≤ max s.now g.validUntil)
    (hcont : ∀ gid g k, s.contacts.grantsIssued.lookup gid = some g → g.ended = false →
      k ∈ g.keys → Ends s gid k act ∨ ∃ id g', c.grantsIssued.lookup id = some g' ∧
        g'.ended = false ∧ g'.grantee = g.grantee ∧ k ∈ g'.keys)
    (hlive : ∀ gid g, s.contacts.grantsIssued.lookup gid = some g → n < g.validUntil →
      Withdraws gid act ∨ c.grantsIssued.lookup gid = some g)
    (hpool : c.grantIds = s.contacts.grantIds)
    (hgone : ∀ gid k, Ends s gid k act → ∀ g, c.grantsIssued.lookup gid = some g → g.validUntil ≤ n)
    (hended : ∀ id g, c.grantsIssued.lookup id = some g → g.ended = true → g.validUntil ≤ n) :
    MoveSpec s act (before ++ r.2) ⟨n, r.1⟩ := by
  obtain ⟨hturn, hdue, hpast⟩ := turn_of_rotateDue hi hn hp hlast hrate hepochs hm hs h
  obtain ⟨href, hstanding⟩ := refreshed_of_rotateDue hs h
  have hrot : rotations (before ++ r.2) = rotations r.2 := rotations_append fun x hx => (hbefore x hx).1
  have hscope : ∀ k, Rotates (before ++ r.2) k → k ∈ (rotations r.2).map Prod.fst := by
    rintro k ⟨epoch, hk⟩
    rw [hrot] at hk
    exact List.mem_map.mpr ⟨_, hk, rfl⟩
  refine ⟨hturn.congr hrot fun _ h => h, ⟨hstanding, hdue, hpast, ?_⟩, hon, ?_, ?_, ?_, ?_, ?_⟩
  · intro gid g hg he
    exact hended gid g (href.ended gid g hg he) he
  · intro gid k hends g hg
    refine hgone gid k hends g ((href.pooled gid g hg).resolve_right fun hin => ?_)
    rw [hpool] at hin
    exact hi.standing.unused gid hin hends.held
  · intro gid g k hg he hk
    refine (hcont gid g k hg he hk).imp_right ?_
    rintro ⟨id, g', hg', he', hgrantee, hk'⟩
    obtain ⟨id', g'', hg'', hsame⟩ := href.continued id g' hg'
    exact ⟨id', g'', hg'', hsame.2.2.2 he', hsame.1.trans hgrantee, hsame.2.1 ▸ hk'⟩
  · intro k hk gid g hg hl hkey
    refine (hlive gid g hg hl).imp_right fun hg' => ?_
    obtain ⟨id, kids, epoch, hmsg, he, hin⟩ := href.regranted k (hscope k hk) gid g hg' hl hkey
    exact ⟨id, kids, epoch, List.mem_append_right _ hmsg, he, hin⟩
  · intro k hk id g hg hl hkey
    exact (href.current k (hscope k hk) id g hg hl hkey).mono fun x => List.mem_append_right _
  · intro x hx
    rcases List.mem_append.mp hx with hx | hx
    · intro grantee session gid scope validUntil audience kids he k e hk
      obtain ⟨id, g, hg, hgrantee, huntil, hkey⟩ := (hbefore x hx).2 _ _ _ _ _ _ _ he k e hk
      obtain ⟨id', g', hg', hsame⟩ := href.continued id g hg
      exact ⟨id', g', hg', hsame.1.trans hgrantee, hsame.2.2.1.trans huntil, hsame.2.1 ▸ hkey⟩
    · exact href.backed x hx

theorem moveSpec_of_same (hi : KeyInv s) (hn : s.now ≤ n)
    (hp : ∀ scope at', s.contacts.due.lookup scope = some at' → n < at')
    (hdue : c.due = s.contacts.due) (hlast : c.lastRotated = s.contacts.lastRotated)
    (hrate : c.tRotate = s.contacts.tRotate) (hepochs : ∀ k e, s.contacts.epochs.lookup k = some e →
      ∃ e', c.epochs.lookup k = some e' ∧ e ≤ e') (hs : Standing c)
    {out : List ContactEmit} (ho : ∀ x ∈ out, x.toRotation = none) (hno : ∀ gid scope, ¬ Ends s gid scope act)
    (hon : ∀ gid g, s.contacts.grantsIssued.lookup gid = some g → GrantIssued.Running g →
      n ≤ max s.now g.validUntil)
    (hcont : ∀ gid g, s.contacts.grantsIssued.lookup gid = some g →
      ∃ id g', c.grantsIssued.lookup id = some g' ∧ Continues g g')
    (hended : ∀ id g, c.grantsIssued.lookup id = some g → g.ended = true →
      s.contacts.grantsIssued.lookup id = some g)
    (hbacked : ∀ x ∈ out, Backed c x) : MoveSpec s act out ⟨n, c⟩ := by
  have hnone : ∀ k, ¬ Rotates out k := by
    rintro k ⟨epoch, hk⟩
    unfold rotations at hk
    rw [List.filterMap_eq_nil_iff.mpr ho] at hk
    exact absurd hk List.not_mem_nil
  refine ⟨turn_of_same hn (fun k at' h => (hp k at' h).le) hdue hlast hrate hepochs ho ?_,
    ⟨hs, ?_, ?_, ?_⟩, hon, fun gid k h => absurd h (hno gid k), ?_, ?_, ?_, hbacked⟩
  · rintro scope ⟨gid, h⟩
    exact hno gid scope h
  · intro scope at' h
    replace h : s.contacts.due.lookup scope = some at' := hdue ▸ h
    obtain ⟨-, last, hl, he⟩ := hi.due scope at' h
    refine ⟨hp scope at' h, last, ?_, ?_⟩
    · show c.lastRotated.lookup scope = _
      rw [hlast, hl]
    · rw [he]
      exact congrArg (last + ·) hrate.symm
  · intro scope last hl
    replace hl : s.contacts.lastRotated.lookup scope = some last := hlast ▸ hl
    exact (hi.past scope last hl).trans hn
  · intro gid g hg he
    exact (hi.ended gid g (hended gid g hg he) he).trans hn
  · intro gid g k hg he hk
    obtain ⟨id, g', hg', hsame⟩ := hcont gid g hg
    exact .inr ⟨id, g', hg', hsame.2.2.2 he, hsame.1, hsame.2.1 ▸ hk⟩
  · intro k hk
    exact absurd hk (hnone k)
  · intro k hk
    exact absurd hk (hnone k)

theorem moveSpec_refused (hi : KeyInv s) {reason : String}
    (hno : ∀ gid scope, ¬ Ends s gid scope act) : MoveSpec s act [.refused reason] ⟨s.now, s.contacts⟩ := by
  refine moveSpec_of_same hi le_rfl (fun k at' h => (hi.due k at' h).1) rfl rfl rfl
    (fun k e h => ⟨e, h, le_rfl⟩) hi.standing ?_ hno (fun gid g hg hr => le_max_left _ _)
    (fun gid g hg => ⟨gid, g, hg, .refl g⟩) (fun _ _ h _ => h) ?_
  · intro x hx
    rw [List.mem_singleton.mp hx]
    rfl
  · intro x hx _ _ _ _ _ _ _ he
    rw [List.mem_singleton.mp hx] at he
    cases he

theorem mem_instants_of_running {gid : String} {g : GrantIssued}
    (hg : c.grantsIssued.lookup gid = some g) (hr : GrantIssued.Running g) : g.validUntil ∈ c.instants := by
  refine List.mem_append_left _ (List.mem_map.mpr ⟨g, List.mem_filter.mpr ⟨?_, ?_⟩, rfl⟩)
  · exact Dict.mem_values.mpr ⟨gid, hg⟩
  · exact decide_eq_true hr

theorem mem_instants_of_due {scope : String} {at' : Nat} (hd : c.due.lookup scope = some at') :
    at' ∈ c.instants :=
  List.mem_append_right _ (Dict.mem_values.mpr ⟨scope, hd⟩)

theorem KeyInv.tick (hi : KeyInv s) (hn : s.now ≤ n) (hinst : n = s.now ∨ ∀ i ∈ s.contacts.instants, n ≤ i)
    (hr : (s.contacts.endLapsed n).rotateDue n = .ok r) : MoveSpec s (.tick n) r.2 ⟨n, r.1⟩ := by
  obtain ⟨due, issued, he, hissued, hm⟩ := endLapsed_spec s.contacts n
  rw [he] at hr
  have hkeys : ∀ g, (lapse n g).keys = g.keys ∧ (lapse n g).scope = g.scope ∧
      (lapse n g).audience = g.audience ∧ (lapse n g).grantee = g.grantee ∧
      (lapse n g).validUntil = g.validUntil := by
    intro g
    unfold lapse
    split <;> exact ⟨rfl, rfl, rfl, rfl, rfl⟩
  have horigin : ∀ k g', issued.lookup k = some g' →
      ∃ g, s.contacts.grantsIssued.lookup k = some g ∧ lapse n g = g' := by
    intro k g' hg'
    rw [hissued, Option.map_eq_some_iff] at hg'
    exact hg'
  have hends : ∀ scope, (∃ gid g, s.contacts.grantsIssued.lookup gid = some g ∧ Lapses n g ∧
      scope ∈ g.keys) ↔ ∃ gid, Ends s gid scope (.tick n) := by
    intro scope
    constructor
    · rintro ⟨gid, g, hg, hl, hk⟩
      exact ⟨gid, .lapsed hg hl.1.2 hk hl.2⟩
    · rintro ⟨gid, hends⟩
      cases hends with
      | lapsed hg hend hk hle => exact ⟨gid, _, hg, ⟨⟨List.ne_nil_of_mem hk, hend⟩, hle⟩, hk⟩
  have hs : Standing { s.contacts with due := due, grantsIssued := issued } := by
    constructor
    · intro k g' hg'
      obtain ⟨g, hg, rfl⟩ := horigin k g' hg'
      rw [(hkeys g).1, (hkeys g).2.1, (hkeys g).2.2.1]
      exact hi.standing.keys k g hg
    · intro k g' hg'
      obtain ⟨g, hg, rfl⟩ := horigin k g' hg'
      rw [(hkeys g).1]
      exact hi.standing.epochs k g hg
    · exact hi.standing.distinct
    · intro id hid hin
      obtain ⟨g', hg'⟩ := Dict.mem_iff_lookup.mp hin
      obtain ⟨g, hg, -⟩ := horigin id g' hg'
      exact hi.standing.unused id hid (Dict.mem_iff_lookup.mpr ⟨g, hg⟩)
  have hlapse : ∀ g, g.ended = false → ¬ g.validUntil ≤ n → lapse n g = g := by
    intro g _ hle
    unfold lapse
    exact if_neg fun hl => hle hl.2
  refine @moveSpec_of_rotateDue _ s { s.contacts with due := due, grantsIssued := issued } n (.tick n)
    hi hn ?_ rfl rfl (fun _ _ h => h) (Marks.congr hm hends) hs hr [] (fun x hx => absurd hx List.not_mem_nil) ?_ ?_ ?_ rfl ?_ ?_
  · intro scope at' hd
    rcases hinst with rfl | hall
    · exact (hi.due scope at' hd).1.le
    · exact hall at' (mem_instants_of_due hd)
  · intro gid g hg hrun
    rcases hinst with rfl | hall
    · exact le_max_left _ _
    · exact (hall _ (mem_instants_of_running hg hrun)).trans (le_max_right _ _)
  · intro gid g k hg hrun hk
    by_cases hle : g.validUntil ≤ n
    · exact .inl (.lapsed hg hrun hk hle)
    · refine .inr ⟨gid, g, ?_, hrun, rfl, hk⟩
      show issued.lookup gid = some g
      rw [hissued, hg, Option.map_some, hlapse g hrun hle]
  · intro gid g hg hlive
    refine .inr ?_
    show issued.lookup gid = some g
    rw [hissued, hg, Option.map_some, lapse, if_neg fun hl => absurd hl.2 (not_le.mpr hlive)]
  · intro gid k hends g' hg'
    obtain ⟨g, hg, rfl⟩ := horigin gid g' hg'
    rw [(hkeys g).2.2.2.2]
    cases hends with
    | lapsed hg₀ _ _ hle =>
      rw [hg] at hg₀
      exact Option.some.inj hg₀ ▸ hle
  · intro id g' hg' hended
    obtain ⟨g, hg, rfl⟩ := horigin id g' hg'
    rw [(hkeys g).2.2.2.2]
    unfold lapse at hended
    split at hended
    case isTrue hl => exact hl.2
    case isFalse => exact (hi.ended id g hg hended).trans hn

theorem Contacts.Standing.erase (hs : Standing c) (gid : String) {due : Dict String Nat} :
    Standing { c with grantsIssued := c.grantsIssued.erase gid, due := due } := by
  have hold : ∀ k g, (c.grantsIssued.erase gid).lookup k = some g → c.grantsIssued.lookup k = some g := by
    intro k g hg
    rw [Dict.lookup_erase_eq] at hg
    split at hg
    case isTrue => cases hg
    case isFalse => exact hg
  exact ⟨fun k g hg => hs.keys k g (hold k g hg), fun k g hg => hs.epochs k g (hold k g hg),
    hs.distinct, fun id hid hin => hs.unused id hid (AList.mem_erase.mp hin).2⟩

theorem KeyInv.revoke (hi : KeyInv s) {gid : String}
    (hr : s.contacts.revoke s.now gid = .ok r) : MoveSpec s (.revoke gid) r.2 ⟨s.now, r.1⟩ := by
  unfold Contacts.revoke at hr
  split at hr
  case h_1 hnone =>
    obtain rfl := Except.ok.inj hr
    refine moveSpec_refused hi fun gid' scope hends => ?_
    cases hends with
    | revoked hg =>
      rw [hnone] at hg
      cases hg
  case h_2 g hg =>
    dsimp only at hr
    obtain ⟨due, he, hm⟩ := endGrant_spec
      { s.contacts with grantsIssued := s.contacts.grantsIssued.erase gid } s.now g []
    rw [he] at hr
    cases hq : rotateDue { s.contacts with
        grantsIssued := s.contacts.grantsIssued.erase gid, due := due } s.now with
    | error fault =>
      rw [hq] at hr
      cases hr
    | ok q =>
      rw [hq] at hr
      obtain rfl := Except.ok.inj hr
      have hends : ∀ scope, (g.ended = false ∧ scope ∈ g.keys ∧ scope ∉ ([] : List String)) ↔
          ∃ gid', Ends s gid' scope (.revoke gid) := by
        intro scope
        constructor
        · rintro ⟨hend, hk, -⟩
          exact ⟨gid, .revoked hg hend hk⟩
        · rintro ⟨gid', hends⟩
          cases hends with
          | revoked hg' hend hk =>
            rw [hg] at hg'
            obtain rfl := Option.some.inj hg'
            exact ⟨hend, hk, List.not_mem_nil⟩
      have hother : ∀ k g', s.contacts.grantsIssued.lookup k = some g' → k ≠ gid →
          (s.contacts.grantsIssued.erase gid).lookup k = some g' := by
        intro k g' hg' hne
        rw [Dict.lookup_erase_eq, if_neg hne, hg']
      refine @moveSpec_of_rotateDue _ s
        { s.contacts with grantsIssued := s.contacts.grantsIssued.erase gid, due := due } s.now
        (.revoke gid) hi le_rfl (fun scope at' hd => (hi.due scope at' hd).1.le) rfl rfl (fun _ _ h => h)
        (@Marks.congr s.contacts _ _ _ _ ⟨hm.marked, hm.others⟩ hends) (hi.standing.erase gid) hq [_] ?_
        (fun gid g hg hrun => le_max_left _ _) ?_ ?_ rfl ?_ ?_
      · intro x hx
        rw [List.mem_singleton.mp hx]
        exact ⟨rfl, nofun⟩
      · intro gid' g' k hg' hend hk
        by_cases hgid : gid' = gid
        · subst hgid
          exact .inl (.revoked hg' hend hk)
        · exact .inr ⟨gid', g', hother gid' g' hg' hgid, hend, rfl, hk⟩
      · intro gid' g' hg' _
        by_cases hgid : gid' = gid
        · exact .inl hgid.symm
        · exact .inr (hother gid' g' hg' hgid)
      · intro gid' k hends g' hg'
        cases hends with
        | revoked =>
          replace hg' : (s.contacts.grantsIssued.erase gid).lookup gid = some g' := hg'
          rw [Dict.lookup_erase_eq, if_pos rfl] at hg'
          cases hg'
      · intro id g' hg' hend
        replace hg' : (s.contacts.grantsIssued.erase gid).lookup id = some g' := hg'
        rw [Dict.lookup_erase_eq] at hg'
        split at hg'
        case isTrue => cases hg'
        case isFalse => exact hi.ended id g' hg' hend

theorem mem_issued (c : Contacts) (gid grantee introduction : String) (scope : List String)
    (validUntil : Nat) (audience : Option String) (chain : List String) (k : String) :
    (c.issueGrant gid grantee scope validUntil introduction audience chain).1.grantsIssued.lookup k =
      if k = gid then some
        { grantee, scope, validUntil, audience, keys := c.keyScopes scope audience, chain
          ended := false }
      else c.grantsIssued.lookup k :=
  Dict.lookup_insert_eq ..

theorem issueGrant_epochs (c : Contacts) (gid grantee introduction : String) (scope : List String)
    (validUntil : Nat) (audience : Option String) (chain : List String) {k : String} {e : Nat}
    (h : c.epochs.lookup k = some e) :
    (c.issueGrant gid grantee scope validUntil introduction audience chain).1.epochs.lookup k = some e := by
  refine (lookup_startEpochs ..).trans ?_
  rw [h]
  rfl

theorem issueGrant_backed {c c' : Contacts} {gid grantee introduction : String} {scope : List String}
    {validUntil : Nat} {audience : Option String} {chain : List String} (hc : c'.grantsIssued =
      (c.issueGrant gid grantee scope validUntil introduction audience chain).1.grantsIssued) :
    ∀ x ∈ (c.issueGrant gid grantee scope validUntil introduction audience chain).2,
      x.toRotation = none ∧ Backed c' x := by
  intro x hx
  rw [List.mem_singleton.mp hx]
  refine ⟨rfl, @Backed.of_keys _ _ _ _ _ _ _ _ gid _
    ((c.keyScopes scope audience).foldl startEpoch c.epochs) ?_
    (by rw [hc, mem_issued, if_pos rfl]) rfl rfl⟩
  intro kids hkids
  split at hkids
  case isTrue => cases hkids
  case isFalse => exact (Option.some.inj hkids).symm

theorem KeyInv.issue (hi : KeyInv s) {gid grantee introduction : String} {scope : List String}
    {validUntil : Nat} {audience : Option String}
    (hf : FreshAct s (.issue gid grantee scope validUntil introduction audience)) :
    MoveSpec s (.issue gid grantee scope validUntil introduction audience)
      (s.contacts.issueGrant gid grantee scope validUntil introduction audience []).2
      ⟨s.now, (s.contacts.issueGrant gid grantee scope validUntil introduction audience []).1⟩ := by
  refine @moveSpec_of_same s
    (s.contacts.issueGrant gid grantee scope validUntil introduction audience []).1 s.now _ hi le_rfl
    (fun k at' h => (hi.due k at' h).1) rfl rfl rfl
    (fun k e h => ⟨e, issueGrant_epochs _ _ _ _ _ _ _ _ h, le_rfl⟩) (hi.standing.issue hf.2) _ ?_
    (fun _ _ h => nomatch h) (fun gid g hg hr => le_max_left _ _) ?_ ?_ ?_
  · exact fun x hx => (@issueGrant_backed s.contacts _ gid grantee introduction scope validUntil
      audience [] rfl x hx).1
  · intro k g hg
    refine ⟨k, g, ?_, .refl g⟩
    rw [mem_issued, if_neg]
    · exact hg
    · rintro rfl
      exact hf.1 (Dict.mem_iff_lookup.mpr ⟨g, hg⟩)
  · intro k g hg he
    rw [mem_issued] at hg
    split at hg
    case isTrue =>
      obtain rfl := Option.some.inj hg
      cases he
    case isFalse => exact hg
  · exact fun x hx => (@issueGrant_backed s.contacts _ gid grantee introduction scope validUntil
      audience [] rfl x hx).2

theorem KeyInv.regrant (hi : KeyInv s) {id gid : String} {scope : List String} {validUntil : Nat}
    {audience : Option String} (hf : FreshAct s (.regrant id gid scope validUntil audience))
    (hr : s.contacts.regrant s.now id gid scope validUntil audience = .ok r) :
    MoveSpec s (.regrant id gid scope validUntil audience) r.2 ⟨s.now, r.1⟩ := by
  unfold Contacts.regrant at hr
  split at hr
  case h_1 hnone =>
    obtain rfl := Except.ok.inj hr
    refine moveSpec_refused hi fun gid' k hends => ?_
    cases hends with
    | replaced hg =>
      rw [hnone] at hg
      cases hg
  case h_2 old hold =>
    split at hr
    case isTrue hdead =>
      obtain rfl := Except.ok.inj hr
      refine moveSpec_refused hi fun gid' k hends => ?_
      cases hends with
      | replaced hg _ _ hlive =>
        rw [hold] at hg
        obtain rfl := Option.some.inj hg
        exact absurd hlive (not_lt.mpr hdead)
    case isFalse hlive =>
      split at hr
      case isTrue hbad =>
        obtain rfl := Except.ok.inj hr
        refine moveSpec_refused hi fun gid' k hends => ?_
        cases hends with
        | replaced hg _ _ _ ha =>
          obtain ⟨a, hmem, hno⟩ := (Option.any_eq_true _ _).mp hbad
          rw [ha a hmem] at hno
          cases hno
      case isFalse hgood =>
        dsimp only at hr
        rw [not_le] at hlive
        let c₀ : Contacts := { s.contacts with grantsIssued := s.contacts.grantsIssued.erase gid }
        let c₁ : Contacts := (c₀.issueGrant id old.grantee scope validUntil gid audience []).1
        have hkeys : c₁.keyScopes scope audience = s.contacts.keyScopes scope audience := rfl
        obtain ⟨due, he, hm⟩ := endGrant_spec c₁ s.now old (s.contacts.keyScopes scope audience)
        replace hr : ((c₁.endGrant s.now old (s.contacts.keyScopes scope audience)).rotateDue
            s.now).map (fun r => (r.1, .revoke (gid :: old.chain) ::
              (c₀.issueGrant id old.grantee scope validUntil gid audience []).2 ++ r.2)) = .ok r := hr
        rw [he] at hr
        cases hq : rotateDue { c₁ with due := due } s.now with
        | error fault =>
          rw [hq] at hr
          cases hr
        | ok q =>
          rw [hq] at hr
          obtain rfl := Except.ok.inj hr
          have hends : ∀ k, (old.ended = false ∧ k ∈ old.keys ∧ k ∉ s.contacts.keyScopes scope audience) ↔
              ∃ gid', Ends s gid' k (.regrant id gid scope validUntil audience) := by
            intro k
            constructor
            · rintro ⟨hend, hk, hno⟩
              refine ⟨gid, .replaced hold hend hk hlive ?_ hno⟩
              intro a ha
              by_contra hbad
              refine hgood ((Option.any_eq_true _ _).mpr ⟨a, ha, ?_⟩)
              rw [Bool.not_eq_true] at hbad
              rw [hbad]
              rfl
            · rintro ⟨gid', hends⟩
              cases hends with
              | replaced hg hend hk _ _ hno =>
                rw [hold] at hg
                obtain rfl := Option.some.inj hg
                exact ⟨hend, hk, hno⟩
          have hlookup : ∀ k, c₁.grantsIssued.lookup k =
              if k = id then some ⟨old.grantee, scope, validUntil, audience,
                s.contacts.keyScopes scope audience, [], false⟩
              else if k = gid then none else s.contacts.grantsIssued.lookup k := by
            intro k
            refine (mem_issued ..).trans ?_
            rw [show c₀.grantsIssued.lookup k = _ from Dict.lookup_erase_eq ..]
            rfl
          have hother : ∀ k g, s.contacts.grantsIssued.lookup k = some g → k ≠ gid →
              c₁.grantsIssued.lookup k = some g := by
            intro k g hg hne
            have hid : k ≠ id := fun h => hf.1 (h ▸ Dict.mem_iff_lookup.mpr ⟨g, hg⟩)
            rw [hlookup, if_neg hid, if_neg hne, hg]
          have hs₁ : Standing c₁ :=
            Standing.issue (hi.standing.erase gid) (show id ∉ s.contacts.grantIds from hf.2)
          refine @moveSpec_of_rotateDue _ s { c₁ with due := due } s.now
            (.regrant id gid scope validUntil audience) hi le_rfl
            (fun k at' hd => (hi.due k at' hd).1.le) rfl rfl
            (fun k e h => issueGrant_epochs c₀ id old.grantee gid scope validUntil audience [] h)
            (@Marks.congr s.contacts _ _ _ _ ⟨hm.marked, hm.others⟩ hends)
            ⟨hs₁.keys, hs₁.epochs, hs₁.distinct, hs₁.unused⟩ hq (_ :: _) ?_
            (fun gid g hg hrun => le_max_left _ _) ?_ ?_ rfl ?_ ?_
          · intro x hx
            rcases List.mem_cons.mp hx with rfl | hx
            · exact ⟨rfl, nofun⟩
            · exact issueGrant_backed rfl x hx
          · intro gid' g k hg hend hk
            by_cases hgid : gid' = gid
            · subst hgid
              rw [hold] at hg
              obtain rfl := Option.some.inj hg
              by_cases hkeep : k ∈ s.contacts.keyScopes scope audience
              · exact .inr ⟨id, _, (hlookup id).trans (if_pos rfl), rfl, rfl, hkeep⟩
              · obtain ⟨gid', h⟩ := (hends k).mp ⟨hend, hk, hkeep⟩
                cases h with
                | replaced _ _ _ _ ha hno => exact .inl (.replaced hold hend hk hlive ha hno)
            · exact .inr ⟨gid', g, hother gid' g hg hgid, hend, rfl, hk⟩
          · intro gid' g hg _
            by_cases hgid : gid' = gid
            · exact .inl hgid.symm
            · exact .inr (hother gid' g hg hgid)
          · intro gid' k hends g hg
            cases hends with
            | replaced =>
              replace hg : c₁.grantsIssued.lookup gid = some g := hg
              rw [hlookup, if_neg, if_pos rfl] at hg
              · cases hg
              · rintro rfl
                exact hf.1 (Dict.mem_iff_lookup.mpr ⟨old, hold⟩)
          · intro id' g hg hend
            replace hg : c₁.grantsIssued.lookup id' = some g := hg
            rw [hlookup] at hg
            split at hg
            case isTrue =>
              obtain rfl := Option.some.inj hg
              cases hend
            case isFalse =>
              split at hg
              case isTrue => cases hg
              case isFalse => exact hi.ended id' g hg hend

theorem KeyInv.ownRecord (hi : KeyInv s) {identity : String} {kid subject : Option String}
    (hr : s.contacts.recvOwnRecord s.now identity kid subject = .ok r) :
    MoveSpec s (.ownRecord identity kid subject) r.2 ⟨s.now, r.1⟩ := by
  have hsame : MoveSpec s (.ownRecord identity kid subject) [] ⟨s.now, s.contacts⟩ :=
    moveSpec_of_same hi le_rfl (fun k at' h => (hi.due k at' h).1) rfl rfl rfl
      (fun k e h => ⟨e, h, le_rfl⟩) hi.standing (fun x hx => absurd hx List.not_mem_nil)
        (fun _ _ h => nomatch h)
      (fun gid g hg hrun => le_max_left _ _) (fun gid g hg => ⟨gid, g, hg, .refl g⟩)
      (fun _ _ h _ => h) fun x hx => absurd hx List.not_mem_nil
  unfold recvOwnRecord at hr
  split at hr
  case h_1 =>
    obtain rfl := Except.ok.inj hr
    exact hsame
  case h_2 kid =>
    split at hr
    case isTrue =>
      obtain rfl := Except.ok.inj hr
      exact hsame
    case isFalse =>
      dsimp only at hr
      split at hr
      case h_1 =>
        obtain rfl := Except.ok.inj hr
        exact hsame
      case h_2 e _ =>
        split at hr
        case isTrue =>
          obtain rfl := Except.ok.inj hr
          exact hsame
        case isFalse hhigher =>
          generalize (rpartition kid).1 = scope at hr hhigher
          let c₁ : Contacts := { s.contacts with epochs := s.contacts.epochs.insert scope e }
          have hs₁ : Standing c₁ := by
            refine ⟨hi.standing.keys, ?_, hi.standing.distinct, hi.standing.unused⟩
            intro gid g hg k hk
            exact (AList.mem_insert _).mpr (.inr (hi.standing.epochs gid g hg k hk))
          cases hq : c₁.regrantCarrying s.now [scope] with
          | error fault =>
            replace hr : (c₁.regrantCarrying s.now [scope]).map
              (fun r => (r.1, ContactEmit.keysSeen scope e :: r.2)) = .ok r := hr
            rw [hq] at hr
            cases hr
          | ok q =>
            replace hr : (c₁.regrantCarrying s.now [scope]).map
              (fun r => (r.1, ContactEmit.keysSeen scope e :: r.2)) = .ok r := hr
            rw [hq] at hr
            obtain rfl := Except.ok.inj hr
            have hfollowed := regrantCarrying_spec hs₁ hq
            have href := hfollowed.refreshed hs₁
            obtain ⟨issued, ids, hframe⟩ := hfollowed.frame
            refine moveSpec_of_same hi le_rfl (fun k at' h => (hi.due k at' h).1)
              (by rw [hframe]) (by rw [hframe]) (by rw [hframe]) ?_ hfollowed.standing ?_ nofun
              (fun gid g hg hrun => le_max_left _ _) href.continued href.ended ?_
            · intro k old hold
              rw [hframe]
              show ∃ e', (s.contacts.epochs.insert scope e).lookup k = some e' ∧ old ≤ e'
              rw [Dict.lookup_insert_eq]
              split
              case isTrue hk =>
                subst hk
                rw [hold, Option.any_some, decide_eq_true_eq, not_le] at hhigher
                exact ⟨e, rfl, hhigher.le⟩
              case isFalse => exact ⟨old, hold, le_rfl⟩
            · intro x hx
              rcases List.mem_cons.mp hx with rfl | hx
              · rfl
              · obtain ⟨gid, -, g, id, -, -, rfl, -⟩ := hfollowed.sent x hx
                exact toRotation_followMsg _ _ _ _
            · intro x hx
              rcases List.mem_cons.mp hx with rfl | hx
              · exact nofun
              · exact href.backed x hx

theorem Aside.move (hi : KeyInv s) (hc : s.contacts.Aside c) {out : List ContactEmit}
    (ho : ∀ x ∈ out, ¬ x.OfKeys) : MoveSpec s .other out ⟨s.now, c⟩ := by
  obtain ⟨held, requests, pending, tokens, seen, keys, rfl⟩ := hc
  refine @moveSpec_of_same s
    { s.contacts with
      grantsHeld := held
      requests := requests
      pendingSent := pending
      tokens := tokens
      seenIntroductions := seen
      heldKeys := keys } s.now _ hi le_rfl (fun k at' h => (hi.due k at' h).1) rfl rfl rfl
    (fun k e h => ⟨e, h, le_rfl⟩)
    ⟨hi.standing.keys, hi.standing.epochs, hi.standing.distinct, hi.standing.unused⟩ _ ?_
    (fun _ _ h => nomatch h) (fun gid g hg hrun => le_max_left _ _)
    (fun gid g hg => ⟨gid, g, hg, .refl g⟩) (fun _ _ h _ => h) ?_
  · intro x hx
    cases x with
    | keysRotated => exact absurd trivial (ho _ hx)
    | _ => rfl
  · intro x hx _ _ _ _ _ _ _ he
    subst he
    exact absurd trivial (ho _ hx)

/-- **One move.** -/
theorem KeyInv.move (hi : KeyInv s) (hf : FreshAct s act) {out : List ContactEmit} {s' : Clocked}
    (h : KeyStep s act out s') : MoveSpec s act out s' := by
  cases h with
  | @wait n hn hinst =>
    exact moveSpec_of_same hi hn (fun k at' h => hinst at' (mem_instants_of_due h)) rfl rfl rfl
      (fun k e h => ⟨e, h, le_rfl⟩) hi.standing (fun x hx => absurd hx List.not_mem_nil)
      (fun _ _ h => nomatch h)
      (fun gid g hg hrun => (hinst _ (mem_instants_of_running hg hrun)).le.trans (le_max_right _ _))
      (fun gid g hg => ⟨gid, g, hg, .refl g⟩) (fun _ _ h _ => h)
      fun x hx => absurd hx List.not_mem_nil
  | tick hn hinst hr => exact hi.tick hn hinst hr
  | issue => exact hi.issue hf
  | regrant hr => exact hi.regrant hf hr
  | revoke hr => exact hi.revoke hr
  | ownRecord hr => exact hi.ownRecord hr
  | other hc ho => exact Aside.move hi hc ho

end Moves

end Dsip.Engine
