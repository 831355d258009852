import Dsip.Lib.Weight
import Dsip.Engine.KeyRefine

/-!
# The clock loop ends, and does not see how far it was asked to go

Every turn of `advance` costs something: a timer fires, a running grant ends, a
scope that was due rotates. With a price for every grant the cost of a state is
a number that a turn lowers, so the loop ends. A turn depends on the next instant
alone, so stopping on the way changes nothing.
-/

namespace Dsip.Engine

open Dsip.Lib

namespace Endpoint

variable {e e' : Endpoint}

/-! ## Firing -/

theorem stopTimer_length (e : Endpoint) (s : Session) (name : TimerName) :
    (e.stopTimer s name).timers.length ≤ e.timers.length := by
  rw [stopTimer_timers]
  exact List.length_eraseP_le

theorem stopAll_length (e : Endpoint) (s : Session) : (e.stopAll s).timers.length ≤ e.timers.length :=
  (stopTimer_length _ s .ringLocal).trans ((stopTimer_length _ s .queue).trans
    ((stopTimer_length _ s .ring).trans (stopTimer_length e s .establish)))

theorem endSession_length (e : Endpoint) (s : Session) (uiReason : Option String) (mediaStop : Bool) :
    (e.endSession s uiReason mediaStop).timers.length ≤ e.timers.length := by
  have hstop := stopAll_length e s
  cases uiReason <;> cases mediaStop <;> exact hstop

theorem fire_kept {t : Timer} (h : e.fire t = .ok e') :
    e'.timers.length ≤ e.timers.length ∧ e'.contacts = e.contacts ∧ e'.now = e.now := by
  refine ⟨?_, ?_, fire_now h⟩
  · unfold fire at h
    split at h
    case h_1 => cases h
    case h_2 s _ =>
      dsimp only at h
      split at h
      case isTrue =>
        cases h
        exact (endSession_length _ _ _ _).trans (stopAll_length (e.emit _) s)
      case isFalse =>
        split at h
        case isTrue =>
          cases h
          exact endSession_length ((e.emit _).send _) s _ _
        case isFalse =>
          cases h
          exact le_rfl
  · unfold fire at h
    split at h
    case h_1 => cases h
    case h_2 s _ =>
      dsimp only at h
      split at h
      case isTrue =>
        cases h
        exact ((only_timeOut _ _ s rfl).mpr (only_self _ s.id)).contacts
      case isFalse =>
        split at h
        case isTrue =>
          cases h
          exact ((only_endSession _ _ s rfl _ _).mpr (only_self _ s.id)).contacts
        case isFalse =>
          cases h
          rfl

theorem fire_fault {t : Timer} {fault : Fault} (h : e.fire t = .error fault) : fault = .noSession := by
  unfold fire at h
  split at h
  case h_1 => cases h; rfl
  case h_2 =>
    dsimp only at h
    split at h
    case isTrue => cases h
    case isFalse => split at h <;> cases h

theorem fired_length {t : Timer} (ht : e.firstDue = some t)
    (h : { e with timers := e.timers.erase t }.fire t = .ok e') : e'.timers.length + 1 ≤ e.timers.length := by
  have hmem := (firstDue_mem ht).1
  have herase : (e.timers.erase t).length = e.timers.length - 1 := List.length_erase_of_mem hmem
  have hpos := List.length_pos_of_mem hmem
  have hfire : e'.timers.length ≤ (e.timers.erase t).length := (fire_kept h).1
  omega

theorem fireDue_ends (fuel : Nat) (hfuel : e.timers.length ≤ fuel) : e.fireDue fuel ≠ .error .unfinished := by
  induction fuel generalizing e with
  | zero =>
    unfold fireDue
    cases ht : e.firstDue with
    | none => simp
    | some t =>
      have hpos := List.length_pos_of_mem (firstDue_mem ht).1
      omega
  | succ fuel ih =>
    unfold fireDue
    cases ht : e.firstDue with
    | none => simp
    | some t =>
      dsimp only
      cases hfire : { e with timers := e.timers.erase t }.fire t with
      | error fault =>
        rw [fire_fault hfire]
        simp [Except.bind]
      | ok e₁ =>
        have hlt := fired_length ht hfire
        exact ih (by omega)

theorem fireDue_kept {fuel : Nat} (h : e.fireDue fuel = .ok e') :
    e'.contacts = e.contacts ∧ e'.now = e.now ∧ e'.timers.length ≤ e.timers.length ∧
      (e.firstDue.isSome = true → e'.timers.length + 1 ≤ e.timers.length) := by
  induction fuel generalizing e with
  | zero =>
    unfold fireDue at h
    cases ht : e.firstDue with
    | none =>
      rw [ht] at h
      cases h
      exact ⟨rfl, rfl, le_rfl, fun hsome => by cases hsome⟩
    | some t => rw [ht] at h; cases h
  | succ fuel ih =>
    unfold fireDue at h
    cases ht : e.firstDue with
    | none =>
      rw [ht] at h
      cases h
      exact ⟨rfl, rfl, le_rfl, fun hsome => by cases hsome⟩
    | some t =>
      rw [ht] at h
      obtain ⟨e₁, hfire, hrest⟩ := bind_ok h
      obtain ⟨hcontacts, hnow, hle, -⟩ := ih hrest
      obtain ⟨-, hcontacts₁, hnow₁⟩ := fire_kept hfire
      have hlt := fired_length ht hfire
      exact ⟨hcontacts.trans hcontacts₁, hnow.trans hnow₁, by omega, fun _ => by omega⟩

theorem firstDue_isSome {t : Timer} (ht : t ∈ e.timers) (hdue : t.deadline ≤ e.now) :
    e.firstDue.isSome = true := by
  have hmem : t ∈ (e.timers.filter (·.deadline ≤ e.now)).insertionSort Timer.Before := by
    rw [List.mem_insertionSort, List.mem_filter]
    exact ⟨ht, by simpa using hdue⟩
  unfold firstDue
  obtain ⟨u, us, hcons⟩ := List.exists_cons_of_ne_nil (List.ne_nil_of_mem hmem)
  rw [hcons]
  rfl

end Endpoint

/-! ## The price of a grant -/

/-- A price for every grant: ending one pays for the scopes it makes due, and the grant that
follows one costs no more than it does with an id of the pool. `Sound` is what is known of a
grant at a time. -/
structure Tariff where
  price : GrantIssued → Nat
  perId : Nat
  Sound : Nat → GrantIssued → Prop
  later : ∀ {now now' g}, now ≤ now' → Sound now g → Sound now' g
  issued : ∀ {now g}, g.ended = false → g.keys.length ≤ 2 → Sound now g
  ends : ∀ {now g}, Sound now g → Contacts.Lapses now g →
    Sound now { g with ended := true } ∧ price { g with ended := true } + g.keys.length + 1 ≤ price g
  follows : ∀ {now g g'}, Sound now g → now < g.validUntil → g.keys ≠ [] → g'.ended = false →
    g'.keys.length ≤ 2 → price g' ≤ price g + perId

variable {r : Contacts × List ContactEmit}

namespace Contacts

variable {T : Tariff} {c c' : Contacts} {now : Nat}

/-- What is known of every grant. -/
def Sound (T : Tariff) (c : Contacts) (now : Nat) : Prop :=
  ∀ gid g, c.grantsIssued.lookup gid = some g → T.Sound now g

/-- What the contacts can still make the clock do. -/
def cost (T : Tariff) (c : Contacts) : Nat :=
  c.grantsIssued.weight T.price + c.due.weight (fun _ => 1) + T.perId * c.grantIds.length

theorem Sound.later (h : c.Sound T now) {now' : Nat} (hle : now ≤ now') : c.Sound T now' :=
  fun gid g hg => T.later hle (h gid g hg)

theorem Sound.set (h : c.Sound T now) (gid : String) {g : GrantIssued} (hg : T.Sound now g)
    (hc : c'.grantsIssued = c.grantsIssued.insert gid g) : c'.Sound T now := by
  intro gid' g' hlookup
  rw [hc, Dict.lookup_insert_eq] at hlookup
  split at hlookup
  case isTrue => cases hlookup; exact hg
  case isFalse => exact h gid' g' hlookup

theorem Sound.erase (h : c.Sound T now) (gid : String)
    (hc : c'.grantsIssued = c.grantsIssued.erase gid) : c'.Sound T now := by
  intro gid' g' hlookup
  rw [hc, Dict.lookup_erase_eq] at hlookup
  split at hlookup
  case isTrue => cases hlookup
  case isFalse => exact h gid' g' hlookup

theorem keyScopes_length (c : Contacts) (scope : List String) (audience : Option String) :
    (c.keyScopes scope audience).length ≤ 2 := by
  unfold keyScopes
  split
  case isTrue => exact Nat.zero_le _
  case isFalse =>
    split
    case isTrue => exact Nat.zero_le _
    case isFalse => cases audience <;> simp

/-! ## Ending -/

/-- Only the schedule grows, by at most the scopes of the grant. -/
structure Dues (c c' : Contacts) (n : Nat) : Prop where
  grants : c'.grantsIssued = c.grantsIssued
  ids : c'.grantIds = c.grantIds
  grows : c'.due.weight (fun _ => 1) ≤ c.due.weight (fun _ => 1) + n
  kept : ∀ scope at', c.due.lookup scope = some at' → c'.due.lookup scope = some at'

theorem makeDue_dues (now : Nat) (keep : List String) (c : Contacts) (scope : String) :
    Dues c (makeDue now keep c scope) 1 := by
  unfold makeDue
  split
  case isTrue => exact ⟨rfl, rfl, Nat.le_succ _, fun _ _ h => h⟩
  case isFalse hnew =>
    have hweight := Dict.weight_insert (fun _ => 1) c.due scope (c.rotatesAt now scope)
    refine ⟨rfl, rfl, ?_, fun scope' at' h => ?_⟩
    · show Dict.weight (fun _ => 1) (c.due.insert scope _) ≤ _
      omega
    · show (c.due.insert scope _).lookup scope' = some at'
      rw [Dict.lookup_insert_eq, if_neg, h]
      rintro rfl
      exact hnew (Or.inr (Dict.mem_iff_lookup.mpr ⟨at', h⟩))

theorem makeDues_dues (now : Nat) (keep : List String) (keys : List String) (c : Contacts) :
    Dues c (keys.foldl (makeDue now keep) c) keys.length := by
  induction keys generalizing c with
  | nil => exact ⟨rfl, rfl, Nat.le_refl _, fun _ _ h => h⟩
  | cons scope keys ih =>
    have hone := makeDue_dues now keep c scope
    have hrest := ih (makeDue now keep c scope)
    refine ⟨hrest.grants.trans hone.grants, hrest.ids.trans hone.ids, ?_,
      fun scope' at' h => hrest.kept scope' at' (hone.kept scope' at' h)⟩
    have := hone.grows
    have := hrest.grows
    rw [List.foldl_cons, List.length_cons]
    omega

/-- Less or equal is due, and a scope that is due stays so. -/
structure Cheaper (T : Tariff) (now : Nat) (c c' : Contacts) : Prop where
  sound : c'.Sound T now
  cost : c'.cost T ≤ c.cost T
  kept : ∀ scope at', c.due.lookup scope = some at' → c'.due.lookup scope = some at'

theorem endIfLapsed_cheaper (h : c.Sound T now) (gid : String) : Cheaper T now c (endIfLapsed now c gid) ∧
      ((∃ g, c.grantsIssued.lookup gid = some g ∧ Lapses now g) →
        (endIfLapsed now c gid).cost T + 1 ≤ c.cost T) := by
  unfold endIfLapsed
  cases hg : c.grantsIssued.lookup gid with
  | none => exact ⟨⟨h, le_rfl, fun _ _ h => h⟩, fun ⟨g, hg', _⟩ => by cases hg'⟩
  | some g =>
    dsimp only
    split
    case isFalse hnot =>
      refine ⟨⟨h, le_rfl, fun _ _ h => h⟩, ?_⟩
      rintro ⟨g', hg', hlapses⟩
      cases hg'
      exact absurd hlapses hnot
    case isTrue hlapses =>
      obtain ⟨hsound, hprice⟩ := T.ends (h gid g hg) hlapses
      have hended : g.ended = false := hlapses.1.2
      have hdues := makeDues_dues now [] g.keys
        { c with grantsIssued := c.grantsIssued.insert gid { g with ended := true } }
      have hend : ({ c with grantsIssued := c.grantsIssued.insert gid { g with ended := true } } :
          Contacts).endGrant now g [] = g.keys.foldl (makeDue now [])
            { c with grantsIssued := c.grantsIssued.insert gid { g with ended := true } } := by
        rw [endGrant, if_neg (by rw [hended]; exact Bool.false_ne_true)]
      have hweight := Dict.weight_insert T.price c.grantsIssued gid { g with ended := true }
      rw [hg] at hweight
      simp only [Option.map_some, Option.getD_some] at hweight
      have hgrows : _ ≤ c.due.weight (fun _ => 1) + g.keys.length := hdues.grows
      have hcost : (g.keys.foldl (makeDue now [])
          { c with grantsIssued := c.grantsIssued.insert gid { g with ended := true } }).cost T + 1 ≤
            c.cost T := by
        unfold cost
        rw [hdues.grants, hdues.ids]
        dsimp only
        omega
      rw [hend]
      exact ⟨⟨h.set gid hsound hdues.grants, by omega, hdues.kept⟩, fun _ => hcost⟩

theorem Cheaper.trans {c'' : Contacts} (h : Cheaper T now c c') (h' : Cheaper T now c' c'') :
    Cheaper T now c c'' where
  sound := h'.sound
  cost := h'.cost.trans h.cost
  kept scope at' hs := h'.kept scope at' (h.kept scope at' hs)

theorem endEach_cheaper (gids : List String) {c : Contacts} (h : c.Sound T now) :
    Cheaper T now c (gids.foldl (endIfLapsed now) c) ∧
      ((∃ gid ∈ gids, ∃ g, c.grantsIssued.lookup gid = some g ∧ Lapses now g) →
        (gids.foldl (endIfLapsed now) c).cost T + 1 ≤ c.cost T) := by
  induction gids generalizing c with
  | nil => exact ⟨⟨h, le_rfl, fun _ _ h => h⟩, fun ⟨_, hmem, _⟩ => absurd hmem List.not_mem_nil⟩
  | cons first gids ih =>
    obtain ⟨hone, hless⟩ := endIfLapsed_cheaper h first
    obtain ⟨hrest, hless'⟩ := ih hone.sound
    refine ⟨hone.trans hrest, ?_⟩
    rintro ⟨gid, hmem, g, hg, hlapses⟩
    have hle := hone.cost
    have hle' := hrest.cost
    rw [List.foldl_cons]
    by_cases hfirst : gid = first
    · subst hfirst
      have := hless ⟨g, hg, hlapses⟩
      omega
    · -- another grant lapses as it did before
      obtain ⟨due, issued, he, hissued, -⟩ := endIfLapsed_spec now c first
      have hsame : (endIfLapsed now c first).grantsIssued.lookup gid = some g := by
        rw [he]
        exact (hissued gid).trans ((if_neg hfirst).trans hg)
      have := hless' ⟨gid, (List.mem_cons.mp hmem).resolve_left hfirst, g, hsame, hlapses⟩
      omega

/-! ## Rotating -/

theorem rotate_cost (T : Tariff) (now : Nat) (c : Contacts) (scope : String) :
    (rotate now c scope).1.cost T ≤ c.cost T ∧
      (scope ∈ c.due → (rotate now c scope).1.cost T + 1 ≤ c.cost T) := by
  have hweight := Dict.weight_erase (fun _ => 1) c.due scope
  have hcost : (rotate now c scope).1.cost T =
      c.grantsIssued.weight T.price + Dict.weight (fun _ => 1) (c.due.erase scope) +
        T.perId * c.grantIds.length := rfl
  rw [hcost]
  refine ⟨by unfold cost; omega, fun hmem => ?_⟩
  obtain ⟨at', hat⟩ := Dict.mem_iff_lookup.mp hmem
  rw [hat] at hweight
  simp only [Option.map_some, Option.getD_some] at hweight
  unfold cost
  omega

theorem rotates_cheaper (scopes : List String) {c : Contacts} (h : c.Sound T now) :
    (foldEmit (rotate now) c scopes).1.Sound T now ∧ (foldEmit (rotate now) c scopes).1.cost T ≤ c.cost T ∧
      (∀ first rest, scopes = first :: rest → first ∈ c.due →
        (foldEmit (rotate now) c scopes).1.cost T + 1 ≤ c.cost T) := by
  induction scopes generalizing c with
  | nil => exact ⟨h, le_rfl, fun _ _ he => by cases he⟩
  | cons scope scopes ih =>
    obtain ⟨hle, hless⟩ := rotate_cost T now c scope
    have hsound : (rotate now c scope).1.Sound T now := h
    obtain ⟨hsound', hle', -⟩ := ih hsound
    rw [foldEmit_cons]
    refine ⟨hsound', hle'.trans hle, ?_⟩
    rintro first rest ⟨⟩ hdue
    have := hless hdue
    dsimp only
    omega

theorem regrantEach_cheaper {scopes : List String} (gids : List String) {c : Contacts} (h : c.Sound T now)
    (hr : regrantEach now scopes c gids = .ok r) : r.1.Sound T now ∧ r.1.cost T ≤ c.cost T := by
  induction gids generalizing c r with
  | nil =>
    cases hr
    exact ⟨h, le_rfl⟩
  | cons gid gids ih =>
    unfold regrantEach at hr
    cases hg : c.grantsIssued.lookup gid with
    | none =>
      rw [hg] at hr
      exact ih h hr
    | some g =>
      rw [hg] at hr
      dsimp only at hr
      split at hr
      case isTrue => exact ih h hr
      case isFalse hcarries =>
        cases hids : c.grantIds with
        | nil => rw [hids] at hr; cases hr
        | cons next rest =>
          rw [hids] at hr
          obtain ⟨r', hrest, rfl⟩ := Endpoint.map_ok hr
          rw [not_or, not_not, not_le] at hcarries
          have hkeys : g.keys ≠ [] := by
            intro hnil
            rw [hnil] at hcarries
            exact Bool.false_ne_true hcarries.2
          let c₁ : Contacts := { c with grantsIssued := c.grantsIssued.erase gid, grantIds := rest }
          let new : GrantIssued := ⟨g.grantee, g.scope, g.validUntil, g.audience,
            c₁.keyScopes g.scope g.audience, gid :: g.chain, false⟩
          have hlength : new.keys.length ≤ 2 := keyScopes_length c₁ g.scope g.audience
          have hprice := T.follows (h gid g hg) hcarries.1 hkeys (show new.ended = false from rfl) hlength
          have herased : c₁.Sound T now := h.erase gid rfl
          have hsound : (issueGrant c₁ next g.grantee g.scope g.validUntil gid g.audience
              (gid :: g.chain)).1.Sound T now := herased.set next (T.issued rfl hlength) rfl
          obtain ⟨hsound', hle⟩ := ih hsound hrest
          refine ⟨hsound', hle.trans ?_⟩
          have herase := Dict.weight_erase T.price c.grantsIssued gid
          have hinsert := Dict.weight_insert T.price (c.grantsIssued.erase gid) next new
          rw [hg] at herase
          simp only [Option.map_some, Option.getD_some] at herase
          show Dict.weight T.price ((c.grantsIssued.erase gid).insert next new) +
            c.due.weight (fun _ => 1) + T.perId * rest.length ≤ c.cost T
          have hcount : T.perId * c.grantIds.length = T.perId * rest.length + T.perId := by
            rw [hids, List.length_cons, Nat.mul_succ]
          unfold cost
          omega

theorem rotateDue_cheaper (h : c.Sound T now)
    (hr : c.rotateDue now = .ok r) : r.1.Sound T now ∧ r.1.cost T ≤ c.cost T ∧
      ((∃ scope at', c.due.lookup scope = some at' ∧ at' ≤ now) → r.1.cost T + 1 ≤ c.cost T) := by
  obtain ⟨r', hregrant, rfl⟩ := Endpoint.map_ok hr
  obtain ⟨hsound, hle, hless⟩ := rotates_cheaper (c.dueNow now) h
  have hregranted : r'.1.Sound T now ∧ r'.1.cost T ≤ (foldEmit (rotate now) c (c.dueNow now)).1.cost T := by
    unfold regrantCarrying at hregrant
    split at hregrant
    case isTrue =>
      cases hregrant
      exact ⟨hsound, le_rfl⟩
    case isFalse => exact regrantEach_cheaper _ hsound hregrant
  refine ⟨hregranted.1, hregranted.2.trans hle, ?_⟩
  rintro ⟨scope, at', hat, hdue⟩
  have hmem : scope ∈ c.dueNow now := mem_dueNow.mpr ⟨at', hat, hdue⟩
  cases hscopes : c.dueNow now with
  | nil => rw [hscopes] at hmem; exact absurd hmem List.not_mem_nil
  | cons first rest =>
    have hfirst : first ∈ c.dueNow now := hscopes ▸ List.mem_cons_self
    obtain ⟨at₁, hat₁, -⟩ := mem_dueNow.mp hfirst
    have := hless first rest hscopes (Dict.mem_iff_lookup.mpr ⟨at₁, hat₁⟩)
    have := hregranted.2
    dsimp only
    omega

theorem regrantEach_fault {scopes : List String} (gids : List String) {c : Contacts} {fault : Fault}
    (h : regrantEach now scopes c gids = .error fault) : fault = .grantIdsExhausted := by
  induction gids generalizing c with
  | nil => cases h
  | cons gid gids ih =>
    unfold regrantEach at h
    cases hg : c.grantsIssued.lookup gid with
    | none =>
      rw [hg] at h
      exact ih h
    | some g =>
      rw [hg] at h
      dsimp only at h
      split at h
      case isTrue => exact ih h
      case isFalse =>
        cases hids : c.grantIds with
        | nil =>
          rw [hids] at h
          cases h
          rfl
        | cons next rest =>
          rw [hids] at h
          dsimp only at h
          generalize hrest : regrantEach now scopes _ gids = r at h
          cases r with
          | error fault' =>
            cases h
            exact ih hrest
          | ok r => cases h

theorem rotateDue_fault {fault : Fault} (h : c.rotateDue now = .error fault) :
    fault = .grantIdsExhausted := by
  unfold rotateDue regrantCarrying at h
  dsimp only at h
  split at h
  case isTrue => cases h
  case isFalse =>
    generalize hrest : regrantEach now _ _ _ = r at h
    cases r with
    | error fault' =>
      cases h
      exact regrantEach_fault _ hrest
    | ok r => cases h

end Contacts

/-! ## A turn of the loop -/

namespace Endpoint

variable {T : Tariff} {e e' : Endpoint}

/-- What the clock can still be made to do. -/
def cost (T : Tariff) (e : Endpoint) : Nat := e.timers.length + e.contacts.cost T

theorem tick_ends (e : Endpoint) (instant : Nat) : e.tick instant ≠ .error .unfinished := by
  intro h
  unfold tick at h
  dsimp only at h
  generalize hfired : fireDue e.timers.length _ = fired at h
  cases fired with
  | error fault =>
    cases h
    exact @fireDue_ends { e with now := max e.now instant } _ (Nat.le_refl _) hfired
  | ok e₁ =>
    replace h : ((e₁.contacts.endLapsed e₁.now).rotateDue e₁.now).map
      (Endpoint.withContacts { e₁ with contacts := e₁.contacts.endLapsed e₁.now }) = .error .unfinished := h
    cases hrotated : (e₁.contacts.endLapsed e₁.now).rotateDue e₁.now with
    | error fault =>
      rw [hrotated] at h
      cases h
      have := Contacts.rotateDue_fault hrotated
      cases this
    | ok r =>
      rw [hrotated] at h
      cases h

theorem cost_pos {instant : Nat} (hsound : e.contacts.Sound T e.now) (hinstant : instant ∈ e.instants) :
    1 ≤ e.cost T := by
  simp only [instants, List.mem_append] at hinstant
  unfold cost Contacts.cost
  rcases hinstant with (htimer | hgrant) | hdue
  · obtain ⟨t, ht, -⟩ := List.mem_map.mp htimer
    have := List.length_pos_of_mem ht
    omega
  · obtain ⟨g, hg, -⟩ := List.mem_map.mp hgrant
    obtain ⟨hvalue, hrunning⟩ := List.mem_filter.mp hg
    obtain ⟨gid, hlookup⟩ := Dict.mem_values.mp hvalue
    have hlater := T.later (le_max_left e.now g.validUntil) (hsound gid g hlookup)
    have hprice := (T.ends hlater ⟨of_decide_eq_true hrunning, le_max_right _ _⟩).2
    have := Dict.le_weight T.price hlookup
    omega
  · obtain ⟨scope, hat⟩ := Dict.mem_values.mp hdue
    have := Dict.le_weight (fun _ => 1) hat
    omega

theorem tick_cheaper {instant : Nat} (hsound : e.contacts.Sound T e.now) (hinstant : instant ∈ e.instants)
    (h : e.tick instant = .ok e') : e'.contacts.Sound T e'.now ∧ e'.cost T + 1 ≤ e.cost T := by
  have hnow := tick_now h
  obtain ⟨e₁, hfired, hrest⟩ := bind_ok h
  obtain ⟨r, hr, rfl⟩ := map_ok hrest
  obtain ⟨hcontacts, hnow₁, hlength, hfires⟩ := fireDue_kept hfired
  replace hcontacts : e₁.contacts = e.contacts := hcontacts
  replace hnow₁ : e₁.now = max e.now instant := hnow₁
  replace hlength : e₁.timers.length ≤ e.timers.length := hlength
  dsimp only at hr
  rw [hcontacts, hnow₁] at hr
  obtain ⟨hlapsed, hlapses⟩ := Contacts.endEach_cheaper e.contacts.grantsIssued.sortedKeys
    (hsound.later (le_max_left e.now instant))
  obtain ⟨hsound', hle, hrotates⟩ := Contacts.rotateDue_cheaper hlapsed.sound hr
  have hle₁ := hlapsed.cost
  have hcost : (Endpoint.withContacts { e₁ with contacts := e₁.contacts.endLapsed e₁.now } r).cost T =
      e₁.timers.length + r.1.cost T := rfl
  refine ⟨?_, ?_⟩
  · rw [hnow]
    exact hsound'
  · rw [hcost, cost]
    simp only [instants, List.mem_append] at hinstant
    have hbound : instant ≤ max e.now instant := le_max_right _ _
    rcases hinstant with (htimer | hgrant) | hdue
    · -- a timer fires
      obtain ⟨t, ht, rfl⟩ := List.mem_map.mp htimer
      have := hfires (@firstDue_isSome { e with now := max e.now t.deadline } t ht hbound)
      have hfewer : e₁.timers.length + 1 ≤ e.timers.length := this
      omega
    · -- a grant lapses
      obtain ⟨g, hg, rfl⟩ := List.mem_map.mp hgrant
      obtain ⟨hvalue, hrunning⟩ := List.mem_filter.mp hg
      obtain ⟨gid, hlookup⟩ := Dict.mem_values.mp hvalue
      have := hlapses ⟨gid, Dict.mem_sortedKeys.mpr (Dict.mem_iff_lookup.mpr ⟨g, hlookup⟩), g, hlookup,
        of_decide_eq_true hrunning, hbound⟩
      omega
    · -- a scope rotates
      obtain ⟨scope, hat⟩ := Dict.mem_values.mp hdue
      have := hrotates ⟨scope, instant, hlapsed.kept scope instant hat, hbound⟩
      omega

theorem advanceUntil_ends {target : Nat} (fuel : Nat) (hsound : e.contacts.Sound T e.now)
    (hfuel : e.cost T ≤ fuel) : e.advanceUntil target fuel ≠ .error .unfinished := by
  induction fuel generalizing e with
  | zero =>
    unfold advanceUntil
    cases hnext : (e.instants.filter (· ≤ target)).min? with
    | none => simp
    | some instant =>
      have := cost_pos hsound (List.mem_of_mem_filter (List.min?_eq_some_iff.mp hnext).1)
      omega
  | succ fuel ih =>
    unfold advanceUntil
    cases hnext : (e.instants.filter (· ≤ target)).min? with
    | none => simp
    | some instant =>
      have hmem := List.mem_of_mem_filter (List.min?_eq_some_iff.mp hnext).1
      dsimp only
      cases htick : e.tick instant with
      | error fault =>
        intro h
        cases h
        exact tick_ends e instant htick
      | ok e₁ =>
        obtain ⟨hsound₁, hless⟩ := tick_cheaper hsound hmem htick
        exact ih hsound₁ (by omega)

/-! ## Fuel -/

theorem advanceUntil_mono {target : Nat} (fuel : Nat) {more : Nat} (hle : fuel ≤ more)
    (h : e.advanceUntil target fuel ≠ .error .unfinished) :
    e.advanceUntil target more = e.advanceUntil target fuel := by
  induction fuel generalizing e more with
  | zero =>
    unfold advanceUntil at h ⊢
    cases hnext : (e.instants.filter (· ≤ target)).min? with
    | none => rfl
    | some instant =>
      rw [hnext] at h
      exact absurd rfl h
  | succ fuel ih =>
    cases more with
    | zero => exact absurd hle (Nat.not_succ_le_zero fuel)
    | succ more =>
      unfold advanceUntil at h ⊢
      cases hnext : (e.instants.filter (· ≤ target)).min? with
      | none => rfl
      | some instant =>
        rw [hnext] at h
        dsimp only at h ⊢
        cases htick : e.tick instant with
        | error fault => rfl
        | ok e₁ =>
          rw [htick] at h
          exact ih (Nat.le_of_succ_le_succ hle) h

/-! ## Stopping on the way -/

theorem tick_from {now instant : Nat} (hfirst : e.now ≤ now) (hnext : now ≤ instant) :
    tick { e with now := now } instant = e.tick instant := by
  have hsame : max now instant = max e.now instant := by omega
  unfold tick
  dsimp only
  rw [hsame]

theorem advanceUntil_from {target now : Nat} (fuel : Nat) (hfirst : e.now ≤ now)
    (hnone : (e.instants.filter (· ≤ now)).min? = none) :
    advanceUntil target fuel { e with now := now } = e.advanceUntil target fuel := by
  have hinstants : instants { e with now := now } = e.instants := rfl
  unfold advanceUntil
  rw [hinstants]
  cases hnext : (e.instants.filter (· ≤ target)).min? with
  | none => cases fuel <;> rfl
  | some instant =>
    cases fuel with
    | zero => rfl
    | succ fuel =>
      -- the next instant lies after `now`
      have hmem := List.mem_of_mem_filter (List.min?_eq_some_iff.mp hnext).1
      have hlater : now ≤ instant := by
        by_contra hle
        rw [List.min?_eq_none_iff, List.filter_eq_nil_iff] at hnone
        exact hnone instant hmem (by simp; omega)
      dsimp only
      rw [tick_from hfirst hlater]

theorem min?_filter_of_le {l : List Nat} {target later instant : Nat} (hle : target ≤ later)
    (h : (l.filter (· ≤ target)).min? = some instant) : (l.filter (· ≤ later)).min? = some instant := by
  obtain ⟨hmem, hmin⟩ := List.min?_eq_some_iff.mp h
  rw [List.mem_filter, decide_eq_true_eq] at hmem
  refine List.min?_eq_some_iff.mpr ⟨List.mem_filter.mpr ⟨hmem.1, by simp; omega⟩, fun i hi => ?_⟩
  rw [List.mem_filter, decide_eq_true_eq] at hi
  by_cases hi' : i ≤ target
  · exact hmin i (List.mem_filter.mpr ⟨hi.1, by simpa using hi'⟩)
  · omega

theorem advanceUntil_split {target later : Nat} (hle : target ≤ later) (fuel : Nat)
    (hnow : e.now ≤ target) (h : e.advanceUntil later fuel ≠ .error .unfinished) :
    (e.advanceUntil target fuel).bind (advanceUntil later fuel) = e.advanceUntil later fuel := by
  induction fuel generalizing e with
  | zero =>
    cases hnext : (e.instants.filter (· ≤ target)).min? with
    | none =>
      have hstop : e.advanceUntil target 0 = .ok { e with now := target } := by
        unfold advanceUntil
        rw [hnext]
      rw [hstop]
      exact advanceUntil_from 0 hnow hnext
    | some instant =>
      unfold advanceUntil at h
      rw [min?_filter_of_le hle hnext] at h
      exact absurd rfl h
  | succ fuel ih =>
    cases hnext : (e.instants.filter (· ≤ target)).min? with
    | none =>
      have hstop : e.advanceUntil target (fuel + 1) = .ok { e with now := target } := by
        unfold advanceUntil
        rw [hnext]
      rw [hstop]
      exact advanceUntil_from (fuel + 1) hnow hnext
    | some instant =>
      have hturn : ∀ to', target ≤ to' →
          e.advanceUntil to' (fuel + 1) = (e.tick instant).bind (advanceUntil to' fuel) := by
        intro to' hto
        rw [advanceUntil, min?_filter_of_le hto hnext]
      rw [hturn target le_rfl, hturn later hle]
      rw [hturn later hle] at h
      cases htick : e.tick instant with
      | error fault => rfl
      | ok e₁ =>
        rw [htick] at h
        replace h : e₁.advanceUntil later fuel ≠ .error .unfinished := h
        have hnow₁ : e₁.now ≤ target := by
          rw [tick_now htick]
          exact max_le hnow (instant_le hnext).1
        have hrest := ih hnow₁ h
        show (e₁.advanceUntil target fuel).bind (advanceUntil later (fuel + 1)) = e₁.advanceUntil later fuel
        rw [← hrest] at h ⊢
        cases hstop : e₁.advanceUntil target fuel with
        | error fault => rfl
        | ok e₂ =>
          rw [hstop] at h
          exact advanceUntil_mono fuel (Nat.le_succ fuel) h

/-! ## What was emitted before -/

/-- The endpoint with `before` emitted ahead of everything. -/
def after (before : List Emit) (e : Endpoint) : Endpoint := { e with out := before ++ e.out }

section After

variable (before : List Emit) (e : Endpoint) (s : Session)

theorem after_emit (x : Emit) : (e.after before).emit x = (e.emit x).after before := by
  simp only [after, emit, List.append_assoc]

theorem after_stopTimer (name : TimerName) :
    (e.after before).stopTimer s name = (e.stopTimer s name).after before := by
  have hrunning : (e.after before).running s name = e.running s name := rfl
  unfold stopTimer
  rw [hrunning]
  cases e.running s name with
  | none => rfl
  | some t => exact after_emit before { e with timers := e.timers.erase t } (.timerStop name)

theorem after_stopAll : (e.after before).stopAll s = (e.stopAll s).after before := by
  unfold stopAll
  simp only [after_stopTimer]

theorem after_endSession (uiReason : Option String) (mediaStop : Bool) :
    (e.after before).endSession s uiReason mediaStop = (e.endSession s uiReason mediaStop).after before := by
  have hput : ∀ (e : Endpoint) (s : Session), (e.after before).put s = (e.put s).after before :=
    fun _ _ => rfl
  unfold endSession
  rw [after_stopAll]
  cases mediaStop <;> cases uiReason <;>
    simp only [if_true, Bool.false_eq_true, if_false, after_emit, hput]

theorem after_timeOut : (e.after before).timeOut s = (e.timeOut s).after before := by
  unfold timeOut
  simp only [send_eq, after_stopAll, after_emit, after_endSession]

theorem after_fire (t : Timer) : (e.after before).fire t = (e.fire t).map (after before) := by
  have hsessions : (e.after before).sessions = e.sessions := rfl
  unfold fire
  rw [hsessions]
  cases e.sessions.lookup t.session with
  | none => rfl
  | some s =>
    simp only [send_eq, after_emit, after_timeOut, after_endSession]
    split
    case isTrue => rfl
    case isFalse => split <;> rfl

theorem after_fireDue (fuel : Nat) : (e.after before).fireDue fuel = (e.fireDue fuel).map (after before) := by
  induction fuel generalizing e with
  | zero =>
    have hdue : (e.after before).firstDue = e.firstDue := rfl
    unfold fireDue
    rw [hdue]
    cases e.firstDue <;> rfl
  | succ fuel ih =>
    have hdue : (e.after before).firstDue = e.firstDue := rfl
    unfold fireDue
    rw [hdue]
    cases e.firstDue with
    | none => rfl
    | some t =>
      have hfire := after_fire before { e with timers := e.timers.erase t } t
      dsimp only
      rw [show ({ e.after before with timers := (e.after before).timers.erase t } : Endpoint) =
        after before { e with timers := e.timers.erase t } from rfl, hfire]
      cases { e with timers := e.timers.erase t }.fire t with
      | error fault => rfl
      | ok e₁ => exact ih e₁

theorem after_tick (instant : Nat) : (e.after before).tick instant = (e.tick instant).map (after before) := by
  have hfired := after_fireDue before { e with now := max e.now instant } e.timers.length
  unfold tick
  dsimp only
  rw [show ({ e.after before with now := max (e.after before).now instant } : Endpoint) =
    after before { e with now := max e.now instant } from rfl,
    show (e.after before).timers.length = e.timers.length from rfl, hfired]
  cases fireDue e.timers.length { e with now := max e.now instant } with
  | error fault => rfl
  | ok e₁ =>
    show ((e₁.contacts.endLapsed e₁.now).rotateDue e₁.now).map _ =
      (((e₁.contacts.endLapsed e₁.now).rotateDue e₁.now).map _).map _
    cases (e₁.contacts.endLapsed e₁.now).rotateDue e₁.now with
    | error fault => rfl
    | ok r => exact congrArg Except.ok (by simp [after, withContacts])

theorem after_advanceUntil (target fuel : Nat) :
    (e.after before).advanceUntil target fuel = (e.advanceUntil target fuel).map (after before) := by
  induction fuel generalizing e with
  | zero =>
    have hinstants : (e.after before).instants = e.instants := rfl
    unfold advanceUntil
    rw [hinstants]
    cases (e.instants.filter (· ≤ target)).min? <;> rfl
  | succ fuel ih =>
    have hinstants : (e.after before).instants = e.instants := rfl
    unfold advanceUntil
    rw [hinstants]
    cases (e.instants.filter (· ≤ target)).min? with
    | none => rfl
    | some instant =>
      dsimp only
      rw [after_tick]
      cases e.tick instant with
      | error fault => rfl
      | ok e₁ => exact ih e₁

end After

end Endpoint

/-! ## What is known of the grants of an endpoint -/

namespace Contacts

variable {T : Tariff} {c c' : Contacts} {now : Nat}

theorem Sound.issue (h : c.Sound T now) (gid grantee : String) (scope : List String) (validUntil : Nat)
    (introduction : String) (audience : Option String) (chain : List String) :
    (c.issueGrant gid grantee scope validUntil introduction audience chain).1.Sound T now :=
  h.set gid (T.issued rfl (keyScopes_length c scope audience)) rfl

theorem Sound.endGrant (h : c.Sound T now) (g : GrantIssued) (keep : List String) :
    (c.endGrant now g keep).Sound T now := by
  obtain ⟨due, hdue, -⟩ := endGrant_spec c now g keep
  rw [hdue]
  exact h

theorem Sound.regrantCarrying (h : c.Sound T now) {scopes : List String}
    (hr : c.regrantCarrying now scopes = .ok r) : r.1.Sound T now := by
  unfold Contacts.regrantCarrying at hr
  split at hr
  case isTrue =>
    cases hr
    exact h
  case isFalse => exact (regrantEach_cheaper _ h hr).1

theorem Sound.grant (h : c.Sound T now) (id introduction : String) (scope : List String) (validUntil : Nat)
    (audience : Option String) : (c.grant id introduction scope validUntil audience).1.Sound T now := by
  unfold Contacts.grant
  split
  case h_1 => exact h
  case h_2 req _ =>
    split
    case isTrue => exact h
    case isFalse =>
      have herased : ({ c with requests := c.requests.erase introduction } : Contacts).Sound T now := h
      exact herased.issue _ _ _ _ _ _ _

theorem Sound.regrant (h : c.Sound T now) {id gid : String} {scope : List String} {validUntil : Nat}
    {audience : Option String}
    (hr : c.regrant now id gid scope validUntil audience = .ok r) : r.1.Sound T now := by
  unfold Contacts.regrant at hr
  split at hr
  case h_1 => cases hr; exact h
  case h_2 old _ =>
    split at hr
    case isTrue => cases hr; exact h
    case isFalse =>
      split at hr
      case isTrue => cases hr; exact h
      case isFalse =>
        obtain ⟨r', hrotate, rfl⟩ := Endpoint.map_ok hr
        have herased : ({ c with grantsIssued := c.grantsIssued.erase gid } : Contacts).Sound T now :=
          h.erase gid rfl
        exact (rotateDue_cheaper ((herased.issue _ _ _ _ gid _ _).endGrant old _) hrotate).1

theorem Sound.revoke (h : c.Sound T now) {gid : String}
    (hr : c.revoke now gid = .ok r) : r.1.Sound T now := by
  unfold Contacts.revoke at hr
  split at hr
  case h_1 => cases hr; exact h
  case h_2 g _ =>
    obtain ⟨r', hrotate, rfl⟩ := Endpoint.map_ok hr
    have herased : ({ c with grantsIssued := c.grantsIssued.erase gid } : Contacts).Sound T now :=
      h.erase gid rfl
    exact (rotateDue_cheaper (herased.endGrant g []) hrotate).1

theorem Sound.recvIntroduction (h : c.Sound T now) (id device identity : String)
    (contactToken : Option String) : (c.recvIntroduction now id device identity contactToken).1.Sound T now := by
  unfold Contacts.recvIntroduction
  split
  case isTrue => exact h
  case isFalse =>
    dsimp only
    split
    case h_1 token gid _ =>
      have herased : ({ c with seenIntroductions := insert id c.seenIntroductions
                               tokens := c.tokens.erase token } : Contacts).Sound T now := h
      exact herased.issue _ _ _ _ id _ _
    case h_2 => exact h

theorem Sound.recvGrant (h : c.Sound T now) (id : String) (session : Option String) (grantor : String)
    (scope : List String) (validUntil : Nat) (presenceKeys : List String) :
    (c.recvGrant now id session grantor scope validUntil presenceKeys).1.Sound T now := by
  unfold Contacts.recvGrant
  dsimp only
  split
  case h_1 => exact h
  case h_2 => split_ifs <;> exact h

theorem Sound.recvOwnRecord (h : c.Sound T now) {identity : String} {kid subject : Option String}
    (hr : c.recvOwnRecord now identity kid subject = .ok r) : r.1.Sound T now := by
  unfold Contacts.recvOwnRecord at hr
  split at hr
  case h_1 => cases hr; exact h
  case h_2 kid =>
    split at hr
    case isTrue => cases hr; exact h
    case isFalse =>
      dsimp only at hr
      split at hr
      case h_1 => cases hr; exact h
      case h_2 epoch _ =>
        split at hr
        case isTrue => cases hr; exact h
        case isFalse =>
          obtain ⟨r', hregrant, rfl⟩ := Endpoint.map_ok hr
          have hset : ({ c with epochs := c.epochs.insert (rpartition kid).1 epoch } : Contacts).Sound T now := h
          have hregranted : r'.1.Sound T now := hset.regrantCarrying hregrant
          exact hregranted

end Contacts

namespace Endpoint

variable {T : Tariff} {e e' : Endpoint}

/-- What is known of the grants an endpoint issued. -/
def Sound (T : Tariff) (e : Endpoint) : Prop := e.contacts.Sound T e.now

theorem keeps_sound (T : Tariff) : Keeps (Sound T) where
  clock e n h hle _ := Contacts.Sound.later h hle
  fire e t e' h _ _ hfire := by
    obtain ⟨-, hcontacts, hnow⟩ := fire_kept hfire
    unfold Sound
    rw [hcontacts, hnow]
    exact h
  lapse e h := (Contacts.endEach_cheaper _ h).1.sound
  rotate e r h hr := (Contacts.rotateDue_cheaper h hr).1

theorem Sound.apart (h : e.Sound T) (ha : Apart e e') : e'.Sound T := by
  unfold Sound
  rw [ha.contacts, ha.now]
  exact h

theorem recv_sound (hk : e.Keyed) (h : e.Sound T) {m : Msg} (hr : e.recv m = .ok e') : e'.Sound T := by
  unfold recv at hr
  cases hb : m.body
  all_goals simp only [hb] at hr
  case invite dest expiresAt =>
    cases hr
    exact h.apart (apart_recvInvite e m dest expiresAt)
  case error reason =>
    cases hr
    exact h.apart (apart_recvError e m reason)
  case introduction contactToken =>
    cases hr
    exact Contacts.Sound.recvIntroduction h _ _ _ _
  case grant scope validUntil presenceKeys =>
    cases hr
    exact Contacts.Sound.recvGrant h _ _ _ _ _ _
  case presence kid subject =>
    obtain ⟨r, hrecord, rfl⟩ := map_ok hr
    exact Contacts.Sound.recvOwnRecord h hrecord
  case session body =>
    cases recvSession_outcome hr with
    | introduction => exact h
    | unknown => exact h.apart (apart_emit e rfl)
    | held _ _ hs hd => exact h.apart (hd (hk _ _ hs)).only.apart

theorem perform_sound (hk : e.Keyed) (h : e.Sound T) {event : Event} (hp : e.perform event = .ok e') :
    e'.Sound T := by
  cases event with
  | advance seconds => exact (keeps_sound T).advance h hp
  | recv m => exact recv_sound hk h hp
  | placeCall sid dest =>
    cases hp
    exact h.apart (apart_placeCall e sid dest)
  | introduce id dest purpose contactToken =>
    cases hp
    exact h
  | grant id introduction scope validUntil audience =>
    cases hp
    exact Contacts.Sound.grant h _ _ _ _ _
  | regrant id gid scope validUntil audience =>
    obtain ⟨r, hr, rfl⟩ := map_ok hp
    exact Contacts.Sound.regrant h hr
  | rejectIntroduction introduction reason =>
    cases hp
    show (Contacts.rejectIntroduction e.contacts introduction _).1.Sound T e.now
    unfold Contacts.rejectIntroduction
    split <;> exact h
  | revoke gid =>
    obtain ⟨r, hr, rfl⟩ := map_ok hp
    exact Contacts.Sound.revoke h hr
  | issueToken token grantId =>
    cases hp
    exact h
  | call sid event => exact h.apart (apart_call hk hp)

theorem sound_of_reachable (T : Tariff) (h : machine.Reachable e) : e.Sound T := by
  induction h with
  | init hi =>
    obtain ⟨ctx, rfl⟩ := hi
    intro gid g hg
    cases hg
  | @step e event out e' hreach hstep ih =>
    obtain ⟨e₁, hperform, heq⟩ := map_ok hstep
    cases heq
    exact @perform_sound T { e with out := [] } _ (keyed e hreach) ih event hperform

/-! ## The loop ends -/

/-- A running grant pays for itself and each of its keys, and an id of the pool for a whole grant. -/
def perKey : Tariff where
  price g := if Contacts.GrantIssued.Running g then 1 + g.keys.length else 0
  perId := 3
  Sound _ _ := True
  later _ _ := trivial
  issued _ _ := trivial
  ends {now g} _ hlapses := by
    have hended : ¬Contacts.GrantIssued.Running { g with ended := true } := fun h => by cases h.2
    rw [if_neg hended, if_pos hlapses.1]
    exact ⟨trivial, by omega⟩
  follows {_ _ g'} _ _ _ _ hkeys := by
    split
    case isTrue => omega
    case isFalse => omega

/-- The turns of a state: three for every running grant, which carries at most two keys and has not
ended before its `valid_until`. -/
def perRunning : Tariff where
  price g := if Contacts.GrantIssued.Running g then 3 else 0
  perId := 0
  Sound now g := g.keys.length ≤ 2 ∧ (g.ended = true → g.validUntil ≤ now)
  later hle h := ⟨h.1, fun hended => (h.2 hended).trans hle⟩
  issued hended hkeys := ⟨hkeys, fun h => by rw [hended] at h; cases h⟩
  ends {now g} hsound hlapses := by
    have hended : ¬Contacts.GrantIssued.Running { g with ended := true } := fun h => by cases h.2
    rw [if_neg hended, if_pos hlapses.1]
    exact ⟨⟨hsound.1, fun _ => hlapses.2⟩, by have := hsound.1; omega⟩
  follows {now g g'} hsound hlive hkeys _ _ := by
    have hrunning : Contacts.GrantIssued.Running g := by
      refine ⟨hkeys, Bool.eq_false_of_not_eq_true fun hended => ?_⟩
      have := hsound.2 hended
      omega
    rw [if_pos hrunning]
    split <;> omega

theorem turns_eq (e : Endpoint) : e.turns = e.cost perRunning := by
  have hgrants := Dict.weight_eq_filter (fun g => decide (Contacts.GrantIssued.Running g)) 3 e.contacts.grantsIssued
  have hdue : e.contacts.due.weight (fun _ => 1) = e.contacts.due.values.length := by
    simp [Dict.weight]
  have hprice : e.contacts.grantsIssued.weight perRunning.price =
      e.contacts.grantsIssued.weight (fun g => if decide (Contacts.GrantIssued.Running g) = true then 3 else 0) := by
    unfold perRunning
    simp only [decide_eq_true_eq]
  unfold turns cost Contacts.cost
  rw [hprice, hgrants, hdue]
  show _ = _ + (_ + _ + 0 * _)
  omega

theorem advanceUntil_terminates (e : Endpoint) (target : Nat) :
    ∃ fuel, e.advanceUntil target fuel ≠ .error .unfinished :=
  ⟨e.cost perKey, @advanceUntil_ends perKey e target _ (fun _ _ _ => trivial) le_rfl⟩

theorem advance_ends (h : e.Sound perRunning) (seconds : Nat) : e.advance seconds ≠ .error .unfinished :=
  advanceUntil_ends _ h (turns_eq e).ge

/-! ## Twice is once -/

theorem advanceUntil_now {target : Nat} (fuel : Nat) (h : e.advanceUntil target fuel = .ok e') :
    e'.now = target := by
  induction fuel generalizing e with
  | zero =>
    unfold advanceUntil at h
    split at h
    case h_1 => cases h; rfl
    case h_2 => cases h
  | succ fuel ih =>
    unfold advanceUntil at h
    split at h
    case h_1 => cases h; rfl
    case h_2 =>
      obtain ⟨e₁, -, hrest⟩ := bind_ok h
      exact ih hrest

theorem advance_split {a b : Nat} (hfirst : e.advance a ≠ .error .unfinished)
    (hwhole : e.advance (a + b) ≠ .error .unfinished)
    (hsecond : ∀ e₁, e.advance a = .ok e₁ → advance { e₁ with out := [] } b ≠ .error .unfinished) :
    (e.advance a).bind (fun e₁ => (advance { e₁ with out := [] } b).map (after e₁.out)) =
      e.advance (a + b) := by
  have hle : e.now + a ≤ e.now + (a + b) := by omega
  have hstart : e.now ≤ e.now + a := Nat.le_add_right _ _
  cases hstop : e.advance a with
  | error fault =>
    have hsplit := advanceUntil_split hle e.turns hstart hwhole
    rw [show e.advanceUntil (e.now + a) e.turns = .error fault from hstop] at hsplit
    exact hsplit
  | ok e₁ =>
    have hnow : e₁.now = e.now + a := advanceUntil_now _ hstop
    have hsecond₁ := hsecond e₁ hstop
    -- one fuel for all three
    let fuel := e.turns + e₁.turns
    have hwhole' : e.advanceUntil (e.now + (a + b)) fuel = e.advance (a + b) :=
      advanceUntil_mono e.turns (Nat.le_add_right _ _) hwhole
    have hfirst' : e.advanceUntil (e.now + a) fuel = .ok e₁ :=
      (advanceUntil_mono e.turns (Nat.le_add_right _ _) hfirst).trans hstop
    have hsplit := advanceUntil_split hle fuel hstart (hwhole' ▸ hwhole)
    rw [hfirst', hwhole'] at hsplit
    rw [← hsplit]
    show (advance { e₁ with out := [] } b).map (after e₁.out) = e₁.advanceUntil (e.now + (a + b)) fuel
    have hafter : after e₁.out { e₁ with out := [] } = e₁ := by
      simp only [after, List.append_nil]
    have hmono := @advanceUntil_mono { e₁ with out := [] } (e₁.now + b) e₁.turns fuel
      (Nat.le_add_left _ _) hsecond₁
    have htarget : e.now + (a + b) = e₁.now + b := by omega
    rw [htarget, ← congrArg (fun x => advanceUntil (e₁.now + b) fuel x) hafter, after_advanceUntil, hmono]
    rfl

/-- **The clock is additive and its loop ends**: in every reachable state, advancing twice is
advancing once, in the state reached, in what is emitted and in what is raised; and whatever the
state, the loop ends. -/
theorem advance_additive (h : machine.Reachable e) (a b : Nat) :
    ((e.step (.advance a)).bind fun r₁ => (r₁.1.step (.advance b)).map fun r₂ =>
        ({ r₂.1 with out := r₁.2 ++ r₂.2 }, r₁.2 ++ r₂.2)) = e.step (.advance (a + b)) ∧
      e.step (.advance a) ≠ .error .unfinished ∧
      ∀ (e : Endpoint) (target : Nat), ∃ fuel, e.advanceUntil target fuel ≠ .error .unfinished := by
  let e₀ : Endpoint := { e with out := [] }
  have hsound : e.Sound perRunning := sound_of_reachable perRunning h
  replace hsound : e₀.Sound perRunning := hsound
  have hsecond : ∀ e₁, e₀.advance a = .ok e₁ → advance { e₁ with out := [] } b ≠ .error .unfinished := by
    intro e₁ he₁
    have hsound₁ : e₁.Sound perRunning := (keeps_sound perRunning).advance hsound he₁
    exact @advance_ends { e₁ with out := [] } hsound₁ b
  have hsplit := advance_split (advance_ends hsound a) (advance_ends hsound (a + b)) hsecond
  refine ⟨?_, ?_, advanceUntil_terminates⟩
  · show ((e₀.advance a).map fun e₁ => (e₁, e₁.out)).bind _ = (e₀.advance (a + b)).map fun e' => (e', e'.out)
    rw [← hsplit]
    cases e₀.advance a with
    | error fault => rfl
    | ok e₁ =>
      show ((advance { e₁ with out := [] } b).map fun e₂ => (e₂, e₂.out)).map _ =
        ((advance { e₁ with out := [] } b).map (after e₁.out)).map _
      cases advance { e₁ with out := [] } b with
      | error fault => rfl
      | ok e₂ => rfl
  · intro hunfinished
    replace hunfinished : (e₀.advance a).map (fun e₁ => (e₁, e₁.out)) = .error .unfinished := hunfinished
    cases hstop : e₀.advance a with
    | error fault =>
      rw [hstop] at hunfinished
      cases hunfinished
      exact advance_ends hsound a hstop
    | ok e₁ =>
      rw [hstop] at hunfinished
      cases hunfinished

/-- A call that is not answered, and a sealed presence granted for a while. -/
def callAndGrant : List Event :=
  [introductionOf "i-1", .grant "g-1" "i-1" subscribes 40 none, .placeCall "s-1" "did:carol"]

theorem advance_additive_call : ∃ e, machine.Reachable e ∧ e.turns = 4 ∧
    ((e.step (.advance 10)).bind fun r₁ => (r₁.1.step (.advance 90)).map fun r₂ =>
        ({ r₂.1 with out := r₁.2 ++ r₂.2 }, r₁.2 ++ r₂.2)) = e.step (.advance 100) ∧
      e.step (.advance 10) ≠ .error .unfinished := by
  obtain ⟨tr, e, hrun, hp⟩ := TSys.exec?_runWhere step (fun _ _ _ => True) Fresh (.new sealedContext)
    callAndGrant (fun r => r.2.turns = 4) (by decide +kernel) (by decide +kernel)
  have hreach : machine.Reachable e := TSys.Run.reachable hrun (.init ⟨sealedContext, rfl⟩)
  obtain ⟨hadditive, hends, -⟩ := advance_additive hreach 10 90
  exact ⟨e, hreach, of_decide_eq_true hp, hadditive, hends⟩

end Endpoint

end Dsip.Engine
