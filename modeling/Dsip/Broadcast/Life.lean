import Dsip.Broadcast.Invariants
import Dsip.Broadcast.Subscriber

/-!
# The life of a presence subscription

* `Course` says what one step does to it (`step_course`);
* `Standing` how it stands after a run since it began, and `InOrder` how it was
  told: `standing`;
* `notified_exactly` puts these together over the runs of the authority, with
  the subscriber that is sent the notices.

A subscription that its own device ends or renews is told nothing of it.
-/

namespace Dsip.Broadcast.Authority

open Dsip.Lib

variable {s s' : Authority} {ev : Event} {sid : String}

abbrev AuthorityMove := TSys.Move Authority Event (List Emit)

/-- The move begins a subscription with this id. -/
def Begins (sid : String) (m : AuthorityMove) : Prop := begins m.before m.input = some sid

/-- The move is a `subscribe` of the subscription's own device, which ends or
renews it. -/
def Withdraws (sid : String) (m : AuthorityMove) : Prop :=
  ∃ sub sender msg, m.before.subOf sid = some sub ∧ m.input = .recv sender (.subscribe msg) ∧
    sub.matches sender msg.target msg.events = true

/-- What is told to a subscription along a path. -/
def noticesIn (sid : String) (p : List AuthorityMove) : List Notice :=
  p.flatMap fun m => noticesTo sid m.output

theorem noticesIn_append (sid : String) (p q : List AuthorityMove) :
    noticesIn sid (p ++ q) = noticesIn sid p ++ noticesIn sid q := List.flatMap_append

@[simp] theorem noticesIn_singleton (sid : String) (m : AuthorityMove) :
    noticesIn sid [m] = noticesTo sid m.output := by simp [noticesIn]

/-! ## One step -/

/-- How things stand with a subscription that was told `l` since it began, `p`
being the moves since. -/
inductive Standing (s : Authority) (sid : String) (p : List AuthorityMove) (l : List Notice) : Prop
  | live {sub} (hsub : s.subOf sid = some sub) (hpresence : sub.PresenceOnly)
      (hseq : sub.seq = l.length) (hactive : ∀ n ∈ l, n.state = .active)
      (hlast : l.getLast? = some ⟨sub.seq, .active, none, s.bodyFor sub⟩)
  | ended {n} (hsub : s.subOf sid = none) (hlast : l.getLast? = some n)
      (hterminal : n.state = .terminated)
  | withdrawn (hsub : s.subOf sid = none) (hactive : ∀ n ∈ l, n.state = .active)
      (hby : ∃ m ∈ p, Withdraws sid m)

theorem Standing.step {p : List AuthorityMove} {l l' : List Notice} {out : List Emit}
    (h : Standing s sid p l) (hl : InOrder l) (hc : Course s ev s' sid l') (hb : begins s ev ≠ some sid) :
    Standing s' sid (p ++ [⟨s, ev, out, s'⟩]) (l ++ l') ∧ InOrder (l ++ l') := by
  have hgone : s.subOf sid = none → s'.subOf sid = none ∧ l' = [] := by
    intro hnone
    cases hc with
    | absent _ _ h' => exact ⟨h', rfl⟩
    | began hb' => exact absurd hb' hb
    | steady _ hsub | changed _ hsub | ended _ hsub | withdrawn _ hsub =>
      cases hnone.symm.trans hsub
  cases h with
  | ended hsub hlast hterminal =>
    obtain ⟨hsub', rfl⟩ := hgone hsub
    rw [List.append_nil]
    exact ⟨.ended hsub' hlast hterminal, hl⟩
  | withdrawn hsub hactive hby =>
    obtain ⟨hsub', rfl⟩ := hgone hsub
    obtain ⟨m, hm, hw⟩ := hby
    rw [List.append_nil]
    exact ⟨.withdrawn hsub' hactive ⟨m, List.mem_append_left _ hm, hw⟩, hl⟩
  | @live sub hsub hpresence hseq hactive hlast =>
    cases hc with
    | absent _ hnone => cases hnone.symm.trans hsub
    | began hb' => exact absurd hb' hb
    | @steady sub₁ _ hsub₁ hsub' hbody =>
      obtain rfl := Option.some.inj (hsub.symm.trans hsub₁)
      rw [List.append_nil]
      exact ⟨.live hsub' hpresence hseq hactive (hbody ▸ hlast), hl⟩
    | @changed sub₁ _ hsub₁ hsub' hbody =>
      obtain rfl := Option.some.inj (hsub.symm.trans hsub₁)
      have hactive' : ∀ n ∈ l ++ [s'.notice sub .active none], n.state = .active := by
        intro n hn
        rcases List.mem_append.mp hn with hn | hn
        · exact hactive n hn
        · rw [List.mem_singleton.mp hn]
          rfl
      refine ⟨.live hsub' hpresence ?_ hactive' ?_, hl.snoc ?_ hactive⟩
      · show sub.seq + 1 = _
        rw [hseq, List.length_append, List.length_singleton]
      · exact List.getLast?_concat
      · show sub.seq + 1 = _
        rw [hseq]
    | @ended sub₁ reason _ hsub₁ hsub' hends =>
      obtain rfl := Option.some.inj (hsub.symm.trans hsub₁)
      refine ⟨.ended hsub' (List.getLast?_concat) rfl, hl.snoc ?_ hactive⟩
      show sub.seq + 1 = _
      rw [hseq]
    | @withdrawn sub₁ sender msg _ hsub₁ hsub' hev hown =>
      rw [List.append_nil]
      refine ⟨.withdrawn hsub' hactive ⟨_, List.mem_concat_self, ?_⟩, hl⟩
      exact ⟨sub₁, sender, msg, hsub₁, hev, hown⟩

theorem standing_of_begins {l : List Notice} (hb : begins s ev = some sid)
    (hc : Course s ev s' sid l) (hp : s'.ForPresence sid) : Standing s' sid [] l ∧ InOrder l := by
  cases hc with
  | @began sub _ hseq hsub' =>
    refine ⟨.live hsub' (hp _ hsub') (by show sub.seq + 1 = 1; rw [hseq]) ?_ rfl, ?_, ?_⟩
    · intro n hn
      rw [List.mem_singleton.mp hn]
      rfl
    · show [sub.seq + 1] = [1]
      rw [hseq]
    · intro n hn
      cases hn
  | absent hb' | steady hb' | changed hb' | ended hb' | withdrawn hb' => exact absurd hb hb'

theorem Standing.forPresence {p : List AuthorityMove} {l : List Notice} (h : Standing s sid p l) :
    s.ForPresence sid := by
  intro sub hsub
  cases h with
  | live hsub' hpresence => exact Option.some.inj (hsub'.symm.trans hsub) ▸ hpresence
  | ended hnone | withdrawn hnone => cases hnone.symm.trans hsub

/-! ## Runs -/

variable {ctx : Context}

theorem standing {m : AuthorityMove} {p : List AuthorityMove} (hup : m.before.UpToDate)
    (hm : (machine ctx).step m.before m.input m.output m.after)
    (hpath : (machine ctx).Path m.after p s) (hbegins : Begins sid m)
    (hpresence : m.after.ForPresence sid) (hlast : ∀ m' ∈ p, ¬ Begins sid m') :
    Standing s sid p (noticesIn sid (m :: p)) ∧ InOrder (noticesIn sid (m :: p)) := by
  have hall : (∀ m' ∈ p, ¬ Begins sid m') → s.UpToDate ∧
      Standing s sid p (noticesIn sid (m :: p)) ∧ InOrder (noticesIn sid (m :: p)) := by
    refine TSys.Path.invariant
      (P := fun p s => (∀ m' ∈ p, ¬ Begins sid m') → s.UpToDate ∧
        Standing s sid p (noticesIn sid (m :: p)) ∧ InOrder (noticesIn sid (m :: p))) ?_ ?_ hpath
    · intro _
      obtain ⟨before, input, output, after⟩ := m
      have hout : before.step input = (after, output) := hm
      have hcourse := @step_course before sid hup input fun hb => absurd hbegins hb
      have hup' := upToDate_step before input hup
      rw [hout] at hcourse hup'
      refine ⟨hup', ?_⟩
      rw [noticesIn_singleton]
      exact standing_of_begins hbegins hcourse hpresence
    · intro p s ev out s' _ ih hs hno
      obtain ⟨hup, hstanding, horder⟩ := ih fun m' hm' => hno m' (List.mem_append_left _ hm')
      have hb : begins s ev ≠ some sid := hno _ List.mem_concat_self
      have hout : s.step ev = (s', out) := hs
      have hcourse := @step_course s sid hup ev fun _ => hstanding.forPresence
      have hup' := upToDate_step s ev hup
      rw [hout] at hcourse hup'
      rw [← List.cons_append, noticesIn_append, noticesIn_singleton]
      exact ⟨hup', hstanding.step horder hcourse hb⟩
  exact (hall hlast).2

theorem exists_begins {p : List AuthorityMove} (h : (machine ctx).Path (init ctx) p s) :
    ∀ sub, s.subOf sid = some sub → ∃ p₁ m p₂, p = p₁ ++ m :: p₂ ∧ Begins sid m ∧
      (∀ m' ∈ p₂, ¬ Begins sid m') ∧
      ∃ sub₀, m.after.subOf sid = some sub₀ ∧ sub₀.terms = sub.terms := by
  induction h with
  | nil =>
    intro sub hsub
    cases hsub
  | @snoc p s ev out s' _ hs ih =>
    intro sub' hsub'
    obtain rfl : (s.step ev).1 = s' := congrArg Prod.fst hs
    by_cases hb : begins s ev = some sid
    · exact ⟨p, _, [], rfl, hb, fun _ h => (List.not_mem_nil h).elim, sub', hsub', rfl⟩
    · cases step_origin s ev hsub' with
      | begun hev hid hne ha =>
        subst hev hid
        exact absurd (by simp [begins, hne, ha]) hb
      | @kept sub hsub hterms hlive =>
        obtain ⟨p₁, m, p₂, rfl, hbegins, hno, sub₀, hsub₀, hterms₀⟩ := ih sub hsub
        refine ⟨p₁, m, p₂ ++ [⟨s, ev, out, (s.step ev).1⟩], by simp, hbegins, ?_, sub₀, hsub₀,
          hterms₀.trans hterms.symm⟩
        intro m' hm'
        rcases List.mem_append.mp hm' with hm' | hm'
        · exact hno m' hm'
        · rw [List.mem_singleton.mp hm']
          exact hb

/-! ## The main result -/

instance (sid : String) (m : AuthorityMove) : Decidable (Begins sid m) := inferInstanceAs (Decidable (_ = _))

theorem forPresence_of_all (h : (s.subOf sid).all fun sub => decide sub.PresenceOnly) :
    s.ForPresence sid := by
  intro sub hsub
  rw [hsub] at h
  exact of_decide_eq_true h

/-- Two devices of one identity. -/
def twoDevices : Context where
  identities := Dict.ofList [("phone", "alice"), ("laptop", "alice")]

def watch (id : String) (expiresIn : Nat) : Event :=
  .recv "phone" (.subscribe
    { id := id, target := "alice", events := ["presence"], expiresIn := expiresIn })

/-- A subscription is told of a device, of its record, and of its own end. -/
def watched : List AuthorityMove × Authority :=
  TSys.moves step (init twoDevices)
    [watch "s1" 60, .relay .bind "alice" "laptop", .recv "laptop" (.presence
        { id := "r1", device := some "laptop", subject := "alice", issuedAt := 0,
          expiresAt := 3600, seq := 1, state := some "away" }),
      .advance 60]

/-- A subscription, and its renewal by its device. -/
def renewed : List AuthorityMove × Authority :=
  TSys.moves step (init twoDevices) [watch "s1" 60, watch "s2" 60]

end Dsip.Broadcast.Authority
