import Dsip.Routing.Lockstep

/-!
# The two relays write the same

`Agree` is kept by every step that meets `Meets`, and the two relays write the
same in it. `Meets` rules out the inputs on which they differ: most of them
concern a device that is addressed by its own name.
-/

namespace Dsip.Routing

open Dsip.Lib

/-! ## A bind -/

/-- The device is bound, and what was held for it is taken out. -/
def Relay.bound (r : Relay) (device identity : String) : Relay :=
  { r with
    bindings := r.bindings.insert identity (insert device (r.boundFor identity))
    devices := r.devices.insert device identity
    lastBound := (r.lastBound.erase identity).erase device
    inbox := (r.inbox.erase identity).erase device }

/-- The same, in the other relay. -/
def Ts.Relay.bindTo (t : Ts.Relay) (device identity : String) : Ts.Relay :=
  { t with
    bound := t.bound.insert device identity
    known := insert identity (insert device t.known)
    queue := t.queue.filter fun q => ¬ (q.dest = identity ∨ q.dest = device) }

namespace Relay

variable {r : Relay} {t : Ts.Relay} {tr : Trace} {device identity : String}

/-- What a bind asks of the state for the two relays to agree on it. -/
structure BindMeets (r : Relay) (device identity : String) : Prop where
  /-- No invite is held for the device itself. -/
  held : ∀ h ∈ r.heldFor device, h.msg.type = .invite → device = identity
  /-- No live attempt of the identity was forked without an invite. -/
  invite : ∀ sid a, r.attempts.lookup sid = some a → a.identity = identity → a.outcome = none →
    device ∉ a.legs → r.invites.lookup sid ≠ none

theorem boundFor_bound (r : Relay) (device identity k : String) : (r.bound device identity).boundFor k =
      if k = identity then insert device (r.boundFor identity) else r.boundFor k := by
  show ((r.bindings.insert identity _).lookup k).getD ∅ = _
  rw [Dict.lookup_insert_eq]
  split <;> rfl

theorem heldFor_bound (r : Relay) (device identity k : String) : (r.bound device identity).heldFor k =
      if k = device ∨ k = identity then [] else r.heldFor k :=
  heldFor_flushed rfl k

theorem Agree.bound (h : Agree r t) (hone : ∀ k, device ∈ r.boundFor k → k = identity) :
    Agree (r.bound device identity) (t.bindTo device identity) := by
  have hmem : ∀ d k, d ∈ (r.bound device identity).boundFor k ↔
      (d = device ∧ k = identity) ∨ (d ≠ device ∧ d ∈ r.boundFor k) := by
    intro d k
    rw [boundFor_bound]
    by_cases hk : k = identity
    · rw [if_pos hk, Finset.mem_insert, hk]
      by_cases hd : d = device
      · simp [hd]
      · simp [hd]
    · rw [if_neg hk]
      by_cases hd : d = device
      · simp only [hd, hk, and_false, ne_eq, not_true_eq_false, false_and, or_self, iff_false]
        exact fun hin => hk (hone k hin)
      · simp [hd]
  refine ⟨⟨h.stores.now, h.stores.retention, ?_, ?_, ?_, ?_, ?_, ?_⟩, h.attempts, h.invites⟩
  · intro d k
    rw [hmem]
    show (t.bound.insert device identity).lookup d = some k ↔ _
    rw [Dict.lookup_insert_eq]
    by_cases hd : d = device
    · rw [if_pos hd]
      simp [hd, eq_comm]
    · rw [if_neg hd, h.stores.bound]
      simp [hd]
  · intro d k hd
    show (r.devices.insert device identity).lookup d = some k
    rw [Dict.lookup_insert_eq]
    rcases (hmem d k).mp hd with ⟨hd, hk⟩ | ⟨hd, hk⟩
    · rw [if_pos hd, hk]
    · rw [if_neg hd]
      exact h.stores.devices d k hk
  · intro x
    show x ∈ insert identity (insert device t.known) ↔
      x ∈ r.bindings.insert identity _ ∨ x ∈ r.devices.insert device identity
    rw [Finset.mem_insert, Finset.mem_insert, h.stores.known, AList.mem_insert, AList.mem_insert]
    tauto
  · rintro x hk ⟨hempty, hdev⟩
    have hxi : x ≠ identity := by
      rintro rfl
      rw [boundFor_bound, if_pos rfl] at hempty
      exact absurd hempty (Finset.insert_ne_empty _ _)
    have hxd : x ≠ device := by
      rintro rfl
      exact hdev identity ((hmem x identity).mpr (.inl ⟨rfl, rfl⟩))
    show t.lastUnbound.lookup x = ((r.lastBound.erase identity).erase device).lookup x
    rw [AList.lookup_erase_ne hxd, AList.lookup_erase_ne hxi]
    apply h.stores.ended
    · have hk' : x ∈ r.bindings.insert identity (insert device (r.boundFor identity)) ∨
          x ∈ r.devices.insert device identity := hk
      rw [AList.mem_insert, AList.mem_insert] at hk'
      exact hk'.imp (fun h => h.resolve_left hxi) fun h => h.resolve_left hxd
    · refine ⟨?_, fun k hin => hdev k ((hmem x k).mpr (.inr ⟨hxd, hin⟩))⟩
      rw [boundFor_bound, if_neg hxi] at hempty
      exact hempty
  · obtain ⟨l, hl, hq, hheld⟩ := h.stores.queue
    refine ⟨l.filter fun g => ¬ (g.dest = identity ∨ g.dest = device), hl.filter _, ?_, ?_⟩
    · show t.queue.filter _ = _
      rw [hq, List.filter_map]
      rfl
    · intro dest
      rw [heldFor_bound, hheld, List.filter_filter]
      split
      case isTrue hd =>
        symm
        rw [List.filter_eq_nil_iff]
        intro g _ hg
        simp only [Bool.and_eq_true, decide_eq_true_eq] at hg
        rw [hg.1] at hg
        exact hg.2 hd.symm
      case isFalse hd =>
        apply List.filter_congr
        intro g _
        by_cases hg : g.dest = dest
        · have : ¬ (dest = identity ∨ dest = device) := fun h => hd h.symm
          simp [hg, this]
        · simp [hg]
  · intro dest hin
    have hin' : dest ∈ (r.inbox.erase identity).erase device := hin
    rw [AList.mem_erase, AList.mem_erase] at hin'
    rw [heldFor_bound, if_neg (not_or.mpr ⟨hin'.1, hin'.2.1⟩)]
    exact h.stores.inbox dest hin'.2.2

theorem Agree.start (h : Agree r t) (m : Message) (o : Attempt × List Emit) :
    Agree ({ r with invites := r.invites.insert m.id m }.put m.id o).1
      (t.put m.id (imageOut (some m) o)).1 := by
  refine ⟨h.stores.congr rfl rfl, ?_, ?_⟩
  · intro k
    rw [lookup_put]
    show (t.attempts.insert m.id _).lookup k =
      Option.map (Routing.image ((r.invites.insert m.id m).lookup k)) _
    rw [Dict.lookup_insert_eq, Dict.lookup_insert_eq]
    split
    case isTrue => rfl
    case isFalse => exact h.attempts k
  · intro k hk
    rw [lookup_put] at hk
    show (r.invites.insert m.id m).lookup k = none
    rw [Dict.lookup_insert_eq]
    split at hk
    case isTrue => cases hk
    case isFalse hne =>
      rw [if_neg hne]
      exact h.invites k hk

theorem Agree.flushTo (h : Agree r t) {g : Held} (hd : g.msg.type = .invite → g.dest = identity)
    (hnew : g.msg.type = .invite → r.attempts.lookup g.msg.id = none) :
    Agree (flushTo device r g).1 (t.flush device identity g.image).1 ∧
      (flushTo device r g).2 = (t.flush device identity g.image).2 := by
  unfold Relay.flushTo Ts.Relay.flush
  by_cases ht : g.msg.type = .invite
  · have hnone := hnew ht
    have htype : g.image.msg.type = .invite := ht
    rw [if_pos htype]
    rw [ht]
    dsimp only
    rw [hnone]
    dsimp only
    have hstart := h.start g.msg
      ((Attempt.new g.msg.id g.msg.sender g.dest 0).join r.now device g.msg.id)
    have hfork : t.fork g.image.msg.id g.image.msg.sender identity [device] g.image.msg.expiresAt
        true = t.put g.msg.id (imageOut (some g.msg)
          ((Attempt.new g.msg.id g.msg.sender g.dest 0).join r.now device g.msg.id)) := by
      unfold Ts.Relay.fork
      dsimp only
      rw [← hd ht, h.stores.now]
      rfl
    rw [hfork]
    exact ⟨hstart, rfl⟩
  · have htype : ¬ g.image.msg.type = .invite := ht
    rw [if_neg htype]
    split
    case h_1 hinv => exact absurd hinv ht
    case h_2 => exact ⟨h, rfl⟩

theorem flushTo_attempt {g : Held} (ht : g.msg.type = .invite) (hnew : r.attempts.lookup g.msg.id = none) :
    ∃ a, (flushTo device r g).1.attempts.lookup g.msg.id = some a ∧ device ∈ a.legs := by
  unfold flushTo
  rw [ht]
  dsimp only
  rw [hnew]
  refine ⟨_, (lookup_put ..).trans (if_pos rfl), ?_⟩
  exact (AList.mem_insert _).mpr (.inl rfl)

theorem flushTo_frame {g : Held} {k : String} (hk : g.msg.type = .invite → g.msg.id ≠ k) :
    (flushTo device r g).1.file k = r.file k := by
  unfold flushTo file
  split
  case h_2 => rfl
  case h_1 ht =>
    have hne : k ≠ g.msg.id := fun h => hk ht h.symm
    split
    case h_1 =>
      rw [lookup_put, if_neg hne]
      rfl
    case h_2 =>
      refine Prod.ext ((lookup_put ..).trans (if_neg hne)) ?_
      exact AList.lookup_insert_ne hne

theorem Agree.flush {l : List Held} (hd : ∀ g ∈ l, g.msg.type = .invite → g.dest = identity)
    (hids : l.Pairwise fun g g' => g.msg.type = .invite → g'.msg.type = .invite →
      g.msg.id ≠ g'.msg.id) : ∀ {r t}, Agree r t →
      (∀ g ∈ l, g.msg.type = .invite → r.attempts.lookup g.msg.id = none) →
      Agree (foldEmit (Relay.flushTo device) r l).1
          (foldEmit (Ts.Relay.flush device identity) t (l.map Held.image)).1 ∧
        (foldEmit (Relay.flushTo device) r l).2 =
          (foldEmit (Ts.Relay.flush device identity) t (l.map Held.image)).2 ∧
        (∀ g ∈ l, g.msg.type = .invite →
          ∃ a, (foldEmit (Relay.flushTo device) r l).1.attempts.lookup g.msg.id = some a ∧ device ∈ a.legs) ∧
        ∀ k, (∀ g ∈ l, g.msg.type = .invite → g.msg.id ≠ k) →
          (foldEmit (Relay.flushTo device) r l).1.file k = r.file k := by
  induction l with
  | nil => exact fun h _ => ⟨h, rfl, nofun, fun _ _ => rfl⟩
  | cons g l ih =>
    intro r t h hnew
    obtain ⟨hg, hl⟩ := List.pairwise_cons.mp hids
    have hstep := @Agree.flushTo r t device identity h g (hd g List.mem_cons_self)
      (hnew g List.mem_cons_self)
    have hnew' : ∀ g' ∈ l, g'.msg.type = .invite →
        (Relay.flushTo device r g).1.attempts.lookup g'.msg.id = none := by
      intro g' hg' ht'
      have hframe := @flushTo_frame r device g g'.msg.id fun ht => hg g' hg' ht ht'
      have hatt : (Relay.flushTo device r g).1.attempts.lookup g'.msg.id =
          r.attempts.lookup g'.msg.id := congrArg Prod.fst hframe
      rw [hatt]
      exact hnew g' (List.mem_cons_of_mem g hg') ht'
    obtain ⟨hagree, hout, hlegs, hframe⟩ := ih
      (fun g' hg' => hd g' (List.mem_cons_of_mem g hg')) hl hstep.1 hnew'
    refine ⟨hagree, ?_, ?_, ?_⟩
    · rw [List.map_cons, foldEmit_cons, foldEmit_cons, hout, hstep.2]
    · intro g' hg' ht'
      rcases List.mem_cons.mp hg' with rfl | hg'
      · obtain ⟨a, ha, hdev⟩ := @flushTo_attempt r device g' ht'
          (hnew g' List.mem_cons_self ht')
        have hsame := hframe g'.msg.id fun g'' hg'' ht'' => (hg g'' hg'' ht' ht'').symm
        have hatt : (foldEmit (Relay.flushTo device) (Relay.flushTo device r g').1 l).1.attempts.lookup
            g'.msg.id = (Relay.flushTo device r g').1.attempts.lookup g'.msg.id :=
          congrArg Prod.fst hsame
        exact ⟨a, hatt.trans ha, hdev⟩
      · exact hlegs g' hg' ht'
    · intro k hk
      rw [foldEmit_cons]
      exact (hframe k fun g' hg' => hk g' (List.mem_cons_of_mem g hg')).trans
        (flushTo_frame (hk g List.mem_cons_self))

theorem Agree.join (h : Agree r t) {ids : List String}
    (hids : ∀ sid ∈ ids, ∃ a, r.attempts.lookup sid = some a ∧ device ∈ a.legs)
    (hinv : ∀ sid a, sid ∉ ids → r.attempts.lookup sid = some a → a.identity = identity →
      a.outcome = none → device ∉ a.legs → r.invites.lookup sid ≠ none) :
    Agree (foldEmit (lateBind device identity) r r.attempts.sortedKeys).1
        { t with attempts := (sweep (Ts.Relay.join t.now device identity ids) t.attempts).1 } ∧
      (foldEmit (lateBind device identity) r r.attempts.sortedKeys).2 =
        (sweep (Ts.Relay.join t.now device identity ids) t.attempts).2 := by
  apply h.loop (turns_lateBind device identity) (tracks_lateBind device identity)
  intro sid a ha
  unfold Ts.Relay.join late
  rw [h.stores.now]
  by_cases hl : a.identity = identity ∧ a.outcome = none ∧ device ∉ a.legs
  · obtain ⟨hid, hopen, hnew⟩ := hl
    have hin : sid ∉ ids := by
      intro hin
      obtain ⟨b, hb, hdev⟩ := hids sid hin
      rw [ha] at hb
      obtain rfl := Option.some.inj hb
      exact hnew hdev
    cases hi : r.invites.lookup sid with
    | none => exact absurd hi (hinv sid a hin ha hid hopen hnew)
    | some m =>
      have hlive : (∀ t ∈ m.expiresAt, r.now < t) ↔ r.now < m.expiresAt.getD (r.now + 1) := by
        cases m.expiresAt with
        | none => simp
        | some t => simp
      by_cases hn : r.now < m.expiresAt.getD (r.now + 1)
      · rw [if_pos, if_pos ⟨hid, hopen, hnew, m, rfl, hn⟩]
        · rfl
        · exact ⟨⟨hopen, hlive.mpr hn⟩, hid, hnew, hin⟩
      · rw [if_neg, if_neg]
        · rfl
        · rintro ⟨-, -, -, m', hm', hn'⟩
          obtain rfl := Option.some.inj hm'
          exact hn hn'
        · rintro ⟨⟨-, hexp⟩, -⟩
          exact hn (hlive.mp hexp)
  · rw [if_neg, if_neg]
    · rfl
    · exact fun hc => hl ⟨hc.1, hc.2.1, hc.2.2.1⟩
    · exact fun hc => hl ⟨hc.2.1, hc.1.1, hc.2.2.1⟩

theorem Agree.flushed (h : Agree r t) (hr : r.Stored) (device identity : String) :
    (t.queue.filter fun q => q.dest = identity ∨ q.dest = device) =
      (r.flushed device identity).map Held.image := by
  obtain ⟨l, hl, hq, hheld⟩ := h.stores.queue
  have hmem : ∀ g, g ∈ l ↔ r.Holds g := by
    intro g
    constructor
    · exact fun hg => filter_heldFor hheld hg
    · intro hg
      unfold Holds at hg
      rw [hheld] at hg
      exact List.mem_of_mem_filter hg
  have hsame : (r.flushed device identity) = l.filter fun g => g.dest = identity ∨ g.dest = device := by
    have hnd : l.Nodup := hl.imp fun hlt he => by
      rw [he] at hlt
      exact Nat.lt_irrefl _ hlt
    have hperm : (r.flushed device identity).Perm
        (l.filter fun g => g.dest = identity ∨ g.dest = device) := by
      rw [List.perm_ext_iff_of_nodup (hr.flushed_nodup device identity) (hnd.filter _)]
      intro g
      rw [hr.mem_flushed_iff, List.mem_filter, hmem, decide_eq_true_eq]
    refine List.Perm.eq_of_pairwise ?_ (hr.flushed_sorted device identity) (hl.filter _) hperm
    exact fun g g' _ _ h₁ h₂ => absurd h₁ (Nat.lt_asymm h₂)
  rw [hq, List.filter_map, hsame]
  rfl

theorem Standing.invites (h : Standing tr r) {g : Held} (hg : r.Holds g)
    (ht : g.msg.type = .invite) : r.attempts.lookup g.msg.id = none ∧
      ∀ g', r.Holds g' → g'.msg.type = .invite → g'.msg.id = g.msg.id → g' = g := by
  have hin : g ∈ r.pending g.msg.id := ⟨hg, ht, rfl⟩
  cases h.phase g.msg.id with
  | idle _ _ hp =>
    rw [hp] at hin
    cases hin
  | live _ _ hp =>
    rw [hp] at hin
    cases hin
  | closed _ _ hp =>
    rw [hp] at hin
    cases hin
  | queued ha _ hp =>
    refine ⟨ha, fun g' hg' ht' hid => ?_⟩
    exact (hp ⟨hg', ht', hid⟩).trans (hp hin).symm

theorem bind_of_flush {f : Relay × List Emit} (hf : foldEmit (Relay.flushTo device) (r.bound device identity)
      (r.flushed device identity) = f) : r.bind device identity =
      ((foldEmit (lateBind device identity) f.1 f.1.attempts.sortedKeys).1,
        f.2 ++ (foldEmit (lateBind device identity) f.1 f.1.attempts.sortedKeys).2) := by
  subst hf
  rfl

theorem ts_bind_of_flush {l : List Ts.Queued} {u : Ts.Relay × List Emit}
    (hl : (t.queue.filter fun q => q.dest = identity ∨ q.dest = device) = l)
    (hu : foldEmit (Ts.Relay.flush device identity) (t.bindTo device identity) l = u) :
    t.bind device identity = ({ u.1 with
          attempts := (sweep (Ts.Relay.join u.1.now device identity
            ((l.filter fun q => q.msg.type = .invite).map fun q => q.msg.id)) u.1.attempts).1 },
        u.2 ++ (sweep (Ts.Relay.join u.1.now device identity
          ((l.filter fun q => q.msg.type = .invite).map fun q => q.msg.id)) u.1.attempts).2) := by
  subst hl hu
  rfl

theorem Agree.bind (h : Agree r t) (hst : Standing tr r) (hm : BindMeets r device identity)
    (hone : ∀ k, device ∈ r.boundFor k → k = identity) :
    Agree (r.bind device identity).1 (t.bind device identity).1 ∧
      (r.bind device identity).2 = (t.bind device identity).2 := by
  have hholds : ∀ g ∈ r.flushed device identity, r.Holds g := fun g hg =>
    (hst.stored.mem_flushed_iff.mp hg).1
  have hdest : ∀ g ∈ r.flushed device identity, g.msg.type = .invite → g.dest = identity := by
    intro g hg ht
    rcases mem_flushed.mp hg with hg | hg
    · exact hst.stored.dest identity g hg
    · rw [hst.stored.dest device g hg]
      exact hm.held g hg ht
  have hids : (r.flushed device identity).Pairwise fun g g' =>
      g.msg.type = .invite → g'.msg.type = .invite → g.msg.id ≠ g'.msg.id := by
    refine (hst.stored.flushed_nodup device identity).imp_of_mem ?_
    intro g g' hg hg' hne ht ht' hid
    exact hne ((hst.invites (hholds g' hg') ht').2 g (hholds g hg) ht hid)
  have hnew : ∀ g ∈ r.flushed device identity, g.msg.type = .invite →
      r.attempts.lookup g.msg.id = none := fun g hg ht => (hst.invites (hholds g hg) ht).1
  obtain ⟨hagree, hout, hlegs, hframe⟩ := Agree.flush hdest hids (h.bound hone) hnew
  obtain ⟨f, hf⟩ : ∃ f, foldEmit (Relay.flushTo device) (r.bound device identity)
    (r.flushed device identity) = f := ⟨_, rfl⟩
  obtain ⟨u, hu⟩ : ∃ u, foldEmit (Ts.Relay.flush device identity) (t.bindTo device identity)
    ((r.flushed device identity).map Held.image) = u := ⟨_, rfl⟩
  rw [bind_of_flush hf, ts_bind_of_flush (h.flushed hst.stored device identity) hu]
  rw [hf, hu] at hagree hout
  rw [hf] at hlegs hframe
  rw [← hout]
  have hrange : ∀ sid, sid ∈ (((r.flushed device identity).map Held.image).filter fun q =>
      q.msg.type = .invite).map (fun q => q.msg.id) ↔
      ∃ g ∈ r.flushed device identity, g.msg.type = .invite ∧ g.msg.id = sid := by
    intro sid
    simp only [List.mem_map, List.mem_filter, decide_eq_true_eq]
    constructor
    · rintro ⟨_, ⟨⟨g, hg, rfl⟩, ht⟩, hid⟩
      exact ⟨g, hg, ht, hid⟩
    · rintro ⟨g, hg, ht, hid⟩
      exact ⟨g.image, ⟨⟨g, hg, rfl⟩, ht⟩, hid⟩
  generalize (((r.flushed device identity).map Held.image).filter fun q =>
    q.msg.type = .invite).map (fun q => q.msg.id) = ids at hrange
  have hjoined : ∀ sid ∈ ids, ∃ a, f.1.attempts.lookup sid = some a ∧ device ∈ a.legs := by
    intro sid hsid
    obtain ⟨g, hg, ht, rfl⟩ := (hrange sid).mp hsid
    exact hlegs g hg ht
  have hold : ∀ sid a, sid ∉ ids → f.1.attempts.lookup sid = some a → a.identity = identity →
      a.outcome = none → device ∉ a.legs → f.1.invites.lookup sid ≠ none := by
    -- an attempt from before the flush
    intro sid a hsid ha hid hopen hnew
    have hold := hframe sid fun g hg ht hid => hsid ((hrange sid).mpr ⟨g, hg, ht, hid⟩)
    have hatt : f.1.attempts.lookup sid = r.attempts.lookup sid := congrArg Prod.fst hold
    have hinv : f.1.invites.lookup sid = r.invites.lookup sid := congrArg Prod.snd hold
    rw [hinv]
    exact hm.invite sid a (hatt.symm.trans ha) hid hopen hnew
  obtain ⟨hlate, hlate'⟩ := hagree.join hjoined hold
  exact ⟨hlate, congrArg (f.2 ++ ·) hlate'⟩

/-! ## Routing -/

/-- A recipient the two relays route to alike: as a device it is bound, or no
device is bound for it. -/
def RoutedAlike (r : Relay) (dest : String) : Prop :=
  dest ∈ r.devices → (∃ k, dest ∈ r.boundFor k) ∨ r.boundFor dest = ∅

/-- A recipient the two relays fork to alike: as a device it is neither bound
nor has devices bound for it, or it is the one device bound for itself. -/
def ForkedAlike (r : Relay) (dest : String) : Prop :=
  dest ∈ r.devices → r.Unbound dest ∨ r.boundFor dest = {dest}

theorem Stores.legsFor_routed (h : Stores r t) {dest : String} (hm : r.RoutedAlike dest) :
    (if dest ∈ t.bound then [dest] else t.devicesOf dest) = r.legsFor dest := by
  rw [h.devicesOf]
  unfold legsFor
  by_cases hb : dest ∈ t.bound
  · rw [if_pos hb]
    obtain ⟨k, hk⟩ := (h.mem_bound dest).mp hb
    rw [h.devices dest k hk]
    exact (if_pos hk).symm
  · rw [if_neg hb]
    rw [h.mem_bound] at hb
    cases hd : r.devices.lookup dest with
    | none => rfl
    | some k =>
      have hin : dest ∈ r.devices := Dict.mem_iff_lookup.mpr ⟨k, hd⟩
      dsimp only
      rw [if_neg fun hk => hb ⟨k, hk⟩, (hm hin).resolve_left hb]
      rfl

theorem Stores.legsFor_forked (h : Stores r t) {dest : String} (hm : r.ForkedAlike dest) :
    t.devicesOf dest = r.legsFor dest := by
  rw [h.devicesOf]
  unfold legsFor
  cases hd : r.devices.lookup dest with
  | none => rfl
  | some k =>
    dsimp only
    rcases hm (Dict.mem_iff_lookup.mpr ⟨k, hd⟩) with ⟨hempty, hdev⟩ | hself
    · rw [if_neg (hdev k), hempty]
      rfl
    · have hin : dest ∈ r.boundFor dest := by
        rw [hself]
        exact Finset.mem_singleton_self dest
      have hk := h.devices dest dest hin
      rw [hd] at hk
      obtain rfl := Option.some.inj hk
      rw [if_pos hin, hself]
      rfl

theorem Agree.route (h : Agree r t) (hst : r.Stored) {m : Message} {o : Relay × List Emit}
    (hm : r.RoutedAlike (m.dest.getD "")) (ho : r.routePlain m = .ok o) :
    Agree o.1 (t.route m).1 ∧ o.2 = (t.route m).2 := by
  have hlegs := h.stores.legsFor_routed hm
  unfold Ts.Relay.route
  dsimp only
  rw [hlegs]
  cases routePlain_outcome ho with
  | @delivered legs hne hl =>
    rw [hl]
    cases legs with
    | nil => exact absurd rfl hne
    | cons leg legs => exact ⟨h, rfl⟩
  | @queued dest hd hl hk =>
    have hdest : m.dest.getD "" = dest := by rw [hd, Option.getD_some]
    rw [hdest, hl]
    dsimp only
    rw [if_pos ((h.stores.known_iff dest).mpr hk)]
    exact ⟨h.enqueue hst dest m, rfl⟩
  | unknown hl hk =>
    rw [hl]
    dsimp only
    rw [if_neg]
    · exact ⟨h, rfl⟩
    · rw [h.stores.known_iff, hk]
      exact Bool.false_ne_true

theorem Agree.introduce (h : Agree r t) (hst : r.Stored) {m : Message} {dest : String}
    (hm : r.ForkedAlike dest) (ht : m.type = .introduction) (hd : m.dest = some dest) :
    Agree (r.recvIntroduction dest m).1 (t.recv m).1 ∧ (r.recvIntroduction dest m).2 = (t.recv m).2 := by
  have hlegs := h.stores.legsFor_forked hm
  unfold Relay.recvIntroduction Ts.Relay.recv
  rw [hd, ht, if_neg nofun, if_pos rfl, Option.getD_some, hlegs]
  cases r.legsFor dest with
  | nil =>
    dsimp only
    exact ⟨h.enqueue hst dest m, rfl⟩
  | cons leg legs =>
    dsimp only
    exact ⟨h, rfl⟩

theorem image_fork (inv : Option Message) (now : Nat) (session : String) (legs : List String) :
    ∀ a : Attempt, a.last = now → foldEmit (Ts.Attempt.addLeg now session false) (Routing.image inv a) legs =
        imageOut inv (foldEmit Attempt.fork a legs) := by
  induction legs with
  | nil => exact fun _ _ => rfl
  | cons leg legs ih =>
    intro a ha
    have hleg : Ts.Attempt.addLeg now session false (Routing.image inv a) leg =
        imageOut inv (a.fork leg) := by
      subst ha
      rfl
    rw [foldEmit_cons, foldEmit_cons, hleg]
    have hrest := ih (a.fork leg).1 ha
    unfold imageOut at hrest ⊢
    dsimp only
    rw [hrest]

theorem Agree.invited (h : Agree r t) (hst : r.Stored) {m : Message} {dest : String}
    (hm : r.ForkedAlike dest) (ht : m.type = .invite) (hd : m.dest = some dest) :
    Agree (r.recvInvite dest m).1 (t.recv m).1 ∧ (r.recvInvite dest m).2 = (t.recv m).2 := by
  have hlegs := h.stores.legsFor_forked hm
  unfold Relay.recvInvite Ts.Relay.recv
  rw [hd, ht, if_pos rfl, Option.getD_some, hlegs]
  cases hl : r.legsFor dest with
  | nil =>
    dsimp only
    by_cases hk : r.known dest = true
    · rw [if_pos hk, if_pos ((h.stores.known_iff dest).mpr hk)]
      exact ⟨h.enqueue hst dest m, rfl⟩
    · rw [if_neg hk, if_neg fun hin => hk ((h.stores.known_iff dest).mp hin)]
      exact ⟨h, rfl⟩
  | cons leg legs =>
    dsimp only
    have hfork : t.fork m.id m.sender dest (leg :: legs) m.expiresAt false = t.put m.id (imageOut (some m)
          (foldEmit Attempt.fork (.new m.id m.sender dest r.now) (leg :: legs))) := by
      rw [← image_fork (some m) r.now m.id (leg :: legs) (.new m.id m.sender dest r.now) rfl]
      unfold Ts.Relay.fork
      rw [h.stores.now]
      rfl
    rw [hfork]
    exact ⟨h.start m _, rfl⟩

/-! ## Messages of a session -/

theorem Agree.restore {sid : String} {a : Attempt} (ha : r.attempts.lookup sid = some a)
    (h : Agree (r.put sid (a, [])).1 t) : Agree r t := by
  have hlook : ∀ k, (r.put sid (a, [])).1.attempts.lookup k = r.attempts.lookup k := by
    intro k
    rw [lookup_put]
    split
    case isTrue hk => rw [hk, ha]
    case isFalse => rfl
  refine ⟨h.stores.congr rfl rfl, ?_, ?_⟩
  · intro k
    rw [h.attempts, hlook]
    rfl
  · intro k hk
    exact h.invites k ((hlook k).trans hk)

theorem Agree.legExpired (h : Agree r t) (ht : r.Tracked) (session leg : String) :
    Agree (r.legExpired session leg).1 (t.step (.legExpired session leg)).1 ∧
      (r.legExpired session leg).2 = (t.step (.legExpired session leg)).2 := by
  unfold Relay.legExpired Ts.Relay.step
  dsimp only
  rw [h.attempts]
  cases ha : r.attempts.lookup session with
  | none => exact ⟨h, rfl⟩
  | some a =>
    rw [Option.map_some]
    dsimp only
    by_cases hl : a.legs.lookup leg = some .delivered
    · rw [if_pos hl, Attempt.image_legEnded _ (ht session a ha).session hl]
      exact ⟨h.put session _, rfl⟩
    · have hskip : (Routing.image (r.invites.lookup session) a).legEnded session .expired leg =
          imageOut (r.invites.lookup session) (a, []) := if_pos hl
      rw [if_neg hl, hskip]
      exact ⟨(h.put session (a, [])).restore ha, rfl⟩

theorem Agree.queuedFor (h : Agree r t) {m : Message} {dest : String} (hd : m.dest = some dest) :
    (∃ q ∈ t.queue, Ts.Relay.QueuedFor m q) ↔
      ∃ g ∈ r.heldFor dest, g.msg.type = .invite ∧ some g.msg.id = m.session := by
  obtain ⟨l, -, hq, hheld⟩ := h.stores.queue
  rw [hq, hheld]
  unfold Ts.Relay.QueuedFor
  rw [hd]
  constructor
  · rintro ⟨q, hin, ht, hs, hdest⟩
    obtain ⟨g, hg, rfl⟩ := List.mem_map.mp hin
    exact ⟨g, List.mem_filter.mpr ⟨hg, decide_eq_true (Option.some.inj hdest)⟩, ht, hs⟩
  · rintro ⟨g, hg, ht, hs⟩
    obtain ⟨hg, hdest⟩ := List.mem_filter.mp hg
    exact ⟨g.image, List.mem_map_of_mem hg, ht, hs, congrArg some (of_decide_eq_true hdest)⟩

theorem Agree.withdraw (h : Agree r t) (hst : Standing tr r) {m : Message} {dest : String}
    (hd : m.dest = some dest) {o : Relay × List Emit} (ho : r.cancelQueued m dest = some o) :
    Agree o.1 { t with queue := t.queue.filter fun q => ¬ Ts.Relay.QueuedFor m q } ∧
      o.2 = (t.queue.filter fun q => Ts.Relay.QueuedFor m q).map
        fun q => .dequeue q.dest .invite .cancelled := by
  have hw := cancelQueued_withdraws ho
  obtain ⟨g, hg, ht, hs⟩ := hw.found
  have hgd := hst.stored.dest dest g hg
  obtain ⟨l, hl, hq, hheld⟩ := h.stores.queue
  have hgl : g ∈ l := by
    rw [hheld] at hg
    exact List.mem_of_mem_filter hg
  -- nothing else is held of the session
  have honly : ∀ g' ∈ l, Ts.Relay.QueuedFor m g'.image ↔ g' = g := by
    intro g' hg'
    constructor
    · rintro ⟨ht', hs', -⟩
      have hid : g'.msg.id = g.msg.id := Option.some.inj (Eq.trans hs' hs.symm)
      have hholds : r.Holds g := by
        unfold Holds
        rw [hgd]
        exact hg
      exact (hst.invites hholds ht).2 g' (filter_heldFor hheld hg') ht' hid
    · rintro rfl
      exact ⟨ht, hs, by rw [hd, ← hgd]; rfl⟩
  have hnd : l.Nodup := hl.imp fun hlt he => by
    rw [he] at hlt
    exact Nat.lt_irrefl _ hlt
  constructor
  · obtain ⟨⟨i, hi⟩, hfilled⟩ : (∃ i, o.1 = { r with inbox := i }) ∧ o.1.Filled := by
      unfold cancelQueued at ho
      dsimp only at ho
      split at ho
      case isTrue => cases ho
      case isFalse =>
        obtain rfl := Option.some.inj ho
        exact ⟨⟨_, rfl⟩, Filled.keep h.stores.inbox rfl⟩
    have hheld' := hw.held
    rw [hi] at hheld' hfilled ⊢
    refine ⟨⟨h.stores.now, h.stores.retention, h.stores.bound, h.stores.devices, h.stores.known,
      h.stores.ended, ?_, hfilled⟩, h.attempts, h.invites⟩
    refine ⟨l.filter fun g' => ¬ Ts.Relay.QueuedFor m g'.image, hl.filter _, ?_, ?_⟩
    · show t.queue.filter _ = _
      rw [hq, List.filter_map]
      rfl
    · intro k
      rw [hheld' k, hheld, hheld, List.filter_filter, List.filter_filter]
      split
      case isTrue hk =>
        rw [hk]
        apply List.filter_congr
        intro g' hg'
        by_cases hgd' : g'.dest = dest
        · have hiff : Ts.Relay.QueuedFor m g'.image ↔
              (g'.msg.type = .invite ∧ some g'.msg.id = m.session) := by
            unfold Ts.Relay.QueuedFor
            rw [hd]
            exact ⟨fun h => ⟨h.1, h.2.1⟩, fun h => ⟨h.1, h.2, congrArg some hgd'⟩⟩
          simp only [hgd', hiff, decide_true, Bool.and_true, Bool.true_and]
        · simp only [hgd', decide_false, Bool.and_false, Bool.false_and]
      case isFalse hk =>
        apply List.filter_congr
        intro g' hg'
        by_cases hgd' : g'.dest = k
        · have hno : ¬ Ts.Relay.QueuedFor m g'.image := by
            rintro ⟨-, -, hdest⟩
            rw [hd] at hdest
            exact hk (hgd'.symm.trans (Option.some.inj hdest))
          simp only [hgd', hno, decide_true, Bool.and_self, not_false_eq_true]
        · simp only [hgd', decide_false, Bool.false_and]
  · have hfilter : (l.filter fun g' => Ts.Relay.QueuedFor m g'.image) = [g] := by
      rw [← List.perm_singleton, List.perm_ext_iff_of_nodup (hnd.filter _) (List.nodup_singleton g)]
      intro g'
      rw [List.mem_filter, decide_eq_true_eq, List.mem_singleton]
      exact ⟨fun h => (honly g' h.1).mp h.2, fun h => h ▸ ⟨hgl, (honly g hgl).mpr rfl⟩⟩
    rw [hw.out, hq, List.filter_map]
    show _ = (List.map Held.image (l.filter fun g' => Ts.Relay.QueuedFor m g'.image)).map _
    rw [hfilter]
    show _ = [Emit.dequeue g.dest .invite .cancelled]
    rw [hgd]

theorem recvOther_route {m : Message} (hc : ¬ (m.type = .cancel ∧ ∃ q ∈ t.queue, Ts.Relay.QueuedFor m q))
    (hnone : ∀ sid, m.session = some sid → t.attempts.lookup sid = none) : t.recvOther m = t.route m := by
  unfold Ts.Relay.recvOther
  rw [if_neg hc]
  cases hs : m.session with
  | none => rfl
  | some sid =>
    dsimp only
    rw [hnone sid hs]

theorem Agree.untracked (h : Agree r t) (hst : Standing tr r) {m : Message}
    {o : Relay × List Emit} (hm : r.RoutedAlike (m.dest.getD ""))
    (hnone : ∀ sid, m.session = some sid → r.attempts.lookup sid = none)
    (ho : r.recvUntracked m = .ok o) : Agree o.1 (t.recvOther m).1 ∧ o.2 = (t.recvOther m).2 := by
  have hnone' : ∀ sid, m.session = some sid → t.attempts.lookup sid = none := by
    intro sid hs
    rw [h.attempts, hnone sid hs]
    rfl
  unfold recvUntracked at ho
  by_cases hc : m.type = .cancel
  · rw [if_pos hc] at ho
    cases hd : m.dest with
    | none =>
      rw [hd] at ho
      cases ho
    | some dest =>
      rw [hd] at ho
      dsimp only at ho
      split at ho
      case isTrue => cases ho
      case isFalse =>
        cases hq : r.cancelQueued m dest with
        | some o' =>
          rw [hq] at ho
          obtain rfl := Except.ok.inj ho
          have hw := h.withdraw hst hd hq
          have hfound := (h.queuedFor hd).mpr (cancelQueued_withdraws hq).found
          rw [show t.recvOther m = _ from if_pos ⟨hc, hfound⟩]
          exact hw
        | none =>
          rw [hq] at ho
          rw [recvOther_route ?_ hnone']
          · exact h.route hst.stored hm ho
          · rintro ⟨-, hin⟩
            obtain ⟨g, hg, ht, hs⟩ := (h.queuedFor hd).mp hin
            unfold cancelQueued at hq
            dsimp only at hq
            split at hq
            case isFalse => cases hq
            case isTrue hlen =>
              have hall := List.filter_eq_self.mp
                (List.filter_sublist.eq_of_length hlen) g hg
              rw [decide_eq_true_eq] at hall
              exact hall ⟨ht, hs⟩
  · rw [if_neg hc] at ho
    rw [recvOther_route (fun h => hc h.1) hnone']
    exact h.route hst.stored hm ho

/-- The attempt handles the message itself. -/
def Handled (a : Attempt) (m : Message) : Prop :=
  m.type ∈ [.progress, .answer, .reject] ∧ m.inReplyTo = none ∧ m.sender ∈ a.legs ∨
  m.type = .cancel ∧ m.sender = a.initiator ∧
    (m.dest = none ∨ m.dest = some a.identity ∨ ∃ leg ∈ m.dest, leg ∈ a.legs)

/-- What a message of an attempt asks for. -/
structure SessionMeets (r : Relay) (a : Attempt) (m : Message) : Prop where
  routed : ¬ Handled a m → r.RoutedAlike (m.dest.getD "")
  /-- The initiator's cancel to a device that is no leg keeps the attempt held
  in one relay only. -/
  stray : m.type = .cancel → m.sender = a.initiator → ¬ Handled a m → a.last = r.now
  /-- A leg does not cancel. -/
  leg : m.type = .cancel → m.sender ≠ a.initiator → m.sender ∉ a.legs
  /-- A cancel to an identity that is one of the legs reaches that leg alone in
  one relay, and all legs in the other. -/
  self : m.type = .cancel → m.sender = a.initiator → m.dest = some a.identity →
    a.identity ∈ a.legs → ∀ leg, a.legs.lookup leg = some .delivered → leg = a.identity

section Tracked

variable {m : Message} {sid : String} {a : Attempt} {o : Relay × List Emit}

theorem Agree.cancel (h : Agree r t) (hst : Standing tr r) (hs : m.session = some sid)
    (ha : r.attempts.lookup sid = some a) (hm : SessionMeets r a m) (ht : m.type = .cancel)
    (hi : m.sender = a.initiator) (ho : r.recvCancel sid a m = .ok o) :
    Agree o.1 (t.recvSession m).1 ∧ o.2 = (t.recvSession m).2 := by
  have hown : m.type = .cancel ∧ m.sender = (Routing.image (r.invites.lookup sid) a).sender := ⟨ht, hi⟩
  have hlook : t.attempts.lookup sid = some (Routing.image (r.invites.lookup sid) a) := by
    rw [h.attempts, ha]
    rfl
  have hrecv : t.recvSession m =
      if m.dest = none ∨ m.dest = some a.identity ∨ ∃ leg ∈ m.dest, leg ∈ a.legs then
        t.put sid ((Routing.image (r.invites.lookup sid) { a with last := r.now }).cancel m.dest
          m.reason)
      else t.route m := by
    unfold Ts.Relay.recvSession
    rw [hs]
    dsimp only
    rw [hlook]
    dsimp only
    rw [if_pos hown, h.stores.now]
    rfl
  rw [hrecv]
  have hiff : (m.dest.filter (· ∈ a.legs) = none ∧ ¬ (m.dest = none ∨ m.dest = some a.identity)) ↔
      ¬ (m.dest = none ∨ m.dest = some a.identity ∨ ∃ leg ∈ m.dest, leg ∈ a.legs) := by
    cases hd : m.dest with
    | none => simp
    | some d =>
      rw [Option.filter_some]
      by_cases hin : d ∈ a.legs
      · simp [hin]
      · simp [hin]
  unfold recvCancel at ho
  dsimp only at ho
  by_cases hto : m.dest = none ∨ m.dest = some a.identity ∨ ∃ leg ∈ m.dest, leg ∈ a.legs
  · rw [if_neg fun hc => (hiff.mp hc) hto] at ho
    obtain rfl := Except.ok.inj ho
    have himage := Attempt.image_cancel (a := { a with last := r.now }) (r.invites.lookup sid)
      m.reason hto (hm.self ht hi)
    rw [if_pos hto, himage]
    exact ⟨h.put sid _, rfl⟩
  · rw [if_pos (hiff.mpr hto)] at ho
    rw [if_neg hto]
    have hunhandled : ¬ Handled a m := by
      rintro (⟨hin, -⟩ | ⟨-, -, hin⟩)
      · rw [ht] at hin
        simp at hin
      · exact hto hin
    have hlast : ({ a with last := r.now } : Attempt) = a := by
      rw [← hm.stray ht hi hunhandled]
    rw [hlast] at ho
    have hput : Agree (r.put sid (a, [])).1 t := by
      refine ⟨h.stores.congr rfl rfl, ?_, ?_⟩
      · intro k
        rw [lookup_put, h.attempts]
        split
        case isTrue hk =>
          rw [hk, ha]
          rfl
        case isFalse => rfl
      · intro k hk
        rw [lookup_put] at hk
        split at hk
        case isTrue => cases hk
        case isFalse => exact h.invites k hk
    have hstored : (r.put sid (a, [])).1.Stored :=
      ⟨hst.stored.dest, hst.stored.addressed, hst.stored.arrived, hst.stored.ordered, hst.stored.told⟩
    exact hput.route hstored (hm.routed hunhandled) ho

theorem Agree.tracked (h : Agree r t) (hst : Standing tr r) (hs : m.session = some sid)
    (ha : r.attempts.lookup sid = some a) (hm : SessionMeets r a m)
    (hcancel : m.type = .cancel → m.inReplyTo = none) (ho : r.recvTracked sid a m = .ok o) :
    Agree o.1 (t.recvSession m).1 ∧ o.2 = (t.recvSession m).2 := by
  have hlook : t.attempts.lookup sid = some (Routing.image (r.invites.lookup sid) a) := by
    rw [h.attempts, ha]
    rfl
  unfold recvTracked at ho
  by_cases hown : m.type = .cancel ∧ m.sender = a.initiator
  · have hin : ¬ (m.type ∉ [.progress, .answer, .reject, .cancel] ∨ m.inReplyTo ≠ none) := by
      rw [not_or, not_not, not_not, hown.1]
      exact ⟨by simp, hcancel hown.1⟩
    rw [if_neg hin, if_pos hown] at ho
    exact h.cancel hst hs ha hm hown.1 hown.2 ho
  · -- no invite of the session is held any more
    have hqueue : ¬ (m.type = .cancel ∧ ∃ q ∈ t.queue, Ts.Relay.QueuedFor m q) := by
      rintro ⟨-, q, hq, ht, hid, -⟩
      obtain ⟨l, -, hl, hheld⟩ := h.stores.queue
      rw [hl] at hq
      obtain ⟨g, hg, rfl⟩ := List.mem_map.mp hq
      have hnone := (hst.invites (filter_heldFor hheld hg) ht).1
      rw [hs] at hid
      have hid' : g.msg.id = sid := Option.some.inj hid
      rw [hid', ha] at hnone
      cases hnone
    have hother : t.recvSession m = (a.legs.lookup m.sender).elim (t.route m) fun state =>
        if m.inReplyTo = none ∧ m.type ∈ [.progress, .answer, .reject] then
          t.put sid ({ Routing.image (r.invites.lookup sid) a with
            touched := t.now }.fromLeg sid m state)
        else t.route m := by
      unfold Ts.Relay.recvSession Ts.Relay.recvOther
      rw [if_neg hqueue, hs]
      dsimp only
      rw [hlook]
      dsimp only
      rw [show (Routing.image (r.invites.lookup sid) a).legs = a.legs from rfl]
      cases a.legs.lookup m.sender <;> exact if_neg hown
    rw [hother]
    cases hl : a.legs.lookup m.sender with
    | none =>
      have hunhandled : ¬ Handled a m := by
        rintro (⟨-, -, hin⟩ | ⟨ht, hi, -⟩)
        · exact absurd hin (AList.lookup_eq_none.mp hl)
        · exact hown ⟨ht, hi⟩
      have hroute : r.routePlain m = .ok o := by
        rw [if_neg hown] at ho
        split at ho
        case isTrue => exact ho
        case isFalse =>
          rw [hl] at ho
          exact ho
      exact h.route hst.stored (hm.routed hunhandled) hroute
    | some st =>
      rw [Option.elim_some]
      have hleg : m.sender ∈ a.legs := Dict.mem_iff_lookup.mpr ⟨st, hl⟩
      by_cases hin : m.inReplyTo = none ∧ m.type ∈ [.progress, .answer, .reject]
      · have hin' : ¬ (m.type ∉ [.progress, .answer, .reject, .cancel] ∨ m.inReplyTo ≠ none) := by
          rw [not_or, not_not, not_not]
          refine ⟨?_, hin.1⟩
          have := hin.2
          simp only [List.mem_cons, List.not_mem_nil, or_false] at this ⊢
          tauto
        rw [if_neg hin', if_neg hown, hl] at ho
        obtain rfl := Except.ok.inj ho
        have htime : ({ Routing.image (r.invites.lookup sid) a with touched := t.now } :
            Ts.Attempt) = Routing.image (r.invites.lookup sid) { a with last := r.now } := by
          rw [h.stores.now]
          rfl
        have hsound : ({ a with last := r.now } : Attempt).Sound sid := by
          have hs := tracked_of_phases hst.phase sid a ha
          exact ⟨hs.session, hs.unanswered, hs.rejects⟩
        rw [if_pos hin, htime, Attempt.image_fromLeg _ hsound hl hin.2]
        exact ⟨h.put sid _, rfl⟩
      · have hunhandled : ¬ Handled a m := by
          rintro (⟨ht, hr, -⟩ | ⟨ht, hi, -⟩)
          · exact hin ⟨hr, ht⟩
          · exact hown ⟨ht, hi⟩
        have hroute : r.routePlain m = .ok o := by
          split at ho
          case isTrue => exact ho
          case isFalse hno =>
            -- what is left would be the cancel of a leg
            exfalso
            rw [not_or, not_not, not_not] at hno
            have hcan : m.type = .cancel := by
              have h₁ := hno.1
              have h₂ : m.type ∉ [.progress, .answer, .reject] := fun ht => hin ⟨hno.2, ht⟩
              simp only [List.mem_cons, List.not_mem_nil, or_false] at h₁ h₂
              tauto
            exact hm.leg hcan (fun hi => hown ⟨hcan, hi⟩) hleg
        rw [if_neg hin]
        exact h.route hst.stored (hm.routed hunhandled) hroute

end Tracked

/-! ## Steps -/

/-- What a received message asks for. -/
def RecvMeets (r : Relay) (m : Message) : Prop :=
  match m.type with
  | .invite | .introduction => r.ForkedAlike (m.dest.getD "")
  | _ =>
    match m.session.bind r.attempts.lookup with
    | none => r.RoutedAlike (m.dest.getD "")
    | some a => r.SessionMeets a m

/-- The events on which the two relays agree. -/
def Meets (r : Relay) : Event → Prop
  | .advance seconds =>
    ∀ x ∈ r.due seconds, r.Unbound x → ¬ (x ∈ r.bindings ∧ x ∈ r.devices)
  | .bind device identity => r.BindMeets device identity
  | .recv m => r.RecvMeets m
  | .invite .. | .unbind .. | .legExpired .. => True

/-- The events a relay gets: each session id is invited once, a bound device
binds for no other identity, a device that unbinds is bound, and no cancel is a
reply. -/
def Legal (tr : Trace) (r : Relay) (i : Event) : Prop :=
  InvitedOnce tr r i ∧
    match i with
    | .bind device identity => ∀ k, device ∈ r.boundFor k → k = identity
    | .unbind device identity => device ∈ r.boundFor identity
    | .recv m => m.type = .cancel → m.inReplyTo = none
    | .advance _ | .invite .. | .legExpired .. => True

theorem Agree.recv (h : Agree r t) (hst : Standing tr r) {m : Message} (hm : r.RecvMeets m)
    (hcancel : m.type = .cancel → m.inReplyTo = none) {o : Relay × List Emit}
    (ho : r.recv m = .ok o) : Agree o.1 (t.recv m).1 ∧ o.2 = (t.recv m).2 := by
  unfold RecvMeets at hm
  unfold Relay.recv at ho
  split at ho
  case h_1 dest ht hd =>
    rw [ht, hd] at hm
    obtain rfl := Except.ok.inj ho
    exact h.introduce hst.stored hm ht hd
  case h_2 => cases ho
  case h_3 dest ht hd =>
    rw [ht, hd] at hm
    obtain rfl := Except.ok.inj ho
    exact h.invited hst.stored hm ht hd
  case h_4 => cases ho
  case h_5 hintro hintro' hinv hinv' =>
    have ht : m.type ≠ .introduction ∧ m.type ≠ .invite := by
      cases hd : m.dest with
      | none => exact ⟨fun ht => hintro' ht hd, fun ht => hinv' ht hd⟩
      | some dest => exact ⟨fun ht => hintro dest ht hd, fun ht => hinv dest ht hd⟩
    have hts : t.recv m = t.recvSession m := by
      unfold Ts.Relay.recv
      rw [if_neg ht.2, if_neg ht.1]
    have hsession : match m.session.bind r.attempts.lookup with
        | none => r.RoutedAlike (m.dest.getD "")
        | some a => r.SessionMeets a m := by
      split at hm
      case h_1 hinv => exact absurd hinv ht.2
      case h_2 hintro => exact absurd hintro ht.1
      case h_3 => exact hm
    rw [hts]
    unfold Relay.recvSession at ho
    have hnoattempt : (∀ sid, m.session = some sid → r.attempts.lookup sid = none) →
        t.recvSession m = t.recvOther m := by
      intro hnone
      unfold Ts.Relay.recvSession
      cases hs : m.session with
      | none => rfl
      | some sid =>
        dsimp only
        rw [h.attempts, hnone sid hs]
        rfl
    cases hs : m.session with
    | none =>
      rw [hs] at ho hsession
      have hnone : ∀ sid, m.session = some sid → r.attempts.lookup sid = none := by
        intro sid hsid
        rw [hs] at hsid
        cases hsid
      rw [hnoattempt hnone]
      exact h.untracked hst hsession hnone ho
    | some sid =>
      rw [hs, Option.bind_some] at hsession
      rw [hs] at ho
      dsimp only at ho
      cases ha : r.attempts.lookup sid with
      | none =>
        rw [ha] at ho hsession
        have hnone : ∀ k, m.session = some k → r.attempts.lookup k = none := by
          intro k hk
          rw [hs] at hk
          obtain rfl := Option.some.inj hk
          exact ha
        rw [hnoattempt hnone]
        exact h.untracked hst hsession hnone ho
      | some a =>
        rw [ha] at ho hsession
        exact h.tracked hst hs ha hsession hcancel ho

/-- **One step.** -/
theorem Agree.step (h : Agree r t) (hst : Standing tr r) {i : Event} (hl : Legal tr r i)
    (hm : r.Meets i) {o : Relay × List Emit} (ho : r.step i = .ok o) :
    Agree o.1 (t.step i).1 ∧ o.2 = (t.step i).2 := by
  obtain ⟨honce, hl⟩ := hl
  cases i with
  | advance seconds =>
    obtain rfl := Except.ok.inj ho
    exact h.advance (tracked_of_phases hst.phase) seconds hm
  | invite session sender dest legs =>
    obtain rfl := Except.ok.inj ho
    -- the attempt is new, and so has no invite
    have hnone : r.invites.lookup session = none := by
      apply h.invites
      cases hst.phase session with
      | idle ha => exact ha
      | queued _ hi => exact absurd hi (honce.not_asked rfl)
      | live _ hi => exact absurd hi (honce.not_asked rfl)
      | closed _ hi => exact absurd hi (honce.not_asked rfl)
    have hfork : t.fork session sender dest legs none false =
        t.put session (imageOut (r.invites.lookup session)
          (foldEmit Attempt.fork (.new session sender dest r.now) legs)) := by
      rw [hnone, ← image_fork none r.now session legs (.new session sender dest r.now) rfl]
      unfold Ts.Relay.fork
      rw [h.stores.now]
      rfl
    have hstep : t.step (.invite session sender dest legs) = t.fork session sender dest legs none false := rfl
    rw [hstep, hfork]
    exact ⟨h.put session _, rfl⟩
  | bind device identity =>
    obtain rfl := Except.ok.inj ho
    exact h.bind hst hm hl
  | unbind device identity =>
    obtain rfl := Except.ok.inj ho
    exact ⟨h.unbind hl, rfl⟩
  | legExpired session leg =>
    obtain rfl := Except.ok.inj ho
    exact h.legExpired (tracked_of_phases hst.phase) session leg
  | recv m => exact h.recv hst hm hl ho

/-! ## Runs -/

/-- Both relays, fed the same events. -/
def pairStep (s : Relay × Ts.Relay) (i : Event) :
    Except Fault ((Relay × Ts.Relay) × (List Emit × List Emit)) :=
  (s.1.step i).map fun o => ((o.1, (s.2.step i).1), (o.2, (s.2.step i).2))

/-- The machine of the two relays. -/
def pair : TSys (Relay × Ts.Relay) Event (List Emit × List Emit) :=
  .ofStep (fun s => ∃ ctx, s = (.new ctx, .new ctx)) pairStep

/-- The events both relays get. -/
def LegalPair (tr : TSys.Trace Event (List Emit × List Emit)) (s : Relay × Ts.Relay)
    (i : Event) : Prop :=
  Legal (tr.map fun e => (e.1, e.2.1)) s.1 i

/-- The events on which both agree. -/
def MeetsPair (tr : TSys.Trace Event (List Emit × List Emit)) (s : Relay × Ts.Relay)
    (i : Event) : Prop :=
  LegalPair tr s i ∧ s.1.Meets i

/-- What is held for a recipient. -/
def inboxCount (r : Relay) (dest : String) : Nat := (r.heldFor dest).length

end Relay

/-- What is held for a recipient. -/
def Ts.Relay.inboxCount (t : Ts.Relay) (dest : String) : Nat := (t.queue.filter fun q => q.dest = dest).length

namespace Relay

variable {r : Relay} {t : Ts.Relay}

theorem Agree.inboxCount (h : Agree r t) (dest : String) : t.inboxCount dest = r.inboxCount dest := by
  obtain ⟨l, -, hq, hheld⟩ := h.stores.queue
  unfold Ts.Relay.inboxCount Relay.inboxCount
  rw [hq, hheld, List.filter_map, List.length_map]
  rfl

/-- In every run in which the two relays are given what they agree on, they
write the same at every step, and hold the same attempts and as many envelopes
for every recipient. -/
theorem relays_agree {ctx : Context} {tr : TSys.Trace Event (List Emit × List Emit)}
    {s : Relay × Ts.Relay} (h : pair.RunWhere MeetsPair (.new ctx, .new ctx) tr s) :
    (∀ e ∈ tr, e.2.1 = e.2.2) ∧
    (∀ sid, (s.2.attempts.lookup sid).map (fun a => (a.legs, a.outcome)) =
      (s.1.attempts.lookup sid).map fun a => (a.legs, a.outcome)) ∧
    ∀ dest, s.2.inboxCount dest = s.1.inboxCount dest := by
  have hinv : machine.RunWhere InvitedOnce (.new ctx) (tr.map fun e => (e.1, e.2.1)) s.1 ∧
      Agree s.1 s.2 ∧ ∀ e ∈ tr, e.2.1 = e.2.2 := by
    refine TSys.RunWhere.invariant (P := fun tr s =>
      machine.RunWhere InvitedOnce (.new ctx) (tr.map fun e => (e.1, e.2.1)) s.1 ∧
        Agree s.1 s.2 ∧ ∀ e ∈ tr, e.2.1 = e.2.2) ⟨.nil, agree_new ctx, nofun⟩ ?_ h
    rintro tr s i o s' - ⟨hrun, hagree, hsame⟩ ⟨hlegal, hmeets⟩ hs
    have hs' : pairStep s i = .ok (s', o) := hs
    unfold pairStep at hs'
    cases hstep : s.1.step i with
    | error e =>
      rw [hstep] at hs'
      cases hs'
    | ok q =>
      rw [hstep] at hs'
      obtain ⟨rfl, rfl⟩ := Prod.ext_iff.mp (Except.ok.inj hs')
      obtain ⟨hagree', hout⟩ := hagree.step (standing_of_run hrun) hlegal hmeets hstep
      refine ⟨?_, hagree', ?_⟩
      · rw [List.map_append]
        exact hrun.snoc hlegal.1 hstep
      · intro e he
        rcases List.mem_append.mp he with he | he
        · exact hsame e he
        · rw [List.mem_singleton.mp he]
          exact hout
  obtain ⟨-, hagree, hsame⟩ := hinv
  refine ⟨hsame, ?_, hagree.inboxCount⟩
  intro sid
  rw [hagree.attempts]
  cases s.1.attempts.lookup sid <;> rfl

/-! ## Two runs -/

instance (r : Relay) (x : String) : Decidable (∃ k, x ∈ r.boundFor k) :=
  decidable_of_iff (∃ k ∈ r.bindings.keys, x ∈ r.boundFor k) <| by
    constructor
    · rintro ⟨k, -, hk⟩
      exact ⟨k, hk⟩
    · rintro ⟨k, hk⟩
      refine ⟨k, ?_, hk⟩
      have hne : r.boundFor k ≠ ∅ := fun hempty => by simp [hempty] at hk
      exact Dict.mem_iff_lookup.mpr ⟨_, lookup_bindings_of_bound hne⟩

instance (r : Relay) (x : String) : Decidable (r.Unbound x) :=
  decidable_of_iff (r.boundFor x = ∅ ∧ ¬ ∃ k, x ∈ r.boundFor k) <| by
    rw [not_exists]
    rfl

instance (r : Relay) (x : String) : Decidable (r.RoutedAlike x) := inferInstanceAs (Decidable (_ → _))

instance (r : Relay) (x : String) : Decidable (r.ForkedAlike x) := inferInstanceAs (Decidable (_ → _))

instance (a : Attempt) (m : Message) : Decidable (Handled a m) := inferInstanceAs (Decidable (_ ∨ _))

instance (r : Relay) (a : Attempt) (m : Message) : Decidable (r.SessionMeets a m) :=
  decidable_of_iff
    ((¬ Handled a m → r.RoutedAlike (m.dest.getD "")) ∧
      (m.type = .cancel → m.sender = a.initiator → ¬ Handled a m → a.last = r.now) ∧
      (m.type = .cancel → m.sender ≠ a.initiator → m.sender ∉ a.legs) ∧
      (m.type = .cancel → m.sender = a.initiator → m.dest = some a.identity →
        a.identity ∈ a.legs → ∀ leg ∈ a.legs.keys, a.legs.lookup leg = some .delivered →
          leg = a.identity)) <| by
    constructor
    · rintro ⟨hr, hs, hl, hself⟩
      refine ⟨hr, hs, hl, fun h₁ h₂ h₃ h₄ leg hleg => ?_⟩
      exact hself h₁ h₂ h₃ h₄ leg (Dict.mem_iff_lookup.mpr ⟨_, hleg⟩) hleg
    · exact fun h => ⟨h.routed, h.stray, h.leg, fun h₁ h₂ h₃ h₄ leg _ => h.self h₁ h₂ h₃ h₄ leg⟩

instance (r : Relay) (device identity : String) : Decidable (r.BindMeets device identity) :=
  decidable_of_iff
    ((∀ h ∈ r.heldFor device, h.msg.type = .invite → device = identity) ∧
      ∀ sid ∈ r.attempts.keys, ∀ a ∈ r.attempts.lookup sid, a.identity = identity →
        a.outcome = none → device ∉ a.legs → r.invites.lookup sid ≠ none) <| by
    constructor
    · rintro ⟨hheld, hinv⟩
      exact ⟨hheld, fun sid a ha => hinv sid (Dict.mem_iff_lookup.mpr ⟨a, ha⟩) a ha⟩
    · exact fun h => ⟨h.held, fun sid _ => h.invite sid⟩

instance (r : Relay) (m : Message) : Decidable (r.RecvMeets m) := by
  unfold RecvMeets
  split
  · infer_instance
  · infer_instance
  · split <;> infer_instance

instance (r : Relay) : DecidablePred r.Meets
  | .advance _ => inferInstanceAs (Decidable (∀ _ ∈ _, _))
  | .bind device identity => inferInstanceAs (Decidable (r.BindMeets device identity))
  | .recv m => inferInstanceAs (Decidable (r.RecvMeets m))
  | .invite .. | .unbind .. | .legExpired .. => isTrue trivial

instance (tr : Trace) (r : Relay) (i : Event) : Decidable (Legal tr r i) := by
  unfold Legal
  refine @instDecidableAnd _ _ inferInstance ?_
  match i with
  | .bind device identity =>
    exact decidable_of_iff (∀ k ∈ r.bindings.keys, device ∈ r.boundFor k → k = identity) <| by
      constructor
      · intro h k hk
        have hne : r.boundFor k ≠ ∅ := fun hempty => by simp [hempty] at hk
        exact h k (Dict.mem_iff_lookup.mpr ⟨_, lookup_bindings_of_bound hne⟩) hk
      · exact fun h k _ => h k
  | .unbind device identity => exact inferInstanceAs (Decidable (device ∈ r.boundFor identity))
  | .recv m => exact inferInstanceAs (Decidable (_ → _))
  | .advance _ => exact isTrue trivial
  | .invite .. => exact isTrue trivial
  | .legExpired .. => exact isTrue trivial

instance (tr : TSys.Trace Event (List Emit × List Emit)) (s : Relay × Ts.Relay) (i : Event) :
    Decidable (LegalPair tr s i) :=
  inferInstanceAs (Decidable (Legal ..))

instance (tr : TSys.Trace Event (List Emit × List Emit)) (s : Relay × Ts.Relay) (i : Event) :
    Decidable (MeetsPair tr s i) :=
  inferInstanceAs (Decidable (_ ∧ _))

/-- A call that is forked, joined late and answered. -/
theorem relays_agree_answered : ∃ tr s, pair.RunWhere MeetsPair (.new {}, .new {}) tr s ∧
      (tr.map fun e => e.2.1) = [[], [.deliver "d" .invite none], [.deliver "e" .invite "s"],
        [.forwardAnswer "e"]] ∧
      ∀ e ∈ tr, e.2.1 = e.2.2 := by
  obtain ⟨tr, s, h, hs⟩ := TSys.exec?_runWhere pairStep MeetsPair
    (fun s => ∃ ctx, s = (.new ctx, .new ctx)) (.new {}, .new {})
    [.bind "d" "bob", .recv { type := .invite, id := "s", sender := "alice", dest := some "bob" },
     .bind "e" "bob",
     .recv { type := .answer, id := "m", sender := "e", dest := some "alice", session := some "s" }]
    (fun r => (r.1.map fun e => e.2.1) = [[], [.deliver "d" .invite none],
      [.deliver "e" .invite "s"], [.forwardAnswer "e"]])
    (by decide) (by decide)
  exact ⟨tr, s, h, of_decide_eq_true hs, (relays_agree h).1⟩

/-- An invite addressed to a bound device: one relay delivers it, the other
holds it. -/
theorem device_invite_differs : ∃ tr s, pair.RunWhere LegalPair (.new {}, .new {}) tr s ∧
      ∃ e ∈ tr, e.2.1 = [.deliver "d" .invite none] ∧ e.2.2 = [.queue "d" .invite] := by
  obtain ⟨tr, s, h, hs⟩ := TSys.exec?_runWhere pairStep LegalPair
    (fun s => ∃ ctx, s = (.new ctx, .new ctx)) (.new {}, .new {})
    [.bind "d" "bob", .recv { type := .invite, id := "s", sender := "alice", dest := some "d" }]
    (fun r => ∃ e ∈ r.1, e.2.1 = [.deliver "d" .invite none] ∧ e.2.2 = [.queue "d" .invite])
    (by decide) (by decide)
  exact ⟨tr, s, h, of_decide_eq_true hs⟩

end Relay

end Dsip.Routing
