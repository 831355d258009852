import Dsip.Broadcast.Authority
import Dsip.Registry

/-!
# The subscriber

A subscriber keeps its subscriptions and takes each `notify` whose `seq` is above
the last one it saw, until one is terminal.

`takesAll_of_inOrder` — notices with the seqs 1, 2, 3, … and nothing after a
terminal one are all taken, whatever else is received between them.
-/

namespace Dsip.Broadcast

open Dsip.Lib Dsip.Registry

inductive HeldState where
  | pending
  | active
  | lapsed
  | rejected
  | terminated
  deriving DecidableEq, Repr

/-- A subscription as its subscriber keeps it. -/
structure Held where
  target : String
  events : List String
  state : HeldState := .pending
  seq : Nat := 0
  expiresAt : Nat
  deriving DecidableEq, Repr

inductive ToSubscriber where
  | reject (session : Option String) (reason : String)
  | notify (subscription : String) (seq : Nat) (state : NotifyState) (reason : Option String)
      (body : Option Body)
  | other (type : String)
  deriving DecidableEq, Repr

/-- A notice as it is received. -/
def Notice.message (n : Notice) (sid : String) : ToSubscriber :=
  .notify sid n.seq n.state n.reason (some n.body)

inductive SubscriberEvent where
  | advance (n : Nat)
  | subscribe (authority id target : String) (events : List String) (expiresIn : Nat)
  | recv (m : ToSubscriber)
  deriving DecidableEq, Repr

inductive SubscriberEmit where
  | subscribe (authority id target : String) (events : List String) (expiresIn : Nat)
  | drop (reason : String)
  | lapsed (subscription : String)
  | rejected (reason : String)
  | terminated (reason : Option String)
  | notify (event state : Option String)
  deriving DecidableEq, Repr

def Body.event : Body → String
  | .presence .. => "presence"
  | .publication .. => "publication"

def Body.state : Body → String
  | .presence state _ => state
  | .publication state _ _ => state

structure Subscriber where
  now : Nat
  subs : Dict String Held

namespace Subscriber

def init (start : Nat) : Subscriber where
  now := start
  subs := ∅

variable (t : Subscriber)

/-- What becomes of a subscription when time passes. -/
def lapse (now : Nat) (sid : String) (h : Held) : Held × List SubscriberEmit :=
  if h.state = .active ∧ h.expiresAt ≤ now then ({ h with state := .lapsed }, [.lapsed sid])
  else (h, [])

def advance (n : Nat) : Subscriber × List SubscriberEmit :=
  let (subs, out) := sweep (lapse (t.now + n)) t.subs
  (⟨t.now + n, subs⟩, out)

/-- Change the entry of a subscription. -/
def set (sid : String) (h : Held) : Subscriber := { t with subs := t.subs.insert sid h }

def recv : ToSubscriber → Subscriber × List SubscriberEmit
  | .reject session reason =>
    match session.bind fun sid => (t.subs.lookup sid).map (sid, ·) with
    | none => (t, [.drop "unknown-subscription"])
    | some (sid, h) =>
      (t.set sid { h with state := .rejected }, [.rejected (resolveReason reason .reject).effective])
  | .notify sid seq state reason body =>
    match t.subs.lookup sid with
    | none => (t, [.drop "unknown-subscription"])
    | some h =>
      if h.state = .terminated ∨ h.state = .rejected then
        (t, [.drop "terminated-subscription"])
      else if seq ≤ h.seq then (t, [.drop "stale-seq"])
      else
        match state with
        | .terminated =>
          (t.set sid { h with seq := seq, state := .terminated }, [.terminated reason])
        | .active =>
          (t.set sid { h with seq := seq, state := .active },
            [.notify (body.map (·.event)) (body.map (·.state))])
  | .other _ => (t, [.drop "not-subscription"])

def step : SubscriberEvent → Subscriber × List SubscriberEmit
  | .advance n => t.advance n
  | .subscribe authority id target events expiresIn =>
    (t.set id { target := target, events := events, expiresAt := t.now + expiresIn },
      [.subscribe authority id target events expiresIn])
  | .recv m => t.recv m

def machine (start : Nat) : TSys Subscriber SubscriberEvent (List SubscriberEmit) :=
  TSys.ofTotal (· = init start) step

end Subscriber

/-! ## Notices in order -/

/-- The seqs count from 1, and nothing follows a terminal `notify`. -/
structure InOrder (l : List Notice) : Prop where
  seqs : l.map (·.seq) = List.range' 1 l.length
  active : ∀ n ∈ l.dropLast, n.state = .active

variable {l : List Notice}

theorem InOrder.next {l₁ l₂ : List Notice} {n : Notice} (h : InOrder l) (hl : l = l₁ ++ n :: l₂) :
    n.seq = l₁.length + 1 ∧ ∀ n' ∈ l₁, n'.state = .active := by
  subst hl
  constructor
  · have hget := congrArg (·[l₁.length]?) h.seqs
    simp only [List.map_append, List.map_cons, List.length_append, List.length_cons] at hget
    rw [List.getElem?_append_right (by simp), List.getElem?_range' (by omega)] at hget
    simp at hget
    omega
  · intro n' hn'
    refine h.active n' ?_
    rw [List.dropLast_append_of_ne_nil (List.cons_ne_nil n l₂)]
    exact List.mem_append_left _ hn'

theorem InOrder.snoc {n : Notice} (h : InOrder l) (hseq : n.seq = l.length + 1)
    (hactive : ∀ n' ∈ l, n'.state = .active) : InOrder (l ++ [n]) where
  seqs := by
    rw [List.map_append, h.seqs, List.length_append, List.map_singleton, List.length_singleton,
      List.range'_concat, hseq, Nat.one_mul, Nat.add_comm]
  active := by
    rw [List.dropLast_concat]
    exact hactive

/-- What a subscriber says of a notice it takes. -/
def Notice.shown (n : Notice) : List SubscriberEmit :=
  match n.state with
  | .terminated => [.terminated n.reason]
  | .active => [.notify (some n.body.event) (some n.body.state)]

namespace Subscriber

variable {t t' : Subscriber} {sid : String}

/-- The message of an event that is a `notify` of the subscription. -/
def heardIn (sid : String) : SubscriberEvent → List ToSubscriber
  | .recv (.notify i seq state reason body) =>
    if i = sid then [.notify i seq state reason body] else []
  | _ => []

/-- The `notify`s of the subscription in a run. -/
def heard (sid : String) (tr : TSys.Trace SubscriberEvent (List SubscriberEmit)) : List ToSubscriber :=
  tr.flatMap fun e => heardIn sid e.1

/-- The subscriber asks for the subscription anew. -/
def Resets (sid : String) : SubscriberEvent → Prop
  | .subscribe _ id _ _ _ => id = sid
  | _ => False

/-- A `reject` of the subscription was received. -/
def Rejected (t : Subscriber) (sid : String) : Prop := (t.subs.lookup sid).any (·.state = .rejected)

instance : Decidable (t.Rejected sid) := inferInstanceAs (Decidable (_ = true))

/-- The subscription has taken these notices, unless it was rejected. -/
def Took (t : Subscriber) (sid : String) (l : List Notice) : Prop :=
  ∃ h, t.subs.lookup sid = some h ∧ (h.state ≠ .rejected → h.seq = l.length ∧
    (h.state = .terminated → ∃ n ∈ l, n.state = .terminated))

theorem Took.of_lookup (h : t.Took sid l)
    (hsame : t'.subs.lookup sid = t.subs.lookup sid) : t'.Took sid l := by
  unfold Took
  rw [hsame]
  exact h

theorem lookup_set_ne {i : String} (hi : sid ≠ i) (h : Held) :
    (t.set i h).subs.lookup sid = t.subs.lookup sid := AList.lookup_insert_ne hi

theorem Took.recv (h : t.Took sid l) {n : Notice} (hseq : n.seq = l.length + 1)
    (hactive : ∀ n' ∈ l, n'.state = .active) : (t.recv (n.message sid)).1.Took sid (l ++ [n]) ∧
      (t.recv (n.message sid)).2 =
        if t.Rejected sid then [.drop "terminated-subscription"] else n.shown := by
  obtain ⟨held, hlookup, htook⟩ := h
  unfold Notice.message Notice.shown Subscriber.recv Rejected
  by_cases hrejected : held.state = .rejected
  · have hclosed : held.state = .terminated ∨ held.state = .rejected := .inr hrejected
    simp only [hlookup, if_pos hclosed]
    exact ⟨⟨held, hlookup, fun h => absurd hrejected h⟩, by simp [hrejected]⟩
  · obtain ⟨hlen, hterminated⟩ := htook hrejected
    have hopen : ¬ (held.state = .terminated ∨ held.state = .rejected) := by
      rintro (hst | hst)
      · obtain ⟨n', hn', hn'st⟩ := hterminated hst
        exact absurd ((hactive n' hn').symm.trans hn'st) (by decide)
      · exact hrejected hst
    have hfresh : ¬ n.seq ≤ held.seq := by omega
    simp only [hlookup, if_neg hopen, if_neg hfresh]
    cases hst : n.state with
    | active =>
      refine ⟨⟨_, AList.lookup_insert _, fun _ => ⟨by simp [hseq], by simp⟩⟩, ?_⟩
      simp [hrejected]
    | terminated =>
      refine ⟨⟨_, AList.lookup_insert _, fun _ => ⟨by simp [hseq], by simp [hst]⟩⟩, ?_⟩
      simp [hrejected]

theorem Took.advance (h : t.Took sid l) (n : Nat) : (t.advance n).1.Took sid l := by
  obtain ⟨held, hlookup, htook⟩ := h
  have hswept := (sweep_spec (lapse (t.now + n)) t.subs).1 sid
  rw [hlookup, Option.map_some] at hswept
  refine ⟨_, hswept, ?_⟩
  unfold lapse
  split
  case isTrue hlapsed =>
    have hopen : held.state ≠ .rejected := by
      rw [hlapsed.1]
      decide
    exact fun _ => ⟨(htook hopen).1, by simp⟩
  case isFalse => exact htook

theorem Took.reject (h : t.Took sid l) (session : Option String)
    (reason : String) : (t.recv (.reject session reason)).1.Took sid l := by
  unfold Subscriber.recv
  dsimp only
  split
  · exact h
  case h_2 i held hi =>
    by_cases hsid : sid = i
    · subst hsid
      exact ⟨_, AList.lookup_insert _, fun hst => absurd rfl hst⟩
    · exact h.of_lookup (lookup_set_ne hsid _)

theorem Took.recv_other (h : t.Took sid l) {i : String} (hi : sid ≠ i) (seq : Nat)
    (state : NotifyState) (reason : Option String) (body : Option Body) :
    (t.recv (.notify i seq state reason body)).1.Took sid l := by
  unfold Subscriber.recv
  dsimp only
  split
  · exact h
  split
  · exact h
  split
  · exact h
  split
  · exact h.of_lookup (lookup_set_ne hi _)
  · exact h.of_lookup (lookup_set_ne hi _)

theorem took_heard {start : Nat} (hl : InOrder l) {t₀ : Subscriber} {h : Held}
    (h₀ : t₀.subs.lookup sid = some h) (hstate : h.state = .pending) (hseq : h.seq = 0)
    {tr : TSys.Trace SubscriberEvent (List SubscriberEmit)}
    (hrun : (machine start).RunWhere (fun _ _ ev => ¬ Resets sid ev) t₀ tr t) :
    ∀ l₁ l₂, l = l₁ ++ l₂ → heard sid tr = l₁.map (·.message sid) → t.Took sid l₁ := by
  refine TSys.RunWhere.invariant
    (P := fun tr t => ∀ l₁ l₂, l = l₁ ++ l₂ → heard sid tr = l₁.map (·.message sid) →
      t.Took sid l₁) ?_ ?_ hrun
  · intro l₁ l₂ _ hheard
    obtain rfl : l₁ = [] := List.map_eq_nil_iff.mp hheard.symm
    exact ⟨h, h₀, fun _ => ⟨hseq, by simp [hstate]⟩⟩
  · intro tr t ev out t' _ ih hresets hstep l₁ l₂ hsplit hheard
    obtain rfl : (t.step ev).1 = t' := congrArg Prod.fst hstep
    have hheard' : heard sid tr ++ heardIn sid ev = l₁.map (·.message sid) := by
      rw [← hheard]
      simp [heard]
    cases ev with
    | advance n =>
      have hnone : heardIn sid (.advance n) = [] := rfl
      rw [hnone, List.append_nil] at hheard'
      exact (ih l₁ l₂ hsplit hheard').advance n
    | subscribe authority id target events expiresIn =>
      have hnone : heardIn sid (.subscribe authority id target events expiresIn) = [] := rfl
      rw [hnone, List.append_nil] at hheard'
      exact (ih l₁ l₂ hsplit hheard').of_lookup (lookup_set_ne (Ne.symm hresets) _)
    | recv m =>
      cases m with
      | other type =>
        have hnone : heardIn sid (.recv (.other type)) = [] := rfl
        rw [hnone, List.append_nil] at hheard'
        exact ih l₁ l₂ hsplit hheard'
      | reject session reason =>
        have hnone : heardIn sid (.recv (.reject session reason)) = [] := rfl
        rw [hnone, List.append_nil] at hheard'
        exact (ih l₁ l₂ hsplit hheard').reject session reason
      | notify i seq state reason body =>
        simp only [heardIn] at hheard'
        by_cases hi : i = sid
        · subst hi
          rw [if_pos rfl] at hheard'
          obtain ⟨l₀, last, rfl, hheard₀, hlast⟩ := List.map_eq_append_iff.mp hheard'.symm
          obtain ⟨n, rfl, hn⟩ := List.map_eq_singleton_iff.mp hlast
          obtain ⟨hnext, hactive⟩ := @InOrder.next l l₀ l₂ n hl (by simpa using hsplit)
          rw [← hn]
          exact ((ih l₀ (n :: l₂) (by simpa using hsplit) hheard₀.symm).recv hnext hactive).1
        · rw [if_neg hi, List.append_nil] at hheard'
          exact (ih l₁ l₂ hsplit hheard').recv_other (Ne.symm hi) seq state reason body

/-- A subscriber to which the subscription is new, sent these notices in order,
takes each of them, whatever else it receives in between; only a `reject` of the
subscription closes it to them. -/
def TakesAll (sid : String) (l : List Notice) : Prop :=
  ∀ (start : Nat) (t₀ : Subscriber) (h : Held), t₀.subs.lookup sid = some h → h.state = .pending →
    h.seq = 0 → ∀ tr t, (machine start).RunWhere (fun _ _ ev => ¬ Resets sid ev) t₀ tr t →
      ∀ l₁ n l₂, l = l₁ ++ n :: l₂ → heard sid tr = l₁.map (·.message sid) →
        (t.step (.recv (n.message sid))).2 =
          if t.Rejected sid then [.drop "terminated-subscription"] else n.shown

theorem takesAll_of_inOrder (hl : InOrder l) : TakesAll sid l := by
  intro start t₀ h h₀ hstate hseq tr t hrun l₁ n l₂ hsplit hheard
  obtain ⟨hnext, hactive⟩ := hl.next hsplit
  exact ((took_heard hl h₀ hstate hseq hrun l₁ _ hsplit hheard).recv hnext hactive).2

end Subscriber

end Dsip.Broadcast
