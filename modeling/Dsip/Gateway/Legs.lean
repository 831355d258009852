import Dsip.Gateway.Call

/-!
# How a call should end

`Proper` is what a run of a call should be: its DSIP leg ends once and for all,
the media is up exactly while that leg is active, and neither leg is left alone.
It is read off the legs and an account of what went out.

A step that keeps the run proper is `Orderly`, a condition on that step alone:
`proper_snoc`. `proper_iff_of_orderly` is the rule for the runs of a controller
whose orderly steps are known.
-/

namespace Dsip.Gateway

open Dsip.Lib

structure Legs where
  dsip : DsipLeg
  sip : SipLeg
  deriving DecidableEq, Repr

/-! ## What went out -/

/-- How often the media was bridged, whether it is bridged and not released, and
whether a CANCEL or BYE went out. -/
structure Account where
  bridges : Nat := 0
  up : Bool := false
  torn : Bool := false
  deriving DecidableEq, Repr

/-- The account after one more emission. -/
def Account.note (a : Account) : Emit → Account
  | .bridge => { a with bridges := a.bridges + 1, up := true }
  | .release => { a with up := false }
  | .sip .cancel | .sip (.bye _ _) => { a with torn := true }
  | _ => a

def Account.add (a : Account) (out : List Emit) : Account := out.foldl Account.note a

@[simp] theorem Account.add_nil (a : Account) : a.add [] = a := rfl

@[simp] theorem Account.add_cons (a : Account) (e : Emit) (out : List Emit) :
    a.add (e :: out) = (a.note e).add out := rfl

theorem Account.add_append (a : Account) (out out' : List Emit) :
    a.add (out ++ out') = (a.add out).add out' := List.foldl_append

/-- An accept, a 200 to the INVITE, or a bridge. -/
def Emit.answers : Emit → Bool
  | .dsip .accept | .sip (.answer _) | .bridge => true
  | _ => false

/-! ## The invite -/

def Event.Invites : Event → Prop
  | .dsip .invite | .sip (.invite _ _ _) => True
  | _ => False

/-- The invite that begins a call in a direction. -/
def Event.Opens : Direction → Event → Prop
  | .outbound, .dsip .invite | .inbound, .sip (.invite _ _ _) => True
  | _, _ => False

/-! ## Legs and account -/

/-- How the legs, the account and the mark of an answer hang together. -/
structure Settled (l : Legs) (answered : Bool) (a : Account) : Prop where
  bridges : a.bridges = if answered then 1 else 0
  up : a.up = true ↔ l.dsip = .active
  active : l.dsip = .active → answered = true
  answered : answered = true → l.dsip = .active ∨ l.dsip = .ended
  sipTold : l.dsip = .ended → l.sip = .terminated ∨ a.torn = true
  dsipTold : l.sip = .terminated → l.dsip = .ended

section Settled

variable {l l' : Legs} {answered : Bool} {a a' : Account}

theorem Settled.keep (h : Settled l answered a) (hactive : l'.dsip = .active ↔ l.dsip = .active)
    (hended : l'.dsip = .ended ↔ l.dsip = .ended) (hbridges : a'.bridges = a.bridges)
    (hup : a'.up = a.up) (hsip : l'.dsip = .ended → l'.sip = .terminated ∨ a'.torn = true)
    (hdsip : l'.sip = .terminated → l'.dsip = .ended) : Settled l' answered a' where
  bridges := hbridges.trans h.bridges
  up := by rw [hup, h.up, hactive]
  active hl := h.active (hactive.mp hl)
  answered ha := (h.answered ha).imp hactive.mpr hended.mpr
  sipTold := hsip
  dsipTold := hdsip

theorem Settled.answer (h : Settled l answered a) (hopen : l.dsip ≠ .active ∧ l.dsip ≠ .ended)
    (hactive : l'.dsip = .active) (hsip : l'.sip ≠ .terminated)
    (hbridges : a'.bridges = a.bridges + 1) (hup : a'.up = true) : Settled l' true a' where
  bridges := by
    have hunanswered : answered = false := by
      rw [← Bool.not_eq_true]
      exact fun ha => (h.answered ha).elim hopen.1 hopen.2
    rw [hbridges, h.bridges, hunanswered]
    rfl
  up := iff_of_true hup hactive
  active _ := rfl
  answered _ := .inl hactive
  sipTold hl := by
    rw [hactive] at hl
    cases hl
  dsipTold hl := absurd hl hsip

theorem Settled.finish (h : Settled l answered a) (hended : l'.dsip = .ended)
    (hbridges : a'.bridges = a.bridges) (hup : a'.up = false)
    (hsip : l'.sip = .terminated ∨ a'.torn = true) : Settled l' answered a' where
  bridges := hbridges.trans h.bridges
  up := by simp [hup, hended]
  active hl := by
    rw [hended] at hl
    cases hl
  answered _ := .inr hended
  sipTold _ := hsip
  dsipTold _ := hended

theorem Settled.down (h : Settled l answered a) (hl : l.dsip ≠ .active) : a.up = false := by
  rw [← Bool.not_eq_true, h.up]
  exact hl

end Settled

/-! ## Runs -/

section Runs

variable {σ ι : Type} (legs : σ → Legs)

abbrev CallMove (σ ι : Type) := TSys.Move σ ι (List Emit)

def account (p : List (CallMove σ ι)) : Account := Account.add {} (p.flatMap (·.output))

theorem account_snoc (p : List (CallMove σ ι)) (m : CallMove σ ι) :
    account (p ++ [m]) = (account p).add m.output := by
  unfold account
  rw [List.flatMap_append, Account.add_append]
  simp

/-- A run in order: an ended DSIP leg stays so, and nothing answers after it; the
media is bridged once at most, and is up exactly while the DSIP leg is active;
where one leg is over the other is, or is told. -/
structure Proper (p : List (CallMove σ ι)) (s : σ) : Prop where
  endsOnce : ∀ m ∈ p, (legs m.before).dsip = .ended →
    (legs m.after).dsip = .ended ∧ ∀ e ∈ m.output, e.answers = false
  bridgedOnce : (account p).bridges ≤ 1
  up : (account p).up = true ↔ (legs s).dsip = .active
  sipTold : (legs s).dsip = .ended → (legs s).sip = .terminated ∨ (account p).torn = true
  dsipTold : (legs s).sip = .terminated → (legs s).dsip = .ended

/-- A step that keeps a run in order, `a` being the account so far. -/
structure Orderly (a : Account) (before : Legs) (out : List Emit) (after : Legs) : Prop where
  endsOnce : before.dsip = .ended → after.dsip = .ended ∧ ∀ e ∈ out, e.answers = false
  bridgedOnce : (a.add out).bridges ≤ 1
  up : (a.add out).up = true ↔ after.dsip = .active
  sipTold : after.dsip = .ended → after.sip = .terminated ∨ (a.add out).torn = true
  dsipTold : after.sip = .terminated → after.dsip = .ended

theorem Settled.orderly {a : Account} {before after : Legs} {out : List Emit} {answered : Bool}
    (h : Settled after answered (a.add out))
    (hends : before.dsip = .ended → after.dsip = .ended ∧ ∀ e ∈ out, e.answers = false) :
    Orderly a before out after where
  endsOnce := hends
  bridgedOnce := by
    rw [h.bridges]
    split <;> omega
  up := h.up
  sipTold := h.sipTold
  dsipTold := h.dsipTold

variable {legs}

theorem proper_snoc {p : List (CallMove σ ι)} {m : CallMove σ ι}
    (h : ∀ m' ∈ p, (legs m'.before).dsip = .ended →
      (legs m'.after).dsip = .ended ∧ ∀ e ∈ m'.output, e.answers = false) : Proper legs (p ++ [m]) m.after ↔
      Orderly (account p) (legs m.before) m.output (legs m.after) := by
  constructor
  · intro hp
    have haccount := account_snoc p m
    refine ⟨hp.endsOnce m List.mem_concat_self, ?_, ?_, ?_, hp.dsipTold⟩
    · rw [← haccount]
      exact hp.bridgedOnce
    · rw [← haccount]
      exact hp.up
    · rw [← haccount]
      exact hp.sipTold
  · intro ho
    refine ⟨?_, ?_, ?_, ?_, ho.dsipTold⟩
    · intro m' hm'
      rcases List.mem_append.mp hm' with hm' | hm'
      · exact h m' hm'
      · rw [List.mem_singleton.mp hm']
        exact ho.endsOnce
    · rw [account_snoc]
      exact ho.bridgedOnce
    · rw [account_snoc]
      exact ho.up
    · rw [account_snoc]
      exact ho.sipTold

/-- Every state of a run is one of a run in order. -/
def ProperThroughout (legs : σ → Legs) (p : List (CallMove σ ι)) : Prop :=
  ∀ p₁ m p₂, p = p₁ ++ m :: p₂ → Proper legs (p₁ ++ [m]) m.after

/-- No step of a run is astray. -/
def NeverAstray (Astray : σ → Account → ι → Prop) (p : List (CallMove σ ι)) : Prop :=
  ∀ p₁ m p₂, p = p₁ ++ m :: p₂ → ¬ Astray m.before (account p₁) m.input

theorem forall_splits_snoc {α : Type} {P : List α → α → Prop} {p : List α} {m : α} :
    (∀ p₁ m' p₂, p ++ [m] = p₁ ++ m' :: p₂ → P p₁ m') ↔
      (∀ p₁ m' p₂, p = p₁ ++ m' :: p₂ → P p₁ m') ∧ P p m := by
  constructor
  · intro h
    refine ⟨fun p₁ m' p₂ hp => h p₁ m' (p₂ ++ [m]) ?_, h p m [] rfl⟩
    rw [hp, List.append_assoc, List.cons_append]
  · rintro ⟨h, hm⟩ p₁ m' p₂ hp
    rcases List.eq_nil_or_concat p₂ with rfl | ⟨q, x, rfl⟩
    · obtain ⟨rfl, hx⟩ := List.append_inj' hp rfl
      obtain rfl := List.head_eq_of_cons_eq hx
      exact hm
    · rw [List.concat_eq_append, ← List.cons_append, ← List.append_assoc] at hp
      exact h p₁ m' q (List.append_inj' hp rfl).1

theorem properThroughout_snoc {p : List (CallMove σ ι)} {m : CallMove σ ι} :
    ProperThroughout legs (p ++ [m]) ↔ ProperThroughout legs p ∧ Proper legs (p ++ [m]) m.after :=
  forall_splits_snoc (P := fun p₁ m' => Proper legs (p₁ ++ [m']) m'.after)

theorem neverAstray_snoc {Astray : σ → Account → ι → Prop} {p : List (CallMove σ ι)}
    {m : CallMove σ ι} : NeverAstray Astray (p ++ [m]) ↔
      NeverAstray Astray p ∧ ¬ Astray m.before (account p) m.input :=
  forall_splits_snoc
    (P := fun p₁ (m' : CallMove σ ι) => ¬ Astray m'.before (account p₁) m'.input)

theorem ProperThroughout.endsOnce {p : List (CallMove σ ι)} (h : ProperThroughout legs p) :
    ∀ m ∈ p, (legs m.before).dsip = .ended →
      (legs m.after).dsip = .ended ∧ ∀ e ∈ m.output, e.answers = false := by
  intro m hm
  obtain ⟨p₁, p₂, hsplit⟩ := List.append_of_mem hm
  exact (h p₁ m p₂ hsplit).endsOnce m List.mem_concat_self

section Rule

variable {M : TSys σ ι (List Emit)} (Inv : σ → Account → Prop)
  {Astray : σ → Account → ι → Prop} {Opens Invites : ι → Prop} {s₀ : σ}

/-- The rule for the runs of a controller, from the one invite on: they are in
order as long as no step is astray, when that is so of each step. -/
theorem proper_iff_of_orderly
    (hopen : ∀ i o s, Opens i → M.step s₀ i o s →
      Orderly {} (legs s₀) o (legs s) ∧ ¬ Astray s₀ {} i ∧ Inv s (Account.add {} o))
    (hstep : ∀ s a i o s', Inv s a → ¬ Invites i → M.step s i o s' →
      (Orderly a (legs s) o (legs s') ↔ ¬ Astray s a i) ∧ (¬ Astray s a i → Inv s' (a.add o)))
    {m : CallMove σ ι} {p : List (CallMove σ ι)} {s : σ} (h : M.Path s₀ (m :: p) s)
    (hfirst : Opens m.input) (hrest : ∀ m' ∈ p, ¬ Invites m'.input) :
    (ProperThroughout legs (m :: p) ↔ NeverAstray Astray (m :: p)) ∧
      (NeverAstray Astray (m :: p) → Inv s (account (m :: p))) := by
  obtain ⟨rfl, hs, hp⟩ := h.uncons
  obtain ⟨horderly, hno, hinv⟩ := hopen m.input m.output m.after hfirst hs
  clear h
  induction hp with
  | nil =>
    have haccount : account [m] = Account.add {} m.output := account_snoc [] m
    have hnil : ∀ {P : List (CallMove σ ι) → CallMove σ ι → Prop} p₁ m' p₂,
        [] = p₁ ++ m' :: p₂ → P p₁ m' := fun p₁ m' p₂ h => absurd h (by simp)
    refine ⟨iff_of_true ?_ ?_, fun _ => haccount ▸ hinv⟩
    · refine (properThroughout_snoc (p := [])).mpr ⟨hnil, ?_⟩
      exact (proper_snoc fun _ hm' => absurd hm' List.not_mem_nil).mpr horderly
    · exact (neverAstray_snoc (p := [])).mpr ⟨hnil, hno⟩
  | @snoc p t i o s' hp hs' ih =>
    obtain ⟨hiff, hgood⟩ := ih fun m' hm' => hrest m' (List.mem_append_left _ hm')
    have hnew : ¬ Invites i := hrest _ List.mem_concat_self
    rw [← List.cons_append, properThroughout_snoc, neverAstray_snoc]
    constructor
    · constructor
      · rintro ⟨hall, hlast⟩
        have hnever := hiff.mp hall
        have horderly := (proper_snoc hall.endsOnce).mp hlast
        exact ⟨hnever, (hstep t _ i o s' (hgood hnever) hnew hs').1.mp horderly⟩
      · rintro ⟨hnever, hlast⟩
        have hall := hiff.mpr hnever
        have horderly := (hstep t _ i o s' (hgood hnever) hnew hs').1.mpr hlast
        exact ⟨hall, (proper_snoc hall.endsOnce).mpr horderly⟩
    · rintro ⟨hnever, hlast⟩
      rw [account_snoc]
      exact (hstep t _ i o s' (hgood hnever) hnew hs').2 hlast

end Rule

end Runs

end Dsip.Gateway
