import Dsip.Engine.KeyMoves

/-!
# Runs of the presence keys

`CutOff` says what a run gives a former grantee, `cutOff_of_path` that every run
gives it. A move is found where the path splits (`At`), and what is due at a move
is followed from there to the end.
-/

namespace Dsip.Engine

open Dsip.Lib Contacts

abbrev KeyMoves := List (TSys.Move Clocked KeyAct (List ContactEmit))

/-- The key of a scope in a grant message that has not run out goes to the grantee
of a live grant with it. -/
def Justified (s : Clocked) (x : ContactEmit) : Prop :=
  ∀ grantee session gid scope validUntil audience kids,
    x = .sendGrant grantee session gid scope validUntil audience (some kids) →
    s.now < validUntil → ∀ k e, keyId k e ∈ kids →
    ∃ id g, s.contacts.grantsIssued.lookup id = some g ∧ g.grantee = grantee ∧
      s.now < g.validUntil ∧ k ∈ g.keys

/-- What a run gives a former grantee. The path ends in `u`. -/
structure CutOff (rate : Nat) (p : KeyMoves) (u : Clocked) : Prop where
  justified : ∀ m ∈ p, ∀ x ∈ m.output, Justified m.after x
  /-- What has ended is not live. -/
  gone : ∀ m ∈ p, ∀ gid k, Ends m.before gid k m.input → ∀ g,
    m.after.contacts.grantsIssued.lookup gid = some g → g.validUntil ≤ m.after.now
  /-- A grant ends no later than it runs out. -/
  onTime : ∀ m ∈ p, ∀ gid g, m.before.contacts.grantsIssued.lookup gid = some g →
    GrantIssued.Running g → m.after.now ≤ max m.before.now g.validUntil
  /-- A grant with a key ends, or is followed by one with the key. -/
  continued : ∀ m ∈ p, ∀ gid g k, m.before.contacts.grantsIssued.lookup gid = some g →
    g.ended = false → k ∈ g.keys → Ends m.before gid k m.input ∨
      ∃ id g', m.after.contacts.grantsIssued.lookup id = some g' ∧ g'.ended = false ∧
        g'.grantee = g.grantee ∧ k ∈ g'.keys
  /-- The key of a grant that ends rotates in time. -/
  inTime : ∀ p₁ m p₂, p = p₁ ++ m :: p₂ → ∀ gid k, Ends m.before gid k m.input →
    (∃ m' ∈ m :: p₂, Rotates m'.output k ∧ m'.after.now ≤ m.after.now + rate) ∨ u.now < m.after.now + rate
  /-- It rotates at once if it has not rotated lately. -/
  atOnce : ∀ p₁ m p₂, p = p₁ ++ m :: p₂ → ∀ gid k, Ends m.before gid k m.input →
    (∀ m' ∈ p₁, Rotates m'.output k → m'.after.now + rate ≤ m.after.now) → Rotates m.output k
  spaced : ∀ p₁ m p₂, p = p₁ ++ m :: p₂ → ∀ m' ∈ p₂, ∀ k, Rotates m.output k →
    Rotates m'.output k → m.after.now + rate ≤ m'.after.now
  once : ∀ m ∈ p, ((rotations m.output).map Prod.fst).Nodup
  /-- A rotation is to a higher epoch. -/
  higher : ∀ m ∈ p, ∀ k e, (k, e) ∈ rotations m.output →
    (∀ old, m.before.contacts.epochs.lookup k = some old → old < e) ∧
    m.after.contacts.epochs.lookup k = some e
  epochs : ∀ p₁ m p₂, p = p₁ ++ m :: p₂ → ∀ k e, m.before.contacts.epochs.lookup k = some e →
    ∃ e', u.contacts.epochs.lookup k = some e' ∧ e ≤ e'
  /-- A live grant with a key that rotates is followed by one with the new key. -/
  regranted : ∀ m ∈ p, ∀ k, Rotates m.output k → ∀ gid g,
    m.before.contacts.grantsIssued.lookup gid = some g → m.after.now < g.validUntil → k ∈ g.keys →
    Withdraws gid m.input ∨ ∃ id kids epoch,
      .sendGrant g.grantee gid id g.scope g.validUntil g.audience (some kids) ∈ m.output ∧
        m.after.contacts.epochs.lookup k = some epoch ∧ keyId k epoch ∈ kids
  /-- Every live grant with it has been sent with the new key. -/
  current : ∀ m ∈ p, ∀ k, Rotates m.output k → ∀ id g,
    m.after.contacts.grantsIssued.lookup id = some g → m.after.now < g.validUntil → k ∈ g.keys →
    SentWith m.after.contacts m.output id g k

/-- The moves so far, as the rate limit sees them. -/
structure KeyLog (rate : Nat) (p : KeyMoves) (s : Clocked) : Prop where
  inv : KeyInv s
  rate : s.contacts.tRotate = rate
  recorded : ∀ m ∈ p, ∀ k, Rotates m.output k →
    ∃ last, s.contacts.lastRotated.lookup k = some last ∧ m.after.now ≤ last
  honest : ∀ k last, s.contacts.lastRotated.lookup k = some last →
    ∃ m ∈ p, Rotates m.output k ∧ m.after.now = last

section Run

variable {rate : Nat} {s u : Clocked} {p p₁ p₂ : KeyMoves}
  {m : TSys.Move Clocked KeyAct (List ContactEmit)}

theorem KeyInv.of_init (hi : keyMachine.init s) (hpool : s.contacts.grantIds.Nodup) : KeyInv s := by
  obtain ⟨hissued, hdue, hlast⟩ := hi
  have hempty : ∀ {β : Type} (k : String) (b : β), (∅ : Dict String β).lookup k ≠ some b :=
    fun k b => by simp
  refine ⟨⟨?_, ?_, hpool, ?_⟩, ?_, ?_, ?_⟩
  · intro gid g hg
    rw [hissued] at hg
    exact absurd hg (hempty gid g)
  · intro gid g hg
    rw [hissued] at hg
    exact absurd hg (hempty gid g)
  · intro id _
    rw [hissued]
    exact AList.notMem_empty id
  · intro k at' hd
    rw [hdue] at hd
    exact absurd hd (hempty k at')
  · intro k last hl
    rw [hlast] at hl
    exact absurd hl (hempty k last)
  · intro gid g hg
    rw [hissued] at hg
    exact absurd hg (hempty gid g)

theorem KeyLog.of_init (hi : keyMachine.init s) (hpool : s.contacts.grantIds.Nodup) :
    KeyLog s.contacts.tRotate [] s where
  inv := .of_init hi hpool
  rate := rfl
  recorded m hm := absurd hm List.not_mem_nil
  honest k last hl := by
    rw [hi.2.2] at hl
    exact absurd hl (by simp)

theorem KeyLog.snoc (h : KeyLog rate p m.before)
    (hm : MoveSpec m.before m.input m.output m.after) : KeyLog rate (p ++ [m]) m.after := by
  have hturn := hm.turn
  have hrotated : ∀ k, Rotates m.output k → m.after.contacts.lastRotated.lookup k = some m.after.now := by
    rintro k ⟨epoch, hk⟩
    exact (hturn.rotated k epoch hk).2.2.1
  refine ⟨hm.inv, hturn.rate.trans h.rate, ?_, ?_⟩
  · intro m' hm' k hk
    rcases List.mem_append.mp hm' with hold | hnew
    · obtain ⟨last, hl, hle⟩ := h.recorded m' hold k hk
      by_cases hr : Rotates m.output k
      · exact ⟨_, hrotated k hr, hle.trans ((h.inv.past k last hl).trans hturn.clock)⟩
      · exact ⟨last, ((hturn.unrotated k hr).1).trans hl, hle⟩
    · obtain rfl := List.mem_singleton.mp hnew
      exact ⟨_, hrotated k hk, le_rfl⟩
  · intro k last hl
    by_cases hr : Rotates m.output k
    · rw [hrotated k hr] at hl
      exact ⟨m, List.mem_append_right _ List.mem_cons_self, hr, Option.some.inj hl⟩
    · rw [(hturn.unrotated k hr).1] at hl
      obtain ⟨m', hm', hk, he⟩ := h.honest k last hl
      exact ⟨m', List.mem_append_left _ hm', hk, he⟩

theorem KeyLog.of_path {q : KeyMoves} (h : KeyLog rate q s) (hp : keyMachine.Path s p u)
    (hf : ∀ m ∈ p, FreshAct m.before m.input) : KeyLog rate (q ++ p) u := by
  induction hp with
  | nil =>
    rw [List.append_nil]
    exact h
  | @snoc p t act out t' hp hs ih =>
    have hlog := ih fun m hm => hf m (List.mem_append_left _ hm)
    have hspec := hlog.inv.move (hf _ (List.mem_append_right _ List.mem_cons_self)) hs
    rw [← List.append_assoc]
    exact hlog.snoc (m := ⟨t, act, out, t'⟩) hspec

/-- A move of a path, with what came before it. -/
structure At (rate : Nat) (p₁ : KeyMoves) (m : TSys.Move Clocked KeyAct (List ContactEmit)) : Prop where
  log : KeyLog rate p₁ m.before
  spec : MoveSpec m.before m.input m.output m.after

theorem At.of_path (h : KeyLog rate [] s) (hp : keyMachine.Path s (p₁ ++ m :: p₂) u)
    (hf : ∀ m' ∈ p₁ ++ m :: p₂, FreshAct m'.before m'.input) : At rate p₁ m := by
  obtain ⟨hbefore, hs, -⟩ := hp.split
  have hlog := h.of_path hbefore fun m' hm' => hf m' (List.mem_append_left _ hm')
  exact ⟨hlog, hlog.inv.move (hf m (List.mem_append_right _ List.mem_cons_self)) hs⟩

theorem due_of_path {k : String} {at' : Nat} (h : KeyLog rate p₁ s)
    (hd : s.contacts.due.lookup k = some at') (hp : keyMachine.Path s p₂ u)
    (hf : ∀ m ∈ p₂, FreshAct m.before m.input) :
    (∃ m ∈ p₂, Rotates m.output k ∧ m.after.now ≤ at') ∨ u.contacts.due.lookup k = some at' := by
  induction hp with
  | nil => exact .inr hd
  | @snoc p t act out t' hp hs ih =>
    have hfresh : ∀ m ∈ p, FreshAct m.before m.input :=
      fun m hm => hf m (List.mem_append_left _ hm)
    rcases ih hfresh with ⟨m, hm, hk, hle⟩ | hdue
    · exact .inl ⟨m, List.mem_append_left _ hm, hk, hle⟩
    · have hturn := ((h.of_path hp hfresh).inv.move
        (hf _ (List.mem_append_right _ List.mem_cons_self)) hs).turn
      by_cases hr : Rotates out k
      · exact .inl ⟨⟨t, act, out, t'⟩, List.mem_append_right _ List.mem_cons_self, hr,
          hturn.punctual k at' hdue⟩
      · exact .inr ((hturn.unrotated k hr).2 at' hdue)

theorem epochs_of_path {k : String} {e : Nat} (h : KeyLog rate p₁ s)
    (he : s.contacts.epochs.lookup k = some e) (hp : keyMachine.Path s p₂ u)
    (hf : ∀ m ∈ p₂, FreshAct m.before m.input) : ∃ e', u.contacts.epochs.lookup k = some e' ∧ e ≤ e' := by
  induction hp with
  | nil => exact ⟨e, he, le_rfl⟩
  | snoc hp hs ih =>
    have hfresh := fun m hm => hf m (List.mem_append_left _ hm)
    obtain ⟨e₁, he₁, hle⟩ := ih hfresh
    have hturn := ((h.of_path hp hfresh).inv.move
      (hf _ (List.mem_append_right _ List.mem_cons_self)) hs).turn
    obtain ⟨e₂, he₂, hle'⟩ := hturn.epochs k e₁ he₁
    exact ⟨e₂, he₂, hle.trans hle'⟩

theorem At.ends (h : At rate p₁ m) {gid k : String} (hends : Ends m.before gid k m.input) :
    Rotates m.output k ∨ ∃ last, m.after.contacts.due.lookup k = some (last + rate) ∧
      m.before.contacts.lastRotated.lookup k = some last ∧ last ≤ m.after.now ∧
      m.after.now < last + rate := by
  by_cases hr : Rotates m.output k
  · exact .inl hr
  · have hturn := h.spec.turn
    obtain ⟨at', hd⟩ := (hturn.marked k ⟨gid, hends⟩).resolve_left hr
    obtain ⟨hlt, last, hl, he⟩ := h.spec.inv.due k at' hd
    rw [hturn.rate, h.log.rate] at he
    subst he
    exact .inr ⟨last, hd, (hturn.unrotated k hr).1.symm.trans hl, h.spec.inv.past k last hl, hlt⟩

/-- **Every run cuts a former grantee off.** -/
theorem cutOff_of_path (hi : keyMachine.init s) (hpool : s.contacts.grantIds.Nodup)
    (hp : keyMachine.Path s p u) (hf : ∀ m ∈ p, FreshAct m.before m.input) :
    CutOff s.contacts.tRotate p u := by
  have hstart := KeyLog.of_init hi hpool
  have hat : ∀ {p₁ m p₂}, p = p₁ ++ m :: p₂ → At s.contacts.tRotate p₁ m := by
    rintro p₁ m p₂ rfl
    exact At.of_path hstart hp hf
  have hspec : ∀ m ∈ p, MoveSpec m.before m.input m.output m.after := by
    intro m hm
    obtain ⟨p₁, p₂, he⟩ := List.append_of_mem hm
    exact (hat he).spec
  -- the rest of the run, from a move on
  have hrest : ∀ {p₁ m p₂}, p = p₁ ++ m :: p₂ → keyMachine.Path m.after p₂ u ∧
      ∀ m' ∈ p₂, FreshAct m'.before m'.input := by
    rintro p₁ m p₂ rfl
    exact ⟨hp.split.2.2, fun m' hm' =>
      hf m' (List.mem_append_right _ (List.mem_cons_of_mem m hm'))⟩
  constructor
  · intro m hm x hx grantee session gid scope validUntil audience kids he hlive k e hk
    obtain ⟨id, g, hg, hgrantee, huntil, hkey⟩ :=
      (hspec m hm).backed x hx grantee session gid scope validUntil audience kids he k e hk
    exact ⟨id, g, hg, hgrantee, huntil ▸ hlive, hkey⟩
  · exact fun m hm => (hspec m hm).gone
  · exact fun m hm => (hspec m hm).onTime
  · exact fun m hm => (hspec m hm).continued
  · intro p₁ m p₂ he gid k hends
    rcases (hat he).ends hends with hr | ⟨last, hd, -, hle, -⟩
    · exact .inl ⟨m, List.mem_cons_self, hr, Nat.le_add_right _ _⟩
    · have hlog := (hat he).log.snoc (hat he).spec
      obtain ⟨hpath, hfresh⟩ := hrest he
      rcases due_of_path hlog hd hpath hfresh with ⟨m', hm', hk, hle'⟩ | hdue
      · refine .inl ⟨m', List.mem_cons_of_mem m hm', hk, ?_⟩
        omega
      · refine .inr ?_
        have hlt := ((hlog.of_path hpath hfresh).inv.due k _ hdue).1
        omega
  · intro p₁ m p₂ he gid k hends hlately
    rcases (hat he).ends hends with hr | ⟨last, -, hl, -, hlt⟩
    · exact hr
    · obtain ⟨m', hm', hk, rfl⟩ := (hat he).log.honest k last hl
      have := hlately m' hm' hk
      omega
  · rintro p₁ m p₂ he m' hm' k hk ⟨epoch, hk'⟩
    obtain ⟨q₁, q₂, rfl⟩ := List.append_of_mem hm'
    have hsplit : p = (p₁ ++ m :: q₁) ++ m' :: q₂ := by simp [he]
    have hat' := hat hsplit
    obtain ⟨last, hl, hle⟩ := hat'.log.recorded m (List.mem_append_right _ List.mem_cons_self) k hk
    have hspaced := (hat'.spec.turn.rotated k epoch hk').2.2.2 last hl
    rw [hat'.log.rate] at hspaced
    omega
  · exact fun m hm => (hspec m hm).turn.once
  · intro m hm k e hk
    obtain ⟨hhigher, hnew, -, -⟩ := (hspec m hm).turn.rotated k e hk
    exact ⟨hhigher, hnew⟩
  · intro p₁ m p₂ he k e hk
    obtain ⟨e₁, he₁, hle⟩ := (hat he).spec.turn.epochs k e hk
    obtain ⟨hpath, hfresh⟩ := hrest he
    obtain ⟨e₂, he₂, hle'⟩ := epochs_of_path ((hat he).log.snoc (hat he).spec) he₁ hpath hfresh
    exact ⟨e₂, he₂, hle.trans hle'⟩
  · exact fun m hm => (hspec m hm).regranted
  · exact fun m hm => (hspec m hm).current

end Run

end Dsip.Engine
