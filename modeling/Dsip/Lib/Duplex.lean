import Dsip.Lib.TSys
import Mathlib.Data.List.Forall2
import Mathlib.Data.Option.Defs

/-!
# Two parties joined by channels

A `Party` acts on its own and on what it receives, and sends. Two of them joined
by a FIFO channel in each direction are a `Duplex`: at every step one party acts,
or the oldest message of a channel is delivered, with what the network adds to
it. Any interleaving of these is a run.

A simulation of each party by another is a simulation of the whole
(`Duplex.Related.step`), whatever is in flight.
-/

namespace Dsip.Lib

/-- A party with states `σ` and own inputs `ι` that receives `α`, with what the
network adds (`δ`), and sends `β`. -/
structure Party (σ ι δ α β ε : Type*) where
  act : σ → ι → Except ε (σ × List β)
  recv : σ → δ → α → Except ε (σ × List β)

/-- Both parties and what is in flight, oldest first. -/
structure Duplex (σ τ α β : Type*) where
  left : σ
  right : τ
  toRight : List β
  toLeft : List α

namespace Duplex

inductive Input (ι κ δ : Type*) where
  | left (input : ι)
  | right (input : κ)
  | deliverRight (added : δ)
  | deliverLeft (added : δ)
  deriving DecidableEq

/-- Which party moved, what it received, and what it sent. -/
inductive Output (α β : Type*) where
  | left (got : Option α) (sent : List β)
  | right (got : Option β) (sent : List α)

inductive Fault (ε : Type*) where
  | nothingInFlight
  | party (fault : ε)

variable {σ τ ι κ δ α β ε : Type*}

section Step

variable (P : Party σ ι δ α β ε) (Q : Party τ κ δ β α ε)

def step (s : Duplex σ τ α β) : Input ι κ δ → Except (Fault ε) (Duplex σ τ α β × Output α β)
  | .left i =>
    match P.act s.left i with
    | .error fault => .error (.party fault)
    | .ok (l, sent) =>
      .ok ({ s with left := l, toRight := s.toRight ++ sent }, .left none sent)
  | .right k =>
    match Q.act s.right k with
    | .error fault => .error (.party fault)
    | .ok (r, sent) =>
      .ok ({ s with right := r, toLeft := s.toLeft ++ sent }, .right none sent)
  | .deliverRight d =>
    match s.toRight with
    | [] => .error .nothingInFlight
    | b :: rest =>
      match Q.recv s.right d b with
      | .error fault => .error (.party fault)
      | .ok (r, sent) =>
        .ok ({ s with right := r, toRight := rest, toLeft := s.toLeft ++ sent }, .right (some b) sent)
  | .deliverLeft d =>
    match s.toLeft with
    | [] => .error .nothingInFlight
    | a :: rest =>
      match P.recv s.left d a with
      | .error fault => .error (.party fault)
      | .ok (l, sent) =>
        .ok ({ s with left := l, toLeft := rest, toRight := s.toRight ++ sent }, .left (some a) sent)

/-- The runs of two joined parties. -/
def system (init : Duplex σ τ α β → Prop) : TSys (Duplex σ τ α β) (Input ι κ δ) (Output α β) :=
  .ofStep init (step P Q)

inductive Move (s : Duplex σ τ α β) : Input ι κ δ → Duplex σ τ α β → Output α β → Prop
  | left {i : ι} {l : σ} {sent : List β} (h : P.act s.left i = .ok (l, sent)) :
      Move s (.left i) { s with left := l, toRight := s.toRight ++ sent } (.left none sent)
  | right {k : κ} {r : τ} {sent : List α} (h : Q.act s.right k = .ok (r, sent)) :
      Move s (.right k) { s with right := r, toLeft := s.toLeft ++ sent } (.right none sent)
  | deliverRight {d : δ} {b : β} {rest : List β} {r : τ} {sent : List α}
      (hb : s.toRight = b :: rest) (h : Q.recv s.right d b = .ok (r, sent)) :
      Move s (.deliverRight d)
        { s with right := r, toRight := rest, toLeft := s.toLeft ++ sent }
        (.right (some b) sent)
  | deliverLeft {d : δ} {a : α} {rest : List α} {l : σ} {sent : List β}
      (ha : s.toLeft = a :: rest) (h : P.recv s.left d a = .ok (l, sent)) :
      Move s (.deliverLeft d)
        { s with left := l, toLeft := rest, toRight := s.toRight ++ sent }
        (.left (some a) sent)

variable {P Q} {s t : Duplex σ τ α β} {i : Input ι κ δ} {o : Output α β}

theorem move_of_step (h : step P Q s i = .ok (t, o)) : Move P Q s i t o := by
  unfold step at h
  split at h
  case h_1 i =>
    split at h
    case h_1 => cases h
    case h_2 hact =>
      cases h
      exact .left hact
  case h_2 k =>
    split at h
    case h_1 => cases h
    case h_2 hact =>
      cases h
      exact .right hact
  case h_3 d =>
    split at h
    case h_1 => cases h
    case h_2 hb =>
      split at h
      case h_1 => cases h
      case h_2 hrecv =>
        cases h
        exact .deliverRight hb hrecv
  case h_4 d =>
    split at h
    case h_1 => cases h
    case h_2 ha =>
      split at h
      case h_1 => cases h
      case h_2 hrecv =>
        cases h
        exact .deliverLeft ha hrecv

theorem Move.step (h : Move P Q s i t o) : Duplex.step P Q s i = .ok (t, o) := by
  cases h with
  | left h => simp [Duplex.step, h]
  | right h => simp [Duplex.step, h]
  | deliverRight hb h => simp [Duplex.step, hb, h]
  | deliverLeft ha h => simp [Duplex.step, ha, h]

end Step

/-! ## Simulation -/

section Simulation

variable {σ' τ' ι' κ' δ' α' β' ε' : Type*}

/-- One party stands for another: states related by `R`, messages received by
`In` and sent by `Out`, and to every own input one related by `I`. -/
structure Simulates (P : Party σ ι δ α β ε) (P' : Party σ' ι' δ' α' β' ε')
    (R : σ → σ' → Prop) (I : ι → ι' → Prop) (In : α → α' → Prop) (Out : β → β' → Prop)
    (C : ι → Prop) : Prop where
  act : ∀ {s s' i t sent}, R s s' → C i → P.act s i = .ok (t, sent) →
    ∃ i' t' sent', I i i' ∧ P'.act s' i' = .ok (t', sent') ∧ R t t' ∧ List.Forall₂ Out sent sent'
  recv : ∀ {s s' d a a' t sent}, R s s' → In a a' → P.recv s d a = .ok (t, sent) →
    ∃ d' t' sent', P'.recv s' d' a' = .ok (t', sent') ∧ R t t' ∧ List.Forall₂ Out sent sent'

/-- Related parties, and related messages in flight. -/
structure Related (R : σ → σ' → Prop) (S : τ → τ' → Prop) (In : α → α' → Prop)
    (Out : β → β' → Prop) (s : Duplex σ τ α β) (s' : Duplex σ' τ' α' β') : Prop where
  left : R s.left s'.left
  right : S s.right s'.right
  toRight : List.Forall₂ Out s.toRight s'.toRight
  toLeft : List.Forall₂ In s.toLeft s'.toLeft

/-- Inputs related on either side. -/
inductive Input.Rel (I : ι → ι' → Prop) (K : κ → κ' → Prop) : Input ι κ δ → Input ι' κ' δ' → Prop
  | left {i i'} (h : I i i') : Rel I K (.left i) (.left i')
  | right {k k'} (h : K k k') : Rel I K (.right k) (.right k')
  | deliverRight {d d'} : Rel I K (.deliverRight d) (.deliverRight d')
  | deliverLeft {d d'} : Rel I K (.deliverLeft d) (.deliverLeft d')

/-- Outputs of the same party with related messages. -/
inductive Output.Rel (In : α → α' → Prop) (Out : β → β' → Prop) : Output α β → Output α' β' → Prop
  | left {got got' sent sent'} (hg : Option.Rel In got got')
      (hs : List.Forall₂ Out sent sent') : Rel In Out (.left got sent) (.left got' sent')
  | right {got got' sent sent'} (hg : Option.Rel Out got got')
      (hs : List.Forall₂ In sent sent') : Rel In Out (.right got sent) (.right got' sent')

/-- The own inputs a simulation covers. -/
def Covered (C : ι → Prop) (D : κ → Prop) : Input ι κ δ → Prop
  | .left i => C i
  | .right k => D k
  | _ => True

variable {P : Party σ ι δ α β ε} {P' : Party σ' ι' δ' α' β' ε'}
  {Q : Party τ κ δ β α ε} {Q' : Party τ' κ' δ' β' α' ε'}
  {R : σ → σ' → Prop} {S : τ → τ' → Prop} {I : ι → ι' → Prop} {K : κ → κ' → Prop}
  {In : α → α' → Prop} {Out : β → β' → Prop} {C : ι → Prop} {D : κ → Prop}

/-- **Party by party.** Two simulated parties joined by channels are simulated
by the two joined by channels. -/
theorem Related.step (hP : Simulates P P' R I In Out C) (hQ : Simulates Q Q' S K Out In D)
    {s t : Duplex σ τ α β} {s' : Duplex σ' τ' α' β'} {i : Input ι κ δ} {o : Output α β}
    (hr : Related R S In Out s s') (hc : Covered C D i) (h : Duplex.step P Q s i = .ok (t, o)) :
    ∃ i' t' o', Input.Rel I K i i' ∧ Duplex.step P' Q' s' i' = .ok (t', o') ∧
      Related R S In Out t t' ∧ Output.Rel In Out o o' := by
  cases move_of_step h with
  | left hact =>
    obtain ⟨i', l', sent', hi, hact', hl, hsent⟩ := hP.act hr.left hc hact
    exact ⟨_, _, _, .left hi, (Move.left hact').step,
      ⟨hl, hr.right, List.rel_append hr.toRight hsent, hr.toLeft⟩, .left .none hsent⟩
  | right hact =>
    obtain ⟨k', r', sent', hk, hact', hr', hsent⟩ := hQ.act hr.right hc hact
    exact ⟨_, _, _, .right hk, (Move.right hact').step,
      ⟨hr.left, hr', hr.toRight, List.rel_append hr.toLeft hsent⟩, .right .none hsent⟩
  | @deliverRight d b rest r sent hb hrecv =>
    have hchan := hr.toRight
    rw [hb] at hchan
    generalize hb' : s'.toRight = chan' at hchan
    cases hchan with
    | cons hout hrest =>
      obtain ⟨d', r', sent', hrecv', hr', hsent⟩ := hQ.recv hr.right hout hrecv
      exact ⟨.deliverRight d', _, _, .deliverRight, (Move.deliverRight hb' hrecv').step,
        ⟨hr.left, hr', hrest, List.rel_append hr.toLeft hsent⟩, .right (.some hout) hsent⟩
  | @deliverLeft d a rest l sent ha hrecv =>
    have hchan := hr.toLeft
    rw [ha] at hchan
    generalize ha' : s'.toLeft = chan' at hchan
    cases hchan with
    | cons hin hrest =>
      obtain ⟨d', l', sent', hrecv', hl, hsent⟩ := hP.recv hr.left hin hrecv
      exact ⟨.deliverLeft d', _, _, .deliverLeft, (Move.deliverLeft ha' hrecv').step,
        ⟨hl, hr.right, List.rel_append hr.toRight hsent, hrest⟩, .left (.some hin) hsent⟩

theorem Related.run (hP : Simulates P P' R I In Out C) (hQ : Simulates Q Q' S K Out In D)
    {init : Duplex σ τ α β → Prop} {init' : Duplex σ' τ' α' β' → Prop}
    {A : TSys.Trace (Input ι κ δ) (Output α β) → Duplex σ τ α β → Input ι κ δ → Prop}
    (hA : ∀ tr s i, A tr s i → Covered C D i)
    {s₀ s : Duplex σ τ α β} {s₀' : Duplex σ' τ' α' β'} (h₀ : Related R S In Out s₀ s₀')
    {tr : TSys.Trace (Input ι κ δ) (Output α β)} (h : (system P Q init).RunWhere A s₀ tr s) :
    ∃ tr' s', (system P' Q' init').Run s₀' tr' s' ∧ Related R S In Out s s' ∧
      List.Forall₂ (fun p p' => Output.Rel In Out p.2 p'.2) tr tr' := by
  apply TSys.RunWhere.simulate (R := fun tr s tr' s' => Related R S In Out s s' ∧
    List.Forall₂ (fun p p' => Output.Rel In Out p.2 p'.2) tr tr') ⟨h₀, .nil⟩ _ h
  rintro tr s tr' s' i o t ⟨hr, htr⟩ hA' hstep
  obtain ⟨i', t', o', -, hstep', hr', ho⟩ := hr.step hP hQ (hA tr s i hA') hstep
  exact ⟨i', o', t', trivial, hstep', hr', List.rel_append htr (.cons ho .nil)⟩

theorem exists_of_mem_left {X Y : Type*} {T : X → Y → Prop} {l : List X} {l' : List Y}
    (h : List.Forall₂ T l l') {x : X} (hx : x ∈ l) : ∃ y ∈ l', T x y := by
  induction h with
  | nil => cases hx
  | @cons a b l l' hab _ ih =>
    rcases List.mem_cons.mp hx with rfl | hx
    · exact ⟨b, List.mem_cons_self, hab⟩
    · obtain ⟨y, hy, hxy⟩ := ih hx
      exact ⟨y, List.mem_cons_of_mem b hy, hxy⟩

theorem sent_of_related {tr : TSys.Trace (Input ι κ δ) (Output α β)}
    {tr' : TSys.Trace (Input ι' κ' δ') (Output α' β')}
    (h : List.Forall₂ (fun p p' => Output.Rel In Out p.2 p'.2) tr tr') {i : Input ι κ δ}
    {got : Option α} {sent : List β} (hmem : (i, Output.left got sent) ∈ tr) {b : β} (hb : b ∈ sent) :
    ∃ i' got' sent' b', (i', Output.left got' sent') ∈ tr' ∧ b' ∈ sent' ∧ Out b b' := by
  obtain ⟨⟨i', o'⟩, hmem', hrel⟩ := exists_of_mem_left h hmem
  cases hrel with
  | @left got got' sent sent' _ hs =>
    obtain ⟨b', hb', hout⟩ := exists_of_mem_left hs hb
    exact ⟨i', got', sent', b', hmem', hb', hout⟩

end Simulation

end Duplex

end Dsip.Lib
