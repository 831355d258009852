import Dsip.Lib.Dict
import Dsip.Lib.TSys

/-!
# A device's delivery state across redeliveries and restarts

`Resume` is what a messaging device holds durably: the ack cursor, its position
in every group's sequence, and the groups it has joined. A sequenced item that
comes again is recognised by its `seq`, never by decrypting it.

A position *covers* a seq when the device will take that seq for a duplicate.
Every event keeps what is covered, except one: a welcome carrying a `seq`, for a
group the device is not in, sets the position to that `seq` whatever it was
before. A welcome redelivered after the device was removed rewinds it, and what
was processed since is processed again (`rewound_item_processed_twice`).
`Forward` excludes exactly that, and under it every seq is processed at most
once, and never after `sent` marked it (`processed_at_most_once`).
-/

namespace Dsip.Messaging

open Dsip.Lib

/-! ## Positions -/

/-- A group's position: every seq through `contiguous`, and those in `seen`. -/
structure Position where
  contiguous : Nat
  seen : Finset Nat
  deriving DecidableEq

namespace Position

/-- The position takes `seq` for a duplicate. -/
def Covers (p : Position) (seq : Nat) : Prop := seq ≤ p.contiguous ∨ seq ∈ p.seen

instance (p : Position) (seq : Nat) : Decidable (p.Covers seq) := inferInstanceAs (Decidable (_ ∨ _))

/-- The `while` of `_position`: move `contiguous` over what has been seen. Each
turn takes one member out of `seen`, which bounds the turns. -/
def drain : Nat → Position → Position
  | 0, p => p
  | n + 1, p =>
    if p.contiguous + 1 ∈ p.seen then
      drain n ⟨p.contiguous + 1, p.seen.erase (p.contiguous + 1)⟩
    else p

/-- `_position` for a group that has one. -/
def mark (p : Position) (seq : Nat) : Position :=
  let p := if p.contiguous < seq then { p with seen := insert seq p.seen } else p
  p.drain p.seen.card

theorem covers_drain (n : Nat) (p : Position) (seq : Nat) : (p.drain n).Covers seq ↔ p.Covers seq := by
  induction n generalizing p with
  | zero => rfl
  | succ n ih =>
    unfold drain
    split
    case isFalse => rfl
    case isTrue h =>
      rw [ih]
      simp only [Covers, Finset.mem_erase]
      constructor
      · rintro (hle | ⟨-, hs⟩)
        · rcases Nat.lt_or_eq_of_le hle with hlt | rfl
          · exact .inl (Nat.lt_succ_iff.mp hlt)
          · exact .inr h
        · exact .inr hs
      · rintro (hle | hs)
        · exact .inl (by omega)
        · by_cases he : seq = p.contiguous + 1
          · exact .inl he.le
          · exact .inr ⟨he, hs⟩

theorem covers_mark (p : Position) (seq x : Nat) : (p.mark seq).Covers x ↔ x = seq ∨ p.Covers x := by
  unfold mark
  rw [covers_drain]
  split
  case isTrue h => simp only [Covers, Finset.mem_insert]; tauto
  case isFalse h =>
    have hseq : p.Covers seq := .inl (not_lt.mp h)
    constructor
    · exact .inr
    · rintro (rfl | hx)
      · exact hseq
      · exact hx

/-- `_rejoined`: everything through the highest seq seen is passed. -/
def pass (p : Position) (seq : Nat) : Position := ⟨max (max seq p.contiguous) (p.seen.sup id), ∅⟩

theorem covers_pass {p : Position} {seq x : Nat} (h : x = seq ∨ p.Covers x) : (p.pass seq).Covers x := by
  refine .inl ?_
  simp only [pass, le_max_iff]
  rcases h with rfl | hle | hs
  · exact .inl (.inl le_rfl)
  · exact .inl (.inr hle)
  · exact .inr (Finset.le_sup (f := id) hs)

/-- Nothing the position covers lies above `seq`. -/
def Within (p : Position) (seq : Nat) : Prop := p.contiguous ≤ seq ∧ ∀ x ∈ p.seen, x ≤ seq

instance (p : Position) (seq : Nat) : Decidable (p.Within seq) := inferInstanceAs (Decidable (_ ∧ _))

theorem Within.le {p : Position} {seq x : Nat} (h : p.Within seq) (hx : p.Covers x) : x ≤ seq :=
  hx.elim (fun hle => hle.trans h.1) (h.2 x)

end Position

/-! ## The machine -/

/-- The classes a mailbox item comes in, with the `seq` it carries. -/
inductive ItemClass where
  | handshake (seq : Nat)
  | application (seq : Nat)
  | welcome (seq : Option Nat)
  | other (name : String)
  deriving DecidableEq, Repr

/-- The seq of an item of `SEQUENCED_CLASSES`. -/
def ItemClass.sequenced : ItemClass → Option Nat
  | .handshake seq => some seq
  | .application seq => some seq
  | _ => none

structure Resume where
  cursor : Option String
  groups : Dict String Position
  joined : Finset String
  deriving DecidableEq

namespace Resume

/-- A mailbox item as the device receives it; `sibling` marks a welcome for
another device of the identity. -/
structure Item where
  cursor : String
  cls : ItemClass
  group : String
  sibling : Bool := false
  deriving DecidableEq, Repr

inductive Event where
  | items (items : List Item) (crashAt : Option String)
  | sent (group : String) (seq : Nat)
  | rejoined (group : String) (seq : Nat)
  | removed (group : String)
  | sync
  | restart
  | cursorInvalid
  deriving DecidableEq, Repr

inductive Emit where
  | process (cursor : String)
  | duplicate (cursor : String)
  | sibling (cursor : String)
  | crash (cursor : String)
  | sync (since : Option String) (ackThrough : Option String)
  deriving DecidableEq, Repr

/-- What is written to disk: sets as sorted lists. -/
structure Saved where
  cursor : Option String := none
  groups : Dict String (Nat × List Nat) := ∅
  joined : List String := []

def init (ctx : Saved) : Resume where
  cursor := ctx.cursor
  groups := Dict.map (fun p => ⟨p.1, p.2.toFinset⟩) ctx.groups
  joined := ctx.joined.toFinset

def snapshot (r : Resume) : Saved where
  cursor := r.cursor
  groups := Dict.map (fun p => (p.contiguous, sorted p.seen)) r.groups
  joined := sorted r.joined

def position (r : Resume) (group : String) (seq : Nat) : Resume :=
  match r.groups.lookup group with
  | none => { r with groups := r.groups.insert group ⟨seq, ∅⟩ }
  | some p => { r with groups := r.groups.insert group (p.mark seq) }

def duplicate (r : Resume) (it : Item) : Bool :=
  match it.cls with
  | .handshake seq | .application seq =>
    (r.groups.lookup it.group).any fun p => decide (p.Covers seq)
  | .welcome _ => decide (it.group ∈ r.joined)
  | .other _ => false

/-- What processing an item changes beside the cursor. -/
def commit (r : Resume) (it : Item) : Resume :=
  match it.cls with
  | .handshake seq | .application seq => r.position it.group seq
  | .welcome seq =>
    let r := { r with joined := insert it.group r.joined }
    match seq with
    | none => r
    | some seq => { r with groups := r.groups.insert it.group ⟨seq, ∅⟩ }
  | .other _ => r

/-- One turn of the loop of `_items`. -/
def item (r : Resume) (it : Item) : Resume × Emit :=
  let r' := { r with cursor := some it.cursor }
  if r.duplicate it then (r', .duplicate it.cursor)
  else if it.sibling then (r', .sibling it.cursor)
  else (r'.commit it, .process it.cursor)

/-- `_items`: a crash drops the item it strikes and the rest of the page. -/
def items (crashAt : Option String) : Resume → List Item → Resume × List Emit
  | r, [] => (r, [])
  | r, it :: rest =>
    if some it.cursor = crashAt then (r, [.crash it.cursor])
    else
      let page := items crashAt (r.item it).1 rest
      (page.1, (r.item it).2 :: page.2)

def rejoined (r : Resume) (group : String) (seq : Nat) : Resume :=
  let p := (r.groups.lookup group).getD ⟨0, ∅⟩
  { r with groups := r.groups.insert group (p.pass seq), joined := insert group r.joined }

def removed (r : Resume) (group : String) : Resume := { r with joined := r.joined.erase group }

def sync (r : Resume) : List Emit := [.sync r.cursor r.cursor]

def restart (r : Resume) : Resume := init r.snapshot

def step (r : Resume) : Event → Resume × List Emit
  | .items its crashAt => items crashAt r its
  | .sent group seq => (r.position group seq, [])
  | .rejoined group seq => (r.rejoined group seq, [])
  | .removed group => (r.removed group, [])
  | .sync => (r, r.sync)
  | .restart => (r.restart, r.restart.sync)
  | .cursorInvalid => ({ r with cursor := none }, sync { r with cursor := none })

def machine (ctx : Saved) : TSys Resume Event (List Emit) := TSys.ofTotal (· = init ctx) step

@[simp] theorem restart_eq (r : Resume) : r.restart = r := by
  have hg : Dict.map (fun p => (⟨p.1, p.2.toFinset⟩ : Position))
      (Dict.map (fun p => (p.contiguous, sorted p.seen)) r.groups) = r.groups :=
    Dict.map_map_cancel (fun p => by simp) r.groups
  simp [restart, init, snapshot, hg]

/-! ## What a device has been through -/

/-- One thing that happened to a seq of a group. -/
inductive Mark where
  | processed (group : String) (seq : Nat)
  | sent (group : String) (seq : Nat)
  deriving DecidableEq, Repr

def Mark.key : Mark → String × Nat
  | .processed group seq => (group, seq)
  | .sent group seq => (group, seq)

def Mark.IsProcessed : Mark → Prop
  | .processed _ _ => True
  | .sent _ _ => False

instance : DecidablePred Mark.IsProcessed
  | .processed _ _ => isTrue trivial
  | .sent _ _ => isFalse id

/-- The mark an item leaves, by what was emitted for it. -/
def itemMark (it : Item) : Emit → Option Mark
  | .process _ => it.cls.sequenced.map (.processed it.group)
  | _ => none

/-- The marks of one step: the emissions of a page are its items' in order. -/
def marks : Event → List Emit → List Mark
  | .items its _, out => (its.zip out).filterMap fun x => itemMark x.1 x.2
  | .sent group seq, _ => [.sent group seq]
  | _, _ => []

/-- The marks of a trace, oldest first. -/
def history (tr : TSys.Trace Event (List Emit)) : List Mark := tr.flatMap fun st => marks st.1 st.2

theorem history_snoc (tr : TSys.Trace Event (List Emit)) (ev : Event) (out : List Emit) :
    history (tr ++ [(ev, out)]) = history tr ++ marks ev out := by
  simp [history]

/-- Whatever is processed was neither processed nor sent before. -/
def AtMostOnce (hist : List Mark) : Prop := hist.Pairwise fun a b => b.IsProcessed → a.key ≠ b.key

instance (hist : List Mark) : Decidable (AtMostOnce hist) := inferInstanceAs (Decidable (hist.Pairwise _))

/-! ## Covered seqs -/

/-- The device takes `(group, seq)` for a duplicate. -/
def Covers (r : Resume) (key : String × Nat) : Prop := ∃ p, r.groups.lookup key.1 = some p ∧ p.Covers key.2

variable {key : String × Nat}

theorem covers_insert {r : Resume} {group : String} {q : Position}
    (h : r.Covers key) (hq : key.1 = group → ∀ p, r.groups.lookup group = some p →
      p.Covers key.2 → q.Covers key.2) :
    ∃ p, (r.groups.insert group q).lookup key.1 = some p ∧ p.Covers key.2 := by
  obtain ⟨p, hp, hc⟩ := h
  rw [Dict.lookup_insert_eq]
  split
  case isTrue he => exact ⟨q, rfl, hq he p (he ▸ hp) hc⟩
  case isFalse => exact ⟨p, hp, hc⟩

theorem covers_position {r : Resume} {group : String} {seq : Nat}
    (h : key = (group, seq) ∨ r.Covers key) : (r.position group seq).Covers key := by
  unfold position
  split
  case h_1 hnone =>
    rcases h with rfl | h
    · exact ⟨⟨seq, ∅⟩, by simp, .inl le_rfl⟩
    · refine covers_insert h fun _ p hp _ => ?_
      rw [hnone] at hp
      cases hp
  case h_2 p hsome =>
    rcases h with rfl | h
    · exact ⟨p.mark seq, by simp, (p.covers_mark seq seq).mpr (.inl rfl)⟩
    · refine covers_insert h fun _ p' hp' hc => ?_
      obtain rfl : p = p' := Option.some.inj (hsome.symm.trans hp')
      exact (p.covers_mark seq key.2).mpr (.inr hc)

theorem covers_rejoined {r : Resume} (group : String) (seq : Nat)
    (h : r.Covers key) : (r.rejoined group seq).Covers key :=
  covers_insert h fun _ p hp hc => by
    rw [hp]
    exact Position.covers_pass (.inr hc)

/-! ## The condition -/

/-- The item is no welcome that would set its group's position below what the
position covers. Such a welcome finds a position but no membership: the device
was removed since. -/
def NoRewind (r : Resume) (it : Item) : Prop :=
  match it.cls with
  | .welcome (some seq) =>
    it.group ∉ r.joined → it.sibling = false → ∀ p ∈ r.groups.lookup it.group, p.Within seq
  | _ => True

instance (r : Resume) (it : Item) : Decidable (r.NoRewind it) := by
  unfold NoRewind
  split <;> infer_instance

/-- No item of the page rewinds a position, each taken in the state the page
has reached. -/
def PageForward (crashAt : Option String) : Resume → List Item → Prop
  | _, [] => True
  | r, it :: rest =>
    some it.cursor ≠ crashAt → r.NoRewind it ∧ PageForward crashAt (r.item it).1 rest

instance decidablePageForward (crashAt : Option String) : ∀ r its, Decidable (PageForward crashAt r its)
  | _, [] => isTrue trivial
  | r, it :: rest =>
    let _ := decidablePageForward crashAt (r.item it).1 rest
    inferInstanceAs (Decidable (some it.cursor ≠ crashAt → r.NoRewind it ∧ _))

/-- The condition on a step: a page that rewinds nothing. -/
def Forward (_ : TSys.Trace Event (List Emit)) (r : Resume) : Event → Prop
  | .items its crashAt => PageForward crashAt r its
  | _ => True

instance (tr : TSys.Trace Event (List Emit)) (r : Resume) (ev : Event) : Decidable (Forward tr r ev) := by
  unfold Forward
  split <;> infer_instance

theorem covers_item {r : Resume} {it : Item} (hn : r.NoRewind it)
    (h : r.Covers key) : (r.item it).1.Covers key := by
  unfold item
  split
  case isTrue => exact h
  case isFalse hdup =>
    split
    case isTrue => exact h
    case isFalse hsib =>
      obtain ⟨cursor, cls, group, sibling⟩ := it
      cases cls with
      | handshake seq | application seq => exact covers_position (.inr h)
      | other name => exact h
      | welcome seq =>
        cases seq with
        | none => exact h
        | some seq =>
          have hjoined : group ∉ r.joined := by simpa [duplicate] using hdup
          have hwithin := hn hjoined (by simpa using hsib)
          exact covers_insert h fun _ p hp hc => .inl ((hwithin p hp).le hc)

theorem itemMark_item {r : Resume} {it : Item} {m : Mark} (h : itemMark it (r.item it).2 = some m) :
    m.IsProcessed ∧ ¬ r.Covers m.key ∧ (r.item it).1.Covers m.key := by
  obtain ⟨cursor, cls, group, sibling⟩ := it
  unfold item at h ⊢
  split at h
  case isTrue => cases h
  case isFalse hdup =>
    split at h
    case isTrue => cases h
    case isFalse hsib =>
      rw [if_neg hdup, if_neg hsib]
      cases cls with
      | welcome seq => cases h
      | other name => cases h
      | handshake seq | application seq =>
        obtain rfl : Mark.processed group seq = m := by
          simpa [itemMark, ItemClass.sequenced] using h
        refine ⟨trivial, ?_, covers_position (.inl rfl)⟩
        rintro ⟨p, hp, hc⟩
        have hp' : r.groups.lookup group = some p := hp
        have hc' : p.Covers seq := hc
        exact hdup (by simp [duplicate, hp', hc'])

/-- What a page of items does, given that it rewinds nothing. -/
structure PageSpec (r : Resume) (r' : Resume) (ms : List Mark) : Prop where
  kept : ∀ key, r.Covers key → r'.Covers key
  fresh : ∀ m ∈ ms, ¬ r.Covers m.key
  covered : ∀ m ∈ ms, r'.Covers m.key
  once : AtMostOnce ms

theorem items_spec (crashAt : Option String) (its : List Item) :
    ∀ r : Resume, PageForward crashAt r its → PageSpec r (items crashAt r its).1
        (marks (.items its crashAt) (items crashAt r its).2) := by
  induction its with
  | nil => exact fun r _ => ⟨fun _ h => h, by simp [marks], by simp [marks], .nil⟩
  | cons it rest ih =>
    intro r hf
    unfold items
    split
    case isTrue =>
      exact ⟨fun _ h => h, by simp [marks, itemMark], by simp [marks, itemMark],
        by simp [marks, itemMark, AtMostOnce]⟩
    case isFalse hcrash =>
      obtain ⟨hn, hrest⟩ := hf hcrash
      have page := ih (r.item it).1 hrest
      have hkept : ∀ key, r.Covers key → (items crashAt (r.item it).1 rest).1.Covers key :=
        fun key h => page.kept key (covers_item hn h)
      have hmarks : ∀ out : List Emit, marks (.items (it :: rest) crashAt) ((r.item it).2 :: out) =
            (itemMark it (r.item it).2).toList ++ marks (.items rest crashAt) out := by
        intro out
        cases hm : itemMark it (r.item it).2 <;> simp [marks, hm]
      rw [hmarks]
      cases hm : itemMark it (r.item it).2 with
      | none =>
        refine ⟨hkept, fun m h => ?_, fun m h => page.covered m h, page.once⟩
        exact fun hc => page.fresh m h (covers_item hn hc)
      | some m₀ =>
        obtain ⟨-, hfresh, hcov⟩ := itemMark_item hm
        refine ⟨hkept, ?_, ?_, ?_⟩
        · rintro m (_ | ⟨_, h⟩)
          · exact hfresh
          · exact fun hc => page.fresh m h (covers_item hn hc)
        · rintro m (_ | ⟨_, h⟩)
          · exact page.kept _ hcov
          · exact page.covered m h
        · refine List.pairwise_cons.mpr ⟨fun m h _ he => ?_, page.once⟩
          exact page.fresh m h (he ▸ hcov)

theorem step_spec (tr : TSys.Trace Event (List Emit)) (r : Resume) (ev : Event)
    (hf : Forward tr r ev) : (∀ key, r.Covers key → (r.step ev).1.Covers key) ∧
      (∀ m ∈ marks ev (r.step ev).2, (m.IsProcessed → ¬ r.Covers m.key) ∧ (r.step ev).1.Covers m.key) ∧
      AtMostOnce (marks ev (r.step ev).2) := by
  cases ev with
  | items its crashAt =>
    have page := items_spec crashAt its r hf
    exact ⟨page.kept, fun m h => ⟨fun _ => page.fresh m h, page.covered m h⟩, page.once⟩
  | sent group seq =>
    refine ⟨fun key h => covers_position (.inr h), ?_, List.pairwise_singleton _ _⟩
    rintro m (_ | ⟨_, ⟨⟩⟩)
    exact ⟨fun h => h.elim, covers_position (.inl rfl)⟩
  | rejoined group seq =>
    exact ⟨fun key h => covers_rejoined group seq h, by simp [marks], by simp [marks, AtMostOnce]⟩
  | restart => exact ⟨fun key h => by simpa [step] using h, by simp [marks], by simp [marks, AtMostOnce]⟩
  | removed group | sync | cursorInvalid =>
    exact ⟨fun key h => h, by simp [marks], by simp [marks, AtMostOnce]⟩

/-- In every run that rewinds no position, each sequenced item is processed at
most once, and never after `sent` marked its seq. -/
theorem processed_at_most_once (ctx : Saved) {tr : TSys.Trace Event (List Emit)} {r : Resume}
    (h : (machine ctx).RunWhere Forward (init ctx) tr r) : AtMostOnce (history tr) := by
  suffices hinv : AtMostOnce (history tr) ∧ ∀ m ∈ history tr, r.Covers m.key from hinv.1
  induction h with
  | nil => exact ⟨.nil, by simp [history]⟩
  | @snoc tr r ev out r' _ hf hs ih =>
    obtain ⟨honce, hcov⟩ := ih
    have hs' : r.step ev = (r', out) := hs
    obtain ⟨hkept, hnew, hpage⟩ := step_spec tr r ev hf
    rw [hs'] at hkept hnew hpage
    rw [history_snoc]
    refine ⟨List.pairwise_append.mpr ⟨honce, hpage, fun a ha b hb hp he => ?_⟩, ?_⟩
    · -- `b` was not covered before the step, and its earlier twin `a` was
      exact (hnew b hb).1 hp (he ▸ hcov a ha)
    · intro m hm
      rcases List.mem_append.mp hm with hm | hm
      · exact hkept _ (hcov m hm)
      · exact (hnew m hm).2

/-- A device is added at seq 5, processes 6 and 7, sends 8, is removed and added
again at seq 9, with the page redelivered in between to a crash. -/
theorem processed_at_most_once_readded :
    let page : List Item := [⟨"c1", .welcome (some 5), "g", false⟩,
      ⟨"c2", .handshake 6, "g", false⟩, ⟨"c3", .application 7, "g", false⟩]
    AtMostOnce (history (TSys.exec step (init {}) [.items page none, .sent "g" 8, .cursorInvalid,
      .items page (some "c3"), .restart, .removed "g",
      .items [⟨"c4", .welcome (some 9), "g", false⟩] none]).1) :=
  processed_at_most_once {} (TSys.exec_runWhere step Forward _ (init {}) _ (by decide))

/-- The welcome that added the device at seq 5 is redelivered after its removal:
the position goes back to 5, and seq 6 is processed a second time. -/
theorem rewound_item_processed_twice : ∃ tr r, (machine {}).Run (init {}) tr r ∧ ¬ AtMostOnce (history tr) :=
  let page : List Item := [⟨"c1", .welcome (some 5), "g", false⟩, ⟨"c2", .application 6, "g", false⟩]
  ⟨_, _, TSys.exec_run step _ (init {})
      [.items page none, .removed "g", .cursorInvalid, .items page none], by decide⟩

end Resume

end Dsip.Messaging
