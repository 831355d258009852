import Dsip.Messaging.Gap

/-!
# The order in which a group's items are processed

What the outputs of a gap tracker say, whichever implementation wrote them:
`Orderly` is about the trace alone. `GapLog` relates a trace to the tracker at its
end and carries the induction.
-/

namespace Dsip.Messaging

open Dsip.Lib

abbrev GapTrace := TSys.Trace GapEvent GapOutput

def GapEmit.toProcess : GapEmit → Option Nat
  | .process seq => some seq
  | _ => none

/-- The seqs processed, in order. -/
def processedIn (out : List GapEmit) : List Nat := out.filterMap GapEmit.toProcess

def processed (tr : GapTrace) : List Nat := tr.flatMap fun x => processedIn x.2.emit

def heldAfter (tr : GapTrace) : List Nat := ((tr.getLast?).map (·.2.held)).getD []

def Received (tr : GapTrace) (seq : Nat) : Prop := ∃ cls out, (.item seq cls, out) ∈ tr

/-- The item itself, not a copy of it. -/
def Taken (tr : GapTrace) (seq : Nat) (cls : HeldClass) : Prop :=
  ∃ out, (.item seq cls, out) ∈ tr ∧ .duplicate seq ∉ out.emit

def Passed (tr : GapTrace) (seq : Nat) : Prop :=
  ∃ e out held, (e, out) ∈ tr ∧ .rejoin held ∈ out.emit ∧ seq ≤ out.contiguous

structure Orderly (start : Nat) (tr : GapTrace) : Prop where
  once : (processed tr).Nodup
  /-- A handshake comes after everything below it. -/
  handshake : ∀ tr₁ e out tr₂, tr = tr₁ ++ (e, out) :: tr₂ → ∀ o₁ seq o₂,
    out.emit = o₁ ++ .process seq :: o₂ → Taken (tr₁ ++ [(e, out)]) seq .handshake →
    ∀ k, start < k → k < seq → k ∈ processed tr₁ ∨ k ∈ processedIn o₁ ∨ Passed tr₁ k
  /-- Nothing goes past a held item. -/
  afterHeld : ∀ tr₁ e out tr₂, tr = tr₁ ++ (e, out) :: tr₂ → ∀ o₁ seq o₂,
    out.emit = o₁ ++ .process seq :: o₂ → ∀ k ∈ heldAfter tr₁, k < seq → k ∈ processedIn o₁
  /-- Every item is accounted for. -/
  reported : ∀ tr₁ seq cls out tr₂, tr = tr₁ ++ (.item seq cls, out) :: tr₂ →
    (.duplicate seq ∈ out.emit ∧ (seq ≤ start ∨ Received tr₁ seq ∨ Passed tr₁ seq)) ∨
    .process seq ∈ out.emit ∨
    (.hold seq ∈ out.emit ∧ (seq ∈ heldAfter tr ∨ seq ∈ processed tr₂ ∨
      ∃ e out' held, (e, out') ∈ tr₂ ∧ .rejoin held ∈ out'.emit ∧ seq ∈ held))

/-! ## The end of a trace -/

theorem snoc_split {α : Type*} {l l₁ l₂ : List α} {x y : α} (h : l ++ [x] = l₁ ++ y :: l₂) :
    (l₁ = l ∧ y = x ∧ l₂ = []) ∨ ∃ l₂', l₂ = l₂' ++ [x] ∧ l = l₁ ++ y :: l₂' := by
  rcases List.eq_nil_or_concat l₂ with rfl | ⟨l₂', z, rfl⟩
  · obtain ⟨hl, hx⟩ := List.append_inj' h rfl
    exact .inl ⟨hl.symm, (List.head_eq_of_cons_eq hx).symm, rfl⟩
  · rw [List.concat_eq_append, ← List.cons_append, ← List.append_assoc] at h
    obtain ⟨hl, hx⟩ := List.append_inj' h rfl
    rw [← List.head_eq_of_cons_eq hx, List.concat_eq_append]
    exact .inr ⟨l₂', rfl, hl⟩

theorem mem_left_of_lt {l₁ l₂ : List Nat} {k n : Nat} (h : (l₁ ++ n :: l₂).Pairwise (· < ·))
    (hk : k ∈ l₁ ++ n :: l₂) (hlt : k < n) : k ∈ l₁ := by
  rcases List.mem_append.mp hk with hk | hk
  · exact hk
  · rcases List.mem_cons.mp hk with rfl | hk
    · exact absurd hlt (lt_irrefl _)
    · have := (List.pairwise_cons.mp (List.pairwise_append.mp h).2.1).1 k hk
      omega

section Snoc

variable {tr : GapTrace} {e : GapEvent} {out : GapOutput} {k : Nat}

theorem processed_snoc : processed (tr ++ [(e, out)]) = processed tr ++ processedIn out.emit := by
  unfold processed
  rw [List.flatMap_append, List.flatMap_singleton]

theorem mem_processed_snoc :
    k ∈ processed (tr ++ [(e, out)]) ↔ k ∈ processed tr ∨ k ∈ processedIn out.emit := by
  rw [processed_snoc, List.mem_append]

theorem heldAfter_snoc : heldAfter (tr ++ [(e, out)]) = out.held := by
  unfold heldAfter
  rw [List.getLast?_concat]
  rfl

theorem Received.snoc (h : Received tr k) : Received (tr ++ [(e, out)]) k := by
  obtain ⟨cls, o, h⟩ := h
  exact ⟨cls, o, List.mem_append_left _ h⟩

theorem Passed.snoc (h : Passed tr k) : Passed (tr ++ [(e, out)]) k := by
  obtain ⟨e', o, held, h, hr, hk⟩ := h
  exact ⟨e', o, held, List.mem_append_left _ h, hr, hk⟩

theorem taken_snoc {cls : HeldClass} (h : Taken (tr ++ [(e, out)]) k cls) :
    Taken tr k cls ∨ (e = .item k cls ∧ .duplicate k ∉ out.emit) := by
  obtain ⟨o, h, hno⟩ := h
  rcases List.mem_append.mp h with h | h
  · exact .inl ⟨o, h, hno⟩
  · have he := List.mem_singleton.mp h
    simp only [Prod.mk.injEq] at he
    obtain ⟨rfl, rfl⟩ := he
    exact .inr ⟨rfl, hno⟩

@[simp] theorem processedIn_map (l : List Nat) : processedIn (l.map .process) = l := by
  induction l with
  | nil => rfl
  | cons a l ih => exact congrArg (a :: ·) ih

end Snoc

/-! ## What a trace knows of the tracker -/

structure GapLog (start : Nat) (tr : GapTrace) (g : GapTracker) : Prop where
  standing : g.Standing
  floor : start ≤ g.contiguous
  held : heldAfter tr = g.held
  below : ∀ k, start < k → k ≤ g.contiguous → k ∈ processed tr ∨ Passed tr k
  ahead : ∀ k ∈ g.seen, k ∉ g.held → k ∈ processed tr
  origin : ∀ k ∈ processed tr, k ≤ g.contiguous ∨ (k ∈ g.seen ∧ k ∉ g.held)
  taken : ∀ k cls, Taken tr k cls → k ≤ g.contiguous ∨ k ∈ g.seen
  received : ∀ k, k ∈ g.seen ∨ k ∈ processed tr → Received tr k

/-- What one step adds to an orderly trace. -/
structure StepOrder (start : Nat) (tr : GapTrace) (g : GapTracker) (e : GapEvent)
    (out : List GapEmit) (g' : GapTracker) : Prop where
  nodup : (processedIn out).Nodup
  fresh : ∀ k ∈ processedIn out, k ∉ processed tr
  handshake : ∀ o₁ seq o₂, out = o₁ ++ .process seq :: o₂ →
    Taken tr seq .handshake ∨ (e = .item seq .handshake ∧ .duplicate seq ∉ out) →
    ∀ k, start < k → k < seq → k ∈ processed tr ∨ k ∈ processedIn o₁ ∨ Passed tr k
  afterHeld : ∀ o₁ seq o₂, out = o₁ ++ .process seq :: o₂ → ∀ k ∈ g.held, k < seq → k ∈ processedIn o₁
  reported : ∀ seq cls, e = .item seq cls →
    (.duplicate seq ∈ out ∧ (seq ≤ start ∨ Received tr seq ∨ Passed tr seq)) ∨
      .process seq ∈ out ∨ (.hold seq ∈ out ∧ seq ∈ g'.held)
  kept : ∀ k ∈ g.held, k ∈ g'.held ∨ k ∈ processedIn out ∨ ∃ held, .rejoin held ∈ out ∧ k ∈ held

section Step

variable {start : Nat} {tr : GapTrace} {g g' : GapTracker} {e : GapEvent} {out : List GapEmit}

theorem StepOrder.of_none (hnone : processedIn out = []) (hreported : ∀ seq cls, e = .item seq cls →
      (.duplicate seq ∈ out ∧ (seq ≤ start ∨ Received tr seq ∨ Passed tr seq)) ∨
        .process seq ∈ out ∨ (.hold seq ∈ out ∧ seq ∈ g'.held))
    (hkept : ∀ k ∈ g.held, k ∈ g'.held ∨ k ∈ processedIn out ∨
      ∃ held, .rejoin held ∈ out ∧ k ∈ held) : StepOrder start tr g e out g' := by
  have hno : ∀ o₁ seq o₂, out ≠ o₁ ++ .process seq :: o₂ := by
    rintro o₁ seq o₂ rfl
    have : seq ∈ processedIn (o₁ ++ .process seq :: o₂) :=
      List.mem_filterMap.mpr ⟨_, List.mem_append_right _ List.mem_cons_self, rfl⟩
    rw [hnone] at this
    exact absurd this List.not_mem_nil
  refine ⟨?_, ?_, ?_, ?_, hreported, hkept⟩
  · rw [hnone]
    exact List.nodup_nil
  · rw [hnone]
    exact fun k hk => absurd hk List.not_mem_nil
  · exact fun o₁ seq o₂ h => absurd h (hno o₁ seq o₂)
  · exact fun o₁ seq o₂ h => absurd h (hno o₁ seq o₂)

/-- **One step keeps the log**, and adds to it in order. -/
theorem GapLog.step (h : GapLog start tr g) (hs : GapStep g e out g') (hg' : g'.Standing) :
    GapLog start (tr ++ [(e, ⟨out, g'.contiguous, g'.held⟩)]) g' ∧ StepOrder start tr g e out g' := by
  have hold := h.standing
  have hnew : ∀ {k cls}, Taken (tr ++ [(e, ⟨out, g'.contiguous, g'.held⟩)]) k cls →
      Taken tr k cls ∨ (e = .item k cls ∧ .duplicate k ∉ out) := taken_snoc
  cases hs with
  | wait n =>
    have hnone : processedIn ([] : List GapEmit) = [] := rfl
    refine ⟨⟨hg', h.floor, heldAfter_snoc, ?_, ?_, ?_, ?_, ?_⟩, .of_none hnone nofun
      fun k hk => .inl hk⟩
    · exact fun k hk hle => (h.below k hk hle).imp (fun h => mem_processed_snoc.mpr (.inl h))
        Passed.snoc
    · exact fun k hk hno => mem_processed_snoc.mpr (.inl (h.ahead k hk hno))
    · intro k hk
      rw [processed_snoc, hnone, List.append_nil] at hk
      exact h.origin k hk
    · intro k cls hk
      exact (hnew hk).elim (h.taken k cls) fun h => nomatch h.1
    · intro k hk
      rw [processed_snoc, hnone, List.append_nil] at hk
      exact (h.received k hk).snoc
  | rejoin n top hheld hle htop =>
    have hnone : processedIn [GapEmit.rejoin g.held] = [] := rfl
    refine ⟨⟨hg', h.floor.trans hle, heldAfter_snoc, ?_, ?_, ?_, ?_, ?_⟩, .of_none hnone nofun
      fun k hk => .inr (.inr ⟨g.held, List.mem_cons_self, hk⟩)⟩
    · intro k _ hk
      exact .inr ⟨_, _, g.held, List.mem_append_right _ List.mem_cons_self, List.mem_cons_self, hk⟩
    · exact fun k hk => absurd hk (Finset.notMem_empty k)
    · intro k hk
      rw [processed_snoc, hnone, List.append_nil] at hk
      exact .inl ((h.origin k hk).elim (fun hk => hk.trans hle) fun hk => htop k hk.1)
    · intro k cls hk
      refine (hnew hk).elim (fun hk => .inl ?_) fun h => nomatch h.1
      exact (h.taken k cls hk).elim (fun hk => hk.trans hle) (htop k)
    · intro k hk
      rw [processed_snoc, hnone, List.append_nil] at hk
      exact (h.received k (hk.imp_left fun hk => absurd hk (Finset.notMem_empty k))).snoc
  | @duplicate seq cls hdup =>
    have hnone : processedIn [GapEmit.duplicate seq] = [] := rfl
    refine ⟨⟨hg', h.floor, heldAfter_snoc, ?_, ?_, ?_, ?_, ?_⟩, .of_none hnone ?_
      fun k hk => .inl hk⟩
    · exact fun k hk hle => (h.below k hk hle).imp (fun h => mem_processed_snoc.mpr (.inl h))
        Passed.snoc
    · exact fun k hk hno => mem_processed_snoc.mpr (.inl (h.ahead k hk hno))
    · intro k hk
      rw [processed_snoc, hnone, List.append_nil] at hk
      exact h.origin k hk
    · intro k cls' hk
      refine (hnew hk).elim (h.taken k cls') ?_
      rintro ⟨he, hno⟩
      simp only [GapEvent.item.injEq] at he
      exact absurd (he.1 ▸ List.mem_cons_self) hno
    · intro k hk
      rw [processed_snoc, hnone, List.append_nil] at hk
      exact (h.received k hk).snoc
    · intro seq' cls' he
      simp only [GapEvent.item.injEq] at he
      obtain ⟨rfl, rfl⟩ := he
      refine .inl ⟨List.mem_cons_self, ?_⟩
      rcases hdup with hle | hin
      · rcases Nat.lt_or_ge start seq with hlt | hge
        · exact .inr ((h.below seq hlt hle).imp_left fun hp => h.received seq (.inr hp))
        · exact .inl hge
      · exact .inr (.inl (h.received seq (.inl hin)))
  | @hold seq cls held since hlt hfresh hmem =>
    have hnone : processedIn [GapEmit.hold seq] = [] := rfl
    refine ⟨⟨hg', h.floor, heldAfter_snoc, ?_, ?_, ?_, ?_, ?_⟩, .of_none hnone ?_
      fun k hk => .inl ((hmem k).mpr (.inl hk))⟩
    · exact fun k hk hle => (h.below k hk hle).imp (fun h => mem_processed_snoc.mpr (.inl h))
        Passed.snoc
    · intro k hk hno
      have hk' : k ≠ seq := fun he => hno ((hmem k).mpr (.inr he))
      refine mem_processed_snoc.mpr (.inl (h.ahead k ((Finset.mem_insert.mp hk).resolve_left hk') ?_))
      exact fun hin => hno ((hmem k).mpr (.inl hin))
    · intro k hk
      rw [processed_snoc, hnone, List.append_nil] at hk
      refine (h.origin k hk).imp_right ?_
      rintro ⟨hin, hno⟩
      refine ⟨Finset.mem_insert_of_mem hin, fun hk => ?_⟩
      rcases (hmem k).mp hk with hk | rfl
      · exact hno hk
      · exact hfresh hin
    · intro k cls' hk
      rcases hnew hk with hk | ⟨he, -⟩
      · exact (h.taken k cls' hk).imp_right Finset.mem_insert_of_mem
      · simp only [GapEvent.item.injEq] at he
        exact .inr (he.1 ▸ Finset.mem_insert_self _ _)
    · intro k hk
      rw [processed_snoc, hnone, List.append_nil] at hk
      rcases hk with hk | hk
      · rcases Finset.mem_insert.mp hk with rfl | hk
        · exact ⟨cls, _, List.mem_append_right _ List.mem_cons_self⟩
        · exact (h.received k (.inl hk)).snoc
      · exact (h.received k (.inr hk)).snoc
    · intro seq' cls' he
      simp only [GapEvent.item.injEq] at he
      obtain ⟨rfl, rfl⟩ := he
      exact .inr (.inr ⟨List.mem_cons_self, (hmem seq).mpr (.inr rfl)⟩)
  | @jump seq cls hlt hfresh hcls hheld =>
    have hone : processedIn [GapEmit.process seq] = [seq] := rfl
    have hnot : seq ∉ g.held := fun hin => hfresh (hold.held seq hin)
    have hout : ∀ o₁ seq' o₂, [GapEmit.process seq] = o₁ ++ .process seq' :: o₂ → o₁ = [] ∧ seq' = seq := by
      intro o₁ seq' o₂ he
      rcases List.append_eq_singleton_iff.mp he.symm with ⟨rfl, hone⟩ | ⟨-, hnil⟩
      · exact ⟨rfl, GapEmit.process.inj (List.head_eq_of_cons_eq hone)⟩
      · exact absurd hnil (List.cons_ne_nil _ _)
    have hunprocessed : seq ∉ processed tr := by
      intro hin
      rcases h.origin seq hin with hle | ⟨hin, -⟩
      · omega
      · exact hfresh hin
    refine ⟨⟨hg', h.floor, heldAfter_snoc, ?_, ?_, ?_, ?_, ?_⟩, ⟨?_, ?_, ?_, ?_, ?_, ?_⟩⟩
    · exact fun k hk hle => (h.below k hk hle).imp (fun h => mem_processed_snoc.mpr (.inl h))
        Passed.snoc
    · intro k hk hno
      rw [mem_processed_snoc, hone, List.mem_singleton]
      rcases Finset.mem_insert.mp hk with rfl | hk
      · exact .inr rfl
      · exact .inl (h.ahead k hk hno)
    · intro k hk
      rw [mem_processed_snoc, hone, List.mem_singleton] at hk
      rcases hk with hk | rfl
      · exact (h.origin k hk).imp_right fun hk => ⟨Finset.mem_insert_of_mem hk.1, hk.2⟩
      · exact .inr ⟨Finset.mem_insert_self _ _, hnot⟩
    · intro k cls' hk
      rcases hnew hk with hk | ⟨he, -⟩
      · exact (h.taken k cls' hk).imp_right Finset.mem_insert_of_mem
      · simp only [GapEvent.item.injEq] at he
        exact .inr (he.1 ▸ Finset.mem_insert_self _ _)
    · intro k hk
      have hthis : Received (tr ++ [(.item seq cls, ⟨[.process seq], g.contiguous, g.held⟩)]) seq :=
        ⟨cls, _, List.mem_append_right _ List.mem_cons_self⟩
      rw [mem_processed_snoc, hone, List.mem_singleton] at hk
      rcases hk with hk | hk | rfl
      · rcases Finset.mem_insert.mp hk with rfl | hk
        · exact hthis
        · exact (h.received k (.inl hk)).snoc
      · exact (h.received k (.inr hk)).snoc
      · exact hthis
    · rw [hone]
      exact List.nodup_singleton seq
    · intro k hk
      rw [hone, List.mem_singleton] at hk
      exact hk ▸ hunprocessed
    · -- the item is not a handshake, and no handshake of this seq came before
      intro o₁ seq' o₂ he htaken
      obtain ⟨rfl, rfl⟩ := hout o₁ seq' o₂ he
      rcases htaken with htaken | ⟨he, -⟩
      · rcases h.taken seq' _ htaken with hle | hin
        · omega
        · exact absurd hin hfresh
      · simp only [GapEvent.item.injEq] at he
        exact absurd he.2 hcls
    · intro o₁ seq' o₂ he k hk hlt'
      obtain ⟨rfl, rfl⟩ := hout o₁ seq' o₂ he
      exact absurd (hheld k hk) (by omega)
    · intro seq' cls' he
      simp only [GapEvent.item.injEq] at he
      obtain ⟨rfl, rfl⟩ := he
      exact .inr (.inl List.mem_cons_self)
    · exact fun k hk => .inl hk
  | @next cls c' since hend =>
    let drained := (g.contiguous + 1) :: g.held.filter (· ≤ c')
    have hle : g.contiguous + 1 ≤ c' := hend.le
    have hdrained : processedIn (GapEmit.process (g.contiguous + 1) ::
        (g.held.filter (· ≤ c')).map .process) = drained := processedIn_map drained
    have hheld : ∀ k ∈ g.held, g.contiguous + 1 < k := fun k hk => hold.beyond k (hold.held k hk)
    have hmem : ∀ k, k ∈ drained ↔ k = g.contiguous + 1 ∨ (k ∈ g.held ∧ k ≤ c') := by
      intro k
      rw [List.mem_cons, List.mem_filter, decide_eq_true_eq]
    have hsorted : drained.Pairwise (· < ·) := by
      refine List.pairwise_cons.mpr ⟨?_, hold.sorted.filter _⟩
      exact fun k hk => hheld k (List.mem_filter.mp hk).1
    -- what lies between the old point and the new one
    have hbetween : ∀ k, g.contiguous < k → k ≤ c' → k ∈ processed tr ∨ k ∈ drained := by
      intro k hk hkc
      rcases Nat.lt_or_eq_of_le (Nat.succ_le_of_lt hk) with hlt | rfl
      · have hin := hend.mem k hlt hkc
        by_cases hheld : k ∈ g.held
        · exact .inr ((hmem k).mpr (.inr ⟨hheld, hkc⟩))
        · exact .inl (h.ahead k hin hheld)
      · exact .inr List.mem_cons_self
    have hsplit : ∀ o₁ seq o₂, GapEmit.process (g.contiguous + 1) ::
        (g.held.filter (· ≤ c')).map .process = o₁ ++ .process seq :: o₂ →
        seq ∈ drained ∧ ∀ k ∈ drained, k < seq → k ∈ processedIn o₁ := by
      intro o₁ seq o₂ he
      obtain ⟨l₁, l, hl, rfl, hl₂⟩ := List.map_eq_append_iff.mp
        (show drained.map GapEmit.process = o₁ ++ .process seq :: o₂ from he)
      obtain ⟨seq', l₂, rfl, hseq, -⟩ := List.map_eq_cons_iff.mp hl₂
      obtain rfl := GapEmit.process.inj hseq
      refine ⟨hl ▸ List.mem_append_right _ List.mem_cons_self, ?_⟩
      intro k hk hlt
      rw [processedIn_map]
      rw [hl] at hk hsorted
      exact mem_left_of_lt hsorted hk hlt
    have hseq : ∀ seq ∈ drained, seq ≤ c' := by
      intro seq hin
      rcases (hmem seq).mp hin with rfl | ⟨-, hle⟩
      · exact hle
      · exact hle
    refine ⟨⟨hg', ?_, heldAfter_snoc, ?_, ?_, ?_, ?_, ?_⟩, ⟨?_, ?_, ?_, ?_, ?_, ?_⟩⟩
    · exact (h.floor.trans (Nat.le_succ _)).trans hle
    · intro k hk hkc
      rw [mem_processed_snoc, hdrained]
      rcases Nat.lt_or_ge g.contiguous k with hlt | hge
      · exact .inl (hbetween k hlt hkc)
      · exact (h.below k hk hge).imp .inl Passed.snoc
    · intro k hk hno
      obtain ⟨hin, hck⟩ := Finset.mem_filter.mp hk
      refine mem_processed_snoc.mpr (.inl (h.ahead k hin fun hheld => hno ?_))
      exact List.mem_filter.mpr ⟨hheld, decide_eq_true hck⟩
    · intro k hk
      rw [mem_processed_snoc, hdrained] at hk
      rcases hk with hk | hk
      · rcases Nat.lt_or_ge c' k with hck | hkc
        · rcases h.origin k hk with hkg | ⟨hin, hno⟩
          · omega
          · exact .inr ⟨Finset.mem_filter.mpr ⟨hin, hck⟩, fun h => hno (List.mem_filter.mp h).1⟩
        · exact .inl hkc
      · exact .inl (hseq k hk)
    · intro k cls' hk
      rcases hnew hk with hk | ⟨he, -⟩
      · rcases Nat.lt_or_ge c' k with hck | hkc
        · rcases h.taken k cls' hk with hkg | hin
          · omega
          · exact .inr (Finset.mem_filter.mpr ⟨hin, hck⟩)
        · exact .inl hkc
      · simp only [GapEvent.item.injEq] at he
        exact .inl (he.1 ▸ hle)
    · intro k hk
      rw [mem_processed_snoc, hdrained] at hk
      rcases hk with hk | hk | hk
      · exact (h.received k (.inl (Finset.mem_filter.mp hk).1)).snoc
      · exact (h.received k (.inr hk)).snoc
      · rcases (hmem k).mp hk with rfl | ⟨hk, -⟩
        · exact ⟨cls, _, List.mem_append_right _ List.mem_cons_self⟩
        · exact (h.received k (.inl (hold.held k hk))).snoc
    · rw [hdrained]
      exact hsorted.imp fun hlt => hlt.ne
    · intro k hk hin
      rw [hdrained] at hk
      rcases h.origin k hin with hkg | ⟨hin, hno⟩
      · rcases (hmem k).mp hk with rfl | ⟨hk, -⟩
        · omega
        · have := hheld k hk
          omega
      · rcases (hmem k).mp hk with rfl | ⟨hk, -⟩
        · exact absurd (hold.beyond _ hin) (lt_irrefl _)
        · exact hno hk
    · intro o₁ seq o₂ he _ k hk hlt
      obtain ⟨hin, hbefore⟩ := hsplit o₁ seq o₂ he
      have hkc : k ≤ c' := (Nat.le_of_lt hlt).trans (hseq seq hin)
      rcases Nat.lt_or_ge g.contiguous k with hgk | hge
      · exact (hbetween k hgk hkc).imp_right fun hk => .inl (hbefore k hk hlt)
      · exact (h.below k hk hge).imp_right .inr
    · intro o₁ seq o₂ he k hk hlt
      obtain ⟨hin, hbefore⟩ := hsplit o₁ seq o₂ he
      exact hbefore k ((hmem k).mpr (.inr ⟨hk, (Nat.le_of_lt hlt).trans (hseq seq hin)⟩)) hlt
    · intro seq' cls' he
      simp only [GapEvent.item.injEq] at he
      obtain ⟨rfl, rfl⟩ := he
      exact .inr (.inl List.mem_cons_self)
    · intro k hk
      rw [hdrained]
      rcases Nat.lt_or_ge c' k with hck | hkc
      · exact .inl (List.mem_filter.mpr ⟨hk, decide_eq_true hck⟩)
      · exact .inr (.inl ((hmem k).mpr (.inr ⟨hk, hkc⟩)))

theorem Orderly.snoc (ho : Orderly start tr) (hl : GapLog start tr g) (hs : StepOrder start tr g e out g') :
    Orderly start (tr ++ [(e, ⟨out, g'.contiguous, g'.held⟩)]) := by
  constructor
  · rw [processed_snoc, List.nodup_append]
    refine ⟨ho.once, hs.nodup, ?_⟩
    rintro a ha b hb rfl
    exact hs.fresh a hb ha
  · intro tr₁ e' out' tr₂ htr o₁ seq o₂ he htaken k hk hlt
    rcases snoc_split htr with ⟨rfl, hx, rfl⟩ | ⟨tr₂', rfl, rfl⟩
    · simp only [Prod.mk.injEq] at hx
      obtain ⟨rfl, rfl⟩ := hx
      exact hs.handshake o₁ seq o₂ he (taken_snoc htaken) k hk hlt
    · exact ho.handshake tr₁ e' out' tr₂' rfl o₁ seq o₂ he htaken k hk hlt
  · intro tr₁ e' out' tr₂ htr o₁ seq o₂ he k hk hlt
    rcases snoc_split htr with ⟨rfl, hx, rfl⟩ | ⟨tr₂', rfl, rfl⟩
    · simp only [Prod.mk.injEq] at hx
      obtain ⟨rfl, rfl⟩ := hx
      rw [hl.held] at hk
      exact hs.afterHeld o₁ seq o₂ he k hk hlt
    · exact ho.afterHeld tr₁ e' out' tr₂' rfl o₁ seq o₂ he k hk hlt
  · intro tr₁ seq cls out' tr₂ htr
    rw [heldAfter_snoc]
    rcases snoc_split htr with ⟨rfl, hx, rfl⟩ | ⟨tr₂', rfl, rfl⟩
    · simp only [Prod.mk.injEq] at hx
      obtain ⟨rfl, rfl⟩ := hx
      exact (hs.reported seq cls rfl).imp_right (Or.imp_right (And.imp_right .inl))
    · refine (ho.reported tr₁ seq cls out' tr₂' rfl).imp_right (Or.imp_right ?_)
      rintro ⟨hheld, hfate⟩
      refine ⟨hheld, ?_⟩
      rcases hfate with hin | hin | ⟨e', o', held, hin, hr, hmem⟩
      · rw [hl.held] at hin
        rcases hs.kept seq hin with hk | hk | ⟨held, hr, hmem⟩
        · exact .inl hk
        · exact .inr (.inl (mem_processed_snoc.mpr (.inr hk)))
        · exact .inr (.inr ⟨e, _, held, List.mem_append_right _ List.mem_cons_self, hr, hmem⟩)
      · exact .inr (.inl (mem_processed_snoc.mpr (.inl hin)))
      · exact .inr (.inr ⟨e', o', held, List.mem_append_left _ hin, hr, hmem⟩)

theorem orderly_exec (events : List GapEvent) (ho : Orderly start tr) (hl : GapLog start tr g) :
    Orderly start (tr ++ (TSys.exec GapTracker.step g events).1) := by
  induction events generalizing tr g with
  | nil =>
    unfold TSys.exec
    rwa [List.append_nil]
  | cons e events ih =>
    -- the other tracker only lends its step
    have hboth := bothStep_of_standing hl.standing e
    obtain ⟨hl', hs⟩ := hl.step hboth.step hboth.standing
    have hrest := ih (ho.snoc hl hs) hl'
    rw [List.append_assoc] at hrest
    exact hrest

end Step

theorem GapLog.init (ctx : GapContext) : GapLog ctx.contiguous [] (GapTracker.init ctx) where
  standing := GapTracker.standing_init ctx
  floor := le_rfl
  held := rfl
  below k hk hle := absurd hk (not_lt.mpr hle)
  ahead k hk := absurd hk (Finset.notMem_empty k)
  origin k hk := absurd hk List.not_mem_nil
  taken k cls h := by
    obtain ⟨out, h, -⟩ := h
    exact absurd h List.not_mem_nil
  received k hk := hk.elim (fun hk => absurd hk (Finset.notMem_empty k))
    fun hk => absurd hk List.not_mem_nil

theorem orderly_nil (start : Nat) : Orderly start [] where
  once := List.nodup_nil
  handshake tr₁ e out tr₂ h := absurd h (by simp)
  afterHeld tr₁ e out tr₂ h := absurd h (by simp)
  reported tr₁ seq cls out tr₂ h := absurd h (by simp)

/-- **The two gap trackers agree**, and process every item at most once and in
order. -/
theorem gap_trackers_agree (ctx : GapContext) (events : List GapEvent) :
    (TSys.exec Ts.GapTracker.step (Ts.GapTracker.init ctx) events).1 =
        (TSys.exec GapTracker.step (GapTracker.init ctx) events).1 ∧
      Orderly ctx.contiguous (TSys.exec GapTracker.step (GapTracker.init ctx) events).1 := by
  refine ⟨(tracks_init ctx).exec (GapTracker.standing_init ctx) events, ?_⟩
  have h := orderly_exec events (orderly_nil ctx.contiguous) (GapLog.init ctx)
  rwa [List.nil_append] at h

/-- A handshake beyond a gap waits, and what was received after it with it. -/
example : ((TSys.exec GapTracker.step (GapTracker.init { now := 0 })
    [.item 3 .handshake, .item 4 .application, .item 1 .application, .item 2 .application]).1.map
      (·.2.emit)) = [[.hold 3], [.hold 4], [.process 1], [.process 2, .process 3, .process 4]] := by
  decide

end Dsip.Messaging
