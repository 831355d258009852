import Dsip.Messaging.ClientTs

/-!
# The two clients agree

Both clients keep the same tables whatever they are given. What they show and send
is the same as long as the contents arrive in seq order and no batch owes more
`delivered` targets than one receipt holds.
-/

namespace Dsip.Messaging.Client

open Dsip.Lib

/-! ## What a batch brings -/

/-- The contents of a batch that are not held yet, each id once. -/
def newEntries (held : Finset String) : List Item → List (String × Held)
  | [] => []
  | ⟨seq, .content o⟩ :: items =>
    if o.id ∈ held then newEntries held items
    else (o.id, ⟨o.sender, seq, o.kind⟩) :: newEntries (insert o.id held) items
  | _ :: items => newEntries held items

/-- The item is a `delivered` receipt of `me` for `id`. -/
def Item.acknowledges (it : Item) (me id : String) : Bool :=
  match it.object with
  | .receipt o => o.kind = "delivered" && o.sender = me && id ∈ o.targets
  | _ => false

/-- The new contents of others that no later receipt of `me` in the batch acknowledges. -/
def owed (me : String) (held : Finset String) : List Item → List String
  | [] => []
  | ⟨_, .content o⟩ :: items =>
    if o.id ∈ held then owed me held items
    else if o.sender ≠ me && !items.any (·.acknowledges me o.id) then
      o.id :: owed me (insert o.id held) items
    else owed me (insert o.id held) items
  | _ :: items => owed me held items

def heldIds (c : Client) : Finset String := c.content.keys.toFinset

/-- The new contents come in seq order, after everything held. -/
structure ArrivesInOrder (c : Client) (items : List Item) : Prop where
  sorted : (newEntries c.heldIds items).Pairwise fun a b => a.2.seq ≤ b.2.seq
  late : ∀ e ∈ newEntries c.heldIds items, ∀ i held, c.content.lookup i = some held → held.seq ≤ e.2.seq

/-- One receipt holds what the client owes for a batch. -/
def FitsOneReceipt (c : Client) (items : List Item) : Prop :=
  c.policy.delivered = true → c.members ≤ deliveredMaxGroup →
    (owed c.me c.heldIds items).length ≤ receiptMaxTargets

/-- An event that both clients treat alike. -/
def Fits (c : Client) : Event → Prop
  | .sync items => c.ArrivesInOrder items ∧ c.FitsOneReceipt items
  | .restore items => c.ArrivesInOrder items
  | _ => True

/-- Every event of a run does. -/
def FitsRun (c : Client) : List Event → Prop
  | [] => True
  | e :: events => c.Fits e ∧ FitsRun (c.step e).1 events

/-- A timeline in the seq order of its contents. -/
def InSeqOrder (content : Dict String Held) (timeline : List String) : Prop :=
  timeline.Pairwise fun i j => ∀ a b, content.lookup i = some a → content.lookup j = some b → a.seq ≤ b.seq

/-! ## The same tables -/

def Filled (b : Book) : Prop := ∀ k m, b.lookup k = some m → m.keys.isEmpty = false

/-- The two clients hold the same. -/
structure Agree (c : Client) (t : Ts.Client) : Prop where
  me : c.me = t.ctx.me
  policy : c.policy = t.ctx.policy
  members : c.members = t.ctx.memberIdentities
  now : c.now = t.now
  content : c.content = t.content
  timeline : c.timeline = c.content.inOrder.map (·.1)
  delivered : c.delivered = t.delivered
  played : c.played = t.played
  filled : Filled c.delivered
  aboutHeld : ∀ i ∈ c.delivered, i ∈ c.content
  filledPlayed : Filled c.played
  readThrough : c.readThrough = t.readThrough
  readHeld : ∀ who id, c.readThrough.lookup who = some id →
    ∃ held, c.content.lookup id = some held ∧ c.readSeq.lookup who = some held.seq
  unread : ∀ who, c.readThrough.lookup who = none → c.readSeq.lookup who = none
  sentDelivered : ∀ i ∈ c.sentDelivered, i ∈ c.content
  sentPlayed : c.sentPlayed = t.playedSent
  lastReadSent : c.lastReadSent = t.lastReadSent
  pendingRead : c.pendingRead = t.readPending
  pendingSent : c.pendingRead = true → c.lastReadSent.isSome = true
  lastActivity : c.lastActivity = t.lastActivitySent
  shown : ∀ who, c.shown.lookup who = t.activity.lookup who
  filledShown : Filled c.shown

variable {c : Client} {t : Ts.Client}

theorem agree_init (ctx : Context) : Agree (init ctx) (.init ctx) where
  me := rfl
  policy := rfl
  members := rfl
  now := rfl
  content := rfl
  timeline := rfl
  delivered := rfl
  played := rfl
  filled _ _ h := by cases h
  aboutHeld _ h := by cases h
  filledPlayed _ _ h := by cases h
  readThrough := rfl
  readHeld _ _ h := by cases h
  unread _ _ := rfl
  sentDelivered _ h := by cases h
  sentPlayed := rfl
  lastReadSent := rfl
  pendingRead := rfl
  pendingSent h := by cases h
  lastActivity := rfl
  shown _ := rfl
  filledShown _ _ h := by cases h

theorem Filled.insert {b : Book} (h : Filled b) (k : String) {m : Dict String Int}
    (hm : m.keys.isEmpty = false) : Filled (b.insert k m) := by
  intro k' m' hlookup
  rw [Dict.lookup_insert_eq] at hlookup
  split at hlookup
  case isTrue => cases hlookup; exact hm
  case isFalse => exact h k' m' hlookup

theorem keys_insert (m : Dict String Int) (k : String) (v : Int) :
    (AList.insert k v m).keys.isEmpty = false := by
  rw [AList.keys_insert]
  rfl

theorem notMem_iff (b : Book) (id who : String) :
    who ∉ (b.lookup id).getD ∅ ↔ ((b.lookup id).bind (·.lookup who)).isSome = false := by
  cases b.lookup id with
  | none => exact iff_of_true (AList.notMem_empty who) rfl
  | some m =>
    rw [← AList.lookup_isSome]
    simp

theorem ts_mark (content : Dict String Held) (o : Receipt) : Ts.Client.mark content o = mark content o := by
  funext s id
  unfold Ts.Client.mark mark
  rw [show Ts.media = mediaKinds from rfl]
  cases content.lookup id with
  | none => rfl
  | some held =>
    have hseen := notMem_iff s.1 id o.sender
    dsimp only
    by_cases hsender : held.sender = o.sender
    · rw [if_pos (Or.inl hsender), if_pos hsender]
    · rw [if_neg hsender]
      by_cases hmedia : o.kind = "played" ∧ held.kind ∉ mediaKinds
      · rw [if_pos hmedia, if_pos (Or.inr hmedia)]
      · rw [if_neg hmedia, if_neg (not_or.mpr ⟨hsender, hmedia⟩)]
        by_cases hnew : o.sender ∉ (s.1.lookup id).getD ∅
        · rw [if_pos hnew, if_neg (by rw [hseen.mp hnew]; exact Bool.false_ne_true)]
        · rw [if_neg hnew, if_pos (Bool.eq_true_of_not_eq_false (mt hseen.mpr hnew))]

theorem mark_about {content : Dict String Held} {o : Receipt} (s : Book × Bool) (id : String) {i : String}
    (h : i ∈ (mark content o s id).1) : i ∈ s.1 ∨ i ∈ content := by
  unfold mark at h
  cases hid : content.lookup id with
  | none =>
    rw [hid] at h
    exact Or.inl h
  | some held =>
    rw [hid] at h
    dsimp only at h
    split at h
    case isTrue => exact Or.inl h
    case isFalse =>
      split at h
      case isTrue => exact Or.inl h
      case isFalse =>
        split at h
        case isFalse => exact Or.inl h
        case isTrue =>
          rcases (AList.mem_insert _).mp h with rfl | h
          · exact Or.inr (Dict.mem_iff_lookup.mpr ⟨held, hid⟩)
          · exact Or.inl h

theorem marks_about {content : Dict String Held} {o : Receipt} (ids : List String) {i : String} :
    ∀ s : Book × Bool, i ∈ (ids.foldl (mark content o) s).1 → i ∈ s.1 ∨ i ∈ content := by
  induction ids with
  | nil => exact fun s h => Or.inl h
  | cons id ids ih =>
    intro s h
    rcases ih _ h with h | h
    · exact mark_about s id h
    · exact Or.inr h

theorem mark_filled {content : Dict String Held} {o : Receipt} (s : Book × Bool) (id : String)
    (h : Filled s.1) : Filled (mark content o s id).1 := by
  unfold mark
  cases content.lookup id with
  | none => exact h
  | some held =>
    dsimp only
    split
    case isTrue => exact h
    case isFalse =>
      split
      case isTrue => exact h
      case isFalse =>
        split
        case isTrue => exact h.insert id (keys_insert _ _ _)
        case isFalse => exact h

theorem marks_filled {content : Dict String Held} {o : Receipt} (ids : List String) :
    ∀ s : Book × Bool, Filled s.1 → Filled (ids.foldl (mark content o) s).1 := by
  induction ids with
  | nil => exact fun s h => h
  | cons id ids ih => exact fun s h => ih _ (mark_filled s id h)

/-! ## Receipts -/

theorem Agree.advances (h : Agree c t) (who through : String) : t.advances who (some through) =
      (c.content.lookup through).any fun held =>
        ((c.readSeq.lookup who).map (·.val)).getD 0 < held.seq := by
  unfold Ts.Client.advances
  rw [← h.content, ← h.readThrough, Option.bind_some]
  cases c.content.lookup through with
  | none => rfl
  | some target =>
    cases hthrough : c.readThrough.lookup who with
    | none =>
      simp [h.unread who hthrough]
    | some current =>
      obtain ⟨held, hheld, hseq⟩ := h.readHeld who current hthrough
      simp only [hheld, hseq, Option.any_some, Option.map_some, Option.getD_some, gt_iff_lt]
      rfl

theorem Agree.watermark (h : Agree c t) (who : String) {through : String} {held : Held}
    (hheld : c.content.lookup through = some held) :
    Agree { c with readSeq := c.readSeq.insert who held.seq,
                   readThrough := c.readThrough.insert who through }
      { t with readThrough := t.readThrough.insert who through } :=
  { h with
    readThrough := congrArg (AList.insert who through) h.readThrough
    readHeld := by
      intro who' id hid
      dsimp only at hid ⊢
      rw [Dict.lookup_insert_eq] at hid
      rw [Dict.lookup_insert_eq]
      split at hid
      case isTrue hwho =>
        cases hid
        exact ⟨held, hheld, if_pos hwho⟩
      case isFalse hwho =>
        rw [if_neg hwho]
        exact h.readHeld who' id hid
    unread := by
      intro who' hnone
      dsimp only at hnone ⊢
      rw [Dict.lookup_insert_eq] at hnone
      rw [Dict.lookup_insert_eq]
      split at hnone
      case isTrue => cases hnone
      case isFalse hwho =>
        rw [if_neg hwho]
        exact h.unread who' hnone }

theorem Agree.receipt (h : Agree c t) (o : Receipt) :
    Agree (c.receipt o).1 (t.receipt o).1 ∧ (t.receipt o).2 = (c.receipt o).2 := by
  unfold Client.receipt Ts.Client.receipt
  simp only [ts_mark, ← h.content, ← h.delivered, ← h.played]
  by_cases hdelivered : o.kind = "delivered"
  · simp only [hdelivered, true_or, if_true, if_neg (show ¬"delivered" = "read" by decide)]
    exact ⟨{ h with
      content := rfl
      delivered := rfl
      played := rfl
      filled := marks_filled _ _ h.filled
      aboutHeld := fun i hi => (marks_about _ _ hi).elim (h.aboutHeld i) id }, trivial⟩
  · by_cases hplayed : o.kind = "played"
    · simp only [hplayed, or_true, if_true, if_neg (show ¬"played" = "read" by decide),
        if_neg (show ¬"played" = "delivered" by decide)]
      exact ⟨{ h with
        content := rfl
        delivered := rfl
        played := rfl
        filledPlayed := marks_filled _ _ h.filledPlayed }, trivial⟩
    · rw [if_neg (not_or.mpr ⟨hdelivered, hplayed⟩), if_neg hdelivered, if_neg hplayed]
      split
      case isFalse => exact ⟨h, rfl⟩
      case isTrue =>
        cases o.through with
        | none => exact ⟨h, rfl⟩
        | some through =>
          dsimp only
          rw [h.advances]
          cases hheld : c.content.lookup through with
          | none => exact ⟨h, rfl⟩
          | some held =>
            simp only [Option.any_some, Bool.not_eq_true', decide_eq_false_iff_not]
            by_cases hlt : ((c.readSeq.lookup o.sender).map (·.val)).getD 0 < held.seq
            · rw [if_pos hlt, if_neg (not_not.mpr hlt)]
              exact ⟨{ h.watermark o.sender hheld with content := rfl, delivered := rfl, played := rfl }, rfl⟩
            · rw [if_neg hlt, if_pos hlt]
              exact ⟨h, rfl⟩

/-! ## Batches -/

/-- The part of a batch read so far: what both hold, and what is fresh. -/
structure Batched (c : Client) (t : Ts.Client) (fresh fresh' : List String) : Prop extends
    Agree c t where
  others : fresh' = fresh.filter fun i => (c.content.lookup i).any (·.sender ≠ c.me)
  held : ∀ i ∈ fresh, i ∈ c.content
  unsent : ∀ i ∈ fresh, i ∉ c.sentDelivered

theorem Agree.take (h : Agree c t) (seq : ℕ+) {o : Content} (hnew : o.id ∉ c.content) :
    Agree (c.take seq o) { t with content := t.content.insert o.id ⟨o.sender, seq, o.kind⟩ } :=
  { h with
    content := by
      show c.content.insert o.id _ = t.content.insert o.id _
      rw [h.content]
    timeline := by
      show c.timeline ++ [o.id] = (Dict.inOrder (c.content.insert o.id _)).map (·.1)
      rw [Dict.inOrder_insert_new hnew, List.map_append, ← h.timeline]
      rfl
    readHeld := by
      intro who id hid
      obtain ⟨held, hheld, hseq⟩ := h.readHeld who id hid
      refine ⟨held, ?_, hseq⟩
      show (c.content.insert o.id _).lookup id = some held
      rw [Dict.lookup_insert_eq, if_neg, hheld]
      rintro rfl
      exact hnew (Dict.mem_iff_lookup.mpr ⟨held, hheld⟩)
    aboutHeld := fun i hi => (AList.mem_insert _).mpr (Or.inr (h.aboutHeld i hi))
    sentDelivered := fun i hi => (AList.mem_insert _).mpr (Or.inr (h.sentDelivered i hi)) }

theorem receipt_writes (c : Client) (o : Receipt) : ∃ delivered played readSeq readThrough,
    (c.receipt o).1 = { c with delivered := delivered, played := played, readSeq := readSeq,
                               readThrough := readThrough } := by
  unfold Client.receipt
  by_cases hdelivered : o.kind = "delivered"
  · simp only [hdelivered, true_or, if_true]
    exact ⟨_, _, _, _, rfl⟩
  · by_cases hplayed : o.kind = "played"
    · simp only [hplayed, or_true, if_true, if_neg (show ¬"played" = "delivered" by decide)]
      exact ⟨_, _, _, _, rfl⟩
    · rw [if_neg (not_or.mpr ⟨hdelivered, hplayed⟩)]
      split
      case isFalse => exact ⟨_, _, _, _, rfl⟩
      case isTrue =>
        cases o.through with
        | none => exact ⟨_, _, _, _, rfl⟩
        | some through =>
          dsimp only
          cases c.content.lookup through with
          | none => exact ⟨_, _, _, _, rfl⟩
          | some held =>
            dsimp only
            split
            case isTrue => exact ⟨_, _, _, _, rfl⟩
            case isFalse => exact ⟨_, _, _, _, rfl⟩

@[simp] theorem receipt_content (c : Client) (o : Receipt) : (c.receipt o).1.content = c.content := by
  obtain ⟨_, _, _, _, h⟩ := receipt_writes c o
  rw [h]

@[simp] theorem receipt_me (c : Client) (o : Receipt) : (c.receipt o).1.me = c.me := by
  obtain ⟨_, _, _, _, h⟩ := receipt_writes c o
  rw [h]

@[simp] theorem receipt_sentDelivered (c : Client) (o : Receipt) :
    (c.receipt o).1.sentDelivered = c.sentDelivered := by
  obtain ⟨_, _, _, _, h⟩ := receipt_writes c o
  rw [h]

theorem lookup_take {seq : ℕ+} {o : Content} (hnew : o.id ∉ c.content) {i : String}
    (hi : i ∈ c.content) : (c.take seq o).content.lookup i = c.content.lookup i := by
  show (c.content.insert o.id _).lookup i = _
  rw [Dict.lookup_insert_eq, if_neg]
  rintro rfl
  exact hnew hi

theorem lookup_taken (seq : ℕ+) (o : Content) :
    (c.take seq o).content.lookup o.id = some ⟨o.sender, seq, o.kind⟩ := by
  show (c.content.insert o.id _).lookup o.id = _
  rw [AList.lookup_insert]

theorem Batched.item {fresh fresh' : List String} (h : Batched c t fresh fresh') (archive : List Emit)
    (it : Item) : ∃ c₁ t₁ fresh₁ fresh₁' archive₁, syncItem (c, fresh, archive) it = (c₁, fresh₁, archive₁) ∧
        Ts.Client.batchItem false (t, fresh', archive) it = (t₁, fresh₁', archive₁) ∧
          Batched c₁ t₁ fresh₁ fresh₁' := by
  obtain ⟨seq, object⟩ := it
  cases object with
  | other => exact ⟨c, t, fresh, fresh', archive, rfl, rfl, h⟩
  | receipt o =>
    obtain ⟨hreceipt, hchanged⟩ := h.toAgree.receipt o
    refine ⟨(c.receipt o).1, (t.receipt o).1, fresh, fresh',
      if (c.receipt o).2 then archive ++ [.archive seq] else archive, rfl, ?_, ?_⟩
    · simp only [Ts.Client.batchItem, hchanged, Bool.not_false, Bool.and_true]
    · exact { hreceipt with
        others := by rw [receipt_content, receipt_me]; exact h.others
        held := by rw [receipt_content]; exact h.held
        unsent := by rw [receipt_sentDelivered]; exact h.unsent }
  | content o =>
    by_cases hheld : o.id ∈ c.content
    · refine ⟨c, t, fresh, fresh', archive, if_pos hheld, ?_, h⟩
      exact if_pos (h.content ▸ hheld)
    · refine ⟨c.take seq o, _, fresh ++ [o.id], _, archive, if_neg hheld,
        if_neg (h.content ▸ hheld), ?_⟩
      exact { h.toAgree.take seq hheld with
        others := by
          have hold : (fresh.filter fun i => ((c.take seq o).content.lookup i).any (·.sender ≠ c.me)) =
              fresh' := by
            rw [h.others]
            apply List.filter_congr
            intro i hi
            rw [lookup_take hheld (h.held i hi)]
          show (if o.sender ≠ t.ctx.me then fresh' ++ [o.id] else fresh') = _
          rw [List.filter_append, ← h.me]
          show _ = (fresh.filter fun i => ((c.take seq o).content.lookup i).any (·.sender ≠ c.me)) ++
            [o.id].filter fun i => ((c.take seq o).content.lookup i).any (·.sender ≠ c.me)
          rw [hold, List.filter_singleton, lookup_taken]
          by_cases hmine : o.sender = c.me
          · simp [hmine]
          · simp [hmine]
        held := by
          intro i hi
          rw [List.mem_append, List.mem_singleton] at hi
          exact (AList.mem_insert _).mpr (hi.symm.imp id (h.held i))
        unsent := by
          intro i hi
          rcases List.mem_append.mp hi with hi | hi
          · exact h.unsent i hi
          · rw [List.mem_singleton.mp hi]
            exact fun hsent => hheld (h.sentDelivered _ hsent) }

theorem Batched.items (items : List Item) {c : Client} {t : Ts.Client} {fresh fresh' : List String}
    (h : Batched c t fresh fresh') (archive : List Emit) : ∃ c₁ t₁ fresh₁ fresh₁' archive₁,
      items.foldl syncItem (c, fresh, archive) = (c₁, fresh₁, archive₁) ∧
        items.foldl (Ts.Client.batchItem false) (t, fresh', archive) = (t₁, fresh₁', archive₁) ∧
          Batched c₁ t₁ fresh₁ fresh₁' := by
  induction items generalizing c t fresh fresh' archive with
  | nil => exact ⟨c, t, fresh, fresh', archive, rfl, rfl, h⟩
  | cons it items ih =>
    obtain ⟨c₁, t₁, fresh₁, fresh₁', archive₁, hc, ht, h₁⟩ := h.item archive it
    rw [List.foldl_cons, List.foldl_cons, hc, ht]
    exact ih h₁ archive₁

theorem Agree.restoreItem (h : Agree c t) (fresh : List String) (it : Item) :
    ∃ t₁ fresh₁, Ts.Client.batchItem true (t, fresh, []) it = (t₁, fresh₁, []) ∧
      Agree (c.restoreItem it) t₁ := by
  obtain ⟨seq, object⟩ := it
  cases object with
  | other => exact ⟨t, fresh, rfl, h⟩
  | receipt o =>
    refine ⟨(t.receipt o).1, fresh, ?_, (h.receipt o).1⟩
    simp only [Ts.Client.batchItem, Bool.not_true, Bool.and_false]
    rfl
  | content o =>
    unfold Client.restoreItem
    by_cases hheld : o.id ∈ c.content
    · refine ⟨t, fresh, if_pos (h.content ▸ hheld), ?_⟩
      dsimp only
      rw [if_neg (not_not.mpr hheld)]
      exact h
    · refine ⟨_, _, if_neg (h.content ▸ hheld), ?_⟩
      dsimp only
      rw [if_pos hheld]
      exact h.take seq hheld

theorem Agree.restore (items : List Item) {c : Client} {t : Ts.Client} (h : Agree c t) :
    Agree (c.restore items) (t.batch items true).1 ∧ (t.batch items true).2 = [] := by
  have hfold : ∀ (items : List Item) {c : Client} {t : Ts.Client} (fresh : List String), Agree c t →
      ∃ t₁ fresh₁, items.foldl (Ts.Client.batchItem true) (t, fresh, []) = (t₁, fresh₁, []) ∧
        Agree (c.restore items) t₁ := by
    intro items
    induction items with
    | nil => exact fun fresh h => ⟨_, fresh, rfl, h⟩
    | cons it items ih =>
      intro c t fresh h
      obtain ⟨t₁, fresh₁, ht, h₁⟩ := h.restoreItem fresh it
      rw [List.foldl_cons, ht]
      exact ih fresh₁ h₁
  obtain ⟨t₁, fresh₁, ht, h₁⟩ := hfold items [] h
  unfold Ts.Client.batch
  rw [ht]
  exact ⟨h₁, rfl⟩

/-! ## What a batch owes -/

/-- `who` has receipted `i`. -/
def Noted (b : Book) (who i : String) : Prop := who ∈ (b.lookup i).getD ∅

instance (b : Book) (who i : String) : Decidable (Noted b who i) :=
  inferInstanceAs (Decidable (who ∈ (b.lookup i).getD ∅))

theorem mark_noted {content : Dict String Held} {o : Receipt} (s : Book × Bool) {id who i : String}
    (hkind : o.kind ≠ "played") : Noted (mark content o s id).1 who i ↔ Noted s.1 who i ∨
      (who = o.sender ∧ i = id ∧ (content.lookup id).any (·.sender ≠ o.sender) = true) := by
  unfold mark
  cases content.lookup id with
  | none => simp
  | some held =>
    dsimp only
    by_cases hsender : held.sender = o.sender
    · rw [if_pos hsender]
      simp [hsender]
    · rw [if_neg hsender, if_neg (fun hk => hkind hk.1)]
      by_cases hseen : o.sender ∈ (s.1.lookup id).getD ∅
      · rw [if_neg (not_not.mpr hseen)]
        refine ⟨Or.inl, ?_⟩
        rintro (h | ⟨rfl, rfl, -⟩)
        · exact h
        · exact hseen
      · rw [if_pos hseen]
        unfold Noted
        rw [Dict.lookup_insert_eq]
        by_cases hi : i = id
        · subst hi
          simp [hsender, or_comm]
        · simp [hi]

theorem marks_noted {content : Dict String Held} {o : Receipt} (hkind : o.kind ≠ "played") {who i : String}
    (ids : List String) : ∀ s : Book × Bool, Noted (ids.foldl (mark content o) s).1 who i ↔ Noted s.1 who i ∨
        (who = o.sender ∧ i ∈ ids ∧ (content.lookup i).any (·.sender ≠ o.sender) = true) := by
  induction ids with
  | nil => simp
  | cons id ids ih =>
    intro s
    rw [List.foldl_cons, ih, mark_noted s hkind, List.mem_cons]
    constructor
    · rintro ((h | ⟨hwho, rfl, hany⟩) | ⟨hwho, hi, hany⟩)
      · exact Or.inl h
      · exact Or.inr ⟨hwho, Or.inl rfl, hany⟩
      · exact Or.inr ⟨hwho, Or.inr hi, hany⟩
    · rintro (h | ⟨hwho, rfl | hi, hany⟩)
      · exact Or.inl (Or.inl h)
      · exact Or.inl (Or.inr ⟨hwho, rfl, hany⟩)
      · exact Or.inr ⟨hwho, hi, hany⟩

theorem receipt_delivered_eq {o : Receipt} (hkind : o.kind = "delivered") :
    (c.receipt o).1.delivered = (o.targets.foldl (mark c.content o) (c.delivered, false)).1 := by
  unfold Client.receipt
  simp only [hkind, true_or, if_true]

theorem receipt_other_eq {o : Receipt} (hkind : o.kind ≠ "delivered") :
    (c.receipt o).1.delivered = c.delivered := by
  unfold Client.receipt
  by_cases hplayed : o.kind = "played"
  · simp only [hplayed, or_true, if_true, if_neg (show ¬"played" = "delivered" by decide)]
  · rw [if_neg (not_or.mpr ⟨hkind, hplayed⟩)]
    split
    case isFalse => rfl
    case isTrue =>
      cases o.through with
      | none => rfl
      | some through =>
        dsimp only
        cases c.content.lookup through with
        | none => rfl
        | some held =>
          dsimp only
          split <;> rfl

theorem syncItem_noted (fresh : List String) (archive : List Emit) (it : Item) {i : String} {held : Held}
    (hheld : c.content.lookup i = some held) (hother : held.sender ≠ c.me) :
    Noted (syncItem (c, fresh, archive) it).1.delivered c.me i ↔
      Noted c.delivered c.me i ∨ it.acknowledges c.me i = true := by
  obtain ⟨seq, object⟩ := it
  cases object with
  | other => simp [syncItem, Item.acknowledges]
  | content o =>
    have hsame : (syncItem (c, fresh, archive) ⟨seq, .content o⟩).1.delivered = c.delivered := by
      unfold syncItem
      dsimp only
      split <;> rfl
    rw [hsame]
    simp [Item.acknowledges]
  | receipt o =>
    show Noted (c.receipt o).1.delivered c.me i ↔ _
    by_cases hkind : o.kind = "delivered"
    · rw [receipt_delivered_eq hkind, marks_noted (by rw [hkind]; decide)]
      refine or_congr_right ?_
      simp only [hheld, Option.any_some, decide_eq_true_eq, Item.acknowledges, hkind,
        Bool.and_eq_true, decide_true, true_and]
      constructor
      · rintro ⟨hme, hi, -⟩
        exact ⟨hme.symm, hi⟩
      · rintro ⟨hme, hi⟩
        exact ⟨hme.symm, hi, hme ▸ hother⟩
    · rw [receipt_other_eq hkind]
      simp [Item.acknowledges, hkind]

/-- What reading items leaves as it was. -/
structure Kept (c c' : Client) : Prop where
  me : c'.me = c.me
  policy : c'.policy = c.policy
  members : c'.members = c.members
  held : ∀ i held, c.content.lookup i = some held → c'.content.lookup i = some held

theorem Kept.refl (c : Client) : Kept c c := ⟨rfl, rfl, rfl, fun _ _ h => h⟩

theorem Kept.trans {c c' c'' : Client} (h : Kept c c') (h' : Kept c' c'') : Kept c c'' where
  me := h'.me.trans h.me
  policy := h'.policy.trans h.policy
  members := h'.members.trans h.members
  held i held hi := h'.held i held (h.held i held hi)

theorem receipt_kept (c : Client) (o : Receipt) : Kept c (c.receipt o).1 := by
  obtain ⟨_, _, _, _, h⟩ := receipt_writes c o
  rw [h]
  exact ⟨rfl, rfl, rfl, fun _ _ h => h⟩

theorem take_kept {o : Content} (hnew : o.id ∉ c.content) (seq : ℕ+) : Kept c (c.take seq o) := by
  refine ⟨rfl, rfl, rfl, fun i held h => ?_⟩
  rw [lookup_take hnew (Dict.mem_iff_lookup.mpr ⟨held, h⟩), h]

theorem syncItem_kept (fresh : List String) (archive : List Emit) (it : Item) :
    Kept c (syncItem (c, fresh, archive) it).1 := by
  obtain ⟨seq, object⟩ := it
  cases object with
  | other => exact Kept.refl c
  | receipt o => exact receipt_kept c o
  | content o =>
    by_cases hheld : o.id ∈ c.content
    · rw [show syncItem (c, fresh, archive) ⟨seq, .content o⟩ = (c, fresh, archive) from if_pos hheld]
      exact Kept.refl c
    · rw [show syncItem (c, fresh, archive) ⟨seq, .content o⟩ = (c.take seq o, fresh ++ [o.id], archive) from
        if_neg hheld]
      exact take_kept hheld seq

theorem syncItems_kept (items : List Item) {c : Client} (fresh : List String) (archive : List Emit) :
    Kept c (items.foldl syncItem (c, fresh, archive)).1 := by
  induction items generalizing c fresh archive with
  | nil => exact Kept.refl c
  | cons it items ih =>
    exact (syncItem_kept fresh archive it).trans (ih (c := (syncItem (c, fresh, archive) it).1) _ _)

theorem syncItems_noted (items : List Item) {c : Client} (fresh : List String) (archive : List Emit)
    {i : String} {held : Held} (hheld : c.content.lookup i = some held) (hother : held.sender ≠ c.me) :
    Noted (items.foldl syncItem (c, fresh, archive)).1.delivered c.me i ↔
      Noted c.delivered c.me i ∨ items.any (·.acknowledges c.me i) = true := by
  induction items generalizing c fresh archive with
  | nil => simp
  | cons it items ih =>
    have hkept := syncItem_kept (c := c) fresh archive it
    have hrest := ih (c := (syncItem (c, fresh, archive) it).1) (syncItem (c, fresh, archive) it).2.1
      (syncItem (c, fresh, archive) it).2.2 (hkept.held i held hheld) (hkept.me ▸ hother)
    rw [hkept.me, syncItem_noted fresh archive it hheld hother] at hrest
    rw [List.foldl_cons, List.any_cons, Bool.or_eq_true]
    exact hrest.trans or_assoc

/-- Receipts are kept about what is held. -/
def AboutHeld (c : Client) : Prop := ∀ i ∈ c.delivered, i ∈ c.content

theorem receipt_about (h : c.AboutHeld) (o : Receipt) : (c.receipt o).1.AboutHeld := by
  intro i hi
  rw [receipt_content]
  by_cases hkind : o.kind = "delivered"
  · rw [receipt_delivered_eq hkind] at hi
    exact (marks_about _ _ hi).elim (h i) id
  · rw [receipt_other_eq hkind] at hi
    exact h i hi

theorem take_about (h : c.AboutHeld) (seq : ℕ+) (o : Content) : (c.take seq o).AboutHeld :=
  fun i hi => (AList.mem_insert _).mpr (Or.inr (h i hi))

theorem heldIds_take (c : Client) (seq : ℕ+) (o : Content) :
    (c.take seq o).heldIds = insert o.id c.heldIds := by
  ext i
  show i ∈ (AList.insert o.id _ c.content).keys.toFinset ↔ _
  rw [List.mem_toFinset, ← AList.mem_keys, AList.mem_insert, Finset.mem_insert, heldIds,
    List.mem_toFinset, ← AList.mem_keys]

theorem mem_heldIds {i : String} : i ∈ c.heldIds ↔ i ∈ c.content := by
  rw [heldIds, List.mem_toFinset, ← AList.mem_keys]

/-- `i` is another's, without a receipt of this identity. -/
def owes (c : Client) (i : String) : Bool :=
  (c.content.lookup i).any (·.sender ≠ c.me) && c.me ∉ (c.delivered.lookup i).getD ∅

/-- What reading a batch adds, and what is owed for it. -/
structure Brought (c : Client) (fresh : List String) (items : List Item) (r : Client × List String) :
    Prop where
  fresh : r.2 = fresh ++ (newEntries c.heldIds items).map (·.1)
  content : r.1.content.inOrder = c.content.inOrder ++ newEntries c.heldIds items
  owed : ((newEntries c.heldIds items).map (·.1)).filter r.1.owes = owed c.me c.heldIds items

theorem owes_taken (h : c.AboutHeld) (seq : ℕ+) {o : Content} (hnew : o.id ∉ c.content)
    (items : List Item) (fresh : List String) (archive : List Emit) :
    (items.foldl syncItem (c.take seq o, fresh, archive)).1.owes o.id =
      (o.sender ≠ c.me && !items.any (·.acknowledges c.me o.id)) := by
  have hkept := syncItems_kept items (c := c.take seq o) fresh archive
  have hlookup := hkept.held o.id _ (lookup_taken seq o)
  have hclean : ¬Noted (c.take seq o).delivered c.me o.id := by
    have hnone : c.delivered.lookup o.id = none := AList.lookup_eq_none.mpr fun hd => hnew (h o.id hd)
    show c.me ∉ (c.delivered.lookup o.id).getD ∅
    rw [hnone]
    exact AList.notMem_empty _
  unfold owes
  rw [hlookup, hkept.me]
  show (decide (o.sender ≠ c.me) && decide ¬Noted _ c.me o.id) = _
  by_cases hmine : o.sender = c.me
  · simp [hmine]
  · have hnoted := (syncItems_noted items fresh archive (lookup_taken seq o) hmine).trans
      (or_iff_right hclean)
    rw [show (c.take seq o).me = c.me from rfl] at hnoted
    simp only [hnoted, decide_not, Bool.decide_eq_true]

theorem syncItems_brought (items : List Item) {c : Client} (h : c.AboutHeld) (fresh : List String)
    (archive : List Emit) : Brought c fresh items ((items.foldl syncItem (c, fresh, archive)).1,
      (items.foldl syncItem (c, fresh, archive)).2.1) := by
  induction items generalizing c fresh archive with
  | nil => exact ⟨by simp [newEntries], by simp [newEntries], by simp [newEntries, Client.owed]⟩
  | cons it items ih =>
    obtain ⟨seq, object⟩ := it
    cases object with
    | other =>
      obtain ⟨hfresh, hcontent, howed⟩ := ih h fresh archive
      exact ⟨hfresh, hcontent, howed⟩
    | receipt o =>
      have hrest := ih (receipt_about h o) fresh
        (if (c.receipt o).2 then archive ++ [.archive seq] else archive)
      have hheld : (c.receipt o).1.heldIds = c.heldIds := by rw [heldIds, receipt_content, heldIds]
      obtain ⟨hfresh, hcontent, howed⟩ := hrest
      rw [hheld] at hfresh hcontent howed
      rw [receipt_content] at hcontent
      rw [receipt_me] at howed
      exact ⟨hfresh, hcontent, howed⟩
    | content o =>
      rw [List.foldl_cons]
      by_cases hheld : o.id ∈ c.content
      · rw [show syncItem (c, fresh, archive) ⟨seq, .content o⟩ = (c, fresh, archive) from if_pos hheld]
        obtain ⟨hfresh, hcontent, howed⟩ := ih h fresh archive
        have hskip : newEntries c.heldIds (⟨seq, .content o⟩ :: items) = newEntries c.heldIds items :=
          if_pos (mem_heldIds.mpr hheld)
        have hskip' : Client.owed c.me c.heldIds (⟨seq, .content o⟩ :: items) =
            Client.owed c.me c.heldIds items := if_pos (mem_heldIds.mpr hheld)
        exact ⟨by rw [hskip]; exact hfresh, by rw [hskip]; exact hcontent, by rw [hskip, hskip']; exact howed⟩
      · rw [show syncItem (c, fresh, archive) ⟨seq, .content o⟩ =
          (c.take seq o, fresh ++ [o.id], archive) from if_neg hheld]
        obtain ⟨hfresh, hcontent, howed⟩ := ih (take_about h seq o) (fresh ++ [o.id]) archive
        have howes := owes_taken h seq hheld items (fresh ++ [o.id]) archive
        rw [heldIds_take] at hfresh hcontent howed
        have hnot : o.id ∉ c.heldIds := fun hi => hheld (mem_heldIds.mp hi)
        have hnew : newEntries c.heldIds (⟨seq, .content o⟩ :: items) =
            (o.id, ⟨o.sender, seq, o.kind⟩) :: newEntries (insert o.id c.heldIds) items := if_neg hnot
        refine ⟨?_, ?_, ?_⟩
        · rw [hnew, hfresh, List.append_assoc]
          rfl
        · rw [hnew, hcontent]
          show Dict.inOrder (c.content.insert o.id _) ++ _ = _
          rw [Dict.inOrder_insert_new hheld, List.append_assoc]
          rfl
        · rw [hnew, List.map_cons, List.filter_cons]
          dsimp only
          rw [howes, howed]
          show _ = if o.id ∈ c.heldIds then _ else _
          rw [if_neg hnot]
          rfl

/-! ## What both emit -/

theorem Agree.sync (h : Agree c t) (items : List Item) : Agree (c.sync items).1 (t.batch items false).1 ∧
      (c.sync items).1.content.inOrder = c.content.inOrder ++ newEntries c.heldIds items ∧ ∃ archive,
          (c.sync items).2 = archive ++ (if c.policy.delivered && c.members ≤ deliveredMaxGroup then
            (chunks (owed c.me c.heldIds items)).map (.receipt "conversation" "delivered") else []) ∧
          (t.batch items false).2 = archive ++ (if c.policy.delivered && c.members ≤ deliveredMaxGroup &&
              !(owed c.me c.heldIds items).isEmpty then
            [.receipt "conversation" "delivered" (owed c.me c.heldIds items)] else []) := by
  have hstart : Batched c t [] [] := { h with
    others := rfl
    held := fun _ hi => absurd hi List.not_mem_nil
    unsent := fun _ hi => absurd hi List.not_mem_nil }
  have hbrought := syncItems_brought items h.aboutHeld [] []
  have hkept := syncItems_kept items (c := c) [] []
  obtain ⟨c₁, t₁, fresh, fresh', archive, hc, ht, h₁⟩ := hstart.items items []
  rw [hc] at hbrought hkept
  have hfresh : fresh = (newEntries c.heldIds items).map (·.1) := hbrought.fresh
  have howed : fresh.filter c₁.owes = owed c.me c.heldIds items := hfresh ▸ hbrought.owed
  have htargets : (fresh.filter fun i => (c₁.content.lookup i).any (·.sender ≠ c₁.me) &&
      c₁.me ∉ (c₁.delivered.lookup i).getD ∅ && i ∉ c₁.sentDelivered) = owed c.me c.heldIds items := by
    rw [← howed]
    apply List.filter_congr
    intro i hi
    rw [decide_eq_true (h₁.unsent i hi), Bool.and_true]
    rfl
  have htargets' : (fresh'.filter fun id =>
      ((t₁.delivered.lookup id).bind (·.lookup t₁.ctx.me)).isNone) = owed c.me c.heldIds items := by
    rw [← howed, h₁.others, List.filter_filter]
    apply List.filter_congr
    intro i _
    rw [← h₁.delivered, ← h₁.me, Bool.and_comm, owes, decide_eq_decide.mpr (notMem_iff c₁.delivered i c₁.me)]
    have hnone : ∀ m : Option Int, m.isNone = decide (m.isSome = false) := by
      rintro (_ | _) <;> rfl
    rw [hnone]
  have hallowed : (c₁.policy.delivered && decide (c₁.members ≤ deliveredMaxGroup)) =
      (c.policy.delivered && decide (c.members ≤ deliveredMaxGroup)) := by
    rw [hkept.policy, hkept.members]
  have hallowed' : (t₁.ctx.policy.delivered && decide (t₁.ctx.memberIdentities ≤ Ts.maxDeliveredGroup)) =
      (c.policy.delivered && decide (c.members ≤ deliveredMaxGroup)) := by
    rw [← h₁.policy, ← h₁.members, ← hallowed]
    rfl
  have hheld : ∀ i ∈ c₁.sentDelivered ∪ (owed c.me c.heldIds items).toFinset, i ∈ c₁.content := by
    intro i hi
    rcases Finset.mem_union.mp hi with hi | hi
    · exact h₁.sentDelivered i hi
    · rw [List.mem_toFinset, ← howed] at hi
      exact h₁.held i (List.mem_filter.mp hi).1
  unfold Client.sync Ts.Client.batch
  rw [hc, ht]
  dsimp only
  rw [htargets, htargets', hallowed, hallowed', Bool.not_false, Bool.true_and]
  cases hsends : c.policy.delivered && decide (c.members ≤ deliveredMaxGroup) with
  | false => exact ⟨h₁.toAgree, hbrought.content, archive, (List.append_nil _).symm, (List.append_nil _).symm⟩
  | true =>
    have hagree : Agree { c₁ with sentDelivered := c₁.sentDelivered ∪ (owed c.me c.heldIds items).toFinset } t₁ :=
      { h₁.toAgree with sentDelivered := hheld }
    rw [Bool.true_and, if_pos rfl, if_pos rfl]
    by_cases hsome : (!(owed c.me c.heldIds items).isEmpty) = true
    · rw [if_pos hsome, if_pos hsome]
      exact ⟨hagree, hbrought.content, archive, rfl, rfl⟩
    · rw [if_neg hsome, if_neg hsome]
      exact ⟨hagree, hbrought.content, archive, rfl, (List.append_nil _).symm⟩

theorem restoreItem_eq (fresh : List String) (archive : List Emit) (it : Item) :
    c.restoreItem it = (syncItem (c, fresh, archive) it).1 := by
  obtain ⟨seq, object⟩ := it
  cases object with
  | other => rfl
  | receipt o => rfl
  | content o =>
    unfold Client.restoreItem syncItem
    by_cases hheld : o.id ∈ c.content
    · simp only [hheld, not_true, if_true, if_false]
    · simp only [hheld, not_false_eq_true, if_true, if_false]

theorem restore_eq (items : List Item) {c : Client} (fresh : List String) (archive : List Emit) :
    c.restore items = (items.foldl syncItem (c, fresh, archive)).1 := by
  induction items generalizing c fresh archive with
  | nil => rfl
  | cons it items ih =>
    show (c.restoreItem it).restore items = _
    rw [List.foldl_cons, restoreItem_eq fresh archive it]
    exact ih _ _

theorem Agree.restore_inOrder (h : Agree c t) (items : List Item) :
    (c.restore items).content.inOrder = c.content.inOrder ++ newEntries c.heldIds items := by
  rw [restore_eq items [] []]
  exact (syncItems_brought items h.aboutHeld [] []).content

/-! ## The local events -/

theorem Agree.readSend (h : Agree c t) : Agree c.readSend.1 t.sendRead.1 ∧ t.sendRead.2 = c.readSend.2 := by
  refine ⟨{ h with
    lastReadSent := congrArg some h.now
    pendingRead := rfl
    pendingSent := fun _ => rfl }, ?_⟩
  show [Emit.read (if t.ctx.policy.read then _ else _) (t.readThrough.lookup t.ctx.me)] =
    [Emit.read (if c.policy.read then _ else _) (c.readThrough.lookup c.me)]
  rw [h.policy, h.readThrough, h.me]

theorem Agree.read (h : Agree c t) (through : String) :
    Agree (c.read through).1 (t.read through).1 ∧ (t.read through).2 = (c.read through).2 := by
  unfold Client.read Ts.Client.read
  rw [h.advances, ← h.me]
  cases hheld : c.content.lookup through with
  | none => exact ⟨h, rfl⟩
  | some held =>
    dsimp only
    rw [Option.any_some]
    by_cases hle : held.seq ≤ ((c.readSeq.lookup c.me).map (·.val)).getD 0
    · rw [if_pos hle, decide_eq_false (not_lt.mpr hle)]
      exact ⟨h, rfl⟩
    · rw [if_neg hle, decide_eq_true (not_le.mp hle), if_pos rfl]
      have hmarked := h.watermark c.me hheld
      have hsoon : (t.lastReadSent.any fun last => t.now - last < Ts.intervalS) =
          c.lastReadSent.any fun last => c.now - last < readMinIntervalS := by
        rw [h.lastReadSent, h.now]
        rfl
      rw [hsoon]
      cases hrecent : c.lastReadSent.any fun last => c.now - last < readMinIntervalS with
      | false => exact hmarked.readSend
      | true =>
        refine ⟨{ hmarked with pendingRead := rfl, pendingSent := fun _ => ?_ }, rfl⟩
        obtain ⟨last, hlast, -⟩ := Option.any_eq_true _ _ |>.mp hrecent
        exact Option.isSome_of_mem hlast

theorem Agree.play (h : Agree c t) (i : String) :
    Agree (c.play i).1 (t.play i).1 ∧ (t.play i).2 = (c.play i).2 := by
  have hsent : Agree { c with sentPlayed := insert i c.sentPlayed }
      { t with playedSent := insert i t.playedSent } :=
    { h with sentPlayed := congrArg (insert i) h.sentPlayed }
  have hcond : (t.ctx.policy.played && (t.content.lookup i).any (·.kind ∈ Ts.media) &&
      !(decide (i ∈ t.playedSent) || ((t.played.lookup i).bind (·.lookup t.ctx.me)).isSome)) =
        (c.content.lookup i).any fun held => !(decide (held.kind ∉ mediaKinds ∨ (!c.policy.played) = true ∨
          c.me ∈ (c.played.lookup i).getD ∅ ∨ i ∈ c.sentPlayed)) := by
    have hplayed := notMem_iff c.played i c.me
    rw [← h.content, ← h.policy, ← h.sentPlayed, ← h.played, ← h.me]
    cases c.content.lookup i with
    | none => simp
    | some held =>
      rw [← Bool.not_eq_true, ← not_iff_not, not_not, not_not] at hplayed
      rw [Bool.eq_iff_iff, Option.any_some, Option.any_some, show Ts.media = mediaKinds from rfl]
      simp only [Bool.and_eq_true, Bool.not_eq_true', Bool.or_eq_false_iff, decide_eq_true_eq,
        decide_eq_false_iff_not, hplayed, Bool.not_eq_false, not_or, not_not]
      rw [← Bool.not_eq_true ((c.played.lookup i).bind _).isSome]
      exact ⟨fun ⟨⟨hp, hk⟩, hs, hn⟩ => ⟨hk, hp, hn, hs⟩, fun ⟨hk, hp, hn, hs⟩ => ⟨⟨hp, hk⟩, hs, hn⟩⟩
  unfold Client.play Ts.Client.play
  dsimp only
  rw [hcond]
  cases c.content.lookup i with
  | none => exact ⟨h, rfl⟩
  | some held =>
    dsimp only
    rw [Option.any_some]
    split
    case isTrue hno =>
      rw [decide_eq_true hno]
      exact ⟨h, rfl⟩
    case isFalse hyes =>
      rw [decide_eq_false hyes]
      exact ⟨hsent, rfl⟩

theorem Agree.activity (h : Agree c t) (a : String) (state : ActivityState) :
    Agree (c.activity a state).1 (t.sendActivity a state).1 ∧
      (t.sendActivity a state).2 = (c.activity a state).2 := by
  unfold Client.activity Ts.Client.sendActivity
  cases hpolicy : c.policy.activity with
  | false =>
    rw [← h.policy, hpolicy]
    exact ⟨h, rfl⟩
  | true =>
    rw [← h.policy, hpolicy]
    cases state with
    | stopped =>
      refine ⟨{ h with lastActivity := ?_ }, rfl⟩
      show c.lastActivity.erase a = t.lastActivitySent.erase a
      rw [h.lastActivity]
    | active =>
      have hwait : ((t.lastActivitySent.lookup a).all fun last => decide (t.now - last ≥ Ts.intervalS)) =
          !(c.lastActivity.lookup a).any fun last => decide (c.now - last < activityRefreshS) := by
        rw [← h.lastActivity, ← h.now]
        cases c.lastActivity.lookup a with
        | none => rfl
        | some last =>
          rw [Option.all_some, Option.any_some, ← decide_not, decide_eq_decide, not_lt]
          rfl
      rw [hwait]
      cases hsoon : (c.lastActivity.lookup a).any fun last => decide (c.now - last < activityRefreshS) with
      | true => exact ⟨h, rfl⟩
      | false =>
        refine ⟨{ h with lastActivity := ?_ }, rfl⟩
        show c.lastActivity.insert a c.now = t.lastActivitySent.insert a t.now
        rw [h.lastActivity, h.now]

theorem Agree.lit (h : Agree c t) {sender : String} {acts : Dict String Int} (hacts : acts.keys.isEmpty = false) :
    Agree { c with shown := c.shown.insert sender acts } { t with activity := t.activity.insert sender acts } :=
  { h with
    shown := fun who => Dict.lookup_insert_congr rfl fun _ => h.shown who
    filledShown := h.filledShown.insert sender hacts }

theorem Agree.hide (h : Agree c t) (sender : String) :
    Agree { c with shown := c.shown.erase sender } { t with activity := t.activity.erase sender } :=
  { h with
    shown := fun who => by
      show (c.shown.erase sender).lookup who = (t.activity.erase sender).lookup who
      rw [Dict.lookup_erase_eq, Dict.lookup_erase_eq, h.shown who]
    filledShown := by
      intro who acts hacts
      replace hacts : (c.shown.erase sender).lookup who = some acts := hacts
      rw [Dict.lookup_erase_eq] at hacts
      split at hacts
      case isTrue => cases hacts
      case isFalse => exact h.filledShown who acts hacts }

theorem Agree.unlit (h : Agree c t) {shown : Book} (hsame : ∀ who, shown.lookup who = c.shown.lookup who) :
    Agree { c with shown := shown } t :=
  { h with
    shown := fun who => (hsame who).trans (h.shown who)
    filledShown := fun who acts hacts => h.filledShown who acts ((hsame who).symm.trans hacts) }

theorem Agree.activityIn (h : Agree c t) (sender a : String) (state : ActivityState) (expiresAt : Int) :
    Agree (c.activityIn sender a state expiresAt) (t.activityIn sender a state expiresAt) := by
  have habsent : c.shown.lookup sender = none →
      Agree { c with shown := c.shown.erase sender } t := fun hnone => h.unlit fun who => by
    rw [Dict.lookup_erase_eq]
    split
    case isTrue hwho => rw [hwho, hnone]
    case isFalse => rfl
  unfold Client.activityIn Ts.Client.activityIn
  cases state with
  | stopped =>
    rw [if_pos rfl, ← h.shown sender]
    cases hshown : c.shown.lookup sender with
    | none => exact habsent hshown
    | some acts =>
      dsimp only [Option.getD_some]
      by_cases hempty : (acts.erase a).keys.isEmpty = true
      · rw [if_pos hempty, if_pos (List.length_eq_zero_iff.mpr (List.isEmpty_iff.mp hempty))]
        exact h.hide sender
      · rw [if_neg hempty, if_neg (fun hl => hempty (List.isEmpty_iff.mpr (List.length_eq_zero_iff.mp hl)))]
        exact h.lit (Bool.eq_false_of_not_eq_true hempty)
  | active =>
    rw [if_neg (show ¬ActivityState.active = .stopped by decide), ← h.shown sender]
    dsimp only
    by_cases hlive : c.now < expiresAt
    · have hlive' : t.now < expiresAt := h.now ▸ hlive
      rw [if_pos hlive, if_pos hlive', keys_insert, if_neg Bool.false_ne_true]
      exact h.lit (keys_insert _ _ _)
    · have hlive' : ¬t.now < expiresAt := h.now ▸ hlive
      rw [if_neg hlive, if_neg hlive']
      cases hshown : c.shown.lookup sender with
      | none => exact habsent hshown
      | some acts =>
        rw [Option.getD_some, h.filledShown sender acts hshown, if_neg Bool.false_ne_true]
        refine h.unlit fun who => ?_
        rw [Dict.lookup_insert_eq]
        split
        case isTrue hwho => rw [hwho, hshown]
        case isFalse => rfl

theorem Agree.expire (h : Agree c t) (now : Int) : Agree
      { c with
        now := now
        shown := Dict.filter (fun _ acts => !acts.keys.isEmpty)
          (c.shown.map (Dict.filter fun _ t => t > now)) }
      { t with
        now := now
        activity := Dict.filter (fun _ shown => shown.keys.length ≠ 0)
          (t.activity.map (Dict.filter fun _ expires => !(now ≥ expires))) } := by
  have hlive : (fun (_ : String) (expires : Int) => !decide (now ≥ expires)) = fun _ t => decide (t > now) := by
    funext _ expires
    rw [← decide_not, decide_eq_decide, not_le]
  have hkeep : (fun (_ : String) (shown : Dict String Int) => decide (shown.keys.length ≠ 0)) =
      fun _ acts => !acts.keys.isEmpty := by
    funext _ acts
    cases acts.keys <;> rfl
  refine { h with now := rfl, shown := fun who => ?_, filledShown := fun who acts hacts => ?_ }
  · dsimp only
    rw [hlive, hkeep, Dict.lookup_filter, Dict.lookup_filter, Dict.lookup_map, Dict.lookup_map, h.shown who]
  · dsimp only at hacts
    rw [Dict.lookup_filter, Option.filter_eq_some_iff] at hacts
    exact (Bool.not_eq_true' _).mp hacts.2

theorem Agree.advance (h : Agree c t) (n : Int) :
    Agree (c.advance n).1 (t.advance n).1 ∧ (t.advance n).2 = (c.advance n).2 := by
  have hnow := h.expire (c.now + n)
  have hdue : (t.readPending && decide (t.now + n - t.lastReadSent.getD 0 ≥ Ts.intervalS)) =
      (c.pendingRead && c.lastReadSent.any fun last => decide (c.now + n - last ≥ readMinIntervalS)) := by
    rw [← h.pendingRead, ← h.lastReadSent, ← h.now]
    cases hpending : c.pendingRead with
    | false => rfl
    | true =>
      obtain ⟨last, hlast⟩ := Option.isSome_iff_exists.mp (h.pendingSent hpending)
      rw [hlast]
      rfl
  unfold Client.advance Ts.Client.advance
  dsimp only
  rw [hdue]
  rw [show t.now + n = c.now + n from congrArg (· + n) h.now.symm]
  split
  case isTrue => exact hnow.readSend
  case isFalse => exact ⟨hnow, rfl⟩

/-! ## What both show -/

theorem pairwise_inOrder {content : Dict String Held} {es : List (String × Held)}
    (h : ∀ e ∈ es, content.lookup e.1 = some e.2) :
    InSeqOrder content (es.map (·.1)) ↔ es.Pairwise fun a b => a.2.seq ≤ b.2.seq := by
  unfold InSeqOrder
  rw [List.pairwise_map]
  refine List.Pairwise.iff_of_mem fun {a b} ha hb => ?_
  rw [h a ha, h b hb]
  constructor
  · exact fun hle => hle _ _ rfl rfl
  · rintro hle _ _ ⟨⟩ ⟨⟩
    exact hle

theorem seq_total : Std.Total fun a b : String × Held => a.2.seq ≤ b.2.seq := ⟨fun a b => le_total a.2.seq b.2.seq⟩

theorem seq_trans : IsTrans (String × Held) fun a b => a.2.seq ≤ b.2.seq := ⟨fun _ _ _ h h' => le_trans h h'⟩

theorem ts_inSeqOrder (t : Ts.Client) : InSeqOrder t.content t.timeline := by
  have := seq_total
  have := seq_trans
  unfold Ts.Client.timeline
  rw [pairwise_inOrder]
  · exact List.pairwise_insertionSort _ _
  · exact fun e he => Dict.mem_inOrder.mp ((List.mem_insertionSort _).mp he)

theorem Agree.timeline_iff (h : Agree c t) : t.timeline = c.timeline ↔ InSeqOrder c.content c.timeline := by
  constructor
  · intro heq
    rw [← heq, h.content]
    exact ts_inSeqOrder t
  · intro horder
    rw [h.timeline, pairwise_inOrder fun e he => Dict.mem_inOrder.mp he, h.content] at horder
    rw [h.timeline, Ts.Client.timeline, horder.insertionSort_eq, h.content]

theorem filter_filled {b : Book} (h : Filled b) :
    byKeys (b.filter fun _ m => !m.keys.isEmpty) = byKeys b := by
  refine Dict.sortedEntries_congr fun k => ?_
  rw [Dict.lookup_map, Dict.lookup_map, Dict.lookup_filter]
  cases hk : b.lookup k with
  | none => rfl
  | some m => rw [Option.filter_some, h k m hk]; rfl

theorem byKeys_congr {b b' : Book} (h : ∀ k, b.lookup k = b'.lookup k) : byKeys b = byKeys b' := by
  refine Dict.sortedEntries_congr fun k => ?_
  rw [Dict.lookup_map, Dict.lookup_map, h k]

theorem Agree.snapshot_iff (h : Agree c t) : t.state = c.snapshot ↔ InSeqOrder c.content c.timeline := by
  rw [← h.timeline_iff]
  unfold Ts.Client.state Client.snapshot
  rw [filter_filled h.filled, filter_filled h.filledPlayed, byKeys_congr h.shown, h.delivered, h.played,
    h.readThrough]
  simp

/-! ## A step and a run -/

theorem chunks_one_iff {targets : List String} :
    (if (!targets.isEmpty) = true then [Emit.receipt "conversation" "delivered" targets] else []) =
        (chunks targets).map (.receipt "conversation" "delivered") ↔
      targets.length ≤ receiptMaxTargets := by
  have hlength : (chunks targets).length = (targets.length + 255) / 256 := by
    simp [chunks, receiptMaxTargets]
  constructor
  · intro heq
    have hcount := congrArg List.length heq
    rw [List.length_map, hlength] at hcount
    show targets.length ≤ 256
    split at hcount
    case isTrue => simp only [List.length_singleton] at hcount; omega
    case isFalse => simp only [List.length_nil] at hcount; omega
  · intro hle
    replace hle : targets.length ≤ 256 := hle
    cases htargets : targets with
    | nil => rfl
    | cons i is =>
      rw [← htargets]
      have hpos : 0 < targets.length := by rw [htargets]; exact Nat.succ_pos _
      have hone : (targets.length + receiptMaxTargets - 1) / receiptMaxTargets = 1 := by
        show (targets.length + 256 - 1) / 256 = 1
        omega
      have hsome : (!targets.isEmpty) = true := by rw [htargets]; rfl
      rw [if_pos hsome, chunks, hone]
      show _ = [Emit.receipt "conversation" "delivered" (targets.take 256)]
      rw [List.take_of_length_le hle]

theorem arrives_iff (h : Agree c t) (horder : InSeqOrder c.content c.timeline) {c' : Client} {t' : Ts.Client}
    (h' : Agree c' t') {items : List Item}
    (hcontent : c'.content.inOrder = c.content.inOrder ++ newEntries c.heldIds items) :
    InSeqOrder c'.content c'.timeline ↔ c.ArrivesInOrder items := by
  rw [h.timeline, pairwise_inOrder fun e he => Dict.mem_inOrder.mp he] at horder
  rw [h'.timeline, pairwise_inOrder fun e he => Dict.mem_inOrder.mp he, hcontent, List.pairwise_append]
  constructor
  · rintro ⟨-, hsorted, hlate⟩
    exact ⟨hsorted, fun e he i held hi => hlate (i, held) (Dict.mem_inOrder.mpr hi) e he⟩
  · rintro ⟨hsorted, hlate⟩
    exact ⟨horder, hsorted, fun a ha b hb => hlate b hb a.1 a.2 (Dict.mem_inOrder.mp ha)⟩

theorem Agree.step (h : Agree c t) (e : Event) : Agree (c.step e).1 (t.step e).1 := by
  cases e with
  | sync items => exact (h.sync items).1
  | restore items => exact (h.restore items).1
  | read through => exact (h.read through).1
  | play id => exact (h.play id).1
  | activity a state => exact (h.activity a state).1
  | activityIn sender a state expiresAt => exact h.activityIn sender a state expiresAt
  | advance n => exact (h.advance n).1

theorem read_content (c : Client) (through : String) : (c.read through).1.content = c.content := by
  unfold Client.read
  cases c.content.lookup through with
  | none => rfl
  | some held =>
    dsimp only
    split
    case isTrue => rfl
    case isFalse => split <;> rfl

theorem play_content (c : Client) (i : String) : (c.play i).1.content = c.content := by
  unfold Client.play
  cases c.content.lookup i with
  | none => rfl
  | some held =>
    dsimp only
    split <;> rfl

theorem activity_content (c : Client) (a : String) (state : ActivityState) :
    (c.activity a state).1.content = c.content := by
  unfold Client.activity
  split
  case isTrue => rfl
  case isFalse =>
    cases state with
    | stopped => rfl
    | active =>
      dsimp only
      split <;> rfl

theorem activityIn_content (c : Client) (sender a : String) (state : ActivityState) (expiresAt : Int) :
    (c.activityIn sender a state expiresAt).content = c.content := by
  unfold Client.activityIn
  extract_lets acts acts'
  split <;> rfl

theorem advance_content (c : Client) (n : Int) : (c.advance n).1.content = c.content := by
  unfold Client.advance
  dsimp only
  split <;> rfl

theorem Agree.fits_iff (h : Agree c t) (horder : InSeqOrder c.content c.timeline) (e : Event) :
    ((t.step e).2 = (c.step e).2 ∧ InSeqOrder (c.step e).1.content (c.step e).1.timeline) ↔ c.Fits e := by
  have hquiet : ∀ {c' : Client} {t' : Ts.Client}, Agree c' t' → c'.content = c.content →
      InSeqOrder c'.content c'.timeline := by
    intro c' t' h' hcontent
    rw [h'.timeline, hcontent, ← h.timeline]
    exact horder
  cases e with
  | sync items =>
    obtain ⟨h', hcontent, archive, hsent, hsent'⟩ := h.sync items
    show ((t.batch items false).2 = (c.sync items).2 ∧ _) ↔ _
    refine (and_congr ?_ (arrives_iff h horder h' hcontent)).trans and_comm
    rw [hsent, hsent', List.append_cancel_left_eq]
    unfold FitsOneReceipt
    cases hdelivered : c.policy.delivered with
    | false => simp
    | true =>
      by_cases hsmall : c.members ≤ deliveredMaxGroup
      · simp only [hsmall, decide_true, Bool.and_self, Bool.true_and, if_true, true_implies]
        exact chunks_one_iff
      · simp [hsmall]
  | restore items =>
    show ((t.batch items true).2 = [] ∧ _) ↔ _
    rw [(h.restore items).2]
    exact (and_iff_right rfl).trans (arrives_iff h horder (h.restore items).1 (h.restore_inOrder items))
  | read through => exact iff_of_true ⟨(h.read through).2, hquiet (h.read through).1 (read_content c through)⟩ trivial
  | play id => exact iff_of_true ⟨(h.play id).2, hquiet (h.play id).1 (play_content c id)⟩ trivial
  | activity a state =>
    exact iff_of_true ⟨(h.activity a state).2, hquiet (h.activity a state).1 (activity_content c a state)⟩
      trivial
  | activityIn sender a state expiresAt =>
    exact iff_of_true ⟨rfl, hquiet (h.activityIn sender a state expiresAt)
      (activityIn_content c sender a state expiresAt)⟩ trivial
  | advance n => exact iff_of_true ⟨(h.advance n).2, hquiet (h.advance n).1 (advance_content c n)⟩ trivial

theorem Agree.run_iff (events : List Event) {c : Client} {t : Ts.Client} (h : Agree c t)
    (horder : InSeqOrder c.content c.timeline) :
    (t.observe events = c.observe events ∧ ∀ past, past <+: events →
      InSeqOrder (c.run past).content (c.run past).timeline ∧
        InSeqOrder (t.run past).content (t.run past).timeline) ↔ c.FitsRun events := by
  induction events generalizing c t with
  | nil =>
    refine iff_of_true ⟨rfl, fun past hpast => ?_⟩ trivial
    rw [List.prefix_nil.mp hpast]
    exact ⟨horder, ts_inSeqOrder t⟩
  | cons e events ih =>
    have hfits := h.fits_iff horder e
    constructor
    · rintro ⟨hobserve, hpasts⟩
      obtain ⟨hfirst, hrest⟩ := List.cons.inj hobserve
      have horder' := (hpasts [e] (List.prefix_cons_inj e |>.mpr List.nil_prefix)).1
      refine ⟨hfits.mp ⟨(Prod.mk.inj hfirst).1, horder'⟩, (ih (h.step e) horder').mp ⟨hrest, ?_⟩⟩
      exact fun past hpast => hpasts (e :: past) ((List.prefix_cons_inj e).mpr hpast)
    · rintro ⟨hfit, hrest⟩
      obtain ⟨hsent, horder'⟩ := hfits.mpr hfit
      obtain ⟨hobserve, hpasts⟩ := (ih (h.step e) horder').mpr hrest
      refine ⟨?_, fun past hpast => ?_⟩
      · rw [Client.observe, Ts.Client.observe, hsent, (h.step e).snapshot_iff.mpr horder', hobserve]
      · rcases List.prefix_cons_iff.mp hpast with rfl | ⟨past, rfl, hrest⟩
        · exact ⟨horder, ts_inSeqOrder t⟩
        · exact hpasts past hrest

/-- **One machine, in order**: the two clients send and show the same at every step, and both
timelines stay in seq order, exactly when every batch arrives in seq order and owes no more
`delivered` targets than one receipt holds. -/
theorem clients_agree_iff (ctx : Context) (events : List Event) :
    ((Ts.Client.init ctx).observe events = (init ctx).observe events ∧ ∀ past, past <+: events →
      InSeqOrder ((init ctx).run past).content ((init ctx).run past).timeline ∧
        InSeqOrder ((Ts.Client.init ctx).run past).content ((Ts.Client.init ctx).run past).timeline) ↔
      (init ctx).FitsRun events :=
  (agree_init ctx).run_iff events List.Pairwise.nil

/-- History restored after a live item is shown by arrival on one side only. -/
theorem restored_history_is_misplaced : ¬∀ (ctx : Context) (events : List Event),
      (Ts.Client.init ctx).observe events = (init ctx).observe events ∧ ∀ past, past <+: events →
        InSeqOrder ((init ctx).run past).content ((init ctx).run past).timeline ∧
          InSeqOrder ((Ts.Client.init ctx).run past).content ((Ts.Client.init ctx).run past).timeline := by
  intro h
  have hshown := (h ⟨"did:web:bob", 0, 2, ⟨true, false, false, false⟩⟩
    [.sync [⟨2, .content ⟨"m2", "did:web:alice", "text"⟩⟩],
      .restore [⟨1, .content ⟨"m1", "did:web:alice", "text"⟩⟩]]).1
  revert hshown
  decide +kernel

end Dsip.Messaging.Client
