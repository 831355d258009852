import Dsip.Messaging.ClientAgree
import Mathlib.Data.List.TakeWhile

/-!
# What a client has been told

The tables of a client as functions of the items it has read, in the order it read them.
A content is held as the first item of its id had it, and a book has, for each identity, the
time of the first receipt that came after the content did (`Heard`).
-/

namespace Dsip.Messaging.Client

open Dsip.Lib

/-- The items that an event hands over. -/
def Event.items : Event → List Item
  | .sync items | .restore items => items
  | .read _ | .play _ | .activity _ _ | .activityIn _ _ _ _ | .advance _ => []

def processed (events : List Event) : List Item := events.flatMap Event.items

/-- What the item brings `id` as. -/
def Item.brings (it : Item) (id : String) : Option Held :=
  match it.object with
  | .content o => if o.id = id then some ⟨o.sender, it.seq, o.kind⟩ else none
  | .receipt _ | .other => none

/-- What `id` is held as: the first content of that id. -/
def heldAs (its : List Item) (id : String) : Option Held := its.findSome? (·.brings id)

/-- The items before the first that brings `id`. -/
def before (its : List Item) (id : String) : List Item := its.takeWhile fun it => (it.brings id).isNone

/-- The items from the first that brings `id` on. -/
def since (its : List Item) (id : String) : List Item := its.dropWhile fun it => (it.brings id).isNone

/-- The time of a receipt of this kind, from `who`, about `id`. -/
def Item.notes (it : Item) (kind id who : String) : Option Int :=
  match it.object with
  | .receipt o => if o.kind = kind ∧ o.sender = who ∧ id ∈ o.targets then some o.sentAt else none
  | .content _ | .other => none

/-- The time of the first such receipt. -/
def firstReceipt (its : List Item) (kind id who : String) : Option Int := its.findSome? (·.notes kind id who)

/-- A receipt from `who` about this content is one to keep. -/
def Counts (held : Held) (kind who : String) : Prop :=
  held.sender ≠ who ∧ (kind = "played" → held.kind ∈ mediaKinds)

instance (held : Held) (kind who : String) : Decidable (Counts held kind who) :=
  inferInstanceAs (Decidable (_ ∧ _))

/-- The time that the book of a kind is to have. -/
def due (its : List Item) (kind id who : String) : Option Int :=
  match heldAs its id with
  | none => none
  | some held => if Counts held kind who then firstReceipt (since its id) kind id who else none

/-! ## One item more -/

theorem heldAs_snoc (its : List Item) (it : Item) (id : String) :
    heldAs (its ++ [it]) id = (heldAs its id).or (it.brings id) := by
  unfold heldAs
  rw [List.findSome?_append]
  simp

theorem notes_of_brings {it : Item} {id : String} {held : Held} (h : it.brings id = some held) (kind who : String) :
    it.notes kind id who = none := by
  obtain ⟨seq, object⟩ := it
  cases object with
  | content o => rfl
  | receipt o => cases h
  | other => cases h

theorem since_append {its : List Item} {id : String} {held : Held} (h : heldAs its id = some held)
    (later : List Item) : since (its ++ later) id = since its id ++ later := by
  obtain ⟨it, hit, hbrings⟩ := List.exists_of_findSome?_eq_some h
  unfold since
  rw [List.dropWhile_append, if_neg]
  intro hempty
  have hall := List.dropWhile_eq_nil_iff.mp (List.isEmpty_iff.mp hempty) it hit
  rw [hbrings] at hall
  cases hall

theorem since_new {its : List Item} {id : String} (h : heldAs its id = none) (it : Item) :
    since (its ++ [it]) id = since [it] id := by
  unfold since
  rw [List.dropWhile_append, if_pos]
  rw [List.isEmpty_iff, List.dropWhile_eq_nil_iff]
  intro it' hit'
  rw [List.findSome?_eq_none_iff.mp h it' hit']
  rfl

theorem due_snoc (its : List Item) (it : Item) (kind id who : String) :
    due (its ++ [it]) kind id who = (due its kind id who).or
      (if (heldAs its id).any (fun held => Counts held kind who) then it.notes kind id who else none) := by
  unfold due
  rw [heldAs_snoc]
  cases hheld : heldAs its id with
  | some held =>
    rw [Option.some_or, since_append hheld]
    dsimp only [Option.any_some]
    by_cases hcounts : Counts held kind who
    · simp only [hcounts, if_true, decide_true, firstReceipt]
      rw [List.findSome?_append]
      simp
    · simp [hcounts]
  | none =>
    rw [Option.none_or, since_new hheld]
    dsimp only [Option.any_none]
    cases hbrings : it.brings id with
    | none => simp
    | some held =>
      have hsince : firstReceipt (since [it] id) kind id who = none := by
        unfold since
        rw [List.dropWhile_cons, hbrings]
        simp [firstReceipt, notes_of_brings hbrings]
      simp [hsince]

/-! ## What the tables hold -/

def entry (b : Book) (id who : String) : Option Int := (b.lookup id).bind (·.lookup who)

theorem entry_eq_none {b : Book} {id who : String} : entry b id who = none ↔ ¬Noted b who id := by
  unfold entry Noted
  cases b.lookup id with
  | none => simp
  | some m => exact AList.lookup_eq_none

theorem mark_entry {content : Dict String Held} {o : Receipt} (s : Book × Bool) (t id who : String) :
    entry (mark content o s t).1 id who = (entry s.1 id who).or
      (if id = t ∧ who = o.sender ∧ (content.lookup id).any (fun held => Counts held o.kind who) then some o.sentAt
        else none) := by
  unfold mark
  cases hheld : content.lookup t with
  | none =>
    have hnot : ¬(id = t ∧ who = o.sender ∧
        (content.lookup id).any (fun held => Counts held o.kind who) = true) := by
      rintro ⟨rfl, -, hany⟩
      rw [hheld] at hany
      cases hany
    rw [if_neg hnot, Option.or_none]
  | some held =>
    dsimp only
    by_cases hsender : held.sender = o.sender
    · rw [if_pos hsender, if_neg, Option.or_none]
      rintro ⟨rfl, rfl, hany⟩
      rw [hheld] at hany
      exact (of_decide_eq_true hany).1 hsender
    rw [if_neg hsender]
    by_cases hmedia : o.kind = "played" ∧ held.kind ∉ mediaKinds
    · rw [if_pos hmedia, if_neg, Option.or_none]
      rintro ⟨rfl, rfl, hany⟩
      rw [hheld] at hany
      exact hmedia.2 ((of_decide_eq_true hany).2 hmedia.1)
    rw [if_neg hmedia]
    have hcounts : Counts held o.kind o.sender := ⟨hsender, fun hkind => by_contra fun h => hmedia ⟨hkind, h⟩⟩
    by_cases hseen : o.sender ∈ (s.1.lookup t).getD ∅
    · rw [if_neg (not_not.mpr hseen)]
      by_cases hmine : id = t ∧ who = o.sender
      · obtain ⟨rfl, rfl⟩ := hmine
        cases hentry : entry s.1 id o.sender with
        | none => exact absurd hseen (entry_eq_none.mp hentry)
        | some time => rfl
      · rw [if_neg fun h => hmine ⟨h.1, h.2.1⟩, Option.or_none]
    · rw [if_pos hseen]
      unfold entry
      rw [Dict.lookup_insert_eq]
      by_cases hid : id = t
      · subst hid
        rw [if_pos rfl, Option.bind_some, Dict.lookup_insert_eq, hheld]
        by_cases hwho : who = o.sender
        · subst hwho
          have hnone : ((s.1.lookup id).bind fun m => m.lookup o.sender) = none := entry_eq_none.mpr hseen
          rw [hnone]
          simp [hcounts]
        · rw [if_neg hwho, if_neg fun h => hwho h.2.1, Option.or_none]
          cases s.1.lookup id with
          | none => rfl
          | some m => rfl
      · rw [if_neg hid, if_neg fun h => hid h.1, Option.or_none]

theorem marks_entry {content : Dict String Held} {o : Receipt} (ids : List String) (s : Book × Bool) (id who : String) :
    entry (ids.foldl (mark content o) s).1 id who = (entry s.1 id who).or
      (if id ∈ ids ∧ who = o.sender ∧ (content.lookup id).any (fun held => Counts held o.kind who) then some o.sentAt
        else none) := by
  induction ids generalizing s with
  | nil => simp
  | cons t ids ih =>
    rw [List.foldl_cons, ih, mark_entry, Option.or_assoc]
    congr 1
    by_cases hrest : who = o.sender ∧ (content.lookup id).any (fun held => Counts held o.kind who) = true
    · by_cases hid : id = t
      · rw [if_pos ⟨hid, hrest⟩, Option.some_or, if_pos ⟨List.mem_cons.mpr (.inl hid), hrest⟩]
      · simp [hid, hrest]
    · rw [if_neg fun h => hrest h.2, if_neg fun h => hrest h.2, if_neg fun h => hrest h.2]
      rfl

/-- The tables are what the items make them. -/
structure Heard (c : Client) (its : List Item) : Prop where
  content : ∀ id, c.content.lookup id = heldAs its id
  delivered : ∀ id who, entry c.delivered id who = due its "delivered" id who
  played : ∀ id who, entry c.played id who = due its "played" id who

theorem heard_init (ctx : Context) : (init ctx).Heard [] where
  content _ := rfl
  delivered _ _ := rfl
  played _ _ := rfl

theorem receipt_entry (c : Client) (o : Receipt) (seq : ℕ+) (id who : String) :
    entry (c.receipt o).1.delivered id who = (entry c.delivered id who).or
      (if (c.content.lookup id).any (fun held => Counts held "delivered" who) then
        Item.notes ⟨seq, .receipt o⟩ "delivered" id who else none) ∧
    entry (c.receipt o).1.played id who = (entry c.played id who).or
      (if (c.content.lookup id).any (fun held => Counts held "played" who) then
        Item.notes ⟨seq, .receipt o⟩ "played" id who else none) := by
  have hother {kind : String} (hkind : o.kind ≠ kind) : Item.notes ⟨seq, .receipt o⟩ kind id who = none :=
    if_neg fun h => hkind h.1
  have hnotes : (if id ∈ o.targets ∧ who = o.sender ∧
        (c.content.lookup id).any (fun held => Counts held o.kind who) then some o.sentAt else none) =
      if (c.content.lookup id).any (fun held => Counts held o.kind who) then
        Item.notes ⟨seq, .receipt o⟩ o.kind id who else none := by
    by_cases hany : (c.content.lookup id).any (fun held => Counts held o.kind who) = true
    · simp [hany, Item.notes, and_comm, eq_comm]
    · simp [hany]
  by_cases hdelivered : o.kind = "delivered"
  · have hplayed : o.kind ≠ "played" := by rw [hdelivered]; decide
    rw [hdelivered] at hnotes
    constructor
    · rw [receipt_delivered_eq hdelivered, marks_entry, hdelivered, hnotes]
    · rw [hother hplayed]
      simp [Client.receipt, hdelivered]
  by_cases hplayed : o.kind = "played"
  · rw [hplayed] at hnotes
    constructor
    · rw [receipt_other_eq hdelivered, hother hdelivered]
      simp
    · have hbook : (c.receipt o).1.played = (o.targets.foldl (mark c.content o) (c.played, false)).1 := by
        unfold Client.receipt
        simp only [hplayed, or_true, if_true, if_neg (show ¬"played" = "delivered" by decide)]
      rw [hbook, marks_entry, hplayed, hnotes]
  · have hbook : (c.receipt o).1.played = c.played := by
      unfold Client.receipt
      rw [if_neg (not_or.mpr ⟨hdelivered, hplayed⟩)]
      cases o.through with
      | none => split <;> rfl
      | some through =>
        dsimp only
        split
        · cases c.content.lookup through with
          | none => rfl
          | some held => dsimp only; split <;> rfl
        · rfl
    rw [receipt_other_eq hdelivered, hbook, hother hdelivered, hother hplayed]
    simp

theorem Heard.item {c : Client} {its : List Item} (h : c.Heard its) (fresh : List String) (archive : List Emit)
    (it : Item) : (syncItem (c, fresh, archive) it).1.Heard (its ++ [it]) := by
  have hdue {b : Book} {kind : String} (hb : ∀ id who, entry b id who = due its kind id who)
      (hnone : ∀ id who, it.notes kind id who = none) (id who : String) :
      entry b id who = due (its ++ [it]) kind id who := by
    rw [due_snoc, hnone]
    simp [hb]
  obtain ⟨seq, object⟩ := it
  cases object with
  | other =>
    refine ⟨fun id => ?_, hdue h.delivered fun _ _ => rfl, hdue h.played fun _ _ => rfl⟩
    rw [heldAs_snoc]
    exact (h.content id).trans (Option.or_none).symm
  | receipt o =>
    have hnotes := receipt_entry c o seq
    refine ⟨fun id => ?_, fun id who => ?_, fun id who => ?_⟩
    · rw [heldAs_snoc]
      show (c.receipt o).1.content.lookup id = _
      rw [receipt_content]
      exact (h.content id).trans (Option.or_none).symm
    · rw [due_snoc, ← h.delivered, ← h.content]
      exact (hnotes id who).1
    · rw [due_snoc, ← h.played, ← h.content]
      exact (hnotes id who).2
  | content o =>
    by_cases hheld : o.id ∈ c.content
    · rw [show syncItem (c, fresh, archive) ⟨seq, .content o⟩ = (c, fresh, archive) from if_pos hheld]
      refine ⟨fun id => ?_, hdue h.delivered fun _ _ => rfl, hdue h.played fun _ _ => rfl⟩
      rw [heldAs_snoc, ← h.content]
      by_cases hid : o.id = id
      · obtain ⟨held, hlookup⟩ := Dict.mem_iff_lookup.mp hheld
        rw [← hid, hlookup]
        rfl
      · rw [show Item.brings ⟨seq, .content o⟩ id = none from if_neg hid, Option.or_none]
    · rw [show syncItem (c, fresh, archive) ⟨seq, .content o⟩ = (c.take seq o, fresh ++ [o.id], archive) from
        if_neg hheld]
      refine ⟨fun id => ?_, hdue h.delivered fun _ _ => rfl, hdue h.played fun _ _ => rfl⟩
      rw [heldAs_snoc, ← h.content]
      show (c.content.insert o.id _).lookup id = _
      rw [Dict.lookup_insert_eq]
      by_cases hid : id = o.id
      · subst hid
        rw [if_pos rfl, AList.lookup_eq_none.mpr hheld, Option.none_or]
        exact (if_pos rfl).symm
      · rw [if_neg hid, show Item.brings ⟨seq, .content o⟩ id = none from if_neg fun h => hid h.symm, Option.or_none]

theorem Heard.items {c : Client} {its : List Item} (h : c.Heard its) (fresh : List String) (archive : List Emit)
    (items : List Item) : (items.foldl syncItem (c, fresh, archive)).1.Heard (its ++ items) := by
  induction items generalizing c its fresh archive with
  | nil => rwa [List.append_nil]
  | cons it items ih =>
    have hrest := ih (h.item fresh archive it) (syncItem (c, fresh, archive) it).2.1
      (syncItem (c, fresh, archive) it).2.2
    rw [List.append_assoc] at hrest
    exact hrest

/-! ## What an event can do -/

theorem read_cases (c : Client) (through : String) :
    c.read through = (c, []) ∨ ∃ held, c.content.lookup through = some held ∧
      ((c.readSeq.lookup c.me).map (·.val)).getD 0 < held.seq ∧
        let c' : Client := { c with readSeq := c.readSeq.insert c.me held.seq,
                                    readThrough := c.readThrough.insert c.me through }
        (∃ last, c.lastReadSent = some last ∧ c.now - last < readMinIntervalS ∧
            c.read through = ({ c' with pendingRead := true }, [])) ∨
          (∀ last, c.lastReadSent = some last → last + readMinIntervalS ≤ c.now) ∧ c.read through = c'.readSend := by
  unfold Client.read
  cases hheld : c.content.lookup through with
  | none => exact .inl rfl
  | some held =>
    dsimp only
    by_cases hle : (held.seq : ℕ) ≤ ((c.readSeq.lookup c.me).map (·.val)).getD 0
    · exact .inl (if_pos hle)
    · rw [if_neg hle]
      refine .inr ⟨held, rfl, not_le.mp hle, ?_⟩
      cases hlast : c.lastReadSent with
      | none => exact .inr ⟨nofun, rfl⟩
      | some last =>
        rw [Option.any_some]
        by_cases hsoon : c.now - last < readMinIntervalS
        · exact .inl ⟨last, rfl, hsoon, if_pos (decide_eq_true hsoon)⟩
        · refine .inr ⟨?_, if_neg (by simpa using hsoon)⟩
          rintro _ ⟨⟩
          omega

theorem advance_cases (c : Client) (n : Int) : ∃ shown,
    let c' : Client := { c with now := c.now + n, shown := shown }
    (c.pendingRead = true ∧ ∃ last, c.lastReadSent = some last ∧ last + readMinIntervalS ≤ c'.now ∧
        c.advance n = c'.readSend) ∨
      (c.pendingRead = true → ∀ last, c.lastReadSent = some last → c'.now - last < readMinIntervalS) ∧
        c.advance n = (c', []) := by
  refine ⟨(c.shown.map (Dict.filter fun _ t => t > c.now + n)).filter fun _ acts => !acts.keys.isEmpty, ?_⟩
  unfold Client.advance
  dsimp only
  cases hpending : c.pendingRead with
  | false => exact .inr ⟨nofun, rfl⟩
  | true =>
    rw [Bool.true_and]
    cases hlast : c.lastReadSent with
    | none => exact .inr ⟨fun _ => nofun, rfl⟩
    | some last =>
      rw [Option.any_some]
      by_cases hdue : c.now + n - last ≥ readMinIntervalS
      · exact .inl ⟨rfl, last, rfl, by omega, if_pos (decide_eq_true hdue)⟩
      · refine .inr ⟨?_, if_neg (by simpa using hdue)⟩
        rintro - _ ⟨⟩
        omega

theorem play_cases (c : Client) (i : String) :
    c.play i = (c, []) ∨ ∃ held, c.content.lookup i = some held ∧ held.kind ∈ mediaKinds ∧ c.policy.played = true ∧
      ¬Noted c.played c.me i ∧ i ∉ c.sentPlayed ∧
        c.play i = ({ c with sentPlayed := insert i c.sentPlayed }, [.receipt "conversation" "played" [i]]) := by
  unfold Client.play
  cases hheld : c.content.lookup i with
  | none => exact .inl rfl
  | some held =>
    dsimp only
    by_cases hquiet : held.kind ∉ mediaKinds ∨ (!c.policy.played) = true ∨ c.me ∈ (c.played.lookup i).getD ∅ ∨
        i ∈ c.sentPlayed
    · exact .inl (if_pos hquiet)
    · rw [if_neg hquiet]
      simp only [not_or, not_not, Bool.not_eq_true', Bool.not_eq_false] at hquiet
      exact .inr ⟨held, rfl, hquiet.1, hquiet.2.1, hquiet.2.2.1, hquiet.2.2.2, rfl⟩

theorem activity_cases (c : Client) (a : String) (state : ActivityState) : ∃ lastActivity,
    (c.activity a state).1 = { c with lastActivity := lastActivity } ∧
      ∀ m ∈ (c.activity a state).2, ∃ a state, m = .activity a state := by
  unfold Client.activity
  split
  · exact ⟨_, rfl, nofun⟩
  · cases state with
    | stopped => exact ⟨_, rfl, by simp⟩
    | active =>
      dsimp only
      split
      · exact ⟨_, rfl, nofun⟩
      · exact ⟨_, rfl, by simp⟩

theorem activityIn_cases (c : Client) (sender a : String) (state : ActivityState) (expiresAt : Int) :
    ∃ shown, c.activityIn sender a state expiresAt = { c with shown := shown } := by
  unfold Client.activityIn
  extract_lets acts acts'
  split
  · exact ⟨_, rfl⟩
  · exact ⟨_, rfl⟩

theorem sync_cases (c : Client) (items : List Item) :
    let r := items.foldl syncItem (c, [], [])
    c.sync items = (r.1, r.2.2) ∨ ∃ targets, (∀ t ∈ targets, t ∈ r.2.1 ∧
        (r.1.content.lookup t).any (·.sender ≠ r.1.me) ∧ ¬Noted r.1.delivered r.1.me t ∧ t ∉ r.1.sentDelivered) ∧
      targets.Sublist r.2.1 ∧
        c.sync items = ({ r.1 with sentDelivered := r.1.sentDelivered ∪ targets.toFinset },
          r.2.2 ++ (chunks targets).map (.receipt "conversation" "delivered")) := by
  intro r
  have hr : items.foldl syncItem (c, [], []) = (r.1, r.2.1, r.2.2) := rfl
  unfold Client.sync
  rw [hr]
  dsimp only
  split
  · refine .inr ⟨_, fun t ht => ?_, List.filter_sublist, rfl⟩
    obtain ⟨hfresh, hkept⟩ := List.mem_filter.mp ht
    simp only [Bool.and_eq_true, decide_eq_true_eq] at hkept
    exact ⟨hfresh, hkept.1.1, hkept.1.2, hkept.2⟩
  · exact .inl rfl

theorem Heard.step {c : Client} {its : List Item} (h : c.Heard its) (e : Event) :
    (c.step e).1.Heard (its ++ e.items) := by
  cases e with
  | sync items =>
    have hread := h.items [] [] items
    show (c.sync items).1.Heard _
    obtain heq | ⟨targets, -, -, heq⟩ := sync_cases c items
    · rw [heq]
      exact hread
    · rw [heq]
      exact ⟨hread.content, hread.delivered, hread.played⟩
  | restore items =>
    show (c.restore items).Heard _
    rw [restore_eq items [] []]
    exact h.items [] [] items
  | read through =>
    show (c.read through).1.Heard (its ++ [])
    rw [List.append_nil]
    obtain heq | ⟨held, -, -, ⟨last, -, -, heq⟩ | ⟨-, heq⟩⟩ := read_cases c through
    · rwa [heq]
    · rw [heq]
      exact ⟨h.content, h.delivered, h.played⟩
    · rw [heq]
      exact ⟨h.content, h.delivered, h.played⟩
  | play i =>
    show (c.play i).1.Heard (its ++ [])
    rw [List.append_nil]
    obtain heq | ⟨held, -, -, -, -, -, heq⟩ := play_cases c i
    · rwa [heq]
    · rw [heq]
      exact ⟨h.content, h.delivered, h.played⟩
  | activity a state =>
    show (c.activity a state).1.Heard (its ++ [])
    obtain ⟨_, heq, -⟩ := activity_cases c a state
    rw [List.append_nil, heq]
    exact ⟨h.content, h.delivered, h.played⟩
  | activityIn sender a state expiresAt =>
    show (c.activityIn sender a state expiresAt).Heard (its ++ [])
    obtain ⟨_, heq⟩ := activityIn_cases c sender a state expiresAt
    rw [List.append_nil, heq]
    exact ⟨h.content, h.delivered, h.played⟩
  | advance n =>
    show (c.advance n).1.Heard (its ++ [])
    rw [List.append_nil]
    obtain ⟨_, ⟨-, last, -, -, heq⟩ | ⟨-, heq⟩⟩ := advance_cases c n
    · rw [heq]
      exact ⟨h.content, h.delivered, h.played⟩
    · rw [heq]
      exact ⟨h.content, h.delivered, h.played⟩

theorem run_snoc (c : Client) (events : List Event) (e : Event) :
    c.run (events ++ [e]) = ((c.run events).step e).1 := by
  unfold Client.run
  rw [List.foldl_append]
  rfl

theorem processed_snoc (events : List Event) (e : Event) : processed (events ++ [e]) = processed events ++ e.items := by
  unfold processed
  rw [List.flatMap_append]
  simp

theorem heard_run (ctx : Context) (events : List Event) : ((init ctx).run events).Heard (processed events) := by
  induction events using List.reverseRecOn with
  | nil => exact heard_init ctx
  | append_singleton events e ih =>
    rw [run_snoc, processed_snoc]
    exact ih.step e

end Dsip.Messaging.Client
