import Dsip.Messaging.Heard

/-!
# Read watermarks

A watermark names content that is held and only moves forward; what the client sends of its
own is apart in time and in seq (`Reads`).
-/

namespace Dsip.Messaging.Client

open Dsip.Lib

/-- The seq of what is named, 0 where it is not held. -/
def seqOf (content : Dict String Held) (through : Option String) : ℕ :=
  ((through.bind content.lookup).map fun held => (held.seq : ℕ)).getD 0

/-- The rendered read position of an identity. -/
def position (c : Client) (who : String) : ℕ := seqOf c.content (c.readThrough.lookup who)

/-- The seq that the client keeps for it. -/
def watermark (c : Client) (who : String) : ℕ := ((c.readSeq.lookup who).map (·.val)).getD 0

/-- The watermarks, and the read receipts sent so far with the time of each. -/
structure Reads (c : Client) (reads : List (Int × Option String)) : Prop where
  held : ∀ who t, c.readThrough.lookup who = some t → t ∈ c.content
  marks : ∀ who, position c who = watermark c who
  named : ∀ a ∈ reads, 0 < seqOf c.content a.2 ∧ seqOf c.content a.2 ≤ watermark c c.me
  waiting : c.pendingRead = true → ∀ a ∈ reads, seqOf c.content a.2 < watermark c c.me
  pending : c.pendingRead = true → c.lastReadSent.isSome = true ∧ 0 < watermark c c.me
  last : ∀ a ∈ reads, ∃ last, c.lastReadSent = some last ∧ a.1 ≤ last
  apart : reads.Pairwise fun a b => a.1 + readMinIntervalS ≤ b.1 ∧ seqOf c.content a.2 < seqOf c.content b.2

theorem reads_init (ctx : Context) : (init ctx).Reads [] where
  held _ _ h := by cases h
  marks _ := rfl
  named a ha := absurd ha List.not_mem_nil
  waiting h := by cases h
  pending h := by cases h
  last a ha := absurd ha List.not_mem_nil
  apart := List.Pairwise.nil

variable {c : Client} {reads : List (Int × Option String)}

theorem seqOf_mono {content content' : Dict String Held}
    (h : ∀ i held, content.lookup i = some held → content'.lookup i = some held) {t : Option String}
    (ht : 0 < seqOf content t) : seqOf content' t = seqOf content t := by
  unfold seqOf at ht ⊢
  cases t with
  | none => cases ht
  | some t =>
    rw [Option.bind_some] at ht ⊢
    cases hheld : content.lookup t with
    | none =>
      rw [hheld] at ht
      cases ht
    | some held => rw [Option.bind_some, h t held hheld, hheld]

theorem Reads.take (h : c.Reads reads) (seq : ℕ+) {o : Content} (hnew : o.id ∉ c.content) :
    (c.take seq o).Reads reads := by
  have hkept := (take_kept hnew seq).held
  have hseq {a : Int × Option String} (ha : a ∈ reads) :
      seqOf (c.take seq o).content a.2 = seqOf c.content a.2 := seqOf_mono hkept (h.named a ha).1
  refine ⟨fun who t ht => ?_, fun who => ?_, fun a ha => ?_, fun hp a ha => ?_, h.pending, h.last, ?_⟩
  · obtain ⟨held, hheld⟩ := Dict.mem_iff_lookup.mp (h.held who t ht)
    exact Dict.mem_iff_lookup.mpr ⟨held, hkept t held hheld⟩
  · have hmarks := h.marks who
    unfold position at hmarks ⊢
    show seqOf (c.take seq o).content (c.readThrough.lookup who) = c.watermark who
    rw [← hmarks]
    cases ht : c.readThrough.lookup who with
    | none => rfl
    | some t =>
      obtain ⟨held, hheld⟩ := Dict.mem_iff_lookup.mp (h.held who t ht)
      unfold seqOf
      rw [Option.bind_some, Option.bind_some, hheld, hkept t held hheld]
  · rw [hseq ha]
    exact h.named a ha
  · rw [hseq ha]
    exact h.waiting hp a ha
  · refine h.apart.imp_of_mem fun ha hb hab => ?_
    rw [hseq ha, hseq hb]
    exact hab

/-- A watermark moves forward to what is held. -/
def reach (c : Client) (who through : String) (held : Held) : Client :=
  { c with readSeq := c.readSeq.insert who held.seq, readThrough := c.readThrough.insert who through }

theorem watermark_reach (who through : String) (held : Held) (other : String) :
    (c.reach who through held).watermark other = if other = who then (held.seq : ℕ) else c.watermark other := by
  show (((c.readSeq.insert who held.seq).lookup other).map (·.val)).getD 0 = _
  rw [Dict.lookup_insert_eq]
  split
  · rfl
  · rfl

theorem le_watermark_reach {who : String} (through : String) {held : Held} (hlt : c.watermark who < held.seq) (other : String) :
    c.watermark other ≤ (c.reach who through held).watermark other := by
  rw [watermark_reach]
  split
  · rename_i heq
    rw [heq]
    exact hlt.le
  · exact le_refl _

theorem Reads.reach (h : c.Reads reads) {who through : String} {held : Held}
    (hheld : c.content.lookup through = some held) (hlt : c.watermark who < held.seq) :
    (c.reach who through held).Reads reads := by
  have hle := le_watermark_reach through hlt c.me
  refine ⟨fun other t ht => ?_, fun other => ?_, fun a ha => ?_, fun hp a ha => ?_, fun hp => ?_, h.last, h.apart⟩
  · change (c.readThrough.insert who through).lookup other = some t at ht
    rw [Dict.lookup_insert_eq] at ht
    split at ht
    · obtain rfl := Option.some.inj ht
      exact Dict.mem_iff_lookup.mpr ⟨held, hheld⟩
    · exact h.held other t ht
  · rw [watermark_reach]
    show seqOf c.content ((c.readThrough.insert who through).lookup other) = _
    rw [Dict.lookup_insert_eq]
    split
    · unfold seqOf
      rw [Option.bind_some, hheld]
      rfl
    · exact h.marks other
  · exact ⟨(h.named a ha).1, (h.named a ha).2.trans hle⟩
  · exact (h.waiting hp a ha).trans_le hle
  · exact ⟨(h.pending hp).1, (h.pending hp).2.trans_le hle⟩

theorem receipt_reads (c : Client) (o : Receipt) : ∃ delivered played,
    (c.receipt o).1 = { c with delivered := delivered, played := played } ∨
      ∃ through held, c.content.lookup through = some held ∧ c.watermark o.sender < held.seq ∧
        (c.receipt o).1 = c.reach o.sender through held := by
  unfold Client.receipt
  by_cases hdelivered : o.kind = "delivered"
  · simp only [hdelivered, true_or, if_true]
    exact ⟨_, _, .inl rfl⟩
  by_cases hplayed : o.kind = "played"
  · simp only [hplayed, or_true, if_true, if_neg (show ¬"played" = "delivered" by decide)]
    exact ⟨_, _, .inl rfl⟩
  refine ⟨c.delivered, c.played, ?_⟩
  rw [if_neg (not_or.mpr ⟨hdelivered, hplayed⟩)]
  split
  · cases o.through with
    | none => exact .inl rfl
    | some through =>
      dsimp only
      cases hheld : c.content.lookup through with
      | none => exact .inl rfl
      | some held =>
        dsimp only
        split
        · rename_i hlt
          exact .inr ⟨through, held, hheld, hlt, rfl⟩
        · exact .inl rfl
  · exact .inl rfl

theorem Reads.item (h : c.Reads reads) (fresh : List String) (archive : List Emit) (it : Item) :
    (syncItem (c, fresh, archive) it).1.Reads reads ∧
      ∀ who, c.watermark who ≤ (syncItem (c, fresh, archive) it).1.watermark who := by
  obtain ⟨seq, object⟩ := it
  cases object with
  | other => exact ⟨h, fun _ => le_refl _⟩
  | content o =>
    by_cases hheld : o.id ∈ c.content
    · rw [show syncItem (c, fresh, archive) ⟨seq, .content o⟩ = (c, fresh, archive) from if_pos hheld]
      exact ⟨h, fun _ => le_refl _⟩
    · rw [show syncItem (c, fresh, archive) ⟨seq, .content o⟩ = (c.take seq o, fresh ++ [o.id], archive) from
        if_neg hheld]
      exact ⟨h.take seq hheld, fun _ => le_refl _⟩
  | receipt o =>
    show (c.receipt o).1.Reads reads ∧ ∀ who, c.watermark who ≤ (c.receipt o).1.watermark who
    obtain ⟨_, _, heq | ⟨through, held, hheld, hlt, heq⟩⟩ := receipt_reads c o
    · rw [heq]
      exact ⟨⟨h.held, h.marks, h.named, h.waiting, h.pending, h.last, h.apart⟩, fun _ => le_refl _⟩
    · rw [heq]
      exact ⟨h.reach hheld hlt, le_watermark_reach through hlt⟩

theorem Reads.items (h : c.Reads reads) (fresh : List String) (archive : List Emit) (items : List Item) :
    (items.foldl syncItem (c, fresh, archive)).1.Reads reads ∧
      ∀ who, c.watermark who ≤ (items.foldl syncItem (c, fresh, archive)).1.watermark who := by
  induction items generalizing c fresh archive with
  | nil => exact ⟨h, fun _ => le_refl _⟩
  | cons it items ih =>
    obtain ⟨hread, hle⟩ := h.item fresh archive it
    obtain ⟨hrest, hleRest⟩ := ih hread (syncItem (c, fresh, archive) it).2.1 (syncItem (c, fresh, archive) it).2.2
    exact ⟨hrest, fun who => (hle who).trans (hleRest who)⟩

theorem Reads.send (h : c.Reads reads) (hpast : ∀ a ∈ reads, seqOf c.content a.2 < c.watermark c.me)
    (hpos : 0 < c.watermark c.me) (hlast : ∀ last, c.lastReadSent = some last → last + readMinIntervalS ≤ c.now) :
    c.readSend.1.Reads (reads ++ [(c.now, c.readThrough.lookup c.me)]) := by
  have hmine : seqOf c.content (c.readThrough.lookup c.me) = c.watermark c.me := h.marks c.me
  refine ⟨h.held, h.marks, fun a ha => ?_, nofun, nofun, fun a ha => ?_, ?_⟩
  · show 0 < seqOf c.content a.2 ∧ seqOf c.content a.2 ≤ c.watermark c.me
    rcases List.mem_append.mp ha with ha | ha
    · exact h.named a ha
    · rw [List.mem_singleton.mp ha, hmine]
      exact ⟨hpos, le_refl _⟩
  · refine ⟨c.now, rfl, ?_⟩
    rcases List.mem_append.mp ha with ha | ha
    · obtain ⟨last, hsome, hle⟩ := h.last a ha
      have hafter := hlast last hsome
      unfold readMinIntervalS at hafter
      omega
    · rw [List.mem_singleton.mp ha]
  · show List.Pairwise (fun a b : Int × Option String => a.1 + readMinIntervalS ≤ b.1 ∧ seqOf c.content a.2 < seqOf c.content b.2) _
    rw [List.pairwise_append]
    refine ⟨h.apart, List.pairwise_singleton _ _, fun a ha b hb => ?_⟩
    rw [List.mem_singleton.mp hb, hmine]
    obtain ⟨last, hsome, hle⟩ := h.last a ha
    have hafter := hlast last hsome
    exact ⟨by omega, hpast a ha⟩

/-! ## A step -/

/-- The read receipts among what is sent. -/
def readsOf (sent : List (Int × Emit)) : List (Int × Option String) :=
  sent.filterMap fun s =>
    match s.2 with
    | .read _ through => some (s.1, through)
    | _ => none

/-- What a step sends, with the time. -/
def sends (c : Client) (e : Event) : List (Int × Emit) := (c.step e).2.map fun m => ((c.step e).1.now, m)

/-- What is archived and what is sent of the other kinds. -/
def Emit.isRead : Emit → Bool
  | .read _ _ => true
  | _ => false

theorem readsOf_eq_nil {t : Int} {ms : List Emit} (h : ∀ m ∈ ms, m.isRead = false) :
    readsOf (ms.map fun m => (t, m)) = [] := by
  unfold readsOf
  rw [List.filterMap_map, List.filterMap_eq_nil_iff]
  intro m hm
  have hread := h m hm
  cases m with
  | read dest through => cases hread
  | _ => rfl

theorem archived (items : List Item) (c : Client) (fresh : List String) (archive : List Emit)
    (h : ∀ m ∈ archive, ∃ seq, m = .archive seq) :
    ∀ m ∈ (items.foldl syncItem (c, fresh, archive)).2.2, ∃ seq, m = .archive seq := by
  induction items generalizing c fresh archive with
  | nil => exact h
  | cons it items ih =>
    refine ih (syncItem (c, fresh, archive) it).1 (syncItem (c, fresh, archive) it).2.1 _ ?_
    obtain ⟨seq, object⟩ := it
    cases object with
    | other => exact h
    | content o =>
      show ∀ m ∈ (if o.id ∈ c.content then (c, fresh, archive) else (c.take seq o, fresh ++ [o.id], archive)).2.2, _
      split
      · exact h
      · exact h
    | receipt o =>
      show ∀ m ∈ (if (c.receipt o).2 then archive ++ [.archive seq] else archive), _
      split
      · intro m hm
        rcases List.mem_append.mp hm with hm | hm
        · exact h m hm
        · exact ⟨seq, List.mem_singleton.mp hm⟩
      · exact h

theorem sync_reads (c : Client) (items : List Item) {t : Int} :
    readsOf ((c.sync items).2.map fun m => (t, m)) = [] := by
  refine readsOf_eq_nil fun m hm => ?_
  have harchive := archived items c [] [] nofun
  obtain heq | ⟨targets, -, -, heq⟩ := sync_cases c items
  · rw [heq] at hm
    obtain ⟨seq, rfl⟩ := harchive m hm
    rfl
  · rw [heq] at hm
    rcases List.mem_append.mp hm with hm | hm
    · obtain ⟨seq, rfl⟩ := harchive m hm
      rfl
    · obtain ⟨ts, -, rfl⟩ := List.mem_map.mp hm
      rfl

theorem Reads.step (h : c.Reads reads) (e : Event) :
    (c.step e).1.Reads (reads ++ readsOf (c.sends e)) ∧ ∀ who, c.watermark who ≤ (c.step e).1.watermark who := by
  cases e with
  | sync items =>
    have hquiet : readsOf (c.sends (.sync items)) = [] := sync_reads c items
    obtain ⟨hread, hle⟩ := h.items [] [] items
    rw [hquiet, List.append_nil]
    show (c.sync items).1.Reads reads ∧ ∀ who, c.watermark who ≤ (c.sync items).1.watermark who
    obtain heq | ⟨targets, -, -, heq⟩ := sync_cases c items
    · rw [heq]
      exact ⟨hread, hle⟩
    · rw [heq]
      exact ⟨⟨hread.held, hread.marks, hread.named, hread.waiting, hread.pending, hread.last, hread.apart⟩, hle⟩
  | restore items =>
    have hquiet : readsOf (c.sends (.restore items)) = [] := rfl
    rw [hquiet, List.append_nil]
    show (c.restore items).Reads reads ∧ ∀ who, c.watermark who ≤ (c.restore items).watermark who
    rw [restore_eq items [] []]
    exact h.items [] [] items
  | read through =>
    unfold Client.sends
    show (c.read through).1.Reads (reads ++ readsOf ((c.read through).2.map fun m => ((c.read through).1.now, m))) ∧
      ∀ who, c.watermark who ≤ (c.read through).1.watermark who
    obtain heq | ⟨held, hheld, hlt, hcases⟩ := read_cases c through
    · rw [heq]
      exact ⟨by simpa [readsOf] using h, fun _ => le_refl _⟩
    · have hreach := h.reach hheld hlt
      have hle := le_watermark_reach through hlt
      have hmine : (c.reach c.me through held).watermark c.me = held.seq := by rw [watermark_reach, if_pos rfl]
      have hpast : ∀ a ∈ reads, seqOf c.content a.2 < (c.reach c.me through held).watermark c.me := by
        intro a ha
        rw [hmine]
        exact (h.named a ha).2.trans_lt hlt
      have hpos : 0 < (c.reach c.me through held).watermark c.me := by
        rw [hmine]
        exact held.seq.pos
      obtain ⟨last, hlast, -, heq⟩ | ⟨hlast, heq⟩ := hcases
      · rw [heq, List.map_nil, show readsOf [] = [] from rfl, List.append_nil]
        refine ⟨⟨hreach.held, hreach.marks, hreach.named, fun _ => hpast, fun _ => ⟨?_, hpos⟩, hreach.last,
          hreach.apart⟩, hle⟩
        show c.lastReadSent.isSome = true
        rw [hlast]
        rfl
      · rw [heq]
        exact ⟨hreach.send hpast hpos hlast, hle⟩
  | play i =>
    unfold Client.sends
    show (c.play i).1.Reads (reads ++ readsOf ((c.play i).2.map fun m => ((c.play i).1.now, m))) ∧
      ∀ who, c.watermark who ≤ (c.play i).1.watermark who
    obtain heq | ⟨held, -, -, -, -, -, heq⟩ := play_cases c i
    · rw [heq]
      exact ⟨by simpa [readsOf] using h, fun _ => le_refl _⟩
    · rw [heq, show readsOf ([Emit.receipt "conversation" "played" [i]].map fun m => (c.now, m)) = [] from rfl,
        List.append_nil]
      exact ⟨⟨h.held, h.marks, h.named, h.waiting, h.pending, h.last, h.apart⟩, fun _ => le_refl _⟩
  | activity a state =>
    unfold Client.sends
    show (c.activity a state).1.Reads (reads ++
        readsOf ((c.activity a state).2.map fun m => ((c.activity a state).1.now, m))) ∧
      ∀ who, c.watermark who ≤ (c.activity a state).1.watermark who
    obtain ⟨_, heq, hquiet⟩ := activity_cases c a state
    have hnone : ∀ m ∈ (c.activity a state).2, m.isRead = false := by
      intro m hm
      obtain ⟨_, _, rfl⟩ := hquiet m hm
      rfl
    rw [readsOf_eq_nil hnone, List.append_nil, heq]
    exact ⟨⟨h.held, h.marks, h.named, h.waiting, h.pending, h.last, h.apart⟩, fun _ => le_refl _⟩
  | activityIn sender a state expiresAt =>
    have hquiet : readsOf (c.sends (.activityIn sender a state expiresAt)) = [] := rfl
    rw [hquiet, List.append_nil]
    show (c.activityIn sender a state expiresAt).Reads reads ∧
      ∀ who, c.watermark who ≤ (c.activityIn sender a state expiresAt).watermark who
    obtain ⟨_, heq⟩ := activityIn_cases c sender a state expiresAt
    rw [heq]
    exact ⟨⟨h.held, h.marks, h.named, h.waiting, h.pending, h.last, h.apart⟩, fun _ => le_refl _⟩
  | advance n =>
    unfold Client.sends
    show (c.advance n).1.Reads (reads ++ readsOf ((c.advance n).2.map fun m => ((c.advance n).1.now, m))) ∧
      ∀ who, c.watermark who ≤ (c.advance n).1.watermark who
    obtain ⟨shown, hcases⟩ := advance_cases c n
    have hmoved : ({ c with now := c.now + n, shown := shown } : Client).Reads reads :=
      ⟨h.held, h.marks, h.named, h.waiting, h.pending, h.last, h.apart⟩
    obtain ⟨hpending, last, hlast, hdue, heq⟩ | ⟨-, heq⟩ := hcases
    · rw [heq]
      refine ⟨hmoved.send (h.waiting hpending) (h.pending hpending).2 fun last' hlast' => ?_, fun _ => le_refl _⟩
      obtain rfl : last = last' := Option.some.inj (hlast.symm.trans hlast')
      exact hdue
    · rw [heq]
      exact ⟨by simpa [readsOf] using hmoved, fun _ => le_refl _⟩

end Dsip.Messaging.Client
