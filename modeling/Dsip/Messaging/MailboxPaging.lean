import Dsip.Messaging.MailboxItems

/-!
# Reading a mailbox page by page

A device syncs from some cursor, then from each answer's `next`, until there is
none. Whatever else happens between the pages, the numbers only grow: what is
stored meanwhile comes after the page, and what stays is met once
(`Reading.complete`).
-/

namespace Dsip.Messaging.Mailbox

open Dsip.Lib

abbrev MailboxMove := TSys.Move Mailbox Event (List Emit)

/-- A sync of the device from `since`, answered with a page. -/
structure IsPage (device : String) (since : Option String) (mv : MailboxMove)
    (cursors : List String) (next : Option String) : Prop where
  read : ∃ e : Sync, mv.input = .sync e ∧ e.device = device ∧ e.since = since ∧ 1 ≤ e.limit ∧
    mv.output = [.items e.device e.id cursors next]

/-- A device reads to the end: the moves of the mailbox meanwhile, and the
cursors it is given. -/
inductive Reading (device : String) : Option String → List MailboxMove → List String → Prop
  | last {since mv cursors} (hpage : IsPage device since mv cursors none) :
      Reading device since [mv] cursors
  | more {since mv cursors next between rest later} (hpage : IsPage device since mv cursors (some next))
      (hrest : Reading device (some next) rest later) :
      Reading device since (mv :: (between ++ rest)) (cursors ++ later)

/-- The number a `since` stands for. -/
def sinceNum : Option String → Option Int
  | none => some 0
  | some c => cursorNum c

/-- A page cut after `k`: some numbers in order, and nothing up to the last of
them is left out. -/
structure Cut (items : List Item) (k : Int) (ns : List Nat) (next : Option Nat) : Prop where
  sorted : ns.Pairwise (· < ·)
  above : ∀ n ∈ ns, k < n
  upTo : ∀ b, next = some b → b ∈ ns ∧ ∀ n ∈ ns, n ≤ b
  covers : ∀ it ∈ items, k < it.n → next.all (it.n ≤ ·) → it.n ∈ ns

section Pages

variable {m : Mailbox} {e : Sync} {since : Int} {cursors : List String} {next : Option String}

theorem mem_take_of_le {l : List Item} (hl : l.Pairwise fun a b => a.n < b.n) {k : Nat}
    {last it : Item} (hlast : (l.take k).getLast? = some last) (hit : it ∈ l)
    (hle : it.n ≤ last.n) : it ∈ l.take k := by
  rw [← List.take_append_drop k l] at hit hl
  rcases List.mem_append.mp hit with hit | hit
  · exact hit
  · have hlt := (List.pairwise_append.mp hl).2.2 last (List.mem_of_getLast? hlast) it hit
    omega

theorem le_last_of_mem {l : List Item} (hl : l.Pairwise fun a b => a.n < b.n) {last it : Item}
    (hlast : l.getLast? = some last) (hit : it ∈ l) : it.n ≤ last.n := by
  obtain ⟨init, rfl⟩ := List.getLast?_eq_some_iff.mp hlast
  rcases List.mem_append.mp hit with hit | hit
  · exact ((List.pairwise_append.mp hl).2.2 it hit last (List.mem_singleton_self last)).le
  · rw [List.mem_singleton.mp hit]

theorem page_cut (h : m.Numbered) (hpage : m.page e since = .ok [.items e.device e.id cursors next]) :
    ∃ (ns : List Nat) (b : Option Nat), cursors = ns.map cursor ∧ next = b.map cursor ∧
      Cut m.items since ns b := by
  have hsorted : (m.items.filter fun it => since < (it.n : Int)).Pairwise fun a b => a.n < b.n :=
    h.sorted.filter _
  have hmem : ∀ it ∈ m.items.filter fun it => since < (it.n : Int), it ∈ m.items ∧ since < it.n := by
    intro it hit
    rw [List.mem_filter] at hit
    exact ⟨hit.1, of_decide_eq_true hit.2⟩
  have hcovers : ∀ it ∈ m.items, since < it.n → it ∈ m.items.filter fun it => since < (it.n : Int) :=
    fun it hit hlt => List.mem_filter.mpr ⟨hit, decide_eq_true hlt⟩
  unfold page at hpage
  dsimp only at hpage
  generalize m.items.filter (fun it => since < (it.n : Int)) = avail at hsorted hmem hcovers hpage
  have hcut : ∀ l : List Item, l.Sublist avail →
      l.map (·.cursor) = (l.map (·.n)).map cursor ∧ (l.map (·.n)).Pairwise (· < ·) ∧
        ∀ n ∈ l.map (·.n), since < (n : Nat) := by
    intro l hl
    refine ⟨?_, ?_, ?_⟩
    · rw [List.map_map]
      exact List.map_congr_left fun it hit => h.named it (hmem it (hl.subset hit)).1
    · exact List.pairwise_map.mpr (hsorted.sublist hl)
    · intro n hn
      obtain ⟨it, hit, rfl⟩ := List.mem_map.mp hn
      exact (hmem it (hl.subset hit)).2
  split at hpage
  case isTrue =>
    obtain ⟨hcursors, hpair, habove⟩ := hcut _ (List.take_sublist e.limit avail)
    split at hpage
    case h_1 => cases hpage
    case h_2 last hlast =>
      injection Except.ok.inj hpage with hpage
      injection hpage with _ _ hc hn
      refine ⟨_, some last.n, hc.symm.trans hcursors, ?_, hpair, habove, ?_, ?_⟩
      · have hlast' := List.mem_of_mem_take (List.mem_of_getLast? hlast)
        rw [← hn, h.named last (hmem last hlast').1]
        rfl
      · intro b hb
        obtain rfl := Option.some.inj hb
        refine ⟨List.mem_map_of_mem (List.mem_of_getLast? hlast), ?_⟩
        intro n hn
        obtain ⟨it, hit, rfl⟩ := List.mem_map.mp hn
        exact le_last_of_mem (hsorted.sublist (List.take_sublist _ _)) hlast hit
      · intro it hit hlt hle
        exact List.mem_map_of_mem
          (mem_take_of_le hsorted hlast (hcovers it hit hlt) (of_decide_eq_true hle))
  case isFalse hall =>
    injection Except.ok.inj hpage with hpage
    injection hpage with _ _ hc hn
    rw [List.take_of_length_le (not_lt.mp hall)] at hc
    obtain ⟨hcursors, hpair, habove⟩ := hcut avail (List.Sublist.refl avail)
    refine ⟨_, none, hc.symm.trans hcursors, hn.symm, hpair, habove, nofun, ?_⟩
    intro it hit hlt _
    exact List.mem_map_of_mem (hcovers it hit hlt)

theorem IsPage.cut {device : String} {since : Option String} {mv : MailboxMove}
    (hpage : IsPage device since mv cursors next) (h : mv.before.Numbered)
    (hs : mv.before.step mv.input = .ok (mv.after, mv.output)) :
    ∃ (k : Int) (ns : List Nat) (b : Option Nat), sinceNum since = some k ∧
      cursors = ns.map cursor ∧ next = b.map cursor ∧ Cut mv.after.items k ns b := by
  obtain ⟨e, hinput, -, rfl, -, houtput⟩ := hpage.read
  rw [hinput, houtput] at hs
  rcases sync_items hs with ⟨-, herr⟩ | hpaged
  · cases herr
  · obtain ⟨k, hread, hp⟩ := hpaged.since
    obtain ⟨ns, b, hcursors, hnext, hcut⟩ := page_cut (h.step hpaged.items) hp
    refine ⟨k.getD 0, ns, b, ?_, hcursors, hnext, hcut⟩
    rcases readCursor_eq hread with ⟨hsince, rfl⟩ | ⟨c, k, hsince, rfl, hnum, -⟩
    · rw [hsince]
      rfl
    · rw [hsince]
      exact hnum

end Pages

/-- The item is in the mailbox all along. -/
def Stays (it : Item) (p : List MailboxMove) : Prop := ∀ mv ∈ p, it ∈ mv.before.items ∧ it ∈ mv.after.items

theorem Reading.exists_cons {device : String} {since : Option String} {p : List MailboxMove}
    {cursors : List String} (hr : Reading device since p cursors) : ∃ mv rest, p = mv :: rest := by
  cases hr with
  | last => exact ⟨_, _, rfl⟩
  | more => exact ⟨_, _, rfl⟩

theorem Reading.numbers {ctx : Context} {device : String} {since : Option String}
    {p : List MailboxMove} {cursors : List String} (hr : Reading device since p cursors) :
    ∀ {m m' : Mailbox}, (machine ctx).Reachable m → (machine ctx).Path m p m' →
      ∃ (k : Int) (ns : List Nat), sinceNum since = some k ∧ cursors = ns.map cursor ∧
        ns.Pairwise (· < ·) ∧ (∀ n ∈ ns, k < n) ∧ ∀ it, Stays it p → k < it.n → it.n ∈ ns := by
  induction hr with
  | @last since mv cursors hpage =>
    intro m m' hm hp
    obtain ⟨rfl, hs, -⟩ := TSys.Path.uncons hp
    obtain ⟨k, ns, b, hk, hcursors, hb, hcut⟩ := hpage.cut (numbered ctx _ hm) hs
    refine ⟨k, ns, hk, hcursors, hcut.sorted, hcut.above, ?_⟩
    intro it hstays hlt
    refine hcut.covers it (hstays mv List.mem_cons_self).2 hlt ?_
    rw [Option.map_eq_none_iff.mp hb.symm]
    rfl
  | @more since mv cursors next between rest later hpage _ ih =>
    intro m m' hm hp
    obtain ⟨rfl, hs, htail⟩ := TSys.Path.uncons hp
    obtain ⟨m₁, hbetween, hrest⟩ := htail.splitAt
    have hm₁ : (machine ctx).Reachable m₁ := by
      obtain ⟨tr, hrun⟩ := hbetween.run
      exact hrun.reachable (hm.step hs)
    obtain ⟨k, ns, b, hk, rfl, hb, hcut⟩ := hpage.cut (numbered ctx _ hm) hs
    obtain ⟨k', ns', hk', rfl, hpair, habove, hcovers⟩ := ih hm₁ hrest
    obtain ⟨b, rfl, rfl⟩ := Option.map_eq_some_iff.mp hb.symm
    -- the next page starts where this one ends
    obtain ⟨-, rfl⟩ := cursorNum_eq hk'
    obtain ⟨hmem, hle⟩ := hcut.upTo b rfl
    have hlater : ∀ n ∈ ns', b < n := fun n hn => by exact_mod_cast habove n hn
    refine ⟨k, ns ++ ns', hk, List.map_append.symm, ?_, ?_, ?_⟩
    · refine List.pairwise_append.mpr ⟨hcut.sorted, hpair, ?_⟩
      exact fun n hn n' hn' => (hle n hn).trans_lt (hlater n' hn')
    · intro n hn
      rcases List.mem_append.mp hn with hn | hn
      · exact hcut.above n hn
      · have hkb := hcut.above b hmem
        have hbn := habove n hn
        omega
    · intro it hstays hlt
      by_cases hib : it.n ≤ b
      · exact List.mem_append_left _
          (hcut.covers it (hstays mv List.mem_cons_self).2 hlt (decide_eq_true hib))
      · refine List.mem_append_right _ (hcovers it ?_ ?_)
        · exact fun mv' hmv' =>
            hstays mv' (List.mem_cons_of_mem _ (List.mem_append_right _ hmv'))
        · omega

/-- **Paging is complete under concurrent change.** Whatever happens between the
pages of a device's reading, the cursors it is given are those of numbers in
strictly increasing order, none twice, and an item after `since` that stays
throughout is among them once. -/
theorem reading_complete {ctx : Context} {m m' : Mailbox} {device : String}
    {since : Option String} {p : List MailboxMove} {cursors : List String}
    (hm : (machine ctx).Reachable m) (hp : (machine ctx).Path m p m') (hr : Reading device since p cursors) :
    (∃ ns : List Nat, cursors = ns.map cursor ∧ ns.Pairwise (· < ·)) ∧ cursors.Nodup ∧
      ∃ k, sinceNum since = some k ∧ ∀ it, Stays it p → k < it.n → cursors.count it.cursor = 1 := by
  obtain ⟨k, ns, hk, rfl, hpair, -, hcovers⟩ := hr.numbers hm hp
  have hnodup : (ns.map cursor).Nodup :=
    (hpair.imp Nat.ne_of_lt).map _ fun _ _ hne he => hne (cursor_injective he)
  refine ⟨⟨ns, rfl, hpair⟩, hnodup, k, hk, ?_⟩
  intro it hstays hlt
  refine List.count_eq_one_of_mem hnodup ?_
  have hnamed : it.cursor = cursor it.n := by
    obtain ⟨mv, rest, rfl⟩ := hr.exists_cons
    obtain ⟨rfl, -⟩ := TSys.Path.uncons hp
    exact (numbered ctx _ hm).named it (hstays mv List.mem_cons_self).1
  rw [hnamed]
  exact List.mem_map_of_mem (hcovers it hstays hlt)

/-! ## Three items -/

/-- The hub's item with the seq. -/
def seqItem (seq : Nat) : Event :=
  .hubDeposit
    { id := "h", sender := "did:hub", recipient := "did:bob", group := "g", seq := some seq,
      cls := .application }

def readingContext : Context :=
  { owner := "did:bob", devices := ["d1"], groups := Dict.ofList [("g", "did:hub", .joined)] }

/-- What happens before and during the reading. -/
def readingTrace : List (Event × List Emit) :=
  [(seqItem 1, [.accepted "did:hub" "h" (some (cursor 1)) false]),
    (seqItem 2, [.accepted "did:hub" "h" (some (cursor 2)) false]),
    (.sync { id := "s1", device := "d1", limit := 1 }, [.items "d1" "s1" [cursor 1] (some (cursor 1))]),
    (seqItem 3, [.accepted "did:hub" "h" (some (cursor 3)) false]),
    (.sync { id := "s2", device := "d1", since := some (cursor 1) },
      [.items "d1" "s2" [cursor 2, cursor 3] none])]

/-- A page of one item, then the rest with what came between. -/
theorem reading_complete_three :
    ∃ m m' p, (machine readingContext).Reachable m ∧ (machine readingContext).Path m p m' ∧
      Reading "d1" none p [cursor 1, cursor 2, cursor 3] ∧
      [cursor 1, cursor 2, cursor 3].Nodup := by
  obtain ⟨tr, m', hrun, htr⟩ := TSys.exec?_runWhere step (fun _ _ _ => True)
    (· = init readingContext) (init readingContext) (readingTrace.map (·.1))
    (fun r => r.1 = readingTrace) (by decide +kernel) (by decide +kernel)
  obtain rfl := of_decide_eq_true htr
  obtain ⟨p, hp, htr⟩ := TSys.Run.path hrun
  obtain ⟨a, p, rfl, -, htr⟩ := List.map_eq_cons_iff.mp htr.symm
  obtain ⟨b, p, rfl, -, htr⟩ := List.map_eq_cons_iff.mp htr
  obtain ⟨c, p, rfl, hc, htr⟩ := List.map_eq_cons_iff.mp htr
  obtain ⟨d, p, rfl, -, htr⟩ := List.map_eq_cons_iff.mp htr
  obtain ⟨e, p, rfl, he, hnil⟩ := List.map_eq_cons_iff.mp htr
  obtain rfl := List.map_eq_nil_iff.mp hnil
  obtain ⟨m, hbefore, hreading⟩ := @TSys.Path.splitAt _ _ _ _ _ _ [a, b] _ hp
  obtain ⟨_, hrun⟩ := hbefore.run
  have hreach : (machine readingContext).Reachable m := hrun.reachable (.init rfl)
  obtain ⟨hc, hc'⟩ := Prod.mk.inj hc
  obtain ⟨he, he'⟩ := Prod.mk.inj he
  have hread : Reading "d1" none [c, d, e] ([cursor 1] ++ [cursor 2, cursor 3]) := by
    refine @Reading.more _ none c _ _ [d] [e] _ ⟨_, hc, rfl, rfl, by decide, hc'⟩ (.last ?_)
    exact ⟨_, he, rfl, rfl, by decide, he'⟩
  exact ⟨m, m', [c, d, e], hreach, hreading, hread, (reading_complete hreach hreading hread).2.1⟩

end Dsip.Messaging.Mailbox
