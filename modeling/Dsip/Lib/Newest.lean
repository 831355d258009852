import Mathlib.Data.Finset.Card
import Mathlib.Tactic

/-!
# The newest few of the newest of each owner

Items have an owner and a rank. `newest` keeps of each owner the item of the highest rank, and
`Few` says which sets are the `n` of the highest rank of a set. Such a set can be kept up to date
one item at a time, without the items that were turned away (`few_newer`, `few_added`,
`few_evicted`, `few_full`).
-/

namespace Dsip.Lib

variable {α κ ρ : Type} [DecidableEq α] [DecidableEq κ] [LinearOrder ρ] {owner : α → κ} {rank : α → ρ}

/-- Of each owner the item of the highest rank. -/
def newest (owner : α → κ) (rank : α → ρ) (s : Finset α) : Finset α :=
  s.filter fun x => ∀ y ∈ s, owner y = owner x → rank y ≤ rank x

/-- `h` is the `n` items of `m` of the highest rank. -/
structure Few (rank : α → ρ) (n : Nat) (m h : Finset α) : Prop where
  subset : h ⊆ m
  card : h.card ≤ n
  all : h.card < n → h = m
  above : ∀ a ∈ h, ∀ b ∈ m, b ∉ h → rank b < rank a

theorem Few.unique {n : Nat} {m h h' : Finset α} (hh : Few rank n m h) (hh' : Few rank n m h') : h = h' := by
  have hsub {h h' : Finset α} (hh : Few rank n m h) (hh' : Few rank n m h') : h ⊆ h' := by
    intro a ha
    by_contra hnot
    have hfull : h'.card = n := by
      refine le_antisymm hh'.card (not_lt.mp fun hlt => hnot ?_)
      rw [hh'.all hlt]
      exact hh.subset ha
    obtain ⟨b, hb, hbnot⟩ : ∃ b ∈ h', b ∉ h := by
      by_contra hnone
      have hsub : h' ⊆ h.erase a := by
        intro b hb
        refine Finset.mem_erase.mpr ⟨fun heq => hnot (heq ▸ hb), ?_⟩
        by_contra hbnot
        exact hnone ⟨b, hb, hbnot⟩
      have hle := Finset.card_le_card hsub
      rw [Finset.card_erase_of_mem ha, hfull] at hle
      have hpos : 0 < h.card := Finset.card_pos.mpr ⟨a, ha⟩
      have := hh.card
      omega
    exact lt_asymm (hh.above a ha b (hh'.subset hb) hbnot) (hh'.above b hb a (hh.subset ha) hnot)
  exact Finset.Subset.antisymm (hsub hh hh') (hsub hh' hh)

section Newest

variable {s : Finset α} {x : α}

omit [DecidableEq α] in
theorem mem_newest : x ∈ newest owner rank s ↔ x ∈ s ∧ ∀ y ∈ s, owner y = owner x → rank y ≤ rank x :=
  Finset.mem_filter

omit [DecidableEq α] in
theorem exists_newest (owner : α → κ) (rank : α → ρ) {y : α} (hy : y ∈ s) : ∃ m ∈ newest owner rank s, owner m = owner y ∧ rank y ≤ rank m := by
  obtain ⟨m, hm, hmax⟩ := (s.filter fun z => owner z = owner y).exists_max_image rank ⟨y, Finset.mem_filter.mpr ⟨hy, rfl⟩⟩
  obtain ⟨hms, howner⟩ := Finset.mem_filter.mp hm
  refine ⟨m, mem_newest.mpr ⟨hms, fun z hz heq => ?_⟩, howner, hmax y (Finset.mem_filter.mpr ⟨hy, rfl⟩)⟩
  exact hmax z (Finset.mem_filter.mpr ⟨hz, heq.trans howner⟩)

theorem newest_older {y : α} (hy : y ∈ s) (howner : owner y = owner x) (hlt : rank x < rank y) :
    newest owner rank (insert x s) = newest owner rank s := by
  ext z
  simp only [mem_newest, Finset.mem_insert]
  constructor
  · rintro ⟨rfl | hz, hmax⟩
    · exact absurd (hmax y (.inr hy) howner) (not_le.mpr hlt)
    · exact ⟨hz, fun w hw heq => hmax w (.inr hw) heq⟩
  · rintro ⟨hz, hmax⟩
    refine ⟨.inr hz, ?_⟩
    rintro w (rfl | hw) heq
    · exact hlt.le.trans (hmax y hy (howner.trans heq))
    · exact hmax w hw heq

theorem newest_newer (hnew : ∀ y ∈ s, owner y = owner x → rank y < rank x) :
    newest owner rank (insert x s) = insert x ((newest owner rank s).filter fun z => owner z ≠ owner x) := by
  ext z
  simp only [mem_newest, Finset.mem_insert, Finset.mem_filter]
  constructor
  · rintro ⟨rfl | hz, hmax⟩
    · exact .inl rfl
    · refine .inr ⟨⟨hz, fun w hw heq => hmax w (.inr hw) heq⟩, fun howner => ?_⟩
      exact absurd (hmax x (.inl rfl) howner.symm) (not_le.mpr (hnew z hz howner))
  · rintro (rfl | ⟨⟨hz, hmax⟩, howner⟩)
    · refine ⟨.inl rfl, ?_⟩
      rintro w (rfl | hw) heq
      · exact le_refl _
      · exact (hnew w hw heq).le
    · refine ⟨.inr hz, ?_⟩
      rintro w (rfl | hw) heq
      · exact absurd heq.symm howner
      · exact hmax w hw heq

end Newest

/-! ## One more item -/

section Put

variable {n : Nat} {s h : Finset α} {x : α}

theorem few_older (hinj : Set.InjOn rank (insert x s : Finset α)) (hfew : Few rank n (newest owner rank s) h) {y : α}
    (hy : y ∈ s) (howner : owner y = owner x) (hle : rank x ≤ rank y) : Few rank n (newest owner rank (insert x s)) h := by
  rcases hle.lt_or_eq with hlt | heq
  · rwa [newest_older hy howner hlt]
  · obtain rfl : x = y := hinj (Finset.mem_insert_self x s) (Finset.mem_insert_of_mem hy) heq
    rwa [Finset.insert_eq_self.mpr hy]

theorem few_newer (hinj : Set.InjOn rank (insert x s : Finset α)) (hfew : Few rank n (newest owner rank s) h) {y : α}
    (hy : y ∈ h) (howner : owner y = owner x) (hlt : rank y < rank x) :
    Few rank n (newest owner rank (insert x s)) (insert x (h.erase y)) := by
  obtain ⟨hys, hymax⟩ := mem_newest.mp (hfew.subset hy)
  have hnew : ∀ z ∈ s, owner z = owner x → rank z < rank x := fun z hz heq =>
    (hymax z hz (heq.trans howner.symm)).trans_lt hlt
  have hxs : x ∉ s := fun hx => lt_irrefl _ (hnew x hx rfl)
  have honly : ∀ z ∈ newest owner rank s, owner z = owner x → z = y := by
    intro z hz heq
    obtain ⟨hzs, hzmax⟩ := mem_newest.mp hz
    have hrank : rank z = rank y :=
      le_antisymm (hymax z hzs (heq.trans howner.symm)) (hzmax y hys (howner.trans heq.symm))
    exact hinj (Finset.mem_insert_of_mem hzs) (Finset.mem_insert_of_mem hys) hrank
  have hx : x ∉ h := fun hx => hxs (mem_newest.mp (hfew.subset hx)).1
  have hcard : (insert x (h.erase y)).card = h.card := by
    rw [Finset.card_insert_of_notMem fun hmem => hx (Finset.mem_of_mem_erase hmem), Finset.card_erase_add_one hy]
  have hrest : (newest owner rank s).filter (fun z => owner z ≠ owner x) = (newest owner rank s).erase y := by
    ext z
    rw [Finset.mem_filter, Finset.mem_erase]
    constructor
    · rintro ⟨hz, hne⟩
      exact ⟨fun heq => hne (heq ▸ howner), hz⟩
    · rintro ⟨hne, hz⟩
      exact ⟨hz, fun heq => hne (honly z hz heq)⟩
  rw [newest_newer hnew, hrest]
  refine ⟨?_, hcard ▸ hfew.card, fun hless => ?_, ?_⟩
  · exact Finset.insert_subset_insert x (Finset.erase_subset_erase y hfew.subset)
  · rw [hcard] at hless
    rw [hfew.all hless]
  · intro a ha b hb hbnot
    have hbx : b ≠ x := fun heq => hbnot (heq.symm ▸ Finset.mem_insert_self x _)
    obtain ⟨hby, hbm⟩ := Finset.mem_erase.mp ((Finset.mem_insert.mp hb).resolve_left hbx)
    have hbh : b ∉ h := fun hbh => hbnot (Finset.mem_insert_of_mem (Finset.mem_erase.mpr ⟨hby, hbh⟩))
    rcases Finset.mem_insert.mp ha with rfl | ha
    · exact (hfew.above y hy b hbm hbh).trans hlt
    · exact hfew.above a (Finset.mem_of_mem_erase ha) b hbm hbh

theorem few_added (hfew : Few rank n (newest owner rank s) h) (hnone : ∀ y ∈ h, owner y ≠ owner x) (hroom : h.card < n) :
    Few rank n (newest owner rank (insert x s)) (insert x h) := by
  have hall := hfew.all hroom
  have hnew : ∀ y ∈ s, owner y = owner x → rank y < rank x := by
    intro y hy heq
    obtain ⟨m, hm, howner, -⟩ := exists_newest owner rank hy
    exact absurd (howner.trans heq) (hnone m (hall ▸ hm))
  have hrest : (newest owner rank s).filter (fun z => owner z ≠ owner x) = h := by
    rw [← hall]
    exact Finset.filter_true_of_mem hnone
  rw [newest_newer hnew, hrest]
  refine ⟨Finset.Subset.refl _, (Finset.card_insert_le x h).trans hroom, fun _ => rfl, ?_⟩
  exact fun a _ b hb hbnot => absurd hb hbnot

/-- With none of its owner held and no room, it drives out the item of the lowest rank, if that is lower. -/
theorem few_evicted (hinj : Set.InjOn rank (insert x s : Finset α)) (hfew : Few rank n (newest owner rank s) h)
    (hnone : ∀ y ∈ h, owner y ≠ owner x) (hfull : ¬h.card < n) {v : α} (hv : v ∈ h) (hlow : ∀ y ∈ h, rank v ≤ rank y)
    (hlt : rank v < rank x) : Few rank n (newest owner rank (insert x s)) (insert x (h.erase v)) := by
  have hnew : ∀ y ∈ s, owner y = owner x → rank y < rank x := by
    intro y hy heq
    obtain ⟨m, hm, howner, hle⟩ := exists_newest owner rank hy
    have hnot : m ∉ h := fun hmh => hnone m hmh (howner.trans heq)
    exact hle.trans_lt ((hfew.above v hv m hm hnot).trans hlt)
  have hxs : x ∉ s := fun hx => lt_irrefl _ (hnew x hx rfl)
  have hx : x ∉ h := fun hx => hxs (mem_newest.mp (hfew.subset hx)).1
  have hcard : (insert x (h.erase v)).card = h.card := by
    rw [Finset.card_insert_of_notMem fun hmem => hx (Finset.mem_of_mem_erase hmem), Finset.card_erase_add_one hv]
  rw [newest_newer hnew]
  refine ⟨?_, hcard ▸ hfew.card, fun hless => absurd (hcard ▸ hless) hfull, ?_⟩
  · refine Finset.insert_subset_insert x fun y hy => ?_
    have hyh := Finset.mem_of_mem_erase hy
    exact Finset.mem_filter.mpr ⟨hfew.subset hyh, hnone y hyh⟩
  · intro a ha b hb hbnot
    have hbx : b ≠ x := fun heq => hbnot (heq.symm ▸ Finset.mem_insert_self x _)
    have hbm := (Finset.mem_filter.mp ((Finset.mem_insert.mp hb).resolve_left hbx)).1
    have hlow' : ∀ a ∈ insert x (h.erase v), rank v < rank a := by
      intro a ha
      rcases Finset.mem_insert.mp ha with rfl | ha
      · exact hlt
      · obtain ⟨hne, hah⟩ := Finset.mem_erase.mp ha
        refine lt_of_le_of_ne (hlow a hah) fun heq => hne ?_
        have hin {y : α} (hy : y ∈ h) : y ∈ insert x s := Finset.mem_insert_of_mem (mem_newest.mp (hfew.subset hy)).1
        exact (hinj (hin hv) (hin hah) heq).symm
    by_cases hbh : b ∈ h
    · have hbv : b = v := by
        by_contra hne
        exact hbnot (Finset.mem_insert_of_mem (Finset.mem_erase.mpr ⟨hne, hbh⟩))
      rw [hbv]
      exact hlow' a ha
    · exact (hfew.above v hv b hbm hbh).trans (hlow' a ha)

/-- With none of its owner held and no room, it is turned away if it is older than all that are held. -/
theorem few_full (hinj : Set.InjOn rank (insert x s : Finset α)) (hfew : Few rank n (newest owner rank s) h)
    (hnone : ∀ y ∈ h, owner y ≠ owner x) (hfull : ¬h.card < n) (hlow : ∀ y ∈ h, rank x < rank y) :
    Few rank n (newest owner rank (insert x s)) h := by
  by_cases hold : ∃ y ∈ s, owner y = owner x ∧ rank x ≤ rank y
  · obtain ⟨y, hy, howner, hle⟩ := hold
    exact few_older hinj hfew hy howner hle
  · have hnew : ∀ y ∈ s, owner y = owner x → rank y < rank x := fun y hy heq =>
      not_le.mp fun hle => hold ⟨y, hy, heq, hle⟩
    rw [newest_newer hnew]
    refine ⟨fun y hy => ?_, hfew.card, fun hless => absurd hless hfull, ?_⟩
    · exact Finset.mem_insert_of_mem (Finset.mem_filter.mpr ⟨hfew.subset hy, hnone y hy⟩)
    · intro a ha b hb hbnot
      rcases Finset.mem_insert.mp hb with rfl | hb
      · exact hlow a ha
      · exact hfew.above a ha b (Finset.mem_filter.mp hb).1 hbnot

end Put

end Dsip.Lib
