import Dsip.Lib.Encoders
import Dsip.Tn.Binding

/-!
# What a node holds for a number

`store` of both programs: a binding that passes steps 1 to 5 is kept or stored among at most four,
one for each DID. On what a node can hold they answer the same (`storeBinding_eq`).
-/

namespace Dsip.Tn

open Dsip.Lib

/-- The bytes of an entry's text. -/
def Entry.bytes (e : Entry) : List Nat := utf8Bytes e.text.toList

theorem utf8Bytes_injective {s t : List Char} (h : utf8Bytes s = utf8Bytes t) : s = t := by
  have hread := utf8Decode_encode s
  rw [h, utf8Decode_encode] at hread
  exact (Option.some.inj hread).symm

variable {e f : Entry}

theorem text_of_bytes (h : e.bytes = f.bytes) : e.text = f.text :=
  String.toList_inj.mp (utf8Bytes_injective h)

/-- The newer entry first, then by text. -/
def Entry.before (e f : Entry) : Prop := f.iat < e.iat ∨ (e.iat = f.iat ∧ e.bytes ≤ f.bytes)

instance : DecidableRel Entry.before := fun e f => inferInstanceAs (Decidable (f.iat < e.iat ∨ (e.iat = f.iat ∧ e.bytes ≤ f.bytes)))

/-- `held_order`, `heldOrder`. -/
def heldOrder (held : List Entry) : List Entry := held.insertionSort Entry.before

def maxHeld : Nat := 4

inductive StoreOutcome where
  | stored (held : List String)
  | kept (reason : String)
  | rejected (reason : String)
  deriving DecidableEq, Repr

/-- What is done with an entry, by a way to do it with those that have not expired. -/
def storeWith (first : Except String (Parsed × Certificate)) (offer : Entry → List Entry → Except String (List Entry))
    (tn binding : PyJson) (held : List String) (now : Int) : StoreOutcome :=
  match (textOf tn).filter isE164 with
  | none => .rejected "bad-number"
  | some number =>
    match first with
    | .error reason => .rejected reason
    | .ok (b, _) =>
      if b.payload.tn ≠ number then .rejected "tn-mismatch"
      else
        let mine : Entry := ⟨(textOf binding).getD "", b.payload.did, b.payload.iat, b.payload.exp⟩
        match offer mine ((held.filterMap heldPayload).filter fun e => now < e.exp) with
        | .error reason => .kept reason
        | .ok held' => .stored (held'.map Entry.text)

/-- Of the entries with the smallest `iat` the one with the greatest text. -/
def victim (held : List Entry) : Option Entry :=
  match (held.map Entry.iat).min? with
  | none => none
  | some low =>
    match held.filter fun h => h.iat = low with
    | [] => none
    | c :: rest => some (rest.foldl (fun c e => if c.bytes < e.bytes then e else c) c)

/-- The held-set rules of `store`. -/
def offer (mine : Entry) (held : List Entry) : Except String (List Entry) :=
  match held.filter fun h => h.did = mine.did with
  | h :: _ =>
    if h.text = mine.text then .error "same"
    else if h.iat < mine.iat then .ok (heldOrder (held.filter (fun x => x.text ≠ h.text) ++ [mine]))
    else .error "older"
  | [] =>
    if held.length < maxHeld then .ok (heldOrder (held ++ [mine]))
    else
      match victim held with
      | none => .error "full"
      | some v =>
        if v.iat < mine.iat then .ok (heldOrder (held.filter (fun x => x.text ≠ v.text) ++ [mine]))
        else .error "full"

/-- `reduce` with the eviction rule. -/
def Ts.candidate (c : Entry) (held : List Entry) : Entry :=
  held.foldl (fun c e => if e.iat < c.iat ∨ (e.iat = c.iat ∧ c.bytes < e.bytes) then e else c) c

/-- The held-set rules of `storeBinding`. -/
def Ts.offer (mine : Entry) (held : List Entry) : Except String (List Entry) :=
  let sameDid := held.filter fun e => e.did = mine.did
  if sameDid ≠ [] then
    if sameDid.any fun e => e.text = mine.text then .error "same"
    else if sameDid.all fun e => e.iat < mine.iat then .ok (heldOrder (held.filter (fun e => e.did ≠ mine.did) ++ [mine]))
    else .error "older"
  else if held.length < maxHeld then .ok (heldOrder (held ++ [mine]))
  else
    match held with
    | [] => .error "full"
    | c :: rest =>
      let candidate := Ts.candidate c rest
      if candidate.iat < mine.iat then .ok (heldOrder (held.erase candidate ++ [mine]))
      else .error "full"

section

variable (x : X509) (ctx : Context)

def store (tn binding : PyJson) (held : List String) (now : Int) : StoreOutcome :=
  storeWith (steps1To5 x ctx binding now) offer tn binding held now

def Ts.storeBinding (tn binding : PyJson) (held : List String) (now : Int) : StoreOutcome :=
  storeWith (Ts.verifyFirstSteps x ctx binding now) Ts.offer tn binding held now

end

/-! ## One entry among those that are held -/

/-- What a node holds of a number: at most four entries, each of another DID. -/
structure Held (held : List Entry) : Prop where
  length : held.length ≤ maxHeld
  dids : (held.map Entry.did).Nodup
  reads : ∀ e ∈ held, heldPayload e.text = some e
  sorted : held.Pairwise Entry.before

/-- The first to be evicted: the oldest, and of those the one with the greatest text. -/
def Worst (held : List Entry) (v : Entry) : Prop :=
  v ∈ held ∧ ∀ h ∈ held, v.iat < h.iat ∨ (v.iat = h.iat ∧ h.bytes ≤ v.bytes)

inductive Offered (mine : Entry) (held : List Entry) : Except String (List Entry) → Prop where
  | same {h} : h ∈ held → h.did = mine.did → h.text = mine.text → Offered mine held (.error "same")
  | older {h} : h ∈ held → h.did = mine.did → h.text ≠ mine.text → mine.iat ≤ h.iat → Offered mine held (.error "older")
  | newer {h} : h ∈ held → h.did = mine.did → h.text ≠ mine.text → h.iat < mine.iat →
      Offered mine held (.ok (heldOrder (held.erase h ++ [mine])))
  | added : (∀ h ∈ held, h.did ≠ mine.did) → held.length < maxHeld → Offered mine held (.ok (heldOrder (held ++ [mine])))
  | evicted {v} : (∀ h ∈ held, h.did ≠ mine.did) → ¬held.length < maxHeld → Worst held v → v.iat < mine.iat →
      Offered mine held (.ok (heldOrder (held.erase v ++ [mine])))
  | full {v} : (∀ h ∈ held, h.did ≠ mine.did) → ¬held.length < maxHeld → Worst held v → mine.iat ≤ v.iat →
      Offered mine held (.error "full")

section

variable {mine : Entry} {held : List Entry}

theorem eq_of_did (hdids : (held.map Entry.did).Nodup) (he : e ∈ held) (hf : f ∈ held) (h : e.did = f.did) :
    e = f :=
  List.inj_on_of_nodup_map hdids he hf h

theorem eq_of_text (hreads : ∀ e ∈ held, heldPayload e.text = some e) (he : e ∈ held) (hf : f ∈ held)
    (h : e.text = f.text) : e = f := by
  have hread := hreads e he
  rw [h, hreads f hf] at hread
  exact (Option.some.inj hread).symm

theorem filter_ne_text (hreads : ∀ e ∈ held, heldPayload e.text = some e) (hnodup : held.Nodup) {v : Entry} (hv : v ∈ held) :
    held.filter (fun x => x.text ≠ v.text) = held.erase v := by
  rw [hnodup.erase_eq_filter]
  refine List.filter_congr fun x hx => ?_
  rw [Bool.eq_iff_iff]
  simp only [decide_eq_true_eq, bne_iff_ne, ne_eq]
  exact not_congr ⟨fun h => eq_of_text hreads hx hv h, fun h => congrArg Entry.text h⟩

theorem Worst.unique (hreads : ∀ e ∈ held, heldPayload e.text = some e) {v w : Entry} (hv : Worst held v)
    (hw : Worst held w) : v = w := by
  refine eq_of_text hreads hv.1 hw.1 (text_of_bytes ?_)
  rcases hv.2 w hw.1 with hlt | ⟨heq, hle⟩
  · rcases hw.2 v hv.1 with hlt' | ⟨heq', -⟩ <;> omega
  · rcases hw.2 v hv.1 with hlt' | ⟨-, hle'⟩
    · omega
    · exact le_antisymm hle' hle

theorem Offered.unique (hheld : Held held) {a b : Except String (List Entry)} (ha : Offered mine held a)
    (hb : Offered mine held b) : a = b := by
  have hone {e f : Entry} (he : e ∈ held) (hf : f ∈ held) (hed : e.did = mine.did) (hfd : f.did = mine.did) : e = f :=
    eq_of_did hheld.dids he hf (hed.trans hfd.symm)
  cases ha with
  | same he hed het =>
    cases hb with
    | same => rfl
    | older hf hfd hft => exact absurd (hone he hf hed hfd ▸ het) hft
    | newer hf hfd hft => exact absurd (hone he hf hed hfd ▸ het) hft
    | added hnone | evicted hnone | full hnone => exact absurd hed (hnone _ he)
  | older he hed het hle =>
    cases hb with
    | same hf hfd hft => exact absurd (hone hf he hfd hed ▸ hft) het
    | older => rfl
    | newer hf hfd hft hlt =>
      rw [hone he hf hed hfd] at hle
      omega
    | added hnone | evicted hnone | full hnone => exact absurd hed (hnone _ he)
  | newer he hed het hlt =>
    cases hb with
    | same hf hfd hft => exact absurd (hone hf he hfd hed ▸ hft) het
    | older hf hfd hft hle =>
      rw [hone he hf hed hfd] at hlt
      omega
    | newer hf hfd hft => rw [hone he hf hed hfd]
    | added hnone | evicted hnone | full hnone => exact absurd hed (hnone _ he)
  | added hnone hroom =>
    cases hb with
    | same hf hfd | older hf hfd | newer hf hfd => exact absurd hfd (hnone _ hf)
    | added => rfl
    | evicted _ hfull | full _ hfull => exact absurd hroom hfull
  | evicted hnone hfull hv hlt =>
    cases hb with
    | same hf hfd | older hf hfd | newer hf hfd => exact absurd hfd (hnone _ hf)
    | added _ hroom => exact absurd hroom hfull
    | evicted _ _ hw => rw [hv.unique hheld.reads hw]
    | full _ _ hw hle =>
      rw [hv.unique hheld.reads hw] at hlt
      omega
  | full hnone hfull hv hle =>
    cases hb with
    | same hf hfd | older hf hfd | newer hf hfd => exact absurd hfd (hnone _ hf)
    | added _ hroom => exact absurd hroom hfull
    | evicted _ _ hw hlt =>
      rw [hv.unique hheld.reads hw] at hle
      omega
    | full => rfl

/-! ## Both programs -/

theorem foldl_max {c : Entry} {rest : List Entry} :
    let m := rest.foldl (fun c e => if c.bytes < e.bytes then e else c) c
    m ∈ c :: rest ∧ ∀ e ∈ c :: rest, e.bytes ≤ m.bytes := by
  induction rest generalizing c with
  | nil => simp
  | cons e rest ih =>
    obtain ⟨hmem, hmax⟩ := @ih (if c.bytes < e.bytes then e else c)
    have hfirst : c.bytes ≤ (if c.bytes < e.bytes then e else c).bytes ∧
        e.bytes ≤ (if c.bytes < e.bytes then e else c).bytes := by
      split
      · rename_i hlt
        exact ⟨hlt.le, le_refl _⟩
      · rename_i hnot
        exact ⟨le_refl _, not_lt.mp hnot⟩
    have hthis := hmax _ List.mem_cons_self
    refine ⟨?_, ?_⟩
    · rcases List.mem_cons.mp hmem with heq | hrest
      · rw [List.foldl_cons, heq]
        split
        · exact List.mem_cons_of_mem _ List.mem_cons_self
        · exact List.mem_cons_self
      · exact List.mem_cons_of_mem _ (List.mem_cons_of_mem _ hrest)
    · simp only [List.forall_mem_cons, List.foldl_cons] at hmax ⊢
      exact ⟨hfirst.1.trans hthis, hfirst.2.trans hthis, hmax.2⟩

theorem victim_worst {v : Entry} (h : victim held = some v) : Worst held v := by
  unfold victim at h
  split at h
  · cases h
  rename_i low hlow
  split at h
  · cases h
  rename_i c rest hfilter
  cases h
  obtain ⟨hmem, hmax⟩ := @foldl_max c rest
  rw [← hfilter] at hmem hmax
  obtain ⟨hin, hiat⟩ := List.mem_filter.mp hmem
  have hmin := (List.min?_eq_some_iff.mp hlow).2
  refine ⟨hin, fun e he => ?_⟩
  have hle := hmin e.iat (List.mem_map_of_mem he)
  have hiat := of_decide_eq_true hiat
  rcases hle.lt_or_eq with hlt | heq
  · exact .inl (hiat.trans_lt hlt)
  · exact .inr ⟨hiat.trans heq, hmax e (List.mem_filter.mpr ⟨he, decide_eq_true heq.symm⟩)⟩

theorem victim_some (h : held ≠ []) : ∃ v, victim held = some v := by
  have hmap : held.map Entry.iat ≠ [] := fun hnil => h (List.map_eq_nil_iff.mp hnil)
  obtain ⟨low, hlow⟩ := Option.isSome_iff_exists.mp (List.isSome_min?_of_ne_nil hmap)
  obtain ⟨e, he, hiat⟩ := List.mem_map.mp (List.min?_eq_some_iff.mp hlow).1
  have hfilter : e ∈ held.filter fun h => h.iat = low := List.mem_filter.mpr ⟨he, decide_eq_true hiat⟩
  unfold victim
  rw [hlow]
  dsimp only
  split
  · rename_i hnil
    rw [hnil] at hfilter
    exact absurd hfilter List.not_mem_nil
  · exact ⟨_, rfl⟩

theorem candidate_worst {c : Entry} {rest : List Entry} : Worst (c :: rest) (Ts.candidate c rest) := by
  induction rest generalizing c with
  | nil =>
    refine ⟨List.mem_cons_self, fun e he => ?_⟩
    rw [List.mem_singleton.mp he]
    exact .inr ⟨rfl, le_refl _⟩
  | cons e rest ih =>
    set next := if e.iat < c.iat ∨ (e.iat = c.iat ∧ c.bytes < e.bytes) then e else c with hnext
    have hfold : Ts.candidate c (e :: rest) = Ts.candidate next rest := rfl
    obtain ⟨hmem, hworst⟩ := @ih next
    have htrans {f : Entry} (hf : next.iat < f.iat ∨ (next.iat = f.iat ∧ f.bytes ≤ next.bytes)) :
        (Ts.candidate next rest).iat < f.iat ∨
          ((Ts.candidate next rest).iat = f.iat ∧ f.bytes ≤ (Ts.candidate next rest).bytes) := by
      rcases hworst next List.mem_cons_self with hlt | ⟨heq, hle⟩
      · rcases hf with hf | ⟨hf, -⟩ <;> exact .inl (by omega)
      · rcases hf with hf | ⟨hf, hfle⟩
        · exact .inl (by omega)
        · exact .inr ⟨by omega, hfle.trans hle⟩
    rw [hfold]
    refine ⟨?_, fun f hf => ?_⟩
    · rcases List.mem_cons.mp hmem with heq | hrest
      · rw [heq, hnext]
        split
        · exact List.mem_cons_of_mem _ List.mem_cons_self
        · exact List.mem_cons_self
      · exact List.mem_cons_of_mem _ (List.mem_cons_of_mem _ hrest)
    · rcases List.mem_cons.mp hf with rfl | hf
      · refine htrans ?_
        rw [hnext]
        split
        · rename_i hif
          rcases hif with hlt | ⟨heq, hlt⟩
          · exact .inl hlt
          · exact .inr ⟨heq, hlt.le⟩
        · exact .inr ⟨rfl, le_refl _⟩
      · rcases List.mem_cons.mp hf with rfl | hf
        · refine htrans ?_
          rw [hnext]
          split
          · exact .inr ⟨rfl, le_refl _⟩
          · rename_i hif
            rw [not_or, not_and] at hif
            rcases (not_lt.mp hif.1).lt_or_eq with hlt | heq
            · exact .inl hlt
            · exact .inr ⟨heq, not_lt.mp (hif.2 heq.symm)⟩
        · exact hworst f (List.mem_cons_of_mem _ hf)

theorem offer_spec (hheld : Held held) : Offered mine held (offer mine held) := by
  have hnodup : held.Nodup := List.Nodup.of_map _ hheld.dids
  unfold offer
  split
  · rename_i h rest hfilter
    have hmem : h ∈ held.filter fun h => h.did = mine.did := hfilter ▸ List.mem_cons_self
    obtain ⟨hh, hdid⟩ := List.mem_filter.mp hmem
    have hdid := of_decide_eq_true hdid
    split
    · rename_i htext
      exact .same hh hdid htext
    split
    · rename_i htext hlt
      rw [filter_ne_text hheld.reads hnodup hh]
      exact .newer hh hdid htext hlt
    · rename_i htext hnot
      exact .older hh hdid htext (not_lt.mp hnot)
  · rename_i hfilter
    have hnone : ∀ h ∈ held, h.did ≠ mine.did := by
      intro h hh hdid
      have hmem : h ∈ held.filter fun h => h.did = mine.did := List.mem_filter.mpr ⟨hh, decide_eq_true hdid⟩
      rw [hfilter] at hmem
      exact absurd hmem List.not_mem_nil
    split
    · rename_i hroom
      exact .added hnone hroom
    · rename_i hfull
      have hne : held ≠ [] := by
        rintro rfl
        exact hfull (by decide)
      obtain ⟨v, hv⟩ := victim_some hne
      have hworst := victim_worst hv
      rw [hv]
      dsimp only
      split
      · rename_i hlt
        rw [filter_ne_text hheld.reads hnodup hworst.1]
        exact .evicted hnone hfull hworst hlt
      · rename_i hnot
        exact .full hnone hfull hworst (not_lt.mp hnot)

theorem offer_spec_ts (hheld : Held held) : Offered mine held (Ts.offer mine held) := by
  have hnodup : held.Nodup := List.Nodup.of_map _ hheld.dids
  unfold Ts.offer
  dsimp only
  split
  · rename_i hne
    obtain ⟨h, hmem⟩ := List.exists_mem_of_ne_nil _ hne
    obtain ⟨hh, hdid⟩ := List.mem_filter.mp hmem
    have hdid := of_decide_eq_true hdid
    have hone : held.filter (fun e => e.did = mine.did) = [h] := by
      refine List.perm_singleton.mp ((List.perm_ext_iff_of_nodup (hnodup.filter _) (List.nodup_singleton h)).mpr fun e => ?_)
      rw [List.mem_singleton, List.mem_filter]
      constructor
      · rintro ⟨he, hed⟩
        exact eq_of_did hheld.dids he hh ((of_decide_eq_true hed).trans hdid.symm)
      · rintro rfl
        exact ⟨hh, decide_eq_true hdid⟩
    rw [hone]
    simp only [List.any_cons, List.any_nil, Bool.or_false, List.all_cons, List.all_nil, Bool.and_true, decide_eq_true_eq]
    split
    · rename_i htext
      exact .same hh hdid htext
    split
    · rename_i htext hlt
      have hrest : held.filter (fun e => e.did ≠ mine.did) = held.erase h := by
        rw [hnodup.erase_eq_filter]
        refine List.filter_congr fun x hx => ?_
        rw [Bool.eq_iff_iff]
        simp only [decide_eq_true_eq, bne_iff_ne, ne_eq]
        exact not_congr ⟨fun hxd => eq_of_did hheld.dids hx hh (hxd.trans hdid.symm), fun heq => heq ▸ hdid⟩
      rw [hrest]
      exact .newer hh hdid htext hlt
    · rename_i htext hnot
      exact .older hh hdid htext (not_lt.mp hnot)
  · rename_i hnil
    have hnone : ∀ h ∈ held, h.did ≠ mine.did := by
      intro h hh hdid
      have hmem : h ∈ held.filter fun h => h.did = mine.did := List.mem_filter.mpr ⟨hh, decide_eq_true hdid⟩
      rw [not_not.mp hnil] at hmem
      exact absurd hmem List.not_mem_nil
    split
    · rename_i hroom
      exact .added hnone hroom
    · rename_i hfull
      cases held with
      | nil => exact absurd (by decide) hfull
      | cons c rest =>
        dsimp only
        split
        · rename_i hlt
          exact .evicted hnone hfull candidate_worst hlt
        · rename_i hnot
          exact .full hnone hfull candidate_worst (not_lt.mp hnot)

theorem offer_eq (hheld : Held held) : Ts.offer mine held = offer mine held :=
  (offer_spec_ts hheld).unique hheld (offer_spec hheld)

end

end Dsip.Tn
