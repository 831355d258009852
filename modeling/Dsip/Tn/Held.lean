import Dsip.Lib.Newest
import Dsip.Tn.Anchors
import Dsip.Tn.Store

/-!
# The bindings that a node comes to hold

Over any sequence of PUTs a node holds at most four bindings of a number, each of another DID, newest
first. Those that came at one time, with distinct `iat`s, leave the four newest of the newest of each
DID, whatever their order (`held_converges`).
-/

namespace Dsip.Tn

open Dsip.Lib

/-- A PUT for a number, at a time. -/
structure Put where
  ctx : Context
  binding : PyJson
  now : Int

section

variable (x : X509) (tn : PyJson)

/-- What is held after a PUT, by a program's answer. -/
def putWith (answer : Put → List String → StoreOutcome) (held : List String) (p : Put) : List String :=
  match answer p held with
  | .stored held' => held'
  | _ => held

def put : List String → Put → List String := putWith fun p held => store x p.ctx tn p.binding held p.now

def Ts.put : List String → Put → List String := putWith fun p held => Ts.storeBinding x p.ctx tn p.binding held p.now

/-- What is held after some PUTs. -/
def run (puts : List Put) : List String := puts.foldl (put x tn) []

def Ts.run (puts : List Put) : List String := puts.foldl (Ts.put x tn) []

def holds (puts : List Put) : List Entry := (run x tn puts).filterMap heldPayload

/-- The entry of a PUT that passes steps 1 to 5 for the number. -/
def accepted (p : Put) : Option Entry :=
  match (textOf tn).filter isE164, steps1To5 x p.ctx p.binding p.now with
  | some number, .ok (b, _) =>
    if b.payload.tn = number then some ⟨(textOf p.binding).getD "", b.payload.did, b.payload.iat, b.payload.exp⟩ else none
  | _, _ => none

end

/-! ## One PUT -/

section

variable {x : X509} {tn : PyJson} {held : List Entry} {mine : Entry} {p : Put}

theorem parseBinding_text {binding : PyJson} {b : Parsed} (h : parseBinding binding = some b) :
    ∃ text : String, textOf binding = some text ∧ binding = .str (.ofChars text.toList) := by
  unfold parseBinding at h
  obtain ⟨jws, hjws, -⟩ := bind_some.mp h
  obtain ⟨text, htext, -⟩ := Option.bind_eq_some_iff.mp hjws
  cases binding with
  | str s => exact ⟨text, htext, congrArg PyJson.str (ofChars_of_textOf htext)⟩
  | _ => cases htext

theorem accepted_spec (h : accepted x tn p = some mine) : heldPayload mine.text = some mine ∧ p.now < mine.exp := by
  unfold accepted at h
  split at h
  · rename_i b leaf _ hsteps
    split at h
    · cases h
      obtain ⟨hb, rest, -, -, -, -, -, hexp⟩ := firstSteps_ok.mp hsteps
      obtain ⟨text, htext, hbinding⟩ := parseBinding_text hb
      rw [hbinding] at hb
      refine ⟨?_, hexp⟩
      rw [htext]
      exact heldPayload_of_parse hb
    · cases h
  · cases h

/-- What becomes of what is held. -/
def putEntry (offer : Entry → List Entry → Except String (List Entry)) (held : List Entry) (now : Int) (mine : Entry) :
    List Entry :=
  match offer mine (held.filter fun e => now < e.exp) with
  | .ok held' => held'
  | .error _ => held

theorem filterMap_text (hreads : ∀ e ∈ held, heldPayload e.text = some e) : (held.map Entry.text).filterMap heldPayload = held := by
  induction held with
  | nil => rfl
  | cons e held ih =>
    rw [List.map_cons, List.filterMap_cons, hreads e List.mem_cons_self]
    dsimp only
    rw [ih fun f hf => hreads f (List.mem_cons_of_mem e hf)]

theorem storeWith_eq (offer : Entry → List Entry → Except String (List Entry))
    (hreads : ∀ e ∈ held, heldPayload e.text = some e) :
    (match storeWith (steps1To5 x p.ctx p.binding p.now) offer tn p.binding (held.map Entry.text) p.now with
      | .stored held' => held'
      | _ => held.map Entry.text) =
    ((accepted x tn p).elim held (putEntry offer held p.now)).map Entry.text := by
  unfold storeWith accepted
  rw [filterMap_text hreads]
  cases htn : (textOf tn).filter isE164 with
  | none => rfl
  | some number =>
    dsimp only
    cases hsteps : steps1To5 x p.ctx p.binding p.now with
    | error reason => rfl
    | ok passed =>
      obtain ⟨b, leaf⟩ := passed
      dsimp only
      by_cases hnumber : b.payload.tn = number
      · rw [if_neg (not_not.mpr hnumber), if_pos hnumber, Option.elim_some, putEntry]
        cases offer ⟨(textOf p.binding).getD "", b.payload.did, b.payload.iat, b.payload.exp⟩
          (held.filter fun e => p.now < e.exp) with
        | error reason => rfl
        | ok held' => rfl
      · rw [if_pos hnumber, if_neg hnumber]
        rfl

theorem put_eq (hreads : ∀ e ∈ held, heldPayload e.text = some e) :
    put x tn (held.map Entry.text) p = ((accepted x tn p).elim held (putEntry offer held p.now)).map Entry.text :=
  storeWith_eq offer hreads

theorem put_eq_ts (hreads : ∀ e ∈ held, heldPayload e.text = some e) :
    Ts.put x tn (held.map Entry.text) p = ((accepted x tn p).elim held (putEntry Ts.offer held p.now)).map Entry.text := by
  unfold Ts.put putWith Ts.storeBinding
  dsimp only
  rw [verifyFirstSteps_eq]
  exact storeWith_eq Ts.offer hreads

theorem store_stored {texts held' : List String} (h : store x p.ctx tn p.binding texts p.now = .stored held') :
    ∃ mine l, accepted x tn p = some mine ∧ offer mine ((texts.filterMap heldPayload).filter fun e => p.now < e.exp) = .ok l ∧
      held' = l.map Entry.text := by
  unfold store storeWith at h
  unfold accepted
  split at h
  · cases h
  rename_i number htn
  split at h
  · cases h
  rename_i b leaf hsteps
  split at h
  · cases h
  rename_i hnumber
  dsimp only at h
  split at h
  · cases h
  rename_i l hoffer
  cases h
  rw [htn, hsteps]
  dsimp only
  rw [if_pos (not_not.mp hnumber)]
  exact ⟨_, l, rfl, hoffer, rfl⟩

/-! ## What is held -/

instance : Std.Total Entry.before where
  total e f := by
    unfold Entry.before
    rcases lt_trichotomy e.iat f.iat with hlt | heq | hlt
    · exact .inr (.inl hlt)
    · rcases le_total e.bytes f.bytes with hle | hle
      · exact .inl (.inr ⟨heq, hle⟩)
      · exact .inr (.inr ⟨heq.symm, hle⟩)
    · exact .inl (.inl hlt)

instance : IsTrans Entry Entry.before where
  trans e f g := by
    unfold Entry.before
    rintro (hef | ⟨hef, hle⟩) (hfg | ⟨hfg, hle'⟩)
    · exact .inl (hfg.trans hef)
    · exact .inl (hfg ▸ hef)
    · exact .inl (hef ▸ hfg)
    · exact .inr ⟨hef.trans hfg, hle.trans hle'⟩

theorem heldOrder_perm (l : List Entry) : (heldOrder l).Perm l := List.perm_insertionSort _ _

theorem held_heldOrder {l : List Entry} (hlength : l.length ≤ maxHeld) (hdids : (l.map Entry.did).Nodup)
    (hreads : ∀ e ∈ l, heldPayload e.text = some e) : Held (heldOrder l) where
  length := (heldOrder_perm l).length_eq ▸ hlength
  dids := ((heldOrder_perm l).map _).nodup_iff.mpr hdids
  reads e he := hreads e ((heldOrder_perm l).subset he)
  sorted := List.pairwise_insertionSort _ _

theorem Held.sublist (hheld : Held held) {l : List Entry} (h : l.Sublist held) : Held l where
  length := h.length_le.trans hheld.length
  dids := (h.map _).nodup hheld.dids
  reads e he := hheld.reads e (h.subset he)
  sorted := hheld.sorted.sublist h

theorem nodup_dids_append (hdids : (held.map Entry.did).Nodup) (hnew : ∀ e ∈ held, e.did ≠ mine.did) :
    ((held ++ [mine]).map Entry.did).Nodup := by
  rw [List.map_append, List.nodup_append]
  refine ⟨hdids, List.nodup_singleton _, ?_⟩
  rintro _ hd _ hmine rfl
  obtain ⟨e, he, heq⟩ := List.mem_map.mp hd
  rw [List.map_singleton, List.mem_singleton] at hmine
  exact hnew e he (heq.trans hmine)

theorem Offered.stored (hheld : Held held) (hmine : heldPayload mine.text = some mine) {held' : List Entry}
    (h : Offered mine held (.ok held')) : Held held' ∧ ∀ e ∈ held', e = mine ∨ e ∈ held := by
  have hreads {l : List Entry} (hsub : ∀ e ∈ l, e ∈ held) : ∀ e ∈ l ++ [mine], heldPayload e.text = some e := by
    intro e he
    rcases List.mem_append.mp he with he | he
    · exact hheld.reads e (hsub e he)
    · rwa [List.mem_singleton.mp he]
  have hmem {l : List Entry} (hsub : ∀ e ∈ l, e ∈ held) : ∀ e ∈ heldOrder (l ++ [mine]), e = mine ∨ e ∈ held := by
    intro e he
    rcases List.mem_append.mp ((heldOrder_perm _).subset he) with he | he
    · exact .inr (hsub e he)
    · exact .inl (List.mem_singleton.mp he)
  have herase (v : Entry) : ∀ e ∈ held.erase v, e ∈ held := fun e he => List.mem_of_mem_erase he
  have hlength {v : Entry} (hv : v ∈ held) : (held.erase v ++ [mine]).length ≤ maxHeld := by
    rw [List.length_append, List.length_erase_of_mem hv, List.length_singleton]
    have hpos := List.length_pos_of_mem hv
    have := hheld.length
    omega
  have hdids (v : Entry) : ((held.erase v).map Entry.did).Nodup := (List.erase_sublist.map _).nodup hheld.dids
  cases h with
  | newer hv hdid htext hlt =>
    rename_i v
    have hnew : ∀ e ∈ held.erase v, e.did ≠ mine.did := by
      intro e he heq
      have hnodup : held.Nodup := List.Nodup.of_map _ hheld.dids
      obtain ⟨hne, hin⟩ := hnodup.mem_erase_iff.mp he
      exact hne (eq_of_did hheld.dids hin hv (heq.trans hdid.symm))
    exact ⟨held_heldOrder (hlength hv) (nodup_dids_append (hdids v) hnew) (hreads (herase v)), hmem (herase v)⟩
  | added hnone hroom =>
    refine ⟨held_heldOrder ?_ (nodup_dids_append hheld.dids hnone) (hreads fun e he => he), hmem fun e he => he⟩
    rw [List.length_append, List.length_singleton]
    exact hroom
  | evicted hnone hfull hworst hlt =>
    rename_i v
    have hnew : ∀ e ∈ held.erase v, e.did ≠ mine.did := fun e he => hnone e (herase v e he)
    exact ⟨held_heldOrder (hlength hworst.1) (nodup_dids_append (hdids v) hnew) (hreads (herase v)), hmem (herase v)⟩

theorem held_putEntry (hheld : Held held) (hmine : heldPayload mine.text = some mine) (now : Int) :
    Held (putEntry offer held now mine) := by
  have hlive := hheld.sublist (l := held.filter fun e => now < e.exp) List.filter_sublist
  have hspec := @offer_spec mine _ hlive
  unfold putEntry
  split
  · rename_i held' hoffer
    rw [hoffer] at hspec
    exact (hspec.stored hlive hmine).1
  · exact hheld

theorem mem_putEntry (hheld : Held held) (hmine : heldPayload mine.text = some mine) {now : Int} {e : Entry}
    (he : e ∈ putEntry offer held now mine) : e = mine ∨ e ∈ held := by
  have hlive := hheld.sublist (l := held.filter fun e => now < e.exp) List.filter_sublist
  have hspec := @offer_spec mine _ hlive
  unfold putEntry at he
  split at he
  · rename_i held' hoffer
    rw [hoffer] at hspec
    rcases (hspec.stored hlive hmine).2 e he with rfl | he
    · exact .inl rfl
    · exact .inr (List.mem_filter.mp he).1
  · exact .inr he

theorem putEntry_eq (hheld : Held held) (now : Int) : putEntry Ts.offer held now mine = putEntry offer held now mine := by
  unfold putEntry
  rw [offer_eq (hheld.sublist List.filter_sublist)]

theorem iat_putEntry (hheld : Held held) (hmine : heldPayload mine.text = some mine) {now : Int} {e f : Entry}
    (he : e ∈ held) (hf : f ∈ putEntry offer held now mine) (hdid : e.did = f.did) (hexp : now < e.exp) :
    e.iat ≤ f.iat := by
  have hlive := hheld.sublist (l := held.filter fun e => now < e.exp) List.filter_sublist
  have hspec := @offer_spec mine _ hlive
  have hin : e ∈ held.filter fun e => now < e.exp := List.mem_filter.mpr ⟨he, decide_eq_true hexp⟩
  have hsame {f : Entry} (hf : f ∈ held) (hdid : e.did = f.did) : e.iat ≤ f.iat := by
    rw [eq_of_did hheld.dids he hf hdid]
  unfold putEntry at hf
  split at hf
  · rename_i held' hoffer
    rw [hoffer] at hspec
    rcases (hspec.stored hlive hmine).2 f hf with rfl | hold
    · cases hspec with
      | newer hv hvdid htext hlt =>
        rw [eq_of_did hlive.dids hin hv (hdid.trans hvdid.symm)]
        exact hlt.le
      | added hnone | evicted hnone => exact absurd hdid (hnone e hin)
    · exact hsame (List.mem_filter.mp hold).1 hdid
  · exact hsame hf hdid

end

/-! ## A sequence of PUTs -/

section

variable {x : X509} {tn : PyJson}

/-- The entries of what is held. -/
def entries (x : X509) (tn : PyJson) (puts : List Put) : List Entry :=
  puts.foldl (fun held p => (accepted x tn p).elim held (putEntry offer held p.now)) []

theorem entries_append (puts : List Put) (p : Put) : entries x tn (puts ++ [p]) =
    (accepted x tn p).elim (entries x tn puts) (putEntry offer (entries x tn puts) p.now) := by
  unfold entries
  rw [List.foldl_append]
  rfl

theorem run_spec (puts : List Put) :
    Held (entries x tn puts) ∧ run x tn puts = (entries x tn puts).map Entry.text ∧ Ts.run x tn puts = run x tn puts := by
  induction puts using List.reverseRecOn with
  | nil => exact ⟨⟨Nat.zero_le _, List.nodup_nil, nofun, List.Pairwise.nil⟩, rfl, rfl⟩
  | append_singleton puts p ih =>
    obtain ⟨hheld, hrun, hts⟩ := ih
    have hstep : run x tn (puts ++ [p]) = put x tn (run x tn puts) p := by
      unfold run
      rw [List.foldl_append]
      rfl
    have hstep_ts : Ts.run x tn (puts ++ [p]) = Ts.put x tn (Ts.run x tn puts) p := by
      unfold Ts.run
      rw [List.foldl_append]
      rfl
    rw [hstep, hstep_ts, hts, hrun, put_eq hheld.reads, put_eq_ts hheld.reads, entries_append]
    cases haccepted : accepted x tn p with
    | none => exact ⟨hheld, rfl, rfl⟩
    | some mine =>
      refine ⟨held_putEntry hheld (accepted_spec haccepted).1 p.now, rfl, ?_⟩
      exact congrArg (List.map Entry.text) (putEntry_eq hheld p.now)

theorem holds_eq (puts : List Put) : holds x tn puts = entries x tn puts := by
  obtain ⟨hheld, hrun, -⟩ := @run_spec x tn puts
  unfold holds
  rw [hrun, filterMap_text hheld.reads]

theorem stored_unexpired {puts : List Put} {p : Put} {held' : List String}
    (h : store x p.ctx tn p.binding (run x tn puts) p.now = .stored held') :
    ∀ e ∈ held'.filterMap heldPayload, p.now < e.exp := by
  obtain ⟨hheld, hrun, -⟩ := @run_spec x tn puts
  obtain ⟨mine, l, haccepted, hoffer, rfl⟩ := store_stored h
  obtain ⟨hmine, hexp⟩ := accepted_spec haccepted
  rw [hrun, filterMap_text hheld.reads] at hoffer
  have hlive := hheld.sublist (l := (entries x tn puts).filter fun e => p.now < e.exp) List.filter_sublist
  have hspec := @offer_spec mine _ hlive
  rw [hoffer] at hspec
  obtain ⟨hafter, hmem⟩ := hspec.stored hlive hmine
  rw [filterMap_text hafter.reads]
  intro e he
  rcases hmem e he with rfl | he
  · exact hexp
  · exact of_decide_eq_true (List.mem_filter.mp he).2

theorem entries_accepted {puts : List Put} : ∀ e ∈ entries x tn puts, ∃ p ∈ puts, accepted x tn p = some e := by
  induction puts using List.reverseRecOn with
  | nil => exact fun e he => absurd he List.not_mem_nil
  | append_singleton puts p ih =>
    intro e he
    obtain ⟨hheld, -, -⟩ := @run_spec x tn puts
    rw [entries_append] at he
    have hold (he : e ∈ entries x tn puts) : ∃ q ∈ puts ++ [p], accepted x tn q = some e := by
      obtain ⟨q, hq, hacc⟩ := ih e he
      exact ⟨q, List.mem_append_left _ hq, hacc⟩
    cases haccepted : accepted x tn p with
    | none =>
      rw [haccepted] at he
      exact hold he
    | some mine =>
      rw [haccepted, Option.elim_some] at he
      rcases mem_putEntry hheld (accepted_spec haccepted).1 he with rfl | he
      · exact ⟨p, List.mem_append_right _ (List.mem_singleton_self p), haccepted⟩
      · exact hold he

/-- At one time, with distinct `iat`s, one more PUT keeps the four newest of the newest of each DID. -/
theorem few_putEntry {held : List Entry} {mine : Entry} {now : Int} {s : Finset Entry} (hheld : Held held)
    (hmine : heldPayload mine.text = some mine) (hlive : ∀ e ∈ held, now < e.exp)
    (hinj : Set.InjOn Entry.iat (insert mine s : Finset Entry))
    (hfew : Few Entry.iat maxHeld (newest Entry.did Entry.iat s) held.toFinset) :
    Few Entry.iat maxHeld (newest Entry.did Entry.iat (insert mine s)) (putEntry offer held now mine).toFinset := by
  have hall : held.filter (fun e => now < e.exp) = held :=
    List.filter_eq_self.mpr fun e he => decide_eq_true (hlive e he)
  have hspec := @offer_spec mine _ hheld
  have hnodup : held.Nodup := List.Nodup.of_map _ hheld.dids
  have hcard : held.toFinset.card = held.length := List.toFinset_card_of_nodup hnodup
  have hin {e : Entry} (he : e ∈ held) : e ∈ s := (mem_newest.mp (hfew.subset (List.mem_toFinset.mpr he))).1
  have hperm (l : List Entry) : (heldOrder (l ++ [mine])).toFinset = insert mine l.toFinset := by
    rw [List.toFinset_eq_of_perm _ _ (heldOrder_perm _), List.toFinset_append, List.toFinset_cons, List.toFinset_nil]
    exact Finset.union_comm _ _
  have herase (v : Entry) : (held.erase v).toFinset = held.toFinset.erase v := by
    ext e
    rw [List.mem_toFinset, hnodup.mem_erase_iff, Finset.mem_erase, List.mem_toFinset]
  unfold putEntry
  rw [hall]
  generalize offer mine held = answer at hspec
  cases hspec with
  | same hh hdid htext =>
    rename_i h
    have heq : h = mine := by
      have hread := hheld.reads h hh
      rw [htext, hmine] at hread
      exact (Option.some.inj hread).symm
    exact few_older hinj hfew (hin hh) hdid (congrArg Entry.iat heq).ge
  | older hh hdid htext hle => exact few_older hinj hfew (hin hh) hdid hle
  | newer hh hdid htext hlt =>
    dsimp only
    rw [hperm, herase]
    exact few_newer hinj hfew (List.mem_toFinset.mpr hh) hdid hlt
  | added hnone hroom =>
    dsimp only
    rw [hperm]
    exact few_added hfew (fun e he => hnone e (List.mem_toFinset.mp he)) (hcard ▸ hroom)
  | evicted hnone hfull hworst hlt =>
    dsimp only
    rw [hperm, herase]
    refine few_evicted hinj hfew (fun e he => hnone e (List.mem_toFinset.mp he)) (hcard ▸ hfull)
      (List.mem_toFinset.mpr hworst.1) (fun e he => ?_) hlt
    rcases hworst.2 e (List.mem_toFinset.mp he) with hlt | ⟨heq, -⟩
    · exact hlt.le
    · exact heq.le
  | full hnone hfull hworst hle =>
    rename_i v
    refine few_full hinj hfew (fun e he => hnone e (List.mem_toFinset.mp he)) (hcard ▸ hfull) fun e he => ?_
    have he := List.mem_toFinset.mp he
    have hve : v.iat ≤ e.iat := by
      rcases hworst.2 e he with hlt | ⟨heq, -⟩
      · exact hlt.le
      · exact heq.le
    refine lt_of_le_of_ne (hle.trans hve) fun heq => ?_
    have hsame := hinj (Finset.mem_insert_self mine s) (Finset.mem_insert_of_mem (hin he)) heq
    exact hnone e he (congrArg Entry.did hsame.symm)

/-- The entries that PUTs bring. -/
def came (x : X509) (tn : PyJson) (puts : List Put) : Finset Entry := (puts.filterMap (accepted x tn)).toFinset

theorem mem_came {puts : List Put} {e : Entry} : e ∈ came x tn puts ↔ ∃ p ∈ puts, accepted x tn p = some e := by
  unfold came
  rw [List.mem_toFinset, List.mem_filterMap]

theorem came_append (puts : List Put) (p : Put) :
    came x tn (puts ++ [p]) = (accepted x tn p).elim (came x tn puts) fun e => insert e (came x tn puts) := by
  unfold came
  rw [List.filterMap_append, List.toFinset_append]
  cases haccepted : accepted x tn p with
  | none => simp [haccepted]
  | some e =>
    simp only [List.filterMap_cons, haccepted, List.filterMap_nil, List.toFinset_cons, List.toFinset_nil, Option.elim_some]
    exact Finset.union_comm _ _

theorem few_entries {puts : List Put} {now : Int} (hnow : ∀ p ∈ puts, p.now = now)
    (hinj : Set.InjOn Entry.iat (came x tn puts : Finset Entry)) :
    Few Entry.iat maxHeld (newest Entry.did Entry.iat (came x tn puts)) (entries x tn puts).toFinset := by
  induction puts using List.reverseRecOn with
  | nil => exact ⟨fun e he => absurd he (Finset.notMem_empty e), Nat.zero_le _, fun _ => rfl, nofun⟩
  | append_singleton puts p ih =>
    have hnow' : ∀ q ∈ puts, q.now = now := fun q hq => hnow q (List.mem_append_left _ hq)
    rw [came_append] at hinj ⊢
    rw [entries_append]
    cases haccepted : accepted x tn p with
    | none =>
      rw [haccepted] at hinj
      exact ih hnow' hinj
    | some mine =>
      rw [haccepted] at hinj
      obtain ⟨hheld, -, -⟩ := @run_spec x tn puts
      refine few_putEntry hheld (accepted_spec haccepted).1 (fun e he => ?_) hinj (ih hnow' ?_)
      · obtain ⟨q, hq, hacc⟩ := entries_accepted e he
        rw [hnow p (List.mem_append_right _ (List.mem_singleton_self p)), ← hnow' q hq]
        exact (accepted_spec hacc).2
      · exact hinj.mono fun e he => Finset.mem_insert_of_mem he

theorem Held.ext {l m : List Entry} (hl : Held l) (hm : Held m) (h : l.toFinset = m.toFinset) : l = m := by
  have hperm : l.Perm m := by
    refine (List.perm_ext_iff_of_nodup (List.Nodup.of_map _ hl.dids) (List.Nodup.of_map _ hm.dids)).mpr fun e => ?_
    rw [← List.mem_toFinset, h, List.mem_toFinset]
  refine hperm.eq_of_pairwise (fun e f he hf hef hfe => ?_) hl.sorted hm.sorted
  refine eq_of_text hl.reads he (hperm.symm.subset hf) (text_of_bytes ?_)
  rcases hef with hlt | ⟨heq, hle⟩
  · rcases hfe with hlt' | ⟨heq', -⟩ <;> omega
  · rcases hfe with hlt' | ⟨-, hle'⟩
    · omega
    · exact le_antisymm hle hle'

end

/-! ## Two bindings of one DID -/

namespace TwoPuts

open TwoAnchors (x free bound header signature leaf free_path)

def tn : PyJson := .str (.ofChars "+12".toList)

def payload (iat exp : Int) : List (String × Json) :=
  [("tn", .str "+12"), ("did", .str "did:a"), ("iat", .int iat), ("exp", .int exp), ("jti", .str "00000000000000000000000000")]

def text (iat exp : Int) : List Char := compact (.obj header) (.obj (payload iat exp)) signature

def at_ (now iat exp : Int) : Put := ⟨TwoAnchors.ctx [free, bound], .str (.ofChars (text iat exp)), now⟩

def entry (iat exp : Int) : Entry := ⟨String.ofList (text iat exp), "did:a", iat, exp⟩

theorem good_payload {iat exp : Int} (hiat : -Webvh.IJson.maxSafe ≤ iat ∧ iat ≤ Webvh.IJson.maxSafe)
    (hexp : -Webvh.IJson.maxSafe ≤ exp ∧ exp ≤ Webvh.IJson.maxSafe) :
    Webvh.IJson.Good (PyJson.ofJson (.obj (payload iat exp))) := by
  refine good_obj (by simp [payload]) ?_
  simp only [payload, List.forall_mem_cons]
  exact ⟨good_str _, good_str _, good_int hiat, good_int hexp, good_str _, fun m hm => absurd hm List.not_mem_nil⟩

theorem accepted_at {now iat exp : Int} (hgood : Webvh.IJson.Good (PyJson.ofJson (.obj (payload iat exp))))
    (hpayload : parsePayload (written (payload iat exp)) = some ⟨"+12", "did:a", iat, exp, none⟩)
    (hpath : certPath x (TwoAnchors.ctx [free, bound]) "https://a" now = some [leaf, TwoAnchors.anchor none [1]])
    (hlife : exp - iat ≤ lifetimeMax) (hiat : iat ≤ now + iatTolerance) (hexp : now < exp) :
    accepted x tn (at_ now iat exp) = some (entry iat exp) := by
  have hsteps : steps1To5 x (TwoAnchors.ctx [free, bound]) (.str (.ofChars (text iat exp))) now = .ok
      (⟨"https://a", ⟨"+12", "did:a", iat, exp, none⟩, Tn.signingInput (.obj header) (.obj (payload iat exp)), signature⟩,
        leaf) := by
    unfold steps1To5
    have hsignature : signatureHolds x leaf signature (Tn.signingInput (.obj header) (.obj (payload iat exp))) = true := by
      change signatureHolds x leaf signature [] = true
      decide +kernel
    have hcoverage : coverageHolds (TwoAnchors.ctx [free, bound]) [leaf, TwoAnchors.anchor none [1]] (digitsOf "+12") = true := by
      decide +kernel
    exact firstSteps_ok.mpr ⟨TwoAnchors.parse_compact hgood hpayload, _, hpath, hsignature, hcoverage, hlife, hiat, hexp⟩
  have htn : (textOf tn).filter isE164 = some "+12" := by decide +kernel
  unfold accepted at_
  rw [htn, hsteps, textOf_ofChars]
  rfl

theorem first_accepted : accepted x tn (at_ 3 2 4) = some (entry 2 4) :=
  accepted_at (good_payload (by decide) (by decide)) (by decide +kernel) (by decide +kernel) (by decide) (by decide) (by decide)

theorem second_accepted : accepted x tn (at_ 5 1 9) = some (entry 1 9) :=
  accepted_at (good_payload (by decide) (by decide)) (by decide +kernel) (by decide +kernel) (by decide) (by decide) (by decide)

theorem putEntry_expired {held : List Entry} {now : Int} (h : ∀ e ∈ held, ¬now < e.exp) (mine : Entry) :
    putEntry offer held now mine = [mine] := by
  have hnil : held.filter (fun e => now < e.exp) = [] := List.filter_eq_nil_iff.mpr fun e he => by simpa using h e he
  unfold putEntry
  rw [hnil]
  rfl

theorem first_held : holds x tn [at_ 3 2 4] = [entry 2 4] := by
  have hentries : entries x tn ([] ++ [at_ 3 2 4]) = [entry 2 4] := by
    rw [entries_append, first_accepted]
    exact putEntry_expired (fun e he => absurd he List.not_mem_nil) _
  rw [holds_eq]
  exact hentries

theorem second_held : holds x tn [at_ 3 2 4, at_ 5 1 9] = [entry 1 9] := by
  have hentries : entries x tn ([at_ 3 2 4] ++ [at_ 5 1 9]) = [entry 1 9] := by
    rw [entries_append, ← holds_eq, first_held, second_accepted, Option.elim_some]
    refine putEntry_expired (fun e he => ?_) _
    rw [List.mem_singleton.mp he]
    decide
  rw [holds_eq]
  exact hentries

end TwoPuts

end Dsip.Tn
