import Dsip.Events.UsmTs

/-!
# What an SNMPv3 message is

A grammar over the elements of a message, which says nothing of the order they
are read in. `Fills` says that some elements are all there is from a position
on. The Python parser reads the elements in turn (`varBinds_eq_some`,
`scopedContent_eq_some`, `parseV3_eq_some`); the TypeScript one splits first.
Both accept what the grammar does.
-/

namespace Dsip.Events

open Dsip.Lib

variable {b : Bytes} {pos stop : Nat} {t : Tlv}

theorem guard_bind {α : Type} {p : Prop} [Decidable p] {k : Unit → Option α} {v : α} :
    (guard p : Option Unit) >>= k = some v ↔ p ∧ k () = some v := by
  by_cases h : p <;> simp [h]

theorem some_bind {α β : Type} {x : Option α} {k : α → Option β} {v : β} :
    x >>= k = some v ↔ ∃ a, x = some a ∧ k a = some v :=
  Option.bind_eq_some_iff

/-! ## Elements -/

theorem tlv_bounds (h : tlv b pos stop = some t) : pos + 2 ≤ t.start ∧ t.start ≤ t.stop ∧ t.stop ≤ stop := by
  unfold tlv at h
  simp only [some_bind, Option.guard_eq_some', exists_const] at h
  obtain ⟨-, tag, -, -, first, -, h⟩ := h
  split at h
  · simp only [some_bind, Option.guard_eq_some', exists_const, Option.pure_def, Option.some.injEq] at h
    obtain ⟨hle, rfl⟩ := h
    exact ⟨le_refl _, Nat.le_add_right _ _, hle⟩
  · simp only [some_bind, Option.guard_eq_some', exists_const, Option.pure_def, Option.some.injEq] at h
    obtain ⟨hk, hle, rfl⟩ := h
    exact ⟨Nat.le_add_right _ _, Nat.le_add_right _ _, hle⟩

theorem tlv_eq (b : Bytes) (pos stop : Nat) : Ts.tlv b pos stop = tlv b pos stop := by
  unfold Ts.tlv tlv
  by_cases hroom : pos + 2 ≤ stop
  case pos =>
    have hpos : pos < stop := by omega
    have hnext : pos + 1 < stop := by omega
    have hsplit (n : Nat) (x : Option Tlv) : (do guard (¬ (n < 1 ∨ 4 < n)); guard (pos + 2 + n ≤ stop); x) =
          (do guard (n ≠ 0 ∧ n ≤ 4 ∧ pos + 2 + n ≤ stop); x) := by
      by_cases hn : n < 1 ∨ 4 < n
      case pos =>
        have hnot : ¬ (n ≠ 0 ∧ n ≤ 4 ∧ pos + 2 + n ≤ stop) := by omega
        simp only [guard, hn, hnot, not_true_eq_false, if_false]
        rfl
      case neg =>
        have hand : (n ≠ 0 ∧ n ≤ 4 ∧ pos + 2 + n ≤ stop) ↔ pos + 2 + n ≤ stop := by omega
        simp only [guard, hn, hand, not_false_eq_true, if_true]
        rfl
    simp only [hroom, hpos, hnext, hsplit]
    rfl
  case neg =>
    have hnext : ¬ pos + 1 < stop := by omega
    simp [hroom, hnext, guard]

/-- The elements from a position on are these. -/
def Fills (b : Bytes) (stop : Nat) : Nat → List Tlv → Prop
  | p, [] => stop ≤ p
  | p, t :: l => tlv b p stop = some t ∧ Fills b stop t.stop l

/-- An element that lies within the bytes. -/
def Tlv.Within (b : Bytes) (t : Tlv) : Prop := t.start ≤ t.stop ∧ t.stop ≤ b.length

theorem Fills.within {l : List Tlv} (h : Fills b stop pos l) (hstop : stop ≤ b.length) :
    ∀ t ∈ l, t.Within b := by
  induction l generalizing pos with
  | nil => simp
  | cons t l ih =>
    intro t' ht'
    rcases List.mem_cons.mp ht' with rfl | ht'
    · have hbounds := tlv_bounds h.1
      exact ⟨hbounds.2.1, hbounds.2.2.trans hstop⟩
    · exact ih h.2 t' ht'

theorem fills_of_done (hdone : stop ≤ pos) {l : List Tlv} : Fills b stop pos l ↔ l = [] := by
  cases l with
  | nil => exact iff_of_true hdone rfl
  | cons t l =>
    refine iff_of_false (fun h => ?_) (List.cons_ne_nil t l)
    have hbounds := tlv_bounds h.1
    omega

theorem childrenFrom_eq_some {fuel : Nat} (hfuel : stop - pos ≤ fuel) {l : List Tlv} :
    Ts.childrenFrom b stop fuel pos = some l ↔ Fills b stop pos l := by
  induction fuel generalizing pos l with
  | zero =>
    have hdone : ¬ pos < stop := by omega
    unfold Ts.childrenFrom
    rw [if_neg hdone, fills_of_done (Nat.not_lt.mp hdone), Option.some.injEq, eq_comm]
  | succ fuel ih =>
    unfold Ts.childrenFrom
    split
    case isTrue hlt =>
      simp only [some_bind, Option.pure_def, Option.some.injEq, tlv_eq]
      constructor
      · rintro ⟨t, ht, rest, hrest, rfl⟩
        have hbounds := tlv_bounds ht
        exact ⟨ht, (ih (by omega)).mp hrest⟩
      · cases l with
        | nil => exact fun h => absurd hlt (Nat.not_lt.mpr h)
        | cons t l =>
          rintro ⟨ht, hrest⟩
          have hbounds := tlv_bounds ht
          exact ⟨t, ht, l, (ih (by omega)).mpr hrest, rfl⟩
    case isFalse hdone =>
      rw [fills_of_done (Nat.not_lt.mp hdone), Option.some.injEq, eq_comm]

theorem children_eq_some {l : List Tlv} : Ts.children b t = some l ↔ Fills b t.stop t.start l :=
  childrenFrom_eq_some (le_refl _)

theorem seq_eq_some {n : Nat} {l : List Tlv} :
    Ts.seq b t n = some l ↔ t.tag = 0x30 ∧ Fills b t.stop t.start l ∧ l.length = n := by
  unfold Ts.seq
  simp only [some_bind, Option.guard_eq_some', exists_const, Option.pure_def,
    Option.some.injEq, children_eq_some]
  constructor
  · rintro ⟨htag, l, hl, hn, rfl⟩
    exact ⟨htag, hl, hn⟩
  · rintro ⟨htag, hl, hn⟩
    exact ⟨htag, l, hl, hn, rfl⟩

/-! ## Reading in turn -/

variable {lo hi : Int}

section Readers

variable {α : Type} {r : R} {v : α}

theorem next_bind {k : Tlv × R → Option α} : r.next b >>= k = some v ↔
      ∃ t, tlv b r.pos r.stop = some t ∧ k (t, ⟨t.stop, r.stop⟩) = some v := by
  unfold R.next
  cases tlv b r.pos r.stop <;> simp

theorem expect_bind {tag : UInt8} {k : Tlv × R → Option α} : r.expect b tag >>= k = some v ↔
      ∃ t, tlv b r.pos r.stop = some t ∧ t.tag = tag ∧ k (t, ⟨t.stop, r.stop⟩) = some v := by
  unfold R.expect
  simp only [bind_assoc, ↓next_bind, ↓guard_bind, pure_bind]

def IsInt (b : Bytes) (t : Tlv) (v : Int) : Prop := t.tag = 0x02 ∧ berInt (t.content b) = some v

theorem int_bind {k : Int × R → Option α} : r.int b >>= k = some v ↔
      ∃ t n, tlv b r.pos r.stop = some t ∧ IsInt b t n ∧ k (n, ⟨t.stop, r.stop⟩) = some v := by
  unfold R.int IsInt
  simp only [bind_assoc, ↓expect_bind]
  refine exists_congr fun t => ?_
  cases berInt (t.content b) <;> simp

theorem ranged_eq_some {n m : Int} : ranged n lo hi = some m ↔ n = m ∧ lo ≤ n ∧ n ≤ hi := by
  unfold ranged
  split
  case isTrue h => simp [h]
  case isFalse h => simp [h]

theorem intIn_bind {k : Int × R → Option α} : r.intIn b lo hi >>= k = some v ↔
      ∃ t n, tlv b r.pos r.stop = some t ∧ IsInt b t n ∧ (lo ≤ n ∧ n ≤ hi) ∧
        k (n, ⟨t.stop, r.stop⟩) = some v := by
  unfold R.intIn
  simp only [bind_assoc, ↓int_bind]
  refine exists_congr fun t => exists_congr fun n => and_congr_right fun _ => and_congr_right fun _ => ?_
  simp only [some_bind, ranged_eq_some, pure_bind]
  constructor
  · rintro ⟨m, ⟨rfl, hrange⟩, hk⟩
    exact ⟨hrange, hk⟩
  · rintro ⟨hrange, hk⟩
    exact ⟨n, ⟨rfl, hrange⟩, hk⟩

theorem done_iff : r.done = true ↔ r.stop ≤ r.pos := by simp [R.done]

end Readers

/-! ## Values -/

theorem length_content (hin : t.Within b) : (t.content b).length = t.stop - t.start := by
  unfold Tlv.content slice
  rw [List.length_take, List.length_drop]
  obtain ⟨hle, hstop⟩ := hin
  omega

theorem intOf_eq_some (hin : t.Within b) {v : Int} : Ts.intOf b t = some v ↔ IsInt b t v := by
  unfold Ts.intOf IsInt berInt
  rw [length_content hin]
  simp only [some_bind, Option.guard_eq_some', exists_const, Option.pure_def, Option.some.injEq]
  constructor
  · rintro ⟨htag, hlen, rfl⟩
    exact ⟨htag, if_pos (by omega)⟩
  · rintro ⟨htag, hv⟩
    split at hv
    case isTrue hlen => exact ⟨htag, by omega, Option.some.inj hv⟩
    case isFalse => cases hv

theorem intIn_ts_eq_some (hin : t.Within b) {v : Int} :
    Ts.intIn b t lo hi = some v ↔ IsInt b t v ∧ lo ≤ v ∧ v ≤ hi := by
  unfold Ts.intIn
  simp only [some_bind, Option.guard_eq_some', exists_const, Option.pure_def,
    Option.some.injEq, intOf_eq_some hin]
  constructor
  · rintro ⟨v, hv, hrange, rfl⟩
    exact ⟨hv, by omega, by omega⟩
  · rintro ⟨hv, hlo, hhi⟩
    exact ⟨v, hv, by omega, rfl⟩

theorem octets_eq_some {c : Bytes} : Ts.octets b t = some c ↔ t.tag = 0x04 ∧ t.content b = c := by
  unfold Ts.octets
  simp only [some_bind, Option.guard_eq_some', exists_const, Option.pure_def, Option.some.injEq]

theorem oidSubs_eq (v : Nat) (more : Bool) (c : Bytes) : Ts.oidSubs v more c =
      match c.getLast? with
      | none => if more then none else some []
      | some last => if last &&& 0x80 ≠ 0 then none else oidSubs v c := by
  induction c generalizing v more with
  | nil => rfl
  | cons x rest ih =>
    unfold Ts.oidSubs oidSubs
    cases rest with
    | nil =>
      by_cases hlast : x &&& 0x80 = 0
      case pos => simp [hlast, Ts.oidSubs, oidSubs]
      case neg => simp [hlast, Ts.oidSubs]
    | cons y rest =>
      have hlast : (x :: y :: rest).getLast? = (y :: rest).getLast? := List.getLast?_cons_cons
      simp only [hlast, ih]
      cases hrest : (y :: rest).getLast? with
      | none => simp at hrest
      | some last => grind

theorem oidOf_eq (c : Bytes) : Ts.oidOf c = berOid c := by
  unfold Ts.oidOf berOid
  rw [oidSubs_eq]
  cases c with
  | nil => rfl
  | cons x rest =>
    cases hlast : (x :: rest).getLast? with
    | none => simp at hlast
    | some last =>
      dsimp only
      split
      case isTrue => rfl
      case isFalse =>
        cases oidSubs 0 (x :: rest) <;> rfl

theorem value_eq (hin : t.Within b) : Ts.value b t = berValue t.tag (t.content b) := by
  have hint (htag : t.tag = 0x02) :
      Ts.intIn b t (-2 ^ 31) max31 = (berInt (t.content b)).bind (ranged · (-2 ^ 31) max31) := by
    ext v
    rw [intIn_ts_eq_some hin, Option.bind_eq_some_iff]
    simp only [ranged_eq_some, IsInt, htag, true_and]
    constructor
    · exact fun ⟨hv, hrange⟩ => ⟨v, hv, rfl, hrange⟩
    · rintro ⟨n, hn, rfl, hrange⟩
      exact ⟨hn, hrange⟩
  unfold Ts.value berValue
  refine ite_congr rfl (fun htag => ?integer) fun _ => ite_congr rfl (fun _ => rfl) fun _ =>
    ite_congr rfl (fun _ => ?null) fun _ => ite_congr rfl (fun _ => ?oid) fun _ =>
    ite_congr rfl (fun _ => ite_not _ _ _) fun _ => ?unsigned
  case integer =>
    rw [hint htag]
    cases berInt (t.content b) with
    | none => rfl
    | some n =>
      dsimp only [Option.bind_some, Option.bind_eq_bind]
      cases ranged n (-2 ^ 31) max31 <;> rfl
  case null =>
    rw [ite_not]
    exact ite_congr (propext List.length_eq_zero_iff) (fun _ => rfl) fun _ => rfl
  case oid => rw [oidOf_eq]
  case unsigned =>
    by_cases hbytes : t.tag = 0x44
    case pos =>
      have hnone : unsignedType t.tag = none := by rw [hbytes]; decide
      rw [if_pos hbytes, hnone]
      exact (if_pos hbytes).symm
    case neg =>
      rw [if_neg hbytes]
      cases unsignedType t.tag with
      | none => exact (if_neg hbytes).symm
      | some name =>
        have hlen (n : Nat) (q : Prop) : ¬ (n < 1 ∨ 9 < n ∨ n = 9 ∧ q) ↔ 1 ≤ n ∧ n ≤ 9 ∧ ¬ (n = 9 ∧ q) := by
          grind
        have hrange (n : Nat) : ¬ (t.tag ≠ 0x46 ∧ 2 ^ 32 - 1 < n) ↔ t.tag = 0x46 ∨ n ≤ 2 ^ 32 - 1 := by grind
        unfold berUint
        simp only [hlen, hrange, guard]
        split <;> rfl

/-! ## Messages -/

/-- A varbind: a name, and a value. -/
inductive IsVarBind (b : Bytes) (t : Tlv) : VarBind → Prop
  | mk {name value : Tlv} {oid : String} {v : Value} (tag : t.tag = 0x30)
      (fills : Fills b t.stop t.start [name, value]) (isName : name.tag = 0x06)
      (oid_eq : berOid (name.content b) = some oid)
      (value_eq : berValue value.tag (value.content b) = some v) : IsVarBind b t ⟨oid, v⟩

theorem IsVarBind.isSequence {vb : VarBind} : IsVarBind b t vb → t.tag = 0x30
  | .mk tag .. => tag

theorem varBind_eq_some (htag : t.tag = 0x30) {vb : VarBind} : varBind b t = some vb ↔ IsVarBind b t vb := by
  unfold varBind
  simp only [↓expect_bind, ↓next_bind, ↓guard_bind, done_iff, some_bind, Option.pure_def, Option.some.injEq]
  constructor
  · rintro ⟨name, hname, hnametag, value, hvalue, hdone, v, hv, oid, hoid, rfl⟩
    exact ⟨htag, ⟨hname, hvalue, hdone⟩, hnametag, hoid, hv⟩
  · rintro ⟨-, ⟨hname, hvalue, hdone⟩, hnametag, hoid, hv⟩
    exact ⟨_, hname, hnametag, _, hvalue, hdone, _, hv, _, hoid, rfl⟩

theorem varBind_ts_eq_some (hin : t.Within b) {vb : VarBind} :
    Ts.varBind b t = some vb ↔ IsVarBind b t vb := by
  unfold Ts.varBind
  simp only [some_bind, seq_eq_some]
  constructor
  · rintro ⟨l, ⟨htag, hfills, hlen⟩, h⟩
    obtain ⟨name, value, rfl⟩ := List.length_eq_two.mp hlen
    have hvalue := hfills.within hin.2 value (by simp)
    simp only [Option.guard_eq_some', exists_const, Option.pure_def, Option.some.injEq,
      some_bind, oidOf_eq, value_eq hvalue] at h
    obtain ⟨hnametag, oid, hoid, v, hv, rfl⟩ := h
    exact ⟨htag, hfills, hnametag, hoid, hv⟩
  · rintro ⟨htag, hfills, hnametag, hoid, hv⟩
    have hvalue := hfills.within hin.2 _ (List.mem_cons_of_mem _ (List.mem_singleton_self _))
    refine ⟨_, ⟨htag, hfills, rfl⟩, ?_⟩
    simp only [Option.guard_eq_some', exists_const, Option.pure_def, Option.some.injEq,
      some_bind, oidOf_eq, value_eq hvalue]
    exact ⟨hnametag, _, hoid, _, hv, rfl⟩

theorem varBinds_eq_some {fuel : Nat} {r : R} (hfuel : r.stop - r.pos ≤ fuel) {vs : List VarBind} :
    varBinds b fuel r = some vs ↔ ∃ ts, Fills b r.stop r.pos ts ∧ List.Forall₂ (IsVarBind b) ts vs := by
  have hend {r : R} {vs : List VarBind} (hdone : r.stop ≤ r.pos) :
      some [] = some vs ↔ ∃ ts, Fills b r.stop r.pos ts ∧ List.Forall₂ (IsVarBind b) ts vs := by
    simp only [fills_of_done hdone, exists_eq_left, List.forall₂_nil_left_iff, Option.some.injEq, eq_comm]
  induction fuel generalizing r vs with
  | zero =>
    have hdone : r.stop ≤ r.pos := by omega
    unfold varBinds
    rw [if_pos (done_iff.mpr hdone)]
    exact hend hdone
  | succ fuel ih =>
    unfold varBinds
    split
    case isTrue hdone => exact hend (done_iff.mp hdone)
    case isFalse hmore =>
      rw [done_iff] at hmore
      simp only [↓expect_bind, some_bind, Option.pure_def, Option.some.injEq]
      constructor
      · rintro ⟨t, ht, htag, v, hv, rest, hrest, rfl⟩
        have hbounds := tlv_bounds ht
        obtain ⟨ts, hts, hall⟩ := (ih (r := ⟨t.stop, r.stop⟩) (by dsimp only; omega)).mp hrest
        exact ⟨t :: ts, ⟨ht, hts⟩, .cons ((varBind_eq_some htag).mp hv) hall⟩
      · rintro ⟨ts, hts, hall⟩
        cases hall with
        | nil => exact absurd hts hmore
        | cons hv hall =>
          have hbounds := tlv_bounds hts.1
          have htag := hv.isSequence
          exact ⟨_, hts.1, htag, _, (varBind_eq_some htag).mpr hv, _,
            (ih (r := ⟨_, r.stop⟩) (by dsimp only; omega)).mpr ⟨_, hts.2, hall⟩, rfl⟩

theorem mapM_eq_some {α β : Type} {f : α → Option β} {l : List α} {vs : List β} :
    l.mapM f = some vs ↔ List.Forall₂ (fun a v => f a = some v) l vs := by
  induction l generalizing vs with
  | nil =>
    rw [List.forall₂_nil_left_iff, List.mapM_nil, Option.pure_def, Option.some.injEq, eq_comm]
  | cons a l ih =>
    simp only [List.mapM_cons, some_bind, ih, Option.pure_def, Option.some.injEq, List.forall₂_cons_left_iff]
    constructor
    · rintro ⟨v, hv, vs, hvs, rfl⟩
      exact ⟨v, vs, hv, hvs, rfl⟩
    · rintro ⟨v, vs, hv, hvs, rfl⟩
      exact ⟨v, hv, vs, hvs, rfl⟩

/-- A scoped PDU, whose elements are these: its context engine, its PDU. -/
inductive IsScoped (b : Bytes) (r : R) : Bytes → Pdu → Prop
  | mk {engine name pdu id status index list : Tlv} {requestId n m : Int} {ts : List Tlv}
      {varbinds : List VarBind} (fills : Fills b r.stop r.pos [engine, name, pdu])
      (isEngine : engine.tag = 0x04) (isName : name.tag = 0x04)
      (pdu_fills : Fills b pdu.stop pdu.start [id, status, index, list])
      (id_eq : IsInt b id requestId) (range : -2 ^ 31 ≤ requestId ∧ requestId ≤ max31)
      (isStatus : IsInt b status n) (isIndex : IsInt b index m) (isList : list.tag = 0x30)
      (list_fills : Fills b list.stop list.start ts)
      (all : List.Forall₂ (IsVarBind b) ts varbinds) :
      IsScoped b r (engine.content b) ⟨pdu.tag, requestId, varbinds⟩

theorem scopedContent_eq_some {r : R} {pdu : Pdu} :
    scopedContent b r = some pdu ↔ ∃ engine, IsScoped b r engine pdu := by
  unfold scopedContent
  simp only [↓expect_bind, ↓next_bind, ↓guard_bind, ↓int_bind, ↓intIn_bind, done_iff,
    some_bind, Option.pure_def, Option.some.injEq]
  constructor
  · rintro ⟨engine, hengine, he, name, hname, hn, pdu, hpdu, hdone, id, rid, hid, hint, hrange, status,
      s, hstatus, hs, index, i, hindex, hi, list, hlist, hl, hend, vs, hvs, rfl⟩
    obtain ⟨ts, hts, hall⟩ := (varBinds_eq_some (r := list.reader) (le_refl _)).mp hvs
    exact ⟨_, ⟨hengine, hname, hpdu, hdone⟩, he, hn, ⟨hid, hstatus, hindex, hlist, hend⟩, hint, hrange,
      hs, hi, hl, hts, hall⟩
  · rintro ⟨_, ⟨hengine, hname, hpdu, hdone⟩, he, hn, ⟨hid, hstatus, hindex, hlist, hend⟩, hint, hrange,
      hs, hi, hl, hts, hall⟩
    exact ⟨_, hengine, he, _, hname, hn, _, hpdu, hdone, _, _, hid, hint, hrange, _, _, hstatus, hs, _, _,
      hindex, hi, _, hlist, hl, hend, _,
      (varBinds_eq_some (r := Tlv.reader _) (le_refl _)).mpr ⟨_, hts, hall⟩, rfl⟩

theorem forall₂_varBind_ts {ts : List Tlv} (hin : ∀ t ∈ ts, t.Within b) {vs : List VarBind} :
    List.Forall₂ (fun t v => Ts.varBind b t = some v) ts vs ↔ List.Forall₂ (IsVarBind b) ts vs := by
  induction ts generalizing vs with
  | nil => simp
  | cons t ts ih =>
    rw [List.forall₂_cons_left_iff, List.forall₂_cons_left_iff]
    have hrest {vs : List VarBind} : List.Forall₂ (fun t v => Ts.varBind b t = some v) ts vs ↔
          List.Forall₂ (IsVarBind b) ts vs :=
      ih fun t ht => hin t (List.mem_cons_of_mem _ ht)
    simp only [varBind_ts_eq_some (hin t List.mem_cons_self), hrest]

theorem scopedPdu_eq_some (hin : t.Within b) {tag : UInt8} {engine : Bytes} {requestId : Int}
    {varbinds : List VarBind} : Ts.scopedPdu b t = some ⟨tag, engine, requestId, varbinds⟩ ↔
      t.tag = 0x30 ∧ IsScoped b t.reader engine ⟨tag, requestId, varbinds⟩ := by
  unfold Ts.scopedPdu
  simp only [some_bind, seq_eq_some]
  constructor
  · rintro ⟨l, ⟨htag, hfills, hlen⟩, h⟩
    obtain ⟨engine, name, pdu, rfl⟩ := List.length_eq_three.mp hlen
    have hpdu := hfills.within hin.2 pdu (by simp)
    simp only [some_bind, octets_eq_some, children_eq_some] at h
    obtain ⟨c, ⟨he, rfl⟩, c, ⟨hn, rfl⟩, l, hl, h⟩ := h
    split at h
    case h_1 id status index list =>
      have hparts := hl.within hpdu.2
      have hlist := hparts list (by simp)
      simp only [some_bind, Option.guard_eq_some', exists_const, children_eq_some,
        mapM_eq_some, intIn_ts_eq_some (hparts id (by simp)), intOf_eq_some (hparts status (by simp)),
        intOf_eq_some (hparts index (by simp)), Option.pure_def, Option.some.injEq] at h
      obtain ⟨rid, ⟨hid, hrange⟩, s, hs, i, hi, hlt, ts, hts, vs, hall, heq⟩ := h
      obtain ⟨rfl, rfl, rfl, rfl⟩ := heq
      rw [forall₂_varBind_ts (hts.within hlist.2)] at hall
      exact ⟨htag, hfills, he, hn, hl, hid, hrange, hs, hi, hlt, hts, hall⟩
    case h_2 => cases h
  · rintro ⟨htag, hfills, he, hn, hl, hid, hrange, hs, hi, hlt, hts, hall⟩
    rename_i engine name pdu id status index list _ _ _
    have hpdu := hfills.within hin.2 pdu (by simp)
    have hparts := hl.within hpdu.2
    have hlist := hparts list (by simp)
    refine ⟨_, ⟨htag, hfills, rfl⟩, ?_⟩
    simp only [some_bind, octets_eq_some, children_eq_some]
    refine ⟨_, ⟨he, rfl⟩, _, ⟨hn, rfl⟩, _, hl, ?_⟩
    simp only [some_bind, Option.guard_eq_some', exists_const, children_eq_some,
      mapM_eq_some, intIn_ts_eq_some (hparts id (by simp)), intOf_eq_some (hparts status (by simp)),
      intOf_eq_some (hparts index (by simp)), Option.pure_def]
    rw [← forall₂_varBind_ts (hts.within hlist.2)] at hall
    exact ⟨_, ⟨hid, hrange⟩, _, hs, _, hi, hlt, _, hts, _, hall, rfl⟩

end Dsip.Events
