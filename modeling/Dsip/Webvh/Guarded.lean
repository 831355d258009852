import Dsip.Lib.Safe
import Dsip.Webvh.ScidText

/-!
# Guarded accesses

What a computation that does not raise gives, the members of a dictionary, and what each test of
a value says of its type. A proof is checked without an exception, unless its key is none
(`proofOk_cases`).
-/

namespace Dsip.Webvh

open Dsip.Lib

namespace Host

open IJson (Good GoodItems GoodMembers)

/-- An exception that nothing catches. -/
def Raised (s : Stop) : Prop := s = .raises

/-- The computation does not raise, and what it gives has `P`. -/
abbrev Calm {α : Type} (P : α → Prop) (x : Except Stop α) : Prop := Safe Raised P x

abbrev Raises {α : Type} (x : Except Stop α) : Prop := Fails Raised x

theorem raises_iff {α : Type} {x : Except Stop α} : Raises x ↔ x = .error .raises := by
  constructor
  · rintro ⟨e, rfl, rfl⟩
    rfl
  · rintro rfl
    exact ⟨_, rfl, rfl⟩

theorem calm_reject {α : Type} {P : α → Prop} (reason : String) : Calm P (.error (.reject reason) : Except Stop α) := by
  intro h
  cases h

theorem calm_check (ok : Bool) (reason : String) : Calm (fun _ => ok = true) (check ok reason) := by
  cases ok with
  | true => exact rfl
  | false => exact calm_reject reason

theorem calm_require {α : Type} (x : Option α) (reason : String) : Calm (fun a => x = some a) (require x reason) := by
  cases x with
  | none => exact calm_reject reason
  | some a => exact rfl

theorem calm_pure {α : Type} {P : α → Prop} {a : α} (h : P a) : Calm P (pure a : Except Stop α) := h

/-! ## Members -/

section Members

variable {ms : Members} {name : String} {v : Val}

theorem lookup_mem (h : lookup ms name = some v) : (lit name, v) ∈ ms := by
  obtain ⟨m, hm, rfl⟩ := Option.map_eq_some_iff.mp h
  have hname : m.1 = lit name := by simpa using List.find?_some hm
  rw [← hname]
  exact List.mem_of_find?_eq_some hm

theorem exists_lookup (h : lit name ∈ ms.map (·.1)) : ∃ v, lookup ms name = some v := by
  obtain ⟨m, hm, hname⟩ := List.mem_map.mp h
  cases hfind : ms.find? fun m => m.1 = lit name with
  | none =>
    have hnot := List.find?_eq_none.mp hfind m hm
    simp [hname] at hnot
  | some m' => exact ⟨m'.2, by rw [lookup, hfind]; rfl⟩

theorem lookup_of_mem (hnodup : (ms.map (·.1)).Nodup) (h : (lit name, v) ∈ ms) : lookup ms name = some v := by
  obtain ⟨w, hw⟩ := exists_lookup (List.mem_map_of_mem h)
  have heq := List.inj_on_of_nodup_map hnodup (lookup_mem hw) h rfl
  rw [hw, (Prod.mk.inj heq).2]

theorem item_eq (h : lookup ms name = some v) : item (.obj ms) name = .ok v := by
  simp only [item, h]

theorem get_eq (default : Val) : get (.obj ms) name default = .ok ((lookup ms name).getD default) := rfl

theorem goodMembers_forall {ms : Members} :
    GoodMembers ms ↔ ∀ m ∈ ms, (∃ cs, m.1 = PyStr.ofChars cs) ∧ Good m.2 := by
  induction ms with
  | nil => exact ⟨fun _ m hm => absurd hm List.not_mem_nil, fun _ => trivial⟩
  | cons m ms ih =>
    rw [GoodMembers, ih, List.forall_mem_cons, and_assoc]

theorem good_member (h : Good (.obj ms)) (hv : lookup ms name = some v) : Good v :=
  (goodMembers_forall.mp h.2 _ (lookup_mem hv)).2

theorem good_item {vs : List Val} (h : Good (.arr vs)) (hv : v ∈ vs) : Good v := IJson.goodItems_iff.mp h v hv

theorem good_without (h : Good (.obj ms)) (name : String) : Good (.obj (without ms name)) := by
  refine ⟨(List.filter_sublist.map _).nodup h.1, goodMembers_forall.mpr fun m hm => ?_⟩
  exact goodMembers_forall.mp h.2 m (List.mem_of_mem_filter hm)

theorem good_lit (s : String) : Good (.str (lit s)) := ⟨s.toList, rfl⟩

theorem good_setItem (h : Good (.obj ms)) (hv : Good v) (name : String) : Good (.obj (setItem ms name v)) := by
  obtain ⟨hnodup, hall⟩ := h
  rw [goodMembers_forall] at hall
  unfold setItem
  split
  · have hnames : (ms.map fun m => if m.1 = lit name then (m.1, v) else m).map (·.1) = ms.map (·.1) := by
      rw [List.map_map]
      refine List.map_congr_left fun m _ => ?_
      show (if m.1 = lit name then (m.1, v) else m).1 = m.1
      split <;> rfl
    refine ⟨hnames ▸ hnodup, goodMembers_forall.mpr fun m hm => ?_⟩
    obtain ⟨m', hm', rfl⟩ := List.mem_map.mp hm
    split
    · exact ⟨(hall m' hm').1, hv⟩
    · exact hall m' hm'
  · rename_i hnone
    refine ⟨?_, goodMembers_forall.mpr fun m hm => ?_⟩
    · rw [List.map_append, List.nodup_append]
      refine ⟨hnodup, List.nodup_singleton _, ?_⟩
      rintro k hk k' hk' rfl
      obtain ⟨m, hm, rfl⟩ := List.mem_map.mp hk
      rw [List.map_singleton, List.mem_singleton] at hk'
      exact hnone (List.any_eq_true.mpr ⟨m, hm, by simpa using hk'⟩)
    · rcases List.mem_append.mp hm with hm | hm
      · exact hall m hm
      · rw [List.mem_singleton.mp hm]
        exact ⟨⟨name.toList, rfl⟩, hv⟩

theorem lookup_update (ms p : Members) (name : String) :
    lookup (update ms p) name = (lookup p.reverse name).or (lookup ms name) := by
  have hput (ms : Members) (m : PyStr × Val) :
      lookup (if ms.any (·.1 = m.1) then ms.map fun m' => if m'.1 = m.1 then m else m' else ms ++ [m]) name =
        if m.1 = lit name then some m.2 else lookup ms name := by
    unfold lookup
    by_cases hany : ms.any (·.1 = m.1) = true
    · rw [if_pos hany, List.find?_map, Option.map_map]
      by_cases hname : m.1 = lit name
      · rw [if_pos hname]
        obtain ⟨m', hm', heq⟩ := List.any_eq_true.mp hany
        have heq : m'.1 = m.1 := by simpa using heq
        cases hfind : ms.find? ((fun m' => decide (m'.1 = lit name)) ∘ fun m' => if m'.1 = m.1 then m else m') with
        | none =>
          have hnot := List.find?_eq_none.mp hfind m' hm'
          simp [heq, hname] at hnot
        | some found =>
          have hfound := List.find?_some hfind
          by_cases hsame : found.1 = m.1
          · simp [hsame]
          · simp [hsame] at hfound
            exact absurd (hfound.trans hname.symm) hsame
      · rw [if_neg hname]
        have hpred : ((fun m' : PyStr × Val => decide (m'.1 = lit name)) ∘ fun m' => if m'.1 = m.1 then m else m') =
            fun m' => decide (m'.1 = lit name) := by
          funext m'
          by_cases hsame : m'.1 = m.1
          · simp [hsame]
          · simp [hsame]
        rw [hpred]
        cases hfind : ms.find? fun m' => decide (m'.1 = lit name) with
        | none => rfl
        | some found =>
          have hfound : found.1 = lit name := by simpa using List.find?_some hfind
          have hdiff : found.1 ≠ m.1 := fun h => hname (h.symm.trans hfound)
          simp [hdiff]
    · rw [if_neg hany, List.find?_append]
      by_cases hname : m.1 = lit name
      · have hnone : ms.find? (fun m' => decide (m'.1 = lit name)) = none := by
          rw [List.find?_eq_none]
          intro m' hm' hfound
          refine hany (List.any_eq_true.mpr ⟨m', hm', ?_⟩)
          rw [hname]
          exact hfound
        rw [hnone, if_pos hname]
        simp [hname]
      · simp [hname]
  unfold update
  induction p using List.reverseRecOn with
  | nil => rfl
  | append_singleton p m ih =>
    rw [List.foldl_append, List.foldl_cons, List.foldl_nil, hput, ih, List.reverse_append, List.reverse_singleton,
      List.singleton_append]
    unfold lookup
    rw [List.find?_cons]
    by_cases hname : m.1 = lit name
    · simp [hname]
    · simp [hname]

theorem lookup_reverse (hnodup : (ms.map (·.1)).Nodup) : lookup ms.reverse name = lookup ms name := by
  have hnodup' : (ms.reverse.map (·.1)).Nodup := by
    rw [List.map_reverse]
    exact List.nodup_reverse.mpr hnodup
  cases h : lookup ms name with
  | some v => exact lookup_of_mem hnodup' (List.mem_reverse.mpr (lookup_mem h))
  | none =>
    cases h' : lookup ms.reverse name with
    | none => rfl
    | some v =>
      rw [lookup_of_mem hnodup (List.mem_reverse.mp (lookup_mem h'))] at h
      cases h

theorem update_keeps {Q : Val → Prop} {p : Members} (hnodup : (p.map (·.1)).Nodup)
    (hp : ∀ v, lookup p name = some v → Q v)
    (hhas : (∃ v, lookup p name = some v) ∨ ∃ v, lookup ms name = some v ∧ Q v) :
    ∃ v, lookup (update ms p) name = some v ∧ Q v := by
  rw [lookup_update, lookup_reverse hnodup]
  cases h : lookup p name with
  | some v => exact ⟨v, rfl, hp v h⟩
  | none =>
    rcases hhas with ⟨v, hv⟩ | hold
    · rw [h] at hv
      cases hv
    · exact hold

end Members

/-! ## Values of a type -/

theorem isDict_iff {v : Val} : isDict v = true ↔ ∃ ms, v = .obj ms := by
  constructor
  · intro h
    cases v with
    | obj ms => exact ⟨ms, rfl⟩
    | _ => cases h
  · rintro ⟨ms, rfl⟩
    rfl

theorem isList_iff {v : Val} : isList v = true ↔ ∃ vs, v = .arr vs := by
  constructor
  · intro h
    cases v with
    | arr vs => exact ⟨vs, rfl⟩
    | _ => cases h
  · rintro ⟨vs, rfl⟩
    rfl

theorem isStr_iff {v : Val} : isStr v = true ↔ ∃ s, v = .str s := by
  constructor
  · intro h
    cases v with
    | str s => exact ⟨s, rfl⟩
    | _ => cases h
  · rintro ⟨s, rfl⟩
    rfl

theorem number_of_isInt {v : Val} (h : isInt v = true) : ∃ n, number v = .ok n := by
  cases v with
  | int n => exact ⟨n, rfl⟩
  | bool b => exact ⟨_, rfl⟩
  | _ => cases h

theorem textOf_ofChars (cs : List Char) : textOf (.ofChars cs) = some cs := by
  induction cs with
  | nil => rfl
  | cons c cs ih =>
    show (textOf (PyStr.ofChars cs)).map (c :: ·) = _
    rw [ih]
    rfl

theorem textOf_eq {s : PyStr} {cs : List Char} (h : textOf s = some cs) : s = .ofChars cs := by
  induction s generalizing cs with
  | nil =>
    cases h
    rfl
  | cons ch s ih =>
    cases ch with
    | char c =>
      obtain ⟨cs', hcs', rfl⟩ := Option.map_eq_some_iff.mp h
      rw [ih hcs']
      rfl
    | surrogate n => cases h

theorem strOf_eq {v : Val} {s : String} (h : strOf v = some s) : v = .str (lit s) := by
  cases v with
  | str t =>
    obtain ⟨cs, hcs, rfl⟩ := Option.map_eq_some_iff.mp h
    rw [textOf_eq hcs, lit, String.toList_ofList]
  | _ => cases h

theorem strOf_lit (s : String) : strOf (.str (lit s)) = some s := by
  show (textOf (.ofChars s.toList)).map String.ofList = some s
  rw [textOf_ofChars, Option.map_some, String.ofList_toList]

theorem equals_iff {v w : Val} : equals v w = true ↔ ∃ s, v = .str s ∧ w = .str s := by
  constructor
  · intro h
    cases v with
    | str s =>
      cases w with
      | str t => exact ⟨s, rfl, by rw [of_decide_eq_true h]⟩
      | _ => cases h
    | _ => cases h
  · rintro ⟨s, rfl, rfl⟩
    exact decide_eq_true rfl

theorem encode_lit (s : String) : ∃ data, encode (lit s) = .ok data := by
  unfold encode lit
  rw [IJson.utf8_ofChars]
  exact ⟨_, rfl⟩

theorem canonical_eq {v : Val} (h : Good v) : ∃ data, canonical v = .ok data := by
  obtain ⟨j, rfl⟩ := IJson.exists_ofJson v h
  unfold canonical
  rw [IJson.jcs_ofJson]
  exact ⟨_, rfl⟩

/-! ## Proofs -/

/-- Whether a proof has the form of one, so that its signature is looked at. -/
def hasForm : Val → Bool
  | .obj ms => isProof ms && (multibase ((lookup ms "proofValue").getD .null)).isSome
  | _ => false

theorem multibase_decodes {v : Val} {text : PyStr} (h : multibase v = some text) : ∃ sig, b58Decode text = .ok sig := by
  unfold multibase at h
  split at h
  · rename_i s
    split at h
    · rename_i hany
      cases h
      obtain ⟨cs, hcs, hbase⟩ := (Option.any_eq_true _ _).mp hany
      obtain ⟨data, hdata⟩ := base58Decode_some hbase
      refine ⟨data, ?_⟩
      unfold b58Decode
      rw [hcs, Option.bind_some, hdata]
    · cases h
  · cases h

section Checks

variable (c : Crypto)

theorem proofInput_eq {document : Val} {ms : Members} (hdoc : Good document) (hms : Good (.obj ms)) :
    ∃ data, proofInput c document ms = .ok data := by
  obtain ⟨config, hconfig⟩ := canonical_eq (good_without hms "proofValue")
  obtain ⟨data, hdata⟩ := canonical_eq hdoc
  unfold proofInput
  rw [hconfig, hdata]
  exact ⟨_, rfl⟩

theorem proofOk_cases {document pr : Val} (hdoc : Good document) (hpr : Good pr) (pub : Option Bytes) :
    (∃ ok, proofOk c document pr pub = .ok ok) ∧ (hasForm pr = false ∨ pub.isSome = true) ∨
      proofOk c document pr pub = .error .raises ∧ hasForm pr = true ∧ pub = none := by
  cases pr with
  | obj ms =>
    cases hproof : isProof ms with
    | false =>
      refine .inl ⟨⟨false, ?_⟩, .inl ?_⟩
      · simp [proofOk, hproof]
      · simp [hasForm, hproof]
    | true =>
      cases htext : multibase ((lookup ms "proofValue").getD .null) with
      | none =>
        refine .inl ⟨⟨false, ?_⟩, .inl ?_⟩
        · simp [proofOk, hproof, htext]
        · simp [hasForm, hproof, htext]
      | some text =>
        have hform : hasForm (.obj ms) = true := by simp [hasForm, hproof, htext]
        obtain ⟨sig, hsig⟩ := multibase_decodes htext
        obtain ⟨input, hinput⟩ := proofInput_eq c hdoc hpr
        have hverify : proofOk c document (.obj ms) pub = ed25519Verify c pub input sig := by
          simp only [proofOk, hproof, Bool.not_true, htext, hinput, hsig]
          rfl
        rw [hverify]
        cases pub with
        | some key => exact .inl ⟨⟨_, rfl⟩, .inr rfl⟩
        | none => exact .inr ⟨rfl, hform, rfl⟩
  | _ => exact .inl ⟨⟨false, rfl⟩, .inl rfl⟩

theorem proofKey_eq (pr : Val) : ∃ mk, proofKey pr = .ok mk := by
  cases pr with
  | obj ms => exact ⟨_, rfl⟩
  | _ => exact ⟨_, rfl⟩

end Checks

end Host

end Dsip.Webvh
