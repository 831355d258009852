import Dsip.Webvh.IJson

/-!
# What `jcs` writes, `ijson` reads

Up to the order of members, which Python's dictionaries do not compare (`same`).
-/

namespace Dsip.Webvh

open Dsip.Lib

namespace IJson

open PyJson (ofJson ofItems ofMembers)

/-! ## A value without floats or surrogates is one of `Lib.Json` -/

theorem units_ofChars (cs : List Char) : units (.ofChars cs) = some (utf16 (String.ofList cs)) := by
  induction cs with
  | nil => rfl
  | cons c cs ih =>
    change (units (.ofChars cs)).map (utf16 (String.ofList [c]) ++ ·) = _
    rw [ih]
    simp [utf16]

theorem utf8_ofChars (cs : List Char) : utf8 (.ofChars cs) = some (utf8Encode cs) := by
  induction cs with
  | nil => rfl
  | cons c cs ih =>
    change (utf8 (.ofChars cs)).map (String.utf8EncodeChar c ++ ·) = _
    rw [ih]
    rfl

theorem dumps_ofChars (s : String) : dumps (.ofChars s.toList) = .ofChars (Json.quote s) := by
  have hescape (cs : List Char) : (PyStr.ofChars cs).flatMap escape = PyStr.ofChars (cs.flatMap Json.escape) := by
    induction cs with
    | nil => rfl
    | cons c cs ih =>
      change PyStr.ofChars (Json.escape c) ++ (PyStr.ofChars cs).flatMap escape = _
      rw [ih, List.flatMap_cons]
      exact List.map_append.symm
  rw [dumps, hescape, Json.quote]
  simp [PyStr.ofChars]

theorem intercalate_cons {α : Type} (sep t : List α) (ts : List (List α)) :
    sep.intercalate (t :: ts) = t ++ ts.flatMap fun t => sep ++ t := by
  induction ts generalizing t with
  | nil => simp
  | cons u ts ih =>
    rw [List.intercalate_cons_cons, ih, List.flatMap_cons]
    simp

theorem render_arr (pad : List Char) (vs : List Json) :
    (Json.arr vs).render pad = '[' :: ((',' :: pad).intercalate (vs.map (Json.render pad)) ++ [']']) := by
  have hitems (vs : List Json) :
      Json.renderItems pad vs = (vs.flatMap fun v => (',' :: pad) ++ v.render pad) ++ [']'] := by
    induction vs with
    | nil => rfl
    | cons v vs ih =>
      rw [Json.renderItems, ih]
      simp
  cases vs with
  | nil => rfl
  | cons v vs =>
    rw [Json.render, hitems, List.map_cons, intercalate_cons, List.flatMap_map, List.append_assoc]

def member (pad : List Char) (m : String × Json) : List Char := Json.quote m.1 ++ ':' :: (pad ++ m.2.render pad)

theorem render_obj (pad : List Char) (ms : List (String × Json)) :
    (Json.obj ms).render pad = '{' :: ((',' :: pad).intercalate (ms.map (member pad)) ++ ['}']) := by
  have hmembers (ms : List (String × Json)) :
      Json.renderMembers pad ms = (ms.flatMap fun m => (',' :: pad) ++ member pad m) ++ ['}'] := by
    induction ms with
    | nil => rfl
    | cons m ms ih =>
      obtain ⟨k, v⟩ := m
      rw [Json.renderMembers, ih]
      simp [member]
  cases ms with
  | nil => rfl
  | cons m ms =>
    obtain ⟨k, v⟩ := m
    rw [Json.render, hmembers, List.map_cons, intercalate_cons, List.flatMap_map]
    simp [member]

theorem intercalate_ofChars (sep : List Char) (ts : List (List Char)) :
    (PyStr.ofChars sep).intercalate (ts.map PyStr.ofChars) = PyStr.ofChars (sep.intercalate ts) := by
  cases ts with
  | nil => rfl
  | cons t ts =>
    rw [List.map_cons, intercalate_cons, intercalate_cons]
    unfold PyStr.ofChars
    rw [List.map_append, List.flatMap_map, List.map_flatMap]
    simp

theorem canonMembers_eq (ms : List (String × Json)) : canonMembers ms = ms.map fun m => (m.1, canon m.2) := by
  induction ms with
  | nil => rfl
  | cons m ms ih => rw [canonMembers, ih, List.map_cons]

def texts (m : String × Json) : PyStr × PyStr := (.ofChars m.1.toList, .ofChars (m.2.render []))

theorem sorted_texts (ms : List (String × Json)) :
    sorted (ms.map texts) = some ((sortMembers ms).map texts) := by
  have hkeyed : (ms.map texts).mapM (fun m => (units m.1).map fun u => (u, m)) =
      some (ms.map fun m => (utf16 m.1, texts m)) := by
    induction ms with
    | nil => rfl
    | cons m ms ih =>
      rw [List.map_cons, List.mapM_cons, ih]
      change ((units (.ofChars m.1.toList)).map _).bind _ = _
      rw [units_ofChars, String.ofList_toList]
      rfl
  rw [sorted, hkeyed, sortMembers, Option.map_some]
  congr 1
  rw [← List.map_insertionSort (fun a b : String × Json => utf16 a.1 ≤ utf16 b.1) _
    (fun m : String × Json => (utf16 m.1, texts m)) ms fun _ _ _ _ => Iff.rfl, List.map_map]
  rfl

theorem comma_ofChars : [PyChar.char ','] = PyStr.ofChars [','] := rfl

mutual

theorem enc_ofJson : ∀ v : Json, enc (ofJson v) = some (.ofChars ((canon v).render []))
  | .null => rfl
  | .bool true => rfl
  | .bool false => rfl
  | .int n => rfl
  | .str s => by
      rw [ofJson, enc, dumps_ofChars]
      rfl
  | .arr vs => by
      rw [ofJson, enc, enc_ofItems vs, canon, render_arr, Option.map_some, comma_ofChars, intercalate_ofChars]
      simp [PyStr.ofChars]
  | .obj ms => by
      rw [ofJson, enc, enc_ofMembers ms, canon, render_obj, Option.bind_some, sorted_texts, Option.map_some,
        List.map_map]
      have hmember : (fun t => dumps t.1 ++ PyChar.char ':' :: t.2) ∘ texts = PyStr.ofChars ∘ member [] := by
        funext m
        change dumps (.ofChars m.1.toList) ++ _ = _
        rw [dumps_ofChars]
        simp [PyStr.ofChars, member, texts]
      rw [hmember, ← List.map_map, comma_ofChars, intercalate_ofChars]
      simp [PyStr.ofChars]

theorem enc_ofItems : ∀ vs : List Json,
    encItems (ofItems vs) = some (((canonItems vs).map (Json.render [])).map PyStr.ofChars)
  | [] => rfl
  | v :: vs => by
      rw [ofItems, encItems, enc_ofJson v, enc_ofItems vs]
      rfl

theorem enc_ofMembers : ∀ ms : List (String × Json),
    encMembers (ofMembers ms) = some ((canonMembers ms).map texts)
  | [] => rfl
  | (k, v) :: ms => by
      rw [ofMembers, encMembers, enc_ofJson v, enc_ofMembers ms]
      rfl

end

theorem jcs_ofJson (v : Json) : jcs (ofJson v) = some (Webvh.jcs v) := by
  rw [jcs, enc_ofJson, Option.bind_some, utf8_ofChars]
  rfl

mutual

theorem exists_ofJson : ∀ v : PyJson, Good v → ∃ j, ofJson j = v
  | .null, _ => ⟨.null, rfl⟩
  | .bool b, _ => ⟨.bool b, rfl⟩
  | .int n, _ => ⟨.int n, rfl⟩
  | .float, h => h.elim
  | .str s, h => by
      obtain ⟨cs, rfl⟩ := h
      exact ⟨.str (String.ofList cs), by rw [ofJson, String.toList_ofList]⟩
  | .arr vs, h => by
      obtain ⟨js, rfl⟩ := exists_ofItems vs h
      exact ⟨.arr js, rfl⟩
  | .obj ms, h => by
      obtain ⟨js, rfl⟩ := exists_ofMembers ms h.2
      exact ⟨.obj js, rfl⟩

theorem exists_ofItems : ∀ vs : List PyJson, GoodItems vs → ∃ js, ofItems js = vs
  | [], _ => ⟨[], rfl⟩
  | v :: vs, h => by
      obtain ⟨j, rfl⟩ := exists_ofJson v h.1
      obtain ⟨js, rfl⟩ := exists_ofItems vs h.2
      exact ⟨j :: js, rfl⟩

theorem exists_ofMembers : ∀ ms : List (PyStr × PyJson), GoodMembers ms → ∃ js, ofMembers js = ms
  | [], _ => ⟨[], rfl⟩
  | (k, v) :: ms, h => by
      obtain ⟨⟨cs, rfl⟩, hv, hms⟩ := h
      obtain ⟨j, rfl⟩ := exists_ofJson v hv
      obtain ⟨js, rfl⟩ := exists_ofMembers ms hms
      exact ⟨(String.ofList cs, j) :: js, by rw [ofMembers, String.toList_ofList]⟩

end

/-! ## The order of members -/

theorem utf16_injective : Function.Injective utf16 := by
  -- a first unit is a character of the basic plane, or the first of a pair
  have hcons (a b : Char) (as bs : List Char) (h : utf16 (String.ofList (a :: as)) = utf16 (String.ofList (b :: bs))) :
      a = b ∧ utf16 (String.ofList as) = utf16 (String.ofList bs) := by
    simp only [utf16, String.toList_ofList, List.flatMap_cons] at h ⊢
    have hscalar (c : Char) : c.toNat < 0xD800 ∨ 0xDFFF < c.toNat ∧ c.toNat < 0x110000 := c.valid
    have ha := hscalar a
    have hb := hscalar b
    split at h <;> split at h
    · obtain ⟨hhead, htail⟩ := List.cons.inj h
      exact ⟨Char.toNat_inj.mp hhead, htail⟩
    · have hhead := (List.cons.inj h).1
      omega
    · have hhead := (List.cons.inj h).1
      omega
    · obtain ⟨hhigh, hrest⟩ := List.cons.inj h
      obtain ⟨hlow, htail⟩ := List.cons.inj hrest
      exact ⟨Char.toNat_inj.mp (by omega), htail⟩
  have hlists (as bs : List Char) (h : utf16 (String.ofList as) = utf16 (String.ofList bs)) : as = bs := by
    induction as generalizing bs with
    | nil =>
      cases bs with
      | nil => rfl
      | cons b bs =>
        simp only [utf16, String.toList_ofList, List.flatMap_cons, List.flatMap_nil] at h
        split at h <;> cases h
    | cons a as ih =>
      cases bs with
      | nil =>
        simp only [utf16, String.toList_ofList, List.flatMap_cons, List.flatMap_nil] at h
        split at h <;> cases h
      | cons b bs =>
        obtain ⟨rfl, htail⟩ := hcons a b as bs h
        rw [ih bs htail]
  intro s t h
  have h := hlists s.toList t.toList (by rwa [String.ofList_toList, String.ofList_toList])
  exact String.toList_inj.mp h

theorem sortMembers_eq_iff {ms ns : List (String × Json)} (hms : (ms.map (·.1)).Nodup) :
    sortMembers ms = sortMembers ns ↔ ms.Perm ns := by
  constructor
  · intro h
    have hns : (sortMembers ns).Perm ns := List.perm_insertionSort _ ns
    rw [← h] at hns
    exact (List.perm_insertionSort _ ms).symm.trans hns
  · intro hperm
    have hsortMs : (sortMembers ms).Perm ms := List.perm_insertionSort _ ms
    have hsortNs : (sortMembers ns).Perm ns := List.perm_insertionSort _ ns
    refine List.Perm.eq_of_pairwise ?_
      (List.pairwise_insertionSort (fun a b : String × Json => utf16 a.1 ≤ utf16 b.1) ms)
      (List.pairwise_insertionSort _ ns) (hsortMs.trans (hperm.trans hsortNs.symm))
    intro a b ha hb hab hba
    have hname : a.1 = b.1 := utf16_injective (le_antisymm hab hba)
    exact List.inj_on_of_nodup_map hms (hsortMs.subset ha) (hperm.symm.subset (hsortNs.subset hb)) hname

mutual

/-- One value, up to the order of members. -/
def same : PyJson → PyJson → Prop
  | .null, .null => True
  | .bool a, .bool b => a = b
  | .int m, .int n => m = n
  | .str s, .str t => s = t
  | .arr vs, .arr ws => sameItems vs ws
  | .obj ms, .obj ns => ms.length = ns.length ∧ sameMembers ms ns
  | _, _ => False

def sameItems : List PyJson → List PyJson → Prop
  | [], [] => True
  | v :: vs, w :: ws => same v w ∧ sameItems vs ws
  | _, _ => False

/-- Every member has its like among the others. -/
def sameMembers : List (PyStr × PyJson) → List (PyStr × PyJson) → Prop
  | [], _ => True
  | (k, v) :: ms, ns => (∃ w, (k, w) ∈ ns ∧ same v w) ∧ sameMembers ms ns

end

theorem ofMembers_eq (ms : List (String × Json)) : ofMembers ms = ms.map fun m => (.ofChars m.1.toList, ofJson m.2) := by
  induction ms with
  | nil => rfl
  | cons m ms ih => rw [ofMembers, ih, List.map_cons]

theorem ofChars_injective : Function.Injective PyStr.ofChars :=
  List.map_injective_iff.mpr fun _ _ h => PyChar.char.inj h

theorem nodup_names {ms : List (String × Json)} :
    ((ofMembers ms).map (·.1)).Nodup ↔ (ms.map (·.1)).Nodup := by
  have hnames : (ofMembers ms).map (·.1) = (ms.map (·.1)).map fun k => PyStr.ofChars k.toList := by
    rw [ofMembers_eq, List.map_map, List.map_map]
    rfl
  rw [hnames]
  exact List.nodup_map_iff (ofChars_injective.comp fun _ _ h => String.toList_inj.mp h)

theorem goodItems_iff {vs : List PyJson} : GoodItems vs ↔ ∀ v ∈ vs, Good v := by
  induction vs with
  | nil => exact ⟨fun _ v hv => absurd hv List.not_mem_nil, fun _ => trivial⟩
  | cons v vs ih => rw [GoodItems, ih, List.forall_mem_cons]

theorem goodMembers_iff {ms : List (String × Json)} : GoodMembers (ofMembers ms) ↔ ∀ m ∈ ms, Good (ofJson m.2) := by
  induction ms with
  | nil => exact ⟨fun _ v hv => absurd hv List.not_mem_nil, fun _ => trivial⟩
  | cons m ms ih =>
    rw [ofMembers, GoodMembers, ih, List.forall_mem_cons]
    exact ⟨fun h => h.2, fun h => ⟨⟨m.1.toList, rfl⟩, h⟩⟩

theorem names_canonMembers (ms : List (String × Json)) : (canonMembers ms).map (·.1) = ms.map (·.1) := by
  rw [canonMembers_eq, List.map_map]
  rfl

mutual

theorem same_ofJson : ∀ v w : Json, Good (ofJson v) → Good (ofJson w) →
    (same (ofJson v) (ofJson w) ↔ canon v = canon w)
  | .null, w, _, _ => by cases w <;> simp [ofJson, same, canon]
  | .bool b, w, _, _ => by cases w <;> simp [ofJson, same, canon]
  | .int n, w, _, _ => by cases w <;> simp [ofJson, same, canon]
  | .str s, w, _, _ => by
      cases w with
      | str t =>
        rw [ofJson, ofJson, same, canon, canon, Json.str.injEq]
        exact ⟨fun h => String.toList_inj.mp (ofChars_injective h), fun h => h ▸ rfl⟩
      | _ => simp [ofJson, same, canon]
  | .arr vs, w, hv, hw => by
      cases w with
      | arr ws =>
        rw [ofJson, ofJson, same, canon, canon, Json.arr.injEq]
        exact same_ofItems vs ws hv hw
      | _ => simp [ofJson, same, canon]
  | .obj ms, w, hv, hw => by
      cases w with
      | obj ns =>
        have hms := nodup_names.mp hv.1
        have hcanon : ((canonMembers ms).map (·.1)).Nodup := by rwa [names_canonMembers]
        rw [ofJson, ofJson, same, canon, canon, Json.obj.injEq, sortMembers_eq_iff hcanon,
          same_ofMembers ms ns hv.2 hw.2]
        have hlengths : (ofMembers ms).length = (ofMembers ns).length ↔
            (canonMembers ms).length = (canonMembers ns).length := by
          simp [ofMembers_eq, canonMembers_eq]
        rw [hlengths]
        constructor
        · rintro ⟨hlength, hsubset⟩
          exact (List.subperm_of_subset (List.Nodup.of_map _ hcanon) hsubset).perm_of_length_le hlength.ge
        · exact fun hperm => ⟨hperm.length_eq, hperm.subset⟩
      | _ => simp [ofJson, same, canon]

theorem same_ofItems : ∀ vs ws : List Json, GoodItems (ofItems vs) → GoodItems (ofItems ws) →
    (sameItems (ofItems vs) (ofItems ws) ↔ canonItems vs = canonItems ws)
  | [], ws, _, _ => by cases ws <;> simp [ofItems, sameItems, canonItems]
  | v :: vs, ws, hv, hw => by
      cases ws with
      | nil => simp [ofItems, sameItems, canonItems]
      | cons w ws =>
        rw [ofItems, ofItems, sameItems, canonItems, canonItems, List.cons.injEq, same_ofJson v w hv.1 hw.1,
          same_ofItems vs ws hv.2 hw.2]

theorem same_ofMembers : ∀ ms ns : List (String × Json), GoodMembers (ofMembers ms) → GoodMembers (ofMembers ns) →
    (sameMembers (ofMembers ms) (ofMembers ns) ↔ canonMembers ms ⊆ canonMembers ns)
  | [], ns, _, _ => by simp [ofMembers, sameMembers, canonMembers]
  | (k, v) :: ms, ns, hms, hns => by
      rw [ofMembers, sameMembers, canonMembers, List.cons_subset, same_ofMembers ms ns hms.2.2 hns]
      refine and_congr_left fun _ => ?_
      have hgood := goodMembers_iff.mp hns
      rw [ofMembers_eq, canonMembers_eq, List.mem_map]
      constructor
      · rintro ⟨w, hw, hsame⟩
        obtain ⟨n, hn, heq⟩ := List.mem_map.mp hw
        obtain ⟨hname, rfl⟩ := Prod.mk.inj heq
        refine ⟨n, hn, Prod.ext (String.toList_inj.mp (ofChars_injective hname)) ?_⟩
        exact ((same_ofJson v n.2 hms.2.1 (hgood n hn)).mp hsame).symm
      · rintro ⟨n, hn, heq⟩
        obtain ⟨hname, hcanon⟩ := Prod.mk.inj heq
        refine ⟨ofJson n.2, List.mem_map.mpr ⟨n, hn, by rw [hname]⟩, ?_⟩
        exact (same_ofJson v n.2 hms.2.1 (hgood n hn)).mpr hcanon.symm

end

/-! ## The canonical value is the same value -/

theorem sortMembers_sortMembers (ms : List (String × Json)) : sortMembers (sortMembers ms) = sortMembers ms :=
  (List.pairwise_insertionSort _ ms).insertionSort_eq

theorem canonMembers_sortMembers (ms : List (String × Json)) :
    canonMembers (sortMembers ms) = sortMembers (canonMembers ms) := by
  rw [canonMembers_eq, canonMembers_eq]
  exact List.map_insertionSort _ _ _ _ fun _ _ _ _ => Iff.rfl

mutual

theorem canon_canon : ∀ v : Json, canon (canon v) = canon v
  | .null | .bool _ | .int _ | .str _ => rfl
  | .arr vs => by rw [canon, canon, canonItems_canonItems vs]
  | .obj ms => by
      rw [canon, canon, canonMembers_sortMembers, canonMembers_canonMembers ms, sortMembers_sortMembers]

theorem canonItems_canonItems : ∀ vs : List Json, canonItems (canonItems vs) = canonItems vs
  | [] => rfl
  | v :: vs => by rw [canonItems, canonItems, canon_canon v, canonItems_canonItems vs]

theorem canonMembers_canonMembers : ∀ ms : List (String × Json), canonMembers (canonMembers ms) = canonMembers ms
  | [] => rfl
  | (k, v) :: ms => by rw [canonMembers, canonMembers, canon_canon v, canonMembers_canonMembers ms]

end

mutual

theorem good_canon : ∀ v : Json, Good (ofJson v) → Good (ofJson (canon v))
  | .null, h | .bool _, h | .int _, h | .str _, h => h
  | .arr vs, h => good_canonItems vs h
  | .obj ms, h => by
      have hperm : (sortMembers (canonMembers ms)).Perm (canonMembers ms) := List.perm_insertionSort _ _
      have hnames := nodup_names.mp h.1
      rw [← names_canonMembers] at hnames
      refine ⟨nodup_names.mpr ((hperm.map _).nodup_iff.mpr hnames), goodMembers_iff.mpr fun m hm => ?_⟩
      exact goodMembers_iff.mp (good_canonMembers ms h.2) m (hperm.subset hm)

theorem good_canonItems : ∀ vs : List Json, GoodItems (ofItems vs) → GoodItems (ofItems (canonItems vs))
  | [], h => h
  | v :: vs, h => ⟨good_canon v h.1, good_canonItems vs h.2⟩

theorem good_canonMembers : ∀ ms : List (String × Json),
    GoodMembers (ofMembers ms) → GoodMembers (ofMembers (canonMembers ms))
  | [], h => h
  | (_, v) :: ms, h => ⟨h.1, good_canon v h.2.1, good_canonMembers ms h.2.2⟩

end

theorem ijson_jcs {v : PyJson} (hv : Good v) :
    ∃ text w, jcs v = some (utf8Encode text) ∧ ijson (.ofChars text) = some w ∧ same v w := by
  obtain ⟨j, rfl⟩ := exists_ofJson v hv
  have hgood := good_canon j hv
  have hparse : Json.parse ((canon j).render []) = some (canon j) :=
    Json.parse_render (fun _ hc => absurd hc List.not_mem_nil) (canon j)
  refine ⟨(canon j).render [], ofJson (canon j), jcs_ofJson j, ?_, ?_⟩
  · exact ijson_eq.mpr ⟨PyJson.loads_parse hparse, hgood⟩
  · exact (same_ofJson j (canon j) hv hgood).mpr (canon_canon j).symm

theorem jcs_eq_iff {v w : PyJson} (hv : Good v) (hw : Good w) : jcs v = jcs w ↔ same v w := by
  obtain ⟨i, rfl⟩ := exists_ofJson v hv
  obtain ⟨j, rfl⟩ := exists_ofJson w hw
  rw [same_ofJson i j hv hw, jcs_ofJson, jcs_ofJson, Option.some.injEq]
  exact ⟨jcs_inj, fun h => by rw [Webvh.jcs, h]; rfl⟩

/-- A name outside the basic plane comes before one at its end, and `true` is not `1`. -/
example : jcs (.obj [(.ofChars [Char.ofNat 0xFFFF], .bool true), (.ofChars [Char.ofNat 0x10000], .int 1)]) =
      some (utf8Encode ['{', '"', Char.ofNat 0x10000, '"', ':', '1', ',', '"', Char.ofNat 0xFFFF, '"', ':',
        't', 'r', 'u', 'e', '}']) := by decide +kernel

/-- Canonical JSON and the reader of I-JSON fit together. -/
theorem jcs_fits :
    (∀ v, Good v → ∃ text w, jcs v = some (utf8Encode text) ∧ ijson (.ofChars text) = some w ∧ same v w) ∧
    (∀ v w, Good v → Good w → same v w → jcs v = jcs w) ∧
    (∀ v w, Good v → Good w → jcs v = jcs w → same v w) ∧
    ∀ text v, ijson text = some v → PyJson.loads text = some v ∧ Good v :=
  ⟨fun _ => ijson_jcs, fun _ _ hv hw => (jcs_eq_iff hv hw).mpr, fun _ _ hv hw => (jcs_eq_iff hv hw).mp,
    fun _ _ => ijson_eq.mp⟩

end IJson

end Dsip.Webvh
