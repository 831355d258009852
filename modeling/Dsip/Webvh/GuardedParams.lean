import Dsip.Webvh.Guarded

/-!
# The parameters of an entry

Each access to the parameters is made on a value of the right type, because an earlier check has
seen to it (`calm_checkPlain`), but for one: a set is made of whatever the witnesses have for an
`id` (`checkParams_cases`).
-/

namespace Dsip.Webvh

open Dsip.Lib

namespace Host

/-! ## Parameters -/

def KeyList (v : Val) : Prop := ∃ ks, v = .arr ks ∧ ∀ k ∈ ks, (multikeyPubValue k).isSome = true

/-- A witness configuration that the steps after the check can use. -/
def WitnessOk (v : Val) : Prop :=
  v = .obj [] ∨ ∃ ms ws threshold, v = .obj ms ∧ lookup ms "witnesses" = some (.arr ws) ∧
    (∀ w ∈ ws, ∃ wms id, w = .obj wms ∧ lookup wms "id" = some (.str id)) ∧
    lookup ms "threshold" = some threshold ∧ isInt threshold = true

/-- What the checks of the parameters of entry `n` see to. -/
structure ParamsOk (n : Nat) (ms : Members) : Prop where
  scid : n = 1 → ∃ s, lookup ms "scid" = some (.str (lit s)) ∧ isMh s = true
  first : n = 1 → ∃ v, lookup ms "updateKeys" = some v
  updateKeys : ∀ v, lookup ms "updateKeys" = some v → KeyList v
  nextKeyHashes : ∀ v, lookup ms "nextKeyHashes" = some v → isList v = true

theorem calm_given (ms : Members) (name : String) {ok : Val → Except Stop Bool} {P : Val → Prop}
    (hok : ∀ v, lookup ms name = some v → Calm (fun b => b = true → P v) (ok v)) :
    Calm (fun _ => ∀ v, lookup ms name = some v → P v) (given (.obj ms) name ok) := by
  unfold given
  refine Safe.bind (P := (· = ms)) rfl ?_
  rintro _ rfl
  split
  · rename_i hmem
    obtain ⟨v, hv⟩ := exists_lookup hmem
    refine Safe.bind (P := (· = v)) ?_ ?_
    · rw [item_eq hv]
      exact rfl
    · rintro v rfl
      refine (hok v hv).bind fun b hb => ?_
      refine (calm_check b _).mono ?_
      intro _ hb' w hw
      rw [hv] at hw
      cases hw
      exact hb hb'
  · rename_i hnot
    refine calm_pure ?_
    intro v hv
    exact absurd (List.mem_map_of_mem (lookup_mem hv)) hnot

theorem calm_given_pure (ms : Members) (name : String) (ok : Val → Bool) :
    Calm (fun _ => ∀ v, lookup ms name = some v → ok v = true) (given (.obj ms) name fun v => .ok (ok v)) :=
  calm_given ms name fun _ _ h => h

theorem calm_stringList (v : Val) : Calm (fun b => b = true → ∃ vs, v = .arr vs) (stringList v) := by
  cases v with
  | arr vs => exact fun _ => ⟨vs, rfl⟩
  | _ => exact fun h => nomatch h

theorem calm_between (v : Val) (lo hi : Int) : Calm (fun b => b = true → isInt v = true) (between v lo hi) := by
  unfold between
  split
  · exact fun h => nomatch h
  · rename_i hint
    have hint : isInt v = true := by
      cases h : isInt v with
      | true => rfl
      | false => exact absurd (.inl (by simp [h])) hint
    obtain ⟨n, hn⟩ := number_of_isInt hint
    rw [hn]
    exact fun _ => hint

theorem calm_keys {vs : List Val} : Calm (fun b => b = true → KeyList (.arr vs))
      (do return (← iter (.arr vs)).all fun k => (multikeyPubValue k).isSome) :=
  fun h => ⟨vs, rfl, List.all_eq_true.mp h⟩

theorem calm_checkPlain (p : Val) (n : Nat) :
    Calm (fun _ => ∃ ms, p = .obj ms ∧ ParamsOk n ms) (checkPlain p n) := by
  unfold checkPlain
  refine (calm_check _ _).bind fun _ hdict => ?_
  obtain ⟨ms, rfl⟩ := isDict_iff.mp hdict
  refine Safe.bind (P := (· = ms)) rfl ?_
  rintro ms rfl
  refine (calm_check _ _).bind fun _ _ => ?_
  refine Safe.ite_bind (P := fun _ => n = 1 → lit "scid" ∈ ms.map (·.1) ∧ lit "updateKeys" ∈ ms.map (·.1)) ?_ ?_
  · split
    · refine (calm_check _ _).mono ?_
      intro _ hall _
      have hmem := List.all_eq_true.mp hall
      exact ⟨of_decide_eq_true (hmem "scid" (by simp)), of_decide_eq_true (hmem "updateKeys" (by simp))⟩
    · refine (calm_check _ _).mono ?_
      intro _ _ hn
      contradiction
  intro _ hnames
  -- one access after the other, each under the checks before it
  refine (calm_given_pure ms "method" _).bind fun _ _ => ?_
  refine (calm_given_pure ms "scid" _).bind fun _ hscid => ?_
  refine (calm_given ms "updateKeys" fun v _ => calm_stringList v).bind fun _ hkeys => ?_
  refine (calm_given ms "nextKeyHashes" fun v _ => calm_stringList v).bind fun _ hhashes => ?_
  refine (calm_given ms "watchers" fun v _ => calm_stringList v).bind fun _ _ => ?_
  refine (calm_given (P := KeyList) ms "updateKeys" fun v hv => ?_).bind fun _ hmultikeys => ?_
  · obtain ⟨vs, rfl⟩ := hkeys v hv
    exact calm_keys
  refine (calm_given_pure ms "portable" _).bind fun _ _ => ?_
  refine (calm_given_pure ms "deactivated" _).bind fun _ _ => ?_
  refine (calm_given ms "ttl" fun v _ => calm_between v 0 _).bind fun _ _ => ?_
  refine Safe.bind (P := fun _ => True) trivial fun _ _ => ?_
  refine (calm_check _ _).mono ?_
  intro _ _
  refine ⟨ms, rfl, ?_, fun hn => exists_lookup (hnames hn).2, hmultikeys, ?_⟩
  · intro hn
    obtain ⟨v, hv⟩ := exists_lookup (hnames hn).1
    obtain ⟨s, hs, hmh⟩ := (Option.any_eq_true _ _).mp (hscid v hv)
    exact ⟨s, by rw [hv, strOf_eq hs], hmh⟩
  · intro v hv
    exact isList_iff.mpr (hhashes v hv)

/-! ## Witnesses -/

/-- What a witness has for an `id`. -/
def idOf : Val → Val
  | .obj ms => (lookup ms "id").getD .null
  | _ => .null

/-- The names of a witness configuration, and no other. -/
def WitnessNames (ms : Members) : Prop :=
  (∀ m ∈ ms, m.1 = lit "threshold" ∨ m.1 = lit "witnesses") ∧
    lit "threshold" ∈ ms.map (·.1) ∧ lit "witnesses" ∈ ms.map (·.1)

/-- A witness configuration that a set cannot be made of: some `id` is a list or a dictionary. -/
def WitnessTrap (w : Val) : Prop :=
  ∃ ms ws, w = .obj ms ∧ WitnessNames ms ∧ lookup ms "witnesses" = some (.arr ws) ∧
    ∃ x ∈ ws, hashKey (idOf x) = none

theorem witnessId_eq (x : Val) : witnessId x = .ok (idOf x) := by
  cases x with
  | obj ms => rfl
  | _ => rfl

theorem witnessIds_cases (ms : Members) :
    (∃ ws, lookup ms "witnesses" = some (.arr ws) ∧ witnessIds (.obj ms) = .ok (ws.map idOf)) ∨
      (∀ ws, lookup ms "witnesses" ≠ some (.arr ws)) ∧ witnessIds (.obj ms) = .ok [] := by
  have hall (ws : List Val) : ws.mapM witnessId = (.ok (ws.map idOf) : Except Stop _) := by
    induction ws with
    | nil => rfl
    | cons x ws ih =>
      rw [List.mapM_cons, witnessId_eq, ih]
      rfl
  unfold witnessIds
  rw [get_eq, get_eq]
  cases h : lookup ms "witnesses" with
  | none => exact .inr ⟨fun ws hws => (by cases hws), rfl⟩
  | some v =>
    cases v with
    | arr ws => exact .inl ⟨ws, rfl, hall ws⟩
    | _ => exact .inr ⟨fun ws hws => (by cases hws), rfl⟩

theorem setOf_cases (vs : List Val) : (∃ keys, setOf vs = .ok keys) ∧ (∀ v ∈ vs, (hashKey v).isSome = true) ∨
      setOf vs = .error .raises ∧ ∃ v ∈ vs, hashKey v = none := by
  have hall : (∃ keys, vs.mapM hashKey = some keys) ∧ (∀ v ∈ vs, (hashKey v).isSome = true) ∨
      vs.mapM hashKey = none ∧ ∃ v ∈ vs, hashKey v = none := by
    induction vs with
    | nil => exact .inl ⟨⟨[], rfl⟩, fun v hv => absurd hv List.not_mem_nil⟩
    | cons v vs ih =>
      rw [List.mapM_cons]
      cases hv : hashKey v with
      | none => exact .inr ⟨rfl, v, List.mem_cons_self, hv⟩
      | some key =>
        rcases ih with ⟨⟨keys, hkeys⟩, hsome⟩ | ⟨hnone, w, hw, hkey⟩
        · refine .inl ⟨⟨key :: keys, ?_⟩, ?_⟩
          · rw [hkeys]
            rfl
          · intro w hw
            rcases List.mem_cons.mp hw with rfl | hw
            · rw [hv]
              rfl
            · exact hsome w hw
        · refine .inr ⟨?_, w, List.mem_cons_of_mem _ hw, hkey⟩
          rw [hnone]
          rfl
  unfold setOf
  rcases hall with ⟨⟨keys, hkeys⟩, hsome⟩ | ⟨hnone, hbad⟩
  · rw [hkeys]
    exact .inl ⟨⟨_, rfl⟩, hsome⟩
  · rw [hnone]
    exact .inr ⟨rfl, hbad⟩

theorem witnessNames_iff {ms : Members} :
    ((ms.map (·.1)).all (· ∈ [lit "threshold", lit "witnesses"]) = true ∧
      lit "threshold" ∈ ms.map (·.1) ∧ lit "witnesses" ∈ ms.map (·.1)) ↔ WitnessNames ms := by
  refine and_congr ?_ Iff.rfl
  simp [List.all_eq_true]

theorem checkWitness_raises {w : Val} (h : WitnessTrap w) : checkWitness w = .error .raises := by
  obtain ⟨ms, ws, rfl, hnames, hws, x, hx, hkey⟩ := h
  have htruthy : truthy (.obj ms) = true := by
    obtain ⟨m, hm, -⟩ := List.mem_map.mp hnames.2.1
    cases ms with
    | nil => exact absurd hm List.not_mem_nil
    | cons => rfl
  have hids : witnessIds (.obj ms) = .ok (ws.map idOf) := by
    rcases witnessIds_cases ms with ⟨ws', hws', hids⟩ | ⟨hnot, -⟩
    · rw [hws] at hws'
      cases hws'
      exact hids
    · exact absurd hws (hnot ws)
  have hne : ws.map idOf ≠ [] := List.ne_nil_of_mem (List.mem_map_of_mem hx)
  have hset : setOf (ws.map idOf) = .error .raises := by
    rcases setOf_cases (ws.map idOf) with ⟨-, hsome⟩ | ⟨hraises, -⟩
    · have hid := hsome (idOf x) (List.mem_map_of_mem hx)
      rw [hkey] at hid
      cases hid
    · exact hraises
  unfold checkWitness
  rw [if_pos htruthy, hids, get_eq]
  show (check _ _ >>= fun _ => check _ _ >>= fun _ => check _ _ >>= fun _ => setOf (ws.map idOf) >>= fun _ => _) = _
  rw [hset, decide_eq_true (witnessNames_iff.mpr hnames), decide_eq_true hne]
  rfl

theorem exists_id {ws : List Val} (h : (ws.map idOf).all isWitnessKey = true) :
    ∀ x ∈ ws, ∃ ms id, x = .obj ms ∧ lookup ms "id" = some (.str id) := by
  intro x hx
  have hkey := List.all_eq_true.mp h (idOf x) (List.mem_map_of_mem hx)
  obtain ⟨id, hstr, -⟩ := (Option.any_eq_true _ _).mp hkey
  have hid := strOf_eq hstr
  cases x with
  | obj ms =>
    cases hfound : lookup ms "id" with
    | none => simp [idOf, hfound] at hid
    | some v =>
      simp only [idOf, hfound, Option.getD_some] at hid
      exact ⟨ms, lit id, rfl, by rw [hfound, hid]⟩
  | _ => simp [idOf] at hid

theorem calm_checkWitness {w : Val} (h : ¬WitnessTrap w) : Calm (fun _ => WitnessOk w) (checkWitness w) := by
  unfold checkWitness
  refine (calm_check _ _).bind fun _ hdict => ?_
  obtain ⟨ms, rfl⟩ := isDict_iff.mp hdict
  cases htruthy : truthy (.obj ms) with
  | false =>
    have hempty : ms = [] := by
      cases ms with
      | nil => rfl
      | cons => cases htruthy
    exact .inl (by rw [hempty])
  | true =>
    rw [if_pos rfl, get_eq]
    have hids : Calm (fun ids => ids ≠ [] → ∃ ws, lookup ms "witnesses" = some (.arr ws) ∧ ids = ws.map idOf)
        (witnessIds (.obj ms)) := by
      rcases witnessIds_cases ms with ⟨ws, hws, hids⟩ | ⟨-, hids⟩
      · rw [hids]
        exact fun _ => ⟨ws, hws, rfl⟩
      · rw [hids]
        exact fun hne => absurd rfl hne
    refine hids.bind fun ids hids => ?_
    refine Safe.bind (P := (· = (lookup ms "threshold").getD .null)) rfl ?_
    rintro threshold rfl
    refine Safe.bind (P := (· = ms)) rfl ?_
    rintro ms rfl
    refine (calm_check _ _).bind fun _ hnames => ?_
    have hnames := witnessNames_iff.mp (of_decide_eq_true hnames)
    refine (calm_check _ _).bind fun _ hne => ?_
    obtain ⟨ws, hws, rfl⟩ := hids (of_decide_eq_true hne)
    refine Safe.bind (P := fun _ => True) ?_ fun keys _ => ?_
    · rcases setOf_cases (ws.map idOf) with ⟨⟨keys, hkeys⟩, -⟩ | ⟨-, id, hid, hkey⟩
      · rw [hkeys]
        trivial
      · obtain ⟨x, hx, rfl⟩ := List.mem_map.mp hid
        exact absurd ⟨ms, ws, rfl, hnames, hws, x, hx, hkey⟩ h
    refine (calm_check _ _).bind fun _ _ => ?_
    refine (calm_check _ _).bind fun _ hall => ?_
    refine (calm_between _ 1 _).bind fun ok hok => ?_
    refine (calm_check _ _).mono ?_
    intro _ hint
    obtain ⟨threshold, hthreshold⟩ := exists_lookup hnames.2.1
    rw [hthreshold] at hok
    exact .inr ⟨ms, ws, threshold, rfl, hws, exists_id hall, hthreshold, hok hint⟩

/-! ## All parameters -/

/-- Parameters whose `witness` a set cannot be made of. -/
def ParamsTrap (p : Val) : Prop := ∃ ms w, p = .obj ms ∧ lookup ms "witness" = some w ∧ WitnessTrap w

theorem checkParams_raises {p : Val} {n : Nat} (hplain : checkPlain p n = .ok ()) (h : ParamsTrap p) :
    checkParams p n = .error .raises := by
  obtain ⟨ms, w, rfl, hw, htrap⟩ := h
  have hmem : lit "witness" ∈ ms.map (·.1) := List.mem_map_of_mem (lookup_mem hw)
  unfold checkParams
  rw [hplain]
  show (if lit "witness" ∈ ms.map (·.1) then item (.obj ms) "witness" >>= checkWitness else pure ()) = _
  rw [if_pos hmem, item_eq hw]
  exact checkWitness_raises htrap

theorem calm_checkParams {p : Val} {n : Nat} (h : ¬(checkPlain p n = .ok () ∧ ParamsTrap p)) :
    Calm (fun _ => ∃ ms, p = .obj ms ∧ ParamsOk n ms ∧ ∀ w, lookup ms "witness" = some w → WitnessOk w)
      (checkParams p n) := by
  unfold checkParams
  cases hplain : checkPlain p n with
  | error e =>
    intro he
    have hcalm := calm_checkPlain p n
    rw [hplain] at hcalm
    exact hcalm he
  | ok u =>
    obtain ⟨ms, rfl, hparams⟩ := (calm_checkPlain p n).value hplain
    show Calm _ (if lit "witness" ∈ ms.map (·.1) then item (.obj ms) "witness" >>= checkWitness else pure ())
    split
    · rename_i hmem
      obtain ⟨w, hw⟩ := exists_lookup hmem
      rw [item_eq hw]
      have htrap : ¬WitnessTrap w := fun htrap => h ⟨hplain, ms, w, rfl, hw, htrap⟩
      refine (calm_checkWitness htrap).mono ?_
      intro _ hok
      refine ⟨ms, rfl, hparams, ?_⟩
      intro w' hw'
      rw [hw] at hw'
      cases hw'
      exact hok
    · rename_i hnot
      refine ⟨ms, rfl, hparams, ?_⟩
      intro w hw
      exact absurd (List.mem_map_of_mem (lookup_mem hw)) hnot

/-! ## What is in force -/

/-- What the steps after the parameters rely on of those in force. -/
structure ActiveOk (active : Members) : Prop where
  updateKeys : ∃ v, lookup active "updateKeys" = some v ∧ KeyList v
  nextKeyHashes : ∃ v, lookup active "nextKeyHashes" = some v ∧ isList v = true
  witness : ∃ v, lookup active "witness" = some v ∧ WitnessOk v
  portable : ∃ v, lookup active "portable" = some v
  deactivated : ∃ v, lookup active "deactivated" = some v
  ttl : ∃ v, lookup active "ttl" = some v

section Update

variable {active ms : Members} {n : Nat}

theorem update_has {name : String} (hnodup : (ms.map (·.1)).Nodup) (h : ∃ v, lookup active name = some v) :
    ∃ v, lookup (update active ms) name = some v := by
  obtain ⟨v, hv⟩ := h
  obtain ⟨w, hw, -⟩ := update_keeps (Q := fun _ => True) hnodup (fun _ _ => trivial) (.inr ⟨v, hv, trivial⟩)
  exact ⟨w, hw⟩

theorem activeOk_update (hnodup : (ms.map (·.1)).Nodup) (hms : ParamsOk n ms)
    (hwitness : ∀ w, lookup ms "witness" = some w → WitnessOk w) (h : ActiveOk active) :
    ActiveOk (update active ms) where
  updateKeys := update_keeps hnodup hms.updateKeys (.inr h.updateKeys)
  nextKeyHashes := update_keeps hnodup hms.nextKeyHashes (.inr h.nextKeyHashes)
  witness := update_keeps hnodup hwitness (.inr h.witness)
  portable := update_has hnodup h.portable
  deactivated := update_has hnodup h.deactivated
  ttl := update_has hnodup h.ttl

theorem activeOk_defaults (hnodup : (ms.map (·.1)).Nodup) (hms : ParamsOk 1 ms)
    (hwitness : ∀ w, lookup ms "witness" = some w → WitnessOk w) : ActiveOk (update defaults ms) where
  updateKeys := update_keeps hnodup hms.updateKeys (.inl (hms.first rfl))
  nextKeyHashes := update_keeps hnodup hms.nextKeyHashes (.inr ⟨.arr [], rfl, rfl⟩)
  witness := update_keeps hnodup hwitness (.inr ⟨.obj [], rfl, .inl rfl⟩)
  portable := update_has hnodup ⟨.bool false, rfl⟩
  deactivated := update_has hnodup ⟨.bool false, rfl⟩
  ttl := update_has hnodup ⟨.int 3600, rfl⟩

end Update

end Host

end Dsip.Webvh
