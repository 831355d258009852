import Dsip.Webvh.GuardedParams

/-!
# One entry of a log

Reading a line raises where the number of its `versionId` is longer than `int` reads, and where
its `witness` parameter is a trap (`LineTrap`); each other access is guarded (`calm_readLine`).
-/

namespace Dsip.Webvh

open Dsip.Lib

namespace Host

open IJson (Good)

/-! ## The entry -/

structure IsEntry (ms : Members) : Prop where
  good : Good (.obj ms)
  versionId : ∃ s, lookup ms "versionId" = some (.str s)
  versionTime : ∃ v, lookup ms "versionTime" = some v
  parameters : ∃ v, lookup ms "parameters" = some v
  state : ∃ st, lookup ms "state" = some (.obj st)
  proof : ∃ prs, lookup ms "proof" = some (.arr prs)

variable {ms : Members}

theorem calm_item {name : String} {v : Val} (h : lookup ms name = some v) :
    Calm (· = v) (item (.obj ms) name) := by
  rw [item_eq h]
  exact rfl

theorem calm_readEntry (line : PyStr) : Calm (fun e => ∃ ms, e = .obj ms ∧ IsEntry ms) (readEntry line) := by
  unfold readEntry
  refine (calm_require _ _).bind fun e he => ?_
  have hgood : Good e := (IJson.ijson_eq.mp he).2
  refine (calm_check _ _).bind fun _ hdict => ?_
  obtain ⟨ms, rfl⟩ := isDict_iff.mp hdict
  refine Safe.bind (P := (· = ms)) rfl ?_
  rintro ms rfl
  refine (calm_check _ _).bind fun _ hnames => ?_
  have hhas (name : String) (hname : lit name ∈ entryKeys) : ∃ v, lookup ms name = some v :=
    exists_lookup (of_decide_eq_true (List.all_eq_true.mp (of_decide_eq_true hnames).2 _ hname))
  obtain ⟨state, hstate⟩ := hhas "state" (by decide)
  obtain ⟨proof, hproof⟩ := hhas "proof" (by decide)
  obtain ⟨vid, hvid⟩ := hhas "versionId" (by decide)
  refine (calm_item hstate).bind ?_
  rintro state rfl
  refine (calm_check _ _).bind fun _ hdict => ?_
  refine (calm_item hproof).bind ?_
  rintro proof rfl
  refine (calm_check _ _).bind fun _ hlist => ?_
  refine (calm_item hproof).bind fun _ _ => ?_
  refine (calm_check _ _).bind fun _ _ => ?_
  refine (calm_item hvid).bind ?_
  rintro vid rfl
  refine (calm_check _ _).bind fun _ hstr => ?_
  obtain ⟨st, rfl⟩ := isDict_iff.mp hdict
  obtain ⟨prs, rfl⟩ := isList_iff.mp hlist
  obtain ⟨s, rfl⟩ := isStr_iff.mp hstr
  exact ⟨ms, rfl, hgood, ⟨s, hvid⟩, hhas "versionTime" (by decide), hhas "parameters" (by decide), ⟨st, hstate⟩,
    ⟨prs, hproof⟩⟩

/-! ## Its number and time -/

/-- A text of the form of a `versionId` whose number is longer than `int` reads. -/
def LongNumber (fits : PyStr → Bool) (v : Val) : Prop :=
  ∃ s digits rest, v = .str s ∧ numberOf s = some (digits, rest) ∧ fits rest = true ∧ maxDigits < digits.length

/-- What follows the number of an entry. -/
def isHash (rest : PyStr) : Bool := (textOf rest).any isBase58

theorem intOf_cases (digits : List Char) :
    (∃ k, intOf digits = .ok k) ∧ ¬maxDigits < digits.length ∨ intOf digits = .error .raises ∧ maxDigits < digits.length := by
  unfold intOf
  by_cases h : digits.length ≤ maxDigits
  · rw [if_pos h]
    exact .inl ⟨⟨_, rfl⟩, by omega⟩
  · rw [if_neg h]
    exact .inr ⟨rfl, by omega⟩

theorem isHash_iff {rest : PyStr} : isHash rest = true ↔ ∃ hash, (textOf rest).filter isBase58 = some hash := by
  unfold isHash
  cases textOf rest with
  | none => simp
  | some cs =>
    rw [Option.any_some, Option.filter_some]
    by_cases h : isBase58 cs = true
    · simp [h]
    · simp [h]

theorem checkVersion_raises {n : Nat} {v : Val} (hv : lookup ms "versionId" = some v)
    (h : LongNumber isHash v) : checkVersion n (.obj ms) = .error .raises := by
  obtain ⟨s, digits, rest, rfl, hnumber, hfits, hlong⟩ := h
  obtain ⟨hash, hhash⟩ := isHash_iff.mp hfits
  unfold checkVersion
  rw [item_eq hv]
  show (require ((numberOf s).bind fun r => ((textOf r.2).filter isBase58).map (r.1, ·)) "version-number" >>= _) = _
  rw [hnumber, Option.bind_some, hhash]
  show (intOf digits >>= _) = _
  rcases intOf_cases digits with ⟨-, hshort⟩ | ⟨hraises, -⟩
  · exact absurd hlong hshort
  · rw [hraises]
    rfl

theorem calm_checkVersion {n : Nat} {s : PyStr} (hs : lookup ms "versionId" = some (.str s))
    (h : ¬LongNumber isHash (.str s)) : Calm (fun _ => True) (checkVersion n (.obj ms)) := by
  unfold checkVersion
  refine (calm_item hs).bind ?_
  rintro _ rfl
  refine Safe.bind (P := (· = s)) rfl ?_
  rintro s rfl
  refine (calm_require _ _).bind ?_
  rintro ⟨digits, hash⟩ hparts
  obtain ⟨⟨digits', rest⟩, hnumber, hfound⟩ := Option.bind_eq_some_iff.mp hparts
  obtain ⟨hash', hhash, heq⟩ := Option.map_eq_some_iff.mp hfound
  obtain ⟨rfl, rfl⟩ := Prod.mk.inj heq
  refine Safe.bind (P := fun _ => True) ?_ fun k _ => ?_
  · rcases intOf_cases digits' with ⟨⟨k, hk⟩, -⟩ | ⟨-, hlong⟩
    · rw [hk]
      trivial
    · exact absurd ⟨s, digits', rest, rfl, hnumber, isHash_iff.mpr ⟨_, hhash⟩, hlong⟩ h
  refine (calm_check _ _).bind fun _ _ => ?_
  refine (calm_check _ _).bind fun _ _ => ?_
  exact calm_pure trivial

theorem calm_checkTime {now : Int} {prev : Option Int} (h : ∃ v, lookup ms "versionTime" = some v) :
    Calm (fun _ => True) (checkTime now prev (.obj ms)) := by
  obtain ⟨v, hv⟩ := h
  unfold checkTime
  refine (calm_item hv).bind fun _ _ => ?_
  refine (calm_require _ _).bind fun _ _ => ?_
  refine (calm_check _ _).bind fun _ _ => ?_
  refine (calm_check _ _).bind fun _ _ => ?_
  exact calm_pure trivial

/-! ## The SCID, the keys and the proofs -/

section Checks

variable (c : Crypto)

theorem calm_canonical {v : Val} (h : Good v) : Calm (fun _ => True) (canonical v) := by
  obtain ⟨data, hdata⟩ := canonical_eq h
  rw [hdata]
  trivial

theorem calm_checkScid {s : String} (hms : Good (.obj ms)) (hs : isMh s = true) :
    Calm (fun _ => True) (checkScid c (.str (lit s)) (.obj ms)) := by
  have hpre := good_setItem (good_without hms "proof") (good_lit "\x7bSCID\x7d") "versionId"
  obtain ⟨text, w, data, htext, hw, hdata⟩ := scid_reads hpre hs
  unfold checkScid
  refine Safe.bind (P := (· = ms)) rfl ?_
  rintro ms rfl
  refine Safe.bind (P := (· = lit s)) rfl ?_
  rintro _ rfl
  rw [htext]
  dsimp only
  rw [hw]
  refine Safe.bind (P := fun _ => True) ?_ fun _ _ => ?_
  · unfold canonical
    rw [hdata]
    trivial
  · exact (calm_check _ _).mono fun _ _ => trivial

theorem calm_keys_of {name : String} (h : ∃ v, lookup ms name = some v ∧ KeyList v) :
    Calm (fun keys => ∀ k ∈ keys, (multikeyPubValue k).isSome = true) (item (.obj ms) name >>= iter) := by
  obtain ⟨v, hv, keys, rfl, hkeys⟩ := h
  rw [item_eq hv]
  exact hkeys

theorem calm_checkKeys {first : Bool} {prev : Members} (hkeys : ∀ v, lookup ms "updateKeys" = some v → KeyList v)
    (hfirst : first = true → ∃ v, lookup ms "updateKeys" = some v) (hprev : first = false → ActiveOk prev) :
    Calm (fun keys => ∀ k ∈ keys, (multikeyPubValue k).isSome = true) (checkKeys c first prev (.obj ms)) := by
  have hnew (hhas : ∃ v, lookup ms "updateKeys" = some v) : ∃ v, lookup ms "updateKeys" = some v ∧ KeyList v := by
    obtain ⟨v, hv⟩ := hhas
    exact ⟨v, hv, hkeys v hv⟩
  unfold checkKeys
  refine Safe.bind (P := (· = ms)) rfl ?_
  rintro ms rfl
  cases first with
  | true => exact calm_keys_of (hnew (hfirst rfl))
  | false =>
    obtain ⟨hprevKeys, ⟨hashes, hhashes, hlist⟩, -, -, -, -⟩ := hprev rfl
    show Calm _ (if truthy ((lookup prev "nextKeyHashes").getD .null) = true then _ else _)
    split
    · -- pre-rotation: the new keys are hashed, so each has to be a string without surrogates
      refine (calm_check _ _).bind fun _ hnames => ?_
      have hnew := hnew (exists_lookup (of_decide_eq_true hnames).1)
      obtain ⟨vs, rfl⟩ := isList_iff.mp hlist
      refine (calm_item hhashes).bind ?_
      rintro _ rfl
      refine Safe.bind (P := (· = vs)) rfl fun _ _ => ?_
      have hitems := calm_keys_of hnew
      obtain ⟨v, hv, keys, rfl, hmultikeys⟩ := hnew
      refine (calm_item hv).bind ?_
      rintro _ rfl
      refine Safe.bind (P := (· = keys)) rfl ?_
      rintro keys rfl
      refine Safe.bind (P := fun _ => True) (Safe.allM ?_) fun _ _ => ?_
      · intro k hk
        obtain ⟨pub, hpub⟩ := Option.isSome_iff_exists.mp (hmultikeys k hk)
        obtain ⟨mk, hmk, -⟩ := Option.bind_eq_some_iff.mp hpub
        obtain ⟨data, hdata⟩ := encode_lit mk
        rw [strOf_eq hmk]
        refine Safe.bind (P := (· = lit mk)) rfl ?_
        rintro _ rfl
        rw [hdata]
        trivial
      · exact (calm_check _ _).bind fun _ _ => hitems
    · exact calm_keys_of hprevKeys

theorem calm_checkProof {document pr : Val} {keys : List Val} (hdoc : Good document) (hpr : Good pr)
    (hkeys : ∀ k ∈ keys, (multikeyPubValue k).isSome = true) (authorized : Bool) :
    Calm (fun _ => True) (checkProof c document keys authorized pr) := by
  obtain ⟨found, hfound⟩ := proofKey_eq pr
  unfold checkProof
  rw [hfound]
  refine Safe.bind (P := (· = found)) rfl fun _ _ => ?_
  refine (calm_require _ _).bind fun mk _ => ?_
  split
  · rename_i hamong
    obtain ⟨k, hk, hsame⟩ := List.any_eq_true.mp hamong
    obtain ⟨s, hs, rfl⟩ := equals_iff.mp hsame
    cases hs
    have hpub : (multikeyPub mk).isSome = true := by
      have hkey := hkeys _ hk
      unfold multikeyPubValue at hkey
      rwa [strOf_lit] at hkey
    refine Safe.bind (P := fun _ => True) ?_ fun _ _ => ?_
    · rcases proofOk_cases c hdoc hpr (multikeyPub mk) with ⟨⟨ok, hok⟩, -⟩ | ⟨-, -, hnone⟩
      · rw [hok]
        trivial
      · rw [hnone] at hpub
        cases hpub
    · exact (calm_check _ _).bind fun _ _ => calm_pure trivial
  · exact calm_pure trivial

end Checks

theorem calm_checkIdentity (st : State) {active : Members} (scid : Val)
    (hstate : ∃ state, lookup ms "state" = some (.obj state)) (hportable : ∃ v, lookup active "portable" = some v) :
    Calm (fun _ => ∃ state v, lookup ms "state" = some (.obj state) ∧ lookup state "id" = some v)
      (checkIdentity st active scid (.obj ms)) := by
  obtain ⟨state, hstate⟩ := hstate
  obtain ⟨portable, hportable⟩ := hportable
  unfold checkIdentity
  refine (calm_item hstate).bind ?_
  rintro _ rfl
  rw [get_eq]
  refine Safe.bind (P := (· = (lookup state "id").getD .null)) rfl ?_
  rintro sid rfl
  refine (calm_require _ _).bind fun sidScid hsid => ?_
  have hid : ∃ v, lookup state "id" = some v := by
    cases h : lookup state "id" with
    | none =>
      rw [h] at hsid
      cases hsid
    | some v => exact ⟨v, rfl⟩
  obtain ⟨id, hid⟩ := hid
  refine (calm_check _ _).bind fun _ _ => ?_
  split
  · rw [get_eq]
    refine Safe.bind (P := (· = (lookup state "alsoKnownAs").getD (.arr []))) rfl ?_
    rintro aka rfl
    refine (calm_item hportable).bind fun _ _ => ?_
    refine (calm_check _ _).bind fun _ _ => ?_
    refine (calm_check _ _).bind fun _ hlist => ?_
    obtain ⟨vs, hvs⟩ := isList_iff.mp hlist
    rw [hvs]
    refine Safe.bind (P := (· = vs)) rfl fun _ _ => ?_
    refine (calm_check _ _).bind fun _ _ => ?_
    exact calm_pure ⟨state, id, hstate, hid⟩
  · exact calm_pure ⟨state, id, hstate, hid⟩

/-! ## What the entries so far leave -/

/-- An entry that the checks let through. -/
def IsAccepted (e : Val) : Prop :=
  ∃ ms state id, e = .obj ms ∧ IsEntry ms ∧ lookup ms "state" = some (.obj state) ∧ lookup state "id" = some id

structure StateOk (st : State) : Prop where
  entries : ∀ e ∈ st.entries, IsAccepted e
  active : st.entries ≠ [] → ActiveOk st.active
  prevVid : Good st.prevVid
  scid : Good st.scid
  due : ∀ d ∈ st.due, WitnessOk d.2 ∧ truthy d.2 = true

theorem stateOk_init : StateOk .init where
  entries := fun _ he => absurd he List.not_mem_nil
  active := fun h => absurd rfl h
  prevVid := trivial
  scid := trivial
  due := fun _ hd => absurd hd List.not_mem_nil

section Checks

variable (c : Crypto)

theorem calm_accept {st : State} {pms : Members} (hst : StateOk st) (hms : IsEntry ms)
    (hp : lookup ms "parameters" = some (.obj pms)) (hparams : ParamsOk (st.entries.length + 1) pms)
    (hwitness : ∀ w, lookup pms "witness" = some w → WitnessOk w) (hash : String) (t : Int) :
    Calm (fun st' => StateOk st' ∧ st'.entries ≠ []) (accept c st (.obj ms) (.obj pms) hash t) := by
  have hnodup : (pms.map (·.1)).Nodup := (good_member hms.good hp).1
  have hactive : ActiveOk (update (if st.entries.isEmpty = true then defaults else st.active) pms) := by
    split
    · rename_i hfirst
      rw [List.isEmpty_iff.mp hfirst] at hparams
      exact activeOk_defaults hnodup hparams hwitness
    · rename_i hfirst
      exact activeOk_update hnodup hparams hwitness (hst.active fun h => hfirst (by simp [h]))
  have hone (hfirst : st.entries.isEmpty = true) : st.entries.length + 1 = 1 := by
    rw [List.isEmpty_iff.mp hfirst]
    rfl
  obtain ⟨prs, hprs⟩ := hms.proof
  obtain ⟨vid, hvid⟩ := hms.versionId
  obtain ⟨w, hw, hwOk⟩ := hactive.witness
  unfold accept
  refine Safe.bind (P := (· = pms)) rfl ?_
  rintro pms rfl
  refine Safe.ite_bind
    (P := fun v => Good v ∧ (st.entries.isEmpty = true → ∃ s, v = .str (lit s) ∧ isMh s = true)) ?_ ?_
  · split
    · rename_i hfirst
      obtain ⟨s, hs, hmh⟩ := hparams.scid (hone hfirst)
      rw [item_eq hs]
      exact ⟨good_lit s, fun _ => ⟨s, rfl, hmh⟩⟩
    · rename_i hfirst
      exact ⟨hst.scid, fun h => absurd h hfirst⟩
  rintro scid ⟨hscid, hmh⟩
  refine Safe.when_bind ?_ ?_
  · intro hfirst
    obtain ⟨s, rfl, hs⟩ := hmh hfirst
    exact calm_checkScid c hms.good hs
  refine Safe.bind (P := (· = ms)) rfl ?_
  rintro ms rfl
  have hdoc := good_without hms.good "proof"
  have hlink : Good (if st.entries.isEmpty = true then scid else st.prevVid) := by
    split
    · exact hscid
    · exact hst.prevVid
  refine (calm_canonical (good_setItem hdoc hlink "versionId")).bind fun data _ => ?_
  refine (calm_check _ _).bind fun _ _ => ?_
  refine (calm_checkKeys c hparams.updateKeys (fun hfirst => hparams.first (hone hfirst)) ?_).bind fun keys hkeys => ?_
  · intro hnot
    exact hst.active fun h => by simp [h] at hnot
  refine (calm_item hprs).bind ?_
  rintro _ rfl
  refine Safe.bind (P := (· = prs)) rfl ?_
  rintro prs rfl
  refine Safe.bind (P := fun _ => True) (Safe.foldlM ?_ trivial) fun authorized _ => ?_
  · intro pr hpr authorized _
    exact calm_checkProof c hdoc (good_item (good_member hms.good hprs) hpr) hkeys authorized
  refine (calm_check _ _).bind fun _ _ => ?_
  refine (calm_checkIdentity st scid hms.state hactive.portable).bind fun sid hstate => ?_
  refine Safe.ite_bind (P := WitnessOk) ?_ ?_
  · split
    · rw [item_eq hw]
      exact hwOk
    · rename_i hfirst
      have hne : st.entries ≠ [] := fun h => hfirst (.inl (by simp [h]))
      obtain ⟨w', hw', hw'Ok⟩ := (hst.active hne).witness
      rw [item_eq hw']
      exact hw'Ok
  intro config hconfig
  refine (calm_item hvid).bind ?_
  rintro _ rfl
  obtain ⟨state, id, hstate, hid⟩ := hstate
  have hnonempty : st.entries ++ [.obj ms] ≠ [] := by simp
  refine calm_pure ⟨⟨?_, fun _ => hactive, good_member hms.good hvid, hscid, ?_⟩, hnonempty⟩
  · intro e he
    rcases List.mem_append.mp he with he | he
    · exact hst.entries e he
    · rw [List.mem_singleton.mp he]
      exact ⟨ms, state, id, rfl, hms, hstate, hid⟩
  · intro d hd
    dsimp only at hd
    split at hd
    · rename_i htruthy
      rcases List.mem_append.mp hd with hd | hd
      · exact hst.due d hd
      · rw [List.mem_singleton.mp hd]
        exact ⟨hconfig, htruthy⟩
    · exact hst.due d hd

end Checks

/-! ## A line -/

/-- An entry whose parameters are looked at in the state `st`, and a set cannot be made of its witnesses. -/
def WitnessLine (now : Int) (st : State) (ms : Members) : Prop :=
  ∃ hash t p, checkVersion (st.entries.length + 1) (.obj ms) = .ok hash ∧
    checkTime now st.prevTime (.obj ms) = .ok t ∧ lookup ms "parameters" = some p ∧
    ¬(st.entries ≠ [] ∧ truthy ((lookup st.active "deactivated").getD .null) = true) ∧
    checkPlain p (st.entries.length + 1) = .ok () ∧ ParamsTrap p

/-- A line that raises in the state `st`. -/
def LineTrap (now : Int) (st : State) (line : PyStr) : Prop :=
  ∃ ms, readEntry line = .ok (.obj ms) ∧
    ((∃ v, lookup ms "versionId" = some v ∧ LongNumber isHash v) ∨ WitnessLine now st ms)

section Lines

variable (c : Crypto) {now : Int} {st : State} {line : PyStr}

theorem active_iff :
    (!(decide (1 < st.entries.length + 1) && truthy ((lookup st.active "deactivated").getD .null))) = true ↔
      ¬(st.entries ≠ [] ∧ truthy ((lookup st.active "deactivated").getD .null) = true) := by
  rw [← List.length_pos_iff, not_and]
  cases truthy ((lookup st.active "deactivated").getD .null) with
  | true => simp
  | false => simp

theorem readLine_raises (h : LineTrap now st line) : readLine c now st line = .error .raises := by
  obtain ⟨ms, hentry, htrap⟩ := h
  unfold readLine
  rw [hentry]
  rcases htrap with ⟨v, hv, hlong⟩ | ⟨hash, t, p, hversion, htime, hp, hactive, hplain, htrap⟩
  · show (checkVersion (st.entries.length + 1) (.obj ms) >>= _) = _
    rw [checkVersion_raises hv hlong]
    rfl
  · show (checkVersion (st.entries.length + 1) (.obj ms) >>= _) = _
    rw [hversion]
    show (checkTime now st.prevTime (.obj ms) >>= _) = _
    rw [htime]
    show (item (.obj ms) "parameters" >>= _) = _
    rw [item_eq hp]
    show (check (!(decide (1 < st.entries.length + 1) && truthy ((lookup st.active "deactivated").getD .null)))
      "after-deactivation" >>= fun _ => checkParams p (st.entries.length + 1) >>= _) = _
    rw [active_iff.mpr hactive, checkParams_raises hplain htrap]
    rfl

theorem calm_readLine (hst : StateOk st) (h : ¬LineTrap now st line) :
    Calm (fun st' => StateOk st' ∧ st'.entries ≠ []) (readLine c now st line) := by
  unfold readLine
  refine (safe_of_not_fails (calm_readEntry line).not_fails).bind fun e hentry => ?_
  obtain ⟨ms, rfl, hms⟩ := (calm_readEntry line).value hentry
  obtain ⟨vid, hvid⟩ := hms.versionId
  obtain ⟨p, hp⟩ := hms.parameters
  have hshort : ¬LongNumber isHash (.str vid) := fun hlong => h ⟨ms, hentry, .inl ⟨_, hvid, hlong⟩⟩
  have hversion := calm_checkVersion (n := st.entries.length + 1) hvid hshort
  have htime : Calm (fun _ => True) (checkTime now st.prevTime (.obj ms)) := calm_checkTime hms.versionTime
  refine (safe_of_not_fails hversion.not_fails).bind fun hash hhash => ?_
  refine (safe_of_not_fails htime.not_fails).bind fun t ht => ?_
  refine (calm_item hp).bind ?_
  rintro p rfl
  rw [get_eq]
  refine Safe.bind (P := (· = (lookup st.active "deactivated").getD .null)) rfl ?_
  rintro deactivated rfl
  refine (calm_check _ _).bind fun _ hactive => ?_
  have hnot : ¬(checkPlain p (st.entries.length + 1) = .ok () ∧ ParamsTrap p) := fun ⟨hplain, htrap⟩ =>
    h ⟨ms, hentry, .inr ⟨hash, t, p, hhash, ht, hp, active_iff.mp hactive, hplain, htrap⟩⟩
  refine (calm_checkParams hnot).bind ?_
  rintro - ⟨pms, rfl, hparams, hwitness⟩
  exact calm_accept c hst hms hp hparams hwitness hash t

theorem readLine_keeps {st' : State} (hst : StateOk st) (h : readLine c now st line = .ok st') :
    StateOk st' ∧ st'.entries ≠ [] := by
  have hnot : ¬LineTrap now st line := by
    intro htrap
    rw [readLine_raises c htrap] at h
    cases h
  exact (calm_readLine c hst hnot).value h

end Lines

end Host

end Dsip.Webvh
