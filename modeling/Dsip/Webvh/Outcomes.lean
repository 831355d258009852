import Dsip.Webvh.GuardedEntry

/-!
# Where a resolution raises

Four values get past every check to an access that raises on them: a number of a `versionId`, in
an entry or in the cache, that is longer than `int` reads; a witness whose `id` has no hash; and
in the witness file a proof in due form of a key that is no Ed25519 key. There is no other
(`resolve_raises_iff`).
-/

namespace Dsip.Webvh

open Dsip.Lib

namespace Host

open IJson (Good)

/-! ## The witness file -/

/-- A proof whose signature is looked at with a key that is none. -/
def ProofTrap (pr : Val) : Prop := ∃ mk, proofKey pr = .ok (some mk) ∧ hasForm pr = true ∧ multikeyPub mk = none

/-- A witness record of one of the versions, with such a proof. -/
def RecordTrap (vids : List Val) (r : Val) : Prop :=
  ∃ ms vid prs pr, r = .obj ms ∧ lookup ms "versionId" = some vid ∧ among vid vids = true ∧
    lookup ms "proof" = some (.arr prs) ∧ pr ∈ prs ∧ ProofTrap pr

/-- A witness file that is read, because the log has witnesses, and has such a record. -/
def WitnessFileTrap (st : State) (witness : Option PyStr) : Prop :=
  st.due ≠ [] ∧ ∃ text records vids, witness = some text ∧ IJson.ijson text = some (.arr records) ∧
    st.entries.mapM (item · "versionId") = .ok vids ∧ ∃ r ∈ records, RecordTrap vids r

section Checks

variable (c : Crypto)

theorem approve_cases {vid pr : Val} (hvid : Good vid) (hpr : Good pr) (j : Nat) (approvals : List (Nat × String)) :
    (∃ more, approve c vid j approvals pr = .ok more) ∧ ¬ProofTrap pr ∨
      approve c vid j approvals pr = .error .raises ∧ ProofTrap pr := by
  obtain ⟨found, hfound⟩ := proofKey_eq pr
  unfold approve
  rw [hfound]
  cases found with
  | none =>
    refine .inl ⟨⟨approvals, rfl⟩, ?_⟩
    rintro ⟨mk, hmk, -⟩
    rw [hfound] at hmk
    cases hmk
  | some mk =>
    have hdoc : Good (.obj [(lit "versionId", vid)]) := by
      refine ⟨List.nodup_singleton _, goodMembers_forall.mpr fun m hm => ?_⟩
      rw [List.mem_singleton.mp hm]
      exact ⟨⟨_, rfl⟩, hvid⟩
    show (∃ more, (proofOk c _ pr (multikeyPub mk) >>= _) = .ok more) ∧ _ ∨ (proofOk c _ pr (multikeyPub mk) >>= _) = _ ∧ _
    rcases proofOk_cases c hdoc hpr (multikeyPub mk) with ⟨⟨ok, hok⟩, hsafe⟩ | ⟨hraises, hform, hnone⟩
    · rw [hok]
      refine .inl ⟨?_, ?_⟩
      · cases ok with
        | true => exact ⟨_, rfl⟩
        | false => exact ⟨_, rfl⟩
      · rintro ⟨mk', hmk', hform, hnone⟩
        rw [hfound] at hmk'
        cases hmk'
        rcases hsafe with hnot | hsome
        · rw [hform] at hnot
          cases hnot
        · rw [hnone] at hsome
          cases hsome
    · rw [hraises]
      exact .inr ⟨rfl, mk, hfound, hform, hnone⟩

theorem record_eq {vids : List Val} {ms : Members} {vid : Val} (hvid : lookup ms "versionId" = some vid)
    (hamong : among vid vids = true) (approvals : List (Nat × String)) :
    ∃ j prs, record c vids approvals (.obj ms) = prs.foldlM (approve c vid j) approvals ∧
      ((∃ vs, lookup ms "proof" = some (.arr vs) ∧ prs = vs) ∨ (∀ vs, lookup ms "proof" ≠ some (.arr vs)) ∧ prs = []) := by
  obtain ⟨j, hj⟩ : ∃ j, vids.findIdx? (equals vid ·) = some j := by
    refine Option.isSome_iff_exists.mp ?_
    rw [List.findIdx?_isSome]
    exact hamong
  refine ⟨j, ?_⟩
  unfold record
  rw [get_eq, hvid, item_eq hvid]
  show ∃ prs, (if (!among vid vids) = true then _ else _) = _ ∧ _
  rw [hamong, get_eq, get_eq]
  simp only [bind, Except.bind, hj]
  cases h : lookup ms "proof" with
  | none => exact ⟨[], rfl, .inr ⟨fun vs hvs => (by cases hvs), rfl⟩⟩
  | some v =>
    cases v with
    | arr vs => exact ⟨vs, rfl, .inl ⟨vs, rfl, rfl⟩⟩
    | _ => exact ⟨[], rfl, .inr ⟨fun vs hvs => (by cases hvs), rfl⟩⟩

theorem record_cases {vids : List Val} {r : Val} (hr : Good r) (approvals : List (Nat × String)) :
    (∃ more, record c vids approvals r = .ok more) ∧ ¬RecordTrap vids r ∨
      record c vids approvals r = .error .raises ∧ RecordTrap vids r := by
  have hskip (h : record c vids approvals r = .ok approvals) (hnot : ¬RecordTrap vids r) :
      (∃ more, record c vids approvals r = .ok more) ∧ ¬RecordTrap vids r ∨
        record c vids approvals r = .error .raises ∧ RecordTrap vids r := .inl ⟨⟨approvals, h⟩, hnot⟩
  cases r with
  | obj ms =>
    cases hvid : lookup ms "versionId" with
    | none =>
      refine hskip ?_ ?_
      · have hnull : among .null vids = false := by simp [among, equals]
        unfold record
        rw [get_eq, hvid]
        show (if (!among .null vids) = true then _ else _) = _
        rw [hnull]
        rfl
      · rintro ⟨ms', vid, prs, pr, ⟨⟩, hvid', -⟩
        rw [hvid] at hvid'
        cases hvid'
    | some vid =>
      cases hamong : among vid vids with
      | false =>
        refine hskip ?_ ?_
        · unfold record
          rw [get_eq, hvid]
          show (if (!among vid vids) = true then _ else _) = _
          rw [hamong]
          rfl
        · rintro ⟨ms', vid', prs, pr, ⟨⟩, hvid', hamong', -⟩
          rw [hvid] at hvid'
          cases hvid'
          rw [hamong] at hamong'
          cases hamong'
      | true =>
        obtain ⟨j, prs, hrecord, hprs⟩ := record_eq c hvid hamong approvals
        rw [hrecord]
        rcases hprs with ⟨vs, hvs, rfl⟩ | ⟨hnot, rfl⟩
        · have hgood := good_member hr hvs
          rcases foldlM_cases (T := ProofTrap) (fun pr hpr more =>
              approve_cases c (good_member hr hvid) (good_item hgood hpr) j more) approvals with
            ⟨hok, hnone⟩ | ⟨hraises, pr, hpr, htrap⟩
          · refine .inl ⟨hok, ?_⟩
            rintro ⟨ms', vid', prs', pr, ⟨⟩, -, -, hprs', hpr, htrap⟩
            rw [hvs] at hprs'
            cases hprs'
            exact hnone pr hpr htrap
          · exact .inr ⟨hraises, ms, vid, prs, pr, rfl, hvid, hamong, hvs, hpr, htrap⟩
        · refine .inl ⟨⟨approvals, rfl⟩, ?_⟩
          rintro ⟨ms', vid', prs', pr, ⟨⟩, -, -, hprs', -⟩
          exact hnot prs' hprs'
  | _ =>
    refine hskip rfl ?_
    rintro ⟨ms, vid, prs, pr, hms, -⟩
    cases hms

theorem calm_enough {config : Val} (hconfig : WitnessOk config) (htruthy : truthy config = true)
    (approvals : List (Nat × String)) (i : Nat) : Calm (fun _ => True) (enough approvals i config) := by
  rcases hconfig with rfl | ⟨ms, ws, threshold, rfl, hws, hids, hthreshold, hint⟩
  · cases htruthy
  · unfold enough
    refine (calm_item hws).bind ?_
    rintro _ rfl
    refine Safe.bind (P := (· = ws)) rfl ?_
    rintro ws rfl
    refine Safe.bind (P := fun ids => ∀ id ∈ ids, ∃ s, id = .str s) (Safe.mapM ?_) fun ids hstr => ?_
    · intro w hw
      obtain ⟨wms, id, rfl, hid⟩ := hids w hw
      rw [item_eq hid]
      exact ⟨id, rfl⟩
    refine Safe.bind (P := fun _ => True) ?_ fun keys _ => ?_
    · rcases setOf_cases ids with ⟨⟨keys, hkeys⟩, -⟩ | ⟨-, id, hid, hkey⟩
      · rw [hkeys]
        trivial
      · obtain ⟨s, rfl⟩ := hstr id hid
        cases hkey
    refine (calm_item hthreshold).bind ?_
    rintro _ rfl
    obtain ⟨n, hn⟩ := number_of_isInt hint
    rw [hn]
    refine Safe.bind (P := fun _ => True) trivial fun _ _ => ?_
    exact (calm_check _ _).mono fun _ _ => trivial

theorem checkWitnesses_raises {st : State} {witness : Option PyStr} (h : WitnessFileTrap st witness) :
    checkWitnesses c st witness = .error .raises := by
  obtain ⟨hdue, text, records, vids, rfl, htext, hvids, r, hr, htrap⟩ := h
  have hgood : Good (.arr records) := (IJson.ijson_eq.mp htext).2
  unfold checkWitnesses
  rw [if_neg fun hempty => hdue (List.isEmpty_iff.mp hempty)]
  show (require (IJson.ijson text) "witness" >>= _) = _
  rw [htext]
  show (st.entries.mapM (item · "versionId") >>= _) = _
  rw [hvids]
  show (records.foldlM (record c vids) [] >>= _) = _
  rcases foldlM_cases (T := RecordTrap vids) (fun r hr => record_cases c (good_item hgood hr)) [] with
    ⟨-, hnone⟩ | ⟨hraises, -⟩
  · exact absurd htrap (hnone r hr)
  · rw [hraises]
    rfl

theorem calm_checkWitnesses {st : State} {witness : Option PyStr} (hst : StateOk st)
    (h : ¬WitnessFileTrap st witness) : Calm (fun _ => True) (checkWitnesses c st witness) := by
  unfold checkWitnesses
  split
  · trivial
  · rename_i hdue
    have hdue : st.due ≠ [] := fun hnil => hdue (List.isEmpty_iff.mpr hnil)
    refine (calm_require _ _).bind fun text htext => ?_
    refine (calm_require _ _).bind fun records hrecords => ?_
    have hgood : Good records := (IJson.ijson_eq.mp hrecords).2
    have hvids : Calm (fun _ => True) (st.entries.mapM (item · "versionId")) := by
      refine Safe.mono (Safe.mapM (P := fun _ => True) ?_) fun _ _ => trivial
      intro e he
      obtain ⟨ms, state, id, rfl, hms, -⟩ := hst.entries e he
      obtain ⟨vid, hvid⟩ := hms.versionId
      rw [item_eq hvid]
      trivial
    refine (safe_of_not_fails hvids.not_fails).bind fun vids hvids => ?_
    refine Safe.bind (P := fun _ => True) ?_ fun approvals _ => ?_
    · cases records with
      | arr rs =>
        rcases foldlM_cases (T := RecordTrap vids) (fun r hr => record_cases c (good_item hgood hr)) [] with
          ⟨⟨more, hmore⟩, -⟩ | ⟨-, r, hr, htrap⟩
        · show Calm _ (rs.foldlM (record c vids) [])
          rw [hmore]
          trivial
        · exact absurd ⟨hdue, text, rs, vids, htext, hrecords, hvids, r, hr, htrap⟩ h
      | _ => trivial
    · refine Safe.forM fun d hd => ?_
      obtain ⟨hconfig, htruthy⟩ := hst.due d hd
      exact calm_enough hconfig htruthy approvals d.1

end Checks

/-! ## The rest of the log -/

theorem calm_checkRequested {st : State} (hst : StateOk st) (scidDid : String) (did : Val) :
    Calm (fun _ => True) (checkRequested scidDid did st) := by
  unfold checkRequested
  refine (calm_check _ _).bind fun _ _ => ?_
  refine Safe.bind (P := fun _ => True) (Safe.anyM ?_) fun _ _ => ?_
  · intro e he
    obtain ⟨ms, state, id, rfl, -, hstate, hid⟩ := hst.entries e he
    refine (calm_item hstate).bind ?_
    rintro _ rfl
    refine (calm_item hid).bind fun _ _ => ?_
    exact calm_pure trivial
  · exact (calm_check _ _).mono fun _ _ => trivial

/-- A cached `versionId` whose number is longer than `int` reads. -/
def CacheTrap (cache : Val) : Prop :=
  ∃ ms v, cache = .obj ms ∧ lookup ms "versionId" = some v ∧ LongNumber (· ≠ []) v

theorem checkCache_raises (st : State) {cache : Val} (h : CacheTrap cache) : checkCache st cache = .error .raises := by
  obtain ⟨ms, v, rfl, hv, s, digits, rest, rfl, hnumber, hfits, hlong⟩ := h
  unfold checkCache
  rw [get_eq, hv]
  simp only [isDict, if_true, Option.getD_some, bind, Except.bind, hnumber, Option.filter_some, if_pos hfits]
  rcases intOf_cases digits with ⟨-, hshort⟩ | ⟨hraises, -⟩
  · exact absurd hlong hshort
  · rw [hraises]

theorem calm_checkCache {st : State} {cache : Val} (hst : StateOk st) (hne : st.entries ≠ []) (h : ¬CacheTrap cache) :
    Calm (fun _ => True) (checkCache st cache) := by
  unfold checkCache
  refine Safe.ite_bind (P := fun v => v = .null ∨ ∃ ms, cache = .obj ms ∧ lookup ms "versionId" = some v) ?_ ?_
  · cases cache with
    | obj ms =>
      show (lookup ms "versionId").getD .null = .null ∨ _
      cases hv : lookup ms "versionId" with
      | none => exact .inl rfl
      | some v => exact .inr ⟨ms, rfl, hv⟩
    | _ => exact .inl rfl
  intro cvid hcvid
  cases cvid with
  | str s =>
    obtain ⟨ms, rfl, hv⟩ := hcvid.resolve_left fun hnull => nomatch hnull
    dsimp only
    cases hnumber : (numberOf s).filter (·.2 ≠ []) with
    | none => trivial
    | some parts =>
      obtain ⟨digits, rest⟩ := parts
      obtain ⟨hparts, hrest⟩ := Option.filter_eq_some_iff.mp hnumber
      refine Safe.bind (P := fun _ => True) ?_ fun k _ => ?_
      · rcases intOf_cases digits with ⟨⟨k, hk⟩, -⟩ | ⟨-, hlong⟩
        · rw [hk]
          trivial
        · exact absurd ⟨ms, _, rfl, hv, s, digits, rest, rfl, hparts, hrest, hlong⟩ h
      refine (calm_check _ _).bind fun _ hk => ?_
      have hk : k ≤ st.entries.length := of_decide_eq_true hk
      have hpos := List.length_pos_iff.mpr hne
      have hlt : k - 1 < st.entries.length := by omega
      rw [List.getElem?_eq_getElem hlt]
      obtain ⟨ms', state, id, hms', hentry, -⟩ := hst.entries _ (List.getElem_mem hlt)
      obtain ⟨vid, hvid⟩ := hentry.versionId
      dsimp only
      rw [hms', item_eq hvid]
      exact (calm_check _ _).mono fun _ _ => trivial
  | _ => trivial

theorem calm_outcome {st : State} (hst : StateOk st) (hne : st.entries ≠ []) : Calm (fun _ => True) (outcome st) := by
  obtain ⟨-, -, -, -, ⟨deactivated, hdeactivated⟩, ⟨ttl, httl⟩⟩ := hst.active hne
  unfold outcome
  cases hlast : st.entries.getLast? with
  | none => exact absurd (List.getLast?_eq_none_iff.mp hlast) hne
  | some last =>
    obtain ⟨ms, state, id, rfl, hms, -⟩ := hst.entries last (List.mem_of_getLast? hlast)
    obtain ⟨vid, hvid⟩ := hms.versionId
    obtain ⟨time, htime⟩ := hms.versionTime
    obtain ⟨state, hstate⟩ := hms.state
    dsimp only
    rw [item_eq hdeactivated, item_eq hvid, item_eq htime, item_eq hstate, item_eq httl]
    show Calm _ (if truthy deactivated = true then _ else _)
    split
    · trivial
    · trivial

/-! ## A resolution -/

section Checks

variable (c : Crypto) (now : Int)

/-- A log with a line that raises where it is read. -/
def LogTrap (log : PyStr) : Prop :=
  ∃ before line after st, linesOf log = before ++ line :: after ∧ before.foldlM (readLine c now) .init = .ok st ∧
    LineTrap now st line

/-- A log that is read to its end, and then raises with this witness file or cache. -/
def EndTrap (scidDid : String) (did : Val) (log : PyStr) (witness : Option PyStr) (cache : Val) : Prop :=
  ∃ st, (linesOf log).foldlM (readLine c now) .init = .ok st ∧ checkRequested scidDid did st = .ok () ∧
    (WitnessFileTrap st witness ∨ checkWitnesses c st witness = .ok () ∧ CacheTrap cache)

theorem stateOk_reached {lines : List PyStr} {st : State} (h : lines.foldlM (readLine c now) .init = .ok st) :
    StateOk st :=
  keeps_foldlM (fun _ _ _ hst hread => (readLine_keeps c hst hread).1) stateOk_init h

theorem entries_reached {lines : List PyStr} {st : State} (hne : lines ≠ [])
    (h : lines.foldlM (readLine c now) .init = .ok st) : st.entries ≠ [] := by
  cases lines with
  | nil => exact absurd rfl hne
  | cons line lines =>
    rw [List.foldlM_cons] at h
    cases hfirst : readLine c now .init line with
    | error e =>
      rw [hfirst] at h
      cases h
    | ok first =>
      rw [hfirst] at h
      have hall := keeps_foldlM (S := fun st => StateOk st ∧ st.entries ≠ [])
        (fun _ _ _ hst hread => readLine_keeps c hst.1 hread) (readLine_keeps c stateOk_init hfirst) h
      exact hall.2

theorem fold_raises_iff (lines : List PyStr) : Raises (lines.foldlM (readLine c now) .init) ↔
      ∃ before line after st, lines = before ++ line :: after ∧ before.foldlM (readLine c now) .init = .ok st ∧
        LineTrap now st line := by
  refine fails_foldlM.trans ?_
  constructor
  · rintro ⟨before, line, after, st, hsplit, hbefore, hfails⟩
    refine ⟨before, line, after, st, hsplit, hbefore, ?_⟩
    by_contra hnot
    exact (calm_readLine c (stateOk_reached c now hbefore) hnot).not_fails hfails
  · rintro ⟨before, line, after, st, hsplit, hbefore, htrap⟩
    exact ⟨before, line, after, st, hsplit, hbefore, raises_iff.mpr (readLine_raises c htrap)⟩

theorem resolve_raises_iff (did : Val) (log : PyStr) (witness : Option PyStr) (cache : Val) :
    resolve c did log witness cache now = .error .raises ↔
      ∃ scidDid, checkDidValue did = .ok scidDid ∧ (LogTrap c now log ∨ EndTrap c now scidDid did log witness cache) := by
  rw [← raises_iff]
  unfold resolve
  have hdid : Calm (fun _ => True) (checkDidValue did) := (calm_require _ _).mono fun _ _ => trivial
  constructor
  · intro h
    obtain ⟨scidDid, hscid, -, h⟩ := hdid.fails_bind.mp h
    refine ⟨scidDid, hscid, ?_⟩
    obtain ⟨-, -, hlines, h⟩ := (calm_check _ _).fails_bind.mp h
    have hlines : linesOf log ≠ [] := of_decide_eq_true hlines
    rcases fails_bind.mp h with hlog | ⟨st, hread, h⟩
    · exact .inl ((fold_raises_iff c now _).mp hlog)
    -- the whole log is read, so what is left are the witness file and the cache
    have hst := stateOk_reached c now hread
    have hne := entries_reached c now hlines hread
    obtain ⟨_, hrequested, -, h⟩ := (calm_checkRequested hst scidDid did).fails_bind.mp h
    refine .inr ⟨st, hread, hrequested, ?_⟩
    by_cases hwitness : WitnessFileTrap st witness
    · exact .inl hwitness
    obtain ⟨_, happroved, -, h⟩ := (calm_checkWitnesses c hst hwitness).fails_bind.mp h
    by_cases hcache : CacheTrap cache
    · exact .inr ⟨happroved, hcache⟩
    obtain ⟨-, -, -, h⟩ := (calm_checkCache hst hne hcache).fails_bind.mp h
    exact absurd h (calm_outcome hst hne).not_fails
  · rintro ⟨scidDid, hscid, htrap⟩
    rw [raises_iff, hscid]
    show (check (linesOf log ≠ []) "log-malformed" >>= fun _ => _) = _
    rcases htrap with ⟨before, line, after, st, hsplit, hbefore, htrap⟩ | ⟨st, hread, hrequested, htrap⟩
    · have hlines : linesOf log ≠ [] := by simp [hsplit]
      have hraises := raises_iff.mp ((fold_raises_iff c now _).mpr ⟨before, line, after, st, hsplit, hbefore, htrap⟩)
      rw [decide_eq_true hlines]
      show ((linesOf log).foldlM (readLine c now) .init >>= _) = _
      rw [hraises]
      rfl
    · have hlines : linesOf log ≠ [] := by
        intro hnil
        rw [hnil] at hread
        cases hread
        cases hrequested
      rw [decide_eq_true hlines]
      show ((linesOf log).foldlM (readLine c now) .init >>= _) = _
      rw [hread]
      show (checkRequested scidDid did st >>= fun _ => checkWitnesses c st witness >>= fun _ => checkCache st cache >>= _) = _
      rw [hrequested]
      show (checkWitnesses c st witness >>= fun _ => checkCache st cache >>= _) = _
      rcases htrap with hwitness | ⟨happroved, hcache⟩
      · rw [checkWitnesses_raises c hwitness]
        rfl
      · rw [happroved]
        show (checkCache st cache >>= _) = _
        rw [checkCache_raises st hcache]
        rfl

end Checks

/-! ## An outcome -/

/-- A resolved, deactivated or rejected outcome. -/
def HasOutcome (x : Except Stop Outcome) : Prop := (∃ o, x = .ok o) ∨ ∃ reason, x = .error (.reject reason)

theorem hasOutcome_iff {x : Except Stop Outcome} : HasOutcome x ↔ x ≠ .error .raises := by
  constructor
  · rintro (⟨o, rfl⟩ | ⟨reason, rfl⟩)
    · exact fun h => nomatch h
    · exact fun h => nomatch h
  · intro h
    cases x with
    | ok o => exact .inl ⟨o, rfl⟩
    | error stop =>
      cases stop with
      | reject reason => exact .inr ⟨reason, rfl⟩
      | raises => exact absurd rfl h

/-- A resolution has an outcome exactly where none of the four values gets past the checks. -/
theorem hasOutcome_resolve (c : Crypto) (did : Val) (log : PyStr) (witness : Option PyStr) (cache : Val) (now : Int) :
    HasOutcome (resolve c did log witness cache now) ↔ ∀ scidDid, checkDidValue did = .ok scidDid →
        ¬LogTrap c now log ∧ ¬EndTrap c now scidDid did log witness cache := by
  rw [hasOutcome_iff, Ne, resolve_raises_iff]
  simp only [not_exists, not_and, not_or]

/-- A first entry whose one witness has a list for an `id`. -/
def listEntry : Json :=
  .obj [("versionId", .str "1-QmNLei78zWmzUdbeRB3CiUfAizWUrbeeZh5K1rhAQKCh51"),
    ("versionTime", .str "2025-01-01T00:00:00Z"),
    ("parameters", .obj [("method", .str "did:webvh:1.0"),
      ("scid", .str "QmNLei78zWmzUdbeRB3CiUfAizWUrbeeZh5K1rhAQKCh51"), ("updateKeys", .arr []),
      ("witness", .obj [("threshold", .int 1), ("witnesses", .arr [.obj [("id", .arr [])]])])]),
    ("state", .obj []), ("proof", .arr [.obj []])]

/-- The line of the entry, which is the whole log. -/
def listLine : PyStr := .ofChars (listEntry.render [])

def listDid : Val := .str (lit "did:webvh:QmNLei78zWmzUdbeRB3CiUfAizWUrbeeZh5K1rhAQKCh51:example.com")

/-- A crypto of constants; the entry is not read so far that it counts. -/
def constantCrypto : Crypto := ⟨fun _ => [], fun _ _ _ => true⟩

def raised {α : Type} : Except Stop α → Bool
  | .error .raises => true
  | _ => false

theorem raised_iff {α : Type} {x : Except Stop α} : raised x = true ↔ x = .error .raises := by
  constructor
  · intro h
    cases x with
    | ok a => cases h
    | error stop =>
      cases stop with
      | reject reason => cases h
      | raises => rfl
  · rintro rfl
    rfl

theorem readLine_listLine : readLine constantCrypto 1800000000 .init listLine = .error .raises := by
  have hloads : PyJson.loads listLine = some (PyJson.ofJson listEntry) :=
    PyJson.loads_parse (@Json.parse_render [] (by decide) listEntry)
  refine raised_iff.mp ?_
  unfold readLine readEntry IJson.ijson
  rw [hloads]
  decide +kernel

/-- The set of the witnesses of this log's one entry cannot be made. -/
theorem no_outcome_listLine :
    ¬∀ (c : Crypto) (did : Val) (log : PyStr) (witness : Option PyStr) (cache : Val) (now : Int),
      HasOutcome (resolve c did log witness cache now) := by
  intro h
  have hlines : linesOf listLine = [listLine] := by decide +kernel
  have hraises : resolve constantCrypto listDid listLine none .null 1800000000 = .error .raises := by
    refine raised_iff.mp ?_
    unfold resolve
    dsimp only
    rw [hlines, List.foldlM_cons, readLine_listLine]
    decide +kernel
  exact hasOutcome_iff.mp (h constantCrypto listDid listLine none .null 1800000000) hraises

end Host

end Dsip.Webvh
