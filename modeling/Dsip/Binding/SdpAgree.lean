import Dsip.Binding.SdpRead

/-!
# Where the two bindings accept the same descriptions

The checks of the two bindings differ in a handful of places. `Plain` lists them:
it says what must hold of the sections and the descriptors for both to ask the
same. On a regular text with plain sections either binding accepts what the other
one does.
-/

namespace Dsip.Binding

open Dsip.Lib

/-! ## Checks that pass -/

section Passes

variable {ε α : Type}

theorem unless_ok {c : Prop} [Decidable c] {e : ε} {rest : Except ε α} {a : α} :
    (do if c then throw e
        rest) = .ok a ↔ ¬ c ∧ rest = .ok a := by
  by_cases hc : c
  · simp only [hc, if_true, not_true_eq_false, false_and, iff_false]
    intro h
    cases h
  · simp [hc]

theorem last_ok {c : Prop} [Decidable c] {e : ε} :
    (if c then throw e else pure () : Except ε Unit) = .ok () ↔ ¬ c := by
  by_cases hc : c
  · simp only [hc, if_true, not_true_eq_false, iff_false]
    intro h
    cases h
  · simp only [hc, if_false, not_false_eq_true, iff_true]
    rfl

theorem then_ok {x : Except ε Unit} {rest : Except ε α} {a : α} :
    (do x; rest) = .ok a ↔ x = .ok () ∧ rest = .ok a := by
  cases x with
  | error e => exact iff_of_false (fun h => by cases h) (fun h => by cases h.1)
  | ok u => exact ⟨fun h => ⟨rfl, h⟩, fun h => h.2⟩

theorem forM_ok {f : α → Except ε Unit} {l : List α} : l.forM f = .ok () ↔ ∀ a ∈ l, f a = .ok () := by
  induction l with
  | nil => exact iff_of_true rfl (by simp)
  | cons a l ih =>
    rw [List.forall_mem_cons, ← ih]
    show (f a >>= fun _ => l.forM f) = _ ↔ _
    cases hf : f a with
    | error e => exact iff_of_false (fun h => by cases h) (fun h => by cases h.1)
    | ok u => exact ⟨fun h => ⟨rfl, h⟩, fun h => h.2⟩

end Passes

/-- The value of `a=setup` that passes. -/
def SetupOk (isAnswer : Bool) (setup : Option Text) : Prop :=
  if isAnswer then setup = some "active".toList ∨ setup = some "passive".toList
  else setup = some "actpass".toList

theorem setup_ok {isAnswer : Bool} {setup : Option Text} {e e' : String × String} :
    (if isAnswer then
        if setup ≠ some "active".toList ∧ setup ≠ some "passive".toList then throw e else pure ()
      else if setup ≠ some "actpass".toList then throw e' else pure () : Except (String × String) Unit) =
      .ok () ↔ SetupOk isAnswer setup := by
  unfold SetupOk
  generalize "active".toList = active, "passive".toList = passive, "actpass".toList = actpass
  cases isAnswer
  · rw [if_neg Bool.false_ne_true, if_neg Bool.false_ne_true, last_ok, not_not]
  · rw [if_pos rfl, if_pos rfl, last_ok, not_and_or, not_not, not_not]

variable {sdp : Sdp} {desc : Descriptor} {sec : Section}

theorem checkSection_ok {isAnswer : Bool} : checkSection sdp isAnswer desc sec = .ok () ↔
      some sec.kind = desc.kind ∧ sec.protocol ∈ secureProtocols ∧
        some (sec.direction (sdp.sessionDirection.getD "sendrecv".toList)) = desc.direction ∧
        ¬ desc.codecs.any (codecMissing sec) = true ∧ sec.has "rtcp-mux".toList = true ∧
        (attr sdp sec "fingerprint".toList).any (fun fp => "sha-256 ".toList.isPrefixOf (lower fp)) = true ∧
        (attr sdp sec "ice-ufrag".toList ≠ none ∧ attr sdp sec "ice-pwd".toList ≠ none) ∧
        SetupOk isAnswer (attr sdp sec "setup".toList) := by
  unfold checkSection
  simp only [unless_ok, setup_ok]
  simp only [ne_eq, not_not, not_or, Bool.not_eq_false]

namespace Ts

theorem checkKind_ok {bad : String} : checkKind sdp bad desc sec = .ok () ↔
      some sec.kind = desc.kind ∧ direction sdp sec = desc.direction.getD "sendrecv".toList ∧
        ¬ desc.codecs.any (codecMissing sec) = true := by
  unfold checkKind
  simp only [unless_ok, last_ok]
  simp only [ne_eq, not_not]

theorem checkProfile_ok {isAnswer : Bool} : checkProfile sdp isAnswer sec = .ok () ↔
      "SAVP".toList <:+: sec.proto ∧ attributeOf sdp sec "rtcp-mux".toList ≠ none ∧
        (attributeOf sdp sec "fingerprint".toList).any
          (fun a => "fingerprint:sha-256 ".toList.isPrefixOf (lower a)) = true ∧
        (attributeOf sdp sec "ice-ufrag".toList ≠ none ∧ attributeOf sdp sec "ice-pwd".toList ≠ none) ∧
        SetupOk isAnswer ((attributeOf sdp sec "setup".toList).map (·.drop "setup:".length)) := by
  unfold checkProfile
  simp only [unless_ok, setup_ok]
  simp only [ne_eq, not_not, not_or, Bool.not_eq_false]

end Ts

/-! ## One section -/

/-- The attributes both bindings look up by value. -/
def valuedNames : List Text := ["fingerprint".toList, "ice-ufrag".toList, "ice-pwd".toList, "setup".toList]

/-- Attributes that both look up alike: none of the valued ones is bare, and all
directions are the same. -/
structure PlainAttrs (attrs : List Attr) : Prop where
  valued : ∀ name ∈ valuedNames, (name, none) ∉ attrs
  direction : OneDirection attrs

instance (attrs : List Attr) : Decidable (PlainAttrs attrs) :=
  decidable_of_iff (_ ∧ _) ⟨fun ⟨h₁, h₂⟩ => ⟨h₁, h₂⟩, fun ⟨h₁, h₂⟩ => ⟨h₁, h₂⟩⟩

/-- A section of which both ask the same, for its descriptor. -/
structure PlainSection (desc : Descriptor) (sec : Section) : Prop where
  attrs : PlainAttrs sec.attrs
  protocol : "SAVP".toList <:+: sec.protocol → sec.protocol ∈ secureProtocols
  codecs : ∀ codec ∈ desc.codecs, PlainCodec sec codec

instance (desc : Descriptor) (sec : Section) : Decidable (PlainSection desc sec) :=
  decidable_of_iff (_ ∧ _ ∧ _) ⟨fun ⟨h₁, h₂, h₃⟩ => ⟨h₁, h₂, h₃⟩, fun ⟨h₁, h₂, h₃⟩ => ⟨h₁, h₂, h₃⟩⟩

section Pair

variable {p : Sdp} {t : Ts.Sdp} {s : Section} {u : Ts.Section}

theorem valued_no_colon : ∀ name ∈ valuedNames, ':' ∉ name := by decide

theorem attr_eq (h : SameSdp p t) (hs : SameSection s u) (hp : PlainAttrs p.sessionAttrs)
    (hplain : PlainAttrs s.attrs) {name : Text} (hname : name ∈ valuedNames) :
    attr p s name = (Ts.attributeOf t u name).map (·.drop (name.length + 1)) := by
  have hcolon := valued_no_colon name hname
  have hsection := hplain.valued name hname
  have hsession := hp.valued name hname
  rw [hs.attrs, mem_map_attrOf hcolon] at hsection
  rw [h.session, mem_map_attrOf hcolon] at hsession
  unfold attr Ts.attributeOf Section.values Sdp.sessionValue
  rw [hs.attrs, h.session, head?_values hcolon hsection, find?_value hcolon hsession, Option.map_or]

theorem attr_ne_none (h : SameSdp p t) (hs : SameSection s u) (hp : PlainAttrs p.sessionAttrs)
    (hplain : PlainAttrs s.attrs) {name : Text} (hname : name ∈ valuedNames) :
    attr p s name ≠ none ↔ Ts.attributeOf t u name ≠ none := by
  rw [attr_eq h hs hp hplain hname, ne_eq, Option.map_eq_none_iff]

theorem attributeOf_value (h : SameSdp p t) (hs : SameSection s u) (hp : PlainAttrs p.sessionAttrs)
    (hplain : PlainAttrs s.attrs) {name a : Text} (hname : name ∈ valuedNames)
    (ha : Ts.attributeOf t u name = some a) : a = name ++ ':' :: a.drop (name.length + 1) := by
  have hcolon := valued_no_colon name hname
  have hsection := hplain.valued name hname
  have hsession := hp.valued name hname
  rw [hs.attrs, mem_map_attrOf hcolon] at hsection
  rw [h.session, mem_map_attrOf hcolon] at hsession
  have hfound : Ts.names name a = true ∧ a ≠ name := by
    rcases Option.or_eq_some_iff.mp ha with hfind | ⟨-, hfind⟩
    · exact ⟨List.find?_some hfind, fun heq => hsection (heq ▸ List.mem_of_find?_eq_some hfind)⟩
    · exact ⟨List.find?_some hfind, fun heq => hsession (heq ▸ List.mem_of_find?_eq_some hfind)⟩
  rcases attr_cases a with hno | ⟨other, v, hother, rfl⟩
  · exact absurd ((names_of_not_mem hno).mp hfound.1) hfound.2
  · obtain rfl := (names_append hcolon hother v).mp hfound.1
    simp

theorem fingerprint_iff (h : SameSdp p t) (hs : SameSection s u) (hp : PlainAttrs p.sessionAttrs)
    (hplain : PlainAttrs s.attrs) :
    (attr p s "fingerprint".toList).any (fun fp => "sha-256 ".toList.isPrefixOf (lower fp)) = true ↔
      (Ts.attributeOf t u "fingerprint".toList).any
        (fun a => "fingerprint:sha-256 ".toList.isPrefixOf (lower a)) = true := by
  have hname : "fingerprint".toList ∈ valuedNames := List.mem_cons_self
  rw [attr_eq h hs hp hplain hname]
  cases ha : Ts.attributeOf t u "fingerprint".toList with
  | none => exact Iff.rfl
  | some a =>
    have hvalue := attributeOf_value h hs hp hplain hname ha
    rw [Option.map_some, Option.any_some, Option.any_some]
    generalize a.drop ("fingerprint".toList.length + 1) = v at hvalue ⊢
    have hlower : lower a = "fingerprint:".toList ++ lower v := by
      rw [hvalue]
      exact List.map_append
    have hlong : "fingerprint:sha-256 ".toList = "fingerprint:".toList ++ "sha-256 ".toList := rfl
    rw [hlower, hlong, List.isPrefixOf_iff_prefix, List.isPrefixOf_iff_prefix, List.prefix_append_right_inj]

theorem find?_ne_none_iff {name : Text} (hname : ':' ∉ name) {l : List Text} :
    l.find? (Ts.names name) ≠ none ↔ (l.map attrOf).any (·.1 = name) = true := by
  rw [ne_eq, List.find?_eq_none, List.any_map, List.any_eq_true]
  simp only [Function.comp_apply, decide_eq_true_eq, attrOf_name_iff hname, not_forall, not_not, exists_prop]

theorem rtcpMux_iff (h : SameSdp p t) (hs : SameSection s u) : Ts.attributeOf t u "rtcp-mux".toList ≠ none ↔
      s.has "rtcp-mux".toList = true ∨ p.sessionAttrs.any (·.1 = "rtcp-mux".toList) = true := by
  have hname : ':' ∉ "rtcp-mux".toList := by decide
  unfold Ts.attributeOf Section.has
  rw [hs.attrs, h.session, ← find?_ne_none_iff hname, ← find?_ne_none_iff hname, ne_eq,
    Option.or_eq_none_iff, not_and_or]

theorem direction_eq (h : SameSdp p t) (hs : SameSection s u) (hp : PlainAttrs p.sessionAttrs)
    (hplain : PlainAttrs s.attrs) :
    s.direction (p.sessionDirection.getD "sendrecv".toList) = Ts.direction t u := by
  have hsection := hplain.direction
  have hsession := hp.direction
  rw [hs.attrs] at hsection
  rw [h.session] at hsession
  unfold Section.direction Sdp.sessionDirection Ts.direction
  rw [hs.attrs, h.session, directionOf_eq hsection, directionOf_eq hsession]
  generalize "sendrecv".toList = default
  cases directions.find? (· ∈ u.attributes) <;> rfl

theorem secure_names_savp : ∀ protocol ∈ secureProtocols, "SAVP".toList <:+: protocol := by decide

theorem section_iff (h : SameSdp p t) (hs : SameSection s u) (hp : PlainAttrs p.sessionAttrs)
    (hmux : p.sessionAttrs.any (·.1 = "rtcp-mux".toList) = true → s.has "rtcp-mux".toList = true)
    (hplain : PlainSection desc s) (hdirection : desc.direction.isSome = true)
    (isAnswer : Bool) (bad : String) : checkSection p isAnswer desc s = .ok () ↔
      Ts.checkKind t bad desc u = .ok () ∧ Ts.checkProfile t isAnswer u = .ok () := by
  rw [checkSection_ok, Ts.checkKind_ok, Ts.checkProfile_ok]
  obtain ⟨d, hd⟩ := Option.isSome_iff_exists.mp hdirection
  have hsetup : attr p s "setup".toList = (Ts.attributeOf t u "setup".toList).map (·.drop "setup:".length) :=
    attr_eq h hs hp hplain.attrs (by decide)
  have hprotocol : s.protocol ∈ secureProtocols ↔ "SAVP".toList <:+: u.proto := by
    rw [← hs.protocol]
    exact ⟨secure_names_savp s.protocol, hplain.protocol⟩
  have hcodecs : desc.codecs.any (codecMissing s) = true ↔ desc.codecs.any (Ts.codecMissing u) = true := by
    rw [List.any_eq_true, List.any_eq_true]
    exact exists_congr fun codec => and_congr_right fun hc => by
      rw [codecMissing_eq hs.attrs (hplain.codecs codec hc)]
  have hmux' : Ts.attributeOf t u "rtcp-mux".toList ≠ none ↔ s.has "rtcp-mux".toList = true := by
    rw [rtcpMux_iff h hs]
    exact ⟨fun hor => hor.elim id hmux, .inl⟩
  rw [hs.kind, hprotocol, direction_eq h hs hp hplain.attrs, hcodecs, ← hmux', fingerprint_iff h hs hp hplain.attrs,
    attr_ne_none h hs hp hplain.attrs (by decide), attr_ne_none h hs hp hplain.attrs (by decide), hsetup, hd]
  constructor
  · rintro ⟨hkind, hsavp, hdir, hcodec, hmuxed, hfp, hice, hset⟩
    exact ⟨⟨hkind, Option.some.inj hdir, hcodec⟩, hsavp, hmuxed, hfp, hice, hset⟩
  · rintro ⟨⟨hkind, hdir, hcodec⟩, hsavp, hmuxed, hfp, hice, hset⟩
    exact ⟨hkind, hsavp, congrArg some hdir, hcodec, hmuxed, hfp, hice, hset⟩

end Pair

/-! ## Descriptions -/

/-- What both ask the same of, for these descriptors. -/
structure Plain (sdp : Sdp) (media : List Descriptor) : Prop where
  session : PlainAttrs sdp.sessionAttrs
  application : ∀ s ∈ sdp.sections, s.kind = "application".toList → s.port ≠ 0
  mux : sdp.sessionAttrs.any (·.1 = "rtcp-mux".toList) = true → ∀ s ∈ sdp.live, s.has "rtcp-mux".toList = true
  sections : ∀ p ∈ media.zip sdp.live, PlainSection p.1 p.2

instance (sdp : Sdp) (media : List Descriptor) : Decidable (Plain sdp media) :=
  decidable_of_iff (_ ∧ _ ∧ _ ∧ _)
    ⟨fun ⟨h₁, h₂, h₃, h₄⟩ => ⟨h₁, h₂, h₃, h₄⟩, fun ⟨h₁, h₂, h₃, h₄⟩ => ⟨h₁, h₂, h₃, h₄⟩⟩

section Descriptions

variable {p : Sdp} {t : Ts.Sdp}

theorem SameSdp.live (h : SameSdp p t) : List.Forall₂ SameSection p.live t.live := by
  have hsections := h.sections
  unfold Sdp.live Ts.Sdp.live
  generalize p.sections = ss, t.sections = us at hsections
  induction hsections with
  | nil => exact .nil
  | @cons s u _ _ hs _ ih =>
    by_cases hzero : s.port = 0
    · rw [List.filter_cons_of_neg (by simpa using hzero), List.filter_cons_of_neg (by simpa using hs.port.mpr hzero)]
      exact ih
    · have hno : Ts.numberIsZero u.port = false := by
        rw [Bool.eq_false_iff]
        exact fun hyes => hzero (hs.port.mp hyes)
      rw [List.filter_cons_of_pos (by simpa using hzero), List.filter_cons_of_pos (by simpa using hno)]
      exact .cons hs ih

theorem SameSdp.application (h : SameSdp p t)
    (happ : ∀ s ∈ p.sections, s.kind = "application".toList → s.port ≠ 0) :
    p.live.any (·.kind = "application".toList) = true ↔
      t.sections.any (·.kind = "application".toList) = true := by
  have hsections := h.sections
  unfold Sdp.live
  generalize "application".toList = application, p.sections = ss, t.sections = us at happ hsections
  induction hsections with
  | nil => rfl
  | @cons s u _ _ hs _ ih =>
    have hrest : _ ↔ _ := ih fun s' hs' => happ s' (List.mem_cons_of_mem _ hs')
    rw [List.any_cons, Bool.or_eq_true, ← hrest, decide_eq_true_eq, ← hs.kind]
    by_cases hzero : s.port = 0
    · rw [List.filter_cons_of_neg (by simpa using hzero)]
      refine ⟨.inr, fun hor => hor.resolve_left fun hkind => ?_⟩
      exact happ s List.mem_cons_self hkind hzero
    · rw [List.filter_cons_of_pos (by simpa using hzero), List.any_cons, Bool.or_eq_true, decide_eq_true_eq]

theorem forall_zip_iff {δ σ τ : Type} {R : σ → τ → Prop} {A : δ → σ → Prop} {B : δ → τ → Prop}
    {C : τ → Prop} {ds : List δ} {ss : List σ} {us : List τ} (h : List.Forall₂ R ss us)
    (hlength : ds.length = ss.length) (hpair : ∀ q ∈ ds.zip ss, ∀ u, R q.2 u → (A q.1 q.2 ↔ B q.1 u ∧ C u)) :
    (∀ q ∈ ds.zip ss, A q.1 q.2) ↔ (∀ q ∈ ds.zip us, B q.1 q.2) ∧ ∀ u ∈ us, C u := by
  induction h generalizing ds with
  | nil =>
    obtain rfl := List.length_eq_zero_iff.mp hlength
    simp
  | @cons s u ss us hs _ ih =>
    obtain ⟨d, ds, rfl⟩ := List.exists_cons_of_length_eq_add_one hlength
    have hhead := hpair (d, s) List.mem_cons_self u hs
    have hrest := ih (Nat.succ.inj hlength) fun q hq => hpair q (List.mem_cons_of_mem _ hq)
    simp only [List.zip_cons_cons, List.forall_mem_cons]
    rw [hrest, hhead]
    exact and_and_and_comm

variable {media : List Descriptor}

theorem sections_iff (h : SameSdp p t) (hplain : Plain p media)
    (hdirection : ∀ d ∈ media, d.direction.isSome = true) (hlength : media.length = p.live.length)
    (isAnswer : Bool) (bad : String) :
    ((media.zip p.live).forM fun q => checkSection p isAnswer q.1 q.2) = .ok () ↔
      ((media.zip t.live).forM fun q => Ts.checkKind t bad q.1 q.2) = .ok () ∧
        t.live.forM (Ts.checkProfile t isAnswer) = .ok () := by
  rw [forM_ok, forM_ok, forM_ok]
  refine forall_zip_iff (A := fun d s => checkSection p isAnswer d s = .ok ())
    (B := fun d u => Ts.checkKind t bad d u = .ok ()) h.live hlength fun q hq u hu => ?_
  have hsection : q.2 ∈ p.live := (List.of_mem_zip hq).2
  exact section_iff h hu hplain.session (fun hsession => hplain.mux hsession q.2 hsection)
    (hplain.sections q hq) (hdirection q.1 (List.of_mem_zip hq).1) isAnswer bad

/-- What an offer or an answer says of ICE. -/
def IceOk (isAnswer : Bool) (ice : Option Json) : Prop :=
  if isAnswer then ¬ (ice.isSome = true ∧ isTrickle ice = false) else isTrickle ice = true

theorem checkSdp_ok {tr : Transport} {isAnswer : Bool} {offer : Option Sdp} :
    checkSdp tr media isAnswer offer = .ok () ↔
      IceOk isAnswer tr.ice ∧ tr.sdp.getD [] ≠ [] ∧ ∃ sdp, parseSdp (tr.sdp.getD []) = some sdp ∧
        ¬ (isAnswer = true ∧ offer.any (fun o => sdp.sections.length ≠ o.sections.length) = true) ∧
        ¬ sdp.live.any (·.kind = "application".toList) = true ∧ sdp.live.length = media.length ∧
        ((media.zip sdp.live).forM fun q => checkSection sdp isAnswer q.1 q.2) = .ok () := by
  have hice : (¬ (¬ isAnswer = true ∧ isTrickle tr.ice = false) ∧
      ¬ (isAnswer = true ∧ tr.ice.isSome = true ∧ isTrickle tr.ice = false)) ↔ IceOk isAnswer tr.ice := by
    unfold IceOk
    cases isAnswer <;> simp
  unfold checkSdp
  simp only [unless_ok]
  rw [← and_assoc, hice]
  refine and_congr_right fun _ => and_congr_right fun _ => ?_
  cases parseSdp (tr.sdp.getD []) with
  | none => exact iff_of_false (fun h => by cases h) (fun ⟨_, h, _⟩ => by cases h)
  | some sdp =>
    simp only [unless_ok, Option.some.injEq, exists_eq_left', ne_eq, not_not]

theorem ts_checkDescription_ok {tr : Transport} {isAnswer : Bool} {offer : Option Ts.Sdp} :
    (∃ sdp, Ts.checkDescription tr media isAnswer offer = .ok sdp) ↔
      IceOk isAnswer tr.ice ∧ ∃ text, tr.sdp = some text ∧ ∃ sdp, Ts.parseSdp text = some sdp ∧
        ¬ sdp.sections.any (·.kind = "application".toList) = true ∧ sdp.live.length = media.length ∧
        ¬ offer.any (fun o => o.sections.length ≠ sdp.sections.length) = true ∧
        ((media.zip sdp.live).forM fun q =>
          Ts.checkKind sdp (if isAnswer then "media.failed" else "media.unsupported") q.1 q.2) = .ok () ∧
        sdp.live.forM (Ts.checkProfile sdp isAnswer) = .ok () := by
  have hice : ∀ {rest : Except (String × String) Ts.Sdp} {e : String × String} {sdp : Ts.Sdp},
      (do
        if isAnswer then
          if tr.ice.isSome ∧ isTrickle tr.ice = false then throw e
        else if isTrickle tr.ice = false then throw e
        rest) = .ok sdp ↔ IceOk isAnswer tr.ice ∧ rest = .ok sdp := by
    intro rest e sdp
    unfold IceOk
    cases isAnswer
    · simp only [Bool.false_eq_true, if_false, unless_ok, Bool.not_eq_false]
    · simp only [if_true, unless_ok]
  unfold Ts.checkDescription
  simp only [hice, exists_and_left]
  refine and_congr_right fun _ => ?_
  cases tr.sdp with
  | none => exact iff_of_false (fun ⟨_, h⟩ => by cases h) (fun ⟨_, h, _⟩ => by cases h)
  | some text =>
    simp only [Option.some.injEq, exists_eq_left']
    cases Ts.parseSdp text with
    | none => exact iff_of_false (fun ⟨_, h⟩ => by cases h) (fun ⟨_, h, _⟩ => by cases h)
    | some sdp =>
      have hend : ∃ x, (pure sdp : Except (String × String) Ts.Sdp) = .ok x := ⟨sdp, rfl⟩
      simp only [unless_ok, then_ok, Option.some.injEq, exists_eq_left', ne_eq, not_not,
        exists_and_left, hend, and_true]

/-- A payload for this binding alone that both read alike. -/
structure Shared (payload : Payload) (tr : Transport) : Prop where
  only : payload.transports = [tr]
  id : tr.id = some webrtc
  direction : ∀ d ∈ payload.media, d.direction.isSome = true
  regular : ∀ text, tr.sdp = some text → text ≠ [] → Regular text
  plain : ∀ text sdp, tr.sdp = some text → parseSdp text = some sdp → Plain sdp payload.media

variable {payload : Payload} {tr : Transport} {offer : Option Sdp} {offered : Option Ts.Sdp}

theorem description_iff (h : Shared payload tr) (hoffer : Option.Rel SameSdp offer offered)
    {isAnswer : Bool} (hanswer : isAnswer = true ∨ offered = none) :
    checkSdp tr payload.media isAnswer offer = .ok () ↔
      ∃ sdp, Ts.checkDescription tr payload.media isAnswer offered = .ok sdp := by
  rw [checkSdp_ok, ts_checkDescription_ok]
  refine and_congr_right fun _ => ?_
  cases htext : tr.sdp with
  | none => exact iff_of_false (fun h => h.1 rfl) (fun ⟨_, h, _⟩ => by cases h)
  | some text =>
    simp only [Option.getD_some, Option.some.injEq, exists_eq_left']
    by_cases hempty : text = []
    · subst hempty
      exact iff_of_false (fun h => h.1 rfl) (fun ⟨_, h, _⟩ => by cases h)
    have hread := (h.regular text htext hempty).read
    have hplain := h.plain text
    generalize parseSdp text = p, Ts.parseSdp text = t at hread hplain
    cases hread with
    | none => exact iff_of_false (fun ⟨_, _, h, _⟩ => by cases h) (fun ⟨_, h, _⟩ => by cases h)
    | @some p t hsame =>
      have hp := hplain p htext rfl
      simp only [Option.some.injEq, exists_eq_left']
      have hcount : (isAnswer = true ∧ offer.any (fun o => p.sections.length ≠ o.sections.length) = true) ↔
          offered.any (fun o => o.sections.length ≠ t.sections.length) = true := by
        cases hoffer with
        | none => simp
        | some hsame' =>
          have htrue : isAnswer = true := hanswer.resolve_right fun hno => by cases hno
          simp only [Option.any_some, decide_eq_true_eq]
          rw [hsame.sections.length_eq, hsame'.sections.length_eq]
          exact ⟨fun h => Ne.symm h.2, fun h => ⟨htrue, Ne.symm h⟩⟩
      rw [hcount, hsame.application hp.application, ← hsame.live.length_eq]
      constructor
      · rintro ⟨-, hno, happ, hlength, hall⟩
        obtain ⟨hkind, hprofile⟩ := (sections_iff hsame hp h.direction hlength.symm isAnswer _).mp hall
        exact ⟨happ, hlength, hno, hkind, hprofile⟩
      · rintro ⟨happ, hlength, hno, hkind, hprofile⟩
        exact ⟨hempty, hno, happ, hlength,
          (sections_iff hsame hp h.direction hlength.symm isAnswer _).mpr ⟨hkind, hprofile⟩⟩

theorem accepted_eq (h : Shared payload tr) (hoffer : Option.Rel SameSdp offer offered)
    {isAnswer : Bool} (hanswer : isAnswer = true ∨ offered = none) :
    (checkDescription payload isAnswer offer).accepted =
      (Ts.verdictOf (Ts.checkDescription tr payload.media isAnswer offered)).accepted := by
  have hiff := description_iff h hoffer hanswer
  unfold checkDescription
  rw [h.only]
  simp only [List.headD_cons, h.id, ne_eq, not_true_eq_false, if_false]
  cases hpy : checkSdp tr payload.media isAnswer offer with
  | ok u =>
    obtain ⟨sdp, hts⟩ := hiff.mp hpy
    rw [hts]
    rfl
  | error e =>
    cases hts : Ts.checkDescription tr payload.media isAnswer offered with
    | ok sdp =>
      have hok := hiff.mpr ⟨sdp, hts⟩
      rw [hpy] at hok
      cases hok
    | error e' => rfl

theorem webrtcTransport_eq (h : Shared payload tr) : Ts.webrtcTransport payload = some tr := by
  unfold Ts.webrtcTransport
  rw [h.only, List.find?_cons_of_pos (by simpa using h.id)]

theorem offered_rel (h : Shared payload tr) :
    Option.Rel SameSdp (tr.sdp.bind parseSdp) (Ts.parseSdp (tr.sdp.getD [])) := by
  cases htext : tr.sdp with
  | none => exact .none
  | some text =>
    by_cases hempty : text = []
    · subst hempty
      exact .none
    · exact (h.regular text htext hempty).read

/-- On offers and answers that both read alike, either binding accepts what the
other one accepts. -/
theorem descriptions_agree {offer : Payload} {otr : Transport} (ho : Shared offer otr) :
    (checkOffer offer).accepted = (Ts.checkOffer offer).accepted ∧ ∀ answer atr, Shared answer atr →
        (checkAnswer offer answer).accepted = (Ts.checkAnswer offer answer).accepted := by
  constructor
  · unfold checkOffer Ts.checkOffer
    rw [webrtcTransport_eq ho]
    exact accepted_eq ho .none (.inr rfl)
  · intro answer atr ha
    unfold checkAnswer Ts.checkAnswer
    rw [webrtcTransport_eq ho, webrtcTransport_eq ha, ho.only]
    exact accepted_eq ha (offered_rel ho) (.inl rfl)

end Descriptions

/-! ## Instances -/

def joined (lines : List String) : Text := ['\n'].intercalate (lines.map String.toList)

/-- One audio descriptor, with SDP lines. -/
def audio (codec : String) (lines : List String) : Payload where
  media := [⟨some "audio".toList, some "sendrecv".toList, [codec.toList]⟩]
  transports := [⟨some webrtc, some (.str "trickle"), some (joined lines)⟩]

/-- A session with what its sections share. -/
def session : List String :=
  ["v=0", "a=fingerprint:sha-256 AA:BB", "a=ice-ufrag:01", "a=ice-pwd:01", "a=setup:actpass"]

def opus : List String := ["a=rtcp-mux", "a=rtpmap:111 opus/48000/2"]

def audioLine : String := "m=audio 9 UDP/TLS/RTP/SAVPF 111"

/-- The answer to an offer of `session`. -/
def answered : List String := session.dropLast ++ ["a=setup:active", audioLine] ++ opus

theorem audio_shared {codec : String} {lines : List String} (hregular : Regular (joined lines))
    (hplain : ∀ sdp ∈ parseSdp (joined lines), Plain sdp (audio codec lines).media) :
    Shared (audio codec lines) ⟨some webrtc, some (.str "trickle"), some (joined lines)⟩ where
  only := rfl
  id := rfl
  direction := by
    intro d hd
    obtain rfl := List.mem_singleton.mp hd
    rfl
  regular text htext _ := Option.some.inj htext ▸ hregular
  plain text sdp htext hread := hplain sdp (Option.some.inj htext ▸ hread)

/-- Both accept a plain offer and its answer. -/
theorem descriptions_agree_audio :
    (Ts.checkOffer (audio "codec:audio/opus" (session ++ audioLine :: opus))).accepted = true ∧
      (Ts.checkAnswer (audio "codec:audio/opus" (session ++ audioLine :: opus))
        (audio "codec:audio/opus" answered)).accepted = true := by
  have hoffer : Shared (audio "codec:audio/opus" (session ++ audioLine :: opus)) _ :=
    audio_shared (by decide +kernel) (by decide +kernel)
  have hanswer : Shared (audio "codec:audio/opus" answered) _ :=
    audio_shared (by decide +kernel) (by decide +kernel)
  obtain ⟨hoffers, hanswers⟩ := descriptions_agree hoffer
  rw [← hoffers, ← hanswers _ _ hanswer]
  decide +kernel

/-- One binding accepts what the other refuses. -/
def Differ (payload : Payload) : Prop := (checkOffer payload).accepted ≠ (Ts.checkOffer payload).accepted

instance (payload : Payload) : Decidable (Differ payload) := inferInstanceAs (Decidable (_ ≠ _))

/-- What each clause leaves out: a first line with more than `v=0`, a line that is
no `x=`, white space at the end of a line, two blanks between words, a port that
is no number, a count of ports after zero, no section at all; a rejected data
section, a protocol only one list has, `rtcp-mux` for the whole session, a bare
attribute before a session value, two directions, another clock rate, and a codec
that no `rtpmap` names. -/
theorem descriptions_differ : (∀ lines ∈ [("v=0 " :: session.tail) ++ audioLine :: opus,
        session ++ ["note", audioLine] ++ opus,
        session ++ audioLine :: opus ++ ["a=sendonly "],
        session ++ "m=audio  9 UDP/TLS/RTP/SAVPF 111" :: opus,
        session ++ "m=audio nine UDP/TLS/RTP/SAVPF 111" :: opus,
        session ++ "m=audio 0/2 UDP/TLS/RTP/SAVPF 111" :: opus,
        session ++ audioLine :: opus ++ ["m=application 0 UDP/DTLS/SCTP webrtc-datachannel"],
        session ++ "m=audio 9 TCP/TLS/RTP/SAVP 111" :: opus,
        session ++ ["a=rtcp-mux", audioLine, "a=rtpmap:111 opus/48000/2"],
        session ++ audioLine :: opus ++ ["a=setup"],
        session ++ audioLine :: opus ++ ["a=sendonly", "a=sendrecv"],
        session ++ [audioLine, "a=rtcp-mux", "a=rtpmap:111 opus/44100/2"]],
      Differ (audio "codec:audio/opus" lines)) ∧
    Differ (audio "codec:audio/g722" (session ++ audioLine :: opus)) ∧
    Differ { audio "codec:audio/opus" session with media := [] } := by
  decide +kernel

end Dsip.Binding
