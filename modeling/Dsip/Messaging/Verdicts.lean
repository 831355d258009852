import Dsip.Messaging.Object

/-!
# When a check returns

`checkMessage` and `checkObject` return a verdict except where a name that the sender
chose is one that every object inherits, or a member that the schema leaves optional
is read without a test. Of the inherited names a token can only be `constructor`.
-/

namespace Dsip.Messaging.Verdicts

open Dsip.Lib Dsip.Messaging.Message Dsip.Messaging.Object

/-- A check that gives a verdict. -/
def Returns (check : Js Verdict) : Prop := ∃ v, check = .ok v

theorem token_inherited {s : String} (hmem : s ∈ inheritedMembers) (htoken : Schemas.isToken s.toList = true) :
    s = "constructor" := by
  revert s
  decide

/-! ## Messages -/

section Messages

variable {payload : JsMembers} {type : String}

theorem valid_of_mem (htype : type ∈ messageTypes) : ∃ schema, Schemas.validators.lookup type = some schema ∧
      ∀ o, Schemas.valid type o = .ok (schema (.obj o)) := by
  have hlookup : ∃ schema, Schemas.validators.lookup type = some schema := by
    unfold messageTypes at htype
    simp only [List.mem_cons, List.not_mem_nil, or_false] at htype
    rcases htype with rfl | rfl | rfl | rfl | rfl | rfl | rfl | rfl <;> exact ⟨_, rfl⟩
  obtain ⟨schema, hschema⟩ := hlookup
  refine ⟨schema, hschema, fun o => ?_⟩
  unfold Schemas.valid
  rw [hschema]
  rfl

theorem deposit_class (h : Schemas.deposit (.obj payload) = true) :
    ∃ c, payload.lookup "class" = some (.str c) ∧ Schemas.isToken c.toList = true := by
  unfold Schemas.deposit Schemas.message at h
  have hclass : ∃ v, payload.lookup "class" = some v := Schema.object_required h (by decide)
  obtain ⟨v, hv⟩ := hclass
  obtain ⟨c, rfl, htoken⟩ := Schema.pattern_eq_true (Schema.object_lookup h hv rfl)
  exact ⟨c, hv, htoken⟩

/-- The two payloads that have no verdict: a deposit whose class is `constructor`, and
key packages without `key_packages`. -/
def Unread (type : String) (payload : JsMembers) : Prop :=
  type = "deposit" ∧ JsValue.isStr (payload.lookup "class") "constructor" = true ∨
    type = "key-packages" ∧ JsValue.has "key_packages" payload = false

/-- A payload whose fields are looked at: it passes its schema, and does not live too long. -/
def Timely (type : String) (payload : JsMembers) : Prop :=
  Schemas.valid type payload = .ok true ∧
    lifetime payload ≤ maxLifetime (type = "deposit" && JsValue.isStr (payload.lookup "class") "ephemeral")

theorem fieldsOf_deposit (h : Schemas.deposit (.obj payload) = true) :
    if JsValue.isStr (payload.lookup "class") "constructor" then fieldsOf payload = .error .notIterable
    else ∃ fields, fieldsOf payload = .ok fields := by
  obtain ⟨c, hc, htoken⟩ := deposit_class h
  have hstring : asString payload "class" = c := by
    unfold asString
    rw [hc]
    rfl
  unfold fieldsOf
  rw [hc, hstring]
  split
  case isTrue hconstructor =>
    obtain rfl : c = "constructor" := of_decide_eq_true hconstructor
    rfl
  case isFalse hother =>
    cases hfind : findMember classFields c with
    | own fields => exact ⟨some fields, rfl⟩
    | missing => exact ⟨none, rfl⟩
    | inherited =>
      exact absurd (token_inherited (findMember_inherited hfind) htoken) fun heq => hother (decide_eq_true heq)

theorem returns_checkDeposit (h : Schemas.deposit (.obj payload) = true) :
    Returns (checkDeposit payload) ↔ JsValue.isStr (payload.lookup "class") "constructor" = false := by
  have hfields := fieldsOf_deposit h
  unfold checkDeposit
  cases hclass : JsValue.isStr (payload.lookup "class") "constructor" with
  | true =>
    rw [hclass, if_pos rfl] at hfields
    rw [hfields]
    exact ⟨fun ⟨_, hv⟩ => (nomatch hv), nofun⟩
  | false =>
    rw [hclass] at hfields
    obtain ⟨fields, hfields⟩ := hfields
    rw [hfields]
    refine ⟨fun _ => rfl, fun _ => ?_⟩
    cases fields with
    | none => exact ⟨_, rfl⟩
    | some fields => exact ⟨_, rfl⟩

theorem returns_checkKeyPackages (payload : JsMembers) :
    Returns (checkKeyPackages payload) ↔ JsValue.has "key_packages" payload = true := by
  unfold checkKeyPackages JsValue.has
  cases payload.lookup "key_packages" with
  | none => exact ⟨fun ⟨_, hv⟩ => (nomatch hv), nofun⟩
  | some v =>
    refine ⟨fun _ => rfl, fun _ => ?_⟩
    cases v <;> exact ⟨_, rfl⟩

theorem returns_checkFields (htype : type ∈ messageTypes) (hvalid : Schemas.valid type payload = .ok true) :
    Returns (checkFields type payload) ↔ ¬ Unread type payload := by
  unfold checkFields Unread
  by_cases hdeposit : type = "deposit"
  · subst hdeposit
    rw [if_pos rfl, returns_checkDeposit (Except.ok.inj hvalid)]
    simp
  · rw [if_neg hdeposit]
    by_cases hkeys : type = "key-packages"
    · subst hkeys
      rw [if_neg (by decide), if_pos rfl, returns_checkKeyPackages]
      simp
    · rw [if_neg hkeys]
      refine ⟨fun _ => by tauto, fun _ => ?_⟩
      split <;> exact ⟨_, rfl⟩

theorem returns_checkMessage (payload : JsMembers) : Returns (checkMessage payload) ↔
      ∀ type ∈ messageTypes, payload.lookup "type" = some (.str type) → Timely type payload → ¬ Unread type payload := by
  unfold checkMessage
  cases hlookup : payload.lookup "type" with
  | none => exact ⟨fun _ _ _ h => (nomatch h), fun _ => ⟨_, rfl⟩⟩
  | some v =>
    cases v with
    | str type =>
      simp only [Option.some.injEq, JsValue.str.injEq]
      by_cases hmem : type ∈ messageTypes
      case neg =>
        rw [if_neg hmem]
        exact ⟨fun _ t ht heq => absurd (heq ▸ ht) hmem, fun _ => ⟨_, rfl⟩⟩
      case pos =>
        obtain ⟨schema, -, hvalid⟩ := valid_of_mem hmem
        have hany : (∀ t ∈ messageTypes, type = t → Timely t payload → ¬ Unread t payload) ↔
            (Timely type payload → ¬ Unread type payload) :=
          ⟨fun h => h type hmem rfl, fun h t _ heq => heq ▸ h⟩
        rw [if_pos hmem, hvalid, hany]
        unfold Timely
        rw [hvalid]
        cases hschema : schema (.obj payload) with
        | false => exact ⟨fun _ h => (nomatch h.1), fun _ => ⟨_, rfl⟩⟩
        | true =>
          have hfields := returns_checkFields hmem (by rw [hvalid, hschema])
          have hlifetime : Returns (checkLifetime type payload) ↔ (lifetime payload ≤
                  maxLifetime (type = "deposit" && JsValue.isStr (payload.lookup "class") "ephemeral") →
                ¬ Unread type payload) := by
            unfold checkLifetime
            split
            case isTrue hlong => exact ⟨fun _ h => absurd hlong (Int.not_lt.mpr h), fun _ => ⟨_, rfl⟩⟩
            case isFalse hshort =>
              rw [hfields]
              exact ⟨fun h _ => h, fun h => h (Int.not_lt.mp hshort)⟩
          exact hlifetime.trans ⟨fun h ht => h ht.2, fun h ht => h ⟨rfl, ht⟩⟩
    | _ => exact ⟨fun _ _ _ h => (nomatch h), fun _ => ⟨_, rfl⟩⟩

end Messages

/-! ## Objects -/

section Objects

variable {p : Platform} {o : JsMembers} {ctx : ObjectContext}

theorem content_kind (h : Schemas.content (.obj o) = true) :
    ∃ k, o.lookup "kind" = some (.str k) ∧ Schemas.isToken k.toList = true := by
  unfold Schemas.content at h
  have hkind : ∃ v, o.lookup "kind" = some v := Schema.object_required h (by decide)
  obtain ⟨v, hv⟩ := hkind
  obtain ⟨k, rfl, htoken⟩ := Schema.pattern_eq_true (Schema.object_lookup h hv rfl)
  exact ⟨k, hv, htoken⟩

theorem returns_checkContent (h : Schemas.content (.obj o) = true) :
    Returns (checkContent p o ctx) ↔ JsValue.isStr (o.lookup "kind") "constructor" = false := by
  obtain ⟨k, hk, htoken⟩ := content_kind h
  have hstring : asString o "kind" = k := by
    unfold asString
    rw [hk]
    rfl
  have hconstructor : JsValue.isStr (some (.str k)) "constructor" = decide (k = "constructor") := rfl
  unfold checkContent
  rw [hk, hstring, hconstructor, decide_eq_false_iff_not]
  dsimp only
  cases hfind : findMember kindBody k with
  | own body =>
    refine ⟨fun _ heq => ?_, fun _ => ⟨_, rfl⟩⟩
    subst heq
    cases hfind
  | missing =>
    refine ⟨fun _ heq => ?_, fun _ => ⟨_, rfl⟩⟩
    subst heq
    cases hfind
  | inherited =>
    have heq := token_inherited (findMember_inherited hfind) htoken
    exact ⟨fun ⟨_, hv⟩ => (nomatch hv), fun hne => absurd heq hne⟩

theorem valid_of_objects {name schema : String} (h : findMember objects name = .own schema) :
    name = schema ∧ ∃ s, Schemas.validators.lookup schema = some s ∧ ∀ o, Schemas.valid schema o = .ok (s (.obj o)) := by
  have htable : ∀ entry ∈ objects, entry.1 = entry.2 ∧ (Schemas.validators.lookup entry.2).isSome = true := by decide
  obtain ⟨heq, hsome⟩ := htable (name, schema) (mem_of_lookup (findMember_own h))
  obtain ⟨s, hs⟩ := Option.isSome_iff_exists.mp hsome
  refine ⟨heq, s, hs, fun o => ?_⟩
  unfold Schemas.valid
  rw [hs]
  rfl

/-- A content object that gets as far as its kind, and whose kind is `constructor`. -/
def Unkind (o : JsMembers) (ctx : ObjectContext) : Prop :=
  Schemas.valid "content" o = .ok true ∧ commonRefusal "content" o ctx = none ∧
    JsValue.isStr (o.lookup "kind") "constructor" = true

theorem returns_checkBySchema {schema : String} (hcontent : schema ≠ "content") :
    Returns (checkBySchema p schema o ctx) := by
  unfold checkBySchema
  rw [if_neg hcontent]
  split
  · exact ⟨_, rfl⟩
  · split
    · exact ⟨_, rfl⟩
    · split <;> exact ⟨_, rfl⟩

theorem returns_checkNamed {name schema : String} (h : findMember objects name = .own schema) :
    Returns (checkNamed p schema o ctx) ↔ ¬ (name = "content" ∧ Unkind o ctx) := by
  obtain ⟨rfl, s, hs, hvalid⟩ := valid_of_objects h
  unfold checkNamed Unkind
  rw [hvalid]
  cases hschema : s (.obj o) with
  | false =>
    refine ⟨fun _ ⟨hname, hv, _⟩ => ?_, fun _ => ⟨_, rfl⟩⟩
    rw [← hname, hvalid, hschema] at hv
    cases hv
  | true =>
    by_cases hcontent : name = "content"
    case neg =>
      refine ⟨fun _ hname => hcontent hname.1, fun _ => ?_⟩
      cases hrefusal : commonRefusal name o ctx with
      | some refusal => exact ⟨_, rfl⟩
      | none => exact returns_checkBySchema hcontent
    case pos =>
      subst hcontent
      have hvalid' : Schemas.valid "content" o = .ok true := by rw [hvalid, hschema]
      have hreturns : Returns (checkBySchema p "content" o ctx) ↔
          JsValue.isStr (o.lookup "kind") "constructor" = false := by
        unfold checkBySchema
        rw [if_neg (by decide), if_pos rfl]
        exact returns_checkContent (Except.ok.inj hvalid')
      cases hrefusal : commonRefusal "content" o ctx with
      | some refusal => exact ⟨fun _ hname => (nomatch hname.2.2.1), fun _ => ⟨_, rfl⟩⟩
      | none =>
        refine Iff.trans hreturns ?_
        simp [hvalid']

theorem lookup_objects_inherited : ∀ name ∈ inheritedMembers, objects.lookup name = none := by decide

/-- An object has a verdict unless its name cannot be one, or is an inherited one, or
it is a content object whose kind is `constructor`. -/
theorem returns_checkObject (p : Platform) (o : JsMembers) (ctx : ObjectContext) :
    Returns (checkObject p o ctx) ↔ memberFloat o = true ∨
        ∃ name, objectName p o = some name ∧ name ∉ inheritedMembers ∧ ¬ (name = "content" ∧ Unkind o ctx) := by
  unfold checkObject
  cases hfloat : memberFloat o with
  | true => exact ⟨fun _ => .inl rfl, fun _ => ⟨_, rfl⟩⟩
  | false =>
    unfold schemaOf
    cases hname : objectName p o with
    | none =>
      refine ⟨fun ⟨_, hv⟩ => (nomatch hv), ?_⟩
      rintro (h | ⟨_, h, _⟩) <;> cases h
    | some name =>
      have hany : (false = true ∨ ∃ n, some name = some n ∧ n ∉ inheritedMembers ∧ ¬ (n = "content" ∧ Unkind o ctx)) ↔
          (name ∉ inheritedMembers ∧ ¬ (name = "content" ∧ Unkind o ctx)) := by simp
      rw [hany]
      dsimp only
      have hinherited : name ∈ inheritedMembers → findMember objects name = .inherited := fun hmem =>
        findMember_of_inherited hmem (lookup_objects_inherited name hmem)
      cases hfind : findMember objects name with
      | own schema =>
        have hnot : name ∉ inheritedMembers := fun hmem => by
          rw [hinherited hmem] at hfind
          cases hfind
        have hnamed := @returns_checkNamed p o ctx name schema hfind
        exact ⟨fun h => ⟨hnot, hnamed.mp h⟩, fun h => hnamed.mpr h.2⟩
      | inherited =>
        exact ⟨fun ⟨_, hv⟩ => (nomatch hv), fun h => absurd (findMember_inherited hfind) h.1⟩
      | missing =>
        have hnot : name ∉ inheritedMembers := fun hmem => by
          rw [hinherited hmem] at hfind
          cases hfind
        have hcontent : name ≠ "content" := by
          rintro rfl
          cases hfind
        exact ⟨fun _ => ⟨hnot, fun h => hcontent h.1⟩, fun _ => ⟨_, rfl⟩⟩

end Objects

/-! ## Both checks -/

/-- When a message and an object get a verdict. -/
theorem verdicts_returned (p : Platform) (payload o : JsMembers) (ctx : ObjectContext) :
    (Returns (checkMessage payload) ↔
        ∀ type ∈ messageTypes, payload.lookup "type" = some (.str type) → Timely type payload →
          ¬ Unread type payload) ∧
      (Returns (checkObject p o ctx) ↔ memberFloat o = true ∨
          ∃ name, objectName p o = some name ∧ name ∉ inheritedMembers ∧ ¬ (name = "content" ∧ Unkind o ctx)) :=
  ⟨returns_checkMessage payload, returns_checkObject p o ctx⟩

/-- The members of every message, in a message of its own. -/
def sampleEnvelope (type : String) : JsMembers :=
  [("dsip", .obj [("core", .str "1.0"), ("min_core", .str "1.0"), ("profiles", .arr []), ("extensions", .arr []),
      ("critical", .arr [])]),
    ("type", .str type), ("id", .str "01ARZ3NDEKTSV4RRFFQ69G5FAV"), ("from", .str "did:key:a"), ("to", .str "did:key:b"),
    ("issued_at", .int 100), ("expires_at", .int 160)]

def sampleContent (kind : String) : JsMembers :=
  [("object", .str "content"), ("id", .str "00000000000000000000000000"),
    ("conversation", .str "01ARZ3NDEKTSV4RRFFQ69G5FAV"), ("sender", .str "did:key:a"), ("sent_at", .int 0),
    ("kind", .str kind), ("purpose", .str "message")]

def samplePlatform : Platform := ⟨fun _ => "0", fun _ => 1⟩

def sampleContext : ObjectContext := ⟨"01ARZ3NDEKTSV4RRFFQ69G5FAV", "direct", "did:key:a", none, none⟩

/-- A deposit of class `constructor`, key packages without any, a content object of
kind `constructor` and an object of that name: each passes its schema where there is
one, and throws. -/
theorem checks_throw :
    checkMessage (sampleEnvelope "deposit" ++ [("class", .str "constructor"), ("group", .str "AA")]) =
        .error .notIterable ∧
      checkMessage (sampleEnvelope "key-packages" ++ [("subject", .str "did:key:a")]) = .error .ofUndefined ∧
      checkObject samplePlatform (sampleContent "constructor") sampleContext = .error .notAFunction ∧
      ∃ e, checkObject samplePlatform [("object", .str "constructor")] sampleContext = .error e := by
  refine ⟨?_, ?_, ?_, ?_⟩
  · decide +kernel
  · decide +kernel
  · decide +kernel
  · exact ⟨_, rfl⟩

end Dsip.Messaging.Verdicts
