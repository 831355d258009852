import Dsip.Tn.Binding
import Dsip.Tn.Compact

/-!
# The order of the trust list

Of the issuing anchors the first one counts whose path passes step 2, and whether that anchor is
for the number is only asked afterwards. So a longer or another list keeps a binding verified just
if its first such anchor is for the number (`anchors_order`).
-/

namespace Dsip.Tn

open Dsip.Lib

variable {path rest : List Certificate}

section

variable {x : X509} {now : Int}

theorem linked_append (h : linked x (path ++ rest) = true) : linked x path = true := by
  induction path with
  | nil => rfl
  | cons c path ih =>
    rw [List.cons_append, linked_cons, Bool.and_eq_true] at h
    rw [linked_cons, Bool.and_eq_true]
    refine ⟨?_, ih h.2⟩
    cases path with
    | nil => rfl
    | cons next path => exact h.1

theorem checkFrom_append {p : Nat} (h : checkFrom now p (path ++ rest) = true) :
    checkFrom now p path = true := by
  induction path generalizing p with
  | nil => rfl
  | cons c path ih =>
    rw [List.cons_append, checkFrom, Bool.and_eq_true] at h
    rw [checkFrom, Bool.and_eq_true]
    exact ⟨h.1, ih h.2⟩

theorem checkPath_append (h : checkPath x (path ++ rest) now = true) : checkPath x path now = true := by
  unfold checkPath at h ⊢
  simp only [Bool.and_eq_true] at h ⊢
  obtain ⟨⟨hlinked, hfrom⟩, hleaf⟩ := h
  refine ⟨⟨linked_append hlinked, checkFrom_append hfrom⟩, ?_⟩
  cases path with
  | nil => rfl
  | cons c path => exact hleaf

theorem checkPath_take (h : checkPath x path now = true) (n : Nat) :
    checkPath x (path.take n) now = true := by
  rw [← List.take_append_drop n path] at h
  exact checkPath_append h

end

/-- A certificate of the chain is on the trust list. -/
def Anchored (anchors chain : List Certificate) : Prop := ∃ c ∈ chain, ∃ a ∈ anchors, c.raw = a.raw

/-- The first anchor that issues the chain by a path that passes step 2. -/
def firstIssuer (x : X509) (anchors chain : List Certificate) (last : Certificate) (now : Int) : Option Certificate :=
  (anchors.filter fun a => a.subject = last.issuer && signedBy x last a).find? fun a => checkPath x (chain ++ [a]) now

section

variable {x : X509} {now : Int} {anchors chain : List Certificate}

theorem find_of_anchored {i : Nat} (hi : (chain.findIdx? fun c => anchors.any fun a => c.raw = a.raw) = some i) :
    (buildPaths x chain anchors).find? (fun path => checkPath x path now) =
      if checkPath x (chain.take (i + 1)) now then some (chain.take (i + 1)) else none := by
  unfold buildPaths
  rw [hi]
  dsimp only
  rw [List.find?_singleton]

theorem find_of_not_anchored (h : ¬Anchored anchors chain) {last : Certificate} (hlast : chain.getLast? = some last) :
    (buildPaths x chain anchors).find? (fun path => checkPath x path now) =
      (firstIssuer x anchors chain last now).map fun a => chain ++ [a] := by
  have hnone : (chain.findIdx? fun c => anchors.any fun a => c.raw = a.raw) = none := by
    rw [List.findIdx?_eq_none_iff]
    intro c hc
    rw [List.any_eq_false]
    intro a ha heq
    exact h ⟨c, hc, a, ha, of_decide_eq_true heq⟩
  unfold buildPaths firstIssuer
  rw [hnone, hlast]
  dsimp only
  rw [List.find?_map]
  rfl

theorem anchored_iff : Anchored anchors chain ↔ ∃ i, (chain.findIdx? fun c => anchors.any fun a => c.raw = a.raw) = some i := by
  rw [← Option.isSome_iff_exists, List.findIdx?_isSome, List.any_eq_true]
  refine exists_congr fun c => and_congr_right fun _ => ?_
  rw [List.any_eq_true]
  simp

theorem take_ne_nil {α : Type} {p : α → Bool} {l : List α} {i : Nat} (h : l.findIdx? p = some i) : l.take (i + 1) ≠ [] := by
  obtain ⟨hlt, -, -⟩ := List.findIdx?_eq_some_iff_getElem.mp h
  intro hnil
  have hlen := congrArg List.length hnil
  rw [List.length_take, List.length_nil] at hlen
  omega

/-- With more anchors a path is found that is the old one cut short, or the chain with the first anchor that issues it. -/
theorem find_of_subset {more : List Certificate} (hsub : anchors ⊆ more)
    (hpath : (buildPaths x chain anchors).find? (fun path => checkPath x path now) = some path) :
    ∃ path', (buildPaths x chain more).find? (fun path => checkPath x path now) = some path' ∧
      ((Anchored more chain ∧ path' ≠ [] ∧ ∃ rest, path = path' ++ rest) ∨
        (¬Anchored more chain ∧ ∃ last a a', chain.getLast? = some last ∧ firstIssuer x more chain last now = some a' ∧
          path = chain ++ [a] ∧ path' = chain ++ [a'])) := by
  by_cases hold : Anchored anchors chain
  · obtain ⟨i, hi⟩ := anchored_iff.mp hold
    rw [find_of_anchored hi] at hpath
    split at hpath
    · rename_i hcheck
      cases hpath
      have hmore : Anchored more chain := by
        obtain ⟨c, hc, a, ha, heq⟩ := hold
        exact ⟨c, hc, a, hsub ha, heq⟩
      obtain ⟨j, hj⟩ := anchored_iff.mp hmore
      obtain ⟨_, hat, _⟩ := List.findIdx?_eq_some_iff_getElem.mp hi
      obtain ⟨_, _, hbefore⟩ := List.findIdx?_eq_some_iff_getElem.mp hj
      have hle : j ≤ i := by
        by_contra hgt
        refine hbefore i (not_le.mp hgt) ?_
        obtain ⟨a, ha, heq⟩ := List.any_eq_true.mp hat
        exact List.any_eq_true.mpr ⟨a, hsub ha, heq⟩
      have htake : chain.take (j + 1) = (chain.take (i + 1)).take (j + 1) := by
        rw [List.take_take, min_eq_left (by omega)]
      refine ⟨chain.take (j + 1), ?_, .inl ⟨hmore, ?_, (chain.take (i + 1)).drop (j + 1), ?_⟩⟩
      · rw [find_of_anchored hj, if_pos]
        rw [htake]
        exact checkPath_take hcheck (j + 1)
      · exact take_ne_nil hj
      · rw [htake, List.take_append_drop]
    · cases hpath
  · obtain ⟨last, hlast⟩ : ∃ last, chain.getLast? = some last := by
      cases hl : chain.getLast? with
      | some last => exact ⟨last, rfl⟩
      | none =>
        rw [List.getLast?_eq_none_iff] at hl
        subst hl
        cases hpath
    rw [find_of_not_anchored hold hlast] at hpath
    obtain ⟨a, ha, rfl⟩ := Option.map_eq_some_iff.mp hpath
    unfold firstIssuer at ha
    have hcheck : checkPath x (chain ++ [a]) now = true := @List.find?_some _ (fun a => checkPath x (chain ++ [a]) now) _ _ ha
    by_cases hmore : Anchored more chain
    · obtain ⟨j, hj⟩ := anchored_iff.mp hmore
      refine ⟨chain.take (j + 1), ?_, .inl ⟨hmore, ?_, chain.drop (j + 1) ++ [a], ?_⟩⟩
      · rw [find_of_anchored hj, if_pos (checkPath_take (checkPath_append hcheck) (j + 1))]
      · exact take_ne_nil hj
      · rw [← List.append_assoc, List.take_append_drop]
    · obtain ⟨hin, hissues⟩ := List.mem_filter.mp (List.mem_of_find?_eq_some ha)
      obtain ⟨a', ha'⟩ : ∃ a', firstIssuer x more chain last now = some a' := by
        rw [← Option.isSome_iff_exists]
        exact List.find?_isSome.mpr ⟨a, List.mem_filter.mpr ⟨hsub hin, hissues⟩, hcheck⟩
      refine ⟨chain ++ [a'], ?_, .inr ⟨hmore, last, a, a', hlast, ha', rfl, rfl⟩⟩
      rw [find_of_not_anchored hmore hlast, ha']
      rfl

end

/-- Where the path goes on to an anchor, the first one that passes step 2 is for the number. -/
def FirstSuits (x : X509) (ctx : Context) (binding : PyJson) (now : Int) : Prop :=
  ∀ b text chain last a, parseBinding binding = some b → ctx.certificates.lookup b.x5u = some text →
    loadChain x text = some chain → ¬Anchored (anchorsOf x ctx.trustAnchors) chain → chain.getLast? = some last →
    firstIssuer x (anchorsOf x ctx.trustAnchors) chain last now = some a →
    a.tnAuthList.all (fun entries => covers ctx.spcNumbers entries (digitsOf b.payload.tn)) = true

section

variable {x : X509} {ctx : Context} {binding did document : PyJson} {now : Int}

theorem coverageHolds_append {leaf : Certificate} {more : List Certificate} {d : String} :
    coverageHolds ctx (leaf :: path ++ more) d = true ↔ coverageHolds ctx (leaf :: path) d = true ∧
      more.all (fun c => c.tnAuthList.all fun entries => covers ctx.spcNumbers entries d) = true := by
  unfold coverageHolds
  rw [List.cons_append, List.all_cons, List.all_append, List.all_cons]
  simp only [List.head?_cons, Bool.and_eq_true, and_assoc]

theorem certPath_some {url : String} :
    certPath x ctx url now = some path ↔ ∃ text chain, ctx.certificates.lookup url = some text ∧
      loadChain x text = some chain ∧
      (buildPaths x chain (anchorsOf x ctx.trustAnchors)).find? (fun path => checkPath x path now) = some path := by
  unfold certPath
  rw [bind_some]
  refine exists_congr fun text => ?_
  rw [bind_some]
  simp only [exists_and_left]

theorem verify_eq_verified {tn subject : String} {expires : Int} {by_ : Option String} :
    verify x ctx binding did document now = .verified tn subject expires by_ ↔ ∃ b leaf,
      firstSteps x ctx (certPath x ctx) binding now = .ok (b, leaf) ∧
      lastSteps ctx did document b.payload leaf = .verified tn subject expires by_ := by
  unfold verify allSteps
  cases hfirst : firstSteps x ctx (certPath x ctx) binding now with
  | error reason =>
    refine iff_of_false (fun h => by cases h) ?_
    rintro ⟨b, leaf, h, -⟩
    cases h
  | ok passed =>
    obtain ⟨b, leaf⟩ := passed
    constructor
    · intro h
      exact ⟨b, leaf, rfl, h⟩
    · rintro ⟨b', leaf', h, hlast⟩
      cases h
      exact hlast

theorem verify_uncovered {b : Parsed} {leaf : Certificate} (hb : parseBinding binding = some b)
    (hfind : certPath x ctx b.x5u now = some (leaf :: rest))
    (hsignature : signatureHolds x leaf b.signature b.signingInput = true)
    (hcoverage : coverageHolds ctx (leaf :: rest) (digitsOf b.payload.tn) = false) :
    verify x ctx binding did document now = .rejected "not-authorized-for-tn" := by
  unfold verify allSteps firstSteps
  rw [hb]
  dsimp only
  rw [hfind]
  dsimp only
  rw [hsignature, hcoverage]
  rfl

/-- A list with the anchors of the old one, in any order, keeps a verified binding so just if its first issuing anchor suits. -/
theorem anchors_order {entries : List PyJson} (hsub : ctx.trustAnchors ⊆ entries) {tn subject : String} {expires : Int}
    {attested : Option String} (h : verify x ctx binding did document now = .verified tn subject expires attested) :
    let ctx' := { ctx with trustAnchors := entries }
    ((FirstSuits x ctx' binding now → verify x ctx' binding did document now = .verified tn subject expires attested) ∧
      (¬FirstSuits x ctx' binding now → verify x ctx' binding did document now = .rejected "not-authorized-for-tn")) ∧
    ((FirstSuits x ctx' binding now →
        Ts.verifyTnBinding x ctx' binding did document now = .verified tn subject expires attested) ∧
      (¬FirstSuits x ctx' binding now →
        Ts.verifyTnBinding x ctx' binding did document now = .rejected "not-authorized-for-tn")) := by
  intro ctx'
  rw [verifyTnBinding_eq]
  refine (and_self_iff).mpr ?_
  obtain ⟨b, leaf, hfirst, hlast⟩ := verify_eq_verified.mp h
  obtain ⟨hb, rest, hfind, hsignature, hcoverage, hlife, hiat, hexp⟩ := firstSteps_ok.mp hfirst
  obtain ⟨text, chain, htext, hchain, hpath⟩ := certPath_some.mp hfind
  have hanchors : anchorsOf x ctx.trustAnchors ⊆ anchorsOf x ctx'.trustAnchors := by
    intro c hc
    obtain ⟨entry, hentry, hread⟩ := List.mem_filterMap.mp hc
    exact List.mem_filterMap.mpr ⟨entry, hsub hentry, hread⟩
  obtain ⟨path', hpath', hshape⟩ := find_of_subset hanchors hpath
  have hfind' : certPath x ctx' b.x5u now = some path' := certPath_some.mpr ⟨text, chain, htext, hchain, hpath'⟩
  have hkeep {rest' : List Certificate} (heq : path' = leaf :: rest')
      (hcovers : coverageHolds ctx path' (digitsOf b.payload.tn) = true) :
      verify x ctx' binding did document now = .verified tn subject expires attested := by
    subst heq
    exact verify_eq_verified.mpr ⟨b, leaf, firstSteps_ok.mpr ⟨hb, rest', hfind', hsignature, hcovers, hlife, hiat, hexp⟩, hlast⟩
  rcases hshape with ⟨hanchored, hne, more, hsplit⟩ | ⟨hnot, last, a, a', hlast', hissuer, hold, hnew⟩
  · -- a certificate of the chain is an anchor of the new list: the path is cut short
    cases path' with
    | nil => exact absurd rfl hne
    | cons leaf' rest' =>
      rw [List.cons_append, List.cons.injEq] at hsplit
      obtain ⟨rfl, rfl⟩ := hsplit
      constructor
      · intro _
        exact hkeep rfl (coverageHolds_append.mp hcoverage).1
      · intro hunsuited
        refine absurd ?_ hunsuited
        intro b₁ text₁ chain₁ _ _ hb₁ htext₁ hchain₁ hnot₁
        obtain rfl := Option.some.inj (hb.symm.trans hb₁)
        obtain rfl := Option.some.inj (htext.symm.trans htext₁)
        obtain rfl := Option.some.inj (hchain.symm.trans hchain₁)
        exact absurd hanchored hnot₁
  · -- another anchor may issue the chain
    cases chain with
    | nil => cases hlast'
    | cons leaf' chain =>
      rw [List.cons_append, List.cons.injEq] at hold
      obtain ⟨rfl, rfl⟩ := hold
      have hcovered := (coverageHolds_append.mp hcoverage).1
      have hsuits : FirstSuits x ctx' binding now ↔
          a'.tnAuthList.all (fun entries => covers ctx.spcNumbers entries (digitsOf b.payload.tn)) = true := by
        constructor
        · intro hall
          exact hall b text (leaf :: chain) last a' hb htext hchain hnot hlast' hissuer
        · intro hcovers b₁ text₁ chain₁ last₁ a₁ hb₁ htext₁ hchain₁ _ hlast₁ hissuer₁
          obtain rfl := Option.some.inj (hb.symm.trans hb₁)
          obtain rfl := Option.some.inj (htext.symm.trans htext₁)
          obtain rfl := Option.some.inj (hchain.symm.trans hchain₁)
          obtain rfl := Option.some.inj (hlast'.symm.trans hlast₁)
          obtain rfl := Option.some.inj (hissuer.symm.trans hissuer₁)
          exact hcovers
      have hcoverage' : coverageHolds ctx path' (digitsOf b.payload.tn) = true ↔ FirstSuits x ctx' binding now := by
        rw [hnew, coverageHolds_append, hsuits]
        simp only [hcovered, true_and, List.all_cons, List.all_nil, Bool.and_true]
      constructor
      · intro hfs
        exact hkeep hnew (hcoverage'.mpr hfs)
      · intro hunsuited
        have hfails : coverageHolds ctx' path' (digitsOf b.payload.tn) = false :=
          Bool.eq_false_iff.mpr fun hc => hunsuited (hcoverage'.mp hc)
        rw [hnew] at hfind' hfails
        exact verify_uncovered hb hfind' hsignature hfails

end

/-! ## Two anchors of one name and key -/

namespace TwoAnchors

def leaf : Certificate :=
  { subject := [1], issuer := [2], es256 := true, key := some [1], notBefore := 0, notAfter := 9, unknownCritical := false,
    basicConstraints := none, keyUsage := none, tnAuthList := some [.one "12"], attestedBy := none, raw := [0] }

def anchor (tnAuthList : Option (List TnEntry)) (raw : List Nat) : Certificate :=
  { subject := [2], issuer := [2], es256 := true, key := some [2], notBefore := 0, notAfter := 9, unknownCritical := false,
    basicConstraints := some ⟨true, none⟩, keyUsage := none, tnAuthList, attestedBy := none, raw }

/-- The leaf, the anchor for every number, and the anchor for another number. -/
def fields (der : List Nat) : Option Fields :=
  match der with
  | [0] => some leaf.toFields
  | [1] => some (anchor none [1]).toFields
  | [2] => some (anchor (some [.one "34"]) [2]).toFields
  | _ => none

def x : X509 where
  base64 s := [("AQ==", [1]), ("Ag==", [2])].lookup s
  blocks _ := some [[0]]
  parse := fields
  signed _ key := key = [2]
  verify key _ _ := key = [1]

def free : PyJson := .str (.ofChars "AQ==".toList)

def bound : PyJson := .str (.ofChars "Ag==".toList)

def ctx (anchors : List PyJson) : Context where
  trustAnchors := anchors
  certificates := [("https://a", "chain")]
  spcNumbers := []
  requireStatus := false
  status := []

def header : List (String × Json) :=
  [("alg", .str "ES256"), ("typ", .str "dsip-tn-binding+jwt"), ("x5u", .str "https://a")]

def payload : List (String × Json) :=
  [("tn", .str "+12"), ("did", .str "did:a"), ("iat", .int 0), ("exp", .int 10), ("jti", .str "00000000000000000000000000")]

/-- `r` and `s` are 1. -/
def signature : List Nat := List.replicate 31 0 ++ 1 :: List.replicate 31 0 ++ [1]

def text : List Char := compact (.obj header) (.obj payload) signature

def binding : PyJson := .str (.ofChars text)

def did : PyJson := .str (.ofChars "did:a".toList)

def document : PyJson := .obj [(.ofChars "id".toList, did),
  (.ofChars "alsoKnownAs".toList, .arr [.str (.ofChars "tel:+12".toList)])]

theorem good_header : Webvh.IJson.Good (PyJson.ofJson (.obj header)) := by
  refine good_obj (by decide) ?_
  simp only [header, List.forall_mem_cons]
  exact ⟨good_str _, good_str _, good_str _, fun m hm => absurd hm List.not_mem_nil⟩

theorem good_payload : Webvh.IJson.Good (PyJson.ofJson (.obj payload)) := by
  refine good_obj (by decide) ?_
  simp only [payload, List.forall_mem_cons]
  exact ⟨good_str _, good_str _, good_int (by decide), good_int (by decide), good_str _, fun m hm => absurd hm List.not_mem_nil⟩

theorem parse_compact {members : List (String × Json)} {p : Payload}
    (hgood : Webvh.IJson.Good (PyJson.ofJson (.obj members))) (hpayload : parsePayload (written members) = some p) :
    parseBinding (.str (.ofChars (compact (.obj header) (.obj members) signature))) =
      some ⟨"https://a", p, signingInput (.obj header) (.obj members), signature⟩ := by
  have hsplit := @splitJws_compact header members signature good_header hgood (by decide) (by decide)
  have hheader : parseHeader (written header) = some "https://a" := by decide +kernel
  unfold parseBinding
  rw [textOf_ofChars, Option.bind_some, hsplit, Option.bind_eq_bind, Option.bind_some, hheader, Option.bind_eq_bind,
    Option.bind_some, hpayload]
  rfl

theorem parse_binding : parseBinding binding = some ⟨"https://a", ⟨"+12", "did:a", 0, 10, none⟩,
    signingInput (.obj header) (.obj payload), signature⟩ :=
  parse_compact good_payload (by decide +kernel)

theorem free_path : certPath x (ctx [free, bound]) "https://a" 5 = some [leaf, anchor none [1]] := by decide +kernel

theorem bound_path : certPath x (ctx [bound, free]) "https://a" 5 = some [leaf, anchor (some [.one "34"]) [2]] := by
  decide +kernel

theorem free_first : verify x (ctx [free, bound]) binding did document 5 = .verified "+12" "did:a" 10 none := by
  refine verify_eq_verified.mpr ⟨_, _, firstSteps_ok.mpr ⟨parse_binding, _, free_path, ?_, ?_, ?_, ?_, ?_⟩, ?_⟩
  all_goals decide +kernel

theorem bound_first : verify x (ctx [bound, free]) binding did document 5 = .rejected "not-authorized-for-tn" :=
  verify_uncovered parse_binding bound_path (by decide +kernel) (by decide +kernel)

end TwoAnchors

/-- The other order of two anchors of one name and key: the first one is for another number. -/
theorem anchors_have_order : [TwoAnchors.free, TwoAnchors.bound].Perm [TwoAnchors.bound, TwoAnchors.free] ∧
    verify TwoAnchors.x (TwoAnchors.ctx [TwoAnchors.free, TwoAnchors.bound]) TwoAnchors.binding TwoAnchors.did
      TwoAnchors.document 5 = .verified "+12" "did:a" 10 none ∧
    verify TwoAnchors.x (TwoAnchors.ctx [TwoAnchors.bound, TwoAnchors.free]) TwoAnchors.binding TwoAnchors.did
      TwoAnchors.document 5 = .rejected "not-authorized-for-tn" ∧
    Ts.verifyTnBinding TwoAnchors.x (TwoAnchors.ctx [TwoAnchors.bound, TwoAnchors.free]) TwoAnchors.binding TwoAnchors.did
      TwoAnchors.document 5 = .rejected "not-authorized-for-tn" := by
  rw [verifyTnBinding_eq]
  exact ⟨.swap _ _ [], TwoAnchors.free_first, TwoAnchors.bound_first, TwoAnchors.bound_first⟩

/-- The anchor for every number stays the first one if the list is said twice. -/
theorem anchors_order_twice :
    verify TwoAnchors.x (TwoAnchors.ctx [TwoAnchors.free, TwoAnchors.bound, TwoAnchors.free]) TwoAnchors.binding
      TwoAnchors.did TwoAnchors.document 5 = .verified "+12" "did:a" 10 none := by
  have hsub : (TwoAnchors.ctx [TwoAnchors.free, TwoAnchors.bound]).trustAnchors ⊆
      [TwoAnchors.free, TwoAnchors.bound, TwoAnchors.free] :=
    fun entry hentry => List.mem_append_left [TwoAnchors.free] hentry
  refine (anchors_order hsub TwoAnchors.free_first).1.1 ?_
  intro b text chain last a hb htext hchain _ hlast hissuer
  rw [TwoAnchors.parse_binding] at hb
  cases hb
  have hleaf : loadChain TwoAnchors.x text = some [TwoAnchors.leaf] := rfl
  rw [hleaf] at hchain
  cases hchain
  cases hlast
  cases hissuer
  rfl

end Dsip.Tn
