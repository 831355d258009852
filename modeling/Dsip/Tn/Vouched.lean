import Dsip.Tn.Anchors
import Dsip.Tn.Passport

/-!
# What is verified is vouched for

A binding or a PASSporT is verified only by a path of certificates that begins with what its URL
serves and ends at an entry of the trust list (`Trusted`), each certificate for the number
(`Covered`); and both programs verify the same.
-/

namespace Dsip.Tn

open Dsip.Lib

/-- A leaf, and the certificates by which it is trusted. -/
structure Trusted (x : X509) (ctx : Context) (url : String) (now : Int) (leaf : Certificate) (rest : List Certificate) :
    Prop where
  /-- The leaf is the first block that the URL serves. -/
  served : ∃ text blocks, ctx.certificates.lookup url = some text ∧ x.blocks text = some (leaf.raw :: blocks) ∧
    parseCertificate x leaf.raw = some leaf
  anchored : ∃ entry ∈ ctx.trustAnchors, ∃ anchor ∈ (leaf :: rest).getLast?, anchorBytes x entry = some anchor.raw
  issued : (leaf :: rest).IsChain fun c next => c.issuer = next.subject ∧ signedBy x c next = true
  valid : ∀ c ∈ leaf :: rest, c.es256 = true ∧ c.key.isSome = true ∧ c.notBefore ≤ now ∧ now ≤ c.notAfter ∧
    c.unknownCritical = false
  issuers : ∀ (p : Nat) (c : Certificate), rest[p]? = some c → ∃ b, c.basicConstraints = some b ∧ b.ca = true ∧ (∀ n ∈ b.pathLen, p ≤ n) ∧
    ∀ usage ∈ c.keyUsage, usage.keyCertSign = true
  signs : ∀ usage ∈ leaf.keyUsage, usage.digitalSignature = true

/-- A number that an entry is for. -/
def TnEntry.Has (spcNumbers : List (String × List String)) (d : String) : TnEntry → Prop
  | .one number => number = d
  | .range start count => start ≠ "" ∧ (∀ c ∈ start.toList, c.isDigit = true) ∧ start.length = d.length ∧
      ∃ k < count, Nat.ofDigitChars 10 d.toList 0 = Nat.ofDigitChars 10 start.toList 0 + k
  | .spc code => ∃ numbers, spcNumbers.lookup code = some numbers ∧ d ∈ numbers

/-- The leaf is for some numbers, and every certificate that is for some is for this one. -/
def Covered (ctx : Context) (leaf : Certificate) (rest : List Certificate) (d : String) : Prop :=
  leaf.tnAuthList.isSome = true ∧
    ∀ c ∈ leaf :: rest, ∀ entries ∈ c.tnAuthList, ∃ e ∈ entries, e.Has ctx.spcNumbers d

section Paths

variable {x : X509} {ctx : Context} {url : String} {now : Int} {path : List Certificate}

theorem isChain_of_linked (h : linked x path = true) :
    path.IsChain fun c next => c.issuer = next.subject ∧ signedBy x c next = true := by
  induction path with
  | nil => exact .nil
  | cons c path ih =>
    cases path with
    | nil => exact .singleton c
    | cons next path =>
      simp only [linked, Bool.and_eq_true, decide_eq_true_eq] at h
      exact .cons_cons h.1 (ih h.2)

theorem of_checkFrom {p : Nat} (h : checkFrom now p path = true) {i : Nat} {c : Certificate} (hc : path[i]? = some c) :
    isValid now c = true ∧ (p + i = 0 ∨ isIssuer (p + i) c = true) := by
  induction path generalizing p i with
  | nil => cases hc
  | cons c' path ih =>
    simp only [checkFrom, Bool.and_eq_true, Bool.or_eq_true, decide_eq_true_eq] at h
    cases i with
    | zero =>
      obtain rfl := Option.some.inj hc
      exact ⟨h.1.1, h.1.2⟩
    | succ i =>
      have hnext := ih h.2 hc
      rw [Nat.add_assoc, Nat.add_comm 1 i] at hnext
      exact hnext

theorem of_isIssuer {p : Nat} {c : Certificate} (h : isIssuer p c = true) :
    ∃ b, c.basicConstraints = some b ∧ b.ca = true ∧ (∀ n ∈ b.pathLen, p - 1 ≤ n) ∧
      ∀ usage ∈ c.keyUsage, usage.keyCertSign = true := by
  unfold isIssuer at h
  cases hb : c.basicConstraints with
  | none =>
    rw [hb] at h
    cases h
  | some b =>
    simp only [hb, Option.any_some, Option.all_some, Bool.and_eq_true] at h
    obtain ⟨⟨hca, husage⟩, hlen⟩ := h
    refine ⟨b, rfl, hca, fun n hn => ?_, fun usage hu => ?_⟩
    · rw [show b.pathLen = some n from hn] at hlen
      exact of_decide_eq_true hlen
    · rw [show c.keyUsage = some usage from hu] at husage
      exact husage

theorem head_of_load {text : String} {chain : List Certificate} (h : loadChain x text = some chain) :
    ∃ leaf more blocks, chain = leaf :: more ∧ x.blocks text = some (leaf.raw :: blocks) := by
  obtain ⟨blocks, hblocks, h⟩ := Option.bind_eq_some_iff.mp h
  cases blocks with
  | nil => cases h
  | cons der blocks =>
    rw [if_neg (List.cons_ne_nil der blocks), List.mapM_cons] at h
    obtain ⟨leaf, hleaf, h⟩ := bind_some.mp h
    obtain ⟨more, -, h⟩ := bind_some.mp h
    cases h
    exact ⟨leaf, more, blocks, rfl, by rw [hblocks, raw_of_parse hleaf]⟩

theorem of_buildPaths {leaf : Certificate} {more anchors : List Certificate}
    (h : path ∈ buildPaths x (leaf :: more) anchors) :
    ∃ rest, path = leaf :: rest ∧ ∃ anchor ∈ path.getLast?, ∃ a ∈ anchors, anchor.raw = a.raw := by
  unfold buildPaths at h
  split at h
  -- the chain holds an anchor, and is cut after the first one
  · rename_i i hi
    obtain rfl := List.mem_singleton.mp h
    obtain ⟨hlt, hat, -⟩ := List.findIdx?_eq_some_iff_getElem.mp hi
    obtain ⟨a, ha, heq⟩ := List.any_eq_true.mp hat
    refine ⟨more.take i, by rw [List.take_succ_cons], _, ?_, a, ha, of_decide_eq_true heq⟩
    rw [List.getLast?_take, if_neg (Nat.succ_ne_zero i), Nat.add_sub_cancel, List.getElem?_eq_getElem hlt]
    rfl
  -- an anchor that has signed the last certificate is put after it
  · rw [List.getLast?_cons] at h
    obtain ⟨a, ha, rfl⟩ := List.mem_map.mp h
    exact ⟨more ++ [a], rfl, a, List.getLast?_concat, a, (List.mem_filter.mp ha).1, rfl⟩

theorem trusted_of_certPath (h : certPath x ctx url now = some path) :
    ∃ leaf rest, path = leaf :: rest ∧ Trusted x ctx url now leaf rest := by
  obtain ⟨text, chain, htext, hload, hfind⟩ := certPath_some.mp h
  obtain ⟨leaf, more, blocks, rfl, hblocks⟩ := head_of_load hload
  obtain ⟨rest, rfl, anchor, hlast, a, ha, hraw⟩ := of_buildPaths (List.mem_of_find?_eq_some hfind)
  have hcheck := List.find?_some hfind
  simp only [checkPath, Bool.and_eq_true, List.head?_cons, Option.all_some] at hcheck
  obtain ⟨⟨hlinked, hfrom⟩, hleaf⟩ := hcheck
  refine ⟨leaf, rest, rfl, ⟨text, blocks, htext, hblocks, parse_of_load hload leaf List.mem_cons_self⟩, ?_,
    isChain_of_linked hlinked, fun c hc => ?_, fun p c hc => ?_, fun usage hu => ?_⟩
  · obtain ⟨entry, hentry, hread⟩ := List.mem_filterMap.mp ha
    obtain ⟨der, hder, hparse⟩ := Option.bind_eq_some_iff.mp hread
    exact ⟨entry, hentry, anchor, hlast, by rw [hder, hraw, raw_of_parse hparse]⟩
  · obtain ⟨i, hi⟩ := List.getElem?_of_mem hc
    have hvalid := (of_checkFrom hfrom hi).1
    simp only [isValid, Bool.and_eq_true, decide_eq_true_eq, Bool.not_eq_true'] at hvalid
    obtain ⟨⟨⟨hes, hkey⟩, hbefore, hafter⟩, hcritical⟩ := hvalid
    exact ⟨hes, hkey, hbefore, hafter, hcritical⟩
  · have hissuer := (of_checkFrom hfrom (i := p + 1) hc).2.resolve_left (by omega)
    obtain ⟨b, hb, hca, hlen, husage⟩ := of_isIssuer hissuer
    exact ⟨b, hb, hca, fun n hn => by have := hlen n hn; omega, husage⟩
  · rw [show leaf.keyUsage = some usage from hu] at hleaf
    exact hleaf

theorem covers_iff {spcNumbers : List (String × List String)} {entries : List TnEntry} {d : String} :
    covers spcNumbers entries d = true ↔ ∃ e ∈ entries, e.Has spcNumbers d := by
  unfold covers
  rw [List.any_eq_true]
  refine exists_congr fun e => and_congr_right fun _ => ?_
  cases e with
  | one number => exact decide_eq_true_iff
  | range start count =>
    simp only [TnEntry.Has, Bool.and_eq_true, decide_eq_true_eq, List.all_eq_true, and_assoc]
    refine and_congr_right fun _ => and_congr_right fun _ => and_congr_right fun _ => ?_
    constructor
    · rintro ⟨hlow, hhigh⟩
      refine ⟨Nat.ofDigitChars 10 d.toList 0 - Nat.ofDigitChars 10 start.toList 0, ?_, ?_⟩ <;> omega
    · rintro ⟨k, hk, heq⟩
      omega
  | spc code =>
    cases hcode : spcNumbers.lookup code with
    | none => simp [TnEntry.Has, hcode]
    | some numbers => simp [TnEntry.Has, hcode]

theorem covered_iff {leaf : Certificate} {rest : List Certificate} {d : String} :
    coverageHolds ctx (leaf :: rest) d = true ↔ Covered ctx leaf rest d := by
  unfold coverageHolds Covered
  rw [Bool.and_eq_true, List.head?_cons, Option.any_some, List.all_eq_true]
  refine and_congr_right fun _ => forall₂_congr fun c _ => ?_
  cases c.tnAuthList with
  | none => simp
  | some entries => simp [covers_iff]

end Paths

end Dsip.Tn
