import Mathlib.Data.List.ReduceOption
import Dsip.Lib.HashChain
import Dsip.Webvh.Resolve

/-!
# The history of a DID is not rewritten

What a resolution that succeeds says of its log: the times increase, each entry is
signed by a key that the one before it authorized, and the entries are a hash
chain. A cached `versionId` so fixes the log up to its entry.
-/

namespace Dsip.Webvh

open Dsip.Lib

variable {c : Crypto}

/-! ## Steps of a resolution -/

theorem bind_ok {α β : Type} {x : Except Stop α} {k : α → Except Stop β} {b : β} :
    x >>= k = .ok b ↔ ∃ a, x = .ok a ∧ k a = .ok b := by
  cases x with
  | error stop => exact ⟨nofun, fun ⟨_, h, _⟩ => nomatch h⟩
  | ok a => exact ⟨fun h => ⟨a, rfl, h⟩, fun ⟨_, h, hk⟩ => by cases h; exact hk⟩

@[simp] theorem check_ok {ok : Bool} {reason : String} {u : Unit} : check ok reason = .ok u ↔ ok = true := by
  cases ok <;> simp [check]

@[simp] theorem require_ok {α : Type} {x : Option α} {reason : String} {a : α} :
    require x reason = .ok a ↔ x = some a := by
  cases x <;> simp [require]

@[simp] theorem pure_ok {α : Type} {a b : α} : (pure a : Except Stop α) = .ok b ↔ a = b := by
  simp [pure, Except.pure]

/-! ## One entry -/

theorem checkVersion_ok {n : Nat} {e : Entry} {hash : String} (h : checkVersion n e = .ok hash) :
    ∃ digits, versionParts e.versionId = some (digits, hash.toList) ∧ hash.toList ≠ [] ∧
      intOf digits = .ok n := by
  obtain ⟨⟨digits, text⟩, hparts, h⟩ := bind_ok.mp h
  obtain ⟨number, hnumber, h⟩ := bind_ok.mp h
  obtain ⟨_, hn, h⟩ := bind_ok.mp h
  obtain ⟨_, _, rfl⟩ := by simpa only [bind_ok, pure_ok] using h
  obtain ⟨hparts, hbase⟩ := Option.filter_eq_some_iff.mp (require_ok.mp hparts)
  obtain rfl : number = n := by simpa using hn
  have hne : text ≠ [] := by
    rintro rfl
    simp [isBase58] at hbase
  exact ⟨digits, by simpa using hparts, by simpa using hne, hnumber⟩

variable {now t : Int}

theorem checkTime_ok {prev : Option Accepted} {e : Entry} (h : checkTime now prev e = .ok t) :
    (asString e.versionTime).bind parseTime = some t ∧ ∀ a ∈ prev, a.time < t := by
  obtain ⟨t', ht, h⟩ := bind_ok.mp h
  obtain ⟨_, hprev, h⟩ := bind_ok.mp h
  obtain ⟨_, _, rfl⟩ := by simpa only [bind_ok, pure_ok] using h
  refine ⟨require_ok.mp ht, fun a ha => ?_⟩
  obtain rfl : prev = some a := ha
  simpa using hprev

/-- A proof of the entry by this key verifies. -/
def SignedBy (c : Crypto) (e : Entry) (key : String) : Prop :=
  ∃ pr ∈ e.proof, ∃ proof, proofKey pr = some (proof, key) ∧
    proofOk c (e.body e.versionId) proof (multikeyPub key) = .ok true

theorem checkProofs_ok {document : Json} {keys : List String} :
    ∀ {proofs : List Json} {authorized : Bool}, checkProofs c document keys authorized proofs = .ok true →
      authorized = true ∨ ∃ pr ∈ proofs, ∃ proof, ∃ key ∈ keys,
        proofKey pr = some (proof, key) ∧ proofOk c document proof (multikeyPub key) = .ok true := by
  intro proofs
  induction proofs with
  | nil =>
    intro authorized h
    exact .inl (by simpa [checkProofs] using h)
  | cons pr rest ih =>
    intro authorized h
    obtain ⟨⟨proof, key⟩, hkey, h⟩ := bind_ok.mp h
    dsimp only at h
    split at h
    case isTrue hmem =>
      obtain ⟨ok, hok, h⟩ := bind_ok.mp h
      obtain ⟨_, hcheck, _⟩ := bind_ok.mp h
      obtain rfl : ok = true := check_ok.mp hcheck
      exact .inr ⟨pr, List.mem_cons_self, proof, key, hmem, require_ok.mp hkey, hok⟩
    case isFalse =>
      refine (ih h).imp id ?_
      rintro ⟨pr', hpr', found⟩
      exact ⟨pr', List.mem_cons_of_mem _ hpr', found⟩

/-- The keys that may sign the entry after this: the active ones, or with
pre-rotation those that were committed to. -/
def Active.Authorizes (c : Crypto) (a : Active) (key : String) : Prop :=
  if a.nextKeyHashes = [] then key ∈ a.updateKeys
  else mhB58 c (utf8Encode key.toList) ∈ a.nextKeyHashes

theorem checkKeys_ok {prev : Active} {p : Params} {keys : List String}
    (h : checkKeys c prev p = .ok keys) : ∀ key ∈ keys, prev.Authorizes c key := by
  intro key hkey
  unfold checkKeys at h
  unfold Active.Authorizes
  split at h
  case isTrue hoff =>
    obtain rfl : prev.updateKeys = keys := by simpa using h
    rwa [if_pos hoff]
  case isFalse hon =>
    rw [if_neg hon]
    split at h
    case h_1 committed _ _ _ =>
      obtain ⟨_, hall, h⟩ := bind_ok.mp h
      obtain rfl : committed = keys := by simpa using h
      simpa using List.all_eq_true.mp (check_ok.mp hall) key hkey
    case h_2 => cases h

/-- What the hash of an entry binds it to: the version before it, or the SCID. -/
structure Linked (c : Crypto) (ref : String) (a : Accepted) : Prop where
  hash : (versionParts a.entry.versionId).map (·.2) = some (mhB58 c (jcs (a.entry.body ref))).toList
  time : (asString a.entry.versionTime).bind parseTime = some a.time

/-- What an entry has to do with the one before it. -/
structure Follows (c : Crypto) (prev a : Accepted) : Prop where
  later : prev.time < a.time
  inherits : ∃ n p, checkParams a.entry.parameters n = .ok p ∧ a.active = prev.active.update p
  signed : ∃ key, prev.active.Authorizes c key ∧ SignedBy c a.entry key

/-- The entry has this number. -/
def Numbered (n : Nat) (e : Entry) : Prop :=
  ∃ digits hash, versionParts e.versionId = some (digits, hash) ∧ hash ≠ [] ∧ intOf digits = .ok n

theorem checkFirst_ok {e : Entry} {a : Accepted} (h : checkFirst c now e = .ok a) :
    a.entry = e ∧ Numbered 1 e ∧ ∃ scid, Linked c scid a := by
  obtain ⟨hash, hversion, h⟩ := bind_ok.mp h
  obtain ⟨t, htime, h⟩ := bind_ok.mp h
  obtain ⟨p, -, h⟩ := bind_ok.mp h
  obtain ⟨scid, -, h⟩ := bind_ok.mp h
  obtain ⟨_, -, h⟩ := bind_ok.mp h
  obtain ⟨_, hhash, h⟩ := bind_ok.mp h
  obtain ⟨_, -, h⟩ := bind_ok.mp h
  obtain ⟨_, -, h⟩ := bind_ok.mp h
  obtain ⟨did, -, h⟩ := bind_ok.mp h
  obtain rfl := pure_ok.mp h
  obtain ⟨digits, hparts, hne, hnumber⟩ := checkVersion_ok hversion
  obtain rfl : mhB58 c (jcs (e.body scid)) = hash := by simpa using hhash
  exact ⟨rfl, ⟨digits, _, hparts, hne, hnumber⟩, scid, by simp [hparts], (checkTime_ok htime).1⟩

theorem checkNext_ok {scid : String} {n : Nat} {prev a : Accepted} {e : Entry}
    (h : checkNext c now scid n prev e = .ok a) :
    a.entry = e ∧ Numbered n e ∧ Linked c prev.entry.versionId a ∧ Follows c prev a := by
  obtain ⟨hash, hversion, h⟩ := bind_ok.mp h
  obtain ⟨t, htime, h⟩ := bind_ok.mp h
  obtain ⟨_, -, h⟩ := bind_ok.mp h
  obtain ⟨p, hp, h⟩ := bind_ok.mp h
  obtain ⟨_, hhash, h⟩ := bind_ok.mp h
  obtain ⟨keys, hkeys, h⟩ := bind_ok.mp h
  obtain ⟨authorized, hproofs, h⟩ := bind_ok.mp h
  obtain ⟨_, hauthorized, h⟩ := bind_ok.mp h
  obtain ⟨did, -, h⟩ := bind_ok.mp h
  obtain rfl := pure_ok.mp h
  obtain ⟨digits, hparts, hne, hnumber⟩ := checkVersion_ok hversion
  obtain rfl : mhB58 c (jcs (e.body prev.entry.versionId)) = hash := by simpa using hhash
  obtain rfl : authorized = true := check_ok.mp hauthorized
  obtain ⟨pr, hpr, proof, key, hkey, hread, hok⟩ := (checkProofs_ok hproofs).resolve_left nofun
  obtain ⟨ht, hlater⟩ := checkTime_ok htime
  exact ⟨rfl, ⟨digits, _, hparts, hne, hnumber⟩, ⟨by simp [hparts], ht⟩,
    ⟨hlater prev rfl, ⟨n, p, hp, rfl⟩, key, checkKeys_ok hkeys key hkey, pr, hpr, proof, hread, hok⟩⟩

/-! ## A log -/

/-- The entries from `as` on, of which the first is entry `n`. -/
structure History (c : Crypto) (n : Nat) (ref : String) (lines : List (List Char))
    (as : List Accepted) : Prop where
  read : lines.map readEntry = as.map fun a => some a.entry
  numbered : ∀ i a, as[i]? = some a → Numbered (n + i) a.entry
  chained : Chained (Linked c) (·.entry.versionId) ref as
  follows : as.IsChain (Follows c)

theorem History.cons {n : Nat} {ref : String} {line : List Char} {lines : List (List Char)}
    {a : Accepted} {as : List Accepted} (hread : readEntry line = some a.entry)
    (hn : Numbered n a.entry) (hlink : Linked c ref a) (hfollows : ∀ b ∈ as.head?, Follows c a b)
    (h : History c (n + 1) a.entry.versionId lines as) : History c n ref (line :: lines) (a :: as) where
  read := by simp [hread, h.read]
  numbered
    | 0, _, rfl => hn
    | i + 1, b, hb => by
        have := h.numbered i b (by simpa using hb)
        rwa [Nat.add_right_comm] at this
  chained := ⟨hlink, h.chained⟩
  follows := List.isChain_cons.mpr ⟨hfollows, h.follows⟩

theorem checkRest_ok {scid : String} :
    ∀ {lines : List (List Char)} {n : Nat} {prev : Accepted} {as : List Accepted},
      checkRest c now scid n prev lines = .ok as →
        History c n prev.entry.versionId lines as ∧ ∀ a ∈ as.head?, Follows c prev a := by
  intro lines
  induction lines with
  | nil =>
    intro n prev as h
    obtain rfl : [] = as := by simpa [checkRest] using h
    exact ⟨⟨rfl, nofun, trivial, .nil⟩, nofun⟩
  | cons line lines ih =>
    intro n prev as h
    obtain ⟨e, hread, h⟩ := bind_ok.mp h
    obtain ⟨a, ha, h⟩ := bind_ok.mp h
    obtain ⟨rest, hrest, h⟩ := bind_ok.mp h
    obtain rfl := pure_ok.mp h
    obtain ⟨rfl, hn, hlink, hfollows⟩ := checkNext_ok ha
    obtain ⟨hhistory, hhead⟩ := ih hrest
    refine ⟨hhistory.cons (require_ok.mp hread) hn hlink hhead, ?_⟩
    rintro _ ⟨⟩
    exact hfollows

variable {did log : String} {witness : Option String}

theorem verify_ok {a : Accepted} {as : List Accepted} (h : verify c did log witness now = .ok (a, as)) :
    ∃ scid, History c 1 scid (linesOf log) (a :: as) := by
  obtain ⟨_, -, h⟩ := bind_ok.mp h
  obtain ⟨⟨scid, a', as'⟩, hlog, h⟩ := bind_ok.mp h
  obtain ⟨_, -, h⟩ := bind_ok.mp h
  obtain ⟨_, -, h⟩ := bind_ok.mp h
  obtain ⟨rfl, rfl⟩ : a' = a ∧ as' = as := by simpa using h
  unfold checkLog at hlog
  split at hlog
  case h_1 => cases hlog
  case h_2 line lines hlines =>
    obtain ⟨e, hread, hlog⟩ := bind_ok.mp hlog
    obtain ⟨first, hfirst, hlog⟩ := bind_ok.mp hlog
    obtain ⟨_, -, hlog⟩ := bind_ok.mp hlog
    obtain ⟨rest, hrest, hlog⟩ := bind_ok.mp hlog
    obtain ⟨-, rfl, rfl⟩ : _ ∧ first = a' ∧ rest = as' := by simpa using hlog
    obtain ⟨rfl, hn, ref, hlink⟩ := checkFirst_ok hfirst
    obtain ⟨hhistory, hhead⟩ := checkRest_ok hrest
    exact ⟨ref, hlines ▸ hhistory.cons (require_ok.mp hread) hn hlink hhead⟩

/-! ## The cached version -/

theorem checkCache_eq {n : Nat} {e : Entry} (hn : Numbered n e) (entries : List Accepted) :
    checkCache (some e.versionId) entries = if entries.length < n then .error (.reject "rollback")
      else if (entries[n - 1]?).any (·.entry.versionId = e.versionId) then .ok ()
      else .error (.reject "fork") := by
  obtain ⟨digits, hash, hparts, hne, hnumber⟩ := hn
  have hcached : (versionParts e.versionId).filter (·.2 ≠ []) = some (digits, hash) := by
    simp [hparts, hne]
  simp only [checkCache, Option.bind_some, hcached, hnumber]
  by_cases hlen : entries.length < n
  · simp only [check, bind, Except.bind, hlen, not_le.mpr hlen, decide_false, if_true]
    rfl
  · simp only [check, bind, Except.bind, hlen, not_lt.mp hlen, decide_true, if_true, if_false,
      Option.some.injEq, eq_comm]

variable {cache : Option String}

theorem resolve_ok {o : Outcome} (h : resolve c did log witness cache now = .ok o) :
    ∃ a as, verify c did log witness now = .ok (a, as) ∧ checkCache cache (a :: as) = .ok () ∧
      o.versionId = (as.getLastD a).entry.versionId := by
  obtain ⟨⟨a, as⟩, hverify, h⟩ := bind_ok.mp h
  obtain ⟨_, hcache, h⟩ := bind_ok.mp h
  refine ⟨a, as, hverify, hcache, ?_⟩
  split at h
  all_goals
    obtain rfl := pure_ok.mp h
    rfl

theorem resolve_of_verify {stop : Stop} (h : verify c did log witness now = .error stop) :
    resolve c did log witness cache now = .error stop := by
  simp only [resolve, h]
  rfl

theorem resolve_of_cache {stop : Stop}
    {a : Accepted} {as : List Accepted} (h : verify c did log witness now = .ok (a, as))
    (hcache : checkCache cache (a :: as) = .error stop) :
    resolve c did log witness cache now = .error stop := by
  simp only [resolve, h, bind, Except.bind, hcache]

/-- Two entries that say the same, proofs and the order of members aside. -/
structure Entry.Same (e f : Entry) : Prop where
  versionId : e.versionId = f.versionId
  versionTime : e.versionTime = f.versionTime
  parameters : canon e.parameters = canon f.parameters
  state : canon (.obj e.state) = canon (.obj f.state)

theorem canon_body (e : Entry) (ref : String) :
    canon (e.body ref) = .obj [("parameters", canon e.parameters), ("state", canon (.obj e.state)),
      ("versionId", .str ref), ("versionTime", canon e.versionTime)] := by
  have hsorted (p s v t : Json) :
      sortMembers [("parameters", p), ("state", s), ("versionId", v), ("versionTime", t)] =
        [("parameters", p), ("state", s), ("versionId", v), ("versionTime", t)] := by
    refine List.Pairwise.insertionSort_eq ?_
    simp
    decide
  simp only [Entry.body, canon, canonMembers, hsorted]

theorem canon_time {v w : Json} {u : Int} (hv : (asString v).bind parseTime = some t)
    (hw : (asString w).bind parseTime = some u) (h : canon v = canon w) : v = w := by
  match v, w with
  | .str v, .str w => simpa only [canon] using h

theorem Linked.inj (hc : Function.Injective c.sha256) {r s : String} {a b : Accepted}
    (ha : Linked c r a) (hb : Linked c s b) (h : a.entry.versionId = b.entry.versionId) :
    r = s ∧ a.entry.Same b.entry := by
  have hhash : mhB58 c (jcs (a.entry.body r)) = mhB58 c (jcs (b.entry.body s)) :=
    String.toList_injective (Option.some.inj (by rw [← ha.hash, h, hb.hash]))
  have hbody := jcs_inj (mhB58_inj hc hhash)
  simp only [canon_body, Json.obj.injEq, List.cons.injEq, Prod.mk.injEq, Json.str.injEq, true_and,
    and_true] at hbody
  obtain ⟨hparameters, hstate, href, htime⟩ := hbody
  exact ⟨href, h, canon_time ha.time hb.time htime, hparameters, hstate⟩

theorem History.agree (hc : Function.Injective c.sha256) {r s : String}
    {ls ms : List (List Char)} {as bs : List Accepted} (ha : History c 1 r ls as)
    (hb : History c 1 s ms bs) {i : Nat} {a b : Accepted} (hai : as[i]? = some a)
    (hbi : bs[i]? = some b) (h : a.entry.versionId = b.entry.versionId) :
    List.Forall₂ (fun a b => a.entry.Same b.entry) (as.take (i + 1)) (bs.take (i + 1)) :=
  (ha.chained.commits (fun h₁ h₂ h => h₁.inj hc h₂ h) i hb.chained hai hbi h).2

theorem getElem?_getLastD {α : Type} (a : α) (as : List α) :
    (a :: as)[as.length]? = some (as.getLastD a) := by
  rw [← List.getLast_eq_getLastD (List.cons_ne_nil a as), List.getLast_eq_getElem]
  simp

/-- Against a `versionId` cached from this log, another that verifies is accepted
only if it starts with the entries of this. -/
theorem History.cached (hc : Function.Injective c.sha256) {r s : String}
    {ls ms : List (List Char)} {a : Accepted} {as bs : List Accepted}
    (ha : History c 1 r ls (a :: as)) (hb : History c 1 s ms bs) :
    let cached := checkCache (some (as.getLastD a).entry.versionId) bs
    bs.length ≤ as.length ∧ cached = .error (.reject "rollback") ∨
      as.length < bs.length ∧ (cached = .error (.reject "fork") ∨ cached = .ok () ∧
        List.Forall₂ (fun a b => a.entry.Same b.entry) (a :: as) (bs.take (as.length + 1))) := by
  have hlast := getElem?_getLastD a as
  intro cached
  have hcached : cached = _ := checkCache_eq (ha.numbered _ _ hlast) bs
  simp only [Nat.add_comm 1, Nat.add_sub_cancel] at hcached
  rcases Nat.lt_or_ge bs.length (as.length + 1) with hshort | hlong
  · rw [if_pos hshort] at hcached
    exact .inl ⟨by omega, hcached⟩
  rw [if_neg (by omega)] at hcached
  refine .inr ⟨by omega, ?_⟩
  have hb' : bs[as.length]? = some bs[as.length] := List.getElem?_eq_getElem _
  rw [hb'] at hcached
  by_cases hsame : bs[as.length].entry.versionId = (as.getLastD a).entry.versionId
  · rw [if_pos (by simpa using hsame)] at hcached
    have hagree := ha.agree hc hb hlast hb' hsame.symm
    rw [List.take_of_length_le (by simp)] at hagree
    exact .inr ⟨hcached, hagree⟩
  · rw [if_neg (by simpa using hsame)] at hcached
    exact .inl hcached

/-- Entry `i` of a log, from 0. -/
def entryAt (log : String) (i : Nat) : Option Entry := (linesOf log)[i]?.bind readEntry

/-- Both logs have an entry there, and the two say the same. -/
def SameAt (log log' : String) (i : Nat) : Prop :=
  ∃ e f, entryAt log i = some e ∧ entryAt log' i = some f ∧ e.Same f

theorem History.length {n : Nat} {ref : String} {lines : List (List Char)} {as : List Accepted}
    (h : History c n ref lines as) : lines.length = as.length := by
  simpa using congrArg List.length h.read

theorem History.entryAt {n : Nat} {ref : String} {as : List Accepted}
    (h : History c n ref (linesOf log) as) (i : Nat) : entryAt log i = as[i]?.map (·.entry) := by
  have hread := congrArg (·[i]?) h.read
  simp only [List.getElem?_map] at hread
  cases hline : (linesOf log)[i]? <;> cases ha : as[i]? <;> simp_all [Webvh.entryAt]

theorem sameAt_of_forall₂ {r s log' : String} {as bs : List Accepted}
    (ha : History c 1 r (linesOf log) as) (hb : History c 1 s (linesOf log') bs)
    (h : List.Forall₂ (fun a b => a.entry.Same b.entry) as (bs.take as.length)) :
    ∀ i < (linesOf log).length, SameAt log log' i := by
  intro i hi
  rw [ha.length] at hi
  have hlen : as.length = (bs.take as.length).length := h.length_eq
  have hi' : i < bs.length := by
    rw [List.length_take] at hlen
    omega
  refine ⟨as[i].entry, bs[i].entry, by simp [ha.entryAt, hi], by simp [hb.entryAt, hi'], ?_⟩
  simpa using h.get hi (hlen ▸ hi)

/-- A log that a resolver has accepted is not rewritten: with the `versionId` of
its result cached, whatever is accepted later starts with its entries. A log that
ends earlier is not accepted, and is a rollback if nothing else is wrong with it.
Of the entries themselves, each is later than the one before it, and signed by a
key that the one before it authorized. -/
theorem history_kept (hc : Function.Injective c.sha256) {did log : String}
    {witness cache : Option String} {now : Int} {o : Outcome}
    (h : resolve c did log witness cache now = .ok o) :
    (∃ first rest, verify c did log witness now = .ok (first, rest) ∧
      (linesOf log).map readEntry = (first :: rest).map (fun a => some a.entry) ∧
      (∀ a ∈ first :: rest, (asString a.entry.versionTime).bind parseTime = some a.time) ∧
      (first :: rest).IsChain (Follows c)) ∧
    ∀ (log' : String) (witness' : Option String) (now' : Int),
      let again := resolve c did log' witness' (some o.versionId) now'
      (∀ o', again = .ok o' → (linesOf log).length ≤ (linesOf log').length ∧
        ∀ i < (linesOf log).length, SameAt log log' i) ∧
      ((linesOf log').length < (linesOf log).length → ∃ stop, again = .error stop ∧
        ∀ v, verify c did log' witness' now' = .ok v → stop = .reject "rollback") ∧
      ∀ i < (linesOf log).length, ¬ SameAt log log' i → ∃ stop, again = .error stop := by
  obtain ⟨a, as, hverify, -, hlast⟩ := resolve_ok h
  obtain ⟨scid, hhistory⟩ := verify_ok hverify
  have htimes : ∀ b ∈ a :: as, (asString b.entry.versionTime).bind parseTime = some b.time := by
    intro b hb
    obtain ⟨_, hlink⟩ := hhistory.chained.linked hb
    exact hlink.time
  refine ⟨⟨a, as, hverify, hhistory.read, htimes, hhistory.follows⟩, ?_⟩
  intro log' witness' now' again
  have hlen : (linesOf log).length = as.length + 1 := hhistory.length
  cases hverify' : verify c did log' witness' now' with
  | error stop =>
    have hstop : again = .error stop := resolve_of_verify hverify'
    exact ⟨fun _ hok => absurd (hstop.symm.trans hok) nofun, fun _ => ⟨stop, hstop, nofun⟩,
      fun _ _ _ => ⟨stop, hstop⟩⟩
  | ok v =>
    obtain ⟨b, bs⟩ := v
    obtain ⟨scid', hhistory'⟩ := verify_ok hverify'
    have hlen' : (linesOf log').length = (b :: bs).length := hhistory'.length
    rcases hhistory.cached hc hhistory' with ⟨_, hcache⟩ | ⟨hlong, hcache | ⟨_, hsame⟩⟩
    · have hstop : again = _ := resolve_of_cache hverify' (hlast ▸ hcache)
      exact ⟨fun _ hok => absurd (hstop.symm.trans hok) nofun, fun _ => ⟨_, hstop, fun _ _ => rfl⟩,
        fun _ _ _ => ⟨_, hstop⟩⟩
    · have hstop : again = _ := resolve_of_cache hverify' (hlast ▸ hcache)
      exact ⟨fun _ hok => absurd (hstop.symm.trans hok) nofun, fun _ => by omega, fun _ _ _ => ⟨_, hstop⟩⟩
    · have hsame := sameAt_of_forall₂ hhistory hhistory' hsame
      exact ⟨fun _ _ => ⟨by omega, hsame⟩, fun _ => by omega, fun i hi hne => absurd (hsame i hi) hne⟩

/-! ## A log of two entries -/

section Example

/-- A hash given by a table; what is not in it has a digest that is too long. -/
def tableHash (table : List (Bytes × Bytes)) (data : Bytes) : Bytes :=
  match table.lookup data with
  | some digest => digest
  | none => List.replicate 33 0 ++ data

theorem mem_of_lookup {table : List (Bytes × Bytes)} {data digest : Bytes}
    (h : table.lookup data = some digest) : (data, digest) ∈ table := by
  obtain ⟨before, after, rfl, -⟩ := List.lookup_eq_some_iff.mp h
  simp

theorem tableHash_of_mem {table : List (Bytes × Bytes)} (hkeys : (table.map (·.1)).Nodup)
    {data digest : Bytes} (h : (data, digest) ∈ table) : tableHash table data = digest := by
  obtain ⟨before, after, rfl⟩ := List.append_of_mem h
  have hlookup : (before ++ (data, digest) :: after).lookup data = some digest := by
    refine List.lookup_eq_some_iff.mpr ⟨before, after, rfl, fun p hp => ?_⟩
    rw [List.map_append, List.map_cons, List.nodup_append] at hkeys
    simpa using (hkeys.2.2 p.1 (List.mem_map_of_mem hp) data List.mem_cons_self).symm
  simp [tableHash, hlookup]

theorem tableHash_injective {table : List (Bytes × Bytes)} (hlen : ∀ t ∈ table, t.2.length = 32)
    (hdistinct : (table.map (·.2)).Nodup) : Function.Injective (tableHash table) := by
  intro x y h
  unfold tableHash at h
  cases hx : table.lookup x with
  | none =>
    cases hy : table.lookup y with
    | none => simpa [hx, hy] using h
    | some digest =>
      have hdigest := hlen _ (mem_of_lookup hy)
      simp only [hx, hy] at h
      simp [← h] at hdigest
  | some digest =>
    cases hy : table.lookup y with
    | none =>
      have hdigest := hlen _ (mem_of_lookup hx)
      simp only [hx, hy] at h
      simp [h] at hdigest
    | some digest' =>
      obtain rfl : digest = digest' := by simpa [hx, hy] using h
      exact congrArg Prod.fst (List.inj_on_of_nodup_map hdistinct (mem_of_lookup hx)
        (mem_of_lookup hy) rfl)

def Entry.json (e : Entry) : Json :=
  .obj [("versionId", .str e.versionId), ("versionTime", e.versionTime), ("parameters", e.parameters),
    ("state", .obj e.state), ("proof", .arr e.proof)]

def Entry.line (e : Entry) : List Char := e.json.render []

def logOf (entries : List Entry) : String := String.ofList (entries.flatMap fun e => e.line ++ ['\n'])

section

open Json

theorem newline_notMem_quote (s : String) : '\n' ∉ quote s := by
  have hescape (c : Char) : '\n' ∉ escape c := by
    by_cases hcontrol : c.toNat < 0x20
    · have hall : ∀ n < 0x20, '\n' ∉ escape (Char.ofNat n) := by decide +kernel
      have hc := hall c.toNat hcontrol
      rwa [Char.ofNat_toNat] at hc
    · have hne : c ≠ '\n' := by
        rintro rfl
        exact hcontrol (by decide)
      unfold escape
      split_ifs <;> simp [Ne.symm hne]
  simp [quote, hescape]

mutual

theorem newline_notMem_render : ∀ v : Json, '\n' ∉ v.render []
  | .null | .bool true | .bool false | .arr [] | .obj [] => by simp [render]
  | .int n => by
      have hdigits : '\n' ∉ Nat.toDigits 10 n.natAbs := fun h => absurd (isDigit_toDigits _ _ h) (by decide)
      unfold render renderInt
      split <;> simp [hdigits]
  | .str s => by simp [render, newline_notMem_quote]
  | .arr (v :: vs) => by simp [render, newline_notMem_render v, newline_notMem_items vs]
  | .obj ((k, v) :: ms) => by
      simp [render, newline_notMem_quote, newline_notMem_render v, newline_notMem_members ms]

theorem newline_notMem_items : ∀ vs : List Json, '\n' ∉ renderItems [] vs
  | [] => by simp [renderItems]
  | v :: vs => by simp [renderItems, newline_notMem_render v, newline_notMem_items vs]

theorem newline_notMem_members : ∀ ms : List (String × Json), '\n' ∉ renderMembers [] ms
  | [] => by simp [renderMembers]
  | (k, v) :: ms => by
      simp [renderMembers, newline_notMem_quote, newline_notMem_render v, newline_notMem_members ms]

end

end

theorem linesOf_logOf (entries : List Entry) : linesOf (logOf entries) = entries.map Entry.line := by
  have hsplit : (entries.flatMap fun e => e.line ++ ['\n']).splitOn '\n' =
      entries.map Entry.line ++ [[]] := by
    induction entries with
    | nil => rfl
    | cons e entries ih =>
      have hline : '\n' ∉ e.line := newline_notMem_render _
      rw [List.flatMap_cons, List.append_assoc, List.singleton_append,
        List.splitOn_append_cons_self_of_not_mem hline, ih]
      rfl
  simp [linesOf, logOf, hsplit]

theorem readEntry_line {e : Entry} (h : isIJson e.json = true) (hproof : e.proof ≠ []) :
    readEntry e.line = some e := by
  obtain ⟨versionId, versionTime, parameters, state, proof⟩ := e
  obtain ⟨p, ps, rfl⟩ := List.exists_cons_of_ne_nil hproof
  simp only [readEntry, ijson, Entry.line, Json.parse_render (fun _ hc => absurd hc List.not_mem_nil),
    Option.filter_some, h, if_true]
  rfl

/-! What the checks of a log need, the other way round. -/

theorem checkFirst_of {e : Entry} {hash scid : String} {p : Params}
    (hversion : checkVersion 1 e = .ok hash) (htime : checkTime now none e = .ok t)
    (hp : checkParams e.parameters 1 = .ok p) (hscid : p.scid = some scid)
    (hself : checkScid c scid e = .ok ()) (hhash : mhB58 c (jcs (e.body scid)) = hash)
    (hproofs : checkProofs c (e.body e.versionId) (Active.initial.update p).updateKeys false e.proof =
      .ok true) (hdid : checkIdentity scid none (Active.initial.update p) e = .ok did) :
    checkFirst c now e = .ok ⟨e, t, did, Active.initial.update p, (Active.initial.update p).witness⟩ := by
  simp [checkFirst, hversion, htime, hp, hscid, require, hself, hhash, check, hproofs, hdid, bind,
    Except.bind, pure, Except.pure]

theorem checkNext_of {n : Nat} {e : Entry} {hash scid : String} {p : Params}
    {prev : Accepted} {keys : List String}
    (hversion : checkVersion n e = .ok hash) (htime : checkTime now (some prev) e = .ok t)
    (halive : prev.active.deactivated = false) (hp : checkParams e.parameters n = .ok p)
    (hhash : mhB58 c (jcs (e.body prev.entry.versionId)) = hash)
    (hkeys : checkKeys c prev.active p = .ok keys)
    (hproofs : checkProofs c (e.body e.versionId) keys false e.proof = .ok true)
    (hdid : checkIdentity scid (some prev) (prev.active.update p) e = .ok did) :
    checkNext c now scid n prev e = .ok ⟨e, t, did, prev.active.update p,
      if prev.active.witness = none then (prev.active.update p).witness else prev.active.witness⟩ := by
  simp [checkNext, hversion, htime, halive, hp, hhash, hkeys, check, hproofs, hdid, bind, Except.bind,
    pure, Except.pure]

theorem checkRest_single {n : Nat} {prev a : Accepted} {scid : String} {line : List Char} {e : Entry}
    (hread : readEntry line = some e) (ha : checkNext c now scid n prev e = .ok a) :
    checkRest c now scid n prev [line] = .ok [a] := by
  simp [checkRest, hread, require, ha, bind, Except.bind, pure, Except.pure]

theorem checkLog_of {scid : String} {line : List Char} {lines : List (List Char)}
    {e : Entry} {a : Accepted} {as : List Accepted} (hlines : linesOf log = line :: lines)
    (hread : readEntry line = some e) (hfirst : checkFirst c now e = .ok a)
    (hscid : scidOf e = some scid) (hrest : checkRest c now scid 2 a lines = .ok as) :
    checkLog c now log = .ok (scid, a, as) := by
  simp [checkLog, hlines, hread, hfirst, hscid, hrest, require, bind, Except.bind, pure, Except.pure]

theorem verify_of {scid : String} {a : Accepted} {as : List Accepted} (hdid : checkDid did = some scid)
    (hlog : checkLog c now log = .ok (scid, a, as)) (hhas : a.did = did)
    (hfree : ∀ b ∈ a :: as, b.witness = none) : verify c did log witness now = .ok (a, as) := by
  have hall : (a :: as).all (·.witness = none) = true := by simpa using hfree
  simp only [verify, hdid, hlog, require, check, checkWitnesses, hall, if_true, bind, Except.bind]
  simp [hhas, pure, Except.pure]

theorem resolve_of_verify_ok {a : Accepted}
    {as : List Accepted} (h : verify c did log witness now = .ok (a, as)) :
    resolve c did log witness none now = .ok (let last := as.getLastD a
        if last.active.deactivated then .deactivated last.entry.versionId
        else .resolved last.entry.versionId last.entry.versionTime last.entry.state last.active.ttl) := by
  simp only [resolve, h, checkCache, Option.bind_none, bind, Except.bind]
  split <;> rfl

def digest (n : Nat) : Bytes := (List.range 32).map fun i => UInt8.ofNat (n / 256 ^ (31 - i))

def exampleScid : String := "QmVfVwYNG2QNTuLG6ezfp966Xc5DLn6srCoawEdraaEk5y"

def exampleDid : String := "did:webvh:QmVfVwYNG2QNTuLG6ezfp966Xc5DLn6srCoawEdraaEk5y:a.io"

def exampleKey : String := "z6MkwDeRBKWfWirBbsMEuJETsC9Ei5PDnJRfu7TjzgLCi1FR"

def exampleMethod : String :=
  "did:key:z6MkwDeRBKWfWirBbsMEuJETsC9Ei5PDnJRfu7TjzgLCi1FR#z6MkwDeRBKWfWirBbsMEuJETsC9Ei5PDnJRfu7TjzgLCi1FR"

def exampleProof : List (String × Json) :=
  [("type", .str "DataIntegrityProof"), ("cryptosuite", .str "eddsa-jcs-2022"),
    ("verificationMethod", .str exampleMethod),
    ("proofPurpose", .str "assertionMethod")]

def firstSignature : String :=
  "4sk5keY5928CXf5rR7bByxpF2WTutobHPGooXkeTFrZsVXRNh7XWfoQGUaadC3hrWXx44GnepLnDFRrVXozSfwkK"

def secondSignature : String :=
  "41gBUbF7QgAZFe42s2aur1yxK7r1wp85FShmUT3Mk1dkpHfqUdBctV2zVao6A6YPWxm9eTpbkTgf1MjvxUzPxTGd"

/-- The first entry, with this for its SCID and its DID. -/
def firstEntryOf (scid did : String) : Entry where
  versionId := "1-QmUCfEcK9bgCyctqtg4hSvKrqABpXxYqYzjdEAc5Sxb6Ug"
  versionTime := .str "2026-01-01T00:01:00Z"
  parameters := .obj [("method", .str "did:webvh:1.0"), ("scid", .str scid),
    ("updateKeys", .arr [.str exampleKey])]
  state := [("id", .str did)]
  proof := [.obj (exampleProof ++ [("proofValue", .str ("z" ++ firstSignature))])]

def firstEntry : Entry := firstEntryOf exampleScid exampleDid

def secondEntry : Entry where
  versionId := "2-QmQbWtM9NcjkCmta7vu59aLGhjwJPUYkHRXbu2yU4bJV76"
  versionTime := .str "2026-01-01T00:02:00Z"
  parameters := .obj []
  state := [("id", .str exampleDid)]
  proof := [.obj (exampleProof ++ [("proofValue", .str ("z" ++ secondSignature))])]

def proofDigest : Bytes := digest 0x4ce406916ca5807e22805c1621740fa404a319e78a7ae2fd6c139f5f1a7d1c4d

def firstDigest : Bytes := digest 0x69c16278686cefb51ab1d7eb7ba39bcc075943abca67bbf7fe7fb6904a083ef2

def secondDigest : Bytes := digest 0xc5c161fc61a762ab3cc11ce151ffd9850130935931fa4af2b9ec614e2b9f1afe

/-- SHA-256 of what the two entries have hashed. -/
def exampleTable : List (Bytes × Bytes) :=
  [(jcs ((firstEntryOf "{SCID}" "did:webvh:{SCID}:a.io").body "{SCID}"),
      digest 0x6cd5edefa3f34117cc5418ce57ab9b3015f022c4230ea0651dbf3c48cce8fc24),
    (jcs (firstEntry.body exampleScid),
      digest 0x571a11da620c308d9855d27e52682aeb292fa886dfd268b11928ab318e0dbfd9),
    (jcs (secondEntry.body firstEntry.versionId),
      digest 0x21863d71bd0c24c0da096d47cc97bd49aa5d9d3830b1fe65f06596e3131aa0b9),
    (jcs (.obj exampleProof), proofDigest),
    (jcs (firstEntry.body firstEntry.versionId), firstDigest),
    (jcs (secondEntry.body secondEntry.versionId), secondDigest)]

/-- The two signatures by the key, and no others. -/
def exampleCrypto : Crypto where
  sha256 := tableHash exampleTable
  ed25519Verify pub data signature :=
    pub = digest 0xf919d7be2e2142dc90fd3da8d4a3a9947d56d1527d493b852d61288394772e7c ∧
      (data = proofDigest ++ firstDigest ∧ base58Encode signature = firstSignature.toList ∨
        data = proofDigest ++ secondDigest ∧ base58Encode signature = secondSignature.toList)

theorem exampleCrypto_injective : Function.Injective exampleCrypto.sha256 :=
  tableHash_injective (by decide +kernel) (by decide +kernel)

theorem jcs_body_inj {e f : Entry} {r s : String} (h : jcs (e.body r) = jcs (f.body s)) :
    canon e.versionTime = canon f.versionTime ∧ r = s := by
  have hbody := jcs_inj h
  simp only [canon_body, Json.obj.injEq, List.cons.injEq, Prod.mk.injEq, Json.str.injEq, true_and,
    and_true] at hbody
  exact ⟨hbody.2.2.2, hbody.2.2.1⟩

theorem jcs_body_ne {e f : Entry} {r s : String} (h : r ≠ s) : jcs (e.body r) ≠ jcs (f.body s) :=
  fun hjcs => h (jcs_body_inj hjcs).2

theorem jcs_body_ne_proof (e : Entry) (r : String) : jcs (e.body r) ≠ jcs (.obj exampleProof) := by
  intro h
  have hbody := jcs_inj h
  simp only [canon_body, canon, Json.obj.injEq] at hbody
  have hmem : ("type", canon (.str "DataIntegrityProof")) ∈ sortMembers (canonMembers exampleProof) :=
    (List.perm_insertionSort _ _).mem_iff.mpr List.mem_cons_self
  rw [← hbody] at hmem
  simp at hmem

theorem exampleTable_nodup : (exampleTable.map (·.1)).Nodup := by
  have hscid : "{SCID}" ≠ exampleScid := by decide
  have hfirst : firstEntry.versionId ≠ "{SCID}" := by decide
  have hfirst' : firstEntry.versionId ≠ exampleScid := by decide
  have hsecond : secondEntry.versionId ≠ "{SCID}" := by decide
  have hsecond' : secondEntry.versionId ≠ exampleScid := by decide
  have hversions : firstEntry.versionId ≠ secondEntry.versionId := by decide
  have htimes : jcs (secondEntry.body firstEntry.versionId) ≠ jcs (firstEntry.body firstEntry.versionId) :=
    fun h => absurd (jcs_body_inj h).1 (by simp [canon, firstEntry, secondEntry, firstEntryOf])
  simp [exampleTable, jcs_body_ne, fun e r => (jcs_body_ne_proof e r).symm, *, Ne.symm]

theorem hash_of_mem {data digest : Bytes} (h : (data, digest) ∈ exampleTable) :
    exampleCrypto.sha256 data = digest :=
  tableHash_of_mem exampleTable_nodup h

/-- Ten minutes after the second entry. -/
def exampleNow : Int := 1767226320

def firstParams : Params where
  scid := some exampleScid
  updateKeys := some [exampleKey]
  nextKeyHashes := none
  witness := none
  portable := none
  deactivated := none
  ttl := none

def firstAccepted : Accepted where
  entry := firstEntry
  time := 1767225660 * 10 ^ 9
  did := exampleDid
  active := Active.initial.update firstParams
  witness := none

def secondAccepted : Accepted where
  entry := secondEntry
  time := 1767225720 * 10 ^ 9
  did := exampleDid
  active := firstAccepted.active
  witness := none

theorem firstEntry_scid : checkScid exampleCrypto exampleScid firstEntry = .ok () := by
  let body := (firstEntryOf "{SCID}" "did:webvh:{SCID}:a.io").body "{SCID}"
  have htext : replaceAll exampleScid.toList "{SCID}".toList
      ((firstEntry.body "{SCID}").render [' ']).length ((firstEntry.body "{SCID}").render [' ']) =
        body.render [' '] := by
    decide +kernel
  have hread : Json.parse (body.render [' ']) = some body := Json.parse_render (by simp [Json.isSpace]) body
  have hlast : lastWins body = body := rfl
  rw [checkScid, htext, hread]
  have hhash : exampleCrypto.sha256 (jcs body) = _ := hash_of_mem List.mem_cons_self
  simp only [hlast, check_ok, mhB58, hhash, decide_eq_true_eq]
  decide +kernel

theorem exampleKey_pub : multikeyPub exampleKey =
    some (digest 0xf919d7be2e2142dc90fd3da8d4a3a9947d56d1527d493b852d61288394772e7c) := by
  decide +kernel

theorem exampleProof_key : vmMultikey (member exampleProof "verificationMethod") = some exampleKey := by
  decide +kernel

theorem checkProofs_of {document : Json} {signature : String} (htext : isBase58 signature.toList = true)
    (hsigned : exampleCrypto.sha256 (jcs document) = firstDigest ∧ signature = firstSignature ∨
      exampleCrypto.sha256 (jcs document) = secondDigest ∧ signature = secondSignature) :
    checkProofs exampleCrypto document [exampleKey] false
      [.obj (exampleProof ++ [("proofValue", .str ("z" ++ signature))])] = .ok true := by
  obtain ⟨raw, hraw⟩ := base58Decode_some htext
  have hencode := base58Encode_decode hraw
  let proof : List (String × Json) := exampleProof ++ [("proofValue", .str ("z" ++ signature))]
  have hkey : member proof "verificationMethod" = member exampleProof "verificationMethod" := rfl
  have hsignature : signatureOf proof = some raw := by
    simp [proof, signatureOf, member, exampleProof, asString, htext, hraw]
  have hinput : exampleCrypto.sha256 (jcs (.obj (proof.filter (·.1 ≠ "proofValue")))) = proofDigest :=
    hash_of_mem (by simp [proof, exampleTable, exampleProof])
  have hok : proofOk exampleCrypto document proof (multikeyPub exampleKey) = .ok true := by
    simp only [proofOk, hsignature, exampleKey_pub, proofInput, hinput]
    obtain ⟨hdigest, rfl⟩ | ⟨hdigest, rfl⟩ := hsigned
    all_goals
      rw [hdigest]
      simp [exampleCrypto, hencode]
  show checkProofs exampleCrypto document [exampleKey] false [.obj proof] = .ok true
  simp [checkProofs, proofKey, hkey, exampleProof_key, require, hok, check, bind, Except.bind]

theorem firstEntry_checks : checkVersion 1 firstEntry = .ok "QmUCfEcK9bgCyctqtg4hSvKrqABpXxYqYzjdEAc5Sxb6Ug" ∧
      checkTime exampleNow none firstEntry = .ok firstAccepted.time ∧
      checkParams firstEntry.parameters 1 = .ok firstParams ∧
      mhB58 exampleCrypto (jcs (firstEntry.body exampleScid)) =
        "QmUCfEcK9bgCyctqtg4hSvKrqABpXxYqYzjdEAc5Sxb6Ug" ∧
      checkProofs exampleCrypto (firstEntry.body firstEntry.versionId) firstAccepted.active.updateKeys
        false firstEntry.proof = .ok true ∧
      checkIdentity exampleScid none firstAccepted.active firstEntry = .ok exampleDid := by
  refine ⟨by decide +kernel, by decide +kernel, by decide +kernel, ?_,
    checkProofs_of (by decide +kernel) (.inl ⟨hash_of_mem (by simp [exampleTable]), rfl⟩), by decide +kernel⟩
  rw [mhB58, hash_of_mem (List.mem_cons_of_mem _ List.mem_cons_self)]
  decide +kernel

theorem secondEntry_checks :
    checkVersion 2 secondEntry = .ok "QmQbWtM9NcjkCmta7vu59aLGhjwJPUYkHRXbu2yU4bJV76" ∧
      checkTime exampleNow (some firstAccepted) secondEntry = .ok secondAccepted.time ∧
      checkParams secondEntry.parameters 2 = .ok { firstParams with scid := none, updateKeys := none } ∧
      mhB58 exampleCrypto (jcs (secondEntry.body firstEntry.versionId)) =
        "QmQbWtM9NcjkCmta7vu59aLGhjwJPUYkHRXbu2yU4bJV76" ∧
      checkProofs exampleCrypto (secondEntry.body secondEntry.versionId) firstAccepted.active.updateKeys
        false secondEntry.proof = .ok true ∧
      checkIdentity exampleScid (some firstAccepted) firstAccepted.active secondEntry = .ok exampleDid := by
  refine ⟨by decide +kernel, by decide +kernel, by decide +kernel, ?_,
    checkProofs_of (by decide +kernel) (.inr ⟨hash_of_mem (by simp [exampleTable]), rfl⟩), by decide +kernel⟩
  rw [mhB58, hash_of_mem (List.mem_cons_of_mem _ (List.mem_cons_of_mem _ List.mem_cons_self))]
  decide +kernel

theorem checkFirst_firstEntry : checkFirst exampleCrypto exampleNow firstEntry = .ok firstAccepted := by
  obtain ⟨hversion, htime, hp, hhash, hproofs, hdid⟩ := firstEntry_checks
  exact checkFirst_of hversion htime hp rfl firstEntry_scid hhash hproofs hdid

theorem checkNext_secondEntry :
    checkNext exampleCrypto exampleNow exampleScid 2 firstAccepted secondEntry = .ok secondAccepted := by
  obtain ⟨hversion, htime, hp, hhash, hproofs, hdid⟩ := secondEntry_checks
  exact checkNext_of hversion htime rfl hp hhash rfl hproofs hdid

theorem exampleDid_scid : checkDid exampleDid = some exampleScid := by
  decide +kernel

theorem firstEntry_read : readEntry firstEntry.line = some firstEntry :=
  readEntry_line (by decide +kernel) nofun

theorem secondEntry_read : readEntry secondEntry.line = some secondEntry :=
  readEntry_line (by decide +kernel) nofun

theorem verify_first : verify exampleCrypto exampleDid (logOf [firstEntry]) none exampleNow =
    .ok (firstAccepted, []) :=
  verify_of exampleDid_scid
    (checkLog_of (linesOf_logOf _) firstEntry_read checkFirst_firstEntry rfl rfl) rfl
    (by simp [firstAccepted])

theorem verify_both : verify exampleCrypto exampleDid (logOf [firstEntry, secondEntry]) none exampleNow =
    .ok (firstAccepted, [secondAccepted]) :=
  verify_of exampleDid_scid (checkLog_of (linesOf_logOf _) firstEntry_read checkFirst_firstEntry rfl
    (checkRest_single secondEntry_read checkNext_secondEntry)) rfl (by simp [firstAccepted, secondAccepted])

/-- The two entries resolve, and with their version cached the first alone, which
verifies, is a rollback. -/
theorem history_kept_two :
    ∃ o, resolve exampleCrypto exampleDid (logOf [firstEntry, secondEntry]) none none exampleNow = .ok o ∧
      resolve exampleCrypto exampleDid (logOf [firstEntry]) none (some o.versionId) exampleNow =
        .error (.reject "rollback") := by
  have hboth := resolve_of_verify_ok verify_both
  obtain ⟨stop, hstop, hrollback⟩ :=
    ((history_kept exampleCrypto_injective hboth).2 (logOf [firstEntry]) none exampleNow).2.1
      (by rw [linesOf_logOf, linesOf_logOf]; decide)
  exact ⟨_, hboth, hrollback _ verify_first ▸ hstop⟩

/-- A log that ends earlier and is no rollback: what is wrong with its entries, here
that there are none, comes first. -/
theorem empty_log_malformed : Function.Injective exampleCrypto.sha256 ∧
      ∃ o, resolve exampleCrypto exampleDid (logOf [firstEntry, secondEntry]) none none exampleNow =
          .ok o ∧ (linesOf "").length < (linesOf (logOf [firstEntry, secondEntry])).length ∧
        resolve exampleCrypto exampleDid "" none (some o.versionId) exampleNow =
          .error (.reject "log-malformed") := by
  refine ⟨exampleCrypto_injective, _, resolve_of_verify_ok verify_both, ?_, resolve_of_verify ?_⟩
  · rw [linesOf_logOf]
    decide
  · simp only [verify, exampleDid_scid]
    rfl

end Example

/-! ## What a resolved DID rests on -/

theorem bad_ok {α : Type} {P : Prop} [Decidable P] {stop : Stop} {x : Except Stop α} {a : α} :
    (if P then (.error stop : Except Stop Unit) >>= fun _ => x else x) = .ok a ↔ ¬ P ∧ x = .ok a := by
  split
  case isTrue hP =>
    constructor
    · intro h
      cases h
    · intro h
      exact absurd hP h.1
  case isFalse hP => exact (and_iff_right hP).symm

theorem asWitness_ok {v : Json} {w : Witness} (h : asWitness v = .ok (some w)) :
    1 ≤ w.threshold ∧ w.witnesses.Nodup := by
  unfold asWitness at h
  split at h
  · cases h
  · split at h
    · dsimp only at h
      split at h
      · cases h
      · split at h
        · split at h
          · rename_i hids
            cases h
            exact ⟨hids.2.1, hids.1⟩
          · cases h
        · cases h
    · cases h
  · cases h

/-- What `check_params` leaves of the parameters of entry `n`. -/
structure Given (n : Nat) (e : Entry) (p : Params) : Prop where
  scid : ∀ scid, p.scid = some scid → scidOf e = some scid
  portable : 1 < n → p.portable ≠ some true
  witness : ∀ w, p.witness = some (some w) → 1 ≤ w.threshold ∧ w.witnesses.Nodup

theorem checkParams_ok {n : Nat} {e : Entry} {p : Params} (h : checkParams e.parameters n = .ok p) : Given n e p := by
  unfold checkParams at h
  split at h
  case h_2 => cases h
  case h_1 ms hms =>
  dsimp only at h
  -- the checks in the order of the source; what follows needs the SCID, the portability and the witnesses
  obtain ⟨-, h⟩ := bad_ok.mp h
  obtain ⟨method, -, h⟩ := bind_ok.mp h
  obtain ⟨scid, hscid, h⟩ := bind_ok.mp h
  obtain ⟨keys, -, h⟩ := bind_ok.mp h
  obtain ⟨-, h⟩ := bad_ok.mp h
  obtain ⟨-, h⟩ := bad_ok.mp h
  obtain ⟨-, h⟩ := bad_ok.mp h
  obtain ⟨hashes, -, h⟩ := bind_ok.mp h
  obtain ⟨_, -, h⟩ := bind_ok.mp h
  obtain ⟨portable, -, h⟩ := bind_ok.mp h
  obtain ⟨deactivated, -, h⟩ := bind_ok.mp h
  obtain ⟨ttl, -, h⟩ := bind_ok.mp h
  obtain ⟨hportable, h⟩ := bad_ok.mp h
  have hread : ∀ s, scid = some s → scidOf e = some s := by
    rintro s rfl
    rw [scidOf, hms]
    unfold optional at hscid
    grind
  split at h
  case h_1 =>
    cases h
    exact ⟨hread, fun hn hp => hportable ⟨hn, hp⟩, fun w hw => by cases hw⟩
  case h_2 v _ =>
    obtain ⟨x, hx, h⟩ := bind_ok.mp h
    cases h
    refine ⟨hread, fun hn hp => hportable ⟨hn, hp⟩, fun w hw => ?_⟩
    obtain rfl : x = some (some w) := hw
    cases ha : asWitness v with
    | error _ => rw [ha] at hx; cases hx
    | ok y =>
      rw [ha] at hx
      cases hx
      exact asWitness_ok ha

/-- The document calls its subject by this DID too. -/
def AlsoKnownAs (e : Entry) (did : String) : Prop :=
  ∃ vs, member e.state "alsoKnownAs" = some (.arr vs) ∧ ∃ v ∈ vs, asString v = some did

/-- The document is of a DID with this SCID. -/
structure Named (scid : String) (a : Accepted) : Prop where
  id : (member a.entry.state "id").bind asString = some a.did
  scid : checkDid a.did = some scid

/-- A first entry: the SCID is its hash, and one of its own keys has signed it. -/
structure SelfCertified (c : Crypto) (scid : String) (a : Accepted) : Prop where
  genesis : checkScid c scid a.entry = .ok ()
  hash : Linked c scid a
  signed : ∃ key ∈ a.active.updateKeys, SignedBy c a.entry key
  witness : a.witness = a.active.witness

/-- An entry after another: none comes after the end of the DID; the DID moves only if the first
entry let it; and a change of the witnesses is witnessed by those before it. -/
structure Succeeds (prev a : Accepted) : Prop where
  alive : prev.active.deactivated = false
  portable : a.active.portable = true → prev.active.portable = true
  moved : a.did ≠ prev.did → a.active.portable = true ∧ AlsoKnownAs a.entry prev.did
  witness : a.witness = if prev.active.witness = none then a.active.witness else prev.active.witness

/-- Witnesses are asked for in numbers that mean something. -/
def Quorate (w : Option Witness) : Prop := ∀ v ∈ w, 1 ≤ v.threshold ∧ v.witnesses.Nodup

theorem Given.quorate {n : Nat} {e : Entry} {p : Params} (h : Given n e p) {active : Active}
    (hq : Quorate active.witness) : Quorate (active.update p).witness := by
  intro w hw
  cases hp : p.witness with
  | none => exact hq w (by simpa [Active.update, hp] using hw)
  | some x => exact h.witness w (by simpa [Active.update, hp] using hw)

theorem checkIdentity_ok {scid did : String} {prev : Option Accepted} {active : Active} {e : Entry}
    (h : checkIdentity scid prev active e = .ok did) :
    (member e.state "id").bind asString = some did ∧ checkDid did = some scid ∧
      ∀ a ∈ prev, did ≠ a.did → active.portable = true ∧ AlsoKnownAs e a.did := by
  obtain ⟨did', hid, h⟩ := bind_ok.mp h
  obtain ⟨_, hscid, h⟩ := bind_ok.mp h
  cases prev with
  | none =>
    obtain rfl := pure_ok.mp h
    exact ⟨require_ok.mp hid, by simpa using hscid, fun a ha => by cases ha⟩
  | some a =>
    dsimp only at h
    obtain ⟨_, hmoved, h⟩ := bind_ok.mp h
    obtain rfl := pure_ok.mp h
    refine ⟨require_ok.mp hid, by simpa using hscid, fun b hb hne => ?_⟩
    cases hb
    obtain ⟨hportable, haka⟩ := (of_decide_eq_true (check_ok.mp hmoved)).resolve_left hne
    refine ⟨hportable, ?_⟩
    split at haka
    case h_2 => cases haka
    case h_1 vs hvs =>
      obtain ⟨v, hv, hname⟩ := List.any_eq_true.mp haka
      -- a document without the member counts as an empty list, which names nothing
      cases hmember : member e.state "alsoKnownAs" with
      | none =>
        rw [hmember] at hvs
        cases hvs
        cases hv
      | some w =>
        rw [hmember] at hvs
        cases hvs
        exact ⟨vs, hmember, v, hv, of_decide_eq_true hname⟩

variable {now : Int}

theorem checkFirst_certified {e : Entry} {a : Accepted} (h : checkFirst c now e = .ok a) :
    ∃ scid, scidOf e = some scid ∧ SelfCertified c scid a ∧ Named scid a ∧ Quorate a.active.witness := by
  obtain ⟨hash, hversion, h⟩ := bind_ok.mp h
  obtain ⟨t, htime, h⟩ := bind_ok.mp h
  obtain ⟨p, hp, h⟩ := bind_ok.mp h
  obtain ⟨scid, hpscid, h⟩ := bind_ok.mp h
  obtain ⟨_, hscid, h⟩ := bind_ok.mp h
  obtain ⟨_, hhash, h⟩ := bind_ok.mp h
  obtain ⟨authorized, hproofs, h⟩ := bind_ok.mp h
  obtain ⟨_, hauthorized, h⟩ := bind_ok.mp h
  obtain ⟨did, hdid, h⟩ := bind_ok.mp h
  obtain rfl := pure_ok.mp h
  obtain ⟨digits, hparts, -, -⟩ := checkVersion_ok hversion
  obtain rfl : mhB58 c (jcs (e.body scid)) = hash := by simpa using hhash
  obtain rfl : authorized = true := check_ok.mp hauthorized
  obtain ⟨pr, hpr, proof, key, hkey, hread, hok⟩ := (checkProofs_ok hproofs).resolve_left Bool.false_ne_true
  obtain ⟨hid, hof, -⟩ := checkIdentity_ok hdid
  have hgiven := checkParams_ok hp
  exact ⟨scid, hgiven.scid scid (require_ok.mp hpscid),
    ⟨hscid, ⟨by simp [hparts], (checkTime_ok htime).1⟩, ⟨key, hkey, pr, hpr, proof, hread, hok⟩, rfl⟩, ⟨hid, hof⟩,
    hgiven.quorate fun w hw => by cases hw⟩

theorem checkNext_succeeds {scid : String} {n : Nat} {prev a : Accepted} {e : Entry} (hn : 1 < n)
    (hq : Quorate prev.active.witness) (h : checkNext c now scid n prev e = .ok a) :
    Succeeds prev a ∧ Named scid a ∧ Quorate a.active.witness := by
  obtain ⟨hash, -, h⟩ := bind_ok.mp h
  obtain ⟨t, -, h⟩ := bind_ok.mp h
  obtain ⟨_, halive, h⟩ := bind_ok.mp h
  obtain ⟨p, hp, h⟩ := bind_ok.mp h
  obtain ⟨_, -, h⟩ := bind_ok.mp h
  obtain ⟨keys, -, h⟩ := bind_ok.mp h
  obtain ⟨authorized, -, h⟩ := bind_ok.mp h
  obtain ⟨_, -, h⟩ := bind_ok.mp h
  obtain ⟨did, hdid, h⟩ := bind_ok.mp h
  obtain rfl := pure_ok.mp h
  obtain ⟨hid, hof, hmoved⟩ := checkIdentity_ok hdid
  have hgiven := checkParams_ok hp
  refine ⟨⟨by simpa using halive, fun hportable => ?_, hmoved prev rfl, rfl⟩, ⟨hid, hof⟩, hgiven.quorate hq⟩
  cases hpp : p.portable with
  | none => simpa [Active.update, hpp] using hportable
  | some b =>
    obtain rfl : b = true := by simpa [Active.update, hpp] using hportable
    exact absurd hpp (hgiven.portable hn)

theorem Succeeds.quorate {prev a : Accepted} (h : Succeeds prev a) (hprev : Quorate prev.active.witness)
    (ha : Quorate a.active.witness) : Quorate a.witness := by
  rw [h.witness]
  split
  · exact ha
  · exact hprev

theorem checkRest_succeeds {scid : String} :
    ∀ {lines : List (List Char)} {n : Nat} {prev : Accepted} {as : List Accepted}, 1 < n →
      Quorate prev.active.witness → checkRest c now scid n prev lines = .ok as →
      (prev :: as).IsChain Succeeds ∧ ∀ a ∈ as, Named scid a ∧ Quorate a.witness := by
  intro lines
  induction lines with
  | nil =>
    intro n prev as _ _ h
    obtain rfl : [] = as := by simpa [checkRest] using h
    exact ⟨.singleton _, fun a ha => absurd ha List.not_mem_nil⟩
  | cons line lines ih =>
    intro n prev as hn hq h
    obtain ⟨e, -, h⟩ := bind_ok.mp h
    obtain ⟨a, ha, h⟩ := bind_ok.mp h
    obtain ⟨rest, hrest, h⟩ := bind_ok.mp h
    obtain rfl := pure_ok.mp h
    obtain ⟨hsucceeds, hnamed, hqa⟩ := checkNext_succeeds hn hq ha
    obtain ⟨hchain, hall⟩ := ih (by omega) hqa hrest
    exact ⟨.cons_cons hsucceeds hchain, List.forall_mem_cons.mpr ⟨⟨hnamed, hsucceeds.quorate hq hqa⟩, hall⟩⟩

/-! The witnesses -/

/-- A proof by this witness, for the version of this entry, verifies. -/
def Approves (c : Crypto) (witness : Option String) (id : String) (a : Accepted) : Prop :=
  ∃ records proofs, witness.bind witnessRecords = some records ∧ (a.entry.versionId, proofs) ∈ records ∧
    ∃ pr ∈ proofs, ∃ proof mk, proofKey pr = some (proof, mk) ∧ id = "did:key:" ++ mk ∧
      proofOk c (.obj [("versionId", .str a.entry.versionId)]) proof (multikeyPub mk) = .ok true

/-- An entry with those after it: enough of its witnesses approve it, or one of them. -/
def Witnessed (c : Crypto) (witness : Option String) (a : Accepted) (rest : List Accepted) : Prop :=
  ∀ w ∈ a.witness, ∃ ids ⊆ w.witnesses, ids.Nodup ∧ 1 ≤ w.threshold ∧ w.threshold ≤ ids.length ∧
    ∀ id ∈ ids, ∃ b ∈ a :: rest, Approves c witness id b

theorem witnessOf_ok {versionId id : String} {pr : Json} (h : witnessOf c versionId pr = .ok (some id)) :
    ∃ proof mk, proofKey pr = some (proof, mk) ∧ id = "did:key:" ++ mk ∧
      proofOk c (.obj [("versionId", .str versionId)]) proof (multikeyPub mk) = .ok true := by
  unfold witnessOf at h
  split at h
  case h_1 => cases h
  case h_2 proof mk hkey =>
    obtain ⟨ok, hok, h⟩ := bind_ok.mp h
    have hid := pure_ok.mp h
    cases ok with
    | false => cases hid
    | true =>
      cases hid
      exact ⟨proof, mk, hkey, rfl, hok⟩

theorem mapM_ok {α β : Type} {f : α → Except Stop β} :
    ∀ {as : List α} {bs : List β}, as.mapM f = .ok bs → ∀ b ∈ bs, ∃ a ∈ as, f a = .ok b := by
  intro as
  induction as with
  | nil =>
    intro bs h b hb
    obtain rfl : [] = bs := by simpa using h
    cases hb
  | cons a as ih =>
    intro bs h
    rw [List.mapM_cons] at h
    obtain ⟨b, hb, h⟩ := bind_ok.mp h
    obtain ⟨rest, hrest, h⟩ := bind_ok.mp h
    obtain rfl := pure_ok.mp h
    intro b' hb'
    rcases List.mem_cons.mp hb' with rfl | hb'
    · exact ⟨a, List.mem_cons_self, hb⟩
    · obtain ⟨a', ha', hfa⟩ := ih hrest b' hb'
      exact ⟨a', List.mem_cons_of_mem a ha', hfa⟩

theorem approvals_ok {versionIds : List String} :
    ∀ {records : List (String × List Json)} {approved : List (String × List String)},
      approvals c versionIds records = .ok approved → ∀ v ids, (v, ids) ∈ approved → ∀ id ∈ ids,
        ∃ proofs, (v, proofs) ∈ records ∧ ∃ pr ∈ proofs, witnessOf c v pr = .ok (some id) := by
  intro records
  induction records with
  | nil =>
    intro approved h v ids hv
    cases h
    cases hv
  | cons record records ih =>
    obtain ⟨v₀, proofs⟩ := record
    intro approved h v ids hv id hid
    unfold approvals at h
    split at h
    case isTrue =>
      obtain ⟨found, hfound, h⟩ := bind_ok.mp h
      obtain ⟨rest, hrest, h⟩ := bind_ok.mp h
      obtain rfl := pure_ok.mp h
      rcases List.mem_cons.mp hv with heq | hv
      · cases heq
        obtain ⟨pr, hpr, hw⟩ := mapM_ok hfound (some id) (List.reduceOption_mem_iff.mp hid)
        exact ⟨proofs, List.mem_cons_self, pr, hpr, hw⟩
      · obtain ⟨ps, hps, found⟩ := ih hrest v ids hv id hid
        exact ⟨ps, List.mem_cons_of_mem _ hps, found⟩
    case isFalse =>
      obtain ⟨ps, hps, found⟩ := ih h v ids hv id hid
      exact ⟨ps, List.mem_cons_of_mem _ hps, found⟩

variable {witness : Option String}

theorem witnessesOk_split {approved : List (String × List String)} {pre rest : List Accepted} {a : Accepted} :
    witnessesOk approved (pre ++ a :: rest) = true → witnessesOk approved (a :: rest) = true := by
  induction pre with
  | nil => exact id
  | cons b pre ih => exact fun h => ih (Bool.and_eq_true_iff.mp h).2

theorem checkWitnesses_ok {as : List Accepted} (hq : ∀ a ∈ as, Quorate a.witness)
    (h : checkWitnesses c witness as = .ok ()) {pre rest : List Accepted} {a : Accepted}
    (hsplit : as = pre ++ a :: rest) : Witnessed c witness a rest := by
  intro w hw
  have hmem : a ∈ as := hsplit ▸ List.mem_append_right pre List.mem_cons_self
  unfold checkWitnesses at h
  split at h
  case isTrue hnone =>
    have hfree := of_decide_eq_true (List.all_eq_true.mp hnone a hmem)
    rw [hfree] at hw
    cases hw
  case isFalse =>
    obtain ⟨text, htext, h⟩ := bind_ok.mp h
    obtain ⟨records, hrecords, h⟩ := bind_ok.mp h
    obtain ⟨approved, happroved, h⟩ := bind_ok.mp h
    have hok := witnessesOk_split (hsplit ▸ check_ok.mp h)
    rw [witnessesOk, Option.mem_def.mp hw, Bool.and_eq_true_iff, Option.all_some] at hok
    obtain ⟨hthreshold, hnodup⟩ := hq a hmem w hw
    -- the listed witnesses that have approved, as distinct as the list
    refine ⟨_, List.filter_sublist.subset, hnodup.filter _, hthreshold, of_decide_eq_true hok.1, fun id hid => ?_⟩
    obtain ⟨⟨v, ids⟩, hv, hid⟩ := List.mem_flatMap.mp (of_decide_eq_true (List.mem_filter.mp hid).2)
    obtain ⟨hv, hlater⟩ := List.mem_filter.mp hv
    obtain ⟨b, hb, rfl⟩ := List.mem_map.mp (of_decide_eq_true hlater)
    obtain ⟨proofs, hproofs, pr, hpr, hwitness⟩ := approvals_ok happroved _ ids hv id hid
    obtain ⟨proof, mk, hkey, hname, hverify⟩ := witnessOf_ok hwitness
    refine ⟨b, hb, records, proofs, ?_, hproofs, pr, hpr, proof, mk, hkey, hname, hverify⟩
    rw [require_ok.mp htext]
    exact require_ok.mp hrecords

variable {did log : String} {cache : Option String}

end Dsip.Webvh
