import Mathlib.Data.List.Sort
import Mathlib.Tactic

/-!
# The timeline of a peer

Calls are put between the content of a conversation: each before the first content item
that is later than it, with the content in its own order. Python sorts the calls by time
first; TypeScript does not, so that a late call holds back the calls after it.
-/

namespace Dsip.Messaging.Timeline

structure Item where
  id : String
  at_ : Int
  deriving DecidableEq, Repr

structure CallEvent where
  session : String
  at_ : Int
  deriving DecidableEq, Repr

/-- An entry of the timeline: `call:` with a session, or `content:` with an id. -/
inductive Entry where
  | call (session : String)
  | content (id : String)
  deriving DecidableEq, Repr

structure Result where
  timeline : List Entry
  collapsed : List String
  deriving DecidableEq, Repr

/-! ## Python -/

/-- The loop over the call events: the first of each session, and the sessions of the others. -/
def collapse (seen : List String) : List CallEvent → List CallEvent × List String
  | [] => ([], [])
  | cev :: rest =>
    if cev.session ∈ seen then
      let (calls, collapsed) := collapse seen rest
      (calls, cev.session :: collapsed)
    else
      let (calls, collapsed) := collapse (cev.session :: seen) rest
      (cev :: calls, collapsed)

/-- The loop over the content, and the calls that are left after it. -/
def weave : List CallEvent → List Item → List Entry
  | calls, [] => calls.map fun cev => .call cev.session
  | calls, item :: rest =>
    (calls.takeWhile (·.at_ < item.at_)).map (fun cev => .call cev.session) ++
      .content item.id :: weave (calls.dropWhile (·.at_ < item.at_)) rest

def peerTimeline (content : List Item) (calls : List CallEvent) : Result :=
  let (calls, collapsed) := collapse [] calls
  ⟨weave (calls.insertionSort fun a b => a.at_ ≤ b.at_) content, collapsed⟩

/-! ## TypeScript -/

/-- The filter that makes `unique`. -/
def unique (seen collapsed : List String) : List CallEvent → List CallEvent × List String
  | [] => ([], collapsed)
  | c :: rest =>
    if c.session ∉ seen then
      let (calls, collapsed) := unique (c.session :: seen) collapsed rest
      (c :: calls, collapsed)
    else unique seen (if c.session ∈ collapsed then collapsed else collapsed ++ [c.session]) rest

/-- `peerTimeline`. -/
def peerTimelineTs (content : List Item) (calls : List CallEvent) : Result :=
  let (calls, collapsed) := unique [] [] calls
  ⟨weave calls content, collapsed⟩

/-! ## What a timeline is -/

def Entry.callSession : Entry → Option String
  | .call session => some session
  | .content _ => none

def Entry.contentId : Entry → Option String
  | .call _ => none
  | .content id => some id

def sessions (out : List Entry) : List String := out.filterMap Entry.callSession

def contents (out : List Entry) : List String := out.filterMap Entry.contentId

/-- The content that stands before the first item later than a time. -/
def before (content : List Item) (time : Int) : List Item := content.takeWhile fun item => ¬time < item.at_

/-- The first event of its session. -/
def First (calls : List CallEvent) (c : CallEvent) : Prop :=
  ∃ earlier later, calls = earlier ++ c :: later ∧ ∀ b ∈ earlier, b.session ≠ c.session

/-- A timeline of the content and the calls: the content in its order, each session once,
and the first event of it where its time puts it. -/
structure Interleaves (content : List Item) (calls : List CallEvent) (out : List Entry) : Prop where
  content_eq : contents out = content.map (·.id)
  sessions_nodup : (sessions out).Nodup
  mem_sessions : ∀ session, session ∈ sessions out ↔ session ∈ calls.map (·.session)
  placed : ∀ c, First calls c → ∃ pre post, out = pre ++ .call c.session :: post ∧
    contents pre = (before content c.at_).map (·.id)

section Weave

variable {content : List Item} {calls : List CallEvent}

theorem contents_calls (calls : List CallEvent) : contents (calls.map fun cev => .call cev.session) = [] := by
  rw [contents, List.filterMap_map]
  exact List.filterMap_eq_nil_iff.mpr fun _ _ => rfl

theorem sessions_calls (calls : List CallEvent) :
    sessions (calls.map fun cev => .call cev.session) = calls.map (·.session) := by
  rw [sessions, List.filterMap_map]
  exact congrFun List.filterMap_eq_map calls

theorem contents_append (a b : List Entry) : contents (a ++ b) = contents a ++ contents b := List.filterMap_append

theorem sessions_append (a b : List Entry) : sessions (a ++ b) = sessions a ++ sessions b := List.filterMap_append

theorem contents_weave : contents (weave calls content) = content.map (·.id) := by
  induction content generalizing calls with
  | nil => exact contents_calls calls
  | cons item rest ih =>
    rw [weave, contents_append, contents_calls, List.nil_append, List.map_cons]
    exact congrArg (item.id :: ·) ih

theorem sessions_weave : sessions (weave calls content) = calls.map (·.session) := by
  induction content generalizing calls with
  | nil => exact sessions_calls calls
  | cons item rest ih =>
    rw [weave, sessions_append, sessions_calls]
    change _ ++ sessions (weave _ rest) = _
    rw [ih, ← List.map_append, List.takeWhile_append_dropWhile]

/-- Calls in order, each held back by the ones before it no further than its own time says. -/
def InTurn (content : List Item) (c d : CallEvent) : Prop :=
  (before content c.at_).length ≤ (before content d.at_).length

theorem dropWhile_past {item : Item} {rest : List Item} {p : CallEvent → Bool} (hp : ∀ c, p c = decide (c.at_ < item.at_))
    (hturn : (calls.dropWhile p).Pairwise (InTurn (item :: rest))) : ∀ d ∈ calls.dropWhile p, ¬d.at_ < item.at_ := by
  cases hdrop : calls.dropWhile p with
  | nil => simp
  | cons d₀ later =>
    have hfirst : ¬d₀.at_ < item.at_ := by
      have hneg := List.head_dropWhile_not p (show calls.dropWhile p ≠ [] by rw [hdrop]; simp)
      simpa [hdrop, hp] using hneg
    rw [hdrop] at hturn
    intro d hd
    rcases List.mem_cons.mp hd with rfl | hd
    · exact hfirst
    · intro hlt
      have hle := (List.pairwise_cons.mp hturn).1 d hd
      rw [InTurn, before, List.takeWhile_cons_of_pos (by simpa using hfirst), before,
        List.takeWhile_cons_of_neg (by simpa using hlt)] at hle
      cases hle

theorem placed_weave (hturn : calls.Pairwise (InTurn content)) {c : CallEvent} (hc : c ∈ calls) :
    ∃ pre post, weave calls content = pre ++ .call c.session :: post ∧
      contents pre = (before content c.at_).map (·.id) := by
  induction content generalizing calls with
  | nil =>
    obtain ⟨earlier, later, rfl⟩ := List.append_of_mem hc
    refine ⟨earlier.map fun cev => .call cev.session, later.map fun cev => .call cev.session, ?_, ?_⟩
    · rw [weave, List.map_append, List.map_cons]
    · exact contents_calls earlier
  | cons item rest ih =>
    rw [weave]
    rw [← List.takeWhile_append_dropWhile (p := fun c : CallEvent => c.at_ < item.at_) (l := calls)] at hc hturn
    rcases List.mem_append.mp hc with htaken | hleft
    · have hlater : c.at_ < item.at_ := by
        simpa using List.all_eq_true.mp List.all_takeWhile c htaken
      obtain ⟨earlier, later, hsplit⟩ := List.append_of_mem htaken
      refine ⟨earlier.map fun cev => .call cev.session, _, by rw [hsplit, List.map_append, List.map_cons,
        List.append_assoc, List.cons_append], ?_⟩
      rw [contents_calls, before, List.takeWhile_cons_of_neg (by simpa using hlater)]
      rfl
    · have hpast := dropWhile_past (fun _ => rfl) (List.pairwise_append.mp hturn).2.1
      have hbefore (d : CallEvent) (hd : d ∈ calls.dropWhile (·.at_ < item.at_)) :
          before (item :: rest) d.at_ = item :: before rest d.at_ :=
        List.takeWhile_cons_of_pos (by simpa using hpast d hd)
      have hrest : (calls.dropWhile (·.at_ < item.at_)).Pairwise (InTurn rest) := by
        refine (List.pairwise_append.mp hturn).2.1.imp_of_mem fun hc hd h => ?_
        rw [InTurn, hbefore _ hc, hbefore _ hd] at h
        exact Nat.le_of_succ_le_succ h
      obtain ⟨pre, post, hsplit, hcontents⟩ := ih hrest hleft
      refine ⟨(calls.takeWhile (·.at_ < item.at_)).map (fun cev => .call cev.session) ++ .content item.id :: pre, post,
        by rw [hsplit, List.append_assoc]; rfl, ?_⟩
      rw [hbefore c hleft, contents_append, contents_calls, List.map_cons, ← hcontents]
      rfl

end Weave

/-! ## The calls that are kept -/

section Kept

variable {seen collapsed : List String} {calls rest : List CallEvent} {x c d : CallEvent}

theorem unique_fst : (unique seen collapsed calls).1 = (collapse seen calls).1 := by
  induction calls generalizing seen collapsed with
  | nil => rfl
  | cons c rest ih =>
    rw [unique, collapse]
    by_cases hseen : c.session ∈ seen
    · rw [if_neg (not_not.mpr hseen), if_pos hseen]
      exact ih
    · rw [if_pos hseen, if_neg hseen]
      exact congrArg (c :: ·) ih

theorem collapse_fst_cons : (collapse seen (c :: rest)).1 =
      if c.session ∈ seen then (collapse seen rest).1 else c :: (collapse (c.session :: seen) rest).1 := by
  rw [collapse]
  split <;> rfl

theorem first_cons : First (x :: rest) c ↔ c = x ∨ x.session ≠ c.session ∧ First rest c := by
  constructor
  · rintro ⟨earlier, later, hsplit, hfirst⟩
    cases earlier with
    | nil => exact .inl (List.cons.inj hsplit).1.symm
    | cons b earlier =>
      obtain ⟨rfl, rfl⟩ := List.cons.inj hsplit
      exact .inr ⟨hfirst x List.mem_cons_self, earlier, later, rfl,
        fun b hb => hfirst b (List.mem_cons_of_mem _ hb)⟩
  · rintro (rfl | ⟨hne, earlier, later, rfl, hfirst⟩)
    · exact ⟨[], rest, rfl, fun b hb => by cases hb⟩
    · exact ⟨x :: earlier, later, rfl, List.forall_mem_cons.mpr ⟨hne, hfirst⟩⟩

theorem mem_collapse : c ∈ (collapse seen calls).1 ↔ c.session ∉ seen ∧ First calls c := by
  induction calls generalizing seen with
  | nil =>
    refine ⟨fun h => absurd h List.not_mem_nil, ?_⟩
    rintro ⟨-, earlier, later, hsplit, -⟩
    cases earlier <;> cases hsplit
  | cons x rest ih =>
    rw [collapse_fst_cons, first_cons]
    by_cases hseen : x.session ∈ seen
    · rw [if_pos hseen, ih]
      refine and_congr_right fun hc => ⟨fun h => .inr ⟨fun heq => hc (heq ▸ hseen), h⟩, ?_⟩
      rintro (rfl | ⟨-, h⟩)
      · exact absurd hseen hc
      · exact h
    · rw [if_neg hseen, List.mem_cons, ih, List.mem_cons, not_or]
      constructor
      · rintro (rfl | ⟨⟨hne, hc⟩, hfirst⟩)
        · exact ⟨hseen, .inl rfl⟩
        · exact ⟨hc, .inr ⟨fun heq => hne heq.symm, hfirst⟩⟩
      · rintro ⟨hc, rfl | ⟨hne, hfirst⟩⟩
        · exact .inl rfl
        · exact .inr ⟨⟨fun heq => hne heq.symm, hc⟩, hfirst⟩

theorem sessions_collapse : ((collapse seen calls).1.map (·.session)).Nodup ∧
      ∀ session, session ∈ (collapse seen calls).1.map (·.session) ↔
        session ∉ seen ∧ session ∈ calls.map (·.session) := by
  induction calls generalizing seen with
  | nil => exact ⟨List.nodup_nil, fun session => by simp [collapse]⟩
  | cons x rest ih =>
    rw [collapse_fst_cons]
    by_cases hseen : x.session ∈ seen
    · obtain ⟨hnodup, hmem⟩ := @ih seen
      rw [if_pos hseen]
      refine ⟨hnodup, fun session => ?_⟩
      rw [hmem, List.map_cons, List.mem_cons]
      refine and_congr_right fun hsession => (or_iff_right ?_).symm
      rintro rfl
      exact hsession hseen
    · obtain ⟨hnodup, hmem⟩ := @ih (x.session :: seen)
      rw [if_neg hseen, List.map_cons, List.nodup_cons]
      refine ⟨⟨fun h => ((hmem _).mp h).1 List.mem_cons_self, hnodup⟩, fun session => ?_⟩
      rw [List.mem_cons, hmem, List.mem_cons, List.map_cons, List.mem_cons, not_or]
      by_cases heq : session = x.session
      · subst heq
        simp [hseen]
      · simp [heq]

/-- Two calls that are first of their sessions, the one before the other. -/
def FirstPair (calls : List CallEvent) (c d : CallEvent) : Prop :=
  ∃ earlier between later, calls = earlier ++ c :: (between ++ d :: later) ∧
    (∀ b ∈ earlier, b.session ≠ c.session) ∧ ∀ b ∈ earlier ++ c :: between, b.session ≠ d.session

theorem firstPair_cons : FirstPair (x :: rest) c d ↔ c = x ∧ x.session ≠ d.session ∧ First rest d ∨
        x.session ≠ c.session ∧ x.session ≠ d.session ∧ FirstPair rest c d := by
  constructor
  · rintro ⟨earlier, between, later, hsplit, hc, hd⟩
    cases earlier with
    | nil =>
      obtain ⟨rfl, rfl⟩ := List.cons.inj hsplit
      exact .inl ⟨rfl, hd x List.mem_cons_self, between, later, rfl, fun b hb => hd b (List.mem_cons_of_mem _ hb)⟩
    | cons b earlier =>
      obtain ⟨rfl, rfl⟩ := List.cons.inj hsplit
      exact .inr ⟨hc x List.mem_cons_self, hd x List.mem_cons_self, earlier, between, later, rfl,
        fun b hb => hc b (List.mem_cons_of_mem _ hb), fun b hb => hd b (List.mem_cons_of_mem _ hb)⟩
  · rintro (⟨rfl, hne, between, later, rfl, hd⟩ | ⟨hnec, hned, earlier, between, later, rfl, hc, hd⟩)
    · exact ⟨[], between, later, rfl, fun b hb => absurd hb List.not_mem_nil, List.forall_mem_cons.mpr ⟨hne, hd⟩⟩
    · exact ⟨x :: earlier, between, later, rfl, List.forall_mem_cons.mpr ⟨hnec, hc⟩,
        List.forall_mem_cons.mpr ⟨hned, hd⟩⟩

theorem pairwise_collapse {R : CallEvent → CallEvent → Prop} : (collapse seen calls).1.Pairwise R ↔
      ∀ c d, c.session ∉ seen → d.session ∉ seen → FirstPair calls c d → R c d := by
  induction calls generalizing seen with
  | nil =>
    refine ⟨?_, fun _ => List.Pairwise.nil⟩
    rintro - c d - - ⟨earlier, between, later, hsplit, -⟩
    cases earlier <;> cases hsplit
  | cons x rest ih =>
    rw [collapse_fst_cons]
    simp only [firstPair_cons]
    by_cases hseen : x.session ∈ seen
    · rw [if_pos hseen, ih]
      constructor
      · rintro h c d hc hd (⟨rfl, -⟩ | ⟨-, -, hpair⟩)
        · exact absurd hseen hc
        · exact h c d hc hd hpair
      · exact fun h c d hc hd hpair => h c d hc hd
          (.inr ⟨fun heq => hc (heq ▸ hseen), fun heq => hd (heq ▸ hseen), hpair⟩)
    · rw [if_neg hseen, List.pairwise_cons, ih]
      constructor
      · rintro ⟨hhead, hrest⟩ c d hc hd (⟨rfl, hne, hfirst⟩ | ⟨hnec, hned, hpair⟩)
        · exact hhead d (mem_collapse.mpr ⟨List.not_mem_cons_of_ne_of_not_mem hne.symm hd, hfirst⟩)
        · exact hrest c d (List.not_mem_cons_of_ne_of_not_mem hnec.symm hc)
            (List.not_mem_cons_of_ne_of_not_mem hned.symm hd) hpair
      · intro h
        refine ⟨fun d hd => ?_, fun c d hc hd hpair => ?_⟩
        · obtain ⟨hnot, hfirst⟩ := mem_collapse.mp hd
          obtain ⟨hne, hseen'⟩ := List.ne_and_not_mem_of_not_mem_cons hnot
          exact h x d hseen hseen' (.inl ⟨rfl, hne.symm, hfirst⟩)
        · obtain ⟨hnec, hc⟩ := List.ne_and_not_mem_of_not_mem_cons hc
          obtain ⟨hned, hd⟩ := List.ne_and_not_mem_of_not_mem_cons hd
          exact h c d hc hd (.inr ⟨hnec.symm, hned.symm, hpair⟩)

end Kept

/-! ## Where the calls stand -/

section Placed

variable {content : List Item} {calls ordered : List CallEvent} {c d : CallEvent} {out : List Entry}

theorem inTurn_of_le (h : c.at_ ≤ d.at_) : InTurn content c d := by
  induction content with
  | nil => exact Nat.le_refl _
  | cons item rest ih =>
    unfold InTurn before at ih ⊢
    by_cases hc : c.at_ < item.at_
    · rw [List.takeWhile_cons_of_neg (by simpa using hc)]
      exact Nat.zero_le _
    · rw [List.takeWhile_cons_of_pos (by simpa using hc), List.takeWhile_cons_of_pos (by simp; omega)]
      exact Nat.succ_le_succ ih

/-- In turn, told by the items: wherever an item is later than the second call, that item
or one before it is later than the first. -/
theorem inTurn_iff :
    InTurn content c d ↔ ∀ (n : Nat) (item : Item), content[n]? = some item → d.at_ < item.at_ →
      ∃ m ≤ n, ∃ item' : Item, content[m]? = some item' ∧ c.at_ < item'.at_ := by
  induction content with
  | nil => simp [InTurn, before]
  | cons item rest ih =>
    unfold InTurn before at ih ⊢
    by_cases hc : c.at_ < item.at_
    · rw [List.takeWhile_cons_of_neg (by simpa using hc)]
      exact ⟨fun _ n _ _ _ => ⟨0, Nat.zero_le n, item, rfl, hc⟩, fun _ => Nat.zero_le _⟩
    · rw [List.takeWhile_cons_of_pos (by simpa using hc)]
      by_cases hd : d.at_ < item.at_
      · rw [List.takeWhile_cons_of_neg (by simpa using hd)]
        refine ⟨fun h => absurd h (Nat.not_succ_le_zero _), fun h => ?_⟩
        obtain ⟨m, hm, item', hitem', hlt⟩ := h 0 item rfl hd
        obtain rfl := Nat.le_zero.mp hm
        cases hitem'
        exact absurd hlt hc
      · rw [List.takeWhile_cons_of_pos (by simpa using hd), List.length_cons, List.length_cons,
          Nat.add_le_add_iff_right, ih]
        constructor
        · intro h n item' hitem' hlt
          cases n with
          | zero =>
            cases hitem'
            exact absurd hlt hd
          | succ n =>
            obtain ⟨m, hm, item'', hitem'', hlt'⟩ := h n item' hitem' hlt
            exact ⟨m + 1, Nat.succ_le_succ hm, item'', hitem'', hlt'⟩
        · intro h n item' hitem' hlt
          obtain ⟨m, hm, item'', hitem'', hlt'⟩ := h (n + 1) item' hitem' hlt
          cases m with
          | zero =>
            cases hitem''
            exact absurd hlt' hc
          | succ m => exact ⟨m, Nat.le_of_succ_le_succ hm, item'', hitem'', hlt'⟩

theorem interleaves_weave (hperm : ordered.Perm (collapse [] calls).1) (hturn : ordered.Pairwise (InTurn content)) :
    Interleaves content calls (weave ordered content) where
  content_eq := contents_weave
  sessions_nodup := by
    rw [sessions_weave, (hperm.map _).nodup_iff]
    exact sessions_collapse.1
  mem_sessions session := by
    rw [sessions_weave, (hperm.map _).mem_iff, sessions_collapse.2]
    simp
  placed c hc := placed_weave hturn (hperm.mem_iff.mpr (mem_collapse.mpr ⟨List.not_mem_nil, hc⟩))

theorem inTurn_of_placed (hsessions : sessions out = ordered.map (·.session)) (hnodup : (sessions out).Nodup)
    (hplaced : ∀ c ∈ ordered, ∃ pre post, out = pre ++ .call c.session :: post ∧
      contents pre = (before content c.at_).map (·.id)) : ordered.Pairwise (InTurn content) := by
  have hindex (i : Nat) (hi : i < ordered.length) (pre post : List Entry)
      (hsplit : out = pre ++ .call ordered[i].session :: post) : (sessions pre).length = i := by
    have hlist : sessions out = sessions pre ++ ordered[i].session :: sessions post := by
      rw [hsplit, sessions_append]
      rfl
    have hlt : (sessions pre).length < (sessions out).length := by
      rw [hlist, List.length_append, List.length_cons]
      omega
    have hi' : i < (sessions out).length := by rw [hsessions, List.length_map]; exact hi
    have hleft : (sessions out)[(sessions pre).length] = ordered[i].session := by simp [hlist]
    have hright : (sessions out)[i] = ordered[i].session := by simp [hsessions]
    exact (List.Nodup.getElem_inj_iff hnodup).mp (hleft.trans hright.symm)
  rw [List.pairwise_iff_getElem]
  intro i j hi hj hij
  obtain ⟨pre, post, hsplit, hcontents⟩ := hplaced _ (List.getElem_mem hi)
  obtain ⟨pre', post', hsplit', hcontents'⟩ := hplaced _ (List.getElem_mem hj)
  have hpre : pre <+: out := ⟨_, hsplit.symm⟩
  have hpre' : pre' <+: out := ⟨_, hsplit'.symm⟩
  have hle : pre <+: pre' := by
    rcases List.prefix_or_prefix_of_prefix hpre hpre' with h | h
    · exact h
    · have hlength := (h.filterMap Entry.callSession).length_le
      change (sessions pre').length ≤ (sessions pre).length at hlength
      rw [hindex i hi pre post hsplit, hindex j hj pre' post' hsplit'] at hlength
      omega
  have hlength := (hle.filterMap Entry.contentId).length_le
  change (contents pre).length ≤ (contents pre').length at hlength
  rw [hcontents, hcontents', List.length_map, List.length_map] at hlength
  exact hlength

end Placed

/-- No call is held back: where an item is later than a kept call, that item or one before
it is later than each kept call before it in `seq` order. -/
def NoneHeldBack (content : List Item) (calls : List CallEvent) : Prop :=
  ∀ c d, FirstPair calls c d → ∀ (n : Nat) (item : Item), content[n]? = some item → d.at_ < item.at_ →
    ∃ m ≤ n, ∃ item' : Item, content[m]? = some item' ∧ c.at_ < item'.at_

/-- Python always makes a timeline; TypeScript does where no call is held back. -/
theorem timelines_interleave (content : List Item) (calls : List CallEvent) :
    Interleaves content calls (peerTimeline content calls).timeline ∧
    (Interleaves content calls (peerTimelineTs content calls).timeline ↔ NoneHeldBack content calls) := by
  have hts : (peerTimelineTs content calls).timeline = weave (collapse [] calls).1 content := by
    rw [← @unique_fst [] [] calls]
    rfl
  constructor
  · have htotal : Std.Total fun a b : CallEvent => a.at_ ≤ b.at_ := ⟨fun a b => Int.le_total a.at_ b.at_⟩
    have htrans : IsTrans CallEvent fun a b => a.at_ ≤ b.at_ := ⟨fun _ _ _ hab hbc => Int.le_trans hab hbc⟩
    refine interleaves_weave (List.perm_insertionSort _ _) ?_
    exact (List.pairwise_insertionSort _ _).imp inTurn_of_le
  · have hpairs : (collapse [] calls).1.Pairwise (InTurn content) ↔ NoneHeldBack content calls := by
      rw [pairwise_collapse]
      simp only [List.not_mem_nil, not_false_eq_true, forall_const, inTurn_iff]
      rfl
    rw [hts, ← hpairs]
    constructor
    · intro h
      exact inTurn_of_placed sessions_weave h.sessions_nodup fun c hc => h.placed c (mem_collapse.mp hc).2
    · exact interleaves_weave (List.Perm.refl _)

def heldContent : List Item := [⟨"m", 5⟩]

/-- The call at 10 is before the call at 1 in `seq` order. -/
def heldCalls : List CallEvent := [⟨"a", 10⟩, ⟨"b", 1⟩]

/-- The call at 1 stands after the item at 5 in TypeScript, and before it in Python. -/
theorem timeline_held_back :
    (peerTimelineTs heldContent heldCalls).timeline = [.content "m", .call "a", .call "b"] ∧
    (peerTimeline heldContent heldCalls).timeline = [.call "b", .content "m", .call "a"] ∧
    ¬Interleaves heldContent heldCalls (peerTimelineTs heldContent heldCalls).timeline := by
  refine ⟨by decide, by decide, fun h => ?_⟩
  obtain ⟨pre, post, hsplit, hcontents⟩ := h.placed ⟨"b", 1⟩ ⟨[⟨"a", 10⟩], [], rfl, by decide⟩
  have hout : (peerTimelineTs heldContent heldCalls).timeline = [.content "m", .call "a", .call "b"] := by decide
  rw [hout] at hsplit
  cases pre with
  | nil => cases hsplit
  | cons e pre =>
    obtain ⟨rfl, -⟩ := List.cons.inj hsplit
    cases hcontents

end Dsip.Messaging.Timeline
