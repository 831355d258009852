import Dsip.Broadcast.Course

/-!
# What becomes of a subscription as time passes

`expire` runs in stages (`expire_stages`): the subscriptions that lapsed end, the
publications that did expire, the records whose time or grace is up go, and the
subscriptions to their subjects are told. `expire_course` says what this is for
one presence subscription, `expire_terms` which subscriptions it leaves.
-/

namespace Dsip.Broadcast.Authority

open Dsip.Lib

variable {s s' : Authority}

/-! ## Lapsed subscriptions -/

theorem lapseDue_rest (s : Authority) : lapseDue s.rest = lapseDue s := rfl

theorem lapseDue_of_now (h : s'.now = s.now) : lapseDue s' = lapseDue s := by
  funext sub
  unfold lapseDue
  rw [h]

theorem answer_lapseDue (s : Authority) (sub : Subscription) : s.answer lapseDue sub =
      match lapseDue s sub with
      | none => (some sub, [])
      | some (_, reason) => (none, [s.notice sub .terminated reason]) := by
  unfold answer lapseDue
  split_ifs <;> rfl

theorem ends_of_lapseDue {n : Nat} {sub : Subscription} {state : NotifyState} {reason : Option String}
    (h : lapseDue s' sub = some (state, reason)) : ∃ r, reason = some r ∧ Ends s (.advance n) s' sub r := by
  unfold lapseDue at h
  split_ifs at h with hexpired hgrant
  · obtain ⟨-, rfl⟩ := Prod.mk.inj (Option.some.inj h)
    exact ⟨_, rfl, .expired rfl hexpired⟩
  · obtain ⟨-, rfl⟩ := Prod.mk.inj (Option.some.inj h)
    obtain ⟨g, hg, hle⟩ := Option.any_eq_true _ _ |>.mp hgrant
    exact ⟨_, rfl, .grantOver rfl hg (of_decide_eq_true hle)⟩

/-- The subscriptions that lapsed end, and nothing else changes. -/
structure EndLapsed (s s' : Authority) (out : List Emit) : Prop where
  records : s'.records = s.records
  bound : s'.bound = s.bound
  now : s'.now = s.now
  subs : ∀ sid, s'.subOf sid = (s.subOf sid).bind fun sub => (s.answer lapseDue sub).1
  notices : ∀ sid, noticesTo sid out = (s.subOf sid).elim [] fun sub => (s.answer lapseDue sub).2

theorem endLapsed (s : Authority) : EndLapsed s (s.notifyEach lapseDue s.subscriptions.sortedKeys).1
      (s.notifyEach lapseDue s.subscriptions.sortedKeys).2 := by
  obtain ⟨hrest, hsubs, hnotices⟩ := notifyEach_spec lapseDue_rest (Dict.nodup_sortedKeys s.subscriptions) s
  have hnone : ∀ sid, sid ∉ s.subscriptions.sortedKeys → s.subOf sid = none := by
    intro sid hsid
    rwa [Dict.mem_sortedKeys, ← AList.lookup_eq_none] at hsid
  refine ⟨congrArg (·.records) hrest, congrArg (·.bound) hrest, congrArg (·.now) hrest, ?_, ?_⟩
  · intro sid
    rw [hsubs]
    split
    case isTrue => rfl
    case isFalse hsid => rw [hnone sid hsid]; rfl
  · intro sid
    rw [hnotices]
    split
    case isTrue => rfl
    case isFalse hsid => rw [hnone sid hsid]; rfl

/-! ## The stages -/

/-- The stages of `expire`: what lapsed ends, then what concerns publications,
then records go, and last their subjects' subscriptions are told. -/
theorem expire_stages (s : Authority) :
    ∃ (s₁ s₂ s₃ : Authority) (out out' : List Emit) (changed : Finset String),
      EndLapsed s s₁ out ∧ Bystander s₁ s₂ out' ∧ Dropped s₂ s₃ changed ∧
      s.expire = ((foldEmit presenceChanged s₃ (sorted changed)).1,
        out ++ out' ++ (foldEmit presenceChanged s₃ (sorted changed)).2) := by
  let s₁ := (s.notifyEach lapseDue s.subscriptions.sortedKeys).1
  let s₁' : Authority := { s₁ with revoked := s₁.revoked.filter fun _ validUntil => s₁.now < validUntil }
  let streams := s₁'.publications.map Prod.fst
  let s₂ := (foldEmit expireStream s₁' streams).1
  let dropped := s₂.recordItems.foldl expireRecord (s₂, ∅)
  let s₃ : Authority :=
    { dropped.1 with graceUntil := dropped.1.graceUntil.filter fun _ ends => dropped.1.now < ends }
  have hforget : Bystander s₁ s₁' [] := by
    refine .of_same ?_ ?_ ?_ ?_ ?_ noticesTo_nil <;> rfl
  have hdropped : Dropped s₂ dropped.1 dropped.2 :=
    @expireRecords_dropped s₂ _ (s₂, ∅) ⟨rfl, rfl, rfl, fun _ _ => rfl⟩
  refine ⟨s₁, s₂, s₃, _, _, dropped.2, endLapsed s,
    hforget.trans (expireStreams_bystander streams s₁'), ?_, ?_⟩
  · exact ⟨hdropped.subscriptions, hdropped.bound, hdropped.now, hdropped.records⟩
  · unfold expire
    simp only [List.append_assoc]
    rfl

theorem expire_terms (s : Authority) (sid : String) : (s.expire.1.subOf sid).map (·.terms) =
      ((s.subOf sid).filter fun sub => lapseDue s sub = none).map (·.terms) := by
  obtain ⟨s₁, s₂, s₃, _, _, changed, hend, hby, hdropped, hexpire⟩ := expire_stages s
  have hterms : ∀ sub, (s₃.refreshed (sorted changed) sub).terms = sub.terms := by
    intro sub
    unfold refreshed
    split <;> rfl
  have hlast : (s.expire.1.subOf sid).map (·.terms) = (s₃.subOf sid).map (·.terms) := by
    rw [hexpire, (refresh_spec (sorted changed) s₃).2.1, Option.map_map]
    exact congrArg (fun f => Option.map f _) (funext hterms)
  rw [hlast, subOf, hdropped.subscriptions, hby.terms, hend.subs]
  cases s.subOf sid with
  | none => rfl
  | some sub =>
    simp only [Option.bind_some, Option.filter_some, answer_lapseDue]
    cases lapseDue s sub <;> simp

theorem expire_now (s : Authority) : s.expire.1.now = s.now := by
  obtain ⟨s₁, s₂, s₃, _, _, changed, hend, hby, hdropped, hexpire⟩ := expire_stages s
  have hrest := (refresh_spec (sorted changed) s₃).1
  rw [hexpire, ← hend.now, ← hby.now, ← hdropped.now]
  exact congrArg (·.now) hrest

/-- A lapsed presence subscription ends with one notice, and one that has not
lapsed is told if its body changed. -/
theorem expire_course (hup : s.UpToDate) {n : Nat} {sid : String} (hp : s.ForPresence sid) :
    Course s (.advance n) (expire { s with now := s.now + n }).1 sid
      (noticesTo sid (expire { s with now := s.now + n }).2) := by
  have hb : begins s (.advance n) ≠ some sid := by simp [begins]
  have hnow := expire_now { s with now := s.now + n }
  obtain ⟨s₁, s₂, s₃, out, out', changed, hend, hby, hdropped, hexpire⟩ :=
    expire_stages { s with now := s.now + n }
  obtain ⟨hrest, hsubs, hnotices⟩ := refresh_spec (sorted changed) s₃
  have hp₁ : ∀ sub, s₁.subOf sid = some sub → "publication" ∉ sub.events := by
    intro sub hsub
    rw [hend.subs] at hsub
    obtain ⟨sub', hsub', hans⟩ := Option.bind_eq_some_iff.mp hsub
    rw [answer_lapseDue] at hans
    split at hans
    · obtain rfl := Option.some.inj hans
      exact (hp _ hsub').2
    · cases hans
  obtain ⟨hsame₂, hnone⟩ := hby.others sid hp₁
  have hsame₃ : s₃.subOf sid = s₁.subOf sid := by
    rw [subOf, hdropped.subscriptions]
    exact hsame₂
  rw [hexpire] at hnow ⊢
  dsimp only at hnow ⊢
  rw [noticesTo_append, noticesTo_append, hend.notices, hnone, List.append_nil]
  have hsub₁ := hend.subs sid
  cases hsub : s.subOf sid with
  | none =>
    have hsub₀ : subOf { s with now := s.now + n } sid = none := hsub
    rw [hsub₀] at hsub₁
    have hsub₃ : s₃.subOf sid = none := hsame₃.trans hsub₁
    rw [Option.elim_none, hnotices, hsub₃]
    exact .absent hb hsub (by rw [hsubs, hsub₃]; rfl)
  | some sub =>
    have hsub₀ : subOf { s with now := s.now + n } sid = some sub := hsub
    rw [hsub₀, Option.bind_some, answer_lapseDue] at hsub₁
    rw [Option.elim_some, answer_lapseDue]
    cases hlapse : lapseDue { s with now := s.now + n } sub with
    | none =>
      rw [hlapse] at hsub₁
      refine Course.of_refresh hup hb hp (hsame₃.trans (hsub₁.trans hsub.symm)) ?_ hrest
        (hsubs sid) (hnotices sid)
      intro sub' hsub' htarget
      refine bodyFor_congr hsub' ?_ ?_
      · intro k hk
        refine (hdropped.records k ?_).trans ?_
        · rw [hk]
          exact fun hmem => htarget (mem_sorted.mpr hmem)
        · rw [hby.records, hend.records]
      · unfold boundOf
        rw [hdropped.bound, hby.bound, hend.bound]
    | some sr =>
      obtain ⟨state, reason⟩ := sr
      rw [hlapse] at hsub₁
      have hsub₃ : s₃.subOf sid = none := hsame₃.trans hsub₁
      rw [hnotices, hsub₃]
      obtain ⟨r, rfl, hends⟩ := ends_of_lapseDue ((congrFun (lapseDue_of_now hnow) sub).trans hlapse)
      exact .ended hb hsub (by rw [hsubs, hsub₃]; rfl) hends

end Dsip.Broadcast.Authority
