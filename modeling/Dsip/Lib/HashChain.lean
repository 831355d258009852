import Mathlib.Data.List.Forall2
import Mathlib.Tactic

/-!
# Hash chains

A list in which each entry is bound to a reference to the one before it. Where a
reference fixes what it refers to, two chains that meet in a reference are the
same up to there (`Chained.commits`).
-/

namespace Dsip.Lib

variable {ε ρ : Type*}

/-- Each entry is linked to the reference to the one before it, the first to `r`. -/
def Chained (link : ρ → ε → Prop) (ref : ε → ρ) : ρ → List ε → Prop
  | _, [] => True
  | r, e :: es => link r e ∧ Chained link ref (ref e) es

theorem Chained.linked {link : ρ → ε → Prop} {ref : ε → ρ} {e : ε} :
    ∀ {r : ρ} {es : List ε}, Chained link ref r es → e ∈ es → ∃ s, link s e
  | r, _ :: _, h, .head _ => ⟨r, h.1⟩
  | _, _ :: _, h, .tail _ he => h.2.linked he

theorem Chained.commits {link : ρ → ε → Prop} {ref : ε → ρ} {same : ε → ε → Prop}
    (hlink : ∀ {r s e f}, link r e → link s f → ref e = ref f → r = s ∧ same e f) :
    ∀ (i : Nat) {r s : ρ} {es fs : List ε} {e f : ε}, Chained link ref r es → Chained link ref s fs →
      es[i]? = some e → fs[i]? = some f → ref e = ref f →
        r = s ∧ List.Forall₂ same (es.take (i + 1)) (fs.take (i + 1)) := by
  intro i
  induction i with
  | zero =>
    rintro r s (_ | ⟨e, es⟩) (_ | ⟨f, fs⟩) _ _ hes hfs ⟨⟩ ⟨⟩ href
    obtain ⟨hstart, hsame⟩ := hlink hes.1 hfs.1 href
    exact ⟨hstart, .cons hsame (by simp)⟩
  | succ i ih =>
    intro r s es fs e f hes hfs he hf href
    match es, fs with
    | [], _ => simp at he
    | _ :: _, [] => simp at hf
    | e₀ :: es, f₀ :: fs =>
      -- the entries after the first meet, so the first have the same reference
      obtain ⟨hfirst, hrest⟩ := ih hes.2 hfs.2 (by simpa using he) (by simpa using hf) href
      obtain ⟨hstart, hsame⟩ := hlink hes.1 hfs.1 hfirst
      exact ⟨hstart, .cons hsame hrest⟩

end Dsip.Lib
