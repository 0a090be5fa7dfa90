/-
  Runs of a labelled, partial step function: `exec` performs a list of labels, `Along` says
  that a condition on (state, label) held at every step of a run.

  `exec_inv` is the invariant rule (what every step keeps, every run keeps); `exec_inv_along`
  is the same rule for runs whose steps all meet a condition, `each_inv_iff` is its exact form,
  `along_inv` says what an invariant gives at every step of such a run, and `exec_history` is
  the rule for an invariant about what happened so far (`Each`, `Occurs` speak of the steps
  themselves). `Since` speaks of one step and all that follow it; `exec_since` is its rule.
-/
import Mathlib.Order.Basic

namespace Lib

variable {σ ℓ : Type} (step : σ → ℓ → Option σ)

/-- Perform the labels in order; `none` when one of them is not enabled. -/
def exec : σ → List ℓ → Option σ
  | s, [] => some s
  | s, l :: ls => (step s l).bind fun s' => exec s' ls

/-- Every step of the run of `ls` from `s` meets `P` (at the state before it). -/
def Along (P : σ → ℓ → Prop) : σ → List ℓ → Prop
  | _, [] => True
  | s, l :: ls => P s l ∧ ∀ s', step s l = some s' → Along P s' ls

/-- Every step of the run of `ls` from `s` is one of `E`. -/
def Each (E : σ → ℓ → σ → Prop) : σ → List ℓ → Prop
  | _, [] => True
  | s, l :: ls => ∀ s', step s l = some s' → E s l s' ∧ Each E s' ls

/-- Some step of the run of `ls` from `s` is one of `E`. -/
def Occurs (E : σ → ℓ → σ → Prop) : σ → List ℓ → Prop
  | _, [] => False
  | s, l :: ls => ∃ s', step s l = some s' ∧ (E s l s' ∨ Occurs E s' ls)

/-- Some step of the run of `ls` from `s` meets `E`, and all steps after it meet `P`. -/
def Since (E P : σ → ℓ → Prop) : σ → List ℓ → Prop
  | _, [] => False
  | s, l :: ls => ∃ s', step s l = some s' ∧ (E s l ∧ Along step P s' ls ∨ Since E P s' ls)

/-- Whether a condition that can be tested held along a run can be tested. -/
def decideAlong (P : σ → ℓ → Prop) [∀ s l, Decidable (P s l)] :
    ∀ s ls, Decidable (Along step P s ls)
  | _, [] => isTrue trivial
  | s, l :: ls =>
    match h : step s l with
    | none => decidable_of_iff (P s l) (by simp [Along, h])
    | some s' =>
      have := decideAlong P s' ls
      decidable_of_iff (P s l ∧ Along step P s' ls) (by simp [Along, h])

instance (P : σ → ℓ → Prop) [∀ s l, Decidable (P s l)] (s : σ) (ls : List ℓ) :
    Decidable (Along step P s ls) := decideAlong step P s ls

variable {step}

@[simp] theorem exec_nil (s : σ) : exec step s [] = some s := rfl

theorem exec_cons {s t : σ} {l : ℓ} {ls : List ℓ} :
    exec step s (l :: ls) = some t ↔ ∃ s', step s l = some s' ∧ exec step s' ls = some t := by
  simp [exec, Option.bind_eq_some_iff]

theorem exec_append {s t : σ} {ls ms : List ℓ} :
    exec step s (ls ++ ms) = some t ↔
      ∃ s', exec step s ls = some s' ∧ exec step s' ms = some t := by
  induction ls generalizing s with
  | nil => simp
  | cons l ls ih =>
    rw [List.cons_append, exec_cons]
    simp only [ih, exec_cons]
    constructor
    · rintro ⟨s₁, h₁, s₂, h₂, h₃⟩
      exact ⟨s₂, ⟨s₁, h₁, h₂⟩, h₃⟩
    · rintro ⟨s₂, ⟨s₁, h₁, h₂⟩, h₃⟩
      exact ⟨s₁, h₁, s₂, h₂, h₃⟩

theorem along_append {P : σ → ℓ → Prop} {s s' : σ} {ls ms : List ℓ}
    (he : exec step s ls = some s') :
    Along step P s (ls ++ ms) ↔ Along step P s ls ∧ Along step P s' ms := by
  induction ls generalizing s with
  | nil =>
    rw [exec_nil, Option.some.injEq] at he
    subst he
    simp [Along]
  | cons l ls ih =>
    obtain ⟨s₁, h₁, h₂⟩ := exec_cons.mp he
    simp only [List.cons_append, Along, h₁, Option.some.injEq, forall_eq', ih h₂, and_assoc]

theorem Along.of_append {P : σ → ℓ → Prop} {s : σ} {ls ms : List ℓ}
    (h : Along step P s (ls ++ ms)) : Along step P s ls := by
  induction ls generalizing s with
  | nil => trivial
  | cons l ls ih => exact ⟨h.1, fun s' hs => ih (h.2 s' hs)⟩

/-- What holds of all labels holds along every run. -/
theorem along_of_forall {P : σ → ℓ → Prop} {ls : List ℓ} (h : ∀ s, ∀ l ∈ ls, P s l) (s : σ) :
    Along step P s ls := by
  induction ls generalizing s with
  | nil => trivial
  | cons l ls ih =>
    exact ⟨h s l List.mem_cons_self,
      fun s' _ => ih (fun t m hm => h t m (List.mem_cons_of_mem l hm)) s'⟩

theorem Along.and {P Q : σ → ℓ → Prop} {s : σ} {ls : List ℓ} (hp : Along step P s ls)
    (hq : Along step Q s ls) : Along step (fun s l => P s l ∧ Q s l) s ls := by
  induction ls generalizing s with
  | nil => trivial
  | cons l ls ih =>
    exact ⟨⟨hp.1, hq.1⟩, fun s' hs => ih (hp.2 s' hs) (hq.2 s' hs)⟩

/-- The invariant rule for runs whose steps all meet `P`. -/
theorem exec_inv_along {P : σ → ℓ → Prop} {I : σ → Prop}
    (hstep : ∀ s l s', I s → P s l → step s l = some s' → I s')
    {s t : σ} {ls : List ℓ} (hs : I s) (hP : Along step P s ls)
    (he : exec step s ls = some t) : I t := by
  induction ls generalizing s with
  | nil =>
    rw [exec_nil, Option.some.injEq] at he
    exact he ▸ hs
  | cons l ls ih =>
    obtain ⟨s₁, h₁, h₂⟩ := exec_cons.mp he
    exact ih (hstep s l s₁ hs hP.1 h₁) (hP.2 s₁ h₁) h₂

/-- What an invariant gives at a step holds along the run. -/
theorem along_inv {P Q : σ → ℓ → Prop} {I : σ → Prop}
    (hstep : ∀ s l s', I s → P s l → step s l = some s' → I s')
    (hQ : ∀ s l, I s → P s l → Q s l) {s : σ} {ls : List ℓ} (hs : I s)
    (hP : Along step P s ls) : Along step Q s ls := by
  induction ls generalizing s with
  | nil => trivial
  | cons l ls ih =>
    exact ⟨hQ s l hs hP.1, fun s' h => ih (hstep s l s' hs hP.1 h) (hP.2 s' h)⟩

/-- The invariant rule. -/
theorem exec_inv {I : σ → Prop} (hstep : ∀ s l s', I s → step s l = some s' → I s')
    {s t : σ} {ls : List ℓ} (hs : I s) (he : exec step s ls = some t) : I t :=
  exec_inv_along (P := fun _ _ => True) (fun s l s' h _ => hstep s l s' h) hs
    (along_of_forall (fun _ _ _ => trivial) s) he

theorem Each.mono {E F : σ → ℓ → σ → Prop} (h : ∀ s l s', E s l s' → F s l s') {s : σ} {ls : List ℓ}
    (he : Each step E s ls) : Each step F s ls := by
  induction ls generalizing s with
  | nil => trivial
  | cons l ls ih => exact fun s' hs => ⟨h s l s' (he s' hs).1, ih (he s' hs).2⟩

/-- A step that occurs is like every step. -/
theorem Each.of_occurs {E F : σ → ℓ → σ → Prop} {s : σ} {ls : List ℓ} (he : Each step E s ls)
    (ho : Occurs step F s ls) : ∃ s₁ l s₂, F s₁ l s₂ ∧ E s₁ l s₂ := by
  induction ls generalizing s with
  | nil => cases ho
  | cons l ls ih =>
    obtain ⟨s', hs, hF | ho⟩ := ho
    · exact ⟨s, l, s', hF, (he s' hs).1⟩
    · exact ih (he s' hs).2 ho

theorem since_append {E P : σ → ℓ → Prop} {s s₁ s₂ : σ} {ls₁ ls₂ : List ℓ} {l : ℓ}
    (h₁ : exec step s ls₁ = some s₁) (hl : step s₁ l = some s₂) (hE : E s₁ l)
    (hP : Along step P s₂ ls₂) : Since step E P s (ls₁ ++ l :: ls₂) := by
  induction ls₁ generalizing s with
  | nil =>
    obtain rfl := Option.some.inj h₁
    exact ⟨s₂, hl, .inl ⟨hE, hP⟩⟩
  | cons m ls₁ ih =>
    obtain ⟨s', hs', h₂⟩ := exec_cons.mp h₁
    exact ⟨s', hs', .inr (ih h₂)⟩

/-- The rule for `Since`: what the one step gives and the steps after it keep, holds at the end;
    `J` is an invariant of the whole run. -/
theorem exec_since {E P Q : σ → ℓ → Prop} {I J : σ → Prop}
    (hinv : ∀ s l s', J s → Q s l → step s l = some s' → J s')
    (hgives : ∀ s l s', J s → Q s l → step s l = some s' → E s l → I s')
    (hkeeps : ∀ s l s', J s → Q s l → step s l = some s' → I s → P s l → I s') {s t : σ}
    {ls : List ℓ} (hs : J s) (hQ : Along step Q s ls) (hsince : Since step E P s ls)
    (he : exec step s ls = some t) : I t := by
  induction ls generalizing s with
  | nil => cases hsince
  | cons l ls ih =>
    obtain ⟨s₁, h₁, h₂⟩ := exec_cons.mp he
    obtain ⟨s', hs', hcase⟩ := hsince
    obtain rfl : s₁ = s' := Option.some.inj (h₁.symm.trans hs')
    have hJ := hinv s l s₁ hs hQ.1 h₁
    rcases hcase with ⟨hE, hP⟩ | hlater
    · have hboth := exec_inv_along (I := fun s => J s ∧ I s) (P := fun s l => Q s l ∧ P s l)
        (fun s l s' h hl hs => ⟨hinv s l s' h.1 hl.1 hs, hkeeps s l s' h.1 hl.1 hs h.2 hl.2⟩)
        ⟨hJ, hgives s l s₁ hs hQ.1 h₁ hE⟩ ((hQ.2 s₁ h₁).and hP) h₂
      exact hboth.2
    · exact ih hJ (hQ.2 s₁ h₁) hlater h₂

/-- Where a step that meets `Q` does `E` if and only if it meets `P`, and one that does keeps what
    this takes, every step of a run that meets `Q` does `E` if and only if all of them meet `P`. -/
theorem each_step_iff_along {P Q : σ → ℓ → Prop} {E : σ → ℓ → σ → Prop} {I : σ → Prop}
    (hinv : ∀ s l s', I s → Q s l → step s l = some s' → E s l s' → I s')
    (hstep : ∀ s l s', I s → Q s l → step s l = some s' → (E s l s' ↔ P s l)) {s t : σ}
    {ls : List ℓ} (hs : I s) (hQ : Along step Q s ls) (he : exec step s ls = some t) :
    Each step E s ls ↔ Along step P s ls := by
  induction ls generalizing s with
  | nil => exact Iff.rfl
  | cons l ls ih =>
    obtain ⟨s₁, h₁, h₂⟩ := exec_cons.mp he
    simp only [Each, Along, h₁, Option.some.injEq, forall_eq', ← hstep s l s₁ hs hQ.1 h₁]
    exact and_congr_right fun h => ih (hinv s l s₁ hs hQ.1 h₁ h) (hQ.2 s₁ h₁) h₂

/-- Where a step does `E` if and only if it meets `P`, and a step that does keeps what this takes,
    every step of a run does `E` if and only if all of them meet `P`. -/
theorem each_step_iff {P : σ → ℓ → Prop} {E : σ → ℓ → σ → Prop} {I : σ → Prop}
    (hinv : ∀ s l s', I s → step s l = some s' → E s l s' → I s')
    (hstep : ∀ s l s', I s → step s l = some s' → (E s l s' ↔ P s l)) {s t : σ} {ls : List ℓ}
    (hs : I s) (he : exec step s ls = some t) : Each step E s ls ↔ Along step P s ls :=
  each_step_iff_along (Q := fun _ _ => True) (fun s l s' h _ => hinv s l s' h)
    (fun s l s' h _ => hstep s l s' h) hs (along_of_forall (fun _ _ _ => trivial) s) he

/-- The exact form of the invariant rule: where a step keeps the invariant if and only if it meets
    `P`, the invariant holds in every state of a run if and only if all its steps meet `P`. -/
theorem each_inv_iff {P : σ → ℓ → Prop} {I : σ → Prop}
    (hstep : ∀ s l s', I s → step s l = some s' → (I s' ↔ P s l)) {s t : σ} {ls : List ℓ}
    (hs : I s) (he : exec step s ls = some t) :
    Each step (fun _ _ s' => I s') s ls ↔ Along step P s ls :=
  each_step_iff (E := fun _ _ s' => I s') (fun _ _ _ _ _ h => h) hstep hs he

/-- The invariant rule with a history variable: the variable grows with the run, and what holds
    of a step holds of it ever after. -/
theorem exec_history {γ : Type} [Preorder γ] {P : σ → ℓ → Prop} {I : γ → σ → Prop}
    {Q : σ → ℓ → σ → γ → Prop}
    (hstep : ∀ g s l s', I g s → P s l → step s l = some s' →
      ∃ g', g ≤ g' ∧ I g' s' ∧ Q s l s' g')
    (hkeep : ∀ s l s' g g', g ≤ g' → Q s l s' g → Q s l s' g')
    {s t : σ} {ls : List ℓ} {g : γ} (hs : I g s) (hP : Along step P s ls)
    (he : exec step s ls = some t) :
    ∃ g', g ≤ g' ∧ I g' t ∧ Each step (fun s l s' => Q s l s' g') s ls := by
  induction ls generalizing s g with
  | nil =>
    rw [exec_nil, Option.some.injEq] at he
    exact ⟨g, le_refl g, he ▸ hs, trivial⟩
  | cons l ls ih =>
    obtain ⟨s₁, h₁, h₂⟩ := exec_cons.mp he
    obtain ⟨g₁, hg₁, hinv, hQ⟩ := hstep g s l s₁ hs hP.1 h₁
    obtain ⟨g₂, hg₂, ht, heach⟩ := ih hinv (hP.2 s₁ h₁) h₂
    refine ⟨g₂, le_trans hg₁ hg₂, ht, fun s' hs' => ?_⟩
    obtain rfl : s₁ = s' := Option.some.inj (h₁.symm.trans hs')
    exact ⟨hkeep s l s₁ g₁ g₂ hg₂ hQ, heach⟩

end Lib
