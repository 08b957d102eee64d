import Mathlib

/-! # Checks that answer for what they say

    A check either passes, with a value, or stops at an error.  `Judges x B` is that the
    check answers for its errors: one it stops at is true (`B e`), and when it passes none
    is.  Checks are made of smaller ones, and so is what they answer for:

    * `Judges.ensure` — one condition, one error;
    * `Judges.seq` — one check after another, over what the first one made, and
      `Judges.also` where it made nothing;
    * `Judges.each`, `Judges.every` — the same check of every element of a list;
    * `Judges.imp` — the same check, its errors read another way. -/

namespace Checks

variable {ε α β : Type}

/-- An error the check stops at is true, and where it passes none is. -/
structure Judges (x : Except ε α) (B : ε → Prop) : Prop where
  blames : ∀ e, x = .error e → B e
  clears : ∀ a, x = .ok a → ∀ e, ¬ B e

/-- A check that cannot fail. -/
theorem Judges.pass (a : α) : Judges (.ok a : Except ε α) fun _ => False :=
  ⟨fun _ h => (nomatch h), fun _ _ _ h => h⟩

/-- One condition, one error. -/
def ensure (c : Prop) [Decidable c] (err : ε) : Except ε Unit :=
  if c then .ok () else .error err

theorem Judges.ensure {c : Prop} [Decidable c] {err : ε} :
    Judges (ensure c err) fun e => ¬ c ∧ e = err := by
  rw [Checks.ensure]
  by_cases hc : c
  · rw [if_pos hc]
    exact ⟨fun _ h => (nomatch h), fun _ _ _ h => h.1 hc⟩
  · rw [if_neg hc]
    exact ⟨fun _ h => ⟨hc, (Except.error.inj h).symm⟩, fun _ h => nomatch h⟩

/-- One check after another. -/
theorem Judges.seq {x : Except ε α} {f : α → Except ε β} {B : ε → Prop} {B' : α → ε → Prop}
    (hx : Judges x B) (hf : ∀ a, x = .ok a → Judges (f a) (B' a)) :
    Judges (x >>= f) fun e => B e ∨ ∃ a, x = .ok a ∧ B' a e := by
  cases x with
  | error err =>
      refine ⟨fun e h => Or.inl ?_, fun _ h => nomatch h⟩
      exact hx.blames e (congrArg _ (Except.error.inj h))
  | ok a =>
      refine ⟨fun e h => Or.inr ⟨a, rfl, (hf a rfl).blames e h⟩, fun b h e hb => ?_⟩
      rcases hb with hfirst | ⟨a', ha', hnext⟩
      · exact hx.clears a rfl e hfirst
      · rw [← Except.ok.inj ha'] at hnext
        exact (hf a rfl).clears b h e hnext

/-- The same check, its errors read another way. -/
theorem Judges.imp {x : Except ε α} {B B' : ε → Prop} (hx : Judges x B)
    (hto : ∀ e, B e → B' e) (hfrom : ∀ a, x = .ok a → ∀ e, B' e → B e) : Judges x B' :=
  ⟨fun e h => hto e (hx.blames e h), fun a h e hb => hx.clears a h e (hfrom a h e hb)⟩

/-- One check after another, where the second only asks that the first passed. -/
theorem Judges.also {x : Except ε Unit} {y : Except ε β} {B B' : ε → Prop} (hx : Judges x B)
    (hy : x = .ok () → Judges y B') : Judges (x >>= fun _ => y) fun e => B e ∨ B' e := by
  refine (hx.seq fun _ h => hy h).imp ?_ ?_
  · rintro e (hfirst | ⟨_, _, hnext⟩)
    · exact Or.inl hfirst
    · exact Or.inr hnext
  · intro b hboth e hb
    cases hfirst : x with
    | error err =>
        rw [hfirst] at hboth
        exact nomatch hboth
    | ok done => exact hb.imp id fun hnext => ⟨done, rfl, hnext⟩

/-- The same check of every element. -/
theorem Judges.each {l : List α} {f : α → Except ε Unit} {B : α → ε → Prop}
    (h : ∀ a ∈ l, Judges (f a) (B a)) : Judges (l.forM f) fun e => ∃ a ∈ l, B a e := by
  induction l with
  | nil => exact ⟨fun _ h => (nomatch h), fun _ _ _ ⟨_, hmem, _⟩ => nomatch hmem⟩
  | cons a l ih =>
      have hseq := (h a List.mem_cons_self).seq (f := fun _ => l.forM f)
        fun _ _ => ih fun b hb => h b (List.mem_cons_of_mem _ hb)
      change Judges (f a >>= fun _ => l.forM f) _
      refine ⟨fun e he => ?_, fun u hu e hb => ?_⟩
      · rcases hseq.blames e he with hhead | ⟨_, _, b, hb, hrest⟩
        · exact ⟨a, List.mem_cons_self, hhead⟩
        · exact ⟨b, List.mem_cons_of_mem _ hb, hrest⟩
      · refine hseq.clears u hu e ?_
        cases hfirst : f a with
        | error err =>
            rw [hfirst] at hu
            exact nomatch hu
        | ok done =>
            obtain ⟨b, hmem, hbad⟩ := hb
            rcases List.mem_cons.mp hmem with rfl | hin
            · exact Or.inl hbad
            · exact Or.inr ⟨done, rfl, b, hin, hbad⟩

/-- The same reading of every element. -/
theorem Judges.every {l : List α} {f : α → Except ε β} {B : α → ε → Prop}
    (h : ∀ a ∈ l, Judges (f a) (B a)) : Judges (l.mapM f) fun e => ∃ a ∈ l, B a e := by
  induction l with
  | nil => exact ⟨fun _ h => (nomatch h), fun _ _ _ ⟨_, hmem, _⟩ => nomatch hmem⟩
  | cons a l ih =>
      have hrest := ih fun b hb => h b (List.mem_cons_of_mem _ hb)
      rw [List.mapM_cons]
      cases hfirst : f a with
      | error err =>
          refine ⟨fun e he => ⟨a, List.mem_cons_self, ?_⟩, fun _ he => nomatch he⟩
          exact (h a List.mem_cons_self).blames e (hfirst.trans (congrArg _ (Except.error.inj he)))
      | ok b =>
          cases hall : l.mapM f with
          | error err =>
              refine ⟨fun e he => ?_, fun _ he => nomatch he⟩
              obtain ⟨a', hmem, hbad⟩ := hrest.blames e
                (hall.trans (congrArg _ (Except.error.inj he)))
              exact ⟨a', List.mem_cons_of_mem _ hmem, hbad⟩
          | ok bs =>
              refine ⟨fun _ he => (nomatch he), fun _ _ e ⟨a', hmem, hbad⟩ => ?_⟩
              rcases List.mem_cons.mp hmem with rfl | hin
              · exact (h a' List.mem_cons_self).clears b hfirst e hbad
              · exact hrest.clears bs hall e ⟨a', hin, hbad⟩

end Checks
