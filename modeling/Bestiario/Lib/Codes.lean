import Mathlib

/-! # Words that are read off the front

    A code in which no word is the start of another.  Written one after another
    without any separator its words can still be told apart: what a text opens with
    is one word at most, and what follows the word is then known too. -/

namespace Codes

variable {α C : Type}

/-- No word is the start of another one's. -/
def PrefixFree (code : α → List C) : Prop := ∀ a b, code a <+: code b → a = b

/-- **THE FIRST WORD AND THE REST** are known from the whole. -/
theorem PrefixFree.append_inj {code : α → List C} (h : PrefixFree code) {a b : α}
    {rest rest' : List C} (heq : code a ++ rest = code b ++ rest') : a = b ∧ rest = rest' := by
  have ha : code a <+: code b ++ rest' := ⟨rest, heq⟩
  have hb : code b <+: code b ++ rest' := List.prefix_append (code b) rest'
  have hsame : a = b := by
    rcases List.prefix_or_prefix_of_prefix ha hb with hab | hba
    · exact h a b hab
    · exact (h b a hba).symm
  subst hsame
  exact ⟨rfl, List.append_cancel_left heq⟩

/-- A code of finitely many words is looked through. -/
theorem prefixFree_of_all {code : α → List C} (all : List α) (hall : ∀ a, a ∈ all)
    (h : ∀ a ∈ all, ∀ b ∈ all, code a <+: code b → a = b) : PrefixFree code :=
  fun a b => h a (hall a) b (hall b)

/-- Different words of one length are no start of one another. -/
theorem prefixFree_of_length {code : α → List C} (hinj : Function.Injective code)
    (hlength : ∀ a b, (code a).length = (code b).length) : PrefixFree code := by
  intro a b hstarts
  exact hinj (hstarts.eq_of_length (hlength a b))

end Codes
