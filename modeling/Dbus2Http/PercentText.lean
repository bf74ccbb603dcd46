import Dbus2Http.Substitution
import Mathlib.Data.List.Flatten

set_option autoImplicit false

/-! Texts made of plain characters and of percent escapes. -/

namespace PercentText

open Substitution

/-- A character other than the percent sign, or a percent sign with the two characters it
governs. -/
inductive Token
  | plain (c : Char) (visible : c ≠ '%')
  | escape (high low : Char) (clean : high ≠ '%' ∧ low ≠ '%')

def Token.text : Token → List Char
  | plain c _ => [c]
  | escape high low _ => ['%', high, low]

def texts (tokens : List Token) : List Char := tokens.flatMap Token.text

@[simp] theorem texts_cons (token : Token) (tokens : List Token) :
    texts (token :: tokens) = token.text ++ texts tokens := rfl

/-- An escape with the character it stands for. -/
structure Escape where
  high : Char
  low : Char
  char : Char
  visible : char ≠ '%'

def Escape.pattern (e : Escape) : List Char := ['%', e.high, e.low]

/-- The token with this escape undone. -/
def Escape.undo (e : Escape) : Token → Token
  | .plain c visible => .plain c visible
  | .escape high low clean =>
      if high = e.high ∧ low = e.low then .plain e.char e.visible else .escape high low clean

/-- Replacing an escape undoes it in the tokens, and never meets anything else. -/
theorem substitute_texts (e : Escape) (tokens : List Token) :
    substitute e.pattern [e.char] (texts tokens) = texts (tokens.map e.undo) := by
  have other : ∀ {c : Char}, c ≠ '%' → ∀ rest,
      substitute e.pattern [e.char] (c :: rest) = c :: substitute e.pattern [e.char] rest := by
    intro c visible rest
    apply substitute_cons
    intro start
    exact visible (List.cons_prefix_cons.mp start).1.symm
  induction tokens with
  | nil => rfl
  | cons token tokens ih =>
      rw [texts_cons, List.map_cons, texts_cons, ← ih]
      cases token with
      | plain c visible => exact other visible _
      | escape high low clean =>
          by_cases same : high = e.high ∧ low = e.low
          · obtain ⟨rfl, rfl⟩ := same
            have nonempty : e.pattern ≠ [] := List.cons_ne_nil _ _
            have undone : e.undo (.escape e.high e.low clean) = .plain e.char e.visible :=
              if_pos ⟨rfl, rfl⟩
            rw [undone]
            exact substitute_here nonempty [e.char] _
          · have missed : ¬ e.pattern <+: '%' :: high :: low :: texts tokens := by
              intro start
              have second := List.cons_prefix_cons.mp (List.cons_prefix_cons.mp start).2
              have third := List.cons_prefix_cons.mp second.2
              exact same ⟨second.1.symm, third.1.symm⟩
            have kept : e.undo (.escape high low clean) = .escape high low clean := if_neg same
            rw [kept]
            simp only [Token.text, List.cons_append, List.nil_append]
            rw [substitute_cons missed, other clean.1, other clean.2]

/-- A chain of replacements undoes one escape after the other. -/
theorem foldl_substitute_texts (es : List Escape) (tokens : List Token) :
    es.foldl (fun text e => substitute e.pattern [e.char] text) (texts tokens) =
      texts (tokens.map fun token => es.foldl (fun token e => e.undo token) token) := by
  induction es generalizing tokens with
  | nil => simp
  | cons e es ih =>
      rw [List.foldl_cons, substitute_texts, ih, List.map_map]
      rfl

end PercentText
