import Mathlib.Algebra.Group.Int.Defs
import Mathlib.Data.List.Lex
import Mathlib.Data.List.TakeWhile
import Mathlib.Data.Char

set_option autoImplicit false

namespace Cxx

/-- A `std::string`: one character for each byte. -/
abbrev Str := List Char

/-- The exception classes the modelled code can raise. -/
inductive ExnClass
  | invalidArgument
  | outOfRange
  | logicError
  | runtimeError
  | busError
  | jsonTypeError
  | jsonOutOfRange
deriving DecidableEq, Repr

structure Exn where
  cls : ExnClass
  what : Str
deriving DecidableEq, Repr

/-- A run either raises an exception or has not ended within its fuel. -/
inductive Fault
  | thrown (exn : Exn)
  | outOfFuel
deriving DecidableEq, Repr

abbrev Run (α : Type) := Except Fault α

def throwExn {α : Type} (cls : ExnClass) (what : Str) : Run α :=
  .error (.thrown ⟨cls, what⟩)

/-- A call into a library that may raise an exception of its own. -/
def orThrow {α : Type} (cls : ExnClass) : Option α → Run α
  | some value => .ok value
  | none => throwExn cls []

@[simp] theorem orThrow_some {α : Type} (cls : ExnClass) (value : α) :
    orThrow cls (some value) = .ok value := rfl

theorem orThrow_eq_ok {α : Type} {cls : ExnClass} {result : Option α} {value : α} :
    orThrow cls result = .ok value ↔ result = some value := by
  cases result <;> simp [orThrow, throwExn]

@[simp] theorem throwExn_ne_ok {α : Type} (cls : ExnClass) (what : Str) (value : α) :
    throwExn cls what ≠ .ok value := by
  simp [throwExn]

/-- A call throws when it ends with an exception. -/
def Throws {α : Type} (run : Run α) : Prop := ∃ exn, run = .error (.thrown exn)

theorem Throws.ne_ok {α : Type} {run : Run α} (throws : Throws run) (value : α) :
    run ≠ .ok value := by
  obtain ⟨exn, rfl⟩ := throws
  simp

@[simp] theorem bind_ok {α β : Type} (value : α) (next : α → Run β) :
    (Except.ok value : Run α) >>= next = next value := rfl

@[simp] theorem bind_error {α β : Type} (fault : Fault) (next : α → Run β) :
    (Except.error fault : Run α) >>= next = .error fault := rfl

@[simp] theorem bind_throwExn {α β : Type} (cls : ExnClass) (what : Str) (next : α → Run β) :
    (throwExn cls what : Run α) >>= next = throwExn cls what := rfl

/-- A sequence ends normally exactly when both of its parts do. -/
theorem bind_eq_ok {α β : Type} {first : Run α} {next : α → Run β} {result : β} :
    first >>= next = .ok result ↔ ∃ value, first = .ok value ∧ next value = .ok result := by
  cases first with
  | error fault => simp
  | ok value => simp

/-- What every round of a loop preserves, a loop that ends normally preserves. -/
theorem foldlM_preserves {σ ι : Type} {P : σ → Prop} {step : σ → ι → Run σ} {xs : List ι}
    {before after : σ} (round : ∀ x ∈ xs, ∀ a b, step a x = .ok b → P a → P b)
    (done : xs.foldlM step before = .ok after) (holds : P before) : P after := by
  induction xs generalizing before with
  | nil =>
      cases done
      exact holds
  | cons x rest ih =>
      rw [List.foldlM_cons, bind_eq_ok] at done
      obtain ⟨middle, first, others⟩ := done
      have kept := round x List.mem_cons_self before middle first holds
      exact ih (fun y inside => round y (List.mem_cons_of_mem _ inside)) others kept

/-! ### Fuel -/

/-- With enough fuel the run is `result`, and more fuel does not change it. -/
def Settles {α : Type} (run : Nat → Run α) (result : Run α) : Prop :=
  ∃ enough, ∀ fuel, enough ≤ fuel → run fuel = result

theorem Settles.unique {α : Type} {run : Nat → Run α} {first second : Run α}
    (one : Settles run first) (two : Settles run second) : first = second := by
  obtain ⟨n, hn⟩ := one
  obtain ⟨m, hm⟩ := two
  rw [← hn (max n m) (Nat.le_max_left n m), hm (max n m) (Nat.le_max_right n m)]

/-- What holds of each member with enough fuel holds of all of them with enough. -/
theorem exists_enough {α : Type} {P : α → Nat → Prop} {xs : List α}
    (each : ∀ x ∈ xs, ∃ enough, ∀ fuel, enough ≤ fuel → P x fuel) :
    ∃ enough, ∀ fuel, enough ≤ fuel → ∀ x ∈ xs, P x fuel := by
  induction xs with
  | nil => exact ⟨0, by simp⟩
  | cons x xs ih =>
      obtain ⟨n, first⟩ := each x (by simp)
      obtain ⟨m, others⟩ := ih fun y inside => each y (by simp [inside])
      refine ⟨max n m, fun fuel le y inside => ?_⟩
      rcases List.mem_cons.mp inside with same | later
      · rw [same]
        exact first fuel (by omega)
      · exact others fuel (by omega) y later

/-! ### Runs that end -/

/-- The run returns or throws. -/
def Ends {α : Type} (run : Run α) : Prop := run ≠ .error .outOfFuel

namespace Ends

variable {α β : Type}

theorem ok (value : α) : Ends (.ok value : Run α) := by
  simp [Ends]

theorem throwExn (cls : ExnClass) (what : Str) : Ends (throwExn cls what : Run α) := by
  simp [Ends, Cxx.throwExn]

theorem orThrow (cls : ExnClass) (result : Option α) : Ends (orThrow cls result) := by
  cases result with
  | some value => exact ok value
  | none => exact throwExn cls []

theorem bind {first : Run α} {next : α → Run β} (ends : Ends first)
    (continued : ∀ a, first = .ok a → Ends (next a)) : Ends (first >>= next) := by
  cases result : first with
  | ok a => exact continued a result
  | error fault =>
      rw [result] at ends
      simpa [Ends] using ends

theorem of_bind {first : Run α} {next : α → Run β} (ends : Ends (first >>= next)) : Ends first := by
  rintro rfl
  exact ends rfl

theorem foldlM {ι : Type} {xs : List ι} {step : α → ι → Run α}
    (steps : ∀ x ∈ xs, ∀ a, Ends (step a x)) (start : α) : Ends (xs.foldlM step start) := by
  induction xs generalizing start with
  | nil => exact ok start
  | cons x xs ih =>
      rw [List.foldlM_cons]
      apply bind (steps x (by simp) start)
      intro next _
      exact ih (fun y inside => steps y (by simp [inside])) next

theorem throws_of_ne_ok {run : Run α} (ends : Ends run) (never : ∀ value, run ≠ .ok value) :
    Throws run := by
  cases run with
  | ok value => exact absurd rfl (never value)
  | error fault =>
      cases fault with
      | thrown exn => exact ⟨exn, rfl⟩
      | outOfFuel => exact absurd rfl ends

end Ends

theorem Throws.of_bind {α β : Type} {first : Run α} {next : α → Run β}
    (throws : Throws (first >>= next)) : Throws first ∨ ∃ a, first = .ok a ∧ Throws (next a) := by
  obtain ⟨exn, raised⟩ := throws
  cases result : first with
  | ok a =>
      rw [result] at raised
      exact .inr ⟨a, rfl, exn, raised⟩
  | error fault =>
      rw [result, bind_error, Except.error.injEq] at raised
      rw [raised]
      exact .inl ⟨exn, rfl⟩

/-- Every exception the run may end with is of this kind. -/
def ThrowsOnly {α : Type} (P : Exn → Prop) (run : Run α) : Prop :=
  ∀ exn, run = .error (.thrown exn) → P exn

namespace ThrowsOnly

variable {α β : Type} {P Q : Exn → Prop}

theorem ok (value : α) : ThrowsOnly P (.ok value : Run α) := by
  intro exn raised
  contradiction

theorem outOfFuel : ThrowsOnly P (.error .outOfFuel : Run α) := by
  intro exn raised
  cases raised

theorem throwExn {cls : ExnClass} {what : Str} (holds : P ⟨cls, what⟩) :
    ThrowsOnly P (throwExn cls what : Run α) := by
  intro exn raised
  cases raised
  exact holds

theorem mono {run : Run α} (only : ThrowsOnly P run) (weaker : ∀ exn, P exn → Q exn) :
    ThrowsOnly Q run := fun exn raised => weaker exn (only exn raised)

theorem bind {first : Run α} {next : α → Run β} (only : ThrowsOnly P first)
    (continued : ∀ a, first = .ok a → ThrowsOnly P (next a)) : ThrowsOnly P (first >>= next) := by
  cases result : first with
  | ok a => exact continued a result
  | error fault =>
      rw [bind_error]
      intro exn raised
      exact only exn (result.trans (congrArg Except.error (Except.error.inj raised)))

/-- Each step keeps the state good, and throws only so while it is. -/
theorem foldlM {ι : Type} (good : α → Prop) {xs : List ι} {step : α → ι → Run α}
    (steps : ∀ x ∈ xs, ∀ a, good a → ThrowsOnly P (step a x) ∧ ∀ b, step a x = .ok b → good b)
    {start : α} (holds : good start) : ThrowsOnly P (xs.foldlM step start) := by
  induction xs generalizing start with
  | nil => exact ok start
  | cons x xs ih =>
      obtain ⟨first, kept⟩ := steps x (by simp) start holds
      rw [List.foldlM_cons]
      apply bind first
      intro next ran
      exact ih (fun y inside => steps y (by simp [inside])) (kept next ran)

end ThrowsOnly

theorem not_throws_iff {α : Type} {run : Run α} : ¬ Throws run ↔ ThrowsOnly (fun _ => False) run := by
  simp [Throws, ThrowsOnly]

theorem not_throws_foldlM {α ι : Type} {xs : List ι} {step : α → ι → Run α}
    (steps : ∀ x ∈ xs, ∀ a, ¬ Throws (step a x)) (start : α) : ¬ Throws (xs.foldlM step start) := by
  rw [not_throws_iff]
  refine ThrowsOnly.foldlM (fun _ => True) ?_ trivial
  intro x inside a _
  exact ⟨not_throws_iff.mp (steps x inside a), fun _ _ => trivial⟩

/-! ### Two runs side by side -/

/-- Two runs end alike: with related results, or with the same fault. -/
inductive Alike {α β : Type} (R : α → β → Prop) : Run α → Run β → Prop
  | ok {a : α} {b : β} (related : R a b) : Alike R (.ok a) (.ok b)
  | error (fault : Fault) : Alike R (.error fault) (.error fault)

namespace Alike

variable {α β γ δ ι : Type} {R : α → β → Prop} {S : γ → δ → Prop}

theorem eq {first second : Run α} (alike : Alike Eq first second) : first = second := by
  cases alike with
  | ok related => rw [related]
  | error fault => rfl

theorem bind {first : Run α} {second : Run β} {next : α → Run γ} {next' : β → Run δ}
    (alike : Alike R first second) (continued : ∀ a b, R a b → Alike S (next a) (next' b)) :
    Alike S (first >>= next) (second >>= next') := by
  cases alike with
  | ok related => exact continued _ _ related
  | error fault => exact .error fault

/-- Both runs begin with the same computation. -/
theorem bind_same {first : Run α} {next : α → Run γ} {next' : α → Run δ}
    (continued : ∀ a, first = .ok a → Alike S (next a) (next' a)) :
    Alike S (first >>= next) (first >>= next') := by
  cases first with
  | ok a => exact continued a rfl
  | error fault => exact .error fault

theorem foldlM {xs : List ι} {step : α → ι → Run α} {step' : β → ι → Run β} {a : α} {b : β}
    (related : R a b) (steps : ∀ x ∈ xs, ∀ a b, R a b → Alike R (step a x) (step' b x)) :
    Alike R (xs.foldlM step a) (xs.foldlM step' b) := by
  induction xs generalizing a b with
  | nil => exact .ok related
  | cons x xs ih =>
      rw [List.foldlM_cons, List.foldlM_cons]
      apply bind (steps x (by simp) a b related)
      intro a' b' related'
      exact ih related' (fun y inside => steps y (by simp [inside]))

theorem orThrow (cls : ExnClass) {first : Option α} {second : Option β}
    (alike : Option.Rel R first second) : Alike R (Cxx.orThrow cls first) (Cxx.orThrow cls second) := by
  cases alike with
  | some related => exact .ok related
  | none => exact .error _

theorem ok_right {first : Run α} {b : β} (alike : Alike R first (.ok b)) :
    ∃ a, first = .ok a ∧ R a b := by
  cases alike with
  | ok related => exact ⟨_, rfl, related⟩

theorem ok_left {a : α} {second : Run β} (alike : Alike R (.ok a) second) :
    ∃ b, second = .ok b ∧ R a b := by
  cases alike with
  | ok related => exact ⟨_, rfl, related⟩

end Alike

/-- Whatever the first run returns, the second returns something related. -/
def Forward {α β : Type} (R : α → β → Prop) (first : Run α) (second : Run β) : Prop :=
  ∀ a, first = .ok a → ∃ b, second = .ok b ∧ R a b

namespace Forward

variable {α β γ δ : Type} {R : α → β → Prop} {S : γ → δ → Prop}

theorem ok {a : α} {b : β} (related : R a b) : Forward R (.ok a) (.ok b) := by
  intro a' same
  rw [← Except.ok.inj same]
  exact ⟨b, rfl, related⟩

theorem error (fault : Fault) (second : Run β) : Forward R (.error fault) second := by
  intro a impossible
  contradiction

theorem bind {first : Run α} {second : Run β} {next : α → Run γ} {next' : β → Run δ}
    (forward : Forward R first second) (continued : ∀ a b, R a b → Forward S (next a) (next' b)) :
    Forward S (first >>= next) (second >>= next') := by
  intro c done
  obtain ⟨a, ran, rest⟩ := bind_eq_ok.mp done
  obtain ⟨b, ran', related⟩ := forward a ran
  rw [ran', bind_ok]
  exact continued a b related c rest

/-- Both runs begin with the same computation. -/
theorem bind_same {first : Run α} {next : α → Run γ} {next' : α → Run δ}
    (continued : ∀ a, Forward S (next a) (next' a)) :
    Forward S (first >>= next) (first >>= next') := by
  intro c done
  obtain ⟨a, ran, rest⟩ := bind_eq_ok.mp done
  rw [ran, bind_ok]
  exact continued a c rest

theorem orThrow (cls : ExnClass) {first : Option α} {second : Option β}
    (forward : ∀ a, first = some a → ∃ b, second = some b ∧ R a b) :
    Forward R (Cxx.orThrow cls first) (Cxx.orThrow cls second) := by
  intro a done
  obtain ⟨b, there, related⟩ := forward a (orThrow_eq_ok.mp done)
  exact ⟨b, orThrow_eq_ok.mpr there, related⟩

end Forward

/-! ### Strings -/

/-- `s[i]`: the position just past the end holds the terminating zero. -/
def charAt (s : Str) (i : Nat) : Char := s[i]?.getD '\x00'

/-- `s.substr(pos, n)`. -/
def substr (s : Str) (pos n : Nat) : Run Str :=
  if s.length < pos then throwExn .outOfRange "basic_string::substr".toList
  else .ok ((s.drop pos).take n)

/-- `s.substr(pos)`. -/
def substrFrom (s : Str) (pos : Nat) : Run Str :=
  if s.length < pos then throwExn .outOfRange "basic_string::substr".toList
  else .ok (s.drop pos)

theorem substr_of_le {s : Str} {pos : Nat} (n : Nat) (inside : pos ≤ s.length) :
    substr s pos n = .ok ((s.drop pos).take n) := by
  simp [substr, Nat.not_lt.mpr inside]

theorem substr_eq_ok {s t : Str} {pos n : Nat} :
    substr s pos n = .ok t ↔ pos ≤ s.length ∧ (s.drop pos).take n = t := by
  by_cases beyond : s.length < pos
  · simp only [substr, beyond, ↓reduceIte, throwExn_ne_ok, false_iff]
    omega
  · simp only [substr, beyond, ↓reduceIte, Except.ok.injEq]
    constructor
    · intro same
      exact ⟨Nat.not_lt.mp beyond, same⟩
    · intro both
      exact both.2

theorem subset_of_substr {s t : Str} {pos n : Nat} (cut : substr s pos n = .ok t) : t ⊆ s := by
  obtain ⟨_, rfl⟩ := substr_eq_ok.mp cut
  exact List.Subset.trans (List.take_subset n _) (List.drop_subset pos s)

theorem substrFrom_eq_ok {s t : Str} {pos : Nat} :
    substrFrom s pos = .ok t ↔ pos ≤ s.length ∧ s.drop pos = t := by
  by_cases beyond : s.length < pos
  · simp only [substrFrom, beyond, ↓reduceIte, throwExn_ne_ok, false_iff]
    omega
  · simp only [substrFrom, beyond, ↓reduceIte, Except.ok.injEq]
    constructor
    · intro same
      exact ⟨Nat.not_lt.mp beyond, same⟩
    · intro both
      exact both.2

theorem subset_of_substrFrom {s t : Str} {pos : Nat} (cut : substrFrom s pos = .ok t) : t ⊆ s := by
  obtain ⟨_, rfl⟩ := substrFrom_eq_ok.mp cut
  exact List.drop_subset pos s

theorem length_of_substr {s t : Str} {pos n : Nat} (cut : substr s pos n = .ok t) :
    t.length = min n (s.length - pos) := by
  rw [← (substr_eq_ok.mp cut).2, List.length_take, List.length_drop]

theorem length_of_substrFrom {s t : Str} {pos : Nat} (cut : substrFrom s pos = .ok t) :
    t.length + pos = s.length := by
  obtain ⟨inside, rest⟩ := substrFrom_eq_ok.mp cut
  rw [← rest, List.length_drop]
  omega

/-- What is cut out behind the start is shorter. -/
theorem length_lt_of_substr {s t : Str} {pos n : Nat} (cut : substr s pos n = .ok t) (behind : 0 < pos) :
    t.length < s.length := by
  have inside := (substr_eq_ok.mp cut).1
  have short := length_of_substr cut
  omega

theorem length_of_charAt {s : Str} {i : Nat} {c : Char} (here : charAt s i = c)
    (visible : c ≠ '\x00') : i < s.length := by
  by_contra beyond
  have none : s[i]? = none := List.getElem?_eq_none_iff.mpr (by omega)
  apply visible
  rw [← here, charAt, none]
  rfl

/-- `s.find(c)`; nothing stands for `npos`. -/
def find (s : Str) (c : Char) : Option Nat := s.idxOf? c

/-- `s.rfind(c)` -/
def rfind (s : Str) (c : Char) : Option Nat :=
  (s.reverse.idxOf? c).map fun i => s.length - 1 - i

/-- `s.rfind(text, pos)`: the last place up to `pos` where `text` stands. -/
def rfindText (s text : Str) (pos : Nat) : Option Nat :=
  (List.range (min pos s.length + 1)).reverse.find? fun start => text.isPrefixOf (s.drop start)

/-- `s.rfind(text, 0) == 0` says that `s` begins with `text`. -/
theorem rfindText_zero {s text : Str} : rfindText s text 0 = some 0 ↔ text <+: s := by
  cases found : text.isPrefixOf s with
  | false =>
      have missed : ¬ text <+: s := by simp [← List.isPrefixOf_iff_prefix, found]
      simp [rfindText, found, missed]
  | true => simp [rfindText, found, List.isPrefixOf_iff_prefix.mp found]

theorem find_none {s : Str} {c : Char} (missing : c ∉ s) : find s c = none :=
  List.idxOf?_eq_none_iff.mpr missing

theorem find_cut {before : Str} {c : Char} (fresh : c ∉ before) (after : Str) :
    find (before ++ c :: after) c = some before.length := by
  induction before with
  | nil => simp [find, List.idxOf?_cons]
  | cons d before ih =>
      have different : (d == c) = false := by
        rw [beq_eq_false_iff_ne]
        rintro rfl
        simp at fresh
      have later := ih fun inside => fresh (List.mem_cons_of_mem _ inside)
      rw [find] at later
      simp only [find, List.cons_append, List.idxOf?_cons, different, later]
      simp

theorem rfind_none {s : Str} {c : Char} (missing : c ∉ s) : rfind s c = none := by
  have reversed : s.reverse.idxOf? c = none := find_none (by simpa using missing)
  rw [rfind, reversed, Option.map_none]

theorem rfind_cut {after : Str} {c : Char} (before : Str) (fresh : c ∉ after) :
    rfind (before ++ c :: after) c = some before.length := by
  have shape : (before ++ c :: after).reverse = after.reverse ++ c :: before.reverse := by simp
  have reversed : (before ++ c :: after).reverse.idxOf? c = some after.length := by
    rw [shape, ← List.length_reverse]
    exact find_cut (by simpa using fresh) before.reverse
  rw [rfind, reversed, Option.map_some]
  simp only [List.length_append, List.length_cons, Option.some.injEq]
  omega

/-- A string is cut at the first and at the last place of a character it contains. -/
theorem exists_first_cut {s : Str} {c : Char} (inside : c ∈ s) :
    ∃ before after, s = before ++ c :: after ∧ c ∉ before :=
  List.eq_append_cons_of_mem inside

theorem exists_last_cut {s : Str} {c : Char} (inside : c ∈ s) :
    ∃ before after, s = before ++ c :: after ∧ c ∉ after := by
  obtain ⟨after, before, shape, fresh⟩ := exists_first_cut (List.mem_reverse.mpr inside)
  refine ⟨before.reverse, after.reverse, ?_, by simpa using fresh⟩
  rw [← List.reverse_reverse s, shape]
  simp

/-- A string passed as `s.c_str()` ends at its first zero. -/
def cStr (s : Str) : Str := s.takeWhile (· != '\x00')

theorem cStr_zero_free (s : Str) : '\x00' ∉ cStr s := by
  intro inside
  have := List.mem_takeWhile_imp inside
  simp at this

theorem cStr_eq_self {s : Str} (clean : '\x00' ∉ s) : cStr s = s := by
  rw [cStr, List.takeWhile_eq_self_iff]
  intro c inside
  simp only [bne_iff_ne, ne_eq]
  rintro rfl
  exact clean inside

theorem cStr_append {front : Str} (clean : '\x00' ∉ front) (s : Str) :
    cStr (front ++ s) = front ++ cStr s := by
  apply List.takeWhile_append_of_pos
  intro c inside
  rw [bne_iff_ne]
  rintro rfl
  exact clean inside

/-- The C string stops where a zero is read. -/
theorem exists_dropped (s : Str) : ∃ dropped, s = cStr s ++ dropped ∧ charAt dropped 0 = '\x00' := by
  refine ⟨s.dropWhile (· != '\x00'), List.takeWhile_append_dropWhile.symm, ?_⟩
  cases dropped : s.dropWhile (· != '\x00') with
  | nil => rfl
  | cons c rest =>
      have front := List.head?_dropWhile_not (· != '\x00') s
      simpa [dropped, charAt] using front

/-! ### Integers as text -/

/-- `std::to_string(n)`. -/
def toDecimal : Int → Str
  | .ofNat n => Nat.toDigits 10 n
  | .negSucc n => '-' :: Nat.toDigits 10 (n + 1)

/-- `std::isspace` in the C locale. -/
def isSpace (c : Char) : Bool :=
  c == ' ' || c == '\t' || c == '\n' || c == '\x0b' || c == '\x0c' || c == '\r'

def int64Min : Int := -2 ^ 63

def int64Max : Int := 2 ^ 63 - 1

/-- The digits `std::stoll` reads; what follows them is ignored. -/
def stollDigits (negative : Bool) (text : Str) : Run Int :=
  let digits := text.takeWhile Char.isDigit
  if digits = [] then throwExn .invalidArgument "stoll".toList
  else
    let magnitude : Int := Nat.ofDigitChars 10 digits 0
    let n := if negative then -magnitude else magnitude
    if int64Min ≤ n ∧ n ≤ int64Max then .ok n
    else throwExn .outOfRange "stoll".toList

/-- `std::stoll(text)`: white space, an optional sign, then the longest run of digits. -/
def stoll (text : Str) : Run Int :=
  match text.dropWhile isSpace with
  | '-' :: rest => stollDigits true rest
  | '+' :: rest => stollDigits false rest
  | rest => stollDigits false rest

theorem toDigits_ne_minus (k : Nat) (rest : Str) : Nat.toDigits 10 k ≠ '-' :: rest := by
  intro shape
  have digit : ('-' : Char).isDigit = true :=
    Nat.isDigit_of_mem_toDigits (b := 10) (n := k) (by decide) (by decide) (by simp [shape])
  revert digit
  decide

theorem toDigits_injective {k l : Nat} (same : Nat.toDigits 10 k = Nat.toDigits 10 l) : k = l := by
  calc
    k = Nat.ofDigitChars 10 (Nat.toDigits 10 k) 0 := Nat.ofDigitChars_ten_toDigits.symm
    _ = Nat.ofDigitChars 10 (Nat.toDigits 10 l) 0 := by rw [same]
    _ = l := Nat.ofDigitChars_ten_toDigits

theorem toDecimal_injective {n m : Int} (same : toDecimal n = toDecimal m) : n = m := by
  cases n with
  | ofNat n =>
      cases m with
      | ofNat m => rw [toDigits_injective same]
      | negSucc m => exact absurd same (toDigits_ne_minus n _)
  | negSucc n =>
      cases m with
      | ofNat m => exact absurd same.symm (toDigits_ne_minus m _)
      | negSucc m =>
          have equal := toDigits_injective (List.cons.inj same).2
          rw [show n = m by omega]

end Cxx
