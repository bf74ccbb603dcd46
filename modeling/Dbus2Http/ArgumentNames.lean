import Dbus2Http.ExtractedValues
import Mathlib.Data.List.Nodup

set_option autoImplicit false

namespace Dbus2Http

open Cxx (Str Run Settles)
open Dbus (Basic Ty Value Cursor MessageReader LawfulReader)
open Message2Json (Env Reads Extracts extractMessage extractArgument extractArguments bareEnv)

/-! ### Numbered names -/

/-- The name made for an unnamed argument. -/
def generatedName (i : Nat) : Str := "arg".toList ++ Cxx.toDecimal i

theorem generatedName_ne_nil (i : Nat) : generatedName i ≠ [] := List.cons_ne_nil _ _

theorem generatedName_injective {i j : Nat} (same : generatedName i = generatedName j) : i = j := by
  have numbers : (i : Int) = j := Cxx.toDecimal_injective (List.append_cancel_left same)
  omega

/-- The name of an argument that has a number ready for it. -/
def nameOf (p : Argument × Nat) : Str := if p.1.name = [] then generatedName p.2 else p.1.name

/-- No two arguments that have names have the same. -/
def NamesDistinct (args : List Argument) : Prop :=
  args.Pairwise fun a b => a.name ≠ [] → a.name ≠ b.name

/-- A name made for an unnamed argument is the name another one has. -/
def Clash (numbered : List (Argument × Nat)) : Prop :=
  ∃ p ∈ numbered, ∃ q ∈ numbered, p.1.name = [] ∧ q.1.name = generatedName p.2

/-- Names that are given and names that are made are pairwise distinct exactly when none is
both: the given ones are distinct, and so are the numbers. -/
theorem names_nodup_iff {numbered : List (Argument × Nat)}
    (distinct : NamesDistinct (numbered.map Prod.fst))
    (numbers : numbered.Pairwise fun p q => p.1.name = [] → q.1.name = [] → p.2 ≠ q.2) :
    (numbered.map nameOf).Nodup ↔ ¬ Clash numbered := by
  constructor
  · rintro nodup ⟨p, inside, q, inside', unnamed, same⟩
    have named : q.1.name ≠ [] := by
      rw [same]
      exact generatedName_ne_nil p.2
    have equal : nameOf p = nameOf q := by
      rw [nameOf, nameOf, if_pos unnamed, if_neg named, same]
    have itself := List.inj_on_of_nodup_map nodup inside inside' equal
    rw [itself] at unnamed
    exact named unnamed
  · intro apart
    rw [List.nodup_iff_pairwise_ne, List.pairwise_map]
    rw [NamesDistinct, List.pairwise_map] at distinct
    apply (distinct.and numbers).imp_of_mem
    intro p q inside inside' both equal
    rw [nameOf, nameOf] at equal
    by_cases unnamed : p.1.name = []
    · by_cases unnamed' : q.1.name = []
      · rw [if_pos unnamed, if_pos unnamed'] at equal
        exact both.2 unnamed unnamed' (generatedName_injective equal)
      · rw [if_pos unnamed, if_neg unnamed'] at equal
        exact apart ⟨p, inside, q, inside', unnamed, equal.symm⟩
    · by_cases unnamed' : q.1.name = []
      · rw [if_neg unnamed, if_pos unnamed'] at equal
        exact apart ⟨q, inside', p, inside, unnamed', equal⟩
      · rw [if_neg unnamed, if_neg unnamed'] at equal
        exact both.1 unnamed equal

/-! ### Arguments of methods and of signals -/

/-- Each argument with the number of unnamed ones before it, from `i` on. -/
def unnamedBefore : Nat → List Argument → List (Argument × Nat)
  | _, [] => []
  | i, arg :: rest => (arg, i) :: unnamedBefore (if arg.name = [] then i + 1 else i) rest

theorem unnamedBefore_fst (i : Nat) (args : List Argument) :
    (unnamedBefore i args).map Prod.fst = args := by
  induction args generalizing i with
  | nil => rfl
  | cons arg rest ih => rw [unnamedBefore, List.map_cons, ih]

theorem unnamedBefore_le {i : Nat} {args : List Argument} {p : Argument × Nat}
    (inside : p ∈ unnamedBefore i args) : i ≤ p.2 := by
  induction args generalizing i with
  | nil => cases inside
  | cons arg rest ih =>
      rcases List.mem_cons.mp inside with same | later
      · rw [same]
      · have := ih later
        split at this <;> omega

theorem unnamedBefore_numbers (i : Nat) (args : List Argument) :
    (unnamedBefore i args).Pairwise fun p q => p.1.name = [] → q.1.name = [] → p.2 ≠ q.2 := by
  induction args generalizing i with
  | nil => exact .nil
  | cons arg rest ih =>
      apply List.Pairwise.cons
      · intro q inside unnamed _
        rw [if_pos unnamed] at inside
        have := unnamedBefore_le inside
        simp only [ne_eq]
        omega
      · exact ih _

/-- What `Method::add` makes of arguments, each after those before it. -/
theorem add_args (args : List Argument) (method : Method) :
    (args.foldl Method.add method).args = method.args ++
      (args.zipIdx method.args.length).map fun p => { p.1 with name := nameOf p } := by
  induction args generalizing method with
  | nil => simp
  | cons arg rest ih =>
      have one : (method.add arg).args =
          method.args ++ [{ arg with name := nameOf (arg, method.args.length) }] := by
        unfold Method.add nameOf
        by_cases unnamed : arg.name = [] <;> simp [unnamed, generatedName]
      rw [List.foldl_cons, ih, one, List.zipIdx_cons, List.map_cons, List.append_assoc]
      simp

/-- `Signal::add` leaves the arguments as they are. -/
theorem signal_args (args : List Argument) (signal : Signal) :
    (args.foldl Signal.add signal).args = signal.args ++ args := by
  induction args generalizing signal with
  | nil => simp
  | cons arg rest ih =>
      rw [List.foldl_cons, ih]
      simp [Signal.add]

/-! ### The values of a reply or of a signal -/

/-- An argument with its value in the message and what that is read as. -/
structure ReplyPart where
  arg : Argument
  value : Value
  json : Json

/-- The value has the type of the argument and is read on its own. -/
structure ReplyPart.Readable (env : Env) (p : ReplyPart) : Prop where
  type : p.arg.type = p.value.typeOf.text
  reads : Reads env [p.value] p.json

/-- The member names, in the order of the arguments. -/
def memberNames (i : Nat) (args : List Argument) : List Str := (unnamedBefore i args).map nameOf

theorem memberNames_length (i : Nat) (args : List Argument) :
    (memberNames i args).length = args.length := by
  have length := congrArg List.length (unnamedBefore_fst i args)
  simpa [memberNames] using length

/-- The values are read one after the other and assigned to the names. -/
theorem extractArguments_fold {M : Type} [LawfulReader M] {env : Env} {parts : List ReplyPart}
    (readable : ∀ p ∈ parts, p.Readable env) {m : M} {rest : List Value}
    (good : (LawfulReader.cursor m).good = true)
    (ahead : (LawfulReader.cursor m).top.rest = parts.map ReplyPart.value ++ rest) (i : Nat)
    (done : List (Str × Json)) :
    ∃ m' j enough, LawfulReader.cursor m' = (LawfulReader.cursor m).withRest rest ∧
      ∀ fuel, enough ≤ fuel →
        (parts.map ReplyPart.arg).foldlM (extractArgument env fuel) (Json.ofAssignments done, i, m) =
          .ok (Json.ofAssignments (done ++
            (memberNames i (parts.map ReplyPart.arg)).zip (parts.map ReplyPart.json)), j, m') := by
  induction parts generalizing m i done with
  | nil =>
      refine ⟨m, i, 0, ?_, fun fuel _ => ?_⟩
      · rw [List.map_nil, List.nil_append] at ahead
        rw [Cursor.withRest, ← ahead]
      · rw [List.map_nil, List.map_nil, List.zip_nil_right, List.append_nil]
        rfl
  | cons p parts ih =>
      have here := readable p (by simp)
      obtain ⟨m₁, ⟨enough₁, first⟩, moved⟩ := here.reads.anywhere good ahead
      have good₁ : (LawfulReader.cursor m₁).good = true := by
        rw [moved]
        exact good
      have ahead₁ : (LawfulReader.cursor m₁).top.rest = parts.map ReplyPart.value ++ rest := by
        rw [moved]
        rfl
      obtain ⟨m', j, enough₂, moved', others⟩ := ih (fun q inside => readable q (by simp [inside]))
        good₁ ahead₁ (if p.arg.name = [] then i + 1 else i) (done ++ [(nameOf (p.arg, i), p.json)])
      refine ⟨m', j, max enough₁ enough₂, ?_, fun fuel le => ?_⟩
      · rw [moved', moved, Cursor.withRest_withRest]
      · have one : extractArgument env fuel (Json.ofAssignments done, i, m) p.arg =
            .ok (Json.ofAssignments (done ++ [(nameOf (p.arg, i), p.json)]),
              (if p.arg.name = [] then i + 1 else i), m₁) := by
          have read : extractMessage env fuel m p.arg.type = .ok (p.json, m₁) := by
            rw [here.type]
            exact first fuel (by omega)
          unfold extractArgument nameOf
          by_cases unnamed : p.arg.name = []
          · simp only [unnamed, ↓reduceIte, read, Cxx.bind_ok, Json.setMember_ofAssignments, generatedName]
          · simp only [unnamed, ↓reduceIte, read, Cxx.bind_ok, Json.setMember_ofAssignments]
        rw [List.map_cons, List.foldlM_cons, one, Cxx.bind_ok, others fuel (by omega)]
        rw [List.append_assoc]
        rfl

theorem extractArguments_settles {M : Type} [LawfulReader M] {env : Env} {parts : List ReplyPart}
    (readable : ∀ p ∈ parts, p.Readable env) {m : M} {rest : List Value}
    (good : (LawfulReader.cursor m).good = true)
    (ahead : (LawfulReader.cursor m).top.rest = parts.map ReplyPart.value ++ rest) :
    ∃ m', LawfulReader.cursor m' = (LawfulReader.cursor m).withRest rest ∧
      Settles (fun fuel => extractArguments env fuel m (parts.map ReplyPart.arg))
        (.ok (Json.ofAssignments
          ((memberNames 0 (parts.map ReplyPart.arg)).zip (parts.map ReplyPart.json)), m')) := by
  obtain ⟨m', j, enough, moved, ran⟩ := extractArguments_fold readable good ahead 0 []
  refine ⟨m', moved, enough, fun fuel le => ?_⟩
  have folded := ran fuel le
  rw [List.nil_append] at folded
  simp only [extractArguments]
  change ((parts.map ReplyPart.arg).foldlM (extractArgument env fuel)
    (Json.ofAssignments [], 0, m) >>= _) = _
  rw [folded]
  rfl

/-! ### One member for each argument -/

/-- As many members as arguments, each argument having one of its own with its value, under
its own name where it has one. -/
structure MemberEach (parts : List ReplyPart) (json : Json) : Prop where
  object : ∃ members, json = .object members ∧ members.length = parts.length
  held : ∃ names : List Str, names.Nodup ∧ names.length = parts.length ∧
    ∀ q ∈ names.zip parts, (q.2.arg.name ≠ [] → q.1 = q.2.arg.name) ∧
      json.member? q.1 = some q.2.json

theorem memberNames_kept {i : Nat} {parts : List ReplyPart} {q : Str × ReplyPart}
    (inside : q ∈ (memberNames i (parts.map ReplyPart.arg)).zip parts) (named : q.2.arg.name ≠ []) :
    q.1 = q.2.arg.name := by
  induction parts generalizing i with
  | nil => simp at inside
  | cons p parts ih =>
      have shape : memberNames i ((p :: parts).map ReplyPart.arg) = nameOf (p.arg, i) ::
          memberNames (if p.arg.name = [] then i + 1 else i) (parts.map ReplyPart.arg) := rfl
      rw [shape, List.zip_cons_cons] at inside
      rcases List.mem_cons.mp inside with same | later
      · rw [same] at named ⊢
        exact if_neg named
      · exact ih later

theorem memberEach_iff (parts : List ReplyPart) :
    MemberEach parts (Json.ofAssignments
        ((memberNames 0 (parts.map ReplyPart.arg)).zip (parts.map ReplyPart.json))) ↔
      parts ≠ [] ∧ (memberNames 0 (parts.map ReplyPart.arg)).Nodup := by
  have length : (memberNames 0 (parts.map ReplyPart.arg)).length = (parts.map ReplyPart.json).length := by
    rw [memberNames_length, List.length_map, List.length_map]
  have assigned := Json.ofAssignments_object_iff
    ((memberNames 0 (parts.map ReplyPart.arg)).zip (parts.map ReplyPart.json))
  have some : (memberNames 0 (parts.map ReplyPart.arg)).zip (parts.map ReplyPart.json) ≠ [] ↔
      parts ≠ [] := by
    rw [← List.length_pos_iff, ← List.length_pos_iff, List.length_zip, length, List.length_map]
    omega
  rw [some, List.map_fst_zip (Nat.le_of_eq length), List.length_zip, length, Nat.min_self,
    List.length_map] at assigned
  constructor
  · intro each
    exact assigned.mp each.object
  · intro good
    refine ⟨assigned.mpr good, memberNames 0 (parts.map ReplyPart.arg), good.2, ?_, ?_⟩
    · rw [length, List.length_map]
    · intro q inside
      refine ⟨memberNames_kept inside, ?_⟩
      have assigned : (q.1, q.2.json) ∈
          (memberNames 0 (parts.map ReplyPart.arg)).zip (parts.map ReplyPart.json) := by
        rw [List.zip_map_right]
        exact List.mem_map_of_mem inside
      apply Json.member?_ofAssignments _ assigned
      rw [List.map_fst_zip (Nat.le_of_eq length)]
      exact good.2

theorem memberNames_named {args : List Argument} (named : ∀ arg ∈ args, arg.name ≠ []) (i : Nat) :
    memberNames i args = args.map Argument.name := by
  induction args generalizing i with
  | nil => rfl
  | cons arg rest ih =>
      have first : nameOf (arg, i) = arg.name := if_neg (named arg (by simp))
      rw [memberNames, unnamedBefore, List.map_cons, List.map_cons, first]
      congr 1
      exact ih (fun other inside => named other (by simp [inside])) _

/-- The output arguments of a method, each with its position among all arguments. -/
def outputs (args : List Argument) : List (Argument × Nat) :=
  args.zipIdx.filter fun p => p.1.direction = "out".toList

theorem outArgs_names {args : List Argument} {method : Method} (fresh : method.args = []) :
    memberNames 0 (args.foldl Method.add method).outArgs = (outputs args).map nameOf := by
  have built : (args.foldl Method.add method).outArgs =
      (outputs args).map fun p => { p.1 with name := nameOf p } := by
    rw [Method.outArgs, add_args, fresh, List.nil_append, List.length_nil, List.filter_map]
    rfl
  rw [memberNames_named, built, List.map_map]
  · rfl
  · intro arg inside
    rw [built] at inside
    obtain ⟨p, _, rfl⟩ := List.mem_map.mp inside
    change nameOf p ≠ []
    unfold nameOf
    split
    · exact generatedName_ne_nil p.2
    · assumption

theorem outputs_nodup_iff {args : List Argument} (distinct : NamesDistinct args) :
    ((outputs args).map nameOf).Nodup ↔ ¬ Clash (outputs args) := by
  apply names_nodup_iff
  · have all : NamesDistinct (args.zipIdx.map Prod.fst) := by
      rw [List.zipIdx_map_fst]
      exact distinct
    exact all.sublist (List.filter_sublist.map Prod.fst)
  · have numbers : args.zipIdx.Pairwise fun p q => p.2 ≠ q.2 := by
      have nodup : (args.zipIdx.map Prod.snd).Nodup := by
        rw [List.zipIdx_map_snd]
        exact List.nodup_range'
      rwa [List.nodup_iff_pairwise_ne, List.pairwise_map] at nodup
    exact (numbers.sublist List.filter_sublist).imp fun different _ _ => different

theorem memberNames_nodup_iff {args : List Argument} (distinct : NamesDistinct args) :
    (memberNames 0 args).Nodup ↔ ¬ Clash (unnamedBefore 0 args) := by
  apply names_nodup_iff
  · rw [unnamedBefore_fst]
    exact distinct
  · exact unnamedBefore_numbers 0 args

/-- What the code returns for the arguments keeps every value. -/
def KeepsValues {M : Type} [LawfulReader M] (env : Env) (m : M) (rest : List Value)
    (args : List Argument) (parts : List ReplyPart) : Prop :=
  ∃ json m', Settles (fun fuel => extractArguments env fuel m args) (.ok (json, m')) ∧
    LawfulReader.cursor m' = (LawfulReader.cursor m).withRest rest ∧ MemberEach parts json

theorem keepsValues_iff {M : Type} [LawfulReader M] {env : Env} {parts : List ReplyPart}
    (readable : ∀ p ∈ parts, p.Readable env) {m : M} {rest : List Value}
    (good : (LawfulReader.cursor m).good = true)
    (ahead : (LawfulReader.cursor m).top.rest = parts.map ReplyPart.value ++ rest) :
    KeepsValues env m rest (parts.map ReplyPart.arg) parts ↔
      parts ≠ [] ∧ (memberNames 0 (parts.map ReplyPart.arg)).Nodup := by
  obtain ⟨m', moved, settles⟩ := extractArguments_settles readable good ahead
  rw [← memberEach_iff]
  constructor
  · rintro ⟨json, n', settles', _, each⟩
    have same := (Prod.mk.inj (Except.ok.inj (settles.unique settles'))).1
    rwa [same]
  · intro each
    exact ⟨_, m', settles, moved, each⟩

def textArgument (name : Str) : Argument := { name := name, type := "s".toList, direction := "out".toList }

def textPart (name text : Str) : ReplyPart :=
  ⟨textArgument name, .string (Dbus.zeroFree text), .string (Dbus.zeroFree text).val⟩

theorem textPart_readable (name text : Str) : (textPart name text).Readable bareEnv :=
  ⟨rfl, Message2Json.reads_scalar bareEnv (v := .string (Dbus.zeroFree text)) (b := .string) rfl trivial⟩

theorem textParts_readable (pairs : List (Str × Str)) :
    ∀ p ∈ pairs.map (fun pair => textPart pair.1 pair.2), p.Readable bareEnv := by
  intro p inside
  obtain ⟨pair, _, rfl⟩ := List.mem_map.mp inside
  exact textPart_readable pair.1 pair.2

end Dbus2Http
