import Dbus2Http.ExtractedValues
import Mathlib.Logic.Relation

set_option autoImplicit false

namespace Dbus2Http.Message2Json

open Cxx (Str Run Throws throwExn)
open Dbus (Basic Ty Value Cursor MessageReader LawfulReader)

/-! ### The loop over `read()` as a system of its own -/

/-- How many reads have succeeded, and what they have brought. -/
structure Progress where
  reads : Nat
  binaries : List UInt8

/-- One more successful read; it is made only after the size has passed its check. -/
inductive ReadsChunk (env : Env) (fd : Int) : Progress → Progress → Prop
  | read {p : Progress} {chunk : List UInt8} {some : chunk ≠ []}
      (fits : p.binaries.length ≤ env.config.maxFileDescriptorSize)
      (result : env.reads fd p.reads = .bytes chunk some) :
      ReadsChunk env fd p ⟨p.reads + 1, p.binaries ++ chunk⟩

/-- The loop is in this state after some of its reads. -/
def Holds (env : Env) (fd : Int) : Progress → Prop :=
  Relation.ReflTransGen (ReadsChunk env fd) ⟨0, []⟩

/-- How the loop ends in a state. -/
inductive Stops (env : Env) (fd : Int) (p : Progress) : Run (List UInt8) → Prop
  | tooLarge (beyond : env.config.maxFileDescriptorSize < p.binaries.length) :
      Stops env fd p (throwExn .runtimeError "File descriptor data exceeds 10MB limit".toList)
  | endOfFile (fits : p.binaries.length ≤ env.config.maxFileDescriptorSize)
      (result : env.reads fd p.reads = .endOfFile) : Stops env fd p (.ok p.binaries)
  | interrupted (fits : p.binaries.length ≤ env.config.maxFileDescriptorSize)
      (result : env.reads fd p.reads = .interrupted) :
      Stops env fd p (throwExn .runtimeError "read() interrupted by signal".toList)
  | failed {error : Str} (fits : p.binaries.length ≤ env.config.maxFileDescriptorSize)
      (result : env.reads fd p.reads = .failed error) :
      Stops env fd p (throwExn .runtimeError ("read() failed: ".toList ++ error))

/-- The code's loop runs through these states and ends in one of them. -/
theorem readDescriptor_stops {env : Env} {fd : Int} {p : Progress} (holds : Holds env fd p)
    (fits : p.binaries.length ≤ env.config.maxFileDescriptorSize) {fuel : Nat}
    (enough : env.config.maxFileDescriptorSize < fuel + p.binaries.length) :
    ∃ last, Holds env fd last ∧ Stops env fd last (readDescriptor env fd fuel p.reads p.binaries) := by
  induction fuel generalizing p with
  | zero => omega
  | succ fuel ih =>
      rw [readDescriptor]
      cases result : env.reads fd p.reads with
      | bytes chunk some =>
          have next : Holds env fd ⟨p.reads + 1, p.binaries ++ chunk⟩ := holds.tail (.read fits result)
          have grown : 0 < chunk.length := List.length_pos_iff.mpr some
          by_cases beyond : env.config.maxFileDescriptorSize < (p.binaries ++ chunk).length
          · simp only [beyond, ↓reduceIte]
            exact ⟨_, next, .tooLarge beyond⟩
          · simp only [beyond, ↓reduceIte]
            rw [List.length_append] at beyond
            apply ih next
            · simp only [List.length_append]
              omega
            · simp only [List.length_append]
              omega
      | endOfFile => exact ⟨p, holds, .endOfFile fits result⟩
      | interrupted => exact ⟨p, holds, .interrupted fits result⟩
      | failed error => exact ⟨p, holds, .failed fits result⟩

/-! ### What the loop can hold -/

/-- No read brings more than the buffer takes. -/
def Buffered (env : Env) (fd : Int) : Prop :=
  ∀ i chunk some, env.reads fd i = .bytes chunk some → chunk.length ≤ 4096

/-- Every read has brought something, and only the last may have crossed the limit. -/
structure Within (env : Env) (p : Progress) : Prop where
  each : p.reads ≤ p.binaries.length
  reads : p.reads ≤ env.config.maxFileDescriptorSize + 1
  size : p.binaries.length ≤ env.config.maxFileDescriptorSize + 4096

theorem ReadsChunk.within {env : Env} {fd : Int} (buffered : Buffered env fd) {p next : Progress}
    (step : ReadsChunk env fd p next) (within : Within env p) : Within env next := by
  cases step with
  | @read chunk some fits result =>
      have grown : 0 < chunk.length := List.length_pos_iff.mpr some
      have short := buffered _ _ _ result
      have each := within.each
      constructor
      · simp only [List.length_append]
        omega
      · simp only
        omega
      · simp only [List.length_append]
        omega

theorem Holds.within {env : Env} {fd : Int} (buffered : Buffered env fd) {p : Progress}
    (holds : Holds env fd p) : Within env p := by
  induction holds with
  | refl => exact ⟨Nat.le_refl _, Nat.zero_le _, Nat.zero_le _⟩
  | tail _ step ih => exact step.within buffered ih

/-! ### Chunks -/

/-- The first reads bring these chunks. -/
def Delivers (env : Env) (fd : Int) (chunks : List (List UInt8)) : Prop :=
  ∀ i, ∀ inside : i < chunks.length, ∃ some : chunks[i] ≠ [], env.reads fd i = .bytes chunks[i] some

/-- The reads bring these chunks, and then the end of the file. -/
def Delivered (env : Env) (fd : Int) (chunks : List (List UInt8)) : Prop :=
  Delivers env fd chunks ∧ env.reads fd chunks.length = .endOfFile

theorem Delivers.concat {env : Env} {fd : Int} {chunks : List (List UInt8)} {chunk : List UInt8}
    {some : chunk ≠ []} (delivers : Delivers env fd chunks)
    (next : env.reads fd chunks.length = .bytes chunk some) : Delivers env fd (chunks ++ [chunk]) := by
  intro i inside
  rw [List.length_append, List.length_singleton] at inside
  by_cases last : i = chunks.length
  · refine ⟨by simpa [last] using some, ?_⟩
    simp [last, next]
  · have before : i < chunks.length := by omega
    obtain ⟨nonempty, result⟩ := delivers i before
    simp only [List.getElem_append_left before]
    exact ⟨nonempty, result⟩

/-- A state is made of the chunks that the reads before it brought. -/
theorem Holds.delivers {env : Env} {fd : Int} {p : Progress} (holds : Holds env fd p) :
    ∃ chunks, Delivers env fd chunks ∧ p = ⟨chunks.length, chunks.flatten⟩ := by
  induction holds with
  | refl => exact ⟨[], by simp [Delivers], rfl⟩
  | tail _ step ih =>
      obtain ⟨chunks, delivers, rfl⟩ := ih
      cases step with
      | @read chunk some fits result => exact ⟨chunks ++ [chunk], delivers.concat result, by simp⟩

theorem Delivers.holds {env : Env} {fd : Int} {chunks : List (List UInt8)}
    (delivers : Delivers env fd chunks)
    (fits : chunks.flatten.length ≤ env.config.maxFileDescriptorSize) :
    Holds env fd ⟨chunks.length, chunks.flatten⟩ := by
  induction chunks using List.reverseRecOn with
  | nil => exact .refl
  | append_singleton chunks chunk ih =>
      have before : Delivers env fd chunks := by
        intro i inside
        have result := delivers i (by rw [List.length_append]; omega)
        simpa only [List.getElem_append_left inside] using result
      obtain ⟨some, result⟩ := delivers chunks.length (by simp)
      have small : chunks.flatten.length ≤ env.config.maxFileDescriptorSize := by
        simp only [List.flatten_append, List.length_append] at fits
        omega
      have step : Holds env fd ⟨chunks.length + 1, chunks.flatten ++ chunk⟩ :=
        (ih before small).tail (.read small (by simpa using result))
      simpa using step

/-- In one state the loop can only end in one way, and it does not read on. -/
theorem Stops.unique {env : Env} {fd : Int} {p : Progress} {first second : Run (List UInt8)}
    (one : Stops env fd p first) (two : Stops env fd p second) : first = second := by
  cases one <;> cases two <;> first | rfl | omega | simp_all

theorem Stops.last {env : Env} {fd : Int} {p next : Progress} {result : Run (List UInt8)}
    (stops : Stops env fd p result) : ¬ ReadsChunk env fd p next := by
  intro step
  cases step
  cases stops <;> first | omega | simp_all

theorem Stops.ok_or_throws {env : Env} {fd : Int} {p : Progress} {result : Run (List UInt8)}
    (stops : Stops env fd p result) : result = .ok p.binaries ∨ Throws result := by
  cases stops with
  | endOfFile fits read => exact .inl rfl
  | tooLarge beyond => exact .inr ⟨_, rfl⟩
  | interrupted fits read => exact .inr ⟨_, rfl⟩
  | failed fits read => exact .inr ⟨_, rfl⟩

/-! ### Exact and bounded -/

/-- The promise about reading a descriptor to this end. -/
structure ExactRead (env : Env) (fd : Int) (result : Run (List UInt8)) : Prop where
  stops : ∃ last, Holds env fd last ∧ Stops env fd last result
  bounded : ∀ p, Holds env fd p → p.reads ≤ env.config.maxFileDescriptorSize + 1 ∧
    p.binaries.length ≤ env.config.maxFileDescriptorSize + 4096
  returns : ∀ binaries, result = .ok binaries ↔
    ∃ chunks, Delivered env fd chunks ∧ chunks.flatten = binaries ∧
      chunks.flatten.length ≤ env.config.maxFileDescriptorSize
  throws : (∀ binaries, result ≠ .ok binaries) → Throws result

/-- The stream determines where the loop ends, and how. -/
theorem Stops.only {env : Env} {fd : Int} {p q : Progress} {first second : Run (List UInt8)}
    (holds : Holds env fd p) (stops : Stops env fd p first) (holds' : Holds env fd q)
    (stops' : Stops env fd q second) : first = second := by
  have deterministic : Relator.RightUnique (ReadsChunk env fd) := by
    intro state left right one two
    cases one with
    | read fits result =>
        cases two with
        | read fits' result' =>
            rw [result] at result'
            cases result'
            rfl
  have same : p = q := by
    rcases Relation.ReflTransGen.total_of_right_unique deterministic holds holds' with later | later
    · rcases Relation.ReflTransGen.cases_head later with same | ⟨next, step, _⟩
      · exact same
      · exact absurd step stops.last
    · rcases Relation.ReflTransGen.cases_head later with same | ⟨next, step, _⟩
      · exact same.symm
      · exact absurd step stops'.last
  rw [same] at stops
  exact stops.unique stops'

theorem exactRead (env : Env) (fd : Int) (buffered : Buffered env fd) :
    ExactRead env fd (readDescriptor env fd (env.config.maxFileDescriptorSize + 1) 0 []) := by
  obtain ⟨last, holds, stops⟩ := @readDescriptor_stops env fd ⟨0, []⟩ .refl (Nat.zero_le _)
    (env.config.maxFileDescriptorSize + 1) (by simp only [List.length_nil]; omega)
  refine ⟨⟨last, holds, stops⟩, ?_, ?_, ?_⟩
  · intro p reached
    have within := reached.within buffered
    exact ⟨within.reads, within.size⟩
  · intro binaries
    constructor
    · intro returned
      obtain ⟨chunks, delivers, rfl⟩ := holds.delivers
      rw [returned] at stops
      cases stops with
      | endOfFile fits read => exact ⟨chunks, ⟨delivers, read⟩, rfl, fits⟩
    · rintro ⟨chunks, ⟨delivers, ended⟩, rfl, fits⟩
      exact stops.only holds (delivers.holds fits) (.endOfFile fits ended)
  · intro never
    rcases stops.ok_or_throws with returned | throws
    · exact absurd returned (never _)
    · exact throws

theorem read_unixFd {M : Type} [LawfulReader M] {m : M} {fd : Int} {rest : List Value}
    (ahead : (LawfulReader.cursor m).top.rest = .unixFd fd :: rest) :
    ∃ m', MessageReader.read m .unixFd = some (some (.unixFd fd), m') ∧
      LawfulReader.cursor m' = (LawfulReader.cursor m).withRest rest := by
  have taken := LawfulReader.read_cursor m .unixFd
  rw [Cursor.read_basic ahead (Value.typeOf_unixFd fd), Option.map_eq_some_iff] at taken
  obtain ⟨⟨answer, m'⟩, read, same⟩ := taken
  obtain ⟨taken, moved⟩ := Prod.mk.inj same
  subst taken
  exact ⟨m', read, moved⟩

/-- However the stream is cut into reads, and whether it ends or not: the call on a
descriptor reads it exactly, within its bounds, and otherwise throws. -/
theorem extractMessage_descriptor {M : Type} [LawfulReader M] (env : Env) {m : M} {fd : Int}
    {rest : List Value} (ahead : (LawfulReader.cursor m).top.rest = .unixFd fd :: rest)
    (buffered : Buffered env fd) :
    ∃ result m', ExactRead env fd result ∧
      LawfulReader.cursor m' = (LawfulReader.cursor m).withRest rest ∧
      ∀ fuel, extractMessage env (fuel + 1) m "h".toList =
        result >>= fun binaries => .ok (.binary binaries, m') := by
  obtain ⟨m', read, moved⟩ := read_unixFd ahead
  refine ⟨_, m', exactRead env fd buffered, moved, fun fuel => ?_⟩
  have called : extractMessage env (fuel + 1) m "h".toList = extractUnixFd env m := rfl
  rw [called, extractUnixFd, read, Cxx.orThrow_some, Cxx.bind_ok]
  rfl

/-- A stream of two chunks on every descriptor. -/
def twoChunks : Env :=
  { bareEnv with
    reads := fun fd i =>
      if fd = -1 then .failed "Bad file descriptor".toList
      else if i = 0 then .bytes [1, 2] (by decide)
      else if i = 1 then .bytes [3] (by decide)
      else .endOfFile
    noDescriptor := rfl }

theorem extractMessage_two_chunks :
    (∃ result m', ExactRead twoChunks 7 result ∧ m' = Cursor.start [] ∧
      ∀ fuel, extractMessage twoChunks (fuel + 1) (Cursor.start [.unixFd 7]) "h".toList =
        result >>= fun binaries => .ok (.binary binaries, m')) ∧
    Delivered twoChunks 7 [[1, 2], [3]] := by
  refine ⟨extractMessage_descriptor (m := Cursor.start [.unixFd 7]) twoChunks rfl ?_, ?_, rfl⟩
  · intro i chunk some result
    simp only [twoChunks] at result
    split at result
    · contradiction
    · split at result
      · cases result
        decide
      · split at result
        · cases result
          decide
        · contradiction
  · intro i inside
    simp only [List.length_cons, List.length_nil] at inside
    obtain rfl | rfl : i = 0 ∨ i = 1 := by omega
    · exact ⟨List.cons_ne_nil 1 [2], rfl⟩
    · exact ⟨List.cons_ne_nil 3 [], rfl⟩

end Dbus2Http.Message2Json
